import Mathlib.Tactic

/-!
# Publication by parity

One bit per residue class modulo `N` tells which sequences are published: sequence `s` is in lap
`s / N`, and it counts as published when the bit of its class has the parity of its lap.  Publishing
flips the bit, so the bit alone cannot tell `s` from `s + 2 * N`; within a window of `N` sequences it
does, as long as the window only moves past published sequences.  `Tracks` is that invariant.
-/

namespace Land

namespace Parity

/-- The bit of the class of `s` has the parity of the lap of `s`. -/
def Published (N : ℕ) (bit : ℕ → Bool) (s : ℕ) : Prop := bit (s % N) = decide (s / N % 2 = 1)

/-- The bits tell exactly which sequences of the window `[a, a + N)` are published. -/
def Tracks (N : ℕ) (bit : ℕ → Bool) (a : ℕ) (pub : ℕ → Bool) : Prop :=
  ∀ s, a ≤ s → s < a + N → (Published N bit s ↔ pub s = true)

/-- One lap later the same bit reads the opposite. -/
theorem published_add_iff {N : ℕ} (hN : 0 < N) (bit : ℕ → Bool) (s : ℕ) :
    Published N bit (s + N) ↔ ¬ Published N bit s := by
  unfold Published
  rw [Nat.add_mod_right, Nat.add_div_right s hN]
  have hpar : decide ((s / N).succ % 2 = 1) = !decide (s / N % 2 = 1) := by
    rw [Nat.succ_eq_add_one, ← decide_not, decide_eq_decide]
    omega
  rw [hpar]
  cases bit (s % N) <;> cases decide (s / N % 2 = 1) <;> simp

/-- All bits set: nothing of the first lap is published. -/
theorem tracks_start {N : ℕ} {bit : ℕ → Bool} (h : ∀ s, s < N → bit s = true) :
    Tracks N bit 0 fun _ => false := by
  intro s _ hs
  rw [Nat.zero_add] at hs
  simp only [Published, Nat.mod_eq_of_lt hs, h s hs, Nat.div_eq_of_lt hs]
  decide

/-- The window may move past published sequences. -/
theorem Tracks.advance {N a r : ℕ} {bit : ℕ → Bool} {pub : ℕ → Bool} (hN : 0 < N)
    (h : Tracks N bit a pub) (har : a ≤ r) (hr : r ≤ a + N) (past : ∀ s, a ≤ s → s < r → pub s = true)
    (ahead : ∀ s, a + N ≤ s → pub s = false) : Tracks N bit r pub := by
  intro s hs hs'
  rcases Nat.lt_or_ge s (a + N) with hlt | hge
  · exact h s (le_trans har hs) hlt
  · obtain ⟨t, rfl⟩ : ∃ t, s = t + N := ⟨s - N, by omega⟩
    rw [published_add_iff hN, h t (by omega) (by omega), past t (by omega) (by omega),
      ahead (t + N) hge]
    simp

/-- Flipping the bits of unpublished sequences of the window publishes them. -/
theorem Tracks.flip {N a : ℕ} {bit bit' : ℕ → Bool} {pub new : ℕ → Bool} (h : Tracks N bit a pub)
    (unpublished : ∀ s, new s = true → pub s = false)
    (hbit : ∀ s, a ≤ s → s < a + N → bit' (s % N) = (bit (s % N) ^^ new s)) :
    Tracks N bit' a fun s => pub s || new s := by
  intro s hs hs'
  have h0 := h s hs hs'
  unfold Published at h0 ⊢
  show _ ↔ (pub s || new s) = true
  rw [hbit s hs hs']
  cases hnew : new s with
  | false => simpa using h0
  | true =>
    rw [unpublished s hnew] at h0
    simp only [Bool.false_eq_true, iff_false] at h0
    simp only [Bool.xor_true, Bool.or_true, iff_true]
    revert h0
    cases bit (s % N) <;> cases decide (s / N % 2 = 1) <;> simp

end Parity

end Land
