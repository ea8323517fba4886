import Land.Mpsc.Delivery

/-!
# When the availability bitmap is exact

The constructor accepts every power of two, but rounds the bitmap up to whole words of 64 bits, while
the parity expected of a bit follows the laps of the ring.  From capacity 64 on there is one bit per
slot and `is_published` is exact.  Below, sequence `capacity` has a bit of its own, still set from the
start, and the second lap expects it set: it counts as published as soon as it enters the window.
-/

namespace Land.Mpsc

open Channel

variable {T : Type}

/-- In the consumer's window `is_published` tells exactly which sequences were marked published. -/
def State.AvailabilityExact (s : State T) : Prop :=
  ∀ q : ℕ, s.shared.consumerCursor < q → (q : ℤ) ≤ s.shared.consumerCursor + s.shared.capacity →
    (s.shared.isPublished q = true ↔ s.ring.published q = true)

theorem Inv.availabilityExact {cap : ℕ} {s : State T} (h : Inv cap s) : s.AvailabilityExact := by
  intro q hlo hhi
  rw [h.coupled.consumer] at hlo hhi
  rw [h.coupled.bits.capacity_eq] at hhi
  rw [isPublished_iff h.coupled.bits]
  exact h.coupled.parity q (by omega) (by omega)

/-! ## One word for fewer slots -/

/-- A bitmap of one word in which only sequence `0` was marked. -/
structure Shared.FirstMarked (sh : Shared T) : Prop where
  words : sh.availabilityWords = 1
  word : sh.availability 0 = BitVec.allOnes 64 ^^^ 1#64 <<< 0

theorem firstMarked_markPublished (sh : Shared T) {e : ℤ} (he : e = 0)
    (hw : sh.availabilityWords = 1) (hall : sh.availability 0 = BitVec.allOnes 64) :
    (sh.markPublished e).FirstMarked := by
  subst he
  refine ⟨hw, ?_⟩
  have hidx : sh.wordIndex 0 = 0 := Nat.zero_mod _
  simp only [Shared.markPublished, Shared.fetchXor, hidx, Function.update_self, hall]
  rfl

theorem Shared.FirstMarked.isPublished_zero {sh : Shared T} (h : sh.FirstMarked) :
    sh.isPublished 0 = true := by
  have hpub := isPublished_eq sh 0
  rw [Nat.cast_zero] at hpub
  rw [hpub, show sh.wordIndex 0 = 0 from Nat.zero_mod _, h.word, Nat.zero_div]
  rfl

/-- The sequence one lap later has a bit of its own, still set, as its lap expects. -/
theorem Shared.FirstMarked.isPublished_capacity {sh : Shared T} (h : sh.FirstMarked) {cap : ℕ}
    (hcap : sh.capacity = cap) (hpos : 0 < cap) (hlt : cap < 64) : sh.isPublished cap = true := by
  have hbit : ∀ j : Fin 64, j ≠ 0 → (BitVec.allOnes 64 ^^^ 1#64 <<< 0).getLsbD j = true := by decide
  have hset := hbit ⟨cap, hlt⟩ (Fin.ne_of_val_ne hpos.ne')
  rw [isPublished_eq, wordIndex_natCast, h.words, Nat.mod_one, h.word, bitIndex_natCast,
    Nat.mod_eq_of_lt hlt, hset, hcap, Nat.div_self hpos]
  rfl

/-- After one event went through a channel below the word size, the sequence one lap later counts as
published and is not. -/
theorem not_availabilityExact_of_lt {cap : ℕ} (hcap : isPowerOfTwo cap = true) (hlt : cap < 64)
    (v : T) : ∃ s : State T, (system T cap).Reachable s ∧ s.shared.consumerCursor = 0 ∧
      s.shared.capacity = cap ∧ s.shared.isPublished cap = true ∧ s.ring.published cap = false := by
  have hpos := pos_of_isPowerOfTwo hcap
  have hwords : (cap + bitsPerWord - 1) / bitsPerWord = 1 := by
    unfold bitsPerWord
    omega
  have hroom : ¬ (-1 : ℤ) < -1 + (1 : ℕ) - cap := by omega
  have hsh : createShared cap (none : Option T) = some _ := congrArg (Option.map _) (if_pos hcap)
  have h0 : (system T cap).Reachable (State.initial _) := .init ⟨none, _, hsh, rfl⟩
  -- producer `0` sends
  have h1 := h0.step (.call 0 (.send v)) rfl
  have h2 := h1.step (.step 0) rfl
  have h3 := h2.step (.step 0) rfl
  have h4 := h3.step (.step 0) (congrArg (Option.map _) (if_neg hroom))
  have h5 := h4.step (.step 0) rfl
  have h6 := h5.step (.step 0) rfl
  have hmark := fun sh : Shared T =>
    firstMarked_markPublished sh (show initialCursorValue + ((1 : ℕ) : ℤ) = 0 from rfl)
  -- the consumer receives
  have h7 := h6.step (.consumerCall (.single .tryRecv)) rfl
  have h8 := h7.step .consumerStep
    (congrArg (Option.map _) (if_pos (Shared.FirstMarked.isPublished_zero (hmark _ hwords rfl))))
  have h9 := h8.step .consumerStep rfl
  have h10 := h9.step .consumerStep rfl
  refine ⟨_, h10, rfl, rfl, ?_, ?_⟩
  · exact Shared.FirstMarked.isPublished_capacity ⟨hwords, (hmark _ hwords rfl).word⟩ rfl hpos hlt
  · show (false || decide (0 ≤ cap ∧ cap < 0 + 1)) = false
    rw [Bool.false_or, decide_eq_false_iff_not]
    omega

/-- Of the capacities the constructor accepts, the bitmap is exact in every reachable state for those
of at least one word, and for no other. -/
theorem availabilityExact_iff [Inhabited T] {cap : ℕ} (hcap : isPowerOfTwo cap = true) :
    (∀ s : State T, (system T cap).Reachable s → s.AvailabilityExact) ↔ 64 ≤ cap := by
  constructor
  · intro h
    by_contra hlt
    obtain ⟨s, hs, hcur, hcapacity, hpub, hnot⟩ :=
      not_availabilityExact_of_lt hcap (not_le.1 hlt) (default : T)
    have hpos := pos_of_isPowerOfTwo hcap
    have hexact := (h s hs cap (by omega) (by omega)).1 hpub
    rw [hnot] at hexact
    exact absurd hexact (by decide)
  · exact fun h s hs => (inv_of_reachable h hs).availabilityExact

theorem availabilityExact_sixtyFour : isPowerOfTwo 64 = true ∧
    ∀ s : State ℕ, (system ℕ 64).Reachable s → s.AvailabilityExact :=
  ⟨by decide, (availabilityExact_iff (by decide)).2 le_rfl⟩

/-- Capacity 32, after one event: sequence 32 was never marked and counts as published. -/
theorem not_availabilityExact_thirtyTwo : isPowerOfTwo 32 = true ∧
    ∃ s : State ℕ, (system ℕ 32).Reachable s ∧ s.shared.consumerCursor < 32 ∧
      32 ≤ s.shared.consumerCursor + s.shared.capacity ∧ s.shared.isPublished 32 = true ∧
      s.ring.published 32 = false ∧ ¬ s.AvailabilityExact := by
  obtain ⟨s, hs, hcur, hcapacity, hpub, hnot⟩ :=
    not_availabilityExact_of_lt (show isPowerOfTwo 32 = true by decide) (by decide) (7 : ℕ)
  refine ⟨by decide, s, hs, by omega, by omega, hpub, hnot, fun hexact => ?_⟩
  have := (hexact 32 (by omega) (by omega)).1 hpub
  rw [hnot] at this
  exact absurd this (by decide)

end Land.Mpsc
