import Land.Channel.WaitStrategy

/-!
# Waiting for a cursor

`wait_for` of `cpu/src/wait_strategy.rs` for a cursor that changes from step to step.  `BackoffWait` loads the
cursor only in its inner loop, which runs `spins` times, and `spins` is doubled and cut to `max_spins` after each
round.  So a positive number stays positive, and zero stays zero: with `initial_spins` or `max_spins` zero the
strategy ends up in rounds that do not load the cursor.
-/

namespace Land.Channel

/-- `saturating_mul(2)` and the cut keep a number positive. -/
theorem min_saturatingMul_pos {spins maxSpins : ℕ} (h : 0 < spins) (hmax : 0 < maxSpins) :
    0 < min (saturatingMul spins 2) maxSpins := by
  unfold saturatingMul
  omega

/-- They keep zero, and a cut to zero gives zero. -/
theorem min_saturatingMul_eq_zero {spins maxSpins : ℕ} (h : spins = 0 ∨ maxSpins = 0) :
    min (saturatingMul spins 2) maxSpins = 0 := by
  unfold saturatingMul
  omega

/-- The cursor is below the target for `n` steps, and not from then on. -/
structure CursorReaches (target : ℤ) (cursor : ℕ → ℤ) (n : ℕ) : Prop where
  below : ∀ k < n, cursor k < target
  reached : ∀ k, n ≤ k → target ≤ cursor k

namespace WaitStrategy

/-- `wait_for` from its step `k` on: the step of the load that it returns, and the value.  No result if it does
not return within the given number of steps. -/
def waitFrom (w : WaitStrategy) (target : ℤ) (cursor : ℕ → ℤ) (k : ℕ) (l : WaitLoop) : ℕ → Option (ℕ × ℤ)
  | 0 => none
  | steps + 1 =>
      match w.turn target (cursor k) l with
      | none => some (k, cursor k)
      | some l' => waitFrom w target cursor (k + 1) l' steps

/-- `wait_for`, where the cursor is `cursor k` at its step `k`. -/
def waitFor (w : WaitStrategy) (target : ℤ) (cursor : ℕ → ℤ) (steps : ℕ) : Option (ℕ × ℤ) :=
  w.waitFrom target cursor 0 w.enter steps

/-- The next turn loads the cursor. -/
def Loads (l : WaitLoop) : WaitStrategy → Prop
  | backoffWait _ _ => l.i < l.spins
  | _ => True

/-- The strategy never runs out of loads, or does not within `n` steps. -/
def KeepsLoading (n : ℕ) : WaitStrategy → Prop
  | backoffWait initialSpins maxSpins => 0 < initialSpins ∧ 0 < maxSpins ∨ n < initialSpins
  | _ => True

/-- `wait_for` loads the cursor at a step from `n` on and returns its value, which is not below the target. -/
def Notices (w : WaitStrategy) (target : ℤ) (cursor : ℕ → ℤ) (n : ℕ) : Prop :=
  ∃ steps k, w.waitFor target cursor steps = some (k, cursor k) ∧ n ≤ k ∧ target ≤ cursor k

variable {w : WaitStrategy} {target : ℤ} {cursor : ℕ → ℤ} {k n : ℕ} {l l' : WaitLoop}

theorem waitFrom_of_none (h : w.turn target (cursor k) l = none) (steps : ℕ) :
    w.waitFrom target cursor k l (steps + 1) = some (k, cursor k) := by
  rw [waitFrom, h]

theorem waitFrom_of_some (h : w.turn target (cursor k) l = some l') (steps : ℕ) :
    w.waitFrom target cursor k l (steps + 1) = w.waitFrom target cursor (k + 1) l' steps := by
  rw [waitFrom, h]

/-- A run of `n` steps that do not return, with what each of them keeps. -/
theorem exists_waitFor_eq (w : WaitStrategy) (target : ℤ) (cursor : ℕ → ℤ) (n : ℕ) (I : ℕ → WaitLoop → Prop)
    (hinit : I 0 w.enter)
    (hstep : ∀ k < n, ∀ l, I k l → ∃ l', w.turn target (cursor k) l = some l' ∧ I (k + 1) l') :
    ∃ l, I n l ∧ ∀ steps, w.waitFor target cursor (n + steps) = w.waitFrom target cursor n l steps := by
  induction n with
  | zero => exact ⟨w.enter, hinit, fun steps => by rw [Nat.zero_add, waitFor]⟩
  | succ n ih =>
    obtain ⟨l, hl, hrun⟩ := ih fun k hk => hstep k (Nat.lt_succ_of_lt hk)
    obtain ⟨l', hturn, hl'⟩ := hstep n (Nat.lt_succ_self n) l hl
    refine ⟨l', hl', fun steps => ?_⟩
    rw [Nat.add_assoc, Nat.add_comm 1 steps, hrun, waitFrom_of_some hturn]

/-- A load of a cursor at the target returns. -/
theorem turn_of_loads (h : Loads l w) (hreached : target ≤ cursor k) : w.turn target (cursor k) l = none := by
  cases w with
  | busySpinWait => exact if_pos hreached
  | spinLoopHintWait => exact if_pos hreached
  | yieldingWait spinTries => exact if_pos hreached
  | backoffWait initialSpins maxSpins => exact (if_pos h).trans (if_pos hreached)

theorem notices_of_loads (h : CursorReaches target cursor n)
    (hrun : ∀ steps, w.waitFor target cursor (n + steps) = w.waitFrom target cursor n l steps)
    (hloads : Loads l w) : w.Notices target cursor n := by
  have hturn := turn_of_loads hloads (h.reached n le_rfl)
  exact ⟨n + 1, n, (hrun 1).trans (waitFrom_of_none hturn 0), le_rfl, h.reached n le_rfl⟩

/-! ### Strategies that keep loading -/

/-- Strategies that load the cursor in each turn. -/
theorem notices_of_always (hloads : ∀ l, Loads l w) (h : CursorReaches target cursor n) :
    w.Notices target cursor n := by
  obtain ⟨l, -, hrun⟩ := exists_waitFor_eq w target cursor n (fun _ _ => True) trivial fun k hk l _ => by
    obtain ⟨l', hturn⟩ := Option.ne_none_iff_exists'.1 (turn_ne_none (w := w) (l := l) (h.below k hk))
    exact ⟨l', hturn, trivial⟩
  exact notices_of_loads h hrun (hloads l)

section Backoff

variable {initialSpins maxSpins : ℕ}

theorem turn_spin {spins i : ℕ} (hi : i < spins) (hbelow : cursor k < target) :
    (backoffWait initialSpins maxSpins).turn target (cursor k) ⟨spins, i⟩ = some ⟨spins, i + 1⟩ :=
  (if_pos hi).trans (if_neg (not_le.2 hbelow))

theorem turn_round {spins i : ℕ} (hi : ¬ i < spins) :
    (backoffWait initialSpins maxSpins).turn target (cursor k) ⟨spins, i⟩ =
      some ⟨min (saturatingMul spins 2) maxSpins, 0⟩ := if_neg hi

/-- With both numbers positive, each round loads the cursor. -/
theorem notices_of_pos (hinitial : 0 < initialSpins) (hmax : 0 < maxSpins) (h : CursorReaches target cursor n) :
    (backoffWait initialSpins maxSpins).Notices target cursor n := by
  obtain ⟨⟨spins, i⟩, hspins, hrun⟩ := exists_waitFor_eq (backoffWait initialSpins maxSpins) target cursor n
    (fun _ l => 0 < l.spins) hinitial fun k hk l hl => by
      obtain ⟨spins, i⟩ := l
      by_cases hi : i < spins
      · exact ⟨_, turn_spin hi (h.below k hk), hl⟩
      · exact ⟨_, turn_round hi, min_saturatingMul_pos hl hmax⟩
  by_cases hi : i < spins
  · exact notices_of_loads h hrun hi
  · -- the round ends without a load, and the next one begins with one
    have hreached := h.reached (n + 1) (Nat.le_succ n)
    have hloads : Loads ⟨min (saturatingMul spins 2) maxSpins, 0⟩ (backoffWait initialSpins maxSpins) :=
      min_saturatingMul_pos hspins hmax
    refine ⟨n + 2, n + 1, ?_, Nat.le_succ n, hreached⟩
    rw [hrun 2, waitFrom_of_some (turn_round hi)]
    exact waitFrom_of_none (turn_of_loads hloads hreached) 0

/-- The first round has `initial_spins` loads in any case. -/
theorem notices_of_lt (hn : n < initialSpins) (h : CursorReaches target cursor n) :
    (backoffWait initialSpins maxSpins).Notices target cursor n := by
  obtain ⟨l, rfl, hrun⟩ := exists_waitFor_eq (backoffWait initialSpins maxSpins) target cursor n
    (fun k l => l = ⟨initialSpins, k⟩) rfl fun k hk l hl => by
      subst hl
      exact ⟨_, turn_spin (hk.trans hn) (h.below k hk), rfl⟩
  exact notices_of_loads h hrun hn

/-! ### Rounds without a load -/

/-- In the first round, or in a round that does not load the cursor. -/
def Idles (initialSpins k : ℕ) (l : WaitLoop) : Prop := k ≤ initialSpins ∧ l = ⟨initialSpins, k⟩ ∨ l = ⟨0, 0⟩

theorem Idles.turn (hzero : initialSpins = 0 ∨ maxSpins = 0) (hbelow : k < initialSpins → cursor k < target)
    (hl : Idles initialSpins k l) :
    ∃ l', (backoffWait initialSpins maxSpins).turn target (cursor k) l = some l' ∧
      Idles initialSpins (k + 1) l' := by
  rcases hl with ⟨hk, rfl⟩ | rfl
  · rcases hk.lt_or_eq with hlt | rfl
    · exact ⟨_, turn_spin hlt (hbelow hlt), .inl ⟨hlt, rfl⟩⟩
    · refine ⟨_, turn_round (lt_irrefl k), .inr ?_⟩
      rw [min_saturatingMul_eq_zero hzero]
  · refine ⟨_, turn_round (lt_irrefl 0), .inr ?_⟩
    rw [min_saturatingMul_eq_zero (.inl rfl)]

/-- With one of the numbers zero, a cursor that is below the target during the first round is never seen to
reach it. -/
theorem waitFor_eq_none (hzero : initialSpins = 0 ∨ maxSpins = 0)
    (hbelow : ∀ k < initialSpins, cursor k < target) (steps : ℕ) :
    (backoffWait initialSpins maxSpins).waitFor target cursor steps = none := by
  obtain ⟨l, -, hrun⟩ := exists_waitFor_eq (backoffWait initialSpins maxSpins) target cursor steps
    (Idles initialSpins) (.inl ⟨Nat.zero_le _, rfl⟩) fun k _ l hl => hl.turn hzero (hbelow k)
  exact hrun 0

end Backoff

/-- A strategy notices that the cursor has reached the target exactly if it has not run out of loads by then. -/
theorem notices_iff (w : WaitStrategy) (h : CursorReaches target cursor n) :
    w.Notices target cursor n ↔ w.KeepsLoading n := by
  cases w with
  | busySpinWait => exact iff_of_true (notices_of_always (fun _ => trivial) h) trivial
  | spinLoopHintWait => exact iff_of_true (notices_of_always (fun _ => trivial) h) trivial
  | yieldingWait spinTries => exact iff_of_true (notices_of_always (fun _ => trivial) h) trivial
  | backoffWait initialSpins maxSpins =>
    constructor
    · rintro ⟨steps, k, hreturns, -, -⟩
      by_contra hstops
      obtain ⟨hpos, hlate⟩ := not_or.1 hstops
      have hzero : initialSpins = 0 ∨ maxSpins = 0 := by omega
      rw [waitFor_eq_none hzero fun k hk => h.below k (hk.trans_le (not_lt.1 hlate))] at hreturns
      cases hreturns
    · rintro (⟨hinitial, hmax⟩ | hn)
      · exact notices_of_pos hinitial hmax h
      · exact notices_of_lt hn h

/-- `BackoffWait::default` notices a cursor that reaches sequence 5 at step 25, in its second round. -/
theorem notices_iff_default :
    (backoffWait 10 1000).Notices 5 (fun k => if k < 25 then 4 else 5) 25 := by
  have hreaches : CursorReaches 5 (fun k => if k < 25 then 4 else 5) 25 := by
    refine ⟨fun k hk => ?_, fun k hk => ?_⟩
    · rw [if_pos hk]
      decide
    · rw [if_neg (not_lt.2 hk)]
  exact (notices_iff (backoffWait 10 1000) hreaches).2 (.inl ⟨by decide, by decide⟩)

/-- `BackoffWait::new(0, 1000)` does not see a cursor that is at the target all the time. -/
theorem not_notices_zero : CursorReaches 5 (fun _ => 5) 0 ∧
    (∀ steps, (backoffWait 0 1000).waitFor 5 (fun _ => 5) steps = none) ∧
    ¬ (backoffWait 0 1000).Notices 5 (fun _ => 5) 0 := by
  have hnone : ∀ steps, (backoffWait 0 1000).waitFor 5 (fun _ => 5) steps = none :=
    waitFor_eq_none (.inl rfl) fun k hk => absurd hk (Nat.not_lt_zero k)
  refine ⟨⟨fun k hk => absurd hk (Nat.not_lt_zero k), fun _ _ => le_rfl⟩, hnone, ?_⟩
  rintro ⟨steps, k, hreturns, -, -⟩
  rw [hnone] at hreturns
  cases hreturns

end WaitStrategy

end Land.Channel
