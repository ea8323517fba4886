import Mathlib.Tactic

/-!
# Wait strategies

The loops of `cpu/src/wait_strategy.rs`, which wait until a cursor reaches a target.  A turn of a loop
loads the cursor at most once; hints to the processor and yields to the scheduler have no effect on
the state.  None of the loops looks at anything but the cursor.
-/

namespace Land.Channel

/-- The provided strategies. -/
inductive WaitStrategy where
  | busySpinWait
  | spinLoopHintWait
  | yieldingWait (spinTries : ℕ)
  | backoffWait (initialSpins maxSpins : ℕ)
  deriving Repr, DecidableEq

/-- The loop variables: `spins`, and the counter of the inner loop of `BackoffWait`. -/
structure WaitLoop where
  spins : ℕ
  i : ℕ
  deriving Repr, DecidableEq

/-- `u32::saturating_mul`. -/
def saturatingMul (a b : ℕ) : ℕ := min (a * b) (2 ^ 32 - 1)

namespace WaitStrategy

/-- The loop variables on entry. -/
def enter : WaitStrategy → WaitLoop
  | backoffWait initialSpins _ => ⟨initialSpins, 0⟩
  | _ => ⟨0, 0⟩

/-- A turn of the loop while the cursor is `cursor`; `none` when the loop returns. -/
def turn (target cursor : ℤ) (l : WaitLoop) : WaitStrategy → Option WaitLoop
  | busySpinWait => if cursor ≥ target then none else some l
  | spinLoopHintWait => if cursor ≥ target then none else some l
  | yieldingWait spinTries =>
      if cursor ≥ target then none
      else if l.spins < spinTries then some { l with spins := l.spins + 1 }
      else some { l with spins := 0 }
  | backoffWait _ maxSpins =>
      if l.i < l.spins then
        if cursor ≥ target then none else some { l with i := l.i + 1 }
      else some ⟨min (saturatingMul l.spins 2) maxSpins, 0⟩

/-- No loop returns before the cursor reaches the target. -/
theorem turn_ne_none {w : WaitStrategy} {target cursor : ℤ} {l : WaitLoop} (h : cursor < target) :
    w.turn target cursor l ≠ none := by
  have hlt : ¬ cursor ≥ target := not_le.2 h
  cases w with
  | busySpinWait => simp [turn, hlt]
  | spinLoopHintWait => simp [turn, hlt]
  | yieldingWait spinTries =>
    simp only [turn, if_neg hlt]
    split_ifs <;> simp
  | backoffWait initialSpins maxSpins =>
    simp only [turn, if_neg hlt]
    split_ifs <;> simp

end WaitStrategy

end Land.Channel
