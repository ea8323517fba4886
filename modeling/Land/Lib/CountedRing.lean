import Mathlib.Tactic

/-!
# Rings with a counter

`N` places used in turn: `count` of them are in use, from place `tail % N` on.  The contents are the
list of what these places hold; writing the next place appends to it, and advancing `tail` drops its
first element.  What the other places hold does not matter.
-/

namespace Land

universe u

variable {α : Type u} {N tail count : ℕ}

/-- What the places in use hold, oldest first. -/
def ringContents (N : ℕ) (places : ℕ → α) (tail count : ℕ) : List α :=
  (List.range count).map fun i => places ((tail + i) % N)

@[simp] theorem ringContents_length (places : ℕ → α) :
    (ringContents N places tail count).length = count := by
  simp [ringContents]

@[simp] theorem ringContents_zero (places : ℕ → α) : ringContents N places tail 0 = [] := rfl

/-- The place after those in use is not one of them. -/
theorem ring_next_ne {i : ℕ} (hi : i < count) (hcount : count < N) :
    (tail + i) % N ≠ (tail + count) % N := by
  intro h
  have hmod : i % N = count % N := Nat.ModEq.add_left_cancel' tail h
  rw [Nat.mod_eq_of_lt hcount, Nat.mod_eq_of_lt (hi.trans hcount)] at hmod
  exact hi.ne hmod

theorem ringContents_push (places : ℕ → α) (x : α) (hcount : count < N) :
    ringContents N (Function.update places ((tail + count) % N) x) tail (count + 1) =
      ringContents N places tail count ++ [x] := by
  unfold ringContents
  rw [List.range_succ, List.map_append]
  congr 1
  · refine List.map_congr_left fun i hi => ?_
    exact Function.update_of_ne (ring_next_ne (List.mem_range.1 hi) hcount) _ _
  · simp only [List.map_cons, List.map_nil, Function.update_self]

theorem ringContents_pop (places : ℕ → α) :
    ringContents N places tail (count + 1) =
      places (tail % N) :: ringContents N places (tail + 1) count := by
  unfold ringContents
  rw [List.range_succ_eq_map, List.map_cons, List.map_map]
  congr 1
  refine List.map_congr_left fun i _ => ?_
  show places ((tail + (i + 1)) % N) = places ((tail + 1 + i) % N)
  rw [Nat.add_right_comm, Nat.add_assoc]

end Land
