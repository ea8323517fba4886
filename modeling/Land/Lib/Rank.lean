import Mathlib.Data.List.Sort
import Mathlib.Tactic

/-!
# Order statistics

The `t`-th smallest entry of a list.  A property that goes down with the order holds of it exactly if at
least `t` entries have the property, so that a search through counts finds where it lies without sorting
anything.
-/

namespace Land.Rank

variable {α : Type} [LinearOrder α]

theorem countP_lt_succ {β : Type} (f : β → ℕ) (k : ℕ) (l : List β) :
    l.countP (fun x => f x < k + 1) = l.countP (fun x => f x < k) + l.countP (fun x => f x = k) := by
  induction l with
  | nil => rfl
  | cons x l ih =>
    simp only [List.countP_cons, ih]
    rcases lt_trichotomy (f x) k with h | h | h
    · simp [h, h.ne, Nat.lt_succ_of_lt h]
      omega
    · simp [h]
      omega
    · simp [h.ne', not_lt.2 h.le, not_lt.2 (Nat.succ_le_of_lt h)]

/-- The `t`-th smallest entry of a list, counted from one. -/
def orderStatistic (l : List α) (t : ℕ) : Option α := (l.mergeSort (· ≤ ·))[t - 1]?

/-- In a sorted list the entries with a property that goes down with the order come first. -/
theorem getElem_iff_lt_countP {l : List α} (hl : l.Pairwise (· ≤ ·)) {p : α → Bool}
    (hp : ∀ x y, x ≤ y → p y = true → p x = true) {k : ℕ} (hk : k < l.length) :
    p l[k] = true ↔ k < l.countP p := by
  induction l generalizing k with
  | nil => cases hk
  | cons a l ih =>
    obtain ⟨ha, hl⟩ := List.pairwise_cons.1 hl
    by_cases hpa : p a = true
    · rw [List.countP_cons_of_pos hpa]
      cases k with
      | zero => simp [hpa]
      | succ k =>
        rw [List.getElem_cons_succ, ih hl (by simpa using hk)]
        omega
    · -- nothing behind `a` has the property either
      have hnone : ∀ x ∈ a :: l, p x ≠ true := by
        intro x hx hpx
        rcases List.mem_cons.1 hx with rfl | hx
        · exact hpa hpx
        · exact hpa (hp a x (ha x hx) hpx)
      rw [List.countP_eq_zero.2 hnone]
      exact iff_of_false (hnone _ (List.getElem_mem hk)) (Nat.not_lt_zero k)

theorem exists_orderStatistic {l : List α} {t : ℕ} (ht : 1 ≤ t) (hle : t ≤ l.length) :
    ∃ x, orderStatistic l t = some x := by
  have hlen : t - 1 < (l.mergeSort (· ≤ ·)).length := by
    rw [List.length_mergeSort]
    omega
  exact ⟨_, List.getElem?_eq_getElem hlen⟩

theorem mem_of_orderStatistic {l : List α} {t : ℕ} {x : α} (h : orderStatistic l t = some x) : x ∈ l :=
  (List.mergeSort_perm l _).mem_iff.1 (List.mem_of_getElem? h)

/-- The `t`-th smallest entry has a property that goes down with the order exactly if `t` entries have
it. -/
theorem orderStatistic_iff {l : List α} {t : ℕ} {x : α} (ht : 1 ≤ t) (h : orderStatistic l t = some x)
    {p : α → Bool} (hp : ∀ x y, x ≤ y → p y = true → p x = true) : p x = true ↔ t ≤ l.countP p := by
  obtain ⟨hlt, rfl⟩ := List.getElem?_eq_some_iff.1 h
  rw [getElem_iff_lt_countP List.sortedLE_mergeSort.pairwise hp hlt, (List.mergeSort_perm l _).countP_eq]
  omega

theorem orderStatistic_mono {l : List α} {t t' : ℕ} {x x' : α} (htt : t ≤ t')
    (h : orderStatistic l t = some x) (h' : orderStatistic l t' = some x') : x ≤ x' := by
  obtain ⟨hlt, rfl⟩ := List.getElem?_eq_some_iff.1 h
  obtain ⟨hlt', rfl⟩ := List.getElem?_eq_some_iff.1 h'
  exact List.sortedLE_mergeSort.getElem_le_getElem_of_le (by omega)

end Land.Rank
