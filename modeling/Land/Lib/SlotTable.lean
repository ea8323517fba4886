import Mathlib.Data.List.Basic
import Mathlib.Data.List.Nodup
import Mathlib.Tactic

/-!
# Tables of slots with a free list

A table has slots that are occupied or empty, and a list of free slots from which new entries are placed.  It is
`Exact` if the free list names the empty slots, each of them once.  An entry may be exchanged, taken out with its
slot put on the list, or placed in the first slot of the list or, when there is none, in a new slot; all of these
keep the table exact.
-/

namespace Land.SlotTable

variable {α : Type} {slots : List (Option α)} {free : List ℕ}

/-- The free list names exactly the empty slots, each once. -/
structure Exact (slots : List (Option α)) (free : List ℕ) : Prop where
  nodup : free.Nodup
  mem_iff : ∀ i, i ∈ free ↔ slots[i]? = some none

theorem exact_nil : Exact ([] : List (Option α)) [] where
  nodup := List.nodup_nil
  mem_iff i := by simp

theorem Exact.lt_length (h : Exact slots free) {i : ℕ} (hi : i ∈ free) : i < slots.length :=
  (List.getElem?_eq_some_iff.1 ((h.mem_iff i).1 hi)).1

theorem Exact.not_mem (h : Exact slots free) {i : ℕ} {a : α} (hi : slots[i]? = some (some a)) : i ∉ free := by
  intro hmem
  have hempty := (h.mem_iff i).1 hmem
  rw [hi] at hempty
  cases hempty

/-- Every slot is occupied and not free, or empty and free exactly once. -/
theorem Exact.slot_cases (h : Exact slots free) {i : ℕ} (hi : i < slots.length) :
    (∃ a, slots[i]? = some (some a)) ∧ free.count i = 0 ∨ slots[i]? = some none ∧ free.count i = 1 := by
  cases hslot : slots[i]? with
  | none => exact absurd hi (List.getElem?_eq_none_iff.1 hslot).not_gt
  | some entry =>
    cases entry with
    | some a => exact .inl ⟨⟨a, rfl⟩, List.count_eq_zero.2 (h.not_mem hslot)⟩
    | none => exact .inr ⟨rfl, List.count_eq_one_of_mem h.nodup ((h.mem_iff i).2 hslot)⟩

/-- An entry is exchanged. -/
theorem Exact.exchange (h : Exact slots free) {i : ℕ} {a : α} (hi : slots[i]? = some (some a)) (b : α) :
    Exact (slots.set i (some b)) free := by
  refine ⟨h.nodup, fun j => ?_⟩
  rcases eq_or_ne i j with rfl | hne
  · rw [List.getElem?_set_self (List.getElem?_eq_some_iff.1 hi).1]
    exact iff_of_false (h.not_mem hi) (by rintro ⟨⟩)
  · rw [List.getElem?_set_ne hne]
    exact h.mem_iff j

/-- An entry is taken out. -/
theorem Exact.release (h : Exact slots free) {i : ℕ} {a : α} (hi : slots[i]? = some (some a)) :
    Exact (slots.set i none) (i :: free) := by
  refine ⟨List.nodup_cons.2 ⟨h.not_mem hi, h.nodup⟩, fun j => ?_⟩
  rw [List.mem_cons]
  rcases eq_or_ne i j with rfl | hne
  · rw [List.getElem?_set_self (List.getElem?_eq_some_iff.1 hi).1]
    exact iff_of_true (.inl rfl) rfl
  · rw [List.getElem?_set_ne hne, ← h.mem_iff j]
    exact or_iff_right hne.symm

/-- An entry is placed in the first slot of the free list. -/
theorem Exact.reuse {i : ℕ} (h : Exact slots (i :: free)) (a : α) : Exact (slots.set i (some a)) free := by
  obtain ⟨hnot, hnodup⟩ := List.nodup_cons.1 h.nodup
  refine ⟨hnodup, fun j => ?_⟩
  rcases eq_or_ne i j with rfl | hne
  · rw [List.getElem?_set_self (h.lt_length List.mem_cons_self)]
    exact iff_of_false hnot (by rintro ⟨⟩)
  · rw [List.getElem?_set_ne hne, ← h.mem_iff j, List.mem_cons]
    exact (or_iff_right hne.symm).symm

/-- An entry is placed in a new slot. -/
theorem Exact.grow (h : Exact slots []) (a : α) : Exact ((slots ++ [none]).set slots.length (some a)) [] := by
  have hset : (slots ++ [none]).set slots.length (some a) = slots ++ [some a] := by
    rw [List.set_append_right _ _ le_rfl, Nat.sub_self, List.set_cons_zero]
  rw [hset]
  refine ⟨List.nodup_nil, fun j => ?_⟩
  rcases Nat.lt_trichotomy j slots.length with hlt | rfl | hgt
  · rw [List.getElem?_append_left hlt]
    exact h.mem_iff j
  · rw [List.getElem?_concat_length]
    exact iff_of_false List.not_mem_nil (by rintro ⟨⟩)
  · rw [List.getElem?_eq_none (by rw [List.length_append, List.length_singleton]; omega)]
    exact iff_of_false List.not_mem_nil (by rintro ⟨⟩)

end Land.SlotTable
