import Mathlib.Tactic

/-!
# Open addressing

A table has a key or nothing at each index.  The indices are probed in an order that depends on the key,
up to the first one that is free or has the key (`probeEnd`).  A key that is in the table is found if its
probe ends where it is (`Findable`); then no key is there twice.  Putting a key where its probe ends keeps
this, and so does overwriting any entry of a full table.  Freeing an index keeps it exactly when no probe
for another key in the table passes the index (`Findable.free_iff`).
-/

namespace Land.OpenAddressing

variable {ι K : Type*} [DecidableEq ι] [DecidableEq K] (probe : K → List ι)

/-- The index at which the probe for a key ends. -/
def probeEnd (t : ι → Option K) (k : K) : Option ι :=
  (probe k).find? fun i => decide (t i = none ∨ t i = some k)

/-- Every key in the table is found where it is. -/
def Findable (t : ι → Option K) : Prop := ∀ i k, t i = some k → probeEnd probe t k = some i

/-- The probe for a key comes to `i` before it comes to `j`. -/
def Passes (k : K) (i j : ι) : Prop := i ∈ (probe k).takeWhile (· ≠ j)

instance (k : K) (i j : ι) : Decidable (Passes probe k i j) := inferInstanceAs (Decidable (_ ∈ _))

/-- The probe for a key goes on at an index. -/
def Skips (t : ι → Option K) (k : K) (i : ι) : Prop := t i ≠ none ∧ t i ≠ some k

variable {probe} {t t' : ι → Option K} {i j : ι} {k : K}

omit [DecidableEq ι] in
/-- No key is at two indices. -/
theorem Findable.eq (h : Findable probe t) (hi : t i = some k) (hj : t j = some k) : i = j :=
  Option.some.inj ((h i k hi).symm.trans (h j k hj))

omit [DecidableEq ι] in
/-- The probe ends at the first index at which it does not go on. -/
theorem probeEnd_eq_some_iff :
    probeEnd probe t k = some j ↔
      ¬ Skips t k j ∧ ∃ as bs, probe k = as ++ j :: bs ∧ ∀ a ∈ as, Skips t k a := by
  have hskips (i : ι) : (!decide (t i = none ∨ t i = some k)) = true ↔ Skips t k i := by
    rw [Bool.not_eq_true', decide_eq_false_iff_not, not_or]
    rfl
  rw [probeEnd, List.find?_eq_some_iff_append, ← hskips, Bool.not_eq_true', Bool.not_eq_false]
  simp only [hskips]

omit [DecidableEq ι] in
theorem skips_of_probeEnd_eq_none (h : probeEnd probe t k = none) (hi : i ∈ probe k) :
    Skips t k i := by
  have hno := List.find?_eq_none.1 h i hi
  rw [decide_eq_true_eq, not_or] at hno
  exact hno

omit [DecidableEq ι] in
/-- A change after which the probe still goes on where it went on. -/
theorem probeEnd_of_skips (h : probeEnd probe t k = some j) (hj : t' j = some k)
    (hskips : ∀ i, Skips t k i → Skips t' k i) : probeEnd probe t' k = some j := by
  obtain ⟨-, as, bs, hprobe, has⟩ := probeEnd_eq_some_iff.1 h
  exact probeEnd_eq_some_iff.2 ⟨fun hs => hs.2 hj, as, bs, hprobe, fun a ha => hskips a (has a ha)⟩

/-- The index at which the probe for a key ends gets the key. -/
theorem Findable.insert (h : Findable probe t) (hend : probeEnd probe t k = some i)
    (hfree : t i = none) : Findable probe (Function.update t i (some k)) := by
  have hskips : ∀ k' a, Skips t k' a → Skips (Function.update t i (some k)) k' a := by
    intro k' a ha
    have hne : a ≠ i := by
      rintro rfl
      exact ha.1 hfree
    rwa [Skips, Function.update_of_ne hne]
  intro j k' hj
  by_cases hji : j = i
  · subst hji
    rw [Function.update_self] at hj
    cases hj
    exact probeEnd_of_skips hend (Function.update_self ..) (hskips k)
  · have hold := hj
    rw [Function.update_of_ne hji] at hold
    exact probeEnd_of_skips (h j k' hold) hj (hskips k')

/-- The table is full, and the key replaces the one at some index. -/
theorem Findable.overwrite (h : Findable probe t) (hall : ∀ i, i ∈ probe k)
    (hend : probeEnd probe t k = none) (i : ι) : Findable probe (Function.update t i (some k)) := by
  have hfull (a : ι) : Skips t k a := skips_of_probeEnd_eq_none hend (hall a)
  intro j k' hj
  by_cases hji : j = i
  · subst hji
    rw [Function.update_self] at hj
    cases hj
    -- the probe goes on everywhere else
    obtain ⟨as, bs, hprobe, hnot⟩ := List.eq_append_cons_of_mem (hall j)
    refine probeEnd_eq_some_iff.2 ⟨fun hs => hs.2 (Function.update_self ..), as, bs, hprobe, ?_⟩
    intro a ha
    have hne : a ≠ j := by
      rintro rfl
      exact hnot ha
    rw [Skips, Function.update_of_ne hne]
    exact hfull a
  · have hold := hj
    rw [Function.update_of_ne hji] at hold
    refine probeEnd_of_skips (h j k' hold) hj fun a ha => ?_
    by_cases hai : a = i
    · subst hai
      rw [Skips, Function.update_self]
      refine ⟨nofun, fun heq => ?_⟩
      cases heq
      exact (hfull j).2 hold
    · rwa [Skips, Function.update_of_ne hai]

omit [DecidableEq K] in
theorem passes_iff {as bs : List ι} (hprobe : probe k = as ++ j :: bs) (hj : j ∉ as) :
    Passes probe k i j ↔ i ∈ as := by
  have hbefore : (as ++ j :: bs).takeWhile (· ≠ j) = as := by
    rw [List.takeWhile_append_of_pos, List.takeWhile_cons_of_neg, List.append_nil]
    · simp
    · intro a ha
      have hne : a ≠ j := by
        rintro rfl
        exact hj ha
      simpa using hne
  rw [Passes, hprobe, hbefore]

/-- An index is freed. -/
theorem Findable.free_iff (h : Findable probe t) (i : ι) :
    Findable probe (Function.update t i none) ↔
      ∀ j k, j ≠ i → t j = some k → ¬ Passes probe k i j := by
  constructor
  · intro hfree j k hj hk hpasses
    have hk' : Function.update t i none j = some k := by rwa [Function.update_of_ne hj]
    obtain ⟨-, as, bs, hprobe, has⟩ := probeEnd_eq_some_iff.1 (hfree j k hk')
    rw [passes_iff hprobe fun ha => (has j ha).2 hk'] at hpasses
    exact (has i hpasses).1 (Function.update_self ..)
  · intro hkeeps j k hk
    have hj : j ≠ i := by
      rintro rfl
      rw [Function.update_self] at hk
      cases hk
    have hold := hk
    rw [Function.update_of_ne hj] at hold
    obtain ⟨-, as, bs, hprobe, has⟩ := probeEnd_eq_some_iff.1 (h j k hold)
    refine probeEnd_eq_some_iff.2 ⟨fun hs => hs.2 hk, as, bs, hprobe, fun a ha => ?_⟩
    have hne : a ≠ i := by
      rintro rfl
      exact hkeeps j k hj hold ((passes_iff hprobe fun ha => (has j ha).2 hold).2 ha)
    rw [Skips, Function.update_of_ne hne]
    exact has a ha

end Land.OpenAddressing
