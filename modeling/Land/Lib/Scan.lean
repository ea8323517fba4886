import Mathlib.Tactic

/-!
# Scanning a list

The first occurrence of a pattern in a list, and how it changes when the list is cut off or when
something that cannot start the pattern is put in front.
-/

namespace Land.Scan

variable {α : Type} [DecidableEq α]

/-- The position of the first occurrence of `pat`. -/
def find (pat : List α) : List α → Option ℕ
  | [] => if pat = [] then some 0 else none
  | a :: l => if pat <+: a :: l then some 0 else (find pat l).map (· + 1)

variable {pat : List α}

theorem find_append_self (h : pat ≠ []) (l : List α) : find pat (pat ++ l) = some 0 := by
  cases pat with
  | nil => exact absurd rfl h
  | cons a pat => exact if_pos (List.prefix_append _ l)

theorem find_cons_skip {b : α} {l : List α} (h : ¬ pat <+: b :: l) :
    find pat (b :: l) = (find pat l).map (· + 1) := if_neg h

/-- Elements other than the first of the pattern are skipped. -/
theorem find_append_of_not_mem {a : α} {front : List α} (h : a ∉ front) (l : List α) :
    find (a :: pat) (front ++ l) = (find (a :: pat) l).map (· + front.length) := by
  induction front with
  | nil => simp
  | cons b front ih =>
    have hb : ¬ a :: pat <+: b :: (front ++ l) := by
      intro hp
      exact h ((List.cons_prefix_cons.1 hp).1 ▸ List.mem_cons_self)
    rw [List.cons_append, find_cons_skip hb,
      ih fun hmem => h (List.mem_cons_of_mem b hmem), Option.map_map]
    rfl

/-- The search passes a front part, whatever comes after it. -/
def Passes (pat front : List α) : Prop :=
  ∀ rest, find pat (front ++ rest) = (find pat rest).map (· + front.length)

theorem Passes.of_not_mem {a : α} {front : List α} (h : a ∉ front) : Passes (a :: pat) front :=
  find_append_of_not_mem h

theorem Passes.append {front front' : List α} (h : Passes pat front) (h' : Passes pat front') :
    Passes pat (front ++ front') := by
  intro rest
  rw [List.append_assoc, h, h', Option.map_map, List.length_append]
  congr 1
  funext n
  simp only [Function.comp_apply]
  omega

/-- What follows a front part that is passed. -/
theorem Passes.find_eq {front : List α} (h : Passes pat front) (hpat : pat ≠ []) (rest : List α) :
    find pat (front ++ (pat ++ rest)) = some front.length := by
  rw [h, find_append_self hpat, Option.map_some, Nat.zero_add]

/-- Two lists differ at a position that both have. -/
def clash : List α → List α → Bool
  | a :: p, b :: l => a ≠ b || clash p l
  | _, _ => false

theorem not_prefix_of_clash {p l : List α} (h : clash p l = true) (rest : List α) :
    ¬ p <+: l ++ rest := by
  induction p generalizing l with
  | nil => cases h
  | cons a p ih =>
    cases l with
    | nil => cases h
    | cons b l =>
      intro hp
      obtain ⟨rfl, hp'⟩ := List.cons_prefix_cons.1 hp
      simp only [clash, ne_eq, not_true_eq_false, decide_false, Bool.false_or] at h
      exact ih h hp'

/-- A pattern clashes with a list from each of its positions on. -/
def skips (pat : List α) : List α → Bool
  | [] => true
  | b :: l => clash pat (b :: l) && skips pat l

theorem Passes.of_skips {front : List α} (h : skips pat front = true) : Passes pat front := by
  intro rest
  induction front with
  | nil => simp
  | cons b front ih =>
    obtain ⟨hb, hfront⟩ := Bool.and_eq_true_iff.1 h
    have hno : ¬ pat <+: b :: (front ++ rest) := not_prefix_of_clash hb rest
    rw [List.cons_append, find_cons_skip hno, ih hfront, Option.map_map]
    rfl

theorem find_eq_none_of_length_lt {l : List α} (h : l.length < pat.length) : find pat l = none := by
  induction l with
  | nil => exact if_neg (List.length_pos_iff.1 h)
  | cons a l ih =>
    rw [find_cons_skip fun hp => absurd hp.length_le (not_le.2 h),
      ih ((Nat.lt_succ_self _).trans h)]
    rfl

/-- The first occurrence in a list that is cut off. -/
theorem find_prefix_eq (hpat : pat ≠ []) {l p : List α} {n : ℕ} (hp : p <+: l)
    (hn : find pat l = some n) :
    find pat p = if n + pat.length ≤ p.length then some n else none := by
  have hpos := List.length_pos_iff.2 hpat
  induction l generalizing p n with
  | nil =>
    rw [find, if_neg hpat] at hn
    cases hn
  | cons a l ih =>
    cases p with
    | nil =>
      have hnone : find pat [] = none := if_neg hpat
      rw [hnone, List.length_nil, if_neg (not_le.2 (Nat.add_pos_right n hpos))]
    | cons b p =>
      obtain ⟨rfl, hp'⟩ := List.cons_prefix_cons.1 hp
      by_cases hhere : pat <+: b :: l
      · obtain rfl : 0 = n := Option.some.inj ((if_pos hhere).symm.trans hn)
        rw [Nat.zero_add]
        split_ifs with hlen
        · exact if_pos (List.prefix_of_prefix_length_le hhere hp hlen)
        · exact find_eq_none_of_length_lt (not_le.1 hlen)
      · rw [find_cons_skip hhere] at hn
        obtain ⟨m, hm, rfl⟩ := Option.map_eq_some_iff.1 hn
        rw [find_cons_skip fun h => hhere (h.trans hp), ih hp' hm, List.length_cons]
        split_ifs with h₁ h₂ h₂
        · rfl
        · omega
        · omega
        · rfl

/-! ## The search by position -/

theorem find_eq_some_iff (hpat : pat ≠ []) {l : List α} {n : ℕ} :
    find pat l = some n ↔ pat <+: l.drop n ∧ ∀ i < n, ¬ pat <+: l.drop i := by
  induction l generalizing n with
  | nil =>
    rw [find, if_neg hpat, List.drop_nil, List.prefix_nil]
    exact ⟨nofun, fun h => absurd h.1 hpat⟩
  | cons a l ih =>
    by_cases hhere : pat <+: a :: l
    · have hfind : find pat (a :: l) = some 0 := if_pos hhere
      rw [hfind, Option.some.injEq]
      constructor
      · rintro rfl
        exact ⟨hhere, nofun⟩
      · intro h
        by_contra hne
        exact h.2 0 (Nat.pos_of_ne_zero (Ne.symm hne)) hhere
    · rw [find_cons_skip hhere, Option.map_eq_some_iff]
      constructor
      · rintro ⟨m, hm, rfl⟩
        obtain ⟨hat, hbefore⟩ := ih.1 hm
        refine ⟨hat, fun i hi => ?_⟩
        cases i with
        | zero => exact hhere
        | succ i => exact hbefore i (Nat.lt_of_succ_lt_succ hi)
      · rintro ⟨hat, hbefore⟩
        cases n with
        | zero => exact absurd hat hhere
        | succ n => exact ⟨n, ih.2 ⟨hat, fun i hi => hbefore (i + 1) (Nat.succ_lt_succ hi)⟩, rfl⟩

theorem find_eq_none_iff (hpat : pat ≠ []) {l : List α} :
    find pat l = none ↔ ∀ i, ¬ pat <+: l.drop i := by
  constructor
  · intro hnone
    by_contra hex
    rw [not_forall_not] at hex
    -- the least position would be found
    have hfind := (find_eq_some_iff hpat (l := l)).2
      ⟨Nat.find_spec hex, fun i hi => Nat.find_min hex hi⟩
    rw [hnone] at hfind
    cases hfind
  · intro hall
    cases hfind : find pat l with
    | none => rfl
    | some n => exact absurd ((find_eq_some_iff hpat).1 hfind).1 (hall n)

/-- Whether the pattern stands at a place is settled once the list is long enough. -/
theorem prefix_drop_append {l : List α} {i : ℕ} (hi : i + pat.length ≤ l.length) (more : List α) :
    pat <+: (l ++ more).drop i ↔ pat <+: l.drop i := by
  rw [List.drop_append_of_le_length (by omega)]
  constructor
  · intro h
    refine List.prefix_of_prefix_length_le h (List.prefix_append _ more) ?_
    rw [List.length_drop]
    omega
  · exact fun h => h.trans (List.prefix_append _ more)

/-- What was found stays found. -/
theorem find_append_eq (hpat : pat ≠ []) {l : List α} {n : ℕ} (h : find pat l = some n) (more : List α) :
    find pat (l ++ more) = some n := by
  obtain ⟨hat, hmin⟩ := (find_eq_some_iff hpat).1 h
  have hlen := List.length_pos_iff.2 hpat
  have hle := hat.length_le
  rw [List.length_drop] at hle
  refine (find_eq_some_iff hpat).2 ⟨(prefix_drop_append (by omega) more).2 hat, fun i hi => ?_⟩
  rw [prefix_drop_append (by omega)]
  exact hmin i hi

/-- The search by position finds the same, from a place on that no occurrence comes before. -/
theorem find?_eq_find (hpat : pat ≠ []) {l : List α} {start : ℕ}
    (hbefore : ∀ i < start, ¬ pat <+: l.drop i) :
    (List.range' start (l.length - (pat.length - 1) - start)).find?
      (fun i => (l.drop i).take pat.length == pat) = find pat l := by
  have hiff (i : ℕ) : ((l.drop i).take pat.length == pat) = true ↔ pat <+: l.drop i := by
    rw [beq_iff_eq, List.prefix_iff_eq_take, eq_comm]
  have hlen := List.length_pos_iff.2 hpat
  cases hfind : find pat l with
  | none =>
    rw [List.find?_range'_eq_none]
    intro i _ _
    rw [Bool.not_eq_true', Bool.eq_false_iff, ne_eq, hiff]
    exact (find_eq_none_iff hpat).1 hfind i
  | some n =>
    obtain ⟨hat, hmin⟩ := (find_eq_some_iff hpat).1 hfind
    have hle := hat.length_le
    rw [List.length_drop] at hle
    have hstart : start ≤ n := not_lt.1 fun hlt => hbefore n hlt hat
    rw [List.find?_range'_eq_some]
    refine ⟨(hiff n).2 hat, ?_, fun i _ hi => ?_⟩
    · rw [List.mem_range'_1]
      omega
    · rw [Bool.not_eq_true', Bool.eq_false_iff, ne_eq, hiff]
      exact hmin i hi

/-! ## What comes after a pattern -/

/-- What comes after the first occurrence of `pat`. -/
def after (pat l : List α) : Option (List α) := (find pat l).map fun n => l.drop (n + pat.length)

theorem after_append_self (h : pat ≠ []) (l : List α) : after pat (pat ++ l) = some l := by
  rw [after, find_append_self h, Option.map_some, Nat.zero_add, List.drop_left]

theorem after_cons_skip {b : α} {l : List α} (h : ¬ pat <+: b :: l) : after pat (b :: l) = after pat l := by
  rw [after, after, find_cons_skip h, Option.map_map]
  refine congrArg (Option.map · (find pat l)) (funext fun n => ?_)
  rw [Function.comp_apply, Nat.add_right_comm, List.drop_succ_cons]

theorem after_append_of_not_mem {a : α} {front : List α} (h : a ∉ front) (l : List α) :
    after (a :: pat) (front ++ l) = after (a :: pat) l := by
  induction front with
  | nil => rfl
  | cons b front ih =>
    have hb : ¬ a :: pat <+: b :: (front ++ l) := fun hp =>
      h ((List.cons_prefix_cons.1 hp).1 ▸ List.mem_cons_self)
    rw [List.cons_append, after_cons_skip hb, ih fun hmem => h (List.mem_cons_of_mem b hmem)]

end Land.Scan
