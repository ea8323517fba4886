import Mathlib.Tactic

/-!
# Checked indices and arithmetic

Computations that stop at the first index or slice that is out of range and at the first number that does not fit
its type, and the loops that scanners are made of: the search for a pattern, the skipping of a class of bytes and
the accumulation of decimal digits.  The first two never stop.  The third stops exactly if the number that the
digits denote does not fit (`digitsLoop_eq`).
-/

namespace Land.Checked

inductive Panic where
  | outOfRange
  | overflow
  deriving DecidableEq

abbrev Run := Except Panic

/-- The number of values of a `usize`. -/
def usize : ℕ := 2 ^ 64

/-- A sum in a type whose values are below the bound. -/
def add (bound a b : ℕ) : Run ℕ := if a + b < bound then .ok (a + b) else .error .overflow

def mul (bound a b : ℕ) : Run ℕ := if a * b < bound then .ok (a * b) else .error .overflow

/-- A difference in a type without signs. -/
def sub (a b : ℕ) : Run ℕ := if b ≤ a then .ok (a - b) else .error .overflow

section Lists

variable {α : Type}

/-- `l[i]`. -/
def index (l : List α) (i : ℕ) : Run α :=
  match l[i]? with
  | some a => .ok a
  | none => .error .outOfRange

/-- `l[i..j]`. -/
def slice (l : List α) (i j : ℕ) : Run (List α) :=
  if i ≤ j ∧ j ≤ l.length then .ok ((l.take j).drop i) else .error .outOfRange

/-- The first of some positions at which the pattern stands. -/
def findLoop [DecidableEq α] (pat l : List α) : List ℕ → Run (Option ℕ)
  | [] => .ok none
  | i :: indices => do
      let part ← slice l i (← add usize i pat.length)
      if part = pat then .ok (some i) else findLoop pat l indices

/-- The first position from `j` on at which the property fails. -/
def skipLoop (p : α → Bool) (l : List α) (j : ℕ) : Run ℕ :=
  if h : j < l.length then do
    if p (← index l j) then
      let _ ← add usize j 1
      skipLoop p l (j + 1)
    else .ok j
  else .ok j
termination_by l.length - j

end Lists

/-- The decimal number of the bytes from `j` on for which the property holds, behind the digits of `val`, and the
position after them.  The number is of a type whose values are below the bound. -/
def digitsLoop (p : UInt8 → Bool) (bound : ℕ) (l : List UInt8) (j val : ℕ) : Run (ℕ × ℕ) :=
  if h : j < l.length then do
    let byte ← index l j
    if p byte then
      let digit ← sub byte.toNat 48
      let val ← add bound (← mul bound val 10) digit
      let _ ← add usize j 1
      digitsLoop p bound l (j + 1) val
    else .ok (val, j)
  else .ok (val, j)
termination_by l.length - j

/-- The number of decimal digits behind those of `val`. -/
def decimal (val : ℕ) (digits : List UInt8) : ℕ := digits.foldl (fun n b => n * 10 + (b.toNat - 48)) val

/-! ### Single steps -/

@[simp] theorem ok_bind {α β : Type} (a : α) (f : α → Run β) : (Except.ok a >>= f) = f a := rfl

@[simp] theorem error_bind {α β : Type} (e : Panic) (f : α → Run β) :
    ((Except.error e : Run α) >>= f) = .error e := rfl

theorem add_of_lt {bound a b : ℕ} (h : a + b < bound) : add bound a b = .ok (a + b) := if_pos h

theorem mul_of_lt {bound a b : ℕ} (h : a * b < bound) : mul bound a b = .ok (a * b) := if_pos h

theorem add_of_not_lt {bound a b : ℕ} (h : ¬ a + b < bound) : add bound a b = .error .overflow := if_neg h

theorem mul_of_not_lt {bound a b : ℕ} (h : ¬ a * b < bound) : mul bound a b = .error .overflow := if_neg h

theorem sub_of_le {a b : ℕ} (h : b ≤ a) : sub a b = .ok (a - b) := if_pos h

section Lists

variable {α : Type} {l : List α}

theorem index_of_lt {i : ℕ} (h : i < l.length) : index l i = .ok l[i] := by
  rw [index, List.getElem?_eq_getElem h]

theorem slice_of_le {i j : ℕ} (hij : i ≤ j) (hj : j ≤ l.length) : slice l i j = .ok ((l.take j).drop i) :=
  if_pos ⟨hij, hj⟩

/-- `l[..j]`. -/
theorem slice_zero {j : ℕ} (hj : j ≤ l.length) : slice l 0 j = .ok (l.take j) := slice_of_le (Nat.zero_le j) hj

/-- `l[i..]`. -/
theorem slice_length {i : ℕ} (hi : i ≤ l.length) : slice l i l.length = .ok (l.drop i) := by
  rw [slice_of_le hi le_rfl, List.take_length]

/-! ### Searching and skipping -/

theorem findLoop_eq [DecidableEq α] {pat : List α} (hl : l.length < usize) {indices : List ℕ}
    (h : ∀ i ∈ indices, i + pat.length ≤ l.length) :
    findLoop pat l indices = .ok (indices.find? fun i => (l.drop i).take pat.length == pat) := by
  induction indices with
  | nil => rfl
  | cons i indices ih =>
    have hi := h i (List.mem_cons_self ..)
    have hpart : (l.take (i + pat.length)).drop i = (l.drop i).take pat.length := by
      rw [List.drop_take, Nat.add_sub_cancel_left]
    rw [findLoop, add_of_lt (hi.trans_lt hl), ok_bind, slice_of_le (Nat.le_add_right _ _) hi, ok_bind, hpart,
      List.find?_cons]
    by_cases hp : (l.drop i).take pat.length = pat
    · rw [if_pos hp, beq_iff_eq.2 hp]
    · rw [if_neg hp, beq_false_of_ne hp]
      exact ih fun i' hi' => h i' (List.mem_cons_of_mem i hi')

/-- The byte at a position and what follows it. -/
theorem lt_of_drop_eq_cons {j : ℕ} {a : α} {rest : List α} (h : l.drop j = a :: rest) :
    ∃ hj : j < l.length, l[j] = a ∧ l.drop (j + 1) = rest := by
  have hj : j < l.length := by
    by_contra hge
    rw [List.drop_eq_nil_of_le (Nat.not_lt.1 hge)] at h
    cases h
  rw [List.drop_eq_getElem_cons hj] at h
  exact ⟨hj, (List.cons.inj h).1, (List.cons.inj h).2⟩

theorem drop_length_takeWhile (p : α → Bool) (l : List α) : l.drop (l.takeWhile p).length = l.dropWhile p := by
  calc l.drop (l.takeWhile p).length
      = (l.takeWhile p ++ l.dropWhile p).drop (l.takeWhile p).length := by rw [List.takeWhile_append_dropWhile]
    _ = l.dropWhile p := List.drop_left

theorem skipLoop_eq {p : α → Bool} (hl : l.length < usize) {j : ℕ} {rest : List α} (h : l.drop j = rest) :
    skipLoop p l j = .ok (j + (rest.takeWhile p).length) := by
  induction rest generalizing j with
  | nil =>
    rw [skipLoop, dif_neg (Nat.not_lt.2 (List.drop_eq_nil_iff.1 h))]
    rfl
  | cons a rest ih =>
    obtain ⟨hj, ha, hnext⟩ := lt_of_drop_eq_cons h
    rw [skipLoop, dif_pos hj, index_of_lt hj, ok_bind, ha]
    cases hp : p a with
    | true =>
      rw [if_pos rfl, add_of_lt (lt_of_le_of_lt hj hl), ok_bind, ih hnext, List.takeWhile_cons_of_pos hp,
        List.length_cons, Nat.add_right_comm, Nat.add_assoc]
    | false =>
      rw [if_neg Bool.false_ne_true, List.takeWhile_cons_of_neg (by rw [hp]; exact Bool.false_ne_true)]
      rfl

end Lists

/-! ### Computations that overflow unless a condition holds -/

section Fits

variable {α β : Type}

/-- The computation has the result if the condition holds, and overflows if not. -/
structure FitsIff (P : Prop) (x : Run α) (a : α) : Prop where
  ok : P → x = .ok a
  overflow : ¬ P → x = .error .overflow

variable {P Q : Prop} {x : Run α} {a : α}

theorem fitsIff_ok (a : α) : FitsIff True (.ok a) a := ⟨fun _ => rfl, fun h => absurd trivial h⟩

theorem fitsIff_add (bound m n : ℕ) : FitsIff (m + n < bound) (add bound m n) (m + n) :=
  ⟨add_of_lt, add_of_not_lt⟩

theorem FitsIff.congr (h : FitsIff P x a) (hPQ : P ↔ Q) : FitsIff Q x a :=
  ⟨fun hQ => h.ok (hPQ.2 hQ), fun hQ => h.overflow fun hP => hQ (hPQ.1 hP)⟩

theorem FitsIff.bind (h : FitsIff P x a) {f : α → Run β} {b : β} (hf : FitsIff Q (f a) b) :
    FitsIff (P ∧ Q) (x >>= f) b := by
  refine ⟨fun hPQ => ?_, fun hPQ => ?_⟩
  · rw [h.ok hPQ.1, ok_bind, hf.ok hPQ.2]
  · by_cases hP : P
    · rw [h.ok hP, ok_bind, hf.overflow fun hQ => hPQ ⟨hP, hQ⟩]
    · rw [h.overflow hP, error_bind]

/-- Nothing is asked for. -/
theorem fitsIff_ok_nil {R : β → Prop} (a : α) : FitsIff (∀ b ∈ ([] : List β), R b) (.ok a) a :=
  (fitsIff_ok a).congr (iff_of_true trivial (List.forall_mem_nil R))

/-- The last step does not overflow. -/
theorem FitsIff.bind_ok (h : FitsIff P x a) {f : α → Run β} {b : β} (hf : f a = .ok b) :
    FitsIff P (x >>= f) b :=
  (h.bind (hf ▸ fitsIff_ok b)).congr (and_iff_left trivial)

theorem fitsIff_foldlM {f : β → α → Run β} {g : β → α → β} {R : α → Prop} {l : List α}
    (h : ∀ b a, FitsIff (R a) (f b a) (g b a)) (b : β) :
    FitsIff (∀ a ∈ l, R a) (l.foldlM f b) (l.foldl g b) := by
  induction l generalizing b with
  | nil => exact fitsIff_ok_nil b
  | cons a l ih =>
    rw [List.foldlM_cons, List.foldl_cons]
    exact ((h b a).bind (ih (g b a))).congr (List.forall_mem_cons).symm

end Fits

/-! ### Computations with errors of their own -/

section Results

variable {ε α β : Type}

/-- A checked step of a computation that has errors of its own. -/
def check (x : Run α) : ExceptT ε Run α := ExceptT.lift x

/-- The computation does not stop; it ends with the result. -/
def Safe (x : ExceptT ε Run α) (y : Except ε α) : Prop := x.run = .ok y

theorem safe_pure (a : α) : Safe (pure a : ExceptT ε Run α) (.ok a) := rfl

theorem safe_throw (e : ε) : Safe (throw e : ExceptT ε Run α) (.error e) := rfl

theorem Safe.bind {x : ExceptT ε Run α} {y : Except ε α} (h : Safe x y) {f : α → ExceptT ε Run β}
    {g : α → Except ε β} (hf : ∀ a, y = .ok a → Safe (f a) (g a)) : Safe (x >>= f) (y >>= g) := by
  rw [Safe, ExceptT.run_bind, h]
  cases y with
  | error e => rfl
  | ok a => exact hf a rfl

/-- What follows a result. -/
theorem Safe.bind_iff {x : ExceptT ε Run α} {a : α} (h : Safe x (.ok a)) {f : α → ExceptT ε Run β}
    {y : Except ε β} : Safe (x >>= f) y ↔ Safe (f a) y := by
  rw [Safe, ExceptT.run_bind, h]
  rfl

/-- A checked step that succeeds. -/
theorem safe_check {x : Run α} {a : α} (hx : x = .ok a) {f : α → ExceptT ε Run β} {y : Except ε β}
    (hf : Safe (f a) y) : Safe (check x >>= f) y :=
  Safe.bind_iff (congrArg (fun r : Run α => (check r).run) hx) |>.2 hf

/-- A checked step that stops. -/
theorem not_safe_check {x : Run α} {e : Panic} (hx : x = .error e) {f : α → ExceptT ε Run β} {y : Except ε β} :
    ¬ Safe (check x >>= f) y := by
  rw [Safe, ExceptT.run_bind, hx]
  rintro ⟨⟩

/-- A part that does not check anything. -/
theorem safe_monadLift (y : Except ε α) : Safe (liftM y) y := by
  cases y <;> rfl

theorem safe_foldlM {f : β → α → ExceptT ε Run β} {g : β → α → Except ε β} {l : List α}
    (h : ∀ b, ∀ a ∈ l, Safe (f b a) (g b a)) (b : β) : Safe (l.foldlM f b) (l.foldlM g b) := by
  induction l generalizing b with
  | nil => exact safe_pure b
  | cons a l ih =>
    rw [List.foldlM_cons, List.foldlM_cons]
    exact (h b a (List.mem_cons_self ..)).bind fun b' _ =>
      ih (fun b'' a' ha' => h b'' a' (List.mem_cons_of_mem a ha')) b'

end Results

/-! ### Decimal numbers -/

theorem decimal_cons (val : ℕ) (b : UInt8) (digits : List UInt8) :
    decimal val (b :: digits) = decimal (val * 10 + (b.toNat - 48)) digits := by
  rw [decimal, List.foldl_cons, decimal]

theorem le_decimal (val : ℕ) (digits : List UInt8) : val ≤ decimal val digits := by
  induction digits generalizing val with
  | nil => exact le_rfl
  | cons b digits ih =>
    rw [decimal_cons]
    exact le_trans (by omega) (ih (val * 10 + (b.toNat - 48)))

/-- The accumulation gives the number if it fits, and overflows if not. -/
theorem digitsLoop_eq {p : UInt8 → Bool} (hp : ∀ b, p b = true → 48 ≤ b.toNat) {bound : ℕ} {l : List UInt8}
    (hl : l.length < usize) {j val : ℕ} (hval : val < bound) {rest : List UInt8} (h : l.drop j = rest) :
    digitsLoop p bound l j val =
      if decimal val (rest.takeWhile p) < bound then
        .ok (decimal val (rest.takeWhile p), j + (rest.takeWhile p).length)
      else .error .overflow := by
  induction rest generalizing j val with
  | nil =>
    rw [digitsLoop, dif_neg (Nat.not_lt.2 (List.drop_eq_nil_iff.1 h))]
    exact (if_pos hval).symm
  | cons b rest ih =>
    obtain ⟨hj, hb, hnext⟩ := lt_of_drop_eq_cons h
    rw [digitsLoop, dif_pos hj, index_of_lt hj, ok_bind, hb]
    cases hpb : p b with
    | false =>
      rw [if_neg Bool.false_ne_true, List.takeWhile_cons_of_neg (by rw [hpb]; exact Bool.false_ne_true)]
      exact (if_pos hval).symm
    | true =>
      rw [if_pos rfl, List.takeWhile_cons_of_pos hpb, decimal_cons, sub_of_le (hp b hpb), ok_bind]
      have hle := le_decimal (val * 10 + (b.toNat - 48)) (rest.takeWhile p)
      by_cases hfits : val * 10 + (b.toNat - 48) < bound
      · rw [mul_of_lt (by omega), ok_bind, add_of_lt hfits, ok_bind, add_of_lt (lt_of_le_of_lt hj hl), ok_bind,
          ih hfits hnext, List.length_cons, Nat.add_right_comm, Nat.add_assoc]
      · rw [if_neg (by omega)]
        by_cases hproduct : val * 10 < bound
        · rw [mul_of_lt hproduct, ok_bind, add_of_not_lt hfits, error_bind]
        · rw [mul_of_not_lt hproduct, error_bind]

end Land.Checked
