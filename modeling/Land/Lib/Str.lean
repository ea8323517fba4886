import Mathlib.Tactic

/-!
# Text functions

Functions of Rust's `str` on lists of characters: white space, `trim`, `split_whitespace`, `lines`,
`eq_ignore_ascii_case`, and the reading of an unsigned number.
-/

namespace Land.Str

/-- The property `White_Space`. -/
def isWhitespace (c : Char) : Bool :=
  let n := c.toNat
  (9 ≤ n && n ≤ 13) || n == 0x20 || n == 0x85 || n == 0xA0 || n == 0x1680 ||
    (0x2000 ≤ n && n ≤ 0x200A) || n == 0x2028 || n == 0x2029 || n == 0x202F || n == 0x205F ||
    n == 0x3000

/-- `str::trim`. -/
def trim (s : List Char) : List Char :=
  ((s.dropWhile isWhitespace).reverse.dropWhile isWhitespace).reverse

/-- `str::split_whitespace`. -/
def splitWhitespace (s : List Char) : List (List Char) :=
  (s.splitOnP isWhitespace).filter fun part => !part.isEmpty

/-- `str::eq_ignore_ascii_case`. -/
def eqIgnoreAsciiCase (s t : List Char) : Bool := s.map Char.toLower == t.map Char.toLower

/-- `str::parse` for an unsigned type of `w` bits. -/
def parseUnsigned (w : ℕ) (s : List Char) : Option ℕ :=
  let digits := if s.head? = some '+' then s.tail else s
  if digits.isEmpty || !digits.all Char.isDigit then none
  else
    let n := Nat.ofDigitChars 10 digits 0
    if n < 2 ^ w then some n else none

/-- A line without its carriage return. -/
def stripCr (line : List Char) : List Char :=
  if line.getLast? = some '\r' then line.dropLast else line

/-- The loop of `str::lines`, with the part of the current line that was read. -/
def linesFrom (line : List Char) : List Char → List (List Char)
  | [] => if line = [] then [] else [line]
  | c :: s => if c = '\n' then stripCr line :: linesFrom [] s else linesFrom (line ++ [c]) s

/-- `str::lines`. -/
def lines (s : List Char) : List (List Char) := linesFrom [] s

/-! ## Trimming -/

theorem dropWhile_eq_self {s : List Char} (h : ∀ c ∈ s, isWhitespace c = false) :
    s.dropWhile isWhitespace = s := by
  cases s with
  | nil => rfl
  | cons c s => rw [List.dropWhile_cons, h c List.mem_cons_self, if_neg Bool.false_ne_true]

theorem trim_eq_self {s : List Char} (h : ∀ c ∈ s, isWhitespace c = false) : trim s = s := by
  rw [trim, dropWhile_eq_self h, dropWhile_eq_self fun c hc => h c (List.mem_reverse.1 hc),
    List.reverse_reverse]

theorem trim_space (s : List Char) : trim (' ' :: s) = trim s := rfl

/-- A printable ASCII character is not white space. -/
theorem isWhitespace_of_printable {c : Char} (h : 33 ≤ c.toNat) (h' : c.toNat ≤ 126) :
    isWhitespace c = false := by
  simp only [isWhitespace, Bool.or_eq_false_iff, Bool.and_eq_false_iff, decide_eq_false_iff_not,
    beq_eq_false_iff_ne]
  omega

theorem toNat_of_isDigit {c : Char} (h : c.isDigit = true) : 48 ≤ c.toNat ∧ c.toNat ≤ 57 := by
  simp only [Char.isDigit, Bool.and_eq_true, decide_eq_true_eq, ge_iff_le, UInt32.le_iff_toNat_le] at h
  exact h

/-! ## Lines -/

theorem linesFrom_append {l : List Char} (h : '\n' ∉ l) (line s : List Char) :
    linesFrom line (l ++ s) = linesFrom (line ++ l) s := by
  induction l generalizing line with
  | nil => rw [List.nil_append, List.append_nil]
  | cons c l ih =>
    have hc : ¬ c = '\n' := fun hc => h (hc ▸ List.mem_cons_self)
    rw [List.cons_append, linesFrom, if_neg hc, ih fun hl => h (List.mem_cons_of_mem c hl),
      List.append_assoc, List.singleton_append]

/-- A line that ends in a carriage return and a line feed. -/
theorem lines_crlf {l : List Char} (h : '\n' ∉ l) (s : List Char) :
    lines (l ++ '\r' :: '\n' :: s) = l :: lines s := by
  have hstrip : stripCr (l ++ ['\r']) = l := by
    simp [stripCr]
  rw [lines, linesFrom_append h]
  show stripCr (l ++ ['\r']) :: lines s = _
  rw [hstrip]

theorem lines_last {l : List Char} (h : '\n' ∉ l) (hne : l ≠ []) : lines l = [l] := by
  rw [lines, ← List.append_nil l, linesFrom_append h]
  simp [linesFrom, hne]

/-- Lines joined by carriage returns and line feeds. -/
theorem lines_intercalate {ls : List (List Char)} (hls : ls ≠ [])
    (h : ∀ l ∈ ls, '\n' ∉ l ∧ l ≠ []) : lines (['\r', '\n'].intercalate ls) = ls := by
  induction ls with
  | nil => exact absurd rfl hls
  | cons l ls ih =>
    obtain ⟨hl, hne⟩ := h l List.mem_cons_self
    cases ls with
    | nil =>
      rw [List.intercalate_singleton]
      exact lines_last hl hne
    | cons l' ls =>
      have hls := ih (List.cons_ne_nil l' ls) fun m hm => h m (List.mem_cons_of_mem l hm)
      rw [List.intercalate_cons_cons, List.append_assoc]
      exact (lines_crlf hl _).trans (congrArg (l :: ·) hls)

/-! ## Numbers -/

theorem isDigit_of_mem {n : ℕ} {c : Char} (h : c ∈ Nat.toDigits 10 n) : c.isDigit = true :=
  Nat.isDigit_of_mem_toDigits (by decide) (by decide) h

theorem exists_of_mem_hexDigits {n : ℕ} {c : Char} (hc : c ∈ Nat.toDigits 16 n) :
    ∃ d < 16, c = Nat.digitChar d := by
  induction n using Nat.strong_induction_on with
  | _ n ih =>
    rw [Nat.toDigits_eq_if (by decide)] at hc
    split_ifs at hc with hlt
    · exact ⟨n, hlt, List.mem_singleton.1 hc⟩
    · rcases List.mem_append.1 hc with hc | hc
      · exact ih (n / 16) (by omega) hc
      · exact ⟨n % 16, by omega, List.mem_singleton.1 hc⟩

/-- The decimal text of a number is read back, if the number fits. -/
theorem parseUnsigned_toDigits_eq (w n : ℕ) :
    parseUnsigned w (Nat.toDigits 10 n) = if n < 2 ^ w then some n else none := by
  have hplus : ¬ (Nat.toDigits 10 n).head? = some '+' := fun hhead =>
    Bool.false_ne_true (isDigit_of_mem (List.mem_of_mem_head? hhead))
  have hdigits : ((Nat.toDigits 10 n).isEmpty || !(Nat.toDigits 10 n).all Char.isDigit) = false := by
    rw [Bool.or_eq_false_iff, List.isEmpty_eq_false_iff, Bool.not_eq_false', List.all_eq_true]
    exact ⟨Nat.toDigits_ne_nil, fun c hc => isDigit_of_mem hc⟩
  simp only [parseUnsigned, if_neg hplus, hdigits, Bool.false_eq_true, if_false,
    Nat.ofDigitChars_ten_toDigits]

theorem parseUnsigned_toDigits {w n : ℕ} (h : n < 2 ^ w) :
    parseUnsigned w (Nat.toDigits 10 n) = some n := by
  rw [parseUnsigned_toDigits_eq, if_pos h]

/-- A number after a space is trimmed to its digits. -/
theorem trim_space_toDigits (n : ℕ) : trim (' ' :: Nat.toDigits 10 n) = Nat.toDigits 10 n := by
  rw [trim_space]
  refine trim_eq_self fun c hc => ?_
  obtain ⟨hlow, hhigh⟩ := toNat_of_isDigit (isDigit_of_mem hc)
  exact isWhitespace_of_printable (by omega) (by omega)

end Land.Str
