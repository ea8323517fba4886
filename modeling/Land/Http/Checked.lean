import Land.Http.Framing
import Land.Lib.Checked

/-!
# The framing functions with every index and every sum checked

`find_headers_end` and the search for `Content-Length`, of the server and of the client, as the loops over
positions that they are.  The only thing that can go wrong is the number that the digits of a `Content-Length`
denote: it is accumulated in a `usize` (`searchLoop_eq`).
-/

namespace Land.Framing

open Checked

/-! ### The header as text -/

/-- `Content-Length:` stands at the start of a line. -/
def namedAt (headers : List UInt8) (i : ℕ) : Bool :=
  (i == 0 || headers[i - 1]? == some 10) && namesContentLength (headers.drop i)

/-- The digits that follow the name and the blanks behind it. -/
def digitsAt (headers : List UInt8) (i : ℕ) : List UInt8 :=
  ((headers.drop (i + 15)).dropWhile (· == 32)).takeWhile isAsciiDigit

/-- The digits of the first `Content-Length` in the headers. -/
def lengthDigits (headers : List UInt8) : Option (List UInt8) :=
  ((List.range (headers.length - 14)).find? (namedAt headers)).map (digitsAt headers)

/-- The digits of the `Content-Length` of the message denote a `usize`. -/
def LengthFits (buf : List UInt8) : Prop :=
  ∀ headersEnd, findHeadersEnd buf = some headersEnd → ∀ digits ∈ lengthDigits (buf.take headersEnd),
    decimal 0 digits < usize

/-! ### The loops -/

/-- `at_line_start`. -/
def atLineStart (headers : List UInt8) (i : ℕ) : Run Bool :=
  if i = 0 then .ok true
  else do
    let byte ← index headers (← sub i 1)
    .ok (byte == 10)

/-- Whether the name stands at a position, as the condition in the loop has it. -/
def checkName (headers : List UInt8) (i : ℕ) : Run Bool := do
  if ← atLineStart headers i then
    let byte ← index headers i
    if byte == 67 || byte == 99 then
      let part ← slice headers (← add usize i 1) (← add usize i 15)
      .ok (eqIgnoreAsciiCase part (literal "ontent-length:"))
    else .ok false
  else .ok false

/-- The value behind the name. -/
def readValue (headers : List UInt8) (i : ℕ) : Run ℕ := do
  let j ← skipLoop (· == 32) headers (← add usize i 15)
  let (val, _) ← digitsLoop isAsciiDigit usize headers j 0
  .ok val

/-- `while i + 15 <= headers.len()`. -/
def searchLoop (headers : List UInt8) (i : ℕ) : Run (Option ℕ) := do
  let _ ← add usize i 15
  if h : i + 15 ≤ headers.length then
    if ← checkName headers i then
      let val ← readValue headers i
      .ok (some val)
    else
      let _ ← add usize i 1
      searchLoop headers (i + 1)
  else .ok none
termination_by headers.length - i

/-- The search for the value of `Content-Length`. -/
def searchContentLength (headers : List UInt8) : Run (Option ℕ) :=
  if headers.length < 15 then .ok none else searchLoop headers 0

/-- `is_body_complete`, once the search is done. -/
def bodyAvailable (buf : List UInt8) (bodyStart : ℕ) : Option ℕ → Bool
  | some contentLength => contentLength ≤ buf.length - bodyStart
  | none => true

/-! ### The end of the headers -/

theorem findLoop_headersEnd {buf : List UInt8} (hbuf : buf.length < usize) :
    findLoop [13, 10, 13, 10] buf (List.range (buf.length - 3)) = .ok (findHeadersEnd buf) := by
  rw [findLoop_eq hbuf, List.range_eq_range', findHeadersEnd,
    ← Scan.find?_eq_find (List.cons_ne_nil _ _) fun i (hi : i < 0) => absurd hi (Nat.not_lt_zero i)]
  · rfl
  · intro i hi
    have hlt := List.mem_range.1 hi
    simp only [List.length_cons, List.length_nil]
    omega

/-! ### The value of `Content-Length` -/

variable {headers : List UInt8}

theorem atLineStart_eq {i : ℕ} (hi : i < headers.length) :
    atLineStart headers i = .ok (i == 0 || headers[i - 1]? == some 10) := by
  by_cases h0 : i = 0
  · rw [atLineStart, if_pos h0, h0]
    rfl
  · have hbefore : i - 1 < headers.length := by omega
    rw [atLineStart, if_neg h0, sub_of_le (by omega), ok_bind, index_of_lt hbefore, ok_bind,
      List.getElem?_eq_getElem hbefore, beq_false_of_ne h0]
    rfl

theorem checkName_eq (hlen : headers.length < usize) {i : ℕ} (hi : i + 15 ≤ headers.length) :
    checkName headers i = .ok (namedAt headers i) := by
  have hhere : i < headers.length := by omega
  have hdrop : headers.drop i = headers[i] :: headers.drop (i + 1) := List.drop_eq_getElem_cons hhere
  have hpart : (headers.take (i + 15)).drop (i + 1) = (headers.drop (i + 1)).take 14 := by
    rw [List.drop_take]
    congr 1
    omega
  rw [checkName, atLineStart_eq hhere, ok_bind, namedAt, hdrop, namesContentLength]
  cases i == 0 || headers[i - 1]? == some 10 with
  | false => rfl
  | true =>
    rw [if_pos rfl, index_of_lt hhere, ok_bind, Bool.true_and]
    cases headers[i] == 67 || headers[i] == 99 with
    | false => rfl
    | true =>
      rw [if_pos rfl, add_of_lt (by omega), ok_bind, add_of_lt (by omega), ok_bind, slice_of_le (by omega) hi,
        ok_bind, hpart, Bool.true_and]

theorem le_of_isAsciiDigit {b : UInt8} (h : isAsciiDigit b = true) : 48 ≤ b.toNat := by
  simp only [isAsciiDigit, Bool.and_eq_true, decide_eq_true_eq, UInt8.le_iff_toNat_le] at h
  exact h.1

theorem readValue_eq (hlen : headers.length < usize) {i : ℕ} (hi : i + 15 ≤ headers.length) :
    readValue headers i =
      if decimal 0 (digitsAt headers i) < usize then .ok (decimal 0 (digitsAt headers i))
      else .error .overflow := by
  have hskip : headers.drop (i + 15 + ((headers.drop (i + 15)).takeWhile (· == 32)).length) =
      (headers.drop (i + 15)).dropWhile (· == 32) := by
    rw [← List.drop_drop, drop_length_takeWhile]
  rw [readValue, add_of_lt (hi.trans_lt hlen), ok_bind, skipLoop_eq hlen rfl, ok_bind,
    digitsLoop_eq (fun _ => le_of_isAsciiDigit) hlen (by decide) hskip, ← digitsAt]
  split_ifs <;> rfl

/-- The number that digits denote, if it is a `usize`. -/
def exactLength (digits : List UInt8) : Run (Option ℕ) :=
  if decimal 0 digits < usize then .ok (some (decimal 0 digits)) else .error .overflow

/-- What the search returns for the digits of the first name that it finds. -/
def foundLength : Option (List UInt8) → Run (Option ℕ)
  | some digits => exactLength digits
  | none => .ok none

theorem searchLoop_eq (hlen : headers.length + 15 < usize) (i k : ℕ) (hk : headers.length - 14 - i = k)
    (hi : i ≤ headers.length) :
    searchLoop headers i =
      foundLength (((List.range' i k).find? (namedAt headers)).map (digitsAt headers)) := by
  induction k generalizing i with
  | zero =>
    rw [searchLoop, add_of_lt (by omega), ok_bind, dif_neg (by omega)]
    rfl
  | succ k ih =>
    have hle : i + 15 ≤ headers.length := by omega
    rw [searchLoop, add_of_lt (by omega), ok_bind, dif_pos hle, checkName_eq (by omega) hle, ok_bind,
      List.range'_succ, List.find?_cons]
    cases namedAt headers i with
    | true =>
      rw [if_pos rfl, readValue_eq (by omega) hle]
      simp only [Option.map_some, foundLength, exactLength]
      split_ifs <;> rfl
    | false =>
      rw [if_neg Bool.false_ne_true, add_of_lt (by omega), ok_bind, ih (i + 1) (by omega) (by omega)]

/-- The search finds the digits of the first `Content-Length`.  It returns their number, or overflows. -/
theorem searchContentLength_eq (hlen : headers.length + 15 < usize) :
    searchContentLength headers = foundLength (lengthDigits headers) := by
  unfold searchContentLength
  split_ifs with hshort
  · have hrange : headers.length - 14 = 0 := by omega
    rw [lengthDigits, hrange]
    rfl
  · rw [searchLoop_eq hlen 0 (headers.length - 14) rfl (Nat.zero_le _), lengthDigits, List.range_eq_range']

theorem searchContentLength_take {buf : List UInt8} (hbuf : buf.length + 15 < usize) (headersEnd : ℕ) :
    searchContentLength (buf.take headersEnd) = foundLength (lengthDigits (buf.take headersEnd)) := by
  apply searchContentLength_eq
  rw [List.length_take]
  omega

theorem exists_of_not_lengthFits {buf : List UInt8} (h : ¬ LengthFits buf) :
    ∃ headersEnd, findHeadersEnd buf = some headersEnd ∧
      ¬ ∀ digits ∈ lengthDigits (buf.take headersEnd), decimal 0 digits < usize := by
  rw [LengthFits, not_forall] at h
  obtain ⟨headersEnd, h⟩ := h
  exact ⟨headersEnd, Classical.not_imp.1 h⟩

theorem foundLength_of_fits {found : Option (List UInt8)} (h : ∀ digits ∈ found, decimal 0 digits < usize) :
    foundLength found = .ok (found.map (decimal 0)) := by
  cases found with
  | none => rfl
  | some digits => exact if_pos (h digits rfl)

theorem foundLength_of_not_fits {found : Option (List UInt8)}
    (h : ¬ ∀ digits ∈ found, decimal 0 digits < usize) : foundLength found = .error .overflow := by
  cases found with
  | none => exact absurd (by rintro _ ⟨⟩) h
  | some digits => exact if_neg fun hlt => h fun _ hd => Option.mem_some_iff.1 hd ▸ hlt

theorem lengthFits_iff {buf : List UInt8} {headersEnd : ℕ} (h : findHeadersEnd buf = some headersEnd)
    {digits : List UInt8} (hdigits : lengthDigits (buf.take headersEnd) = some digits) :
    LengthFits buf ↔ decimal 0 digits < usize := by
  constructor
  · intro hfits
    exact hfits headersEnd h digits hdigits
  · intro hlt headersEnd' h' digits' hdigits'
    rw [h] at h'
    obtain rfl := Option.some.inj h'
    rw [hdigits] at hdigits'
    obtain rfl := Option.some.inj hdigits'
    exact hlt

/-! ### The wrapping search -/

theorem parseDigits_eq (bs : List UInt8) : parseDigits bs = decimal 0 (bs.takeWhile isAsciiDigit) % 2 ^ 64 := by
  have hfold (digits : List UInt8) (val : ℕ) :
      digits.foldl (fun val b => (val * 10 + (b.toNat - 48)) % 2 ^ 64) (val % 2 ^ 64) =
        decimal val digits % 2 ^ 64 := by
    induction digits generalizing val with
    | nil => rfl
    | cons b digits ih =>
      rw [List.foldl_cons, decimal_cons, ← ih]
      congr 1
      omega
  exact hfold _ 0

/-- The search over the suffixes finds the first name by position. -/
theorem findContentLength_drop (i k : ℕ) (hk : headers.length - 14 - i = k) :
    findContentLength (i == 0 || headers[i - 1]? == some 10) (headers.drop i) =
      ((List.range' i k).find? (namedAt headers)).map fun i => decimal 0 (digitsAt headers i) % 2 ^ 64 := by
  induction k generalizing i with
  | zero =>
    rw [findContentLength_short (by rw [List.length_drop]; omega)]
    rfl
  | succ k ih =>
    have hhere : i < headers.length := by omega
    have hdrop : headers.drop i = headers[i] :: headers.drop (i + 1) := List.drop_eq_getElem_cons hhere
    have hnext : (i + 1 == 0 || headers[i + 1 - 1]? == some 10) = (headers[i] == 10) := by
      rw [Nat.add_sub_cancel, List.getElem?_eq_getElem hhere]
      rfl
    rw [List.range'_succ, List.find?_cons]
    cases hname : namedAt headers i with
    | true =>
      rw [namedAt, hdrop] at hname
      rw [hdrop, findContentLength, hname, if_neg (by rw [List.length_drop]; omega), if_pos rfl, parseDigits_eq,
        List.drop_drop]
      rfl
    | false =>
      rw [namedAt, hdrop] at hname
      rw [hdrop, findContentLength_cons hname, ← hnext, ih (i + 1) (by omega)]

/-- The search that wraps finds the same digits, and their number up to a multiple of `2 ^ 64`. -/
theorem findContentLength_eq (headers : List UInt8) :
    findContentLength true headers = (lengthDigits headers).map fun digits => decimal 0 digits % 2 ^ 64 := by
  have h := @findContentLength_drop headers 0 (headers.length - 14) rfl
  rw [lengthDigits, Option.map_map, List.range_eq_range']
  exact h

/-- Where the length fits, the body is judged as by the model that wraps. -/
theorem bodyAvailable_eq {buf : List UInt8} {headersEnd : ℕ}
    (h : ∀ digits ∈ lengthDigits (buf.take headersEnd), decimal 0 digits < usize) :
    bodyAvailable buf (headersEnd + 4) ((lengthDigits (buf.take headersEnd)).map (decimal 0)) =
      isBodyComplete buf headersEnd := by
  rw [isBodyComplete, findContentLength_eq]
  cases hdigits : lengthDigits (buf.take headersEnd) with
  | none => rfl
  | some digits =>
    have hlt : decimal 0 digits < 2 ^ 64 := h digits hdigits
    simp only [Option.map_some, bodyAvailable, Nat.mod_eq_of_lt hlt]

end Land.Framing
