import Land.Client.Response
import Land.Http.Checked

/-!
# The response parser on any bytes

`is_complete` and `parse_response` with every index, slice, sum, product and difference checked.  Two numbers are
accumulated without a check in the source: the `Content-Length` in a `usize`, and the error code in an `i32`, the
sign apart.  Everything else is safe, so the parser panics exactly if one of the two does not fit
(`responseTotal_iff`).
-/

namespace Land.Client.Total

open Server (Bytes bytes)
open Checked

/-! ### The parser -/

/-- `find_headers_end`. -/
def findHeadersEnd (buf : Bytes) : Run (Option ℕ) :=
  if buf.length < 4 then .ok none
  else do findLoop [13, 10, 13, 10] buf (List.range (← sub buf.length 3))

/-- `find_content_length`. -/
def findContentLength (buf : Bytes) (headersEnd : ℕ) : Run (Option ℕ) := do
  let headers ← slice buf 0 headersEnd
  Framing.searchContentLength headers

/-- `is_body_complete`. -/
def isBodyComplete (buf : Bytes) (headersEnd : ℕ) : Run Bool := do
  let bodyStart ← add usize headersEnd 4
  let contentLength ← findContentLength buf headersEnd
  .ok (Framing.bodyAvailable buf bodyStart contentLength)

/-- `is_complete`. -/
def isComplete (buf : Bytes) : Run Bool := do
  match ← findHeadersEnd buf with
  | some headersEnd => isBodyComplete buf headersEnd
  | none => .ok false

/-- The number of three digits, in a `u16`. -/
def statusOf (d1 d2 d3 : UInt8) : Run ℕ := do
  let hundreds ← mul (2 ^ 16) (← sub d1.toNat 48) 100
  let tens ← mul (2 ^ 16) (← sub d2.toNat 48) 10
  add (2 ^ 16) (← add (2 ^ 16) hundreds tens) (← sub d3.toNat 48)

/-- `get_http_status`. -/
def getHttpStatus (buf : Bytes) : Run ℕ :=
  if buf.length < 12 then .ok 0
  else do
    let front ← slice buf 0 12
    match front.findIdx? (· == 32) with
    | none => .ok 0
    | some pos =>
        let last ← add usize pos 4
        if last ≤ buf.length then
          let d1 ← index buf (← add usize pos 1)
          let d2 ← index buf (← add usize pos 2)
          let d3 ← index buf (← add usize pos 3)
          if Framing.isAsciiDigit d1 && Framing.isAsciiDigit d2 && Framing.isAsciiDigit d3 then
            statusOf d1 d2 d3
          else .ok 0
        else .ok 0

/-- `find_key`. -/
def findKey (buf key : Bytes) : Run (Option ℕ) :=
  if buf.length < key.length then .ok none
  else do findLoop key buf (List.range ((← sub buf.length key.length) + 1))

/-- `-val` for an `i32`. -/
def neg (val : Int32) : Run Int32 := if val = Int32.minValue then .error .overflow else .ok (-val)

/-- The number from a position on, with its sign: the last part of `parse_number_after`.  Before the sign the number
is not negative, so the bound of the `i32` is `2 ^ 31`. -/
def parseDigitsFrom (rest : Bytes) (negative : Bool) (start : ℕ) : Run (Option Int32) := do
  let (val, j) ← digitsLoop Framing.isAsciiDigit (2 ^ 31) rest start 0
  if j = start then .ok none
  else if negative then .ok (some (← neg (Int32.ofNat val)))
  else .ok (some (Int32.ofNat val))

/-- `parse_number_after`. -/
def parseNumberAfter (buf : Bytes) : Run (Option Int32) :=
  match findByte buf 58 with
  | none => .ok none
  | some colon => do
      let rest ← slice buf (← add usize colon 1) buf.length
      let i ← skipLoop (fun b => b == 32 || b == 9) rest 0
      if i ≥ rest.length then .ok none
      else
        let sign ← index rest i
        if sign = 45 then parseDigitsFrom rest true (← add usize i 1)
        else parseDigitsFrom rest false i

/-- `find_error_code`. -/
def findErrorCode (body : Bytes) : Run (Option Int32) := do
  match ← findKey body (Framing.literal "\"error\"") with
  | none => .ok none
  | some errorPos =>
      match ← findKey (← slice body errorPos body.length) (Framing.literal "\"code\"") with
      | none => .ok none
      | some codePos => parseNumberAfter (← slice body (← add usize errorPos codePos) body.length)

/-- The digit of `parse_hex_u64`, a `u8`. -/
def hexDigit (b : UInt8) : Run (Option ℕ) :=
  if 48 ≤ b ∧ b ≤ 57 then do .ok (some (← sub b.toNat 48))
  else if 97 ≤ b ∧ b ≤ 102 then do .ok (some (← add (2 ^ 8) (← sub b.toNat 97) 10))
  else if 65 ≤ b ∧ b ≤ 70 then do .ok (some (← add (2 ^ 8) (← sub b.toNat 65) 10))
  else .ok none

/-- The loop of `parse_hex_u64`; its `checked_mul` and `checked_add` return `None`. -/
def hexLoop : Bytes → ℕ → Run (Option ℕ)
  | [], val => .ok (some val)
  | b :: hex, val => do
      match ← hexDigit b with
      | none => .ok none
      | some digit =>
          if val * 16 < 2 ^ 64 ∧ val * 16 + digit < 2 ^ 64 then hexLoop hex (val * 16 + digit) else .ok none

/-- `find_request_id`. -/
def findRequestId (body : Bytes) : Run (Option ℕ) := do
  match ← findKey body (Framing.literal "\"request_id\"") with
  | none => .ok none
  | some keyPos =>
      let rest ← slice body keyPos body.length
      match findByte rest 58 with
      | none => .ok none
      | some colon =>
          match findByte (← slice rest colon rest.length) 34 with
          | none => .ok none
          | some quoteStart =>
              let valueStart ← add usize (← add usize colon quoteStart) 1
              if valueStart ≥ rest.length then .ok none
              else
                let valueRest ← slice rest valueStart rest.length
                match findByte valueRest 34 with
                | none => .ok none
                | some quoteEnd => hexLoop (← slice valueRest 0 quoteEnd) 0

/-- `parse_json_rpc_response`. -/
def parseJsonRpcResponse (body : Bytes) : Run (Except Error SendResult) := do
  match ← findErrorCode body with
  | some code => .ok (.error (.rpc code))
  | none =>
      match ← findRequestId body with
      | some requestId => .ok (.ok ⟨requestId⟩)
      | none => .ok (.error .invalidResponse)

/-- `parse_response`. -/
def parseResponse (buf : Bytes) : Run (Except Error SendResult) := do
  match ← findHeadersEnd buf with
  | none => .ok (.error .invalidHttp)
  | some headersEnd =>
      let status ← getHttpStatus buf
      if status < 200 || status ≥ 300 then
        -- the text that is printed
        let _ ← slice buf 0 (min buf.length 500)
        .ok (.error .invalidHttp)
      else
        let bodyStart ← add usize headersEnd 4
        parseJsonRpcResponse (← slice buf bodyStart buf.length)

/-! ### Completeness -/

variable {buf : Bytes}

theorem findHeadersEnd_eq (hbuf : buf.length < usize) : findHeadersEnd buf = .ok (Framing.findHeadersEnd buf) := by
  rw [findHeadersEnd]
  split_ifs with hshort
  · rw [show Framing.findHeadersEnd buf = none from Scan.find_eq_none_of_length_lt hshort]
  · rw [sub_of_le (by omega), ok_bind, Framing.findLoop_headersEnd hbuf]

theorem isBodyComplete_eq (hbuf : buf.length + 15 < usize) {headersEnd : ℕ}
    (h : Framing.findHeadersEnd buf = some headersEnd) :
    isBodyComplete buf headersEnd =
      (Framing.foundLength (Framing.lengthDigits (buf.take headersEnd)) >>= fun contentLength =>
        .ok (Framing.bodyAvailable buf (headersEnd + 4) contentLength)) := by
  have hle := Framing.headersEnd_le h
  rw [isBodyComplete, add_of_lt (by omega), ok_bind, findContentLength, slice_zero (by omega), ok_bind,
    Framing.searchContentLength_take hbuf]

theorem isComplete_of_fits (hbuf : buf.length + 15 < usize) (hfits : Framing.LengthFits buf) :
    isComplete buf = .ok (Client.isComplete buf) := by
  rw [isComplete, findHeadersEnd_eq (by omega), ok_bind, Client.isComplete_eq, Framing.isComplete]
  cases hend : Framing.findHeadersEnd buf with
  | none => rfl
  | some headersEnd =>
    dsimp only
    rw [isBodyComplete_eq hbuf hend, Framing.foundLength_of_fits (hfits headersEnd hend), ok_bind,
      Framing.bodyAvailable_eq (hfits headersEnd hend)]

theorem isComplete_of_not_fits (hbuf : buf.length + 15 < usize) (hfits : ¬ Framing.LengthFits buf) :
    isComplete buf = .error .overflow := by
  obtain ⟨headersEnd, hend, hnot⟩ := Framing.exists_of_not_lengthFits hfits
  rw [isComplete, findHeadersEnd_eq (by omega), ok_bind, hend]
  dsimp only
  rw [isBodyComplete_eq hbuf hend, Framing.foundLength_of_not_fits hnot, error_bind]

/-! ### The error code -/

/-- The sign and the digits of the number after the first colon. -/
def numberText (buf : Bytes) : Option (Bool × Bytes) := do
  let colon ← findByte buf 58
  let rest := (buf.drop (colon + 1)).dropWhile fun b => b == 32 || b == 9
  let negative := rest.head? = some 45
  let digits := (if negative then rest.tail else rest).takeWhile Framing.isAsciiDigit
  if digits.isEmpty then none else some (negative, digits)

/-- The sign and the digits of the number after the first `"code"` behind the first `"error"`. -/
def errorNumber (body : Bytes) : Option (Bool × Bytes) := do
  let errorPos ← Client.findKey body (Framing.literal "\"error\"")
  let codePos ← Client.findKey (body.drop errorPos) (Framing.literal "\"code\"")
  numberText (body.drop (errorPos + codePos))

/-- The integer that is written. -/
def written (number : Bool × Bytes) : ℤ :=
  if number.1 then -(decimal 0 number.2 : ℤ) else decimal 0 number.2

/-- The error code for a number, if its digits fit. -/
def codeOf (number : Bool × Bytes) : Run (Option Int32) :=
  if decimal 0 number.2 < 2 ^ 31 then .ok (some (Int32.ofInt (written number))) else .error .overflow

/-- What is returned for the number that is found. -/
def foundCode : Option (Bool × Bytes) → Run (Option Int32)
  | some number => codeOf number
  | none => .ok none

theorem findByte_lt {needle : UInt8} {k : ℕ} (h : findByte buf needle = some k) : k < buf.length := by
  obtain ⟨hk, -⟩ := List.findIdx?_eq_some_iff_getElem.1 h
  exact hk

theorem neg_ofNat {val : ℕ} (h : val < 2 ^ 31) : neg (Int32.ofNat val) = .ok (Int32.ofInt (-(val : ℤ))) := by
  have hne : Int32.ofNat val ≠ Int32.minValue := by
    intro heq
    have hint := congrArg Int32.toInt heq
    rw [Int32.toInt_ofNat_of_lt h] at hint
    have hmin : Int32.minValue.toInt = -2 ^ 31 := by decide
    omega
  rw [neg, if_neg hne, Int32.ofInt_neg]
  rfl

theorem parseDigitsFrom_eq {rest : Bytes} (hrest : rest.length < usize) (negative : Bool) {start : ℕ}
    {tail : Bytes} (htail : rest.drop start = tail) :
    parseDigitsFrom rest negative start =
      foundCode (if (tail.takeWhile Framing.isAsciiDigit).isEmpty then none
        else some (negative, tail.takeWhile Framing.isAsciiDigit)) := by
  rw [parseDigitsFrom, digitsLoop_eq (fun _ => Framing.le_of_isAsciiDigit) hrest (by decide) htail]
  cases hdigits : tail.takeWhile Framing.isAsciiDigit with
  | nil =>
    rw [if_pos (by decide), ok_bind]
    exact if_pos rfl
  | cons b digits =>
    rw [List.isEmpty_cons, if_neg Bool.false_ne_true, foundCode, codeOf]
    by_cases hfits : decimal 0 (b :: digits) < 2 ^ 31
    · have hj : start + (b :: digits).length ≠ start := by
        rw [List.length_cons]
        omega
      rw [if_pos hfits, if_pos hfits, ok_bind]
      dsimp only
      rw [if_neg hj]
      cases negative with
      | true => rw [if_pos rfl, neg_ofNat hfits, ok_bind, written, if_pos rfl]
      | false => rfl
    · rw [if_neg hfits, if_neg hfits, error_bind]

/-- `parse_number_after` returns the number that is written, or overflows. -/
theorem parseNumberAfter_eq (hbuf : buf.length < usize) : parseNumberAfter buf = foundCode (numberText buf) := by
  rw [parseNumberAfter, numberText]
  cases hcolon : findByte buf 58 with
  | none => rfl
  | some colon =>
    have hlt : colon + 1 ≤ buf.length := findByte_lt hcolon
    have hrest : (buf.drop (colon + 1)).length < usize := by
      rw [List.length_drop]
      omega
    simp only [add_of_lt (lt_of_le_of_lt hlt hbuf), ok_bind, slice_length hlt, Option.bind_eq_bind,
      Option.bind_some]
    generalize buf.drop (colon + 1) = rest at hrest
    have hafter := drop_length_takeWhile (fun b => b == 32 || b == 9) rest
    rw [skipLoop_eq hrest (List.drop_zero), ok_bind, Nat.zero_add]
    generalize (rest.takeWhile fun b => b == 32 || b == 9).length = i at hafter
    cases htail : rest.dropWhile fun b => b == 32 || b == 9 with
    | nil =>
      rw [htail, List.drop_eq_nil_iff] at hafter
      rw [if_pos hafter]
      rfl
    | cons b tail =>
      rw [htail] at hafter
      obtain ⟨hi, hb, hnext⟩ := lt_of_drop_eq_cons hafter
      rw [if_neg (Nat.not_le.2 hi), index_of_lt hi, ok_bind, hb, List.head?_cons, List.tail_cons]
      by_cases hsign : b = 45
      · have hhead : some b = some (45 : UInt8) := congrArg some hsign
        rw [if_pos hsign, add_of_lt (lt_of_le_of_lt hi hrest), ok_bind, parseDigitsFrom_eq hrest true hnext,
          if_pos hhead, decide_eq_true hhead]
      · have hhead : ¬ some b = some (45 : UInt8) := fun h => hsign (Option.some.inj h)
        rw [if_neg hsign, parseDigitsFrom_eq hrest false hafter, if_neg hhead, decide_eq_false hhead]

theorem findKey_eq {key : Bytes} (hkey : key ≠ []) (hbuf : buf.length < usize) :
    findKey buf key = .ok (Client.findKey buf key) := by
  have hpos := List.length_pos_iff.2 hkey
  rw [findKey, Client.findKey]
  split_ifs with hshort
  · rw [Scan.find_eq_none_of_length_lt hshort]
  · have hcount : buf.length - key.length + 1 = buf.length - (key.length - 1) - 0 := by omega
    rw [sub_of_le (by omega), ok_bind, findLoop_eq hbuf, hcount, List.range_eq_range',
      Scan.find?_eq_find hkey (by rintro _ ⟨⟩)]
    intro i hi
    have hlt := List.mem_range.1 hi
    omega

theorem findKey_le {key : Bytes} (hkey : key ≠ []) {k : ℕ} (h : Client.findKey buf key = some k) :
    k ≤ buf.length := by
  have hlen := ((Scan.find_eq_some_iff hkey).1 h).1.length_le
  have hpos := List.length_pos_iff.2 hkey
  rw [List.length_drop] at hlen
  omega

theorem literal_ne_nil : Framing.literal "\"error\"" ≠ [] ∧ Framing.literal "\"code\"" ≠ [] ∧
    Framing.literal "\"request_id\"" ≠ [] := by decide +kernel

/-- `find_error_code` returns the number that is written behind `"code"`, or overflows. -/
theorem findErrorCode_eq {body : Bytes} (hbody : body.length < usize) :
    findErrorCode body = foundCode (errorNumber body) := by
  obtain ⟨herror, hcode, -⟩ := literal_ne_nil
  rw [findErrorCode, findKey_eq herror hbody, ok_bind, errorNumber]
  cases hfirst : Client.findKey body (Framing.literal "\"error\"") with
  | none => rfl
  | some errorPos =>
    have hle := findKey_le herror hfirst
    have htail : (body.drop errorPos).length < usize := by
      rw [List.length_drop]
      omega
    dsimp only
    rw [slice_length hle, ok_bind, findKey_eq hcode htail, ok_bind]
    simp only [Option.bind_eq_bind, Option.bind_some]
    cases hsecond : Client.findKey (body.drop errorPos) (Framing.literal "\"code\"") with
    | none => rfl
    | some codePos =>
      have hle' := findKey_le hcode hsecond
      rw [List.length_drop] at hle'
      have hsum : errorPos + codePos ≤ body.length := by omega
      dsimp only
      rw [add_of_lt (hsum.trans_lt hbody), ok_bind, slice_length hsum, ok_bind, parseNumberAfter_eq, Option.bind_some]
      rw [List.length_drop]
      omega

/-! ### The request id -/

theorem hexDigit_eq (b : UInt8) : hexDigit b = .ok (Client.hexDigit b) := by
  have hlt := b.toNat_lt
  simp only [hexDigit, Client.hexDigit, UInt8.le_iff_toNat_le]
  split_ifs with hdigit hlower hupper
  · have hle : 48 ≤ b.toNat := hdigit.1
    rw [sub_of_le hle, ok_bind]
  · have hle : 97 ≤ b.toNat := hlower.1
    rw [sub_of_le hle, ok_bind, add_of_lt (by omega), ok_bind]
  · have hle : 65 ≤ b.toNat := hupper.1
    rw [sub_of_le hle, ok_bind, add_of_lt (by omega), ok_bind]
  · rfl

theorem hexLoop_eq (hex : Bytes) (val : ℕ) : hexLoop hex val = .ok (hex.foldlM hexStep val) := by
  induction hex generalizing val with
  | nil => rfl
  | cons b hex ih =>
    rw [hexLoop, hexDigit_eq, ok_bind, List.foldlM_cons, hexStep]
    cases Client.hexDigit b with
    | none => rfl
    | some digit =>
      simp only [Option.bind_eq_bind, Option.bind_some]
      split_ifs
      · rw [ih, Option.bind_some]
      · rfl

theorem findRequestId_eq {body : Bytes} (hbody : body.length < usize) :
    findRequestId body = .ok (Client.findRequestId body) := by
  obtain ⟨-, -, hkey⟩ := literal_ne_nil
  rw [findRequestId, findKey_eq hkey hbody, ok_bind, Client.findRequestId]
  cases hfirst : Client.findKey body (Framing.literal "\"request_id\"") with
  | none => rfl
  | some keyPos =>
    have hlen : (body.drop keyPos).length < usize := by
      rw [List.length_drop]
      omega
    simp only [Option.bind_eq_bind, Option.bind_some, slice_length (findKey_le hkey hfirst), ok_bind]
    generalize body.drop keyPos = rest at hlen
    cases hcolon : findByte rest 58 with
    | none => rfl
    | some colon =>
      have hlt := findByte_lt hcolon
      simp only [Option.bind_some, slice_length hlt.le, ok_bind]
      cases hquote : findByte (rest.drop colon) 34 with
      | none => rfl
      | some quoteStart =>
        have hlt' := findByte_lt hquote
        rw [List.length_drop] at hlt'
        simp only [Option.bind_some, add_of_lt (show colon + quoteStart < usize by omega), ok_bind,
          add_of_lt (show colon + quoteStart + 1 < usize by omega)]
        split_ifs with hvalue
        · rfl
        · rw [slice_length (by omega), ok_bind]
          cases hend : findByte (rest.drop (colon + quoteStart + 1)) 34 with
          | none => rfl
          | some quoteEnd =>
            dsimp only
            rw [slice_zero (findByte_lt hend).le, ok_bind, hexLoop_eq]
            rfl

/-! ### The response -/

theorem sub_digit {d : UInt8} (h : Framing.isAsciiDigit d = true) :
    sub d.toNat 48 = .ok (d.toNat - 48) ∧ d.toNat - 48 < 10 := by
  simp only [Framing.isAsciiDigit, Bool.and_eq_true, decide_eq_true_eq, UInt8.le_iff_toNat_le] at h
  obtain ⟨hlow, hhigh⟩ : 48 ≤ d.toNat ∧ d.toNat ≤ 57 := h
  exact ⟨sub_of_le hlow, by omega⟩

theorem statusOf_eq {d1 d2 d3 : UInt8} (h1 : Framing.isAsciiDigit d1 = true) (h2 : Framing.isAsciiDigit d2 = true)
    (h3 : Framing.isAsciiDigit d3 = true) :
    statusOf d1 d2 d3 = .ok ((d1.toNat - 48) * 100 + (d2.toNat - 48) * 10 + (d3.toNat - 48)) := by
  obtain ⟨hs1, hlt1⟩ := sub_digit h1
  obtain ⟨hs2, hlt2⟩ := sub_digit h2
  obtain ⟨hs3, hlt3⟩ := sub_digit h3
  rw [statusOf, hs1, ok_bind, mul_of_lt (by omega), ok_bind, hs2, ok_bind, mul_of_lt (by omega), ok_bind,
    add_of_lt (by omega), ok_bind, hs3, ok_bind, add_of_lt (by omega)]

theorem getHttpStatus_eq (hbuf : buf.length + 15 < usize) : getHttpStatus buf = .ok (Client.getHttpStatus buf) := by
  rw [getHttpStatus, Client.getHttpStatus]
  split_ifs with hshort
  · rfl
  rw [slice_zero (by omega), ok_bind]
  cases hpos : (buf.take 12).findIdx? (· == 32) with
  | none => rfl
  | some pos =>
    have hlt : pos < 12 := by
      obtain ⟨hlt, -⟩ := List.findIdx?_eq_some_iff_getElem.1 hpos
      rw [List.length_take] at hlt
      omega
    dsimp only
    rw [add_of_lt (by omega), ok_bind]
    by_cases hroom : pos + 4 ≤ buf.length
    · have h1 : pos + 1 < buf.length := by omega
      have h2 : pos + 2 < buf.length := by omega
      have h3 : pos + 3 < buf.length := by omega
      rw [if_pos hroom, add_of_lt (by omega), ok_bind, index_of_lt h1, ok_bind, add_of_lt (by omega), ok_bind,
        index_of_lt h2, ok_bind, add_of_lt (by omega), ok_bind, index_of_lt h3, ok_bind,
        List.drop_eq_getElem_cons h1, List.drop_eq_getElem_cons h2, List.drop_eq_getElem_cons h3]
      dsimp only
      split_ifs with hdigits
      · simp only [Bool.and_eq_true] at hdigits
        exact statusOf_eq hdigits.1.1 hdigits.1.2 hdigits.2
      · rfl
    · -- fewer than three bytes follow the blank
      have hlen : (buf.drop (pos + 1)).length < 3 := by
        rw [List.length_drop]
        omega
      rw [if_neg hroom]
      generalize buf.drop (pos + 1) = rest at hlen
      rcases rest with _ | ⟨a, _ | ⟨b, _ | ⟨c, rest⟩⟩⟩
      · rfl
      · rfl
      · rfl
      · simp only [List.length_cons] at hlen
        omega

/-- The digits behind `"code"` denote an `i32`, in a response that is scanned for an error. -/
def CodeFits (buf : Bytes) : Prop :=
  ∀ headersEnd, Framing.findHeadersEnd buf = some headersEnd → 200 ≤ Client.getHttpStatus buf →
    Client.getHttpStatus buf < 300 → ∀ number ∈ errorNumber (buf.drop (headersEnd + 4)), decimal 0 number.2 < 2 ^ 31

theorem codeFits_iff {headersEnd : ℕ} (hend : Framing.findHeadersEnd buf = some headersEnd)
    (hlow : 200 ≤ Client.getHttpStatus buf) (hhigh : Client.getHttpStatus buf < 300) :
    CodeFits buf ↔ ∀ number ∈ errorNumber (buf.drop (headersEnd + 4)), decimal 0 number.2 < 2 ^ 31 := by
  constructor
  · exact fun h => h headersEnd hend hlow hhigh
  · intro h headersEnd' hend' _ _
    obtain rfl := Option.some.inj (hend.symm.trans hend')
    exact h

theorem foundCode_of_fits {found : Option (Bool × Bytes)} (h : ∀ number ∈ found, decimal 0 number.2 < 2 ^ 31) :
    foundCode found = .ok (found.map fun number => Int32.ofInt (written number)) := by
  cases found with
  | none => rfl
  | some number => exact if_pos (h number rfl)

theorem foundCode_of_not_fits {found : Option (Bool × Bytes)} (h : ¬ ∀ number ∈ found, decimal 0 number.2 < 2 ^ 31) :
    foundCode found = .error .overflow := by
  cases found with
  | none => exact absurd (by rintro _ ⟨⟩) h
  | some number =>
    refine if_neg fun hlt => h ?_
    rintro _ ⟨⟩
    exact hlt

/-- Arithmetic that wraps computes the number that is written, modulo `2 ^ 32`. -/
theorem foldl_ofNat (val : ℕ) (digits : Bytes) :
    digits.foldl (fun (val : Int32) b => val * 10 + Int32.ofNat (b.toNat - 48)) (Int32.ofNat val) =
      Int32.ofNat (decimal val digits) := by
  induction digits generalizing val with
  | nil => rfl
  | cons b digits ih =>
    have hstep : Int32.ofNat val * 10 + Int32.ofNat (b.toNat - 48) = Int32.ofNat (val * 10 + (b.toNat - 48)) := by
      rw [Int32.ofNat_add, Int32.ofNat_mul]
      rfl
    rw [List.foldl_cons, hstep, ih, decimal_cons]

theorem parseNumberAfter_map (buf : Bytes) :
    Client.parseNumberAfter buf = (numberText buf).map fun number => Int32.ofInt (written number) := by
  rw [Client.parseNumberAfter, numberText]
  cases findByte buf 58 with
  | none => rfl
  | some colon =>
    simp only [Option.bind_eq_bind, Option.bind_some]
    split_ifs with hsign hempty hempty
    · rfl
    · rw [Option.map_some, written, if_pos (decide_eq_true hsign), Int32.ofInt_neg]
      exact congrArg (fun val => some (-val)) (foldl_ofNat 0 _)
    · rfl
    · rw [Option.map_some, written, decide_eq_false hsign, if_neg Bool.false_ne_true]
      exact congrArg some (foldl_ofNat 0 _)

theorem findErrorCode_map (body : Bytes) :
    Client.findErrorCode body = (errorNumber body).map fun number => Int32.ofInt (written number) := by
  rw [Client.findErrorCode, errorNumber]
  cases Client.findKey body (Framing.literal "\"error\"") with
  | none => rfl
  | some errorPos =>
    simp only [Option.bind_eq_bind, Option.bind_some]
    cases Client.findKey (body.drop errorPos) (Framing.literal "\"code\"") with
    | none => rfl
    | some codePos => exact parseNumberAfter_map _

theorem parseJsonRpcResponse_of_fits {body : Bytes} (hbody : body.length < usize)
    (h : ∀ number ∈ errorNumber body, decimal 0 number.2 < 2 ^ 31) :
    parseJsonRpcResponse body = .ok (Client.parseJsonRpcResponse body) := by
  rw [parseJsonRpcResponse, findErrorCode_eq hbody, foundCode_of_fits h, ok_bind, Client.parseJsonRpcResponse,
    findErrorCode_map]
  cases (errorNumber body).map fun number => Int32.ofInt (written number) with
  | some code => rfl
  | none =>
    dsimp only
    rw [findRequestId_eq hbody, ok_bind]
    cases Client.findRequestId body with
    | none => rfl
    | some requestId => rfl

/-- A response with a status from 200 to 299 is scanned. -/
theorem parseResponse_of_status (hbuf : buf.length + 15 < usize) {headersEnd : ℕ}
    (hend : Framing.findHeadersEnd buf = some headersEnd) (hlow : 200 ≤ Client.getHttpStatus buf)
    (hhigh : Client.getHttpStatus buf < 300) :
    parseResponse buf = parseJsonRpcResponse (buf.drop (headersEnd + 4)) := by
  have hle := Framing.headersEnd_le hend
  have hstatus : (decide (Client.getHttpStatus buf < 200) || decide (Client.getHttpStatus buf ≥ 300)) = false := by
    rw [decide_eq_false (by omega), decide_eq_false (by omega), Bool.or_false]
  rw [parseResponse, findHeadersEnd_eq (by omega), ok_bind, hend]
  dsimp only
  rw [getHttpStatus_eq hbuf, ok_bind, hstatus, if_neg Bool.false_ne_true, add_of_lt (by omega), ok_bind,
    slice_length hle, ok_bind]

theorem parseResponse_of_fits (hbuf : buf.length + 15 < usize) (hfits : CodeFits buf) :
    parseResponse buf = .ok (Client.parseResponse buf) := by
  rw [Client.parseResponse, Client.findHeadersEnd_eq]
  cases hend : Framing.findHeadersEnd buf with
  | none =>
    rw [parseResponse, findHeadersEnd_eq (by omega), ok_bind, hend]
  | some headersEnd =>
    dsimp only
    split_ifs with hstatus
    · rw [parseResponse, findHeadersEnd_eq (by omega), ok_bind, hend]
      dsimp only
      rw [getHttpStatus_eq hbuf, ok_bind, if_pos hstatus, slice_zero (Nat.min_le_left _ _), ok_bind]
    · simp only [Bool.or_eq_true, decide_eq_true_eq, not_or, Nat.not_lt, ge_iff_le, Nat.not_le] at hstatus
      rw [parseResponse_of_status hbuf hend hstatus.1 hstatus.2, parseJsonRpcResponse_of_fits]
      · rw [List.length_drop]
        omega
      · exact hfits headersEnd hend hstatus.1 hstatus.2

theorem parseResponse_of_not_fits (hbuf : buf.length + 15 < usize) (hfits : ¬ CodeFits buf) :
    parseResponse buf = .error .overflow := by
  simp only [CodeFits, not_forall] at hfits
  obtain ⟨headersEnd, hend, hlow, hhigh, number, hnumber, hge⟩ := hfits
  have hbody : (buf.drop (headersEnd + 4)).length < usize := by
    rw [List.length_drop]
    omega
  rw [parseResponse_of_status hbuf hend hlow hhigh, parseJsonRpcResponse, findErrorCode_eq hbody,
    foundCode_of_not_fits fun h => hge (h number hnumber), error_bind]

/-! ### What is reported -/

theorem toInt_ofInt_written {number : Bool × Bytes} (h : decimal 0 number.2 < 2 ^ 31) :
    (Int32.ofInt (written number)).toInt = written number := by
  apply Int32.toInt_ofInt_of_le
  · rw [written]
    split_ifs <;> omega
  · rw [written]
    split_ifs <;> omega

/-- An error code comes from the number behind `"code"`. -/
theorem number_of_parseResponse {code : Int32} (h : Client.parseResponse buf = .error (.rpc code)) :
    ∃ headersEnd number, Framing.findHeadersEnd buf = some headersEnd ∧ 200 ≤ Client.getHttpStatus buf ∧
      Client.getHttpStatus buf < 300 ∧ errorNumber (buf.drop (headersEnd + 4)) = some number ∧
      code = Int32.ofInt (written number) := by
  rw [Client.parseResponse, Client.findHeadersEnd_eq] at h
  cases hend : Framing.findHeadersEnd buf with
  | none =>
    rw [hend] at h
    cases h
  | some headersEnd =>
    rw [hend] at h
    dsimp only at h
    split_ifs at h with hstatus
    · cases h
    simp only [Bool.or_eq_true, decide_eq_true_eq, not_or, Nat.not_lt, ge_iff_le, Nat.not_le] at hstatus
    rw [Client.parseJsonRpcResponse, findErrorCode_map] at h
    cases hnumber : errorNumber (buf.drop (headersEnd + 4)) with
    | none =>
      rw [hnumber] at h
      cases hid : Client.findRequestId (buf.drop (headersEnd + 4)) with
      | none =>
        rw [hid] at h
        cases h
      | some requestId =>
        rw [hid] at h
        cases h
    | some number =>
      rw [hnumber] at h
      cases h
      exact ⟨headersEnd, number, rfl, hstatus.1, hstatus.2, hnumber, rfl⟩

/-- The two functions return, and an error code is the integer that is written behind `"code"`. -/
structure ResponseTotal (buf : Bytes) : Prop where
  complete : ∃ complete, isComplete buf = .ok complete
  response : ∃ result, parseResponse buf = .ok result
  code : ∀ code, parseResponse buf = .ok (.error (.rpc code)) → ∃ headersEnd number,
    Framing.findHeadersEnd buf = some headersEnd ∧ errorNumber (buf.drop (headersEnd + 4)) = some number ∧
    code.toInt = written number

theorem responseTotal_of_fits (hbuf : buf.length + 15 < usize) (hlength : Framing.LengthFits buf)
    (hcode : CodeFits buf) : ResponseTotal buf where
  complete := ⟨_, isComplete_of_fits hbuf hlength⟩
  response := ⟨_, parseResponse_of_fits hbuf hcode⟩
  code := by
    intro code h
    rw [parseResponse_of_fits hbuf hcode] at h
    obtain ⟨headersEnd, number, hend, hlow, hhigh, hnumber, rfl⟩ := number_of_parseResponse (Except.ok.inj h)
    exact ⟨headersEnd, number, hend, hnumber,
      toInt_ofInt_written (hcode headersEnd hend hlow hhigh number hnumber)⟩

theorem ResponseTotal.fits (hbuf : buf.length + 15 < usize) (h : ResponseTotal buf) :
    Framing.LengthFits buf ∧ CodeFits buf := by
  constructor
  · by_contra hfits
    obtain ⟨complete, hcomplete⟩ := h.complete
    rw [isComplete_of_not_fits hbuf hfits] at hcomplete
    cases hcomplete
  · by_contra hfits
    obtain ⟨result, hresult⟩ := h.response
    rw [parseResponse_of_not_fits hbuf hfits] at hresult
    cases hresult

/-- Whatever bytes are received: the parser does not panic, and reports the exact code, exactly if the digits of the
first `Content-Length` denote a `usize` and those behind `"code"` an `i32`.  Then it computes what the model without
checks does; if not, the function that reads the number overflows.  A sign does not help: it is applied after the
digits. -/
theorem responseTotal_iff (buf : Bytes) (hbuf : buf.length < 2 ^ 63) :
    (ResponseTotal buf ↔ Framing.LengthFits buf ∧ CodeFits buf) ∧
    (Framing.LengthFits buf → isComplete buf = .ok (Client.isComplete buf)) ∧
    (¬ Framing.LengthFits buf → isComplete buf = .error .overflow) ∧
    (CodeFits buf → parseResponse buf = .ok (Client.parseResponse buf)) ∧
    (¬ CodeFits buf → parseResponse buf = .error .overflow) := by
  have hroom : buf.length + 15 < usize := lt_of_lt_of_le (Nat.add_lt_add_right hbuf 15) (by decide)
  exact ⟨⟨ResponseTotal.fits hroom, fun h => responseTotal_of_fits hroom h.1 h.2⟩, isComplete_of_fits hroom,
    isComplete_of_not_fits hroom, parseResponse_of_fits hroom, parseResponse_of_not_fits hroom⟩

/-- A response with an error code; the digits are a parameter. -/
def codeResponse (code : String) : Bytes :=
  Framing.literal ("HTTP/1.1 200 OK\r\nContent-Length: 31\r\n\r\n\x7b\"error\":\x7b\"code\":" ++ code ++ "\x7d\x7d")

/-- What the functions find in a response, as far as it matters here. -/
def Found (buf : Bytes) (headersEnd : ℕ) (length : Bytes) (number : Bool × Bytes) : Prop :=
  buf.length < 2 ^ 63 ∧ Framing.findHeadersEnd buf = some headersEnd ∧
    (200 ≤ Client.getHttpStatus buf ∧ Client.getHttpStatus buf < 300) ∧
    Framing.lengthDigits (buf.take headersEnd) = some length ∧ errorNumber (buf.drop (headersEnd + 4)) = some number

instance (buf : Bytes) (headersEnd : ℕ) (length : Bytes) (number : Bool × Bytes) :
    Decidable (Found buf headersEnd length number) := inferInstanceAs (Decidable (_ ∧ _ ∧ _ ∧ _ ∧ _))

theorem Found.fits_iff {headersEnd : ℕ} {length : Bytes} {number : Bool × Bytes}
    (h : Found buf headersEnd length number) :
    (Framing.LengthFits buf ↔ decimal 0 length < usize) ∧ (CodeFits buf ↔ decimal 0 number.2 < 2 ^ 31) := by
  obtain ⟨-, hend, ⟨hlow, hhigh⟩, hlength, hnumber⟩ := h
  refine ⟨Framing.lengthFits_iff hend hlength, ?_⟩
  simp only [codeFits_iff hend hlow hhigh, hnumber, Option.mem_some_iff, forall_eq']

theorem found_least :
    Found (codeResponse "-2147483647") 35 (Framing.literal "31") (true, Framing.literal "2147483647") := by
  decide +kernel

/-- The least code that can be read. -/
theorem responseTotal_iff_least : ResponseTotal (codeResponse "-2147483647") :=
  (responseTotal_iff _ found_least.1).1.2
    ⟨found_least.fits_iff.1.2 (by decide +kernel), found_least.fits_iff.2.2 (by decide +kernel)⟩

theorem found_minimum :
    Found (codeResponse "-2147483648") 35 (Framing.literal "31") (true, Framing.literal "2147483648") := by
  decide +kernel

/-- The minimum of an `i32` overflows: its digits are read before its sign is applied. -/
theorem not_responseTotal_minimum :
    written (true, Framing.literal "2147483648") = Int32.minValue.toInt ∧
    errorNumber ((codeResponse "-2147483648").drop 39) = some (true, Framing.literal "2147483648") ∧
    ¬ ResponseTotal (codeResponse "-2147483648") := by
  refine ⟨by decide +kernel, found_minimum.2.2.2.2, fun h => ?_⟩
  have hroom : (codeResponse "-2147483648").length + 15 < usize :=
    lt_of_lt_of_le (Nat.add_lt_add_right found_minimum.1 15) (by decide)
  exact absurd (found_minimum.fits_iff.2.1 (h.fits hroom).2) (by decide +kernel)

end Land.Client.Total
