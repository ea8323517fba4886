import Land.Lib.Scan
import Land.Lib.Utf8

/-!
# Where an HTTP message ends

`find_headers_end`, the search for `Content-Length` and the test of completeness.  The server
(`server/src/http.rs`) and the client (`client/src/response.rs`) have a copy each.  On a message with
proper lines and the right `Content-Length` the test succeeds on the whole message and on nothing shorter
(`isComplete_prefix_iff`).
-/

namespace Land.Framing

open Utf8 (ascii)

/-- The bytes of an ASCII text. -/
def literal (text : String) : List UInt8 := text.toList.map ascii

/-- The search of `find_headers_end`. -/
def findHeadersEnd (buf : List UInt8) : Option ℕ := Scan.find [13, 10, 13, 10] buf

/-- `u8::to_ascii_lowercase`. -/
def toAsciiLowercase (b : UInt8) : UInt8 := if 65 ≤ b ∧ b ≤ 90 then b + 32 else b

/-- `<[u8]>::eq_ignore_ascii_case`. -/
def eqIgnoreAsciiCase (a b : List UInt8) : Bool := a.map toAsciiLowercase == b.map toAsciiLowercase

/-- `u8::is_ascii_digit`. -/
def isAsciiDigit (b : UInt8) : Bool := 48 ≤ b && b ≤ 57

/-- The loop that parses the digits into a `usize`, which wraps. -/
def parseDigits (bs : List UInt8) : ℕ :=
  (bs.takeWhile isAsciiDigit).foldl (fun val b => (val * 10 + (b.toNat - 48)) % 2 ^ 64) 0

/-- Whether `Content-Length:` stands at the front. -/
def namesContentLength : List UInt8 → Bool
  | [] => false
  | b :: bs => (b == 67 || b == 99) && eqIgnoreAsciiCase (bs.take 14) (literal "ontent-length:")

/-- The search for the value of `Content-Length`, from a position on. -/
def findContentLength (atLineStart : Bool) : List UInt8 → Option ℕ
  | [] => none
  | b :: bs =>
      if bs.length < 14 then none
      else if atLineStart && namesContentLength (b :: bs) then
        some (parseDigits ((bs.drop 14).dropWhile (· == 32)))
      else findContentLength (b == 10) bs

/-- `is_body_complete`. -/
def isBodyComplete (buf : List UInt8) (headersEnd : ℕ) : Bool :=
  match findContentLength true (buf.take headersEnd) with
  | some contentLength => contentLength ≤ buf.length - (headersEnd + 4)
  | none => true

/-- `is_complete`. -/
def isComplete (buf : List UInt8) : Bool :=
  match findHeadersEnd buf with
  | some headersEnd => isBodyComplete buf headersEnd
  | none => false

/-- A message: its lines up to the empty one, and its body. -/
structure Message where
  lines : List (List UInt8)
  body : List UInt8
  lines_ne_nil : lines ≠ []
  line_ne_nil : ∀ l ∈ lines, l ≠ []
  cr_not_mem : ∀ l ∈ lines, 13 ∉ l

/-- The bytes before the empty line. -/
def Message.head (m : Message) : List UInt8 := [13, 10].intercalate m.lines

/-- The bytes of a message. -/
def Message.bytes (m : Message) : List UInt8 := m.head ++ ([13, 10, 13, 10] ++ m.body)

/-! ## The end of the headers -/

theorem headersEnd_le {buf : List UInt8} {headersEnd : ℕ} (h : findHeadersEnd buf = some headersEnd) :
    headersEnd + 4 ≤ buf.length := by
  have hlen := ((Scan.find_eq_some_iff (List.cons_ne_nil _ _)).1 h).1.length_le
  simp only [List.length_cons, List.length_nil, List.length_drop] at hlen
  omega

/-- More bytes do not move the end of the headers. -/
theorem findHeadersEnd_append {buf : List UInt8} {headersEnd : ℕ} (h : findHeadersEnd buf = some headersEnd)
    (more : List UInt8) : findHeadersEnd (buf ++ more) = some headersEnd :=
  Scan.find_append_eq (List.cons_ne_nil _ _) h more

/-- The search passes a line that does not end the headers. -/
theorem findHeadersEnd_line {l rest : List UInt8} (hl : 13 ∉ l) {b : UInt8} (hb : b ≠ 13) :
    findHeadersEnd (l ++ ([13, 10] ++ b :: rest)) =
      (findHeadersEnd (b :: rest)).map (· + (l ++ [13, 10]).length) := by
  have hcr : ¬ [13, 10, 13, 10] <+: (13 : UInt8) :: 10 :: b :: rest := by
    intro h
    simp only [List.cons_prefix_cons] at h
    exact hb h.2.2.1.symm
  have hlf : ¬ [13, 10, 13, 10] <+: (10 : UInt8) :: b :: rest := by
    intro h
    simp only [List.cons_prefix_cons] at h
    exact absurd h.1 (by decide)
  rw [findHeadersEnd, Scan.find_append_of_not_mem hl]
  show (Scan.find _ (13 :: 10 :: b :: rest)).map _ = _
  rw [Scan.find_cons_skip hcr, Scan.find_cons_skip hlf, Option.map_map, Option.map_map]
  congr 1
  funext n
  simp only [Function.comp_apply, List.length_append, List.length_cons, List.length_nil]
  omega

theorem findHeadersEnd_lines {ls : List (List UInt8)} (hls : ls ≠ []) (hne : ∀ l ∈ ls, l ≠ [])
    (hcr : ∀ l ∈ ls, 13 ∉ l) (rest : List UInt8) :
    findHeadersEnd ([13, 10].intercalate ls ++ ([13, 10, 13, 10] ++ rest)) =
      some ([13, 10].intercalate ls).length := by
  induction ls with
  | nil => exact absurd rfl hls
  | cons l ls ih =>
    have hl := hcr l List.mem_cons_self
    cases ls with
    | nil =>
      rw [List.intercalate_singleton, findHeadersEnd, Scan.find_append_of_not_mem hl,
        Scan.find_append_self (List.cons_ne_nil _ _), Option.map_some, Nat.zero_add]
    | cons l' ls =>
      have hrec := ih (List.cons_ne_nil l' ls) (fun m hm => hne m (List.mem_cons_of_mem l hm))
        fun m hm => hcr m (List.mem_cons_of_mem l hm)
      have hmem' : l' ∈ l :: l' :: ls := List.mem_cons_of_mem l List.mem_cons_self
      -- the next line starts with a byte that is not CR
      obtain ⟨b, t, rfl⟩ := List.exists_cons_of_ne_nil (hne l' hmem')
      have hb : b ≠ 13 := fun h => hcr _ hmem' (h ▸ List.mem_cons_self)
      obtain ⟨u, hu⟩ : ∃ u, [13, 10].intercalate ((b :: t) :: ls) = b :: u := by
        cases ls with
        | nil => exact ⟨t, List.intercalate_singleton⟩
        | cons _ _ => exact ⟨_, List.intercalate_cons_cons⟩
      rw [hu] at hrec
      rw [List.intercalate_cons_cons, hu, List.append_assoc, List.append_assoc]
      refine (findHeadersEnd_line hl hb).trans ((congrArg _ hrec).trans ?_)
      rw [Option.map_some, Nat.add_comm, ← List.length_append]

theorem Message.findHeadersEnd_bytes (m : Message) : findHeadersEnd m.bytes = some m.head.length :=
  findHeadersEnd_lines m.lines_ne_nil m.line_ne_nil m.cr_not_mem m.body

theorem Message.length_bytes (m : Message) : m.bytes.length = m.head.length + 4 + m.body.length := by
  rw [bytes, List.length_append, List.length_append, Nat.add_assoc]
  rfl

theorem Message.drop_bytes (m : Message) : m.bytes.drop (m.head.length + 4) = m.body := by
  rw [bytes, ← List.append_assoc]
  exact List.drop_left' List.length_append

/-! ## The value of `Content-Length` -/

/-- The loop computes modulo `2 ^ 64` what the digits stand for. -/
theorem foldl_digits (cs : List Char) (val : ℕ) :
    cs.foldl (fun val c => (val * 10 + (c.toNat - 48)) % 2 ^ 64) (val % 2 ^ 64) =
      Nat.ofDigitChars 10 cs val % 2 ^ 64 := by
  induction cs generalizing val with
  | nil => rfl
  | cons c cs ih =>
    rw [List.foldl_cons, Nat.ofDigitChars_cons, ← ih]
    congr 1
    show (val % 2 ^ 64 * 10 + (c.toNat - 48)) % 2 ^ 64 = (10 * val + (c.toNat - 48)) % 2 ^ 64
    omega

theorem ascii_of_isDigit {c : Char} (h : c.isDigit = true) :
    isAsciiDigit (ascii c) = true ∧ (ascii c).toNat = c.toNat := by
  simp only [Char.isDigit, Bool.and_eq_true, decide_eq_true_eq, ge_iff_le, UInt32.le_iff_toNat_le] at h
  obtain ⟨hlow, hhigh⟩ : 48 ≤ c.toNat ∧ c.toNat ≤ 57 := h
  have hval : (ascii c).toNat = c.toNat := by
    rw [ascii, UInt8.toNat_ofNat']
    omega
  refine ⟨?_, hval⟩
  simp only [isAsciiDigit, Bool.and_eq_true, decide_eq_true_eq, UInt8.le_iff_toNat_le, hval]
  exact ⟨hlow, hhigh⟩

/-- The digits of a number are parsed up to the next byte that is not a digit. -/
theorem parseDigits_toDigits (n : ℕ) {rest : List UInt8}
    (hrest : ∀ b ∈ rest.head?, isAsciiDigit b = false) :
    parseDigits ((Nat.toDigits 10 n).map ascii ++ rest) = n % 2 ^ 64 := by
  have hdigit : ∀ c ∈ Nat.toDigits 10 n, c.isDigit = true := fun c hc =>
    Nat.isDigit_of_mem_toDigits (by decide) (by decide) hc
  have htake : ((Nat.toDigits 10 n).map ascii ++ rest).takeWhile isAsciiDigit =
      (Nat.toDigits 10 n).map ascii := by
    have hnil : rest.takeWhile isAsciiDigit = [] := by
      cases rest with
      | nil => rfl
      | cons b rest => rw [List.takeWhile_cons, hrest b rfl, if_neg Bool.false_ne_true]
    rw [List.takeWhile_append_of_pos, hnil, List.append_nil]
    intro b hb
    obtain ⟨c, hc, rfl⟩ := List.mem_map.1 hb
    exact (ascii_of_isDigit (hdigit c hc)).1
  rw [parseDigits, htake, List.foldl_map]
  refine (List.foldl_ext _ _ _ fun val c hc => ?_).trans ((foldl_digits _ 0).trans ?_)
  · rw [(ascii_of_isDigit (hdigit c hc)).2]
  · rw [Nat.ofDigitChars_ten_toDigits]

theorem findContentLength_short {bs : List UInt8} (h : bs.length < 15) (atLineStart : Bool) :
    findContentLength atLineStart bs = none := by
  cases bs with
  | nil => rfl
  | cons b bs => exact if_pos (Nat.lt_of_succ_lt_succ h)

/-- The search goes on where the name does not stand. -/
theorem findContentLength_cons {b : UInt8} {bs : List UInt8} {atLineStart : Bool}
    (h : (atLineStart && namesContentLength (b :: bs)) = false) :
    findContentLength atLineStart (b :: bs) = findContentLength (b == 10) bs := by
  rw [findContentLength, h, if_neg Bool.false_ne_true]
  split_ifs with hlen
  · rw [findContentLength_short (hlen.trans (by decide))]
  · rfl

/-- The search goes on to the end of the line. -/
theorem findContentLength_to_lf {l : List UInt8} (hl : 10 ∉ l) (rest : List UInt8) :
    findContentLength false (l ++ 10 :: rest) = findContentLength true rest := by
  induction l with
  | nil => exact findContentLength_cons rfl
  | cons b l ih =>
    have hb : (b == 10) = false := beq_false_of_ne fun hb => hl (hb ▸ List.mem_cons_self)
    rw [List.cons_append, findContentLength_cons rfl, hb]
    exact ih fun hmem => hl (List.mem_cons_of_mem b hmem)

/-- A line that the search passes. -/
structure Passed (l : List UInt8) : Prop where
  ne_nil : l ≠ []
  lf_not_mem : 10 ∉ l
  other_name : ∀ rest, namesContentLength (l ++ rest) = false

theorem Passed.findContentLength_eq {l : List UInt8} (h : Passed l) (rest : List UInt8) :
    findContentLength true (l ++ ([13, 10] ++ rest)) = findContentLength true rest := by
  obtain ⟨b, t, rfl⟩ := List.exists_cons_of_ne_nil h.ne_nil
  have hb : (b == 10) = false := beq_false_of_ne fun hb => h.lf_not_mem (hb ▸ List.mem_cons_self)
  have ht : 10 ∉ t ++ [13] := by
    intro hmem
    rcases List.mem_append.1 hmem with hmem | hmem
    · exact h.lf_not_mem (List.mem_cons_of_mem b hmem)
    · exact absurd hmem (by decide)
  have hname : (true && namesContentLength (b :: (t ++ ([13, 10] ++ rest)))) = false := h.other_name _
  have hlf := findContentLength_to_lf ht rest
  rw [List.append_assoc] at hlf
  rw [List.cons_append, findContentLength_cons hname, hb]
  exact hlf

/-- The line of a length. -/
def lengthLine (n : ℕ) : List UInt8 := literal "Content-Length: " ++ (Nat.toDigits 10 n).map ascii

theorem findContentLength_lengthLine (n : ℕ) {rest : List UInt8}
    (hrest : ∀ b ∈ rest.head?, isAsciiDigit b = false) :
    findContentLength true (lengthLine n ++ rest) = some (n % 2 ^ 64) := by
  obtain ⟨d, t, hdt⟩ := List.exists_cons_of_ne_nil (Nat.toDigits_ne_nil (n := n) (b := 10))
  have hd : (ascii d == 32) = false := by
    have hmem : d ∈ Nat.toDigits 10 n := hdt ▸ List.mem_cons_self
    have hdigit := (ascii_of_isDigit (Nat.isDigit_of_mem_toDigits (by decide) (by decide) hmem)).1
    refine beq_false_of_ne fun h => ?_
    rw [h] at hdigit
    cases hdigit
  have hspace : (32 :: ((Nat.toDigits 10 n).map ascii ++ rest)).dropWhile (· == 32) =
      (Nat.toDigits 10 n).map ascii ++ rest := by
    rw [hdt, List.map_cons, List.cons_append, List.dropWhile_cons_of_pos (by decide), List.dropWhile_cons,
      hd, if_neg Bool.false_ne_true]
  show findContentLength true (67 ::
    (literal "ontent-Length:" ++ 32 :: ((Nat.toDigits 10 n).map ascii ++ rest))) = _
  have hlen : ¬ (literal "ontent-Length:" ++ 32 :: ((Nat.toDigits 10 n).map ascii ++ rest)).length < 14 := by
    rw [List.length_append]
    exact not_lt.2 (Nat.le_add_right 14 _)
  rw [findContentLength, if_neg hlen]
  refine (if_pos (by rfl)).trans ?_
  show some (parseDigits ((32 :: ((Nat.toDigits 10 n).map ascii ++ rest)).dropWhile (· == 32))) = _
  rw [hspace, parseDigits_toDigits n hrest]

/-- The first line with the name decides. -/
theorem findContentLength_lines {before : List (List UInt8)} (hbefore : ∀ l ∈ before, Passed l) (n : ℕ)
    (after : List (List UInt8)) :
    findContentLength true ([13, 10].intercalate (before ++ lengthLine n :: after)) =
      some (n % 2 ^ 64) := by
  induction before with
  | nil =>
    cases after with
    | nil =>
      rw [List.nil_append, List.intercalate_singleton, ← List.append_nil (lengthLine n)]
      exact findContentLength_lengthLine n fun b hb => absurd hb (Option.not_mem_none b)
    | cons l after =>
      rw [List.nil_append, List.intercalate_cons_cons, List.append_assoc]
      refine findContentLength_lengthLine n fun b hb => ?_
      obtain rfl : 13 = b := Option.some.inj hb
      rfl
  | cons l before ih =>
    have hrec := ih fun m hm => hbefore m (List.mem_cons_of_mem l hm)
    obtain ⟨l', ls, hls⟩ : ∃ l' ls, before ++ lengthLine n :: after = l' :: ls :=
      List.exists_cons_of_ne_nil (List.append_ne_nil_of_right_ne_nil _ (List.cons_ne_nil _ _))
    rw [List.cons_append, hls, List.intercalate_cons_cons, List.append_assoc,
      (hbefore l List.mem_cons_self).findContentLength_eq, ← hls, hrec]

/-! ## Completeness -/

/-- What a receiver has of a message is complete if it is the whole message. -/
theorem isComplete_prefix_iff (m : Message)
    (hlength : findContentLength true m.head = some m.body.length) {p : List UInt8} (hp : p <+: m.bytes) :
    isComplete p = true ↔ p = m.bytes := by
  have htotal := m.length_bytes
  have hend : findHeadersEnd p = if m.head.length + 4 ≤ p.length then some m.head.length else none :=
    Scan.find_prefix_eq (List.cons_ne_nil _ _) hp m.findHeadersEnd_bytes
  by_cases hlen : m.head.length + 4 ≤ p.length
  · have hhead : m.head = p.take m.head.length := List.prefix_iff_eq_take.1
      (List.prefix_of_prefix_length_le (List.prefix_append _ _) hp (by omega))
    rw [if_pos hlen] at hend
    simp only [isComplete, hend, isBodyComplete, ← hhead, hlength, decide_eq_true_eq]
    constructor
    · intro hbody
      exact hp.eq_of_length_le (by omega)
    · rintro rfl
      omega
  · rw [if_neg hlen] at hend
    simp only [isComplete, hend, Bool.false_eq_true, false_iff]
    rintro rfl
    omega

end Land.Framing
