import Land.Http.Framing
import Land.Lib.Str

/-!
# The search for `Content-Length`, line by line

What the byte-level search reads from the bytes of a text, in terms of the text's lines: the first line
that starts with the name decides, and its value is the digits after its spaces
(`findContentLength_lines_eq`).
-/

namespace Land.Framing

open Utf8 (ascii)

/-! ## Comparing names -/

theorem toAsciiLowercase_ascii {c : Char} (hc : c.toNat ≤ 127) :
    toAsciiLowercase (ascii c) = ascii c.toLower ∧ c.toLower.toNat ≤ 127 := by
  have hall : ∀ n < 128, toAsciiLowercase (ascii (Char.ofNat n)) = ascii (Char.ofNat n).toLower ∧
      (Char.ofNat n).toLower.toNat ≤ 127 := by decide +kernel
  have h := hall c.toNat (by omega)
  rwa [Char.ofNat_toNat] at h

theorem toAsciiLowercase_of_lt {b : UInt8} (hb : 127 < b.toNat) : toAsciiLowercase b = b := by
  refine if_neg fun h => ?_
  have hle := UInt8.le_iff_toNat_le.1 h.2
  have h90 : (90 : UInt8).toNat = 90 := rfl
  omega

theorem toLower_of_lt {c : Char} (hc : 127 < c.toNat) : c.toLower = c := by
  refine dif_neg fun h => ?_
  have hle : c.val.toNat ≤ 'Z'.val.toNat := UInt32.le_iff_toNat_le.1 h.2
  have hz : 'Z'.val.toNat = 90 := rfl
  have hval : c.val.toNat = c.toNat := rfl
  omega

/-- A front part is compared alike as bytes and as characters. -/
theorem map_take_encode_iff {name : List Char} (hname : ∀ c ∈ name, c.toNat ≤ 127 ∧ c ≠ '\n')
    {rest : List UInt8} (hrest : ∀ b ∈ rest.head?, b = 10) (l : List Char) :
    ((Utf8.encode l ++ rest).take name.length).map toAsciiLowercase = name.map ascii ↔
      (l.take name.length).map Char.toLower = name := by
  induction name generalizing l with
  | nil => exact ⟨fun _ => rfl, fun _ => rfl⟩
  | cons d name ih =>
    obtain ⟨hd, hlf⟩ := hname d List.mem_cons_self
    have ih := ih fun c hc => hname c (List.mem_cons_of_mem d hc)
    cases l with
    | nil =>
      refine ⟨fun h => ?_, fun h => by cases h⟩
      -- what follows the text is no character of the name
      cases rest with
      | nil => cases h
      | cons b rest =>
        obtain rfl := hrest b rfl
        have hten : ascii '\n' = ascii d := (List.cons.inj h).1
        exact absurd (Utf8.ascii_inj (by decide) hd hten).symm hlf
    | cons c l =>
      simp only [Utf8.encode_cons, List.append_assoc, List.length_cons, List.take_succ_cons, List.map_cons,
        List.cons.injEq]
      by_cases hc : c.toNat ≤ 127
      · obtain ⟨hlower, hle⟩ := toAsciiLowercase_ascii hc
        rw [Utf8.encodeChar_of_le hc, List.singleton_append, List.take_succ_cons, List.map_cons,
          List.cons.injEq, ih, hlower]
        exact and_congr_left fun _ => ⟨fun h => Utf8.ascii_inj hle hd h, fun h => congrArg _ h⟩
      · obtain ⟨b, bs, hbs⟩ := List.exists_cons_of_length_pos (Utf8.length_encodeChar c).1
        have hb := Utf8.lt_of_mem_encodeChar (not_le.1 hc) (hbs ▸ List.mem_cons_self)
        rw [hbs, List.cons_append, List.take_succ_cons, List.map_cons, List.cons.injEq,
          toAsciiLowercase_of_lt hb, toLower_of_lt (not_le.1 hc)]
        have hbyte : b ≠ ascii d := by
          rintro rfl
          rw [ascii, UInt8.toNat_ofNat', Nat.mod_eq_of_lt (hd.trans_lt (by decide))] at hb
          omega
        have hchar : c ≠ d := by
          rintro rfl
          exact hc hd
        exact iff_of_false (fun h => hbyte h.1) fun h => hchar h.1

theorem namesContentLength_iff (bs : List UInt8) : namesContentLength bs = true ↔
    (bs.take 15).map toAsciiLowercase = "content-length:".toList.map ascii := by
  have hfirst (b : UInt8) : (b == 67 || b == 99) = true ↔ toAsciiLowercase b = 99 := by
    have hall : ∀ n < 256, (UInt8.ofNat n == 67 || UInt8.ofNat n == 99) = true ↔
        toAsciiLowercase (UInt8.ofNat n) = 99 := by decide +kernel
    have h := hall b.toNat b.toNat_lt
    rwa [UInt8.ofNat_toNat] at h
  have hname : (literal "ontent-length:").map toAsciiLowercase = "ontent-length:".toList.map ascii := by
    decide +kernel
  have hcons : "content-length:".toList.map ascii = 99 :: "ontent-length:".toList.map ascii := rfl
  cases bs with
  | nil => decide +kernel
  | cons b bs =>
    rw [namesContentLength, Bool.and_eq_true, hfirst, eqIgnoreAsciiCase, beq_iff_eq, hname, hcons,
      List.take_succ_cons, List.map_cons, List.cons.injEq]

/-! ## One line of bytes -/

/-- The search goes on at the next line. -/
theorem findContentLength_line {l : List UInt8} (hl : 10 ∉ l) {rest : List UInt8}
    (hname : namesContentLength (l ++ 10 :: rest) = false) :
    findContentLength true (l ++ 10 :: rest) = findContentLength true rest := by
  cases l with
  | nil => exact findContentLength_cons hname
  | cons b l =>
    have hb : (b == 10) = false := beq_false_of_ne fun hb => hl (hb ▸ List.mem_cons_self)
    rw [List.cons_append, findContentLength_cons (by exact hname), hb]
    exact findContentLength_to_lf (fun hmem => hl (List.mem_cons_of_mem b hmem)) rest

theorem findContentLength_last {l : List UInt8} (hl : 10 ∉ l) {atLineStart : Bool}
    (hname : (atLineStart && namesContentLength l) = false) : findContentLength atLineStart l = none := by
  induction l generalizing atLineStart with
  | nil => rfl
  | cons b l ih =>
    have hb : (b == 10) = false := beq_false_of_ne fun hb => hl (hb ▸ List.mem_cons_self)
    rw [findContentLength_cons hname, hb]
    exact ih (fun hmem => hl (List.mem_cons_of_mem b hmem)) rfl

theorem findContentLength_named {bs : List UInt8} (h : namesContentLength bs = true) :
    findContentLength true bs = some (parseDigits ((bs.drop 15).dropWhile (· == 32))) := by
  have hlen := congrArg List.length ((namesContentLength_iff bs).1 h)
  cases bs with
  | nil => cases h
  | cons b bs =>
    have hlong : ¬ bs.length < 14 := by
      intro hshort
      have h15 : "content-length:".toList.length = 15 := rfl
      simp only [List.length_map, List.length_take, List.length_cons] at hlen
      omega
    rw [findContentLength, if_neg hlong, h]
    rfl

/-! ## One line of text -/

/-- The line starts with the name. -/
def startsContentLength (l : List Char) : Bool :=
  Str.eqIgnoreAsciiCase (l.take 15) "content-length:".toList

/-- The digits after the name, with spaces before them. -/
def lengthValue (l : List Char) : ℕ :=
  Nat.ofDigitChars 10 (((l.drop 15).dropWhile (· == ' ')).takeWhile Char.isDigit) 0 % 2 ^ 64

theorem startsContentLength_iff (l : List Char) : startsContentLength l = true ↔
    (l.take 15).map Char.toLower = "content-length:".toList := by
  have hname : "content-length:".toList.map Char.toLower = "content-length:".toList := by decide
  rw [startsContentLength, Str.eqIgnoreAsciiCase, beq_iff_eq, hname]

theorem namesContentLength_encode {rest : List UInt8} (hrest : ∀ b ∈ rest.head?, b = 10) (l : List Char) :
    namesContentLength (Utf8.encode l ++ rest) = startsContentLength l := by
  have hname : ∀ c ∈ "content-length:".toList, c.toNat ≤ 127 ∧ c ≠ '\n' := by
    refine fun c hc => ⟨Utf8.toNat_le_of_isAscii (by decide) c hc, ?_⟩
    rintro rfl
    exact absurd hc (by decide)
  rw [Bool.eq_iff_iff, namesContentLength_iff, startsContentLength_iff]
  exact map_take_encode_iff hname hrest l

/-- The name is ASCII, so as many bytes as characters are skipped. -/
theorem drop_encode {name l : List Char} (hname : ∀ c ∈ name, c.toNat ≤ 127)
    (h : (l.take name.length).map Char.toLower = name) (rest : List UInt8) :
    (Utf8.encode l ++ rest).drop name.length = Utf8.encode (l.drop name.length) ++ rest := by
  induction name generalizing l with
  | nil => rfl
  | cons d name ih =>
    cases l with
    | nil => cases h
    | cons c l =>
      obtain ⟨hcd, h⟩ := List.cons.inj h
      have hc : c.toNat ≤ 127 := by
        by_contra hlt
        have hd := hname d List.mem_cons_self
        rw [← hcd, toLower_of_lt (not_le.1 hlt)] at hd
        exact hlt hd
      rw [Utf8.encode_cons, Utf8.encodeChar_of_le hc, List.singleton_append, List.cons_append,
        List.length_cons, List.drop_succ_cons, List.drop_succ_cons]
      exact ih (fun e he => hname e (List.mem_cons_of_mem d he)) h

theorem agree_space : Utf8.Agree (· == 32) (· == ' ') where
  ascii c hc := by
    rw [Bool.eq_iff_iff, beq_iff_eq, beq_iff_eq]
    exact ⟨fun h => Utf8.ascii_inj hc (by decide) h, fun h => h ▸ rfl⟩
  char c hc := beq_false_of_ne fun h => by
    rw [h] at hc
    exact absurd hc (by decide)
  byte b hb := beq_false_of_ne fun h => by
    rw [h] at hb
    exact absurd hb (by decide)

theorem agree_digit : Utf8.Agree isAsciiDigit Char.isDigit where
  ascii c hc := by
    have hall : ∀ n < 128, isAsciiDigit (ascii (Char.ofNat n)) = (Char.ofNat n).isDigit := by
      decide +kernel
    have h := hall c.toNat (by omega)
    rwa [Char.ofNat_toNat] at h
  char c hc := Bool.eq_false_iff.2 fun h => by
    have hle := (Str.toNat_of_isDigit h).2
    omega
  byte b hb := by
    have h57 : (57 : UInt8).toNat = 57 := rfl
    rw [isAsciiDigit, Bool.and_eq_false_iff]
    refine .inr (decide_eq_false fun h => ?_)
    have hle := UInt8.le_iff_toNat_le.1 h
    omega

theorem parseDigits_encode {rest : List UInt8} (hrest : ∀ b ∈ rest.head?, b = 10) (l : List Char) :
    parseDigits (Utf8.encode l ++ rest) = Nat.ofDigitChars 10 (l.takeWhile Char.isDigit) 0 % 2 ^ 64 := by
  have hstop : ∀ b ∈ rest.head?, isAsciiDigit b = false := fun b hb => by
    rw [hrest b hb]
    rfl
  rw [parseDigits, agree_digit.takeWhile_encode hstop, List.foldl_map, ← foldl_digits]
  refine List.foldl_ext _ _ _ fun val c hc => ?_
  have hdigit := List.all_eq_true.1 List.all_takeWhile c hc
  rw [(ascii_of_isDigit hdigit).2]

/-- The search at the beginning of a line that has the name. -/
theorem findContentLength_starts {rest : List UInt8} (hrest : ∀ b ∈ rest.head?, b = 10) {l : List Char}
    (h : startsContentLength l = true) :
    findContentLength true (Utf8.encode l ++ rest) = some (lengthValue l) := by
  have hname : ∀ c ∈ "content-length:".toList, c.toNat ≤ 127 := Utf8.toNat_le_of_isAscii (by decide)
  have hdrop := drop_encode hname ((startsContentLength_iff l).1 h) rest
  have hspace : ∀ b ∈ rest.head?, (b == 32) = false := fun b hb => by
    rw [hrest b hb]
    rfl
  rw [findContentLength_named ((namesContentLength_encode hrest l).trans h)]
  show some (parseDigits (((Utf8.encode l ++ rest).drop "content-length:".toList.length).dropWhile
    (· == 32))) = _
  rw [hdrop, agree_space.dropWhile_encode hspace, parseDigits_encode hrest]
  rfl

/-! ## The carriage return at the end of a line -/

theorem takeWhile_concat {α : Type} {p : α → Bool} {a : α} (ha : p a = false) (l : List α) :
    (l ++ [a]).takeWhile p = l.takeWhile p := by
  induction l with
  | nil => exact List.takeWhile_cons_of_neg (Bool.eq_false_iff.1 ha)
  | cons b l ih => rw [List.cons_append, List.takeWhile_cons, List.takeWhile_cons, ih]

theorem dropWhile_concat {α : Type} {p : α → Bool} {a : α} (ha : p a = false) (l : List α) :
    (l ++ [a]).dropWhile p = l.dropWhile p ++ [a] := by
  induction l with
  | nil => exact List.dropWhile_cons_of_neg (Bool.eq_false_iff.1 ha)
  | cons b l ih =>
    rw [List.cons_append, List.dropWhile_cons, List.dropWhile_cons, ih]
    split_ifs
    · rfl
    · rfl

theorem starts_concat_cr (l : List Char) : startsContentLength (l ++ ['\r']) = startsContentLength l := by
  rw [Bool.eq_iff_iff, startsContentLength_iff, startsContentLength_iff]
  by_cases hlen : 15 ≤ l.length
  · rw [List.take_append_of_le_length hlen]
  · have htake : (l ++ ['\r']).take 15 = l ++ ['\r'] := by
      refine List.take_of_length_le ?_
      rw [List.length_append, List.length_singleton]
      omega
    refine iff_of_false (fun h => ?_) fun h => ?_
    · have hmem : '\r' ∈ "content-length:".toList := by
        rw [← h, htake, List.map_append]
        exact List.mem_append_right _ List.mem_cons_self
      exact absurd hmem (by decide)
    · have hlength := congrArg List.length h
      have h15 : "content-length:".toList.length = 15 := rfl
      rw [List.length_map, List.length_take, h15] at hlength
      omega

theorem lengthValue_concat_cr {l : List Char} (h : startsContentLength l = true) :
    lengthValue (l ++ ['\r']) = lengthValue l := by
  have hlength := congrArg List.length ((startsContentLength_iff l).1 h)
  have h15 : "content-length:".toList.length = 15 := rfl
  rw [List.length_map, List.length_take, h15] at hlength
  rw [lengthValue, List.drop_append_of_le_length (by omega), dropWhile_concat (by decide),
    takeWhile_concat (by decide)]
  rfl

/-! ## All lines -/

/-- What the search reads: the first line with the name, the request line included. -/
def scannedLength (ls : List (List Char)) : Option ℕ := (ls.find? startsContentLength).map lengthValue

theorem scannedLength_stripCr (l : List Char) (ls : List (List Char)) :
    scannedLength (Str.stripCr l :: ls) = scannedLength (l :: ls) := by
  unfold Str.stripCr
  split_ifs with hcr
  · obtain ⟨l', rfl⟩ := List.getLast?_eq_some_iff.1 hcr
    rw [List.dropLast_concat, scannedLength, scannedLength, List.find?_cons, List.find?_cons,
      starts_concat_cr]
    cases hstart : startsContentLength l' with
    | true => exact congrArg some (lengthValue_concat_cr hstart).symm
    | false => rfl
  · rfl

/-- The search over the bytes of a text, with the part of the current line that was read. -/
theorem findContentLength_linesFrom (s : List Char) {line : List Char} (hline : '\n' ∉ line) :
    findContentLength true (Utf8.encode (line ++ s)) = scannedLength (Str.linesFrom line s) := by
  have hlf {l : List Char} (hl : '\n' ∉ l) : 10 ∉ Utf8.encode l :=
    Utf8.ascii_not_mem_encode (c := '\n') (by decide) hl
  induction s generalizing line with
  | nil =>
    rw [List.append_nil, Str.linesFrom, ← List.append_nil (Utf8.encode line)]
    split_ifs with hnil
    · rw [hnil]
      rfl
    · have hrest : ∀ b ∈ ([] : List UInt8).head?, b = 10 := fun b hb => absurd hb (Option.not_mem_none b)
      rw [scannedLength, List.find?_cons]
      cases hstart : startsContentLength line with
      | true => exact findContentLength_starts hrest hstart
      | false =>
        have hname := (namesContentLength_encode hrest line).trans hstart
        exact findContentLength_last (by rw [List.append_nil]; exact hlf hline) hname
  | cons c s ih =>
    rw [Str.linesFrom]
    split_ifs with hc
    · subst hc
      have hrest : ∀ b ∈ (10 :: Utf8.encode s).head?, b = 10 := fun b hb => (Option.some.inj hb).symm
      rw [Utf8.encode_append, scannedLength_stripCr, scannedLength, List.find?_cons]
      show findContentLength true (Utf8.encode line ++ 10 :: Utf8.encode s) = _
      cases hstart : startsContentLength line with
      | true => exact findContentLength_starts hrest hstart
      | false =>
        rw [findContentLength_line (hlf hline) ((namesContentLength_encode hrest line).trans hstart)]
        exact @ih [] List.not_mem_nil
    · rw [List.append_cons]
      refine ih ?_
      rw [List.mem_append, List.mem_singleton, not_or]
      exact ⟨hline, fun h => hc h.symm⟩

theorem findContentLength_lines_eq (text : List Char) :
    findContentLength true (Utf8.encode text) = scannedLength (Str.lines text) :=
  findContentLength_linesFrom text List.not_mem_nil

end Land.Framing
