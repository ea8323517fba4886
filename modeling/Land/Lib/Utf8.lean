import Mathlib.Tactic

/-!
# Text as bytes

The UTF-8 bytes of a text, as lists: a text is its list of characters.  Bytes below 128 stand for
themselves and occur nowhere else.
-/

namespace Land.Utf8

/-- The bytes of a text. -/
def encode (text : List Char) : List UInt8 := text.flatMap String.utf8EncodeChar

/-- The text with given bytes, if there is one. -/
def decode (bs : List UInt8) : Option (List Char) := (String.fromUTF8? bs.toByteArray).map String.toList

@[simp] theorem encode_nil : encode [] = [] := rfl

@[simp] theorem encode_append (a b : List Char) : encode (a ++ b) = encode a ++ encode b :=
  List.flatMap_append

theorem encode_cons (c : Char) (text : List Char) :
    encode (c :: text) = String.utf8EncodeChar c ++ encode text := rfl

theorem length_encodeChar (c : Char) :
    0 < (String.utf8EncodeChar c).length ∧ (String.utf8EncodeChar c).length ≤ 4 := by
  unfold String.utf8EncodeChar
  dsimp only
  split_ifs <;> simp

theorem encode_ne_nil {text : List Char} (h : text ≠ []) : encode text ≠ [] := by
  obtain ⟨c, t, rfl⟩ := List.exists_cons_of_ne_nil h
  exact List.append_ne_nil_of_left_ne_nil (List.length_pos_iff.1 (length_encodeChar c).1) _

theorem length_encode_le (text : List Char) : (encode text).length ≤ 4 * text.length := by
  induction text with
  | nil => exact le_rfl
  | cons c text ih =>
    have hc := (length_encodeChar c).2
    rw [encode_cons, List.length_append, List.length_cons]
    omega

theorem toList_loop (b : ByteArray) (i : ℕ) (acc : List UInt8) :
    ByteArray.toList.loop b i acc = acc.reverse ++ b.data.toList.drop i := by
  fun_induction ByteArray.toList.loop b i acc with
  | case1 i acc h ih =>
    have hget : b.get! i = b.data.toList[i] := getElem!_pos b.data i h
    rw [ih, List.reverse_cons, List.append_assoc, List.singleton_append, hget,
      ← List.drop_eq_getElem_cons]
  | case2 i acc h =>
    rw [List.drop_eq_nil_of_le (not_lt.1 h), List.append_nil]

/-- The bytes of a string are those of its characters. -/
theorem toList_toUTF8 (s : String) : s.toUTF8.toList = encode s.toList := by
  have hbytes : s.toUTF8 = (encode s.toList).toByteArray := by
    conv_lhs => rw [← String.ofList_toList (s := s)]
    exact String.toByteArray_ofList
  rw [hbytes, ByteArray.toList, toList_loop, List.data_toByteArray]
  simp

theorem decode_encode (text : List Char) : decode (encode text) = some text := by
  have hvalid : (encode text).toByteArray.IsValidUTF8 := ⟨text, rfl⟩
  rw [decode, String.fromUTF8?, dif_pos hvalid, Option.map_some]
  congr 1
  have hs : String.fromUTF8 _ hvalid = String.ofList text := by
    rw [← String.toByteArray_inj, String.toByteArray_ofList]
    rfl
  rw [hs, String.toList_ofList]

theorem toList_toByteArray (bs : List UInt8) : bs.toByteArray.toList = bs := by
  rw [ByteArray.toList, toList_loop, List.data_toByteArray]
  simp

/-- Only the bytes of a text are decoded to it. -/
theorem encode_of_decode {bs : List UInt8} {text : List Char} (h : decode bs = some text) :
    encode text = bs := by
  unfold decode String.fromUTF8? at h
  split_ifs at h with hvalid
  · obtain rfl := Option.some.inj h
    rw [← toList_toUTF8]
    exact toList_toByteArray bs
  · cases h

/-! ## Bytes below 128 -/

/-- The byte of an ASCII character. -/
def ascii (c : Char) : UInt8 := UInt8.ofNat c.toNat

theorem encodeChar_of_le {c : Char} (h : c.toNat ≤ 127) : String.utf8EncodeChar c = [ascii c] := by
  unfold String.utf8EncodeChar
  exact if_pos h

theorem encode_of_ascii {text : List Char} (h : ∀ c ∈ text, c.toNat ≤ 127) :
    encode text = text.map ascii := by
  induction text with
  | nil => rfl
  | cons c text ih =>
    rw [encode_cons, encodeChar_of_le (h c List.mem_cons_self),
      ih fun d hd => h d (List.mem_cons_of_mem c hd)]
    rfl

/-- Whether a text has only ASCII characters. -/
def isAscii (text : List Char) : Bool := text.all fun c => c.toNat ≤ 127

theorem toNat_le_of_isAscii {text : List Char} (h : isAscii text = true) : ∀ c ∈ text, c.toNat ≤ 127 :=
  fun c hc => of_decide_eq_true (List.all_eq_true.1 h c hc)

theorem encode_of_isAscii {text : List Char} (h : isAscii text = true) : encode text = text.map ascii :=
  encode_of_ascii (toNat_le_of_isAscii h)

/-- A byte below 128 in the bytes of a character is that character. -/
theorem toNat_eq_of_mem_encodeChar {c : Char} {b : UInt8} (hb : b.toNat ≤ 127)
    (h : b ∈ String.utf8EncodeChar c) : c.toNat = b.toNat := by
  have hlow : ∀ n, 128 ≤ n → n < 256 → b ≠ UInt8.ofNat n := by
    rintro n hn hn' rfl
    rw [UInt8.toNat_ofNat', Nat.mod_eq_of_lt hn'] at hb
    omega
  unfold String.utf8EncodeChar at h
  dsimp only at h
  split_ifs at h with h1 h2 h3
  · rw [List.mem_singleton.1 h, UInt8.toNat_ofNat', Nat.mod_eq_of_lt (h1.trans_lt (by decide))]
    rfl
  -- the bytes of a longer encoding are all at least 128
  all_goals
    simp only [List.mem_cons, List.not_mem_nil, or_false] at h
    exfalso
    revert h
    simp only [imp_false, not_or]
    refine ⟨?_, ?_⟩
  all_goals try refine ⟨?_, ?_⟩
  all_goals try refine ⟨?_, ?_⟩
  all_goals exact hlow _ (by omega) (by omega)

/-- An ASCII character that is not in a text has no byte in its bytes. -/
theorem ascii_not_mem_encode {c : Char} (hc : c.toNat ≤ 127) {text : List Char} (h : c ∉ text) :
    ascii c ∉ encode text := by
  intro hmem
  obtain ⟨d, hd, hb⟩ := List.mem_flatMap.1 hmem
  have hval : (ascii c).toNat = c.toNat := by
    rw [ascii, UInt8.toNat_ofNat', Nat.mod_eq_of_lt (hc.trans_lt (by decide))]
  have hcd : d.toNat = c.toNat := (toNat_eq_of_mem_encodeChar (hval.trans_le hc) hb).trans hval
  refine h ?_
  rwa [← Char.ofNat_toNat c, ← hcd, Char.ofNat_toNat]

theorem ascii_inj {c d : Char} (hc : c.toNat ≤ 127) (hd : d.toNat ≤ 127) (h : ascii c = ascii d) : c = d := by
  have hval (e : Char) (he : e.toNat ≤ 127) : (ascii e).toNat = e.toNat := by
    rw [ascii, UInt8.toNat_ofNat', Nat.mod_eq_of_lt (he.trans_lt (by decide))]
  rw [← Char.ofNat_toNat c, ← hval c hc, h, hval d hd, Char.ofNat_toNat]

theorem lt_of_mem_encodeChar {c : Char} (hc : 127 < c.toNat) {b : UInt8} (hb : b ∈ String.utf8EncodeChar c) :
    127 < b.toNat := by
  by_contra hle
  have := toNat_eq_of_mem_encodeChar (not_lt.1 hle) hb
  omega

/-! ## Tests of bytes and of characters -/

/-- A test of bytes and a test of characters that pass the same ASCII characters and nothing else. -/
structure Agree (q : UInt8 → Bool) (p : Char → Bool) : Prop where
  ascii : ∀ c : Char, c.toNat ≤ 127 → q (Utf8.ascii c) = p c
  char : ∀ c : Char, 127 < c.toNat → p c = false
  byte : ∀ b : UInt8, 127 < b.toNat → q b = false

variable {q : UInt8 → Bool} {p : Char → Bool} {rest : List UInt8}

/-- What both tests do at the first character. -/
theorem Agree.head (h : Agree q p) (c : Char) :
    (p c = true ∧ String.utf8EncodeChar c = [Utf8.ascii c] ∧ q (Utf8.ascii c) = true) ∨
    (p c = false ∧ ∃ b bs, String.utf8EncodeChar c = b :: bs ∧ q b = false) := by
  by_cases hc : c.toNat ≤ 127
  · have hencode := encodeChar_of_le hc
    cases hp : p c with
    | true => exact .inl ⟨rfl, hencode, (h.ascii c hc).trans hp⟩
    | false => exact .inr ⟨rfl, _, [], hencode, (h.ascii c hc).trans hp⟩
  · obtain ⟨b, bs, hbs⟩ := List.exists_cons_of_length_pos (length_encodeChar c).1
    refine .inr ⟨h.char c (not_le.1 hc), b, bs, hbs, h.byte b ?_⟩
    exact lt_of_mem_encodeChar (not_le.1 hc) (hbs ▸ List.mem_cons_self)

theorem Agree.takeWhile_encode (h : Agree q p) (hrest : ∀ b ∈ rest.head?, q b = false) (l : List Char) :
    (encode l ++ rest).takeWhile q = (l.takeWhile p).map Utf8.ascii := by
  induction l with
  | nil =>
    cases rest with
    | nil => rfl
    | cons b rest => exact List.takeWhile_cons_of_neg (Bool.eq_false_iff.1 (hrest b rfl))
  | cons c l ih =>
    rw [encode_cons, List.append_assoc]
    rcases h.head c with ⟨hp, hencode, hq⟩ | ⟨hp, b, bs, hbs, hq⟩
    · rw [hencode, List.singleton_append, List.takeWhile_cons_of_pos hq, ih,
        List.takeWhile_cons_of_pos hp]
      rfl
    · rw [hbs, List.cons_append, List.takeWhile_cons_of_neg (Bool.eq_false_iff.1 hq),
        List.takeWhile_cons_of_neg (Bool.eq_false_iff.1 hp)]
      rfl

theorem Agree.dropWhile_encode (h : Agree q p) (hrest : ∀ b ∈ rest.head?, q b = false) (l : List Char) :
    (encode l ++ rest).dropWhile q = encode (l.dropWhile p) ++ rest := by
  induction l with
  | nil =>
    cases rest with
    | nil => rfl
    | cons b rest => exact List.dropWhile_cons_of_neg (Bool.eq_false_iff.1 (hrest b rfl))
  | cons c l ih =>
    rcases h.head c with ⟨hp, hencode, hq⟩ | ⟨hp, b, bs, hbs, hq⟩
    · rw [encode_cons, List.append_assoc, hencode, List.singleton_append, List.dropWhile_cons_of_pos hq, ih,
        List.dropWhile_cons_of_pos hp]
    · rw [encode_cons, List.append_assoc, hbs, List.cons_append,
        List.dropWhile_cons_of_neg (Bool.eq_false_iff.1 hq),
        List.dropWhile_cons_of_neg (Bool.eq_false_iff.1 hp), encode_cons, List.append_assoc, hbs,
        List.cons_append]

end Land.Utf8
