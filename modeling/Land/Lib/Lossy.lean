import Land.Lib.Utf8

/-!
# Bytes read as text, with replacements

`String::from_utf8_lossy`: every invalid sequence of bytes becomes one replacement character.  A sequence ends
where no character can begin with it any more.  The bytes of a text are read as that text, and a result without
replacement characters is read only from its own bytes.
-/

namespace Land.Utf8

/-- A character of three bytes can begin with these two. -/
def beginsThree (b b' : UInt8) : Bool :=
  b == 0xE0 && 0xA0 ≤ b' && b' ≤ 0xBF || 0xE1 ≤ b && b ≤ 0xEC && 0x80 ≤ b' && b' ≤ 0xBF ||
    b == 0xED && 0x80 ≤ b' && b' ≤ 0x9F || 0xEE ≤ b && b ≤ 0xEF && 0x80 ≤ b' && b' ≤ 0xBF

/-- A character of four bytes can begin with these two. -/
def beginsFour (b b' : UInt8) : Bool :=
  b == 0xF0 && 0x90 ≤ b' && b' ≤ 0xBF || 0xF1 ≤ b && b ≤ 0xF3 && 0x80 ≤ b' && b' ≤ 0xBF ||
    b == 0xF4 && 0x80 ≤ b' && b' ≤ 0x8F

/-- `byte & 192 == TAG_CONT_U8`. -/
def isContinuation (b : UInt8) : Bool := b &&& 192 == 128

/-- The length of the invalid sequence that the bytes begin with; a missing byte counts as zero. -/
def invalidLength (bs : List UInt8) : ℕ :=
  if beginsThree (bs.getD 0 0) (bs.getD 1 0) then 2
  else if beginsFour (bs.getD 0 0) (bs.getD 1 0) then if isContinuation (bs.getD 2 0) then 3 else 2
  else 1

/-- The character that the bytes begin with. -/
def firstChar (bs : List UInt8) : Option Char := bs.toByteArray.utf8DecodeChar? 0

/-- `char::REPLACEMENT_CHARACTER`. -/
def replacement : Char := Char.ofNat 0xFFFD

/-- The characters of the bytes, at most `fuel` of them. -/
def lossyLoop : ℕ → List UInt8 → List Char
  | 0, _ => []
  | _ + 1, [] => []
  | fuel + 1, b :: bs =>
      match firstChar (b :: bs) with
      | some c => c :: lossyLoop fuel ((b :: bs).drop (String.utf8EncodeChar c).length)
      | none => replacement :: lossyLoop fuel ((b :: bs).drop (invalidLength (b :: bs)))

/-- `String::from_utf8_lossy`. -/
def fromUtf8Lossy (bs : List UInt8) : List Char := lossyLoop bs.length bs

theorem toByteArray_append (bs bs' : List UInt8) :
    (bs ++ bs').toByteArray = bs.toByteArray ++ bs'.toByteArray := by
  apply ByteArray.ext
  rw [ByteArray.data_append, List.data_toByteArray, List.data_toByteArray, List.data_toByteArray]
  simp

theorem firstChar_append (c : Char) (bs : List UInt8) : firstChar (String.utf8EncodeChar c ++ bs) = some c := by
  rw [firstChar, toByteArray_append]
  exact ByteArray.utf8DecodeChar?_utf8EncodeChar_append

/-- Only the bytes of a character are read as that character. -/
theorem eq_append_of_firstChar {bs : List UInt8} {c : Char} (h : firstChar bs = some c) :
    bs = String.utf8EncodeChar c ++ bs.drop (String.utf8EncodeChar c).length := by
  obtain ⟨l, hl⟩ := ByteArray.exists_of_utf8DecodeChar?_eq_some h
  have hlist : bs = String.utf8EncodeChar c ++ l.data.toList := by
    have hdata := congrArg (fun b => b.data.toList) hl
    simpa only [ByteArray.data_append, List.data_toByteArray, Array.toList_append] using hdata
  rw [hlist, List.drop_left]

theorem lossyLoop_of_firstChar {fuel : ℕ} {bs : List UInt8} {c : Char} (h : firstChar bs = some c) :
    lossyLoop (fuel + 1) bs = c :: lossyLoop fuel (bs.drop (String.utf8EncodeChar c).length) := by
  cases bs with
  | nil => cases h
  | cons b bs => simp only [lossyLoop, h]

theorem lossyLoop_of_firstChar_eq_none {fuel : ℕ} {bs : List UInt8} (hbs : bs ≠ [])
    (h : firstChar bs = none) :
    lossyLoop (fuel + 1) bs = replacement :: lossyLoop fuel (bs.drop (invalidLength bs)) := by
  cases bs with
  | nil => exact absurd rfl hbs
  | cons b bs => simp only [lossyLoop, h]

theorem lossyLoop_encode (text : List Char) {fuel : ℕ} (h : (encode text).length ≤ fuel) :
    lossyLoop fuel (encode text) = text := by
  induction text generalizing fuel with
  | nil => cases fuel <;> rfl
  | cons c text ih =>
    have hpos := (length_encodeChar c).1
    rw [encode_cons, List.length_append] at h
    cases fuel with
    | zero => omega
    | succ fuel =>
      rw [encode_cons, lossyLoop_of_firstChar (firstChar_append c (encode text)), List.drop_left, ih]
      omega

/-- The bytes of a text are read as that text. -/
theorem fromUtf8Lossy_encode (text : List Char) : fromUtf8Lossy (encode text) = text :=
  lossyLoop_encode text le_rfl

theorem encode_lossyLoop {fuel : ℕ} {bs : List UInt8} (hfuel : bs.length ≤ fuel)
    (h : replacement ∉ lossyLoop fuel bs) : encode (lossyLoop fuel bs) = bs := by
  induction fuel generalizing bs with
  | zero =>
    obtain rfl := List.eq_nil_of_length_eq_zero (Nat.le_zero.1 hfuel)
    rfl
  | succ fuel ih =>
    rcases eq_or_ne bs [] with rfl | hbs
    · rfl
    · cases hfirst : firstChar bs with
      | none =>
        rw [lossyLoop_of_firstChar_eq_none hbs hfirst] at h
        exact absurd (List.mem_cons_self ..) h
      | some c =>
        rw [lossyLoop_of_firstChar hfirst] at h ⊢
        have hpos := (length_encodeChar c).1
        rw [encode_cons, ih _ fun hmem => h (List.mem_cons_of_mem c hmem), ← eq_append_of_firstChar hfirst]
        rw [List.length_drop]
        omega

/-- Without replacements the bytes are those of the text that is read. -/
theorem encode_fromUtf8Lossy {bs : List UInt8} (h : replacement ∉ fromUtf8Lossy bs) :
    encode (fromUtf8Lossy bs) = bs :=
  encode_lossyLoop le_rfl h

end Land.Utf8
