import Mathlib.Data.List.DropRight
import Mathlib.Tactic

/-!
# Base64

The padded base64 text of some bytes, over the standard alphabet, how a byte is put together from the
sextets it was cut into, and which bytes a text stands for: those that hold the bits of its sextets
(`Denotes`).
-/

namespace Land.Base64

/-- The character of a sextet. -/
def alphabet (n : ℕ) : Char :=
  if n < 26 then Char.ofNat (65 + n)
  else if n < 52 then Char.ofNat (71 + n)
  else if n < 62 then Char.ofNat (n - 4)
  else if n = 62 then '+'
  else '/'

/-- The text of some bytes: four characters for three bytes, the last ones padded. -/
def encode : List UInt8 → List Char
  | [] => []
  | [a] => [alphabet (a.toNat / 4), alphabet (a.toNat % 4 * 16), '=', '=']
  | [a, b] =>
      [alphabet (a.toNat / 4), alphabet (a.toNat % 4 * 16 + b.toNat / 16), alphabet (b.toNat % 16 * 4), '=']
  | a :: b :: c :: l =>
      alphabet (a.toNat / 4) :: alphabet (a.toNat % 4 * 16 + b.toNat / 16) ::
        alphabet (b.toNat % 16 * 4 + c.toNat / 64) :: alphabet (c.toNat % 64) :: encode l

theorem length_encode (l : List UInt8) : (encode l).length = (l.length + 2) / 3 * 4 := by
  fun_induction encode l with
  | case1 | case2 | case3 => simp
  | case4 a b c l ih =>
    simp only [List.length_cons, ih]
    omega

/-- The characters of a text. -/
theorem mem_encode {l : List UInt8} {x : Char} (h : x ∈ encode l) :
    x = '=' ∨ ∃ n < 64, x = alphabet n := by
  fun_induction encode l with
  | case1 => cases h
  | case2 a =>
    have ha := a.toNat_lt
    simp only [List.mem_cons, List.not_mem_nil, or_false] at h
    rcases h with h | h | h | h
    · exact .inr ⟨_, by omega, h⟩
    · exact .inr ⟨_, by omega, h⟩
    · exact .inl h
    · exact .inl h
  | case3 a b =>
    have ha := a.toNat_lt
    have hb := b.toNat_lt
    simp only [List.mem_cons, List.not_mem_nil, or_false] at h
    rcases h with h | h | h | h
    · exact .inr ⟨_, by omega, h⟩
    · exact .inr ⟨_, by omega, h⟩
    · exact .inr ⟨_, by omega, h⟩
    · exact .inl h
  | case4 a b c l ih =>
    have ha := a.toNat_lt
    have hb := b.toNat_lt
    have hc := c.toNat_lt
    simp only [List.mem_cons] at h
    rcases h with h | h | h | h | h
    · exact .inr ⟨_, by omega, h⟩
    · exact .inr ⟨_, by omega, h⟩
    · exact .inr ⟨_, by omega, h⟩
    · exact .inr ⟨_, by omega, h⟩
    · exact ih h

/-- The text of some bytes does not start with padding. -/
theorem encode_cons (a : UInt8) (l : List UInt8) :
    ∃ t, encode (a :: l) = alphabet (a.toNat / 4) :: t := by
  cases l with
  | nil => exact ⟨_, rfl⟩
  | cons b l => cases l with
    | nil => exact ⟨_, rfl⟩
    | cons c l => exact ⟨_, rfl⟩

/-- The characters of a text are printable ASCII characters without quote and backslash. -/
theorem printable_of_mem_encode {l : List UInt8} {x : Char} (h : x ∈ encode l) :
    33 ≤ x.toNat ∧ x.toNat ≤ 126 ∧ x ≠ '"' ∧ x ≠ '\\' := by
  have halphabet : ∀ n < 64, 33 ≤ (alphabet n).toNat ∧ (alphabet n).toNat ≤ 126 ∧
      alphabet n ≠ '"' ∧ alphabet n ≠ '\\' := by decide +kernel
  rcases mem_encode h with rfl | ⟨n, hn, rfl⟩
  · decide
  · exact halphabet n hn

/-! ## The bytes of a group -/

/-- A byte is put together from two parts that do not overlap. -/
theorem toNat_or_of_parts {u v : UInt8} (k : ℕ) {m r : ℕ} (hu : u.toNat = m * 2 ^ k) (hv : v.toNat = r)
    (hr : r < 2 ^ k) : (u ||| v).toNat = m * 2 ^ k + r := by
  rw [UInt8.toNat_or, hu, hv, ← Nat.shiftLeft_eq, ← Nat.shiftLeft_add_eq_or_of_lt hr, Nat.shiftLeft_eq]

/-- The first byte, from the first two sextets. -/
theorem toNat_first {a b : ℕ} (ha : a < 64) (hb : b < 64) :
    (UInt8.ofNat a <<< 2 ||| UInt8.ofNat b >>> 4).toNat = a * 2 ^ 2 + b / 16 := by
  refine toNat_or_of_parts 2 ?_ ?_ (by omega)
  · rw [UInt8.toNat_shiftLeft, UInt8.toNat_ofNat']
    show (a % 256) <<< 2 % 256 = _
    rw [Nat.shiftLeft_eq]
    omega
  · rw [UInt8.toNat_shiftRight, UInt8.toNat_ofNat']
    show (b % 256) >>> 4 = _
    rw [Nat.shiftRight_eq_div_pow]
    omega

/-- The second byte, from the second and the third sextet. -/
theorem toNat_second (b : ℕ) {c : ℕ} (hc : c < 64) :
    (UInt8.ofNat b <<< 4 ||| UInt8.ofNat c >>> 2).toNat = b % 16 * 2 ^ 4 + c / 4 := by
  refine toNat_or_of_parts 4 ?_ ?_ (by omega)
  · rw [UInt8.toNat_shiftLeft, UInt8.toNat_ofNat']
    show (b % 256) <<< 4 % 256 = _
    rw [Nat.shiftLeft_eq]
    omega
  · rw [UInt8.toNat_shiftRight, UInt8.toNat_ofNat']
    show (c % 256) >>> 2 = _
    rw [Nat.shiftRight_eq_div_pow]
    omega

/-- The third byte, from the last two sextets. -/
theorem toNat_third (c : ℕ) {d : ℕ} (hd : d < 64) :
    (UInt8.ofNat c <<< 6 ||| UInt8.ofNat d).toNat = c % 4 * 2 ^ 6 + d := by
  refine toNat_or_of_parts 6 ?_ ?_ hd
  · rw [UInt8.toNat_shiftLeft, UInt8.toNat_ofNat']
    show (c % 256) <<< 6 % 256 = _
    rw [Nat.shiftLeft_eq]
    omega
  · rw [UInt8.toNat_ofNat']
    omega

/-- The bytes come back from the sextets they were cut into. -/
theorem first_byte (a : UInt8) {r : ℕ} (hr : r < 16) :
    UInt8.ofNat (a.toNat / 4) <<< 2 ||| UInt8.ofNat (a.toNat % 4 * 16 + r) >>> 4 = a := by
  have ha := a.toNat_lt
  apply UInt8.toNat_inj.1
  rw [toNat_first (by omega) (by omega)]
  omega

theorem second_byte (b : UInt8) (p : ℕ) {r : ℕ} (hr : r < 4) :
    UInt8.ofNat (p * 16 + b.toNat / 16) <<< 4 ||| UInt8.ofNat (b.toNat % 16 * 4 + r) >>> 2 = b := by
  have hb := b.toNat_lt
  apply UInt8.toNat_inj.1
  rw [toNat_second _ (by omega)]
  omega

theorem third_byte (c : UInt8) (p : ℕ) :
    UInt8.ofNat (p * 4 + c.toNat / 64) <<< 6 ||| UInt8.ofNat (c.toNat % 64) = c := by
  have hc := c.toNat_lt
  apply UInt8.toNat_inj.1
  rw [toNat_third _ (by omega)]
  omega

/-! ## What a text stands for -/

/-- The lowest `k` bits of a number, highest first. -/
def bits (k n : ℕ) : List Bool := (List.range k).map fun i => n.testBit (k - 1 - i)

/-- The bytes hold the bits of the sextets, as far as they fill whole bytes. -/
def Packs (sextets : List ℕ) (bytes : List UInt8) : Prop :=
  bytes.length = 3 * sextets.length / 4 ∧
    bytes.flatMap (fun b => bits 8 b.toNat) =
      (sextets.flatMap (bits 6)).take (8 * (3 * sextets.length / 4))

/-- The text without its padding. -/
def unpadded (text : List Char) : List Char := text.rdropWhile (· == '=')

/-- A text without padding that stands for these bytes. -/
def Denotes (text : List Char) (bytes : List UInt8) : Prop :=
  ∃ sextets : List ℕ, (∀ n ∈ sextets, n < 64) ∧ text = sextets.map alphabet ∧
    sextets.length % 4 ≠ 1 ∧ Packs sextets bytes

@[simp] theorem length_bits (k n : ℕ) : (bits k n).length = k := by simp [bits]

/-- The bits of a number made of an upper and a lower part. -/
theorem bits_append (j : ℕ) {k r : ℕ} (hr : r < 2 ^ k) (m : ℕ) :
    bits (j + k) (m * 2 ^ k + r) = bits j m ++ bits k r := by
  have hbit (i : ℕ) : (m * 2 ^ k + r).testBit i = if i < k then r.testBit i else m.testBit (i - k) := by
    rw [Nat.mul_comm, Nat.testBit_two_pow_mul_add m hr]
  rw [bits, List.range_add, List.map_append, List.map_map]
  congr 1
  · apply List.map_congr_left
    intro i hi
    have := List.mem_range.1 hi
    rw [hbit, if_neg (by omega)]
    congr 1
    omega
  · apply List.map_congr_left
    intro i hi
    have := List.mem_range.1 hi
    simp only [Function.comp]
    rw [hbit, if_pos (by omega)]
    congr 1
    omega

/-- The bits of a number, cut in two. -/
theorem bits_split (j k n : ℕ) : bits (j + k) n = bits j (n / 2 ^ k) ++ bits k (n % 2 ^ k) := by
  have h := bits_append j (Nat.mod_lt n (show 0 < 2 ^ k by positivity)) (n / 2 ^ k)
  rwa [Nat.div_add_mod'] at h

section Group

variable {a b c d : ℕ} (ha : a < 64) (hb : b < 64) (hc : c < 64) (hd : d < 64)

include ha hb in
theorem bits_first : bits 8 (UInt8.ofNat a <<< 2 ||| UInt8.ofNat b >>> 4).toNat =
    bits 6 a ++ bits 2 (b / 2 ^ 4) := by
  rw [toNat_first ha hb]
  exact bits_append 6 (by omega) a

include hc in
theorem bits_second : bits 8 (UInt8.ofNat b <<< 4 ||| UInt8.ofNat c >>> 2).toNat =
    bits 4 (b % 2 ^ 4) ++ bits 4 (c / 2 ^ 2) := by
  rw [toNat_second b hc]
  exact bits_append 4 (by omega) _

include hd in
theorem bits_third : bits 8 (UInt8.ofNat c <<< 6 ||| UInt8.ofNat d).toNat =
    bits 2 (c % 2 ^ 2) ++ bits 6 d := by
  rw [toNat_third c hd]
  exact bits_append 2 hd _

theorem packs_nil : Packs [] [] := ⟨rfl, rfl⟩

include ha hb in
/-- Two sextets at the end hold one byte. -/
theorem packs_two : Packs [a, b] [UInt8.ofNat a <<< 2 ||| UInt8.ofNat b >>> 4] := by
  refine ⟨by simp, ?_⟩
  simp only [List.flatMap_cons, List.flatMap_nil, List.append_nil, bits_first ha hb]
  rw [bits_split 2 4 b, ← List.append_assoc]
  exact (List.take_left' (by simp)).symm

include ha hb hc in
/-- Three sextets at the end hold two bytes. -/
theorem packs_three : Packs [a, b, c]
    [UInt8.ofNat a <<< 2 ||| UInt8.ofNat b >>> 4, UInt8.ofNat b <<< 4 ||| UInt8.ofNat c >>> 2] := by
  refine ⟨by simp, ?_⟩
  simp only [List.flatMap_cons, List.flatMap_nil, List.append_nil, bits_first ha hb, bits_second hc]
  rw [bits_split 2 4 b, bits_split 4 2 c]
  simp only [← List.append_assoc]
  exact (List.take_left' (by simp)).symm

include ha hb hc hd in
/-- Four sextets hold three bytes. -/
theorem Packs.group {sextets : List ℕ} {bytes : List UInt8} (h : Packs sextets bytes) :
    Packs (a :: b :: c :: d :: sextets)
      ([UInt8.ofNat a <<< 2 ||| UInt8.ofNat b >>> 4, UInt8.ofNat b <<< 4 ||| UInt8.ofNat c >>> 2,
        UInt8.ofNat c <<< 6 ||| UInt8.ofNat d] ++ bytes) := by
  obtain ⟨hlen, hbits⟩ := h
  refine ⟨by simp only [List.length_append, List.length_cons, List.length_nil, hlen]; omega, ?_⟩
  have hcount : 8 * (3 * (a :: b :: c :: d :: sextets).length / 4) = 24 + 8 * (3 * sextets.length / 4) := by
    simp only [List.length_cons]
    omega
  have hgroup : bits 6 a ++ (bits 6 b ++ (bits 6 c ++ bits 6 d)) =
      (bits 6 a ++ bits 2 (b / 2 ^ 4)) ++ ((bits 4 (b % 2 ^ 4) ++ bits 4 (c / 2 ^ 2)) ++
        (bits 2 (c % 2 ^ 2) ++ bits 6 d)) := by
    rw [bits_split 2 4 b, bits_split 4 2 c]
    simp only [List.append_assoc]
  have hlength : (bits 6 a ++ (bits 6 b ++ (bits 6 c ++ bits 6 d))).length = 24 := by simp
  rw [hcount, ← hlength]
  simp only [List.cons_append, List.nil_append, List.flatMap_cons, bits_first ha hb, bits_second hc,
    bits_third hd, hbits]
  calc _ = (bits 6 a ++ (bits 6 b ++ (bits 6 c ++ bits 6 d))) ++
        (sextets.flatMap (bits 6)).take (8 * (3 * sextets.length / 4)) := by
        rw [hgroup]
        simp only [List.append_assoc]
    _ = _ := by
        rw [← List.take_length_add_append]
        simp only [List.append_assoc]

end Group

/-- A text is its unpadded part and the padding. -/
theorem exists_padding (text : List Char) :
    ∃ k, text = unpadded text ++ List.replicate k '=' := by
  refine ⟨(text.rtakeWhile (· == '=')).length, ?_⟩
  have hpad : List.replicate (text.rtakeWhile (· == '=')).length '=' = text.rtakeWhile (· == '=') := by
    refine (List.eq_replicate_of_mem fun c hc => ?_).symm
    exact beq_iff_eq.1 (List.mem_rtakeWhile_imp (p := (· == '=')) hc)
  rw [hpad]
  exact (List.rdropWhile_append_rtakeWhile ..).symm

end Land.Base64
