import Land.Lib.Base64

/-!
# The base64 encoder of the key files

`base64_encode` packs each chunk of three bytes into a `u32` and cuts that into sextets.  It produces the
padded text of `Land.Base64`.
-/

namespace Land.Quic

/-- `ALPHABET`, with each byte as a `char`. -/
def alphabet : List Char := "ABCDEFGHIJKLMNOPQRSTUVWXYZabcdefghijklmnopqrstuvwxyz0123456789+/".toList

/-- `ALPHABET[i as usize] as char`, for an index below 64. -/
def symbol (i : UInt32) : Char := alphabet.getD i.toNat '='

/-- `data.chunks(3)`. -/
def chunks : List UInt8 → List (List UInt8)
  | [] => []
  | [a] => [[a]]
  | [a, b] => [[a, b]]
  | a :: b :: c :: l => [a, b, c] :: chunks l

/-- `triple`, of the bytes of a chunk.  A chunk is not empty; the bytes it lacks are zero. -/
def triple (chunk : List UInt8) : UInt32 :=
  let b0 := (chunk.getD 0 0).toUInt32
  let b1 := (chunk.getD 1 0).toUInt32
  let b2 := (chunk.getD 2 0).toUInt32
  b0 <<< 16 ||| b1 <<< 8 ||| b2

/-- What one turn of the loop of `base64_encode` pushes. -/
def encodeChunk (chunk : List UInt8) : List Char :=
  let triple := triple chunk
  [symbol (triple >>> 18 &&& 0x3f), symbol (triple >>> 12 &&& 0x3f),
    if chunk.length > 1 then symbol (triple >>> 6 &&& 0x3f) else '=',
    if chunk.length > 2 then symbol (triple &&& 0x3f) else '=']

/-- `base64_encode`. -/
def base64Encode (data : List UInt8) : String := String.ofList ((chunks data).flatMap encodeChunk)

theorem symbol_eq {i : UInt32} {n : ℕ} (h : i.toNat = n) (hn : n < 64) : symbol i = Base64.alphabet n := by
  have hall : ∀ n < 64, alphabet.getD n '=' = Base64.alphabet n := by decide +kernel
  rw [symbol, h]
  exact hall n hn

theorem toNat_and_63 (t : UInt32) : (t &&& 0x3f).toNat = t.toNat % 64 := by
  rw [UInt32.toNat_and]
  exact Nat.and_two_pow_sub_one_eq_mod t.toNat 6

/-- The number of a chunk. -/
theorem toNat_triple (chunk : List UInt8) : (triple chunk).toNat =
    (chunk.getD 0 0).toNat * 2 ^ 16 + (chunk.getD 1 0).toNat * 2 ^ 8 + (chunk.getD 2 0).toNat := by
  unfold triple
  generalize chunk.getD 0 0 = a
  generalize chunk.getD 1 0 = b
  generalize chunk.getD 2 0 = c
  have ha := a.toNat_lt
  have hb := b.toNat_lt
  have hc := c.toNat_lt
  have hfirst : (a.toUInt32 <<< 16).toNat = a.toNat <<< 16 := by
    rw [UInt32.toNat_shiftLeft, UInt8.toNat_toUInt32]
    show a.toNat <<< 16 % 2 ^ 32 = _
    rw [Nat.shiftLeft_eq]
    omega
  have hsecond : (b.toUInt32 <<< 8).toNat = b.toNat <<< 8 := by
    rw [UInt32.toNat_shiftLeft, UInt8.toNat_toUInt32]
    show b.toNat <<< 8 % 2 ^ 32 = _
    rw [Nat.shiftLeft_eq]
    omega
  simp only [UInt32.toNat_or, hfirst, hsecond, UInt8.toNat_toUInt32]
  -- the lowest byte is below the second one, and the two together below the first one
  have hlow : b.toNat <<< 8 ||| c.toNat = b.toNat * 2 ^ 8 + c.toNat := by
    rw [← Nat.shiftLeft_add_eq_or_of_lt hc, Nat.shiftLeft_eq]
  rw [Nat.or_assoc, hlow, ← Nat.shiftLeft_add_eq_or_of_lt (by omega), Nat.shiftLeft_eq, Nat.add_assoc]

/-- The characters of a chunk with the bytes `a`, `b` and `c`, of which the last ones may be missing. -/
theorem encodeChunk_eq {chunk : List UInt8} {a b c : UInt8} (ha : chunk.getD 0 0 = a)
    (hb : chunk.getD 1 0 = b) (hc : chunk.getD 2 0 = c) : encodeChunk chunk =
    [Base64.alphabet (a.toNat / 4), Base64.alphabet (a.toNat % 4 * 16 + b.toNat / 16),
      if chunk.length > 1 then Base64.alphabet (b.toNat % 16 * 4 + c.toNat / 64) else '=',
      if chunk.length > 2 then Base64.alphabet (c.toNat % 64) else '='] := by
  have hn := toNat_triple chunk
  rw [ha, hb, hc] at hn
  have halt := a.toNat_lt
  have hblt := b.toNat_lt
  have hclt := c.toNat_lt
  have hshift (k : UInt32) (hk : k.toNat % 32 = k.toNat) : (triple chunk >>> k &&& 0x3f).toNat =
      (triple chunk).toNat / 2 ^ k.toNat % 64 := by
    rw [toNat_and_63, UInt32.toNat_shiftRight, hk, Nat.shiftRight_eq_div_pow]
  have hfirst : (triple chunk >>> 18 &&& 0x3f).toNat = a.toNat / 4 := by
    rw [hshift 18 rfl, hn]
    show _ / 2 ^ 18 % 64 = _
    omega
  have hsecond : (triple chunk >>> 12 &&& 0x3f).toNat = a.toNat % 4 * 16 + b.toNat / 16 := by
    rw [hshift 12 rfl, hn]
    show _ / 2 ^ 12 % 64 = _
    omega
  have hthird : (triple chunk >>> 6 &&& 0x3f).toNat = b.toNat % 16 * 4 + c.toNat / 64 := by
    rw [hshift 6 rfl, hn]
    show _ / 2 ^ 6 % 64 = _
    omega
  have hfourth : (triple chunk &&& 0x3f).toNat = c.toNat % 64 := by
    rw [toNat_and_63, hn]
    omega
  simp only [encodeChunk]
  rw [symbol_eq hfirst (by omega), symbol_eq hsecond (by omega), symbol_eq hthird (by omega),
    symbol_eq hfourth (by omega)]

/-- `base64_encode` is the encoder of the library. -/
theorem base64Encode_eq (data : List UInt8) : base64Encode data = String.ofList (Base64.encode data) := by
  unfold base64Encode
  congr 1
  fun_induction Base64.encode data with
  | case1 => rfl
  | case2 a => simpa [chunks] using @encodeChunk_eq [a] a 0 0 rfl rfl rfl
  | case3 a b => simpa [chunks] using @encodeChunk_eq [a, b] a b 0 rfl rfl rfl
  | case4 a b c l ih =>
    rw [chunks, List.flatMap_cons, ih, @encodeChunk_eq [a, b, c] a b c rfl rfl rfl]
    rfl

example : base64Encode [102, 111] = "Zm8=" := by decide +kernel

end Land.Quic
