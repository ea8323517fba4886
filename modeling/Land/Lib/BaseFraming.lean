import Land.Lib.BigEndian

/-!
# The base framing of WebSocket

A frame begins with the `FIN` bit, three reserved bits and the opcode, then the `MASK` bit and the length of
the payload in 7 bits, or in 16 or 64 bits behind them, in the shortest of the three forms.  The masking key
follows if there is one, and the payload, combined with the key octet by octet.
-/

namespace Land.BaseFraming

abbrev MaskingKey := Fin 4 → UInt8

scoped instance four_neZero : NeZero 4 := ⟨by decide⟩

/-- Octet `i` is combined with octet `i mod 4` of the key. -/
def applyMask (key : MaskingKey) (payload : List UInt8) : List UInt8 :=
  payload.mapIdx fun i octet => octet ^^^ key (Fin.ofNat 4 i)

@[simp] theorem length_applyMask (key : MaskingKey) (payload : List UInt8) :
    (applyMask key payload).length = payload.length := List.length_mapIdx

/-- Masking a second time removes the mask. -/
theorem applyMask_applyMask (key : MaskingKey) (payload : List UInt8) :
    applyMask key (applyMask key payload) = payload := by
  apply List.ext_getElem
  · simp
  · intro i hi hi'
    simp [applyMask, UInt8.xor_assoc]

/-- Masking changes nothing exactly if the octets of the key that are used are zero. -/
theorem applyMask_eq_self_iff {key : MaskingKey} {payload : List UInt8} :
    applyMask key payload = payload ↔ ∀ i < payload.length, key (Fin.ofNat 4 i) = 0 := by
  constructor
  · intro h i hi
    have hget : (applyMask key payload)[i]? = payload[i]? := by rw [h]
    rw [applyMask, List.getElem?_mapIdx, List.getElem?_eq_getElem hi, Option.map_some] at hget
    have hxor := congrArg (payload[i] ^^^ ·) (Option.some.inj hget)
    simpa only [← UInt8.xor_assoc, UInt8.xor_self, UInt8.zero_xor] using hxor
  · intro h
    apply List.ext_getElem
    · rw [length_applyMask]
    · intro i hi hi'
      simp only [applyMask, List.getElem_mapIdx, h i hi', UInt8.xor_zero]

/-- The payload of a frame combined with the key, if there is one. -/
def mask : Option MaskingKey → List UInt8 → List UInt8
  | some key, payload => applyMask key payload
  | none, payload => payload

@[simp] theorem length_mask (key : Option MaskingKey) (payload : List UInt8) :
    (mask key payload).length = payload.length := by
  cases key with
  | none => rfl
  | some key => exact length_applyMask key payload

@[simp] theorem mask_mask (key : Option MaskingKey) (payload : List UInt8) :
    mask key (mask key payload) = payload := by
  cases key with
  | none => rfl
  | some key => exact applyMask_applyMask key payload

/-- A frame, with the payload before masking. -/
structure Frame where
  fin : Bool
  rsv : ℕ
  opcode : ℕ
  key : Option MaskingKey
  payload : List UInt8

/-- What the fields of a frame can hold. -/
structure Frame.WellFormed (f : Frame) : Prop where
  rsv : f.rsv < 8
  opcode : f.opcode < 16
  length : f.payload.length < 2 ^ 63

/-- The 7 bits of a length, and the octets that follow. -/
def lengthField (n : ℕ) : ℕ × List UInt8 :=
  if n < 126 then (n, [])
  else if n < 65536 then (126, BigEndian.toBytes 2 n)
  else (127, BigEndian.toBytes 8 n)

/-- The octets of the key. -/
def keyOctets : Option MaskingKey → List UInt8
  | some key => List.ofFn key
  | none => []

/-- The first two octets. -/
def header (f : Frame) : List UInt8 :=
  [UInt8.ofNat ((if f.fin then 128 else 0) + f.rsv * 16 + f.opcode),
    UInt8.ofNat ((if f.key.isSome then 128 else 0) + (lengthField f.payload.length).1)]

/-- The octets of a frame. -/
def encode (f : Frame) : List UInt8 :=
  header f ++ ((lengthField f.payload.length).2 ++ (keyOctets f.key ++ mask f.key f.payload))

/-- The first `n` octets and the others. -/
def split (n : ℕ) (octets : List UInt8) : Option (List UInt8 × List UInt8) :=
  if n ≤ octets.length then some (octets.take n, octets.drop n) else none

/-- The length that 7 bits and the octets behind them stand for, if the form is the shortest. -/
def decodeLength (n : ℕ) (octets : List UInt8) : Option (ℕ × List UInt8) :=
  if n < 126 then some (n, octets)
  else
    (split (if n = 126 then 2 else 8) octets).bind fun r =>
      let length := BigEndian.ofBytes r.1
      if (if n = 126 then 126 else 65536) ≤ length ∧ length < 2 ^ 63 then some (length, r.2) else none

/-- The key behind the length. -/
def decodeKey (masked : Bool) (octets : List UInt8) : Option (Option MaskingKey × List UInt8) :=
  if masked then (split 4 octets).map fun r => (some fun i => r.1.getD i 0, r.2)
  else some (none, octets)

/-- The frame that the octets begin with, and the octets behind it. -/
def decode : List UInt8 → Option (Frame × List UInt8)
  | b₀ :: b₁ :: octets => do
      let (length, octets) ← decodeLength (b₁.toNat % 128) octets
      let (key, octets) ← decodeKey (128 ≤ b₁.toNat) octets
      let (payload, octets) ← split length octets
      some (⟨128 ≤ b₀.toNat, b₀.toNat / 16 % 8, b₀.toNat % 16, key, mask key payload⟩, octets)
  | _ => none

/-! ### Reading what was written -/

theorem split_append {n : ℕ} {octets : List UInt8} (h : octets.length = n) (rest : List UInt8) :
    split n (octets ++ rest) = some (octets, rest) := by
  rw [split, if_pos (by simp [h]), ← h, List.take_left, List.drop_left]

theorem lengthField_lt (n : ℕ) : (lengthField n).1 < 128 := by
  unfold lengthField
  split_ifs with h
  · exact h.trans (by decide)
  · exact Nat.lt_of_sub_eq_succ rfl
  · exact Nat.lt_of_sub_eq_succ rfl

theorem decodeLength_lengthField {n : ℕ} (h : n < 2 ^ 63) (rest : List UInt8) :
    decodeLength (lengthField n).1 ((lengthField n).2 ++ rest) = some (n, rest) := by
  by_cases hshort : n < 126
  · simp only [lengthField, if_pos hshort, decodeLength, List.nil_append]
  by_cases hmiddle : n < 65536
  · have hbytes : BigEndian.ofBytes (BigEndian.toBytes 2 n) = n :=
      BigEndian.ofBytes_toBytes_of_lt hmiddle
    simp only [lengthField, if_neg hshort, if_pos hmiddle, decodeLength, Nat.lt_irrefl, if_true, if_false,
      split_append (BigEndian.length_toBytes 2 n), Option.bind_some, hbytes]
    exact if_pos ⟨Nat.not_lt.1 hshort, h⟩
  · have hbytes : BigEndian.ofBytes (BigEndian.toBytes 8 n) = n :=
      BigEndian.ofBytes_toBytes_of_lt (h.trans (by norm_num))
    simp only [lengthField, if_neg hshort, if_neg hmiddle, decodeLength, Nat.reduceLT, Nat.reduceEqDiff,
      if_false, split_append (BigEndian.length_toBytes 8 n), Option.bind_some, hbytes]
    exact if_pos ⟨Nat.not_lt.1 hmiddle, h⟩

theorem decodeKey_keyOctets (key : Option MaskingKey) (rest : List UInt8) :
    decodeKey key.isSome (keyOctets key ++ rest) = some (key, rest) := by
  cases key with
  | none => rfl
  | some key =>
    have hkey : (fun i : Fin 4 => (List.ofFn key).getD i 0) = key := by
      funext i
      rw [List.getD_eq_getElem?_getD, List.getElem?_ofFn, dif_pos i.isLt, Option.getD_some]
    rw [decodeKey, Option.isSome_some, if_pos rfl, keyOctets, split_append (List.length_ofFn), Option.map_some,
      hkey]

/-- A flag in the high bit of an octet, and the other bits. -/
theorem flag_ofNat (flag : Bool) {n : ℕ} (h : n < 128) :
    decide (128 ≤ (UInt8.ofNat ((if flag then 128 else 0) + n)).toNat) = flag ∧
    (UInt8.ofNat ((if flag then 128 else 0) + n)).toNat % 128 = n := by
  have hval : (UInt8.ofNat ((if flag then 128 else 0) + n)).toNat = (if flag then 128 else 0) + n := by
    rw [UInt8.toNat_ofNat']
    apply Nat.mod_eq_of_lt
    cases flag <;> simp <;> omega
  rw [hval]
  cases flag
  · simp [h, Nat.mod_eq_of_lt h]
  · simp [Nat.mod_eq_of_lt h]

/-- Decoding a frame gives it back, with the octets behind it left over. -/
theorem decode_encode {f : Frame} (hf : f.WellFormed) (rest : List UInt8) :
    decode (encode f ++ rest) = some (f, rest) := by
  obtain ⟨fin, rsv, opcode, key, payload⟩ := f
  obtain ⟨hrsv, hopcode, hlength⟩ := hf
  simp only at hrsv hopcode hlength
  obtain ⟨hfin, hrest⟩ := flag_ofNat fin (n := rsv * 16 + opcode) (by omega)
  obtain ⟨hmasked, hlen⟩ := flag_ofNat key.isSome (lengthField_lt payload.length)
  rw [← Nat.add_assoc] at hfin hrest
  simp only [encode, header, List.cons_append, List.nil_append, List.append_assoc, decode, hlen, hmasked,
    decodeLength_lengthField hlength, decodeKey_keyOctets, split_append (length_mask key payload),
    Option.bind_eq_bind, Option.bind_some, mask_mask, hfin]
  -- the low seven bits of the first octet are the reserved ones and the opcode
  generalize (UInt8.ofNat ((if fin then 128 else 0) + rsv * 16 + opcode)).toNat = first at hrest
  have hreserved : first / 16 % 8 = rsv := by omega
  have hlow : first % 16 = opcode := by omega
  rw [hreserved, hlow]

end Land.BaseFraming
