import Land.Lib.Digits

/-!
# The base58 decoder of the key files

`bs58_decode` keeps the number that the symbols read so far denote as bytes, the least significant first, in a
vector as long as the string.  Every symbol multiplies it by 58 in place (`Digits.mulAdd`).  The number never needs
more bytes than symbols were read, the leading ones apart, so the vector is long enough for the zeros that follow.
-/

namespace Land.Quic.Bs58

/-- The `Err(())` of `bs58_decode`, or a panic: an index outside the vector, or a `u32` that overflows. -/
inductive Failure where
  | err
  | outOfBounds
  | overflow
  deriving DecidableEq

/-- `ALPHABET`. -/
def alphabet : List UInt8 :=
  "123456789ABCDEFGHJKLMNPQRSTUVWXYZabcdefghijkmnopqrstuvwxyz".toList.map fun c => UInt8.ofNat c.toNat

/-- `ALPHABET.iter().position(|&x| x == c)`. -/
def position (c : UInt8) : Option ℕ := alphabet.findIdx? (· == c)

/-- `result[i]`. -/
def get (result : List UInt8) (i : ℕ) : Except Failure UInt8 :=
  match result[i]? with
  | some byte => .ok byte
  | none => .error .outOfBounds

/-- `result[i] = byte`. -/
def set (result : List UInt8) (i : ℕ) (byte : UInt8) : Except Failure (List UInt8) :=
  if i < result.length then .ok (result.set i byte) else .error .outOfBounds

/-- A sum or product of `u32`. -/
def checked (n : ℕ) : Except Failure ℕ := if n < 2 ^ 32 then .ok n else .error .overflow

/-- The loop over the indices below `result_len`. -/
def mulLoop : List ℕ → List UInt8 → ℕ → Except Failure (List UInt8 × ℕ)
  | [], result, val => .ok (result, val)
  | i :: indices, result, val => do
      let product ← checked ((← get result i).toNat * 58)
      let val ← checked (val + product)
      let result ← set result i (UInt8.ofNat (val &&& 0xff))
      mulLoop indices result (val >>> 8)

/-- `while val > 0`. -/
def carryLoop (result : List UInt8) (resultLen val : ℕ) : Except Failure (List UInt8 × ℕ) :=
  if 0 < val then do
    let result ← set result resultLen (UInt8.ofNat (val &&& 0xff))
    carryLoop result (resultLen + 1) (val >>> 8)
  else .ok (result, resultLen)
termination_by val
decreasing_by
  rw [Nat.shiftRight_eq_div_pow]
  omega

/-- One turn of the loop over the bytes. -/
def decodeByte (result : List UInt8) (resultLen : ℕ) (c : UInt8) : Except Failure (List UInt8 × ℕ) :=
  match position c with
  | none => .error .err
  | some val => do
      let (result, val) ← mulLoop (List.range resultLen) result val
      carryLoop result resultLen val

/-- The loop over the bytes. -/
def decodeLoop : List UInt8 → List UInt8 → ℕ → Except Failure (List UInt8 × ℕ)
  | [], result, resultLen => .ok (result, resultLen)
  | c :: s, result, resultLen => do
      let (result, resultLen) ← decodeByte result resultLen c
      decodeLoop s result resultLen

/-- The loop over the leading zeros. -/
def zerosLoop : List UInt8 → List UInt8 → ℕ → Except Failure (List UInt8 × ℕ)
  | [], result, resultLen => .ok (result, resultLen)
  | c :: s, result, resultLen =>
      if c = 49 then do
        let result ← set result resultLen 0
        zerosLoop s result (resultLen + 1)
      else .ok (result, resultLen)

/-- `bs58_decode`, of the bytes of a string. -/
def bs58Decode (s : List UInt8) : Except Failure (List UInt8) := do
  let (result, resultLen) ← decodeLoop s (List.replicate s.length 0) 0
  let (result, resultLen) ← zerosLoop s result resultLen
  return (result.take resultLen).reverse

/-! ### The number of a string -/

/-- The number after one more symbol; the value of a symbol is its place in the alphabet. -/
def append (n : ℕ) (c : UInt8) : ℕ := n * 58 + alphabet.idxOf c

/-- The number that the symbols denote in base 58. -/
def value (s : List UInt8) : ℕ := s.foldl append 0

/-- The number of leading ones. -/
def ones (s : List UInt8) : ℕ := (s.takeWhile (· = 49)).length

/-- The bytes for digits in base 256. -/
def toBytes (digits : List ℕ) : List UInt8 := digits.map UInt8.ofNat

/-- The bytes of a number, the most significant first, without leading zeros. -/
def minimalBytes (n : ℕ) : List UInt8 := (toBytes (Nat.digits 256 n)).reverse

/-! ### The loops -/

theorem ok_bind {α β : Type} (a : α) (f : α → Except Failure β) : (Except.ok a >>= f) = f a := rfl

theorem checked_of_lt {n : ℕ} (h : n < 2 ^ 32) : checked n = .ok n := if_pos h

theorem and_0xff (n : ℕ) : n &&& 0xff = n % 256 := Nat.and_two_pow_sub_one_eq_mod n 8

theorem shiftRight_8 (n : ℕ) : n >>> 8 = n / 256 := Nat.shiftRight_eq_div_pow n 8

theorem set_append (before : List UInt8) (byte byte' : UInt8) (rest : List UInt8) :
    set (before ++ byte :: rest) before.length byte' = .ok (before ++ byte' :: rest) := by
  rw [set, if_pos (by simp), List.set_append_right _ _ le_rfl, Nat.sub_self, List.set_cons_zero]

theorem get_append (before : List UInt8) (byte : UInt8) (rest : List UInt8) :
    get (before ++ byte :: rest) before.length = .ok byte := by
  rw [get, List.getElem?_append_right le_rfl, Nat.sub_self, List.getElem?_cons_zero]

/-- The loop over the indices multiplies the digits in place. -/
theorem mulLoop_eq (before : List UInt8) {digits : List ℕ} (hdigits : ∀ d ∈ digits, d < 256) {val : ℕ}
    (hval : val < 58) (rest : List UInt8) :
    mulLoop (List.range' before.length digits.length) (before ++ (toBytes digits ++ rest)) val =
      .ok (before ++ (toBytes (Digits.mulAdd 256 58 val digits).1 ++ rest),
        (Digits.mulAdd 256 58 val digits).2) := by
  induction digits generalizing before val with
  | nil => rfl
  | cons d digits ih =>
    have hd : d < 256 := hdigits d (List.mem_cons_self ..)
    have hbyte : (UInt8.ofNat d).toNat = d := by rw [UInt8.toNat_ofNat', Nat.mod_eq_of_lt hd]
    have hnext := ih (before ++ [UInt8.ofNat ((val + d * 58) % 256)])
      (fun d' hd' => hdigits d' (List.mem_cons_of_mem d hd')) (Digits.carry_lt hval hd)
    rw [List.length_append, List.length_singleton, List.append_assoc, List.append_assoc] at hnext
    simp only [toBytes, List.map_cons, List.length_cons, List.range'_succ, mulLoop, List.cons_append, get_append,
      ok_bind, hbyte, checked_of_lt (show d * 58 < 2 ^ 32 by omega),
      checked_of_lt (show val + d * 58 < 2 ^ 32 by omega), and_0xff, shiftRight_8, set_append, Digits.mulAdd]
    exact hnext

/-- The loop over the carry writes its digits behind the others. -/
theorem carryLoop_eq (before : List UInt8) (val : ℕ) {rest : List UInt8}
    (h : (Nat.digits 256 val).length ≤ rest.length) :
    carryLoop (before ++ rest) before.length val =
      .ok (before ++ (toBytes (Nat.digits 256 val) ++ rest.drop (Nat.digits 256 val).length),
        before.length + (Nat.digits 256 val).length) := by
  induction val using Nat.strong_induction_on generalizing before rest with
  | _ val ih =>
    rcases Nat.eq_zero_or_pos val with rfl | hpos
    · rw [carryLoop, if_neg (Nat.lt_irrefl 0)]
      simp [toBytes]
    · have hdigits : Nat.digits 256 val = val % 256 :: Nat.digits 256 (val / 256) :=
        Nat.digits_def' (by decide) hpos
      rw [hdigits, List.length_cons] at h
      cases rest with
      | nil => exact absurd h (Nat.not_succ_le_zero _)
      | cons byte rest =>
        have hnext := ih (val / 256) (by omega) (before ++ [UInt8.ofNat (val % 256)]) (Nat.le_of_succ_le_succ h)
        rw [List.length_append, List.length_singleton, List.append_assoc, List.append_assoc] at hnext
        rw [carryLoop, if_pos hpos, and_0xff, shiftRight_8, set_append, ok_bind, hdigits, List.length_cons,
          Nat.add_comm (Nat.digits 256 (val / 256)).length 1, ← Nat.add_assoc, Nat.add_comm 1, List.drop_succ_cons]
        exact hnext

theorem position_of_mem {c : UInt8} (h : c ∈ alphabet) : position c = some (alphabet.idxOf c) := by
  rw [position, List.findIdx?_eq_guard_findIdx_lt]
  exact Option.guard_eq_some_iff.2 ⟨rfl, by simpa using h⟩

theorem position_of_not_mem {c : UInt8} (h : c ∉ alphabet) : position c = none := by
  rw [position, List.findIdx?_eq_none_iff]
  intro x hx
  exact beq_eq_false_iff_ne.2 fun hxc => h (hxc ▸ hx)

theorem idxOf_lt {c : UInt8} (h : c ∈ alphabet) : alphabet.idxOf c < 58 := List.idxOf_lt_length_iff.2 h

/-- The vector holds the minimal bytes of a number; what stands behind them has no meaning. -/
def Holds (n : ℕ) (result : List UInt8) (resultLen : ℕ) : Prop :=
  ∃ rest, result = toBytes (Nat.digits 256 n) ++ rest ∧ resultLen = (Nat.digits 256 n).length

theorem length_toBytes (digits : List ℕ) : (toBytes digits).length = digits.length := List.length_map _

theorem decodeByte_of_mem {c : UInt8} (hc : c ∈ alphabet) {n resultLen : ℕ} {result : List UInt8}
    (h : Holds n result resultLen)
    (hroom : (Nat.digits 256 (n * 58 + alphabet.idxOf c)).length ≤ result.length) :
    ∃ result' resultLen', decodeByte result resultLen c = .ok (result', resultLen') ∧
      Holds (n * 58 + alphabet.idxOf c) result' resultLen' ∧ result'.length = result.length := by
  obtain ⟨rest, rfl, rfl⟩ := h
  have hlt : ∀ d ∈ Nat.digits 256 n, d < 256 := fun d hd => Nat.digits_lt_base (by decide) hd
  have hmul := mulLoop_eq [] hlt (idxOf_lt hc) rest
  have hdigits := Digits.digits_mulAdd (b := 256) (m := 58) (by decide) (by decide) n (alphabet.idxOf c)
  have hlen := Digits.length_mulAdd (b := 256) (m := 58) (alphabet.idxOf c) (Nat.digits 256 n)
  rw [List.length_nil, List.nil_append, List.nil_append, ← List.range_eq_range'] at hmul
  rw [Nat.mul_comm n, ← hdigits, List.length_append, hlen, List.length_append, length_toBytes] at hroom
  generalize Digits.mulAdd 256 58 (alphabet.idxOf c) (Nat.digits 256 n) = r at hmul hdigits hlen hroom
  have hcarry := carryLoop_eq (toBytes r.1) r.2 (Nat.le_of_add_le_add_left hroom)
  rw [length_toBytes, hlen] at hcarry
  simp only [decodeByte, position_of_mem hc, hmul, ok_bind, hcarry]
  refine ⟨_, _, rfl, ⟨rest.drop (Nat.digits 256 r.2).length, ?_, ?_⟩, ?_⟩
  · rw [Nat.mul_comm n, ← hdigits, toBytes, toBytes, toBytes, List.map_append, List.append_assoc]
  · rw [Nat.mul_comm n, ← hdigits, List.length_append, hlen]
  · simp only [List.length_append, length_toBytes, List.length_drop, hlen]
    omega

theorem append_lt {n k : ℕ} (hn : n < 58 ^ k) {c : UInt8} (hc : c ∈ alphabet) : append n c < 58 ^ (k + 1) := by
  have hidx := idxOf_lt hc
  rw [append, pow_succ]
  omega

theorem foldl_append_lt {s : List UInt8} (hs : ∀ c ∈ s, c ∈ alphabet) {n k : ℕ} (hn : n < 58 ^ k) :
    s.foldl append n < 58 ^ (k + s.length) := by
  induction s generalizing n k with
  | nil => exact hn
  | cons c s ih =>
    have hnext := ih (fun c' hc' => hs c' (List.mem_cons_of_mem c hc'))
      (append_lt hn (hs c (List.mem_cons_self ..)))
    rwa [Nat.add_right_comm] at hnext

/-- Over symbols the loop reads their number; the number after `k` of them has at most `k` bytes. -/
theorem decodeLoop_of_mem {s : List UInt8} (hs : ∀ c ∈ s, c ∈ alphabet) {n k resultLen : ℕ} {result : List UInt8}
    (h : Holds n result resultLen) (hn : n < 58 ^ k) (hroom : k + s.length ≤ result.length) :
    ∃ result' resultLen', decodeLoop s result resultLen = .ok (result', resultLen') ∧
      Holds (s.foldl append n) result' resultLen' ∧ result'.length = result.length := by
  induction s generalizing n k resultLen result with
  | nil => exact ⟨result, resultLen, rfl, h, rfl⟩
  | cons c s ih =>
    have hc := hs c (List.mem_cons_self ..)
    rw [List.length_cons] at hroom
    obtain ⟨result₁, resultLen₁, hbyte, h₁, hlen₁⟩ := decodeByte_of_mem hc h
      ((Digits.length_digits_le (by decide) (by decide) (append_lt hn hc)).trans (by omega))
    obtain ⟨result', resultLen', hloop, h', hlen'⟩ := ih (fun c' hc' => hs c' (List.mem_cons_of_mem c hc')) h₁
      (append_lt hn hc) (by omega)
    rw [decodeLoop, hbyte, ok_bind]
    exact ⟨result', resultLen', hloop, h', hlen'.trans hlen₁⟩

/-- At the first byte that is no symbol the loop returns the error. -/
theorem decodeLoop_of_not_mem {s : List UInt8} (hs : ∃ c ∈ s, c ∉ alphabet) {n k resultLen : ℕ}
    {result : List UInt8} (h : Holds n result resultLen) (hn : n < 58 ^ k)
    (hroom : k + s.length ≤ result.length) : decodeLoop s result resultLen = .error .err := by
  induction s generalizing n k resultLen result with
  | nil =>
    obtain ⟨c, hc, -⟩ := hs
    exact absurd hc List.not_mem_nil
  | cons c s ih =>
    rw [List.length_cons] at hroom
    by_cases hc : c ∈ alphabet
    · obtain ⟨result₁, resultLen₁, hbyte, h₁, hlen₁⟩ := decodeByte_of_mem hc h
        ((Digits.length_digits_le (by decide) (by decide) (append_lt hn hc)).trans (by omega))
      obtain ⟨c', hc', hnot⟩ := hs
      have hmem : c' ∈ s := (List.mem_cons.1 hc').resolve_left fun he => hnot (he ▸ hc)
      rw [decodeLoop, hbyte, ok_bind]
      exact ih ⟨c', hmem, hnot⟩ h₁ (append_lt hn hc) (by omega)
    · rw [decodeLoop, decodeByte, position_of_not_mem hc]
      rfl

theorem ones_cons_one (s : List UInt8) : ones (49 :: s) = ones s + 1 := rfl

theorem ones_cons_of_ne {c : UInt8} (hc : c ≠ 49) (s : List UInt8) : ones (c :: s) = 0 := by
  rw [ones, List.takeWhile_cons_of_neg (by simpa using hc), List.length_nil]

theorem zerosLoop_eq (s before : List UInt8) {rest : List UInt8} (h : ones s ≤ rest.length) :
    zerosLoop s (before ++ rest) before.length =
      .ok (before ++ (List.replicate (ones s) 0 ++ rest.drop (ones s)), before.length + ones s) := by
  induction s generalizing before rest with
  | nil => rfl
  | cons c s ih =>
    by_cases hc : c = 49
    · subst hc
      rw [ones_cons_one] at h
      cases rest with
      | nil => exact absurd h (Nat.not_succ_le_zero _)
      | cons byte rest =>
        have hnext := ih (before ++ [0]) (Nat.le_of_succ_le_succ h)
        rw [List.length_append, List.length_singleton, List.append_assoc, List.append_assoc] at hnext
        rw [zerosLoop, if_pos rfl, set_append, ok_bind, ones_cons_one, List.drop_succ_cons, List.replicate_succ,
          Nat.add_comm (ones s), ← Nat.add_assoc]
        exact hnext
    · rw [zerosLoop, if_neg hc, ones_cons_of_ne hc]
      rfl

/-- The leading ones add nothing to the number. -/
theorem value_lt {s : List UInt8} (hs : ∀ c ∈ s, c ∈ alphabet) : value s < 58 ^ (s.length - ones s) := by
  induction s with
  | nil => exact Nat.one_pos
  | cons c s ih =>
    by_cases hc : c = 49
    · subst hc
      have hone : append 0 49 = 0 := by decide +kernel
      rw [value, List.foldl_cons, hone, List.length_cons, ones_cons_one, Nat.add_sub_add_right]
      exact ih fun c' hc' => hs c' (List.mem_cons_of_mem 49 hc')
    · have hlt := foldl_append_lt hs (n := 0) (k := 0) Nat.one_pos
      rw [ones_cons_of_ne hc, Nat.sub_zero]
      rwa [Nat.zero_add] at hlt

/-- The string has only bytes of the alphabet. -/
def InAlphabet (s : List UInt8) : Prop := ∀ c ∈ s, c ∈ alphabet

instance (s : List UInt8) : Decidable (InAlphabet s) := List.decidableBAll (· ∈ alphabet) s

/-- `bs58_decode` returns its error exactly for a string with a byte outside the alphabet.  For any other it returns
one zero for each leading one and the minimal bytes of the number.  No index is out of bounds and nothing
overflows. -/
theorem bs58Decode_eq (s : List UInt8) :
    bs58Decode s = if InAlphabet s then .ok (List.replicate (ones s) 0 ++ minimalBytes (value s))
      else .error .err := by
  have hstart : Holds 0 (List.replicate s.length 0) 0 := ⟨List.replicate s.length 0, rfl, rfl⟩
  have hroom : 0 + s.length ≤ (List.replicate s.length (0 : UInt8)).length := by
    rw [List.length_replicate, Nat.zero_add]
  split_ifs with hs
  · obtain ⟨result, resultLen, hloop, ⟨rest, hresult, hresultLen⟩, hlen⟩ :=
      decodeLoop_of_mem hs hstart Nat.one_pos hroom
    change result = toBytes (Nat.digits 256 (value s)) ++ rest at hresult
    change resultLen = (Nat.digits 256 (value s)).length at hresultLen
    have hdigits := Digits.length_digits_le (b := 256) (by decide) (by decide) (value_lt hs)
    have hones : ones s ≤ s.length := (List.takeWhile_prefix _).length_le
    -- the bytes of the number and the zeros fill at most the whole vector
    have hrest : ones s ≤ rest.length := by
      rw [hresult, List.length_append, length_toBytes, List.length_replicate] at hlen
      omega
    have hzeros := zerosLoop_eq s (toBytes (Nat.digits 256 (value s))) hrest
    rw [length_toBytes] at hzeros
    have hlength : (toBytes (Nat.digits 256 (value s)) ++ List.replicate (ones s) 0).length =
        (Nat.digits 256 (value s)).length + ones s := by
      rw [List.length_append, length_toBytes, List.length_replicate]
    rw [bs58Decode, hloop, ok_bind, hresult, hresultLen]
    simp only [hzeros, ok_bind]
    rw [← List.append_assoc, ← hlength, List.take_left, List.reverse_append, List.reverse_replicate]
    rfl
  · have hnot : ∃ c ∈ s, c ∉ alphabet := by simpa only [InAlphabet, not_forall, exists_prop] using hs
    rw [bs58Decode, decodeLoop_of_not_mem hnot hstart Nat.one_pos hroom]
    rfl

end Land.Quic.Bs58
