import Land.Quic.Tls
import Land.Server.Request

/-!
# What `base64_decode` accepts

The loop of `base64_decode` takes whole groups of four bytes of the trimmed input, padding included, and
nothing else: up to three bytes at the end are never looked at.  It rejects a byte outside the alphabet,
but takes a padding character in the third or fourth place of every group.  So it is right about texts
whose padding fills the last group, and about those where it meets a byte that it rejects.
-/

namespace Land.Server

/-- A byte in a whole group of four that the loop rejects: one outside the alphabet, other than padding in
the third or fourth place. -/
def Rejected (bs : Bytes) : Prop :=
  ∃ j b, j < bs.length / 4 * 4 ∧ bs[j]? = some b ∧ decodeTable b = 255 ∧ (b = 61 → j % 4 < 2)

theorem not_rejected_of_length_lt {bs : Bytes} (h : bs.length < 4) : ¬ Rejected bs := by
  rintro ⟨j, b, hj, -⟩
  omega

theorem decodeTable_pad : decodeTable 61 = 255 := by decide

/-- Rejected bytes of the first group, and of the others. -/
theorem rejected_group_iff {x y z w : UInt8} {rest : Bytes} :
    Rejected (x :: y :: z :: w :: rest) ↔
      (decodeTable x = 255 ∨ decodeTable y = 255) ∨ (z ≠ 61 ∧ decodeTable z = 255) ∨
        (w ≠ 61 ∧ decodeTable w = 255) ∨ Rejected rest := by
  have hlen : (x :: y :: z :: w :: rest).length / 4 * 4 = rest.length / 4 * 4 + 4 := by
    simp only [List.length_cons]
    omega
  constructor
  · rintro ⟨j, b, hj, hb, htable, hpad⟩
    rcases j with _ | _ | _ | _ | j
    · cases hb
      exact .inl (.inl htable)
    · cases hb
      exact .inl (.inr htable)
    · cases hb
      exact .inr (.inl ⟨fun h => absurd (hpad h) (by decide), htable⟩)
    · cases hb
      exact .inr (.inr (.inl ⟨fun h => absurd (hpad h) (by decide), htable⟩))
    · refine .inr (.inr (.inr ⟨j, b, by omega, hb, htable, fun h => ?_⟩))
      have := hpad h
      omega
  · rintro ((h | h) | ⟨hne, h⟩ | ⟨hne, h⟩ | ⟨j, b, hj, hb, htable, hpad⟩)
    · exact ⟨0, x, by omega, rfl, h, fun _ => by decide⟩
    · exact ⟨1, y, by omega, rfl, h, fun _ => by decide⟩
    · exact ⟨2, z, by omega, rfl, h, fun hz => absurd hz hne⟩
    · exact ⟨3, w, by omega, rfl, h, fun hw => absurd hw hne⟩
    · refine ⟨j + 4, b, by omega, hb, htable, fun h => ?_⟩
      have := hpad h
      omega

theorem exists_group {bs : Bytes} (h : 4 ≤ bs.length) :
    ∃ x y z w rest, bs = x :: y :: z :: w :: rest := by
  rcases bs with _ | ⟨x, _ | ⟨y, _ | ⟨z, _ | ⟨w, rest⟩⟩⟩⟩
  · exact absurd h (by simp)
  · exact absurd h (by simp)
  · exact absurd h (by simp)
  · exact absurd h (by simp)
  · exact ⟨x, y, z, w, rest, rfl⟩

/-- Less than a group is not looked at. -/
theorem base64Loop_of_length_lt {i : ℕ} {bs : Bytes} (h : bs.length < 4) : base64Loop i bs = .ok [] := by
  rw [base64Loop]
  rintro x y z w rest rfl
  simp only [List.length_cons] at h
  omega

/-- A group that passes. -/
theorem base64Loop_pass {x y z w : UInt8} (hx : decodeTable x ≠ 255) (hy : decodeTable y ≠ 255)
    (hz : z ≠ 61 → decodeTable z ≠ 255) (hw : w ≠ 61 → decodeTable w ≠ 255) (i : ℕ) (rest : Bytes) :
    base64Loop i (x :: y :: z :: w :: rest) = (base64Loop (i + 4) rest).map fun output =>
      [decodeTable x <<< 2 ||| decodeTable y >>> 4] ++
        (if z ≠ 61 then [decodeTable y <<< 4 ||| decodeTable z >>> 2] else []) ++
        (if w ≠ 61 then [decodeTable z <<< 6 ||| decodeTable w] else []) ++ output := by
  have hxy : ¬ (decodeTable x = 255 ∨ decodeTable y = 255) := not_or.2 ⟨hx, hy⟩
  have hz' : ¬ (z ≠ 61 ∧ decodeTable z = 255) := fun h => hz h.1 h.2
  have hw' : ¬ (w ≠ 61 ∧ decodeTable w = 255) := fun h => hw h.1 h.2
  rw [base64Loop]
  simp only [if_neg hxy, if_neg hz', if_neg hw']
  cases base64Loop (i + 4) rest <;> rfl

/-- What a passing group leaves to the others. -/
theorem exists_of_map_eq_ok {front v : Bytes} {r : Except String Bytes}
    (h : (r.map fun output => front ++ output) = .ok v) : ∃ output, r = .ok output ∧ v = front ++ output := by
  cases r with
  | error e => cases h
  | ok output =>
    cases h
    exact ⟨output, rfl, rfl⟩

/-- The loop returns an error exactly if it meets a byte that it rejects. -/
theorem base64Loop_ok_iff (i : ℕ) (bs : Bytes) : (∃ v, base64Loop i bs = .ok v) ↔ ¬ Rejected bs := by
  fun_induction base64Loop i bs with
  | case1 i x y z w rest a b h =>
    refine iff_of_false (by rintro ⟨v, ⟨⟩⟩) (not_not.2 (rejected_group_iff.2 (.inl h)))
  | case2 i x y z w rest a b c hxy h =>
    refine iff_of_false (by rintro ⟨v, ⟨⟩⟩) (not_not.2 (rejected_group_iff.2 (.inr (.inl h))))
  | case3 i x y z w rest a b c d hxy hz h =>
    refine iff_of_false (by rintro ⟨v, ⟨⟩⟩) (not_not.2 (rejected_group_iff.2 (.inr (.inr (.inl h)))))
  | case4 i x y z w rest a b c d hxy hz hw ih =>
    have hrest : Rejected (x :: y :: z :: w :: rest) ↔ Rejected rest := by
      rw [rejected_group_iff, or_iff_right hxy, or_iff_right hz, or_iff_right hw]
    rw [hrest, ← ih]
    constructor
    · rintro ⟨v, hv⟩
      cases hloop : base64Loop (i + 4) rest with
      | error e =>
        rw [hloop] at hv
        cases hv
      | ok output => exact ⟨output, rfl⟩
    · rintro ⟨output, houtput⟩
      rw [houtput]
      exact ⟨_, rfl⟩
  | case5 bs i hshort =>
    refine iff_of_true ⟨[], rfl⟩ (not_rejected_of_length_lt ?_)
    by_contra hlen
    obtain ⟨x, y, z, w, rest, rfl⟩ := exists_group (not_lt.1 hlen)
    exact hshort x y z w rest rfl

/-- Padding alone yields nothing. -/
theorem eq_nil_of_base64Loop_pad {i k : ℕ} {v : Bytes}
    (h : base64Loop i (List.replicate k 61) = .ok v) : v = [] := by
  have hshort : ¬ 4 ≤ k := by
    rintro hk
    obtain ⟨m, rfl⟩ := Nat.exists_eq_add_of_le hk
    refine (base64Loop_ok_iff i _).1 ⟨v, h⟩ ⟨0, 61, ?_, ?_, decodeTable_pad, fun _ => by decide⟩
    · rw [List.length_replicate]
      omega
    · rw [List.getElem?_replicate, if_pos (by omega)]
  have hk : k < 4 := not_le.1 hshort
  interval_cases k <;> cases h <;> rfl

/-! ## Texts over the alphabet -/

/-- The byte of a sextet. -/
def sextetByte (n : ℕ) : UInt8 := Utf8.ascii (Base64.alphabet n)

theorem decodeTable_sextetByte {n : ℕ} (h : n < 64) : decodeTable (sextetByte n) = UInt8.ofNat n :=
  (decodeTable_alphabet n h).1

theorem decodeTable_sextetByte_ne {n : ℕ} (h : n < 64) : decodeTable (sextetByte n) ≠ 255 := by
  rw [decodeTable_sextetByte h]
  exact (decodeTable_alphabet n h).2.2

theorem sextetByte_ne_pad {n : ℕ} (h : n < 64) : sextetByte n ≠ 61 := (decodeTable_alphabet n h).2.1

/-- What the loop makes of sextets and padding: if the padding fills the last group, the bytes that the
sextets stand for; otherwise the sextets of the last group are dropped. -/
theorem base64Loop_sextets {sextets : List ℕ} (h : ∀ n ∈ sextets, n < 64) {i k : ℕ} {v : Bytes}
    (hv : base64Loop i (sextets.map sextetByte ++ List.replicate k 61) = .ok v) :
    ((sextets.length + 3) / 4 * 4 ≤ sextets.length + k →
      sextets.length % 4 ≠ 1 ∧ Base64.Packs sextets v) ∧
    (sextets.length + k < (sextets.length + 3) / 4 * 4 → v.length = 3 * (sextets.length / 4)) := by
  induction hlen : sextets.length using Nat.strong_induction_on generalizing sextets i v with
  | _ len ih =>
    subst hlen
    by_cases hshort : sextets.length + k < 4
    · -- there is no whole group
      rw [base64Loop_of_length_lt (by simpa using hshort)] at hv
      cases hv
      refine ⟨fun hk => ?_, fun _ => ?_⟩
      · obtain rfl : sextets = [] := List.length_eq_zero_iff.1 (by omega)
        exact ⟨by decide, Base64.packs_nil⟩
      · rw [List.length_nil]
        omega
    rcases sextets with _ | ⟨a, _ | ⟨b, _ | ⟨c, _ | ⟨d, sextets⟩⟩⟩⟩ <;>
      simp only [List.length_cons, List.length_nil] at hshort ⊢
    · obtain rfl : v = [] := eq_nil_of_base64Loop_pad hv
      exact ⟨fun _ => ⟨by decide, Base64.packs_nil⟩, fun _ => rfl⟩
    · -- a single sextet before three padding characters
      obtain ⟨m, rfl⟩ : ∃ m, k = m + 3 := ⟨k - 3, by omega⟩
      refine absurd ⟨v, hv⟩ (mt (base64Loop_ok_iff i _).1 (not_not.2 ?_))
      exact rejected_group_iff.2 (.inl (.inr decodeTable_pad))
    · obtain ⟨m, rfl⟩ : ∃ m, k = m + 2 := ⟨k - 2, by omega⟩
      have ha := h a (by simp)
      have hb := h b (by simp)
      have hpass := base64Loop_pass (decodeTable_sextetByte_ne ha) (decodeTable_sextetByte_ne hb)
        (z := 61) (w := 61) (by simp) (by simp) i (List.replicate m 61)
      obtain ⟨output, houtput, rfl⟩ := exists_of_map_eq_ok (hpass.symm.trans hv)
      obtain rfl := eq_nil_of_base64Loop_pad houtput
      refine ⟨fun _ => ⟨by decide, ?_⟩, fun hk => by omega⟩
      simpa [decodeTable_sextetByte ha, decodeTable_sextetByte hb] using Base64.packs_two ha hb
    · obtain ⟨m, rfl⟩ : ∃ m, k = m + 1 := ⟨k - 1, by omega⟩
      have ha := h a (by simp)
      have hb := h b (by simp)
      have hc := h c (by simp)
      have hpass := base64Loop_pass (decodeTable_sextetByte_ne ha) (decodeTable_sextetByte_ne hb)
        (fun _ => decodeTable_sextetByte_ne hc) (w := 61) (by simp) i (List.replicate m 61)
      obtain ⟨output, houtput, rfl⟩ := exists_of_map_eq_ok (hpass.symm.trans hv)
      obtain rfl := eq_nil_of_base64Loop_pad houtput
      refine ⟨fun _ => ⟨by decide, ?_⟩, fun hk => by omega⟩
      simpa [decodeTable_sextetByte ha, decodeTable_sextetByte hb, decodeTable_sextetByte hc,
        sextetByte_ne_pad hc] using Base64.packs_three ha hb hc
    · have ha := h a (by simp)
      have hb := h b (by simp)
      have hc := h c (by simp)
      have hd := h d (by simp)
      have hpass := base64Loop_pass (decodeTable_sextetByte_ne ha) (decodeTable_sextetByte_ne hb)
        (fun _ => decodeTable_sextetByte_ne hc) (fun _ => decodeTable_sextetByte_ne hd) i
        (sextets.map sextetByte ++ List.replicate k 61)
      obtain ⟨output, houtput, rfl⟩ := exists_of_map_eq_ok (hpass.symm.trans hv)
      obtain ⟨hfull, hdrop⟩ := ih sextets.length (by simp only [List.length_cons]; omega)
        (fun n hn => h n (by simp [hn])) houtput rfl
      simp only [decodeTable_sextetByte ha, decodeTable_sextetByte hb, decodeTable_sextetByte hc,
        decodeTable_sextetByte hd, sextetByte_ne_pad hc, sextetByte_ne_pad hd, ne_eq, not_false_eq_true,
        if_true]
      constructor
      · intro hk
        obtain ⟨hmod, hpacks⟩ := hfull (by omega)
        exact ⟨by omega, hpacks.group ha hb hc hd⟩
      · intro hk
        have := hdrop (by omega)
        simp only [List.length_append, List.length_cons, List.length_nil]
        omega

/-! ## The decoder -/

/-- Only a text of padding has only padding bytes. -/
theorem encode_eq_pad_iff (text : List Char) :
    (∀ b ∈ Utf8.encode text, b = 61) ↔ ∀ c ∈ text, c = '=' := by
  constructor
  · intro h c hc
    obtain ⟨b, bs, hbs⟩ := List.exists_cons_of_ne_nil (List.length_pos_iff.1 (Utf8.length_encodeChar c).1)
    have hmem : b ∈ String.utf8EncodeChar c := by
      rw [hbs]
      exact List.mem_cons_self
    obtain rfl : b = 61 := h b (List.mem_flatMap.2 ⟨c, hc, hmem⟩)
    have hval := Utf8.toNat_eq_of_mem_encodeChar (by decide) hmem
    rw [← Char.ofNat_toNat c, hval]
    rfl
  · intro h b hb
    obtain ⟨c, hc, hmem⟩ := List.mem_flatMap.1 hb
    rw [h c hc, Utf8.encodeChar_of_le (by decide)] at hmem
    exact List.mem_singleton.1 hmem

/-- The test for an input without anything before its padding. -/
theorem length_sub_padding_eq_zero_iff (text : List Char) :
    (Utf8.encode text).length - ((Utf8.encode text).reverse.takeWhile (· == 61)).length = 0 ↔
      Base64.unpadded text = [] := by
  have hrev : (Utf8.encode text).reverse.length = (Utf8.encode text).length := List.length_reverse
  have hle : ((Utf8.encode text).reverse.takeWhile (· == 61)).length ≤ (Utf8.encode text).length := by
    rw [← hrev]
    exact (List.takeWhile_prefix _).length_le
  have hall : ((Utf8.encode text).reverse.takeWhile (· == 61)).length = (Utf8.encode text).length ↔
      ∀ b ∈ Utf8.encode text, b = 61 := by
    rw [← hrev]
    constructor
    · intro heq b hb
      have hself := (List.takeWhile_prefix (· == 61)).eq_of_length heq
      exact beq_iff_eq.1 (List.takeWhile_eq_self_iff.1 hself b (List.mem_reverse.2 hb))
    · intro hpad
      rw [List.takeWhile_eq_self_iff.2 fun b hb => beq_iff_eq.2 (hpad b (List.mem_reverse.1 hb))]
  rw [Base64.unpadded, List.rdropWhile_eq_nil_iff]
  simp only [beq_iff_eq]
  rw [← encode_eq_pad_iff, ← hall]
  omega

theorem encode_sextets {sextets : List ℕ} (h : ∀ n ∈ sextets, n < 64) (k : ℕ) :
    Utf8.encode (sextets.map Base64.alphabet ++ List.replicate k '=') =
      sextets.map sextetByte ++ List.replicate k 61 := by
  have halphabet : ∀ n < 64, (Base64.alphabet n).toNat ≤ 127 := by decide +kernel
  rw [Utf8.encode_of_ascii, List.map_append, List.map_map, List.map_replicate]
  · rfl
  · intro c hc
    rcases List.mem_append.1 hc with hc | hc
    · obtain ⟨n, hn, rfl⟩ := List.mem_map.1 hc
      exact halphabet n (h n hn)
    · rw [List.eq_of_mem_replicate hc]
      decide

/-- Whatever `base64_decode` returns for an input is what the trimmed input, without its padding, stands
for. -/
def Base64Exact (input : String) : Prop :=
  ∀ v, base64Decode input = .ok v → Base64.Denotes (Base64.unpadded (Str.trim input.toList)) v

/-- The characters before the padding are in the alphabet, and the padding fills the last group. -/
def Padded (text : List Char) : Prop :=
  (∀ c ∈ Base64.unpadded text, ∃ n < 64, c = Base64.alphabet n) ∧
    ((Base64.unpadded text).length + 3) / 4 * 4 ≤ text.length

/-- Sextets of a text over the alphabet. -/
theorem exists_sextets {text : List Char} (h : ∀ c ∈ text, ∃ n < 64, c = Base64.alphabet n) :
    ∃ sextets : List ℕ, (∀ n ∈ sextets, n < 64) ∧ text = sextets.map Base64.alphabet := by
  induction text with
  | nil => exact ⟨[], by simp, rfl⟩
  | cons c text ih =>
    obtain ⟨n, hn, rfl⟩ := h c List.mem_cons_self
    obtain ⟨sextets, hlt, rfl⟩ := ih fun d hd => h d (List.mem_cons_of_mem _ hd)
    exact ⟨n :: sextets, List.forall_mem_cons.2 ⟨hn, hlt⟩, rfl⟩

/-- The decoder is exact on an input exactly if nothing stands before its padding, or it meets a byte that
it rejects, or the input is properly padded. -/
theorem base64Exact_iff (input : String) :
    Base64Exact input ↔ Base64.unpadded (Str.trim input.toList) = [] ∨
      Rejected (Utf8.encode (Str.trim input.toList)) ∨ Padded (Str.trim input.toList) := by
  unfold Base64Exact base64Decode
  generalize Str.trim input.toList = text
  simp only [length_sub_padding_eq_zero_iff]
  by_cases hempty : Base64.unpadded text = []
  · refine iff_of_true (fun v hv => ?_) (.inl hempty)
    rw [if_pos hempty] at hv
    cases hv
    rw [hempty]
    exact ⟨[], by simp, rfl, by decide, Base64.packs_nil⟩
  · rw [or_iff_right hempty]
    simp only [if_neg hempty]
    obtain ⟨k, htext⟩ := Base64.exists_padding text
    have hlen : text.length = (Base64.unpadded text).length + k := by
      conv_lhs => rw [htext]
      rw [List.length_append, List.length_replicate]
    have hbytes {sextets : List ℕ} (hlt : ∀ n ∈ sextets, n < 64)
        (hs : Base64.unpadded text = sextets.map Base64.alphabet) :
        Utf8.encode text = sextets.map sextetByte ++ List.replicate k 61 := by
      rw [htext, hs, encode_sextets hlt]
    constructor
    · intro hexact
      by_cases hrej : Rejected (Utf8.encode text)
      · exact .inl hrej
      · right
        obtain ⟨v, hv⟩ := (base64Loop_ok_iff 0 _).2 hrej
        obtain ⟨sextets, hlt, hs, hmod, hcount, -⟩ := hexact v hv
        refine ⟨fun c hc => ?_, ?_⟩
        · rw [hs] at hc
          obtain ⟨n, hn, rfl⟩ := List.mem_map.1 hc
          exact ⟨n, hlt n hn, rfl⟩
        · rw [hbytes hlt hs] at hv
          rw [hlen, hs, List.length_map]
          by_contra hfill
          have hdrop := (base64Loop_sextets hlt hv).2 (not_le.1 hfill)
          omega
    · rintro (hrej | ⟨halphabet, hfill⟩) v hv
      · exact absurd hrej ((base64Loop_ok_iff 0 _).1 ⟨v, hv⟩)
      · obtain ⟨sextets, hlt, hs⟩ := exists_sextets halphabet
        rw [hbytes hlt hs] at hv
        rw [hlen, hs, List.length_map] at hfill
        obtain ⟨hmod, hpacks⟩ := (base64Loop_sextets hlt hv).1 hfill
        exact ⟨sextets, hlt, hs, hmod, hpacks⟩

/-- A byte without padding is dropped, padding inside a group is decoded to a byte, and what stands behind
the last whole group is not looked at. -/
theorem base64Decode_not_exact :
    base64Decode "YQ" = .ok [] ∧ ¬ Base64Exact "YQ" ∧
    base64Decode "YW=j" = .ok [97, 227] ∧ ¬ Base64Exact "YW=j" ∧
    base64Decode "YWJj!" = .ok [97, 98, 99] ∧ ¬ Base64Exact "YWJj!" := by
  have halphabet : ∀ n < 64, Base64.alphabet n ≠ '=' ∧ Base64.alphabet n ≠ '!' := by decide +kernel
  refine ⟨rfl, fun h => ?_, rfl, fun h => ?_, rfl, fun h => ?_⟩
  · obtain ⟨sextets, -, hs, -, hlen, -⟩ := h [] rfl
    have htwo : 2 = sextets.length := (congrArg List.length hs).trans (List.length_map _)
    rw [← htwo] at hlen
    cases hlen
  · obtain ⟨sextets, hlt, hs, -⟩ := h [97, 227] rfl
    have hmem : '=' ∈ sextets.map Base64.alphabet := by
      rw [← hs]
      decide
    obtain ⟨n, hn, heq⟩ := List.mem_map.1 hmem
    exact (halphabet n (hlt n hn)).1 heq
  · obtain ⟨sextets, hlt, hs, -⟩ := h [97, 98, 99] rfl
    have hmem : '!' ∈ sextets.map Base64.alphabet := by
      rw [← hs]
      decide
    obtain ⟨n, hn, heq⟩ := List.mem_map.1 hmem
    exact (halphabet n (hlt n hn)).2 heq

/-- What the encoder of the client's key files writes, the decoder of the server reads. -/
theorem base64Decode_base64Encode (data : Bytes) : base64Decode (Quic.base64Encode data) = .ok data := by
  rw [Quic.base64Encode_eq]
  exact base64Decode_encode data

end Land.Server
