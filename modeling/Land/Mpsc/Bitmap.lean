import Land.Lib.SequencedRing
import Land.Mpsc.Shared

/-!
# The availability bitmap

For a capacity that is a multiple of the word size the bitmap has one bit per slot
(`OneBitPerSlot`), and `is_published`, the word scan and the publishing `fetch_xor`s are about the
parity bits of `Land.Parity`: `isPublished_iff`, `Scan.step_spec`, `Flush.bit_fetchXor`.  The
flushes of a batch cover its sequences in order, without gap or overlap (`covers_batchFlushes`).
-/

namespace Land.Mpsc

open Channel

variable {T : Type}

namespace Shared

/-- The bit of a slot. -/
def bit (sh : Shared T) (r : ℕ) : Bool := (sh.availability (r / 64)).getLsbD (r % 64)

/-- The bitmap has exactly one bit for each of the `cap` slots. -/
structure OneBitPerSlot (sh : Shared T) (cap : ℕ) : Prop where
  capacity_eq : sh.capacity = cap
  words : 64 * sh.availabilityWords = cap
  pos : 0 < cap

end Shared

theorem wordIndex_natCast (sh : Shared T) (s : ℕ) :
    sh.wordIndex (s : ℤ) = s / 64 % sh.availabilityWords := rfl

theorem bitIndex_natCast (s : ℕ) : bitIndex (s : ℤ) = s % 64 := rfl

/-- The bit of a sequence is found at its word and bit index. -/
theorem Shared.OneBitPerSlot.bit_mod {sh : Shared T} {cap : ℕ} (h : sh.OneBitPerSlot cap) (s : ℕ) :
    sh.bit (s % cap) = (sh.availability (sh.wordIndex s)).getLsbD (bitIndex s) := by
  rw [Shared.bit, wordIndex_natCast, bitIndex_natCast, ← h.words, Nat.mod_mul_right_div_self,
    Nat.mod_mul_right_mod]

/-- Word and bit index determine the slot. -/
theorem Shared.OneBitPerSlot.mod_eq {sh : Shared T} {cap : ℕ} (h : sh.OneBitPerSlot cap) {s t : ℕ}
    (hw : sh.wordIndex s = sh.wordIndex t) (hb : s % 64 = t % 64) : s % cap = t % cap := by
  rw [wordIndex_natCast, wordIndex_natCast] at hw
  rw [← h.words, Nat.mod_mul, Nat.mod_mul, hw, hb]

theorem toNat_shiftRight_and_one (word : BitVec 64) (i : ℕ) :
    ((word >>> i) &&& 1#64).toNat = (word.getLsbD i).toNat := by
  rw [BitVec.getLsbD, Nat.toNat_testBit, BitVec.toNat_and, BitVec.toNat_ushiftRight,
    Nat.shiftRight_eq_div_pow]
  exact Nat.and_one_is_mod _

theorem and_one_eq_toNat (n : ℕ) : n &&& 1 = (decide (n % 2 = 1)).toNat := by
  rw [Nat.and_one_is_mod]
  rcases Nat.mod_two_eq_zero_or_one n with h | h <;> simp [h]

/-- `is_published` compares a bit with the parity of the lap. -/
theorem isPublished_eq (sh : Shared T) (s : ℕ) :
    sh.isPublished s = ((sh.availability (sh.wordIndex s)).getLsbD (bitIndex s) ==
      decide (s / sh.capacity % 2 = 1)) := by
  simp only [Shared.isPublished, toNat_shiftRight_and_one, and_one_eq_toNat, asUsize_natCast]
  cases (sh.availability (sh.wordIndex s)).getLsbD (bitIndex s) <;>
    cases decide (s / sh.capacity % 2 = 1) <;> rfl

theorem isPublished_iff {sh : Shared T} {cap : ℕ} (h : sh.OneBitPerSlot cap) (s : ℕ) :
    sh.isPublished s = true ↔ Parity.Published cap sh.bit s := by
  rw [Parity.Published, h.bit_mod s, isPublished_eq, h.capacity_eq, beq_iff_eq]

/-! ## Flushes -/

/-- The mask of a flush has the bits of its run, and its run lies in its word. -/
structure Flush.Exact (words : ℕ) (f : Flush) : Prop where
  word : ∀ s, f.first ≤ s → s < f.first + f.len → s / 64 % words = f.word
  mask : ∀ j, j < 64 → (f.mask.getLsbD j = true ↔ ∃ s, f.first ≤ s ∧ s < f.first + f.len ∧ s % 64 = j)

/-- The flushes cover `[a, b)` in order. -/
def Covers (words : ℕ) : ℕ → List Flush → ℕ → Prop
  | a, [], b => a = b
  | a, f :: fs, b => f.first = a ∧ f.Exact words ∧ Covers words (a + f.len) fs b

theorem Covers.append {words a c : ℕ} {fs : List Flush} {f : Flush} (h : Covers words a fs c)
    (hf : f.first = c) (he : f.Exact words) : Covers words a (fs ++ [f]) (c + f.len) := by
  induction fs generalizing a with
  | nil => exact ⟨hf.trans (Eq.symm h), he, by rw [Covers, show a = c from h]⟩
  | cons g fs ih => exact ⟨h.1, h.2.1, ih h.2.2⟩

theorem Covers.le {words a b : ℕ} {fs : List Flush} (h : Covers words a fs b) : a ≤ b := by
  induction fs generalizing a with
  | nil => exact le_of_eq h
  | cons f fs ih => exact le_trans (Nat.le_add_right _ _) (ih h.2.2)

theorem Flush.Exact.mask_eq_zero {words : ℕ} {f : Flush} (h : f.Exact words)
    (hz : f.mask = 0#64) : f.len = 0 := by
  by_contra hlen
  have := (h.mask (f.first % 64) (Nat.mod_lt _ (by decide))).2
    ⟨f.first, le_rfl, by omega, rfl⟩
  rw [hz, BitVec.getLsbD_zero] at this
  exact absurd this (by decide)

theorem Flush.exact_empty (words w a : ℕ) : (⟨w, 0#64, a, 0⟩ : Flush).Exact words where
  word := fun s h1 h2 => by
    exact absurd (lt_of_le_of_lt h1 h2) (lt_irrefl a)
  mask := fun j _ => by
    simp only [BitVec.getLsbD_zero, Bool.false_eq_true, Nat.add_zero, false_iff, not_exists]
    omega

theorem getLsbD_one_shiftLeft {i j : ℕ} (hj : j < 64) :
    (1#64 <<< i).getLsbD j = decide (i = j) := by
  rw [BitVec.getLsbD_shiftLeft]
  by_cases h : i = j
  · subst h
    simp [hj]
  · rcases Nat.lt_or_ge j i with hlt | hge
    · simp [hlt, h]
    · have hne : j - i ≠ 0 := by omega
      simp [h, hne]

/-- One more sequence of the same word. -/
theorem Flush.Exact.extend {words : ℕ} {f : Flush} (h : f.Exact words)
    (hw : (f.first + f.len) / 64 % words = f.word) :
    ({ f with mask := f.mask ||| 1#64 <<< ((f.first + f.len) % 64), len := f.len + 1 } : Flush).Exact
      words where
  word := fun s h1 h2 => by
    simp only at h1 h2 ⊢
    rcases Nat.lt_or_ge s (f.first + f.len) with hlt | hge
    · exact h.word s h1 hlt
    · obtain rfl : s = f.first + f.len := by omega
      exact hw
  mask := fun j hj => by
    simp only [BitVec.getLsbD_or, Bool.or_eq_true, getLsbD_one_shiftLeft hj, decide_eq_true_eq,
      h.mask j hj]
    constructor
    · rintro (⟨s, h1, h2, h3⟩ | rfl)
      · exact ⟨s, h1, by omega, h3⟩
      · exact ⟨f.first + f.len, by omega, by omega, rfl⟩
    · rintro ⟨s, h1, h2, h3⟩
      rcases Nat.lt_or_ge s (f.first + f.len) with hlt | hge
      · exact Or.inl ⟨s, h1, hlt, h3⟩
      · obtain rfl : s = f.first + f.len := by omega
        exact Or.inr h3

/-- The `fetch_xor` of `mark_published` as a flush of one sequence. -/
theorem Flush.exact_single (sh : Shared T) (s : ℕ) :
    (⟨sh.wordIndex s, 1#64 <<< bitIndex s, s, 1⟩ : Flush).Exact sh.availabilityWords := by
  have h := (Flush.exact_empty sh.availabilityWords (sh.wordIndex s) s).extend rfl
  simpa only [bitIndex_natCast, BitVec.zero_or, Nat.add_zero, Nat.zero_add] using h

/-- The loop invariant of `mark_published_batch` after `i` turns. -/
structure BatchLoop.Ok (words a i : ℕ) (l : BatchLoop) : Prop where
  covers : Covers words a l.flushed l.current.first
  exact : l.current.Exact words
  reached : l.current.first + l.current.len = a + i

theorem BatchLoop.Ok.flush {words a i : ℕ} {l : BatchLoop} (h : l.Ok words a i) :
    Covers words a l.flush (a + i) := by
  unfold BatchLoop.flush
  rw [← h.reached]
  split_ifs with hz
  · exact h.covers.append rfl h.exact
  · rw [h.exact.mask_eq_zero (not_not.1 hz), Nat.add_zero]
    exact h.covers

theorem BatchLoop.Ok.step {sh : Shared T} {a i : ℕ} {l : BatchLoop}
    (h : l.Ok sh.availabilityWords a i) :
    (BatchLoop.step sh a l i).Ok sh.availabilityWords a (i + 1) := by
  have key : ∀ m : BatchLoop, m.Ok sh.availabilityWords a i → (a + i) / 64 % sh.availabilityWords = m.current.word →
      ({ m with current := { m.current with
        mask := m.current.mask ||| 1#64 <<< ((a + i) % 64), len := m.current.len + 1 } } :
          BatchLoop).Ok sh.availabilityWords a (i + 1) := by
    intro m hm hw
    rw [← hm.reached] at hw ⊢
    exact ⟨hm.covers, hm.exact.extend hw, by
      have := hm.reached
      simp only
      omega⟩
  have hidx : sh.wordIndex ((a : ℤ) + (i : ℤ)) = (a + i) / 64 % sh.availabilityWords := by
    rw [← Nat.cast_add, wordIndex_natCast]
  have hbit : bitIndex ((a : ℤ) + (i : ℤ)) = (a + i) % 64 := by
    rw [← Nat.cast_add, bitIndex_natCast]
  unfold BatchLoop.step
  simp only [hidx, hbit, asUsize_natCast_add]
  split_ifs with hw
  · refine key { current := ⟨(a + i) / 64 % sh.availabilityWords, 0#64, a + i, 0⟩, flushed := l.flush } ?_ rfl
    exact ⟨h.flush, Flush.exact_empty _ _ _, rfl⟩
  · exact key l h (not_not.1 hw)

theorem BatchLoop.ok_foldl (sh : Shared T) (a n : ℕ) :
    ((List.range n).foldl (BatchLoop.step sh a)
      { current := ⟨sh.wordIndex a, 0#64, asUsize a, 0⟩, flushed := [] }).Ok sh.availabilityWords a n := by
  induction n with
  | zero => exact ⟨rfl, Flush.exact_empty _ _ _, rfl⟩
  | succ n ih =>
    rw [List.range_succ, List.foldl_append]
    exact ih.step

/-- The `fetch_xor`s of a batch publish its sequences in order, each exactly once. -/
theorem covers_batchFlushes (sh : Shared T) (a count : ℕ) :
    Covers sh.availabilityWords a (sh.batchFlushes a count) (a + count) := by
  unfold Shared.batchFlushes
  split_ifs with hc
  · rw [hc]
    rfl
  · exact (BatchLoop.ok_foldl sh a count).flush

/-- Within a window of one lap, a flush flips exactly the bits of its run. -/
theorem Flush.bit_fetchXor {sh : Shared T} {cap a : ℕ} (h : sh.OneBitPerSlot cap) {f : Flush}
    (hf : f.Exact sh.availabilityWords) (lo : a ≤ f.first ∨ f.len = 0)
    (hi : f.first + f.len ≤ a + cap ∨ f.len = 0) {s : ℕ} (hs : a ≤ s) (hs' : s < a + cap) :
    (sh.fetchXor f.word f.mask).bit (s % cap) =
      (sh.bit (s % cap) ^^ decide (f.first ≤ s ∧ s < f.first + f.len)) := by
  have h' : (sh.fetchXor f.word f.mask).OneBitPerSlot cap := ⟨h.capacity_eq, h.words, h.pos⟩
  rw [h'.bit_mod, h.bit_mod]
  have hidx : (sh.fetchXor f.word f.mask).wordIndex s = sh.wordIndex s := rfl
  rw [hidx]
  simp only [Shared.fetchXor, Function.update_apply]
  have h64 : bitIndex s < 64 := Nat.mod_lt _ (by decide)
  split_ifs with hw
  · rw [BitVec.getLsbD_xor, hw]
    congr 1
    rw [Bool.eq_iff_iff, hf.mask _ h64, decide_eq_true_eq]
    constructor
    · rintro ⟨t, h1, h2, h3⟩
      have hmod : t % cap = s % cap := h.mod_eq (by rw [wordIndex_natCast, hf.word t h1 h2, hw]) h3
      obtain rfl := SeqRing.eq_of_mod_eq (a := a) (by omega) (by omega) hs hs' hmod
      exact ⟨h1, h2⟩
    · rintro ⟨h1, h2⟩
      exact ⟨s, h1, h2, rfl⟩
  · have hout : ¬ (f.first ≤ s ∧ s < f.first + f.len) := by
      rintro ⟨h1, h2⟩
      exact hw (by rw [wordIndex_natCast, hf.word s h1 h2])
    simp [hout]

/-! ## The word scan -/

theorem trailingZeros_spec {word : BitVec 64} (h : word ≠ 0#64) :
    trailingZeros word < 64 ∧ word.getLsbD (trailingZeros word) = true ∧
      ∀ j, j < trailingZeros word → word.getLsbD j = false := by
  unfold trailingZeros
  cases hf : (List.range 64).find? fun i => word.getLsbD i with
  | none =>
    exfalso
    apply h
    apply BitVec.eq_of_getLsbD_eq
    intro i hi
    rw [List.find?_eq_none] at hf
    simpa using hf i (List.mem_range.2 hi)
  | some f =>
    rw [List.find?_range_eq_some] at hf
    obtain ⟨hbit, hlt, hmin⟩ := hf
    rw [List.mem_range] at hlt
    exact ⟨hlt, hbit, fun j hj => by simpa using hmin j hj⟩

theorem getLsbD_expectedPattern (sh : Shared T) (s : ℕ) {j : ℕ} (hj : j < 64) :
    (sh.expectedPattern s).getLsbD j = decide (s / sh.capacity % 2 = 1) := by
  simp only [Shared.expectedPattern, asUsize_natCast, Nat.and_one_is_mod]
  rcases Nat.mod_two_eq_zero_or_one (s / sh.capacity) with h | h
  · rw [if_pos h, h, BitVec.getLsbD_zero]
    rfl
  · rw [if_neg (by omega), h, BitVec.getLsbD_allOnes]
    simp [hj]

/-- From the scan's position to the end of its word, a sequence is published iff its bit of the
loaded word does not mismatch. -/
theorem published_iff_match {sh : Shared T} {cap : ℕ} (h : sh.OneBitPerSlot cap) {q t : ℕ}
    (hqt : q ≤ t) (ht : t < q + (64 - q % 64)) :
    Parity.Published cap sh.bit t ↔
      (sh.availability (sh.wordIndex q) ^^^ sh.expectedPattern q).getLsbD (t % 64) = false := by
  have hdiv : t / 64 = q / 64 := by omega
  have hround : t / cap = q / cap := by
    rw [← h.words, ← Nat.div_div_eq_div_mul, ← Nat.div_div_eq_div_mul, hdiv]
  have hword : sh.wordIndex t = sh.wordIndex q := by
    rw [wordIndex_natCast, wordIndex_natCast, hdiv]
  rw [Parity.Published, h.bit_mod, hword, bitIndex_natCast, BitVec.getLsbD_xor,
    getLsbD_expectedPattern sh q (Nat.mod_lt _ (by decide)), h.capacity_eq, hround]
  cases (sh.availability (sh.wordIndex q)).getLsbD (t % 64) <;>
    cases decide (q / cap % 2 = 1) <;> decide

theorem getLsbD_and_allOnes_shiftLeft (word : BitVec 64) {b j : ℕ} (hj : j < 64) :
    (word &&& BitVec.allOnes 64 <<< b).getLsbD j = (word.getLsbD j && decide (b ≤ j)) := by
  rw [BitVec.getLsbD_and, BitVec.getLsbD_shiftLeft, BitVec.getLsbD_allOnes]
  rcases Nat.lt_or_ge j b with hlt | hge
  · simp [hlt, Nat.not_le.2 hlt]
  · have : j - b < 64 := by omega
    simp [hj, hge, this, Nat.not_lt.2 hge]

/-- The first mismatch at or above bit `b`. -/
theorem firstMismatch_spec {word : BitVec 64} {b : ℕ} (h : word &&& BitVec.allOnes 64 <<< b ≠ 0#64) :
    b ≤ trailingZeros (word &&& BitVec.allOnes 64 <<< b) ∧
      trailingZeros (word &&& BitVec.allOnes 64 <<< b) < 64 ∧
      word.getLsbD (trailingZeros (word &&& BitVec.allOnes 64 <<< b)) = true ∧
      ∀ j, b ≤ j → j < trailingZeros (word &&& BitVec.allOnes 64 <<< b) → word.getLsbD j = false := by
  obtain ⟨hlt, hset, hmin⟩ := trailingZeros_spec h
  rw [getLsbD_and_allOnes_shiftLeft _ hlt, Bool.and_eq_true, decide_eq_true_eq] at hset
  refine ⟨hset.2, hlt, hset.1, fun j hb hj => ?_⟩
  have hj' := hmin j hj
  rw [getLsbD_and_allOnes_shiftLeft _ (hj.trans hlt), decide_eq_true hb, Bool.and_true] at hj'
  exact hj'

theorem match_of_and_eq_zero {word : BitVec 64} {b j : ℕ}
    (h : word &&& BitVec.allOnes 64 <<< b = 0#64) (hb : b ≤ j) (hj : j < 64) :
    word.getLsbD j = false := by
  have hj' := getLsbD_and_allOnes_shiftLeft word (b := b) hj
  rw [h, BitVec.getLsbD_zero, decide_eq_true hb, Bool.and_true] at hj'
  exact hj'.symm

/-- The loop variables of a scan that has reached sequence `q`. -/
structure Scan.At (sh : Shared T) (c : Scan) (q : ℕ) : Prop where
  seq : c.seq = q
  word : c.wordIdx = sh.wordIndex q
  bit : c.bitIdx = q % 64

theorem Scan.At.congr {sh sh' : Shared T} {c : Scan} {q : ℕ} (h : c.At sh q)
    (hw : sh'.availabilityWords = sh.availabilityWords) : c.At sh' q :=
  ⟨h.seq, by rw [h.word, wordIndex_natCast, wordIndex_natCast, hw], h.bit⟩

theorem Scan.at_start {sh : Shared T} {a : ℕ} {c : Scan} (h : Scan.start sh a = .inr c) :
    c.At sh a := by
  unfold Scan.start at h
  split_ifs at h
  cases h
  exact ⟨rfl, rfl, rfl⟩

/-- A turn of the scan only passes over published sequences.  It ends before one that is not published, or
with a word that ends at the claim or after it, and otherwise goes on at the next word. -/
theorem Scan.step_spec {sh : Shared T} {cap : ℕ} (h : sh.OneBitPerSlot cap) {c : Scan} {q : ℕ}
    (hc : c.At sh q) :
    (∀ r, c.step sh = .inl r → ∃ n : ℕ, r = (q + n : ℕ) - 1 ∧
      (∀ t, q ≤ t → t < q + n → Parity.Published cap sh.bit t) ∧
      (¬ Parity.Published cap sh.bit (q + n) ∨ 0 < n ∧ c.claim < (q + n : ℕ))) ∧
    (∀ c', c.step sh = .inr c' → ∃ n : ℕ, c'.At sh (q + n) ∧
      (∀ t, q ≤ t → t < q + n → Parity.Published cap sh.bit t) ∧ 0 < n ∧ c'.claim = c.claim) := by
  obtain ⟨hseq, hword, hbit⟩ := hc
  have hq : q % 64 < 64 := Nat.mod_lt _ (by decide)
  unfold Scan.step
  simp only [hseq, hword, hbit]
  set word := sh.availability (sh.wordIndex q) ^^^ sh.expectedPattern q
  have all (hz : ¬ word &&& BitVec.allOnes 64 <<< (q % 64) ≠ 0#64) (t : ℕ) (h1 : q ≤ t)
      (h2 : t < q + (64 - q % 64)) : Parity.Published cap sh.bit t :=
    (published_iff_match h h1 h2).2 (match_of_and_eq_zero (not_not.1 hz) (by omega) (by omega))
  have hlen : ((q : ℤ) + ((bitsPerWord - q % 64 : ℕ) : ℤ)) = ((q + (64 - q % 64) : ℕ) : ℤ) := by
    rw [Nat.cast_add, bitsPerWord]
  split_ifs with hz hend
  · obtain ⟨hge, hlt, hset, hmin⟩ := firstMismatch_spec hz
    set first := trailingZeros (word &&& BitVec.allOnes 64 <<< (q % 64))
    refine ⟨fun r hr => ⟨first - q % 64, ?_, ?_, .inl ?_⟩, nofun⟩
    · cases hr
      rw [Nat.cast_add]
    · intro t h1 h2
      exact (published_iff_match h h1 (by omega)).2 (hmin _ (by omega) (by omega))
    · have hfirst : (q + (first - q % 64)) % 64 = first := by omega
      rw [published_iff_match h (Nat.le_add_right _ _) (by omega), Bool.not_eq_false, hfirst]
      exact hset
  · refine ⟨fun r hr => ⟨64 - q % 64, ?_, all hz, .inr ⟨by omega, hlen ▸ hend⟩⟩, nofun⟩
    cases hr
    rw [hlen]
  · refine ⟨nofun, fun c' hc' => ⟨64 - q % 64, ?_, all hz, by omega, ?_⟩⟩
    · cases hc'
      refine ⟨hlen, ?_, ?_⟩
      · have hdiv : (q + (64 - q % 64)) / 64 = q / 64 + 1 := by omega
        rw [wordIndex_natCast, wordIndex_natCast, hdiv, Nat.mod_add_mod]
      · simp only
        omega
    · cases hc'
      rfl

end Land.Mpsc
