import Land.Mpsc.Bitmap

/-!
# A batch is published as its sequences are

`mark_published_batch` collects the bits of a run of sequences in one mask and flips them with one
`fetch_xor`.  To set a bit in the mask is to flip it as long as the bit is not set yet (`Flush.Exact.fresh`): a
run that comes back to a bit has left its word in between, or the bitmap has one word and the batch has no
more than 64 sequences.  So each turn of the loop does what `mark_published` would (`BatchLoop.published_step`).
-/

namespace Land.Mpsc

open Channel

variable {T : Type}

namespace Shared

/-- `mark_published` for `count` sequences from `start` on, in turn. -/
def markEach (sh : Shared T) (start : ℤ) (count : ℕ) : Shared T :=
  (List.range count).foldl (fun sh (i : ℕ) => sh.markPublished (start + i)) sh

/-- The `fetch_xor`s of some flushes, in a row. -/
def fetchXors (sh : Shared T) (fs : List Flush) : Shared T :=
  fs.foldl (fun sh f => sh.fetchXor f.word f.mask) sh

theorem fetchXor_zero (sh : Shared T) (word : ℕ) : sh.fetchXor word 0#64 = sh := by
  rw [fetchXor, BitVec.xor_zero, Function.update_eq_self]

theorem fetchXor_fetchXor (sh : Shared T) (word : ℕ) (mask mask' : BitVec 64) :
    (sh.fetchXor word mask).fetchXor word mask' = sh.fetchXor word (mask ^^^ mask') := by
  simp only [fetchXor, Function.update_self, Function.update_idem, BitVec.xor_assoc]

theorem availabilityWords_fetchXors (sh : Shared T) (fs : List Flush) :
    (sh.fetchXors fs).availabilityWords = sh.availabilityWords := by
  induction fs generalizing sh with
  | nil => rfl
  | cons f fs ih => exact ih (sh.fetchXor f.word f.mask)

end Shared

/-- A bit that is not set is set by flipping it. -/
theorem or_one_shiftLeft_eq_xor {mask : BitVec 64} {i : ℕ} (h : mask.getLsbD i = false) :
    mask ||| 1#64 <<< i = mask ^^^ 1#64 <<< i := by
  apply BitVec.eq_of_getLsbD_eq
  intro j hj
  rw [BitVec.getLsbD_or, BitVec.getLsbD_xor, getLsbD_one_shiftLeft hj]
  rcases eq_or_ne i j with rfl | hne
  · rw [h, Bool.false_or, Bool.false_xor]
  · rw [decide_eq_false hne, Bool.or_false, Bool.xor_false]

/-- The next sequence of a run has a bit of its own. -/
theorem Flush.Exact.fresh {words : ℕ} {f : Flush} (h : f.Exact words)
    (hw : (f.first + f.len) / 64 % words = f.word) (hfew : words ≠ 1 ∨ f.len < 64) :
    f.mask.getLsbD ((f.first + f.len) % 64) = false := by
  rw [← Bool.not_eq_true, h.mask _ (Nat.mod_lt _ (by decide))]
  rintro ⟨s, hlo, hhi, hbit⟩
  have hlap : s + 64 ≤ f.first + f.len := by omega
  rcases hfew with hwords | hlen
  · -- the sequence 64 later is in the next word, which is another one
    have hnext : (s + 64) / 64 % words = f.word := by
      rcases hlap.lt_or_eq with hlt | heq
      · exact h.word _ (by omega) hlt
      · rw [heq]
        exact hw
    have hsame : s / 64 + 1 ≡ s / 64 + 0 [MOD words] := by
      rw [Nat.ModEq, ← Nat.add_div_right s (by decide : 0 < 64), hnext, Nat.add_zero, h.word s hlo hhi]
    exact hwords (Nat.dvd_one.1 (Nat.modEq_zero_iff_dvd.1 (Nat.ModEq.add_left_cancel' _ hsame)))
  · omega

namespace BatchLoop

/-- The shared state when the loop ends here. -/
def published (l : BatchLoop) (sh : Shared T) : Shared T := sh.fetchXors l.flush

theorem published_eq (l : BatchLoop) (sh : Shared T) :
    l.published sh = (sh.fetchXors l.flushed).fetchXor l.current.word l.current.mask := by
  unfold published flush
  split_ifs with hz
  · rw [Shared.fetchXors, List.foldl_append]
    rfl
  · rw [not_not.1 hz, Shared.fetchXor_zero]

theorem wordIndex_published (l : BatchLoop) (sh : Shared T) (sequence : ℤ) :
    (l.published sh).wordIndex sequence = sh.wordIndex sequence := by
  rw [published, Shared.wordIndex, Shared.availabilityWords_fetchXors, Shared.wordIndex]

/-- A turn of the loop marks one more sequence. -/
theorem published_step {sh : Shared T} {a i : ℕ} {l : BatchLoop} (h : l.Ok sh.availabilityWords a i)
    (hfew : sh.availabilityWords ≠ 1 ∨ i < 64) :
    (step sh a l i).published sh = (l.published sh).markPublished (a + i) := by
  rw [Shared.markPublished, wordIndex_published, published_eq, step]
  split_ifs with hw
  · -- a new word: what was collected is flushed, and the mask begins with this bit
    rw [BitVec.zero_or]
    rfl
  · have hreached := h.reached
    have hword : sh.wordIndex ((a : ℤ) + (i : ℤ)) = (a + i) / 64 % sh.availabilityWords := by
      rw [← Nat.cast_add, wordIndex_natCast]
    have hbit : bitIndex ((a : ℤ) + (i : ℤ)) = (a + i) % 64 := by
      rw [← Nat.cast_add, bitIndex_natCast]
    have hfresh : l.current.mask.getLsbD ((a + i) % 64) = false := by
      rw [← hreached]
      apply h.exact.fresh
      · rw [hreached, ← hword]
        exact not_not.1 hw
      · exact hfew.imp_right fun hi => by
          have := h.covers.le
          omega
    rw [published_eq, not_not.1 hw, Shared.fetchXor_fetchXor, hbit, or_one_shiftLeft_eq_xor hfresh]

/-- The first `n` turns mark the first `n` sequences. -/
theorem published_foldl {sh : Shared T} {a n : ℕ} (hfew : sh.availabilityWords ≠ 1 ∨ n ≤ 64) :
    ((List.range n).foldl (step sh a)
      { current := ⟨sh.wordIndex a, 0#64, asUsize a, 0⟩, flushed := [] }).published sh =
        sh.markEach a n := by
  induction n with
  | zero => rfl
  | succ n ih =>
    rw [Shared.markEach, List.range_succ, List.foldl_append, List.foldl_append]
    have hstep := published_step (ok_foldl sh a n) (hfew.imp_right Nat.lt_of_succ_le)
    rw [ih (hfew.imp_right Nat.le_of_succ_le)] at hstep
    exact hstep

end BatchLoop

/-- The bitmap of an accepted capacity has more than one word, or the capacity is no more than a word. -/
theorem words_of_createShared {cap : ℕ} {factory : Option T} {sh : Shared T}
    (h : createShared cap factory = some sh) : sh.availabilityWords ≠ 1 ∨ cap ≤ 64 := by
  simp only [createShared, Option.map_eq_some_iff] at h
  obtain ⟨buffer, -, rfl⟩ := h
  simp only [bitsPerWord]
  omega

/-- In a channel of any capacity that the constructor accepts, whatever the words are, a batch of no more than
the capacity is published as its sequences one by one are. -/
theorem markPublishedBatch_eq_markEach {cap : ℕ} {factory : Option T} {created : Shared T}
    (hcreated : createShared cap factory = some created) {sh : Shared T}
    (hwords : sh.availabilityWords = created.availabilityWords) {start : ℤ} (hstart : 0 ≤ start)
    {count : ℕ} (hcount : count ≤ cap) :
    sh.markPublishedBatch start count = sh.markEach start count := by
  obtain ⟨a, rfl⟩ := Int.eq_ofNat_of_zero_le hstart
  have hfew : sh.availabilityWords ≠ 1 ∨ count ≤ 64 := by
    rw [hwords]
    exact (words_of_createShared hcreated).imp_right hcount.trans
  rw [← BatchLoop.published_foldl hfew, Shared.markPublishedBatch, Shared.batchFlushes]
  split_ifs with hzero
  · rw [hzero]
    rfl
  · rfl

/-- A batch that fills a channel of 128 slots from the middle of a word on, and comes back to that word. -/
theorem markPublishedBatch_eq_markEach_wrap : ∃ sh : Shared ℕ, createShared 128 none = some sh ∧
    sh.wordIndex 100 = sh.wordIndex 227 ∧ sh.markPublishedBatch 100 128 = sh.markEach 100 128 := by
  obtain ⟨sh, hsh⟩ : ∃ sh, createShared 128 (none : Option ℕ) = some sh := ⟨_, rfl⟩
  refine ⟨sh, hsh, ?_, markPublishedBatch_eq_markEach hsh rfl (by decide) le_rfl⟩
  cases hsh
  rfl

end Land.Mpsc
