import Land.Lib.ParityWindow
import Land.Channel.RingBuffer

/-!
# Shared state of an MPSC channel

The state shared by the producers and the consumer (`channel/src/mpsc/shared.rs`), the constructor
`create_shared`, and the availability bitmap: one parity bit per slot, read by `isPublished` and by
the word scan of `highest_published`, flipped by `markPublished` and, a word at a time, by
`mark_published_batch`.

Both loops are given by their bodies.  A turn of the scan loads one word (`Scan.step`); the batch
loop is run to the list of its `fetch_xor`s (`batchFlushes`).  So that other threads can be
interleaved with every single atomic access.
-/

namespace Land.Mpsc

open Channel

/-- `BITS_PER_WORD`. -/
def bitsPerWord : ℕ := 64

/-- `Shared<T>`, with the strong count of the `Arc` that holds it. -/
structure Shared (T : Type) where
  buffer : RingBuffer T
  claimCursor : ℤ
  consumerCursor : ℤ
  availability : ℕ → BitVec 64
  availabilityWords : ℕ
  producerCount : ℕ
  closed : Bool
  capacity : ℕ
  strongCount : ℕ

variable {T : Type}

/-- `create_shared`; `none` is the panic of the ring buffer's constructor. -/
def createShared (capacity : ℕ) (factory : Option T) : Option (Shared T) :=
  (RingBuffer.new capacity factory).map fun buffer =>
    { buffer := buffer
      claimCursor := initialCursorValue
      consumerCursor := initialCursorValue
      availability := fun _ => BitVec.allOnes 64
      availabilityWords := (capacity + bitsPerWord - 1) / bitsPerWord
      producerCount := 1
      closed := false
      capacity := capacity
      strongCount := 2 }

/-- `bit_index`. -/
def bitIndex (sequence : ℤ) : ℕ := asUsize sequence % bitsPerWord

/-- `u64::trailing_zeros`. -/
def trailingZeros (word : BitVec 64) : ℕ := ((List.range 64).find? fun i => word.getLsbD i).getD 64

namespace Shared

/-- `word_index`. -/
def wordIndex (sh : Shared T) (sequence : ℤ) : ℕ :=
  asUsize sequence / bitsPerWord % sh.availabilityWords

/-- `is_published`. -/
def isPublished (sh : Shared T) (sequence : ℤ) : Bool :=
  let word := sh.availability (sh.wordIndex sequence)
  let expectedBit := asUsize sequence / sh.capacity &&& 1
  let actualBit := ((word >>> bitIndex sequence) &&& 1#64).toNat
  actualBit == expectedBit

/-- `availability[word].fetch_xor(mask)`. -/
def fetchXor (sh : Shared T) (word : ℕ) (mask : BitVec 64) : Shared T :=
  { sh with availability := Function.update sh.availability word (sh.availability word ^^^ mask) }

/-- `mark_published`. -/
def markPublished (sh : Shared T) (sequence : ℤ) : Shared T :=
  sh.fetchXor (sh.wordIndex sequence) (1#64 <<< bitIndex sequence)

/-- `expected_pattern`. -/
def expectedPattern (sh : Shared T) (sequence : ℤ) : BitVec 64 :=
  let round := asUsize sequence / sh.capacity
  if round &&& 1 = 0 then 0#64 else BitVec.allOnes 64

/-- `is_disconnected` of a producer.  Its loads are taken together: a caller's own handle keeps
`producer_count` positive, so the answer is the first load, that of `closed`. -/
def isDisconnected (sh : Shared T) : Bool :=
  sh.closed || (sh.producerCount == 0 && sh.strongCount == 1)

end Shared

/-! ## Batched publication -/

/-- A `fetch_xor` of `mark_published_batch`, and the run of sequences whose bits it flips. -/
structure Flush where
  word : ℕ
  mask : BitVec 64
  first : ℕ
  len : ℕ
  deriving Repr, DecidableEq

/-- The loop variables of `mark_published_batch`: `flip_mask` and `current_word_idx` in `current`,
and the flushes made so far. -/
structure BatchLoop where
  current : Flush
  flushed : List Flush

/-- Flush the accumulated bits, unless there are none. -/
def BatchLoop.flush (l : BatchLoop) : List Flush :=
  if l.current.mask ≠ 0#64 then l.flushed ++ [l.current] else l.flushed

/-- The body of the loop for the sequence `start + i`. -/
def BatchLoop.step (sh : Shared T) (start : ℤ) (l : BatchLoop) (i : ℕ) : BatchLoop :=
  let seq := start + i
  let wordIdx := sh.wordIndex seq
  let bitIdx := bitIndex seq
  let l := if wordIdx ≠ l.current.word then
      { current := ⟨wordIdx, 0#64, asUsize seq, 0⟩, flushed := l.flush }
    else l
  { l with current :=
    { l.current with mask := l.current.mask ||| 1#64 <<< bitIdx, len := l.current.len + 1 } }

/-- The `fetch_xor`s of `mark_published_batch(start, count)`, in order. -/
def Shared.batchFlushes (sh : Shared T) (start : ℤ) (count : ℕ) : List Flush :=
  if count = 0 then []
  else ((List.range count).foldl (BatchLoop.step sh start)
    { current := ⟨sh.wordIndex start, 0#64, asUsize start, 0⟩, flushed := [] }).flush

/-- `mark_published_batch`, all its `fetch_xor`s in a row. -/
def Shared.markPublishedBatch (sh : Shared T) (start : ℤ) (count : ℕ) : Shared T :=
  (sh.batchFlushes start count).foldl (fun sh f => sh.fetchXor f.word f.mask) sh

/-! ## The word scan -/

/-- The loop variables of `highest_published`. -/
structure Scan where
  claim : ℤ
  seq : ℤ
  wordIdx : ℕ
  bitIdx : ℕ
  deriving Repr, DecidableEq

/-- `highest_published(from)` up to its loop: it has loaded the claim cursor, and returns or enters
the loop. -/
def Scan.start (sh : Shared T) (origin : ℤ) : ℤ ⊕ Scan :=
  if origin > sh.claimCursor then .inl (origin - 1)
  else .inr ⟨sh.claimCursor, origin, sh.wordIndex origin, bitIndex origin⟩

/-- A turn of the loop of `highest_published`: it loads one word, and breaks with a result or goes
on with the next word. -/
def Scan.step (sh : Shared T) (c : Scan) : ℤ ⊕ Scan :=
  let word := sh.availability c.wordIdx
  let expected := sh.expectedPattern c.seq
  let mismatches := word ^^^ expected
  let mask := BitVec.allOnes 64 <<< c.bitIdx
  let relevantMismatches := mismatches &&& mask
  if relevantMismatches ≠ 0#64 then
    let firstMismatchBit := trailingZeros relevantMismatches
    let advance := firstMismatchBit - c.bitIdx
    .inl (c.seq + advance - 1)
  else
    let bitsChecked := bitsPerWord - c.bitIdx
    let seq := c.seq + bitsChecked
    if seq > c.claim then .inl (seq - 1)
    else .inr ⟨c.claim, seq, (c.wordIdx + 1) % sh.availabilityWords, 0⟩

end Land.Mpsc
