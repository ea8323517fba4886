import Land.Sync.SeqLock
import Land.Leader.Words

/-!
# Consistent snapshots

`LeaderBuffer::try_read` and `try_read_all` (`leader/src/leader_buffer.rs`) next to the writer, word by
word, and what a read that returns `Some` returns, there and in a `SeqLock`: the data after some of the
completed writes, and never older data than the read before.
-/

namespace Land.Leader

open Versioned

/-- The calls of a reader. -/
inductive ReadCall where
  | tryRead (position : Fin leaderBufferSize)
  | tryReadAll

/-- What a call returns in `Some`. -/
inductive Value where
  | entry (e : LeaderEntry)
  | entries (es : Entries)

/-- The words of `LeaderBuffer::new`. -/
def newWords : Address → BitVec 64
  | .entry _ w => LeaderEntry.empty.word w
  | .currentSlot => 0

/-- The addresses of an entry. -/
def entryAddresses (position : ℕ) : List Address := EntryWord.all.map (.entry position)

/-- `LeaderBuffer::new()` and its operations. -/
def leaderBuffer : Protocol Address (BitVec 64) WriteCall ReadCall Value where
  initial := newWords
  skips := WriteCall.skips
  stores := fun c m => c.stores m
  program
    | .tryRead position =>
        .copy newWords (fun copied => .entry (entriesOf copied position)) (entryAddresses position)
    | .tryReadAll =>
        .copy newWords (fun copied => .entries (entriesOf copied))
          ((List.range leaderBufferSize).flatMap entryAddresses)

/-- The buffer after some calls. -/
def bufferAfter (calls : List WriteCall) : LeaderBuffer := calls.foldl WriteCall.apply .new

/-- What a call returns if nothing interferes. -/
def ReadCall.value (entries : Entries) : ReadCall → Value
  | tryRead position => .entry (entries position)
  | tryReadAll => .entries entries

theorem entriesOf_contents (calls : List WriteCall) :
    entriesOf (leaderBuffer.contents calls) = (bufferAfter calls).entries := by
  induction calls using List.reverseRecOn with
  | nil =>
    funext i
    exact LeaderEntry.ofWords_word (e := .empty) (by decide)
  | append_singleton calls c ih =>
    rw [Protocol.contents_append, bufferAfter, List.foldl_append]
    exact entriesOf_stores _ ih c

theorem leaderBuffer_eval (m : Address → BitVec 64) (q : ReadCall) :
    (leaderBuffer.program q).eval m = q.value (entriesOf m) := by
  cases q with
  | tryRead position =>
    refine (Prog.eval_copy _ _ _ _).trans (congrArg Value.entry ?_)
    refine congrArg LeaderEntry.ofWords (funext fun w => if_pos ?_)
    exact List.mem_map.2 ⟨w, w.mem_all, rfl⟩
  | tryReadAll =>
    refine (Prog.eval_copy _ _ _ _).trans (congrArg Value.entries (funext fun i => ?_))
    refine congrArg LeaderEntry.ofWords (funext fun w => if_pos ?_)
    exact List.mem_flatMap.2 ⟨i, List.mem_range.2 i.isLt, List.mem_map.2 ⟨w, w.mem_all, rfl⟩⟩

/-- Whatever a read returns is what it would return alone on the data after some of the completed writes,
and the reads of one reader do not go back. -/
theorem reads_consistent :
    (∀ (n : ℕ) (W R ι : Type) [DecidableEq ι] (value : Fin n → W) s,
      ((Sync.seqLock (R := R) value).system (2 ^ 64) ι).ReachableVia
        (fun s a => s.fewWrites (2 ^ 63) a = true) s →
      ∀ i, ∃ ks : List ℕ, ks.Pairwise (· ≤ ·) ∧ (∀ k ∈ ks, k ≤ s.completed.length) ∧
        List.Forall₂ (fun k p => p.2 = p.1.value (Sync.dataAfter value (s.completed.take k))) ks
          (s.readers i).returned) ∧
    (∀ (ι : Type) [DecidableEq ι] s,
      (leaderBuffer.system (2 ^ 64) ι).ReachableVia (fun s a => s.fewWrites (2 ^ 63) a = true) s →
      ∀ i, ∃ ks : List ℕ, ks.Pairwise (· ≤ ·) ∧ (∀ k ∈ ks, k ≤ s.completed.length) ∧
        List.Forall₂ (fun k p => p.2 = p.1.value (bufferAfter (s.completed.take k)).entries) ks
          (s.readers i).returned) := by
  constructor
  · intro n W R ι _ value s hs i
    obtain ⟨ks, hsorted, hle, hreads⟩ := exists_stamps (n := 2 ^ 63) (by decide) hs i
    refine ⟨ks, hsorted, hle, hreads.imp fun k p hp => ?_⟩
    rw [hp, Sync.seqLock_eval, Sync.seqLock_contents]
  · intro ι _ s hs i
    obtain ⟨ks, hsorted, hle, hreads⟩ := exists_stamps (n := 2 ^ 63) (by decide) hs i
    refine ⟨ks, hsorted, hle, hreads.imp fun k p hp => ?_⟩
    rw [hp, leaderBuffer_eval, entriesOf_contents]

/-- A write comes between the loads of a read, which returns `None`; then the read is made again. -/
def retriedRead {C Q : Type} (c : C) (q : Q) (stores loads : ℕ) : List (Action C Q Unit) :=
  .read () q :: .readerStep () :: .readerStep () ::
    .write c :: List.replicate (stores + 4) .writerStep ++
    List.replicate loads (.readerStep ()) ++
    .read () q :: List.replicate (loads + 2) (.readerStep ())

/-- Data of two words. -/
def twoOnes : Fin 2 → ℕ := fun _ => 1

theorem reads_consistent_retried :
    (∃ s, ((Sync.seqLock (R := ℕ) twoOnes).system (2 ^ 64) Unit).ReachableVia
        (fun s a => s.fewWrites (2 ^ 63) a = true) s ∧
      ∃ ks : List ℕ, List.Forall₂ (fun k p => p.2 = p.1.value
        (Sync.dataAfter twoOnes (s.completed.take k))) ks (s.readers ()).returned ∧
      ks.length = 1) ∧
    (∃ s, (leaderBuffer.system (2 ^ 64) Unit).ReachableVia
        (fun s a => s.fewWrites (2 ^ 63) a = true) s ∧
      ∃ ks : List ℕ, List.Forall₂ (fun k p => p.2 = p.1.value
        (bufferAfter (s.completed.take k)).entries) ks (s.readers ()).returned ∧ ks.length = 1) := by
  constructor
  · have hmap : (((Sync.seqLock (R := ℕ) twoOnes).system (2 ^ 64) Unit).runVia
        (fun s a => s.fewWrites (2 ^ 63) a) (Sync.seqLock twoOnes).start
        (retriedRead (.write fun i => 7 + i) .tryRead 2 2)).map
          (fun s => (s.readers ()).returned.length) = some 1 := by decide +kernel
    obtain ⟨s, hrun, hlen⟩ := Option.map_eq_some_iff.1 hmap
    have hs := System.ReachableVia.runVia (fun _ _ h => h) (.init rfl) hrun
    obtain ⟨ks, -, -, hreads⟩ := reads_consistent.1 2 ℕ ℕ Unit _ s hs ()
    exact ⟨s, hs, ks, hreads, hreads.length_eq.trans hlen⟩
  · have hmap : ((leaderBuffer.system (2 ^ 64) Unit).runVia
        (fun s a => s.fewWrites (2 ^ 63) a) leaderBuffer.start
        (retriedRead (.shiftAndAppend .empty 100) (.tryRead ⟨9, by decide⟩) 91 9)).map
          (fun s => (s.readers ()).returned.length) = some 1 := by decide +kernel
    obtain ⟨s, hrun, hlen⟩ := Option.map_eq_some_iff.1 hmap
    have hs := System.ReachableVia.runVia (fun _ _ h => h) (.init rfl) hrun
    obtain ⟨ks, -, -, hreads⟩ := reads_consistent.2 Unit s hs ()
    exact ⟨s, hs, ks, hreads, hreads.length_eq.trans hlen⟩

end Land.Leader
