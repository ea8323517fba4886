import Land.Lib.Transition
import Land.Lib.SequencedRing
import Land.Mpsc.Shared

/-!
# The MPSC channel as a transition system

The operations of the producers (`mpsc/producer.rs`, `mpsc/batch.rs`) and of the consumer
(`mpsc/consumer.rs`), cut at their atomic accesses: a step of a thread is one load, store,
`fetch_add`, compare-exchange, `fetch_xor` or slot access, with the local computation around it.  An
action of the system is a call by an idle thread or the next step of a thread inside a call, so a run
is an interleaving.

Producer `p` is one line of activity with a handle of its own.  A thread that sends while it holds a
batch, or threads that share one `&Producer`, are several producers here; they differ from clones in
`producer_count` and the strong count alone.  The strong count changes together with the access next
to it: it decides nothing, since a caller's own handle keeps `producer_count` positive.  Cursors are
unbounded integers, so the overflow of an `i64` cursor is left out, and so is a `poll` whose handler
panics.

`ring` is the history of the channel (a `SeqRing`): it records what the steps do and no step looks at
it.  An event is taken when its slot is read.  A batch hands out references to the present contents of
its slots, which is what is published for a slot that is not written.
-/

namespace Land.Mpsc

open Channel

variable {T : Type}

/-- The history of a channel; `none` stands for memory that was never written. -/
abbrev History (T : Type) := SeqRing ℕ (Option T)

/-- What a producer claims sequences for: one event (`send`, `try_send`), or a batch of slots
(`claim_batch`, `try_claim_batch`). -/
inductive Payload (T : Type) where
  | event (v : T)
  | batch (n : ℕ)

/-- The number of sequences claimed. -/
def Payload.count : Payload T → ℕ
  | event _ => 1
  | batch n => n

/-- Where a producer thread is. -/
inductive Producer (T : Type) where
  /-- no handle: not cloned yet, or dropped -/
  | absent
  | idle
  /-- `is_disconnected` on entry -/
  | check (blocking : Bool) (what : Payload T)
  /-- `claim_cursor.increment()` or `claim_cursor.add(n)` -/
  | claim (what : Payload T)
  /-- the head of the waiting loop, for a claim that ends at `endSequence` -/
  | awaitSpace (what : Payload T) (endSequence : ℤ)
  /-- `is_disconnected` in the waiting loop -/
  | recheck (what : Payload T) (endSequence : ℤ)
  /-- the load of `claim_cursor` in the `attempt`-th of the eight attempts -/
  | tryLoad (what : Payload T) (attempt : ℕ)
  /-- the load of `consumer_cursor` -/
  | trySpace (what : Payload T) (attempt : ℕ) (current : ℤ)
  | tryCas (what : Payload T) (attempt : ℕ) (current : ℤ)
  /-- there is space for the claim: write the event, or hand out the batch -/
  | fill (what : Payload T) (endSequence : ℤ)
  | publish (sequence : ℤ)
  /-- the thread holds a `MpscBatchSlots` -/
  | holding (start : ℤ) (count : ℕ)
  /-- the `fetch_xor`s of `mark_published_batch` still to be done -/
  | flushing (rest : List Flush)
  /-- `producer_count.fetch_sub(1)` of `drop` -/
  | dropping
  /-- the last producer's store to `closed` -/
  | closing

/-- The number of attempts of `try_claim_sequence` and `try_claim_batch`. -/
def maxAttempts : ℕ := 8

/-- The next atomic step of producer `p` inside a call. -/
def Producer.step (sh : Shared T) (R : History T) (p : ℕ) :
    Producer T → Option (Shared T × Producer T × History T)
  | .absent => none
  | .idle => none
  | .check blocking what =>
      if sh.isDisconnected then some (sh, .idle, R)
      else if blocking then some (sh, .claim what, R)
      else some (sh, .tryLoad what 0, R)
  | .claim what =>
      let endSequence := sh.claimCursor + what.count
      some ({ sh with claimCursor := endSequence }, .awaitSpace what endSequence,
        R.claim p what.count)
  | .awaitSpace what endSequence =>
      let wrapPoint := endSequence - sh.capacity
      if sh.consumerCursor < wrapPoint then some (sh, .recheck what endSequence, R)
      else some (sh, .fill what endSequence, R)
  | .recheck what endSequence =>
      if sh.isDisconnected then some (sh, .idle, R)
      else some (sh, .awaitSpace what endSequence, R)
  | .tryLoad what attempt => some (sh, .trySpace what attempt sh.claimCursor, R)
  | .trySpace what attempt current =>
      let next := current + what.count
      let wrapPoint := next - sh.capacity
      if sh.consumerCursor < wrapPoint then some (sh, .idle, R)
      else some (sh, .tryCas what attempt current, R)
  | .tryCas what attempt current =>
      let next := current + what.count
      if sh.claimCursor = current then
        some ({ sh with claimCursor := next }, .fill what next, R.claim p what.count)
      else if attempt + 1 < maxAttempts then some (sh, .tryLoad what (attempt + 1), R)
      else some (sh, .idle, R)
  | .fill (.event v) sequence =>
      some ({ sh with buffer := sh.buffer.write sequence v }, .publish sequence,
        R.write sh.capacity p (asUsize sequence) (some v))
  | .fill (.batch n) endSequence =>
      let start := endSequence - n + 1
      some (sh, .holding start n, R.acquire sh.capacity p (asUsize start) n)
  | .publish sequence =>
      some (sh.markPublished sequence, .idle, R.publish (asUsize sequence) 1)
  | .holding _ _ => none
  | .flushing [] => some (sh, .idle, R)
  | .flushing (f :: rest) =>
      some (sh.fetchXor f.word f.mask, .flushing rest, R.publish f.first f.len)
  | .dropping =>
      let prev := sh.producerCount
      let sh := { sh with producerCount := sh.producerCount - 1 }
      if prev = 1 then some (sh, .closing, R)
      else some ({ sh with strongCount := sh.strongCount - 1 }, .absent, R)
  | .closing => some ({ sh with closed := true, strongCount := sh.strongCount - 1 }, .absent, R)

/-- A call by a producer thread. -/
inductive ProducerCall (T : Type) where
  | send (event : T)
  | trySend (event : T)
  | claimBatch (n : ℕ)
  | tryClaimBatch (n : ℕ)
  /-- `*batch.get_mut(index) = v` -/
  | setSlot (index : ℕ) (v : T)
  /-- `batch.publish()`, or the batch is dropped -/
  | publishBatch
  | close
  | drop

/-- Start a call; `none` when the thread cannot make it, or the call panics on an assertion. -/
def Producer.call (sh : Shared T) (R : History T) (p : ℕ) :
    Producer T → ProducerCall T → Option (Shared T × Producer T × History T)
  | .idle, .send event => some (sh, .check true (.event event), R)
  | .idle, .trySend event => some (sh, .check false (.event event), R)
  | .idle, .claimBatch n =>
      if 0 < n ∧ n ≤ sh.capacity then some (sh, .check true (.batch n), R) else none
  | .idle, .tryClaimBatch n =>
      if 0 < n ∧ n ≤ sh.capacity then some (sh, .check false (.batch n), R) else none
  | .idle, .close => some ({ sh with closed := true }, .idle, R)
  | .idle, .drop => some (sh, .dropping, R)
  | .holding start count, .setSlot index v =>
      if index < count then
        some ({ sh with buffer := sh.buffer.write (start + index) v }, .holding start count,
          R.write sh.capacity p (asUsize (start + index)) (some v))
      else none
  | .holding start count, .publishBatch => some (sh, .flushing (sh.batchFlushes start count), R)
  | _, _ => none

/-- The receiving operations that look at one sequence. -/
inductive Single where
  | recv
  | tryRecv
  | peek

/-- The operations that scan for the highest published sequence; `recv_batch` and
`try_recv_batch` have an output slice of the given length. -/
inductive Batch where
  | recvBatch (len : ℕ)
  | tryRecvBatch (len : ℕ)
  | poll
  | pending

/-- Where the consumer thread is. -/
inductive ConsumerPc where
  | absent
  | idle
  /-- `is_published(next_sequence)` -/
  | check (op : Single)
  /-- `is_disconnected` -/
  | disconnected (op : Single)
  /-- the final check of `recv` -/
  | finalCheck
  /-- `buffer.read(next_sequence)` -/
  | read
  /-- `consumer_cursor.set_relaxed(next_sequence)` -/
  | store
  /-- the load of `claim_cursor` in `highest_published` -/
  | scanStart (op : Batch)
  | scan (op : Batch) (c : Scan)
  /-- `is_disconnected` after a scan that found nothing -/
  | batchDisconnected (op : Batch)
  /-- the loop over the `count` slots of a batch, and the store of the cursor after it -/
  | batchRead (op : Batch) (count i : ℕ)

/-- `Consumer<T>`. -/
structure Consumer where
  nextSequence : ℤ
  pc : ConsumerPc

/-- What a batch operation does with the result of `highest_published`. -/
def Consumer.afterScan (c : Consumer) (op : Batch) (highest : ℤ) : Consumer :=
  if highest ≥ c.nextSequence then
    let available := asUsize (highest - c.nextSequence + 1)
    match op with
    | .recvBatch len => { c with pc := .batchRead op (min available len) 0 }
    | .tryRecvBatch len => { c with pc := .batchRead op (min available len) 0 }
    | .poll => { c with pc := .batchRead op available 0 }
    | .pending => { c with pc := .idle }
  else
    match op with
    | .recvBatch _ => { c with pc := .batchDisconnected op }
    | .tryRecvBatch _ => { c with pc := .batchDisconnected op }
    | .poll => { c with pc := .idle }
    | .pending => { c with pc := .idle }

/-- The slot access of a batch: `poll` looks at the event, the others move it out. -/
def Batch.access (op : Batch) (b : RingBuffer T) (sequence : ℤ) : Option T × RingBuffer T :=
  match op with
  | .poll => (b.get sequence, b)
  | _ => b.read sequence

/-- The next atomic step of the consumer inside a call. -/
def Consumer.step (sh : Shared T) (R : History T) (c : Consumer) :
    Option (Shared T × Consumer × History T) :=
  match c.pc with
  | .absent => none
  | .idle => none
  | .check op =>
      if sh.isPublished c.nextSequence then
        match op with
        | .peek => some (sh, { c with pc := .idle }, R)
        | _ => some (sh, { c with pc := .read }, R)
      else some (sh, { c with pc := .disconnected op }, R)
  | .disconnected op =>
      match op with
      | .recv =>
          if sh.closed then some (sh, { c with pc := .finalCheck }, R)
          else some (sh, { c with pc := .check .recv }, R)
      | _ => some (sh, { c with pc := .idle }, R)
  | .finalCheck =>
      if sh.isPublished c.nextSequence then some (sh, { c with pc := .check .recv }, R)
      else some (sh, { c with pc := .idle }, R)
  | .read =>
      let r := sh.buffer.read c.nextSequence
      some ({ sh with buffer := r.2 }, { c with pc := .store }, R.take r.1)
  | .store =>
      some ({ sh with consumerCursor := c.nextSequence },
        { nextSequence := c.nextSequence + 1, pc := .idle },
        R.release (asUsize (c.nextSequence + 1)))
  | .scanStart op =>
      match Scan.start sh c.nextSequence with
      | .inl highest => some (sh, c.afterScan op highest, R)
      | .inr scan => some (sh, { c with pc := .scan op scan }, R)
  | .scan op scan =>
      match scan.step sh with
      | .inl highest => some (sh, c.afterScan op highest, R)
      | .inr scan => some (sh, { c with pc := .scan op scan }, R)
  | .batchDisconnected op =>
      match op with
      | .recvBatch _ =>
          if sh.closed then some (sh, { c with pc := .idle }, R)
          else some (sh, { c with pc := .scanStart op }, R)
      | _ => some (sh, { c with pc := .idle }, R)
  | .batchRead op count i =>
      if i < count then
        let r := op.access sh.buffer (c.nextSequence + i)
        some ({ sh with buffer := r.2 }, { c with pc := .batchRead op count (i + 1) }, R.take r.1)
      else
        let lastSeq := c.nextSequence + count - 1
        some ({ sh with consumerCursor := lastSeq },
          { nextSequence := c.nextSequence + count, pc := .idle },
          R.release (asUsize (lastSeq + 1)))

/-- A call by the consumer thread. -/
inductive ConsumerCall where
  | single (op : Single)
  | batch (op : Batch)
  | close
  | drop

/-- Start a call of the consumer. -/
def Consumer.call (sh : Shared T) (c : Consumer) (call : ConsumerCall) :
    Option (Shared T × Consumer) :=
  match c.pc, call with
  | .idle, .single op => some (sh, { c with pc := .check op })
  | .idle, .batch op =>
      match op with
      | .recvBatch 0 => some (sh, c)
      | .tryRecvBatch 0 => some (sh, c)
      | _ => some (sh, { c with pc := .scanStart op })
  | .idle, .close => some ({ sh with closed := true }, c)
  | .idle, .drop =>
      some ({ sh with closed := true, strongCount := sh.strongCount - 1 }, { c with pc := .absent })
  | _, _ => none

/-- A channel with its producers and its consumer. -/
structure State (T : Type) where
  shared : Shared T
  producers : ℕ → Producer T
  consumer : Consumer
  ring : History T

/-- A call, the next step of a thread inside a call, or a clone of the handle of `p` for the new
thread `q`. -/
inductive Action (T : Type) where
  | call (p : ℕ) (call : ProducerCall T)
  | step (p : ℕ)
  | clone (p q : ℕ)
  | consumerCall (call : ConsumerCall)
  | consumerStep

/-- The state after producer `p` moved. -/
def State.setProducer (s : State T) (p : ℕ) (r : Shared T × Producer T × History T) : State T :=
  { s with shared := r.1, producers := Function.update s.producers p r.2.1, ring := r.2.2 }

/-- One action. -/
def State.next (s : State T) : Action T → Option (State T)
  | .call p call => (Producer.call s.shared s.ring p (s.producers p) call).map (s.setProducer p)
  | .step p => (Producer.step s.shared s.ring p (s.producers p)).map (s.setProducer p)
  | .clone p q =>
      match s.producers p, s.producers q with
      | .idle, .absent =>
          some { s with
            shared := { s.shared with
              producerCount := s.shared.producerCount + 1
              strongCount := s.shared.strongCount + 1 }
            producers := Function.update s.producers q .idle }
      | _, _ => none
  | .consumerCall call =>
      (s.consumer.call s.shared call).map fun r => { s with shared := r.1, consumer := r.2 }
  | .consumerStep =>
      (s.consumer.step s.shared s.ring).map fun r =>
        { s with shared := r.1, consumer := r.2.1, ring := r.2.2 }

/-- The state made by `channel`, `channel_with_wait` or `channel_with_factory`. -/
def State.initial (sh : Shared T) : State T where
  shared := sh
  producers := Function.update (fun _ => .absent) 0 .idle
  consumer := { nextSequence := 0, pc := .idle }
  ring := SeqRing.start fun j => (sh.buffer.slots j).bits

/-- An MPSC channel of the given capacity. -/
def system (T : Type) (cap : ℕ) : System (State T) (Action T) where
  init := fun s => ∃ factory sh, createShared cap factory = some sh ∧ s = State.initial sh
  step := State.next

end Land.Mpsc
