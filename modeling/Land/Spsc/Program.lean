import Land.Lib.Transition
import Land.Lib.SequencedRing
import Land.Channel.RingBuffer
import Land.Channel.WaitStrategy

/-!
# The SPSC channel as a transition system

The operations of the producer (`spsc/producer.rs`, `spsc/batch.rs`) and of the consumer
(`spsc/consumer.rs`, `barrier.rs`), cut at their atomic accesses as for the MPSC channel.  The two
loads of `is_disconnected` are steps of their own, and so are the store to `closed` and the release of
the `Arc` when a handle is dropped.

`ring` is the history of the channel; no step looks at it.  A sequence counts as claimed when the
producer has found space for it.  Cursors are unbounded integers, and a batch is published or
dropped, never forgotten.
-/

namespace Land.Spsc

open Channel

variable {T : Type}

/-- The history of a channel; `none` stands for memory that was never written. -/
abbrev History (T : Type) := SeqRing Unit (Option T)

/-- `Shared<T>`, with the strong count of the `Arc` that holds it. -/
structure Shared (T : Type) where
  buffer : RingBuffer T
  producerCursor : ℤ
  consumerCursor : ℤ
  closed : Bool
  strongCount : ℕ

/-! ## The producer -/

/-- The sending operations. -/
inductive SendOp (T : Type) where
  | send (event : T)
  | trySend (event : T)
  | claim
  | tryClaim
  | claimBatch (n : ℕ)
  | tryClaimBatch (n : ℕ)

namespace SendOp

/-- The number of slots needed. -/
def count : SendOp T → ℕ
  | claimBatch n => n
  | tryClaimBatch n => n
  | _ => 1

/-- The operations that wait for space. -/
def blocking : SendOp T → Bool
  | send _ => true
  | claim => true
  | claimBatch _ => true
  | _ => false

/-- Whether the cached consumer position is looked at before the cursor; `try_claim_batch` always
reloads. -/
def usesCache : SendOp T → Bool
  | tryClaimBatch _ => false
  | _ => true

end SendOp

/-- Where the producer thread is. -/
inductive ProducerPc (T : Type) where
  | absent
  | idle
  /-- the load of `closed` in `is_disconnected`, on entry or in the waiting loop -/
  | loadClosed (op : SendOp T) (waiting : Bool)
  /-- the load of the strong count -/
  | loadCount (op : SendOp T) (waiting : Bool)
  /-- the load of `consumer_cursor` -/
  | reload (op : SendOp T)
  /-- there is space: write the event, or hand out the slots -/
  | fill (op : SendOp T)
  /-- `producer_cursor.set(next_sequence)` of a send -/
  | publish
  /-- a `BatchSlots` is out -/
  | holding (start : ℤ) (count : ℕ)
  /-- the release of the `Arc` after `drop` closed the channel -/
  | dropping

/-- `Producer<T>`. -/
structure Producer (T : Type) where
  cachedConsumer : ℤ
  nextSequence : ℤ
  capacity : ℤ
  claimed : Bool
  cachedDisconnected : Bool
  pc : ProducerPc T

/-- `wrap_point`: the consumer must have reached it. -/
def Producer.wrapPoint (P : Producer T) (op : SendOp T) : ℤ :=
  P.nextSequence + op.count - 1 - P.capacity

/-- `is_disconnected` answered no: look for space, or go on waiting. -/
def Producer.connected (P : Producer T) (R : History T) (op : SendOp T) (waiting : Bool) :
    Producer T × History T :=
  if waiting = false ∧ op.usesCache ∧ P.cachedConsumer ≥ P.wrapPoint op then
    ({ P with pc := .fill op }, R.claim () op.count)
  else ({ P with pc := .reload op }, R)

/-- The next atomic step of the producer inside a call. -/
def Producer.step (sh : Shared T) (R : History T) (P : Producer T) :
    Option (Shared T × Producer T × History T) :=
  match P.pc with
  | .absent => none
  | .idle => none
  | .loadClosed op waiting =>
      if P.cachedDisconnected then some (sh, { P with pc := .idle }, R)
      else if sh.closed then some (sh, { P with cachedDisconnected := true, pc := .idle }, R)
      else some (sh, { P with pc := .loadCount op waiting }, R)
  | .loadCount op waiting =>
      if sh.strongCount = 1 then some (sh, { P with cachedDisconnected := true, pc := .idle }, R)
      else some (sh, P.connected R op waiting)
  | .reload op =>
      let P := { P with cachedConsumer := sh.consumerCursor }
      if P.cachedConsumer ≥ P.wrapPoint op then
        some (sh, { P with pc := .fill op }, R.claim () op.count)
      else if op.blocking then some (sh, { P with pc := .loadClosed op true }, R)
      else some (sh, { P with pc := .idle }, R)
  | .fill op =>
      let next := P.nextSequence
      match op with
      | .send event | .trySend event =>
          some ({ sh with buffer := sh.buffer.write next event }, { P with pc := .publish },
            R.write (asUsize P.capacity) () (asUsize next) (some event))
      | .claim | .tryClaim =>
          some (sh, { P with claimed := true, pc := .idle },
            R.acquire (asUsize P.capacity) () (asUsize next) 1)
      | .claimBatch n | .tryClaimBatch n =>
          some (sh, { P with nextSequence := next + n, pc := .holding next n },
            R.acquire (asUsize P.capacity) () (asUsize next) n)
  | .publish =>
      some ({ sh with producerCursor := P.nextSequence },
        { P with nextSequence := P.nextSequence + 1, pc := .idle },
        R.publish (asUsize P.nextSequence) 1)
  | .holding _ _ => none
  | .dropping => some ({ sh with strongCount := sh.strongCount - 1 }, { P with pc := .absent }, R)

/-- A call by the producer thread, or what it does with the slots it was handed. -/
inductive ProducerCall (T : Type) where
  | start (op : SendOp T)
  /-- `*slot = v` for the slot of `claim` -/
  | setClaimed (v : T)
  | publish
  /-- `*batch.get_mut(index) = v` -/
  | setSlot (index : ℕ) (v : T)
  /-- `batch.publish()`, or the batch is dropped -/
  | publishBatch
  | close
  | drop

/-- Start a call; `none` when the thread cannot make it, or the call panics on an assertion. -/
def Producer.call (sh : Shared T) (R : History T) (P : Producer T) (call : ProducerCall T) :
    Option (Shared T × Producer T × History T) :=
  match P.pc, call with
  | .idle, .start op =>
      if P.claimed = false ∧ 0 < op.count ∧ (op.count : ℤ) ≤ P.capacity then
        some (sh, { P with pc := .loadClosed op false }, R)
      else none
  | .idle, .setClaimed v =>
      if P.claimed then
        some ({ sh with buffer := sh.buffer.write P.nextSequence v }, P,
          R.write (asUsize P.capacity) () (asUsize P.nextSequence) (some v))
      else none
  | .idle, .publish =>
      if P.claimed then
        some ({ sh with producerCursor := P.nextSequence },
          { P with nextSequence := P.nextSequence + 1, claimed := false },
          R.publish (asUsize P.nextSequence) 1)
      else none
  | .idle, .close => some ({ sh with closed := true }, P, R)
  | .idle, .drop => some ({ sh with closed := true }, { P with pc := .dropping }, R)
  | .holding start count, .setSlot index v =>
      if index < count then
        some ({ sh with buffer := sh.buffer.write (start + index) v }, P,
          R.write (asUsize P.capacity) () (asUsize (start + index)) (some v))
      else none
  | .holding start count, .publishBatch =>
      some ({ sh with producerCursor := start + count - 1 }, { P with pc := .idle },
        R.publish (asUsize start) count)
  | _, _ => none

/-! ## The consumer -/

/-- The receiving operations; `recv_batch` and `try_recv_batch` have an output slice of the given
length. -/
inductive RecvOp where
  | recv
  | tryRecv
  | peek
  | poll
  | recvBatch (len : ℕ)
  | tryRecvBatch (len : ℕ)
  | recvAll

/-- The operations that wait for an event. -/
def RecvOp.blocking : RecvOp → Bool
  | recv => true
  | recvBatch _ => true
  | recvAll => true
  | _ => false

/-- Where the consumer thread is. -/
inductive ConsumerPc where
  | absent
  | idle
  /-- the load of `producer_cursor` -/
  | check (op : RecvOp)
  /-- the load of `closed` in `is_disconnected` -/
  | loadClosed (op : RecvOp)
  /-- the load of the strong count -/
  | loadCount (op : RecvOp)
  /-- the final check for pending events -/
  | finalCheck (op : RecvOp)
  /-- inside `SequenceBarrier::wait_for` -/
  | waitFor (op : RecvOp) (l : WaitLoop)
  /-- the loop over the `count` slots to take, and the store of the cursor after it -/
  | take (op : RecvOp) (count i : ℕ)
  /-- the release of the `Arc` after `drop` closed the channel -/
  | dropping

/-- `Consumer<T, W>`. -/
structure Consumer where
  nextSequence : ℤ
  waitStrategy : WaitStrategy
  cachedDisconnected : Bool
  pc : ConsumerPc

/-- Events up to `available` are there. -/
def Consumer.received (c : Consumer) (op : RecvOp) (available : ℤ) : Consumer :=
  let count := asUsize (available - c.nextSequence + 1)
  match op with
  | .recv | .tryRecv => { c with pc := .take op 1 0 }
  | .peek => { c with pc := .idle }
  | .poll | .recvAll => { c with pc := .take op count 0 }
  | .recvBatch len | .tryRecvBatch len => { c with pc := .take op (min len count) 0 }

/-- The slot access: `poll` looks at the event, the others move it out. -/
def RecvOp.access (op : RecvOp) (b : RingBuffer T) (sequence : ℤ) : Option T × RingBuffer T :=
  match op with
  | .poll => (b.get sequence, b)
  | _ => b.read sequence

/-- `is_disconnected` answered: a blocking operation makes its final check or waits, the others
return. -/
def Consumer.answered (c : Consumer) (op : RecvOp) (disconnected : Bool) : Consumer :=
  if op.blocking then
    if disconnected then { c with pc := .finalCheck op }
    else { c with pc := .waitFor op c.waitStrategy.enter }
  else { c with pc := .idle }

/-- The next atomic step of the consumer inside a call. -/
def Consumer.step (sh : Shared T) (R : History T) (c : Consumer) :
    Option (Shared T × Consumer × History T) :=
  match c.pc with
  | .absent => none
  | .idle => none
  | .check op =>
      let available := sh.producerCursor
      if available ≥ c.nextSequence then some (sh, c.received op available, R)
      else
        match op with
        | .poll => some (sh, { c with pc := .idle }, R)
        | _ => some (sh, { c with pc := .loadClosed op }, R)
  | .loadClosed op =>
      if c.cachedDisconnected then some (sh, c.answered op true, R)
      else if sh.closed then some (sh, { c with cachedDisconnected := true }.answered op true, R)
      else some (sh, { c with pc := .loadCount op }, R)
  | .loadCount op =>
      if sh.strongCount = 1 then
        some (sh, { c with cachedDisconnected := true }.answered op true, R)
      else some (sh, c.answered op false, R)
  | .finalCheck op =>
      if sh.producerCursor ≥ c.nextSequence then some (sh, { c with pc := .check op }, R)
      else some (sh, { c with pc := .idle }, R)
  | .waitFor op l =>
      match c.waitStrategy.turn c.nextSequence sh.producerCursor l with
      | none => some (sh, { c with pc := .check op }, R)
      | some l => some (sh, { c with pc := .waitFor op l }, R)
  | .take op count i =>
      if i < count then
        let r := op.access sh.buffer (c.nextSequence + i)
        some ({ sh with buffer := r.2 }, { c with pc := .take op count (i + 1) }, R.take r.1)
      else
        let lastSeq := c.nextSequence + count - 1
        some ({ sh with consumerCursor := lastSeq },
          { c with nextSequence := c.nextSequence + count, pc := .idle },
          R.release (asUsize (lastSeq + 1)))
  | .dropping => some ({ sh with strongCount := sh.strongCount - 1 }, { c with pc := .absent }, R)

/-- A call by the consumer thread. -/
inductive ConsumerCall where
  | start (op : RecvOp)
  | close
  | drop

/-- Start a call of the consumer. -/
def Consumer.call (sh : Shared T) (c : Consumer) (call : ConsumerCall) :
    Option (Shared T × Consumer) :=
  match c.pc, call with
  | .idle, .start op =>
      match op with
      | .recvBatch 0 => some (sh, c)
      | .tryRecvBatch 0 => some (sh, c)
      | _ => some (sh, { c with pc := .check op })
  | .idle, .close => some ({ sh with closed := true }, c)
  | .idle, .drop => some ({ sh with closed := true }, { c with pc := .dropping })
  | _, _ => none

/-! ## The channel -/

/-- A channel with its two handles. -/
structure State (T : Type) where
  shared : Shared T
  producer : Producer T
  consumer : Consumer
  ring : History T

/-- A call, or the next step of a thread inside a call. -/
inductive Action (T : Type) where
  | producerCall (call : ProducerCall T)
  | producerStep
  | consumerCall (call : ConsumerCall)
  | consumerStep

/-- The state after the producer moved. -/
def State.setProducer (s : State T) (r : Shared T × Producer T × History T) : State T :=
  { s with shared := r.1, producer := r.2.1, ring := r.2.2 }

/-- The state after the consumer moved. -/
def State.setConsumer (s : State T) (r : Shared T × Consumer × History T) : State T :=
  { s with shared := r.1, consumer := r.2.1, ring := r.2.2 }

/-- One action. -/
def State.next (s : State T) : Action T → Option (State T)
  | .producerCall call => (s.producer.call s.shared s.ring call).map s.setProducer
  | .producerStep => (s.producer.step s.shared s.ring).map s.setProducer
  | .consumerCall call =>
      (s.consumer.call s.shared call).map fun r => s.setConsumer (r.1, r.2, s.ring)
  | .consumerStep => (s.consumer.step s.shared s.ring).map s.setConsumer

/-- The state made by `channel`, `channel_with_wait` or `channel_with_factory` over a buffer. -/
def State.initial (buffer : RingBuffer T) (capacity : ℕ) (waitStrategy : WaitStrategy) :
    State T where
  shared :=
    { buffer := buffer
      producerCursor := initialCursorValue
      consumerCursor := initialCursorValue
      closed := false
      strongCount := 2 }
  producer :=
    { cachedConsumer := initialCursorValue
      nextSequence := 0
      capacity := capacity
      claimed := false
      cachedDisconnected := false
      pc := .idle }
  consumer :=
    { nextSequence := 0
      waitStrategy := waitStrategy
      cachedDisconnected := false
      pc := .idle }
  ring := SeqRing.start fun j => (buffer.slots j).bits

/-- An SPSC channel of the given capacity and wait strategy. -/
def system (T : Type) (cap : ℕ) (w : WaitStrategy) : System (State T) (Action T) where
  init := fun s => ∃ factory b, RingBuffer.new cap factory = some b ∧ s = State.initial b cap w
  step := State.next

end Land.Spsc
