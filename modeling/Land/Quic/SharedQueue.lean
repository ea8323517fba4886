import Land.Lib.Transition
import Land.Quic.TransactionQueue

/-!
# The transaction queue between two threads

`TransactionQueue` with one producer that calls `try_enqueue` and one consumer that calls `try_dequeue`
or `drain`: every access to `count`, `head` and `tail`, and every write to or read of a slot, is one
step.  Both sides reserve with `count`, the producer before it writes the slot and the consumer before it
copies the slot out, so a reservation can come before the other side is done with the slot.
-/

namespace Land.Quic.SharedQueue

variable {N : ℕ}

/-- `fetch_add(1)` on a `usize`. -/
def incr (n : ℕ) : ℕ := if n = 2 ^ 64 - 1 then 0 else n + 1

/-- `fetch_sub(1)` on a `usize`. -/
def decr (n : ℕ) : ℕ := if n = 0 then 2 ^ 64 - 1 else n - 1

/-- Where the producer is in `try_enqueue`, and what it holds there. -/
inductive ProducerPc where
  | idle
  | loadCount (data : Bytes)
  | fetchAdd (data : Bytes)
  | fetchSub (data : Bytes)
  | loadHead (data : Bytes) (currentCount : ℕ)
  | writeBuffer (data : Bytes) (currentCount slot : ℕ)
  | writeLength (data : Bytes) (currentCount slot : ℕ)
  | commitHead (data : Bytes) (currentCount : ℕ)
  deriving DecidableEq

/-- Where the consumer is in `try_dequeue`, called by `drain` or not. -/
inductive ConsumerPc where
  | idle
  | loadCount (drain : Bool)
  | fetchSub (drain : Bool)
  | fetchAdd (drain : Bool)
  | loadTail (drain : Bool)
  | readLength (drain : Bool) (slot : ℕ)
  | copyBuffer (drain : Bool) (slot len : ℕ)
  | commitTail (drain : Bool) (buf : Bytes) (len : ℕ)
  deriving DecidableEq

/-- The queue, the two threads, the answers of `try_enqueue` and what `try_dequeue` returned. -/
structure State (N : ℕ) where
  queue : TransactionQueue N
  producer : ProducerPc
  consumer : ConsumerPc
  answers : List (Bytes × SendStatus)
  returned : List Bytes

/-- What happens next. -/
inductive Action where
  | enqueue (data : Bytes)
  | producerStep
  | dequeue (drain : Bool)
  | consumerStep

namespace State

/-- `try_enqueue` returns. -/
def answer (s : State N) (data : Bytes) (status : SendStatus) : State N :=
  { s with producer := .idle, answers := s.answers ++ [(data, status)] }

/-- `try_enqueue` is called. -/
def enqueue (s : State N) (data : Bytes) : Option (State N) :=
  match s.producer with
  | .idle =>
      if data.length > maxPacketSize then some (s.answer data (.dead 0))
      else some { s with producer := .loadCount data }
  | _ => none

/-- One step of `try_enqueue`. -/
def produce (s : State N) : Option (State N) :=
  match s.producer with
  | .idle => none
  | .loadCount data =>
      if s.queue.count ≥ N then some (s.answer data .queueFull)
      else some { s with producer := .fetchAdd data }
  | .fetchAdd data =>
      if s.queue.count ≥ N then
        some { s with
          queue := { s.queue with count := incr s.queue.count }, producer := .fetchSub data }
      else
        some { s with
          queue := { s.queue with count := incr s.queue.count }
          producer := .loadHead data s.queue.count }
  | .fetchSub data =>
      some (State.answer { s with queue := { s.queue with count := decr s.queue.count } } data
        .queueFull)
  | .loadHead data currentCount =>
      some { s with producer := .writeBuffer data currentCount (s.queue.head % N) }
  | .writeBuffer data currentCount slot =>
      some { s with
        queue := { s.queue with
          buffers := Function.update s.queue.buffers slot
            (data ++ (s.queue.buffers slot).drop data.length) }
        producer := .writeLength data currentCount slot }
  | .writeLength data currentCount slot =>
      some { s with
        queue := { s.queue with
          lengths := Function.update s.queue.lengths slot (data.length % 2 ^ 16) }
        producer := .commitHead data currentCount }
  | .commitHead data currentCount =>
      some (State.answer { s with queue := { s.queue with head := incr s.queue.head } } data
        (.queued (currentCount % 2 ^ 8)))

/-- `try_dequeue` or `drain` is called. -/
def dequeue (s : State N) (drain : Bool) : Option (State N) :=
  match s.consumer with
  | .idle => some { s with consumer := .loadCount drain }
  | _ => none

/-- One step of `try_dequeue`; `drain` calls it again until there is nothing. -/
def consume (s : State N) : Option (State N) :=
  match s.consumer with
  | .idle => none
  | .loadCount drain =>
      if s.queue.count = 0 then some { s with consumer := .idle }
      else some { s with consumer := .fetchSub drain }
  | .fetchSub drain =>
      if s.queue.count = 0 then
        some { s with
          queue := { s.queue with count := decr s.queue.count }, consumer := .fetchAdd drain }
      else
        some { s with
          queue := { s.queue with count := decr s.queue.count }, consumer := .loadTail drain }
  | .fetchAdd _ =>
      some { s with queue := { s.queue with count := incr s.queue.count }, consumer := .idle }
  | .loadTail drain => some { s with consumer := .readLength drain (s.queue.tail % N) }
  | .readLength drain slot =>
      some { s with consumer := .copyBuffer drain slot (s.queue.lengths slot) }
  | .copyBuffer drain slot len =>
      some { s with consumer := .commitTail drain (s.queue.buffers slot) len }
  | .commitTail drain buf len =>
      some { s with
        queue := { s.queue with tail := incr s.queue.tail }
        consumer := if drain then .loadCount drain else .idle
        returned := s.returned ++ [buf.take len] }

/-- One action. -/
def next (s : State N) : Action → Option (State N)
  | .enqueue data => s.enqueue data
  | .producerStep => s.produce
  | .dequeue drain => s.dequeue drain
  | .consumerStep => s.consume

/-- `TransactionQueue::new`. -/
def initial : State N where
  queue := .new
  producer := .idle
  consumer := .idle
  answers := []
  returned := []

end State

/-- The queue under any interleaving of its two threads. -/
def system (N : ℕ) : System (State N) Action where
  init := fun s => s = .initial
  step := State.next

/-! ## What has been done to the slots -/

/-- The transaction of a call that has reserved and will answer `Queued`. -/
def ProducerPc.reserved : ProducerPc → Option Bytes
  | loadHead data _ => some data
  | writeBuffer data _ _ => some data
  | writeLength data _ _ => some data
  | commitHead data _ => some data
  | _ => none

/-- A call that is between its reservation and the end of `try_dequeue`. -/
def ConsumerPc.reserved : ConsumerPc → Bool
  | loadTail _ => true
  | readLength _ _ => true
  | copyBuffer _ _ _ => true
  | commitTail _ _ _ => true
  | _ => false

/-- The next step reads the slot. -/
def ConsumerPc.reads : ConsumerPc → Bool
  | readLength _ _ => true
  | copyBuffer _ _ _ => true
  | _ => false

/-- The slot of the `n`th transaction. -/
def slotOf (N n : ℕ) : ℕ := n % 2 ^ 64 % N

namespace State

/-- The transactions for which `try_enqueue` returned `Queued`. -/
def queued (s : State N) : List Bytes :=
  s.answers.filterMap fun p => match p.2 with
    | .queued _ => some p.1
    | _ => none

/-- The transactions for which it returned or will return `Queued`. -/
def sent (s : State N) : List Bytes := s.queued ++ s.producer.reserved.toList

/-- How many transactions are fully written. -/
def written (s : State N) : ℕ :=
  s.queued.length + match s.producer with
    | .commitHead _ _ => 1
    | _ => 0

/-- How many transactions have been written at least in part. -/
def begun (s : State N) : ℕ :=
  s.queued.length + match s.producer with
    | .writeLength _ _ _ => 1
    | .commitHead _ _ => 1
    | _ => 0

/-- How many transactions are copied out. -/
def copied (s : State N) : ℕ :=
  s.returned.length + match s.consumer with
    | .commitTail _ _ _ => 1
    | _ => 0

/-- How many transactions the consumer has reserved. -/
def taken (s : State N) : ℕ := s.returned.length + s.consumer.reserved.toNat

/-- The next transaction to return is fully written and its slot is not reused. -/
def Readable (s : State N) : Prop :=
  s.returned.length < s.written ∧
    ∀ n, s.returned.length < n → n < s.begun → slotOf N n ≠ slotOf N s.returned.length

/-- The action reserves too early: `try_enqueue` while a transaction that is not copied out is in the
slot, or `try_dequeue` while the transaction is not fully written. -/
def unready (s : State N) : Action → Bool
  | .producerStep =>
      match s.producer with
      | .fetchAdd _ => decide (s.queue.count < N) && (List.range s.queued.length).any fun n =>
          decide (s.copied ≤ n) && decide (slotOf N n = slotOf N s.queued.length)
      | _ => false
  | .consumerStep =>
      match s.consumer with
      | .fetchSub _ => decide (0 < s.queue.count) && decide (s.written ≤ s.returned.length)
      | _ => false
  | _ => false

theorem queued_answer_queued (s : State N) (data : Bytes) (position : ℕ) :
    (s.answer data (.queued position)).queued = s.queued ++ [data] := by
  simp [answer, queued]

theorem queued_answer_of_ne (s : State N) (data : Bytes) {status : SendStatus}
    (h : ∀ position, status ≠ .queued position) : (s.answer data status).queued = s.queued := by
  cases status with
  | queued position => exact absurd rfl (h position)
  | _ => simp [answer, queued]

theorem sent_length (s : State N) :
    s.sent.length = s.queued.length + s.producer.reserved.isSome.toNat := by
  unfold sent
  cases s.producer.reserved <;> simp

end State

/-! ## The counters

`count` is the difference of the reservations in every run, so the second checks always pass. -/

theorem incr_eq {n : ℕ} (h : n + 1 < 2 ^ 64) : incr n = n + 1 := if_neg (by omega)

theorem decr_eq {n : ℕ} (h : 0 < n) : decr n = n - 1 := if_neg h.ne'

theorem incr_mod (n : ℕ) : incr (n % 2 ^ 64) = (n + 1) % 2 ^ 64 := by
  unfold incr
  split_ifs <;> omega

/-- What the producer knows about `count`, its data and its slot. -/
def ProducerPc.Ok (N count n : ℕ) : ProducerPc → Prop
  | idle => True
  | loadCount data => data.length ≤ maxPacketSize
  | fetchAdd data => data.length ≤ maxPacketSize ∧ count < N
  | fetchSub _ => False
  | loadHead data _ => data.length ≤ maxPacketSize
  | writeBuffer data _ slot => data.length ≤ maxPacketSize ∧ slot = slotOf N n
  | writeLength data _ slot => data.length ≤ maxPacketSize ∧ slot = slotOf N n
  | commitHead data _ => data.length ≤ maxPacketSize

/-- What the consumer knows about `count` and its slot. -/
def ConsumerPc.Ok (N count n : ℕ) : ConsumerPc → Prop
  | fetchSub _ => 0 < count
  | fetchAdd _ => False
  | readLength _ slot => slot = slotOf N n
  | copyBuffer _ slot _ => slot = slotOf N n
  | _ => True

theorem ProducerPc.Ok.mono {P : ProducerPc} {count count' n : ℕ} (h : P.Ok N count n)
    (hc : count' ≤ count) : P.Ok N count' n := by
  cases P with
  | fetchAdd data => exact ⟨h.1, hc.trans_lt h.2⟩
  | _ => exact h

theorem ConsumerPc.Ok.mono {C : ConsumerPc} {count count' n : ℕ} (h : C.Ok N count n)
    (hc : count ≤ count') : C.Ok N count' n := by
  cases C with
  | fetchSub drain => exact Nat.lt_of_lt_of_le h hc
  | _ => exact h

/-- The counters after `m` answers `Queued` and `r` transactions returned. -/
structure Counts (N count head tail : ℕ) (P : ProducerPc) (C : ConsumerPc) (m r : ℕ) : Prop where
  count_eq : count + (r + C.reserved.toNat) = m + P.reserved.isSome.toNat
  count_le : count ≤ N
  head_eq : head = m % 2 ^ 64
  tail_eq : tail = r % 2 ^ 64
  producer : P.Ok N count m
  consumer : C.Ok N count r

/-- `Counts` of a state. -/
def State.Counts (s : State N) : Prop :=
  SharedQueue.Counts N s.queue.count s.queue.head s.queue.tail s.producer s.consumer s.queued.length
    s.returned.length

section Counts

variable {s s' : State N}

theorem State.counts_initial : (initial : State N).Counts :=
  ⟨rfl, Nat.zero_le N, rfl, rfl, trivial, trivial⟩

theorem State.Counts.answer_of_ne (h : s.Counts) (data : Bytes) {status : SendStatus}
    (hstatus : ∀ position, status ≠ .queued position) (hr : s.producer.reserved = none) :
    (s.answer data status).Counts := by
  have hcount := h.count_eq
  rw [hr] at hcount
  unfold State.Counts
  rw [queued_answer_of_ne s data hstatus]
  exact ⟨hcount, h.count_le, h.head_eq, h.tail_eq, trivial, h.consumer⟩

theorem State.Counts.enqueue {data : Bytes} (h : s.Counts) (hs : s.enqueue data = some s') :
    s'.Counts := by
  unfold State.enqueue at hs
  cases hp : s.producer with
  | idle =>
    simp only [hp] at hs
    split_ifs at hs with hlen <;> cases hs
    · exact h.answer_of_ne data nofun (by rw [hp]; rfl)
    · have hcount := h.count_eq
      rw [hp] at hcount
      exact ⟨hcount, h.count_le, h.head_eq, h.tail_eq, not_lt.1 hlen, h.consumer⟩
  | _ =>
    simp only [hp] at hs
    cases hs

theorem State.Counts.produce (hN : N < 2 ^ 64) (h : s.Counts) (hs : s.produce = some s') :
    s'.Counts := by
  obtain ⟨hcount, hle, hhead, htail, hP, hC⟩ := h
  unfold State.produce at hs
  cases hp : s.producer with
  | idle =>
    simp only [hp] at hs
    cases hs
  | loadCount data =>
    simp only [hp] at hs hP
    split_ifs at hs with hfull <;> cases hs
    · exact State.Counts.answer_of_ne ⟨hcount, hle, hhead, htail, hp ▸ hP, hC⟩ data nofun
        (by rw [hp]; rfl)
    · rw [hp] at hcount
      exact ⟨hcount, hle, hhead, htail, ⟨hP, not_le.1 hfull⟩, hC⟩
  | fetchAdd data =>
    simp only [hp] at hs
    rw [hp] at hP hcount
    obtain ⟨hlen, hlt⟩ := hP
    rw [if_neg (not_le.2 hlt), incr_eq (show s.queue.count + 1 < 2 ^ 64 by omega)] at hs
    cases hs
    refine ⟨?_, hlt, hhead, htail, hlen, hC.mono (Nat.le_succ _)⟩
    change s.queue.count + (s.returned.length + s.consumer.reserved.toNat) = s.queued.length at hcount
    show s.queue.count + 1 + (s.returned.length + s.consumer.reserved.toNat) = s.queued.length + 1
    omega
  | fetchSub data =>
    rw [hp] at hP
    exact hP.elim
  | loadHead data currentCount =>
    simp only [hp] at hs
    rw [hp] at hP hcount
    cases hs
    exact ⟨hcount, hle, hhead, htail, ⟨hP, congrArg (· % N) hhead⟩, hC⟩
  | writeBuffer data currentCount slot | writeLength data currentCount slot =>
    simp only [hp] at hs
    rw [hp] at hP hcount
    cases hs
    first
    | exact ⟨hcount, hle, hhead, htail, hP, hC⟩
    | exact ⟨hcount, hle, hhead, htail, hP.1, hC⟩
  | commitHead data currentCount =>
    simp only [hp] at hs
    rw [hp] at hP hcount
    cases hs
    unfold State.Counts
    rw [queued_answer_queued, List.length_append]
    refine ⟨hcount, hle, ?_, htail, trivial, hC⟩
    show incr s.queue.head = _
    rw [hhead]
    exact incr_mod _

theorem State.Counts.dequeue {drain : Bool} (h : s.Counts) (hs : s.dequeue drain = some s') :
    s'.Counts := by
  unfold State.dequeue at hs
  cases hc : s.consumer with
  | idle =>
    simp only [hc] at hs
    cases hs
    have hcount := h.count_eq
    rw [hc] at hcount
    exact ⟨hcount, h.count_le, h.head_eq, h.tail_eq, h.producer, trivial⟩
  | _ =>
    simp only [hc] at hs
    cases hs

theorem State.Counts.consume (h : s.Counts) (hs : s.consume = some s') : s'.Counts := by
  obtain ⟨hcount, hle, hhead, htail, hP, hC⟩ := h
  unfold State.consume at hs
  cases hc : s.consumer with
  | idle =>
    simp only [hc] at hs
    cases hs
  | loadCount drain =>
    simp only [hc] at hs
    rw [hc] at hcount
    split_ifs at hs with hzero <;> cases hs
    · exact ⟨hcount, hle, hhead, htail, hP, trivial⟩
    · exact ⟨hcount, hle, hhead, htail, hP, Nat.pos_of_ne_zero hzero⟩
  | fetchSub drain =>
    simp only [hc] at hs
    rw [hc] at hC hcount
    have hpos : 0 < s.queue.count := hC
    rw [if_neg hpos.ne', decr_eq hpos] at hs
    cases hs
    refine ⟨?_, (Nat.sub_le _ _).trans hle, hhead, htail, hP.mono (Nat.sub_le _ _), trivial⟩
    change s.queue.count + s.returned.length = s.queued.length + s.producer.reserved.isSome.toNat
      at hcount
    show s.queue.count - 1 + (s.returned.length + 1) =
      s.queued.length + s.producer.reserved.isSome.toNat
    omega
  | fetchAdd drain =>
    rw [hc] at hC
    exact hC.elim
  | loadTail drain =>
    simp only [hc] at hs
    rw [hc] at hcount
    cases hs
    exact ⟨hcount, hle, hhead, htail, hP, congrArg (· % N) htail⟩
  | readLength drain slot =>
    simp only [hc] at hs
    rw [hc] at hC hcount
    cases hs
    exact ⟨hcount, hle, hhead, htail, hP, hC⟩
  | copyBuffer drain slot len =>
    simp only [hc] at hs
    rw [hc] at hcount
    cases hs
    exact ⟨hcount, hle, hhead, htail, hP, trivial⟩
  | commitTail drain buf len =>
    simp only [hc] at hs
    rw [hc] at hcount
    cases hs
    have hlen : (s.returned ++ [buf.take len]).length = s.returned.length + 1 := by simp
    have htail' : incr s.queue.tail = (s.returned.length + 1) % 2 ^ 64 := by
      rw [htail]
      exact incr_mod _
    unfold State.Counts
    dsimp only
    rw [hlen]
    cases drain with
    | true => exact ⟨hcount, hle, hhead, htail', hP, trivial⟩
    | false => exact ⟨hcount, hle, hhead, htail', hP, trivial⟩

theorem State.Counts.next (hN : N < 2 ^ 64) {a : Action} (h : s.Counts) (hs : s.next a = some s') :
    s'.Counts := by
  cases a with
  | enqueue data => exact h.enqueue hs
  | producerStep => exact h.produce hN hs
  | dequeue drain => exact h.dequeue hs
  | consumerStep => exact h.consume hs

end Counts

/-! ## The slots

In a run without early reservations every transaction that is written and not copied out is in its slot. -/

/-- The slots of such a run. -/
structure Intact (s : State N) : Prop where
  distinct : ∀ m n, s.copied ≤ m → m < n → n < s.sent.length → slotOf N m ≠ slotOf N n
  ready : s.taken ≤ s.written
  slots : ∀ n, s.copied ≤ n → n < s.written →
    s.sent[n]? = some (s.queue.transaction (slotOf N n))
  writing : ∀ data currentCount slot, s.producer = .writeLength data currentCount slot →
    (s.queue.buffers slot).take data.length = data
  reading : ∀ drain slot len, s.consumer = .copyBuffer drain slot len → s.queue.lengths slot = len
  holding : ∀ drain buf len, s.consumer = .commitTail drain buf len →
    s.sent[s.returned.length]? = some (buf.take len)
  returned_sent : s.returned <+: s.sent

theorem intact_initial : Intact (.initial : State N) :=
  ⟨nofun, le_rfl, nofun, nofun, nofun, nofun, List.prefix_rfl⟩

section Intact

variable {s s' : State N}

/-- A step that leaves the slots, the transactions and how far both sides are as they were. -/
theorem Intact.frame (h : Intact s) (hsent : s'.sent = s.sent) (hwritten : s'.written = s.written)
    (hbuffers : s'.queue.buffers = s.queue.buffers) (hlengths : s'.queue.lengths = s.queue.lengths)
    (hreturned : s'.returned = s.returned) (hcopied : s'.copied = s.copied)
    (htaken : s'.taken ≤ s.written)
    (writing : ∀ data currentCount slot, s'.producer ≠ .writeLength data currentCount slot)
    (reading : ∀ drain slot len, s'.consumer = .copyBuffer drain slot len →
      s.queue.lengths slot = len)
    (holding : ∀ drain buf len, s'.consumer = .commitTail drain buf len →
      s.sent[s.returned.length]? = some (buf.take len)) : Intact s' := by
  have htransaction : s'.queue.transaction = s.queue.transaction := by
    unfold TransactionQueue.transaction
    rw [hbuffers, hlengths]
  refine ⟨?_, ?_, ?_, fun data c slot hp => absurd hp (writing data c slot), ?_, ?_, ?_⟩
  · rw [hsent, hcopied]
    exact h.distinct
  · rw [hwritten]
    exact htaken
  · rw [hsent, hcopied, hwritten, htransaction]
    exact h.slots
  · rw [hlengths]
    exact reading
  · rw [hsent, hreturned]
    exact holding
  · rw [hsent, hreturned]
    exact h.returned_sent

theorem Intact.answer_of_ne (h : Intact s) (data : Bytes) {status : SendStatus}
    (hstatus : ∀ position, status ≠ .queued position) (hr : s.producer.reserved = none) :
    Intact (s.answer data status) := by
  have hqueued := s.queued_answer_of_ne data hstatus
  refine h.frame ?_ ?_ rfl rfl rfl rfl h.ready (by rintro _ _ _ ⟨⟩) h.reading h.holding
  · simp only [State.sent, hqueued, hr]
    rfl
  · simp only [State.written, hqueued]
    cases hp : s.producer with
    | commitHead data c =>
      rw [hp] at hr
      cases hr
    | _ => rfl

theorem Intact.enqueue {data : Bytes} (h : Intact s) (hs : s.enqueue data = some s') :
    Intact s' := by
  obtain ⟨q, P, C, A, R⟩ := s
  cases P with
  | idle =>
    simp only [State.enqueue] at hs
    split_ifs at hs <;> cases hs
    · exact h.answer_of_ne data (by rintro _ ⟨⟩) rfl
    · exact h.frame rfl rfl rfl rfl rfl rfl h.ready (by rintro _ _ _ ⟨⟩) h.reading h.holding
  | _ => cases hs

theorem State.unready_producerStep (s : State N) : s.unready .producerStep = true ↔
    ∃ data, s.producer = .fetchAdd data ∧ s.queue.count < N ∧
      ∃ n, s.copied ≤ n ∧ n < s.queued.length ∧ slotOf N n = slotOf N s.queued.length := by
  simp only [unready]
  cases s.producer with
  | fetchAdd data =>
    simp only [Bool.and_eq_true, decide_eq_true_eq, List.any_eq_true, List.mem_range,
      ProducerPc.fetchAdd.injEq, exists_eq_left']
    constructor
    · rintro ⟨hlt, n, hn, hcopied, hslot⟩
      exact ⟨hlt, n, hcopied, hn, hslot⟩
    · rintro ⟨hlt, n, hcopied, hn, hslot⟩
      exact ⟨hlt, n, hn, hcopied, hslot⟩
  | _ => simp

theorem State.unready_consumerStep (s : State N) : s.unready .consumerStep = true ↔
    ∃ drain, s.consumer = .fetchSub drain ∧ 0 < s.queue.count ∧ s.written ≤ s.returned.length := by
  simp only [unready]
  cases s.consumer with
  | fetchSub drain => simp
  | _ => simp

/-- A transaction to come in slot `j` leaves the others where they are. -/
theorem Intact.slots_update (h : Intact s) {q : TransactionQueue N} {j : ℕ}
    (hq : ∀ i, i ≠ j → q.transaction i = s.queue.transaction i)
    (hj : ∀ n, s.copied ≤ n → n < s.written → slotOf N n ≠ j) :
    ∀ n, s.copied ≤ n → n < s.written → s.sent[n]? = some (q.transaction (slotOf N n)) := by
  intro n hn hn'
  rw [hq _ (hj n hn hn')]
  exact h.slots n hn hn'

theorem Intact.produce (h : Intact s) (hcounts : s.Counts)
    (hready : s.unready .producerStep = false) (hs : s.produce = some s') : Intact s' := by
  obtain ⟨q, P, C, A, R⟩ := s
  have hP := hcounts.producer
  -- a reserved transaction is the last one of `sent`
  have hsent {data : Bytes} (hr : P.reserved = some data := by rfl) :
      (State.queued ⟨q, P, C, A, R⟩).length < (State.sent ⟨q, P, C, A, R⟩).length := by
    rw [State.sent_length]
    simp [hr]
  cases P with
  | idle => cases hs
  | loadCount data =>
    simp only [State.produce] at hs
    split_ifs at hs <;> cases hs
    · exact h.answer_of_ne data (by rintro _ ⟨⟩) rfl
    · exact h.frame rfl rfl rfl rfl rfl rfl h.ready (by rintro _ _ _ ⟨⟩) h.reading h.holding
  | fetchAdd data =>
    obtain ⟨-, hlt⟩ := hP
    simp only [State.produce] at hs
    rw [if_neg (not_le.2 hlt)] at hs
    cases hs
    -- the transaction is new at the end of `sent`
    have hlen : (State.queued ⟨q, .fetchAdd data, C, A, R⟩ ++ [data]).length =
        (State.queued ⟨q, .fetchAdd data, C, A, R⟩).length + 1 := by simp
    have hsent : (⟨q, .fetchAdd data, C, A, R⟩ : State N).sent =
        State.queued ⟨q, .fetchAdd data, C, A, R⟩ := List.append_nil _
    refine ⟨fun m n hm hmn hn => ?_, h.ready, fun n hn hn' => ?_, by rintro _ _ _ ⟨⟩, h.reading, ?_, ?_⟩
    · change n < (State.queued ⟨q, .fetchAdd data, C, A, R⟩ ++ [data]).length at hn
      rw [hlen] at hn
      rcases Nat.lt_or_ge n (State.queued ⟨q, .fetchAdd data, C, A, R⟩).length with hold | hnew
      · exact h.distinct m n hm hmn (hsent ▸ hold)
      · obtain rfl : n = (State.queued ⟨q, .fetchAdd data, C, A, R⟩).length := by omega
        intro hslot
        have hu := (State.unready_producerStep _).2 ⟨data, rfl, hlt, m, hm, hmn, hslot⟩
        rw [hready] at hu
        cases hu
    · have hold := h.slots n hn hn'
      rw [hsent] at hold
      exact List.getElem?_append_left (List.getElem?_eq_some_iff.1 hold).1 ▸ hold
    · intro drain buf len hc
      have hold := h.holding drain buf len hc
      rw [hsent] at hold
      exact List.getElem?_append_left (List.getElem?_eq_some_iff.1 hold).1 ▸ hold
    · have hold := h.returned_sent
      rw [hsent] at hold
      exact hold.trans (List.prefix_append _ _)
  | fetchSub data => exact hP.elim
  | loadHead data currentCount =>
    cases hs
    exact h.frame rfl rfl rfl rfl rfl rfl h.ready (by rintro _ _ _ ⟨⟩) h.reading h.holding
  | writeBuffer data currentCount slot =>
    obtain ⟨-, hslot⟩ := hP
    cases hs
    refine ⟨h.distinct, h.ready, h.slots_update (j := slot) (fun i hi => ?_) (fun n hn hn' => ?_), ?_,
      h.reading, h.holding, h.returned_sent⟩
    · simp only [TransactionQueue.transaction, Function.update_of_ne hi]
    · rw [hslot]
      exact h.distinct n _ hn hn' hsent
    · intro data' currentCount' slot' hp
      cases hp
      show (Function.update q.buffers slot (data ++ (q.buffers slot).drop data.length) slot).take
        data.length = data
      rw [Function.update_self]
      exact List.take_left
  | writeLength data currentCount slot =>
    obtain ⟨hlen, hslot⟩ := hP
    have hmod : data.length % 2 ^ 16 = data.length := by
      refine Nat.mod_eq_of_lt (hlen.trans_lt ?_)
      decide
    have hother (n : ℕ) (hn : State.copied ⟨q, .writeLength data currentCount slot, C, A, R⟩ ≤ n)
        (hn' : n < State.written ⟨q, .writeLength data currentCount slot, C, A, R⟩) :
        slotOf N n ≠ slot := by
      rw [hslot]
      exact h.distinct n _ hn hn' hsent
    cases hs
    rw [hmod]
    refine ⟨h.distinct, h.ready.trans (Nat.le_succ _), fun n hn hn' => ?_, by rintro _ _ _ ⟨⟩,
      fun drain slot' len hc => ?_, h.holding, h.returned_sent⟩
    · rcases Nat.lt_or_eq_of_le (Nat.lt_succ_iff.1 hn') with hold | hnew
      · refine h.slots_update (fun i hi => ?_) hother n hn hold
        simp only [TransactionQueue.transaction, Function.update_of_ne hi]
      · change n = (State.queued ⟨q, .writeLength data currentCount slot, C, A, R⟩).length at hnew
        rw [show slotOf N n = slot from hnew ▸ hslot.symm]
        show (State.queued ⟨q, .writeLength data currentCount slot, C, A, R⟩ ++ [data])[n]? =
          some ((q.buffers slot).take (Function.update q.lengths slot data.length slot))
        rw [Function.update_self, h.writing data currentCount slot rfl, hnew]
        exact List.getElem?_concat_length
    · -- the consumer is at another slot
      obtain rfl : C = .copyBuffer drain slot' len := hc
      have hC : slot' = slotOf N R.length := hcounts.consumer
      show Function.update q.lengths slot data.length slot' = len
      rw [Function.update_of_ne]
      · exact h.reading drain slot' len rfl
      · rw [hC]
        exact hother R.length le_rfl h.ready
  | commitHead data currentCount =>
    cases hs
    have hqueued := State.queued_answer_queued
      (⟨{ q with head := incr q.head }, .commitHead data currentCount, C, A, R⟩ : State N) data
      (currentCount % 2 ^ 8)
    refine h.frame ?_ ?_ rfl rfl rfl rfl h.ready (by rintro _ _ _ ⟨⟩) h.reading h.holding
    · simp only [State.sent, hqueued]
      exact List.append_nil _
    · simp only [State.written, hqueued, List.length_append]
      rfl

theorem Intact.dequeue {drain : Bool} (h : Intact s) (hs : s.dequeue drain = some s') :
    Intact s' := by
  obtain ⟨q, P, C, A, R⟩ := s
  cases C with
  | idle =>
    cases hs
    exact ⟨h.distinct, h.ready, h.slots, h.writing, by rintro _ _ _ ⟨⟩, by rintro _ _ _ ⟨⟩,
      h.returned_sent⟩
  | _ => cases hs

theorem Intact.consume (h : Intact s) (hcounts : s.Counts)
    (hready : s.unready .consumerStep = false) (hs : s.consume = some s') : Intact s' := by
  obtain ⟨q, P, C, A, R⟩ := s
  have hC := hcounts.consumer
  cases C with
  | idle => cases hs
  | loadCount drain =>
    simp only [State.consume] at hs
    split_ifs at hs <;> cases hs <;>
      exact ⟨h.distinct, h.ready, h.slots, h.writing, by rintro _ _ _ ⟨⟩, by rintro _ _ _ ⟨⟩,
      h.returned_sent⟩
  | fetchSub drain =>
    have hpos : 0 < q.count := hC
    have hwritten : R.length < State.written ⟨q, P, .fetchSub drain, A, R⟩ := by
      by_contra hlt
      have hu := (State.unready_consumerStep ⟨q, P, .fetchSub drain, A, R⟩).2
        ⟨drain, rfl, hpos, not_lt.1 hlt⟩
      rw [hready] at hu
      cases hu
    simp only [State.consume, if_neg hpos.ne'] at hs
    generalize decr q.count = count at hs
    cases hs
    exact ⟨h.distinct, hwritten, h.slots, h.writing, by rintro _ _ _ ⟨⟩, by rintro _ _ _ ⟨⟩,
      h.returned_sent⟩
  | fetchAdd drain => exact hC.elim
  | loadTail drain =>
    cases hs
    exact ⟨h.distinct, h.ready, h.slots, h.writing, by rintro _ _ _ ⟨⟩, by rintro _ _ _ ⟨⟩,
      h.returned_sent⟩
  | readLength drain slot =>
    cases hs
    refine ⟨h.distinct, h.ready, h.slots, h.writing, ?_, by rintro _ _ _ ⟨⟩, h.returned_sent⟩
    intro drain' slot' len hc
    cases hc
    rfl
  | copyBuffer drain slot len =>
    cases hs
    refine ⟨fun m n hm => h.distinct m n (Nat.le_of_succ_le hm), h.ready,
      fun n hn => h.slots n (Nat.le_of_succ_le hn), h.writing, by rintro _ _ _ ⟨⟩, ?_, h.returned_sent⟩
    intro drain' buf len' hc
    cases hc
    have hslot : slot = slotOf N R.length := hC
    have hnext := h.slots R.length le_rfl h.ready
    rw [← hslot, TransactionQueue.transaction, h.reading drain slot len rfl] at hnext
    exact hnext
  | commitTail drain buf len =>
    have hcopied : (R ++ [buf.take len]).length = R.length + 1 := by simp
    obtain ⟨hlt, hget⟩ := List.getElem?_eq_some_iff.1 (h.holding drain buf len rfl)
    have hnext := List.concat_get_prefix h.returned_sent hlt
    rw [List.get_eq_getElem, hget] at hnext
    cases hs
    cases drain with
    | true | false =>
      refine ⟨fun m n hm => h.distinct m n ?_, ?_, fun n hn => h.slots n ?_, h.writing,
        by rintro _ _ _ ⟨⟩, by rintro _ _ _ ⟨⟩, hnext⟩
      · exact hcopied.ge.trans hm
      · exact hcopied.trans_le h.ready
      · exact hcopied.ge.trans hn

theorem Intact.next {a : Action} (h : Intact s) (hcounts : s.Counts) (hready : s.unready a = false)
    (hs : s.next a = some s') : Intact s' := by
  cases a with
  | enqueue data => exact h.enqueue hs
  | producerStep => exact h.produce hcounts hready hs
  | dequeue drain => exact h.dequeue hs
  | consumerStep => exact h.consume hcounts hready hs

/-- What the consumer is about to read is written and not reused. -/
theorem Intact.readable (h : Intact s) (hr : s.consumer.reads = true) : s.Readable := by
  have hcopied : s.copied = s.returned.length ∧ s.taken = s.returned.length + 1 := by
    unfold State.copied State.taken
    cases hc : s.consumer with
    | readLength drain slot => exact ⟨rfl, rfl⟩
    | copyBuffer drain slot len => exact ⟨rfl, rfl⟩
    | _ =>
      rw [hc] at hr
      cases hr
  have hbegun : s.begun ≤ s.sent.length := by
    rw [State.sent_length]
    unfold State.begun
    cases s.producer <;> simp [ProducerPc.reserved]
  refine ⟨hcopied.2.ge.trans h.ready, fun n hn hn' => ?_⟩
  exact (h.distinct _ n hcopied.1.le hn (hn'.trans_le hbegun)).symm

end Intact

/-! ## The consumer alone

From every state the consumer comes to read any transaction that is sent and not copied out. -/

/-- How far the consumer is from the end of its call. -/
def ConsumerPc.rank : ConsumerPc → ℕ
  | idle => 7
  | loadCount _ => 6
  | fetchSub _ => 5
  | fetchAdd _ => 0
  | loadTail _ => 4
  | readLength _ _ => 3
  | copyBuffer _ _ _ => 2
  | commitTail _ _ _ => 1

/-- How far the consumer is from reading transaction `n`. -/
def State.distance (s : State N) (n : ℕ) : ℕ := (n - s.returned.length) * 10 + s.consumer.rank

section Alone

variable {s : State N} {n : ℕ}

theorem State.Counts.exists_closer (h : s.Counts) (hcopied : s.copied ≤ n) (hn : n < s.sent.length)
    (hnot : ¬ (s.consumer.reads = true ∧ s.returned.length = n)) :
    ∃ a s', s.next a = some s' ∧ s'.producer = s.producer ∧ s'.answers = s.answers ∧
      s'.copied ≤ n ∧ s'.distance n < s.distance n := by
  have hcount := h.count_eq
  have hC := h.consumer
  rw [← State.sent_length] at hcount
  obtain ⟨q, P, C, A, R⟩ := s
  dsimp only at hcount
  have hR : R.length ≤ n := (Nat.le_add_right _ _).trans hcopied
  have hlt (hr : C.reads = true) : R.length < n :=
    lt_of_le_of_ne hR fun heq => hnot ⟨hr, heq⟩
  cases C with
  | idle => exact ⟨.dequeue false, _, rfl, rfl, rfl, hcopied, Nat.lt_succ_self _⟩
  | loadCount drain =>
    have hpos : q.count ≠ 0 := by
      change q.count + R.length = _ at hcount
      omega
    exact ⟨.consumerStep, _, if_neg hpos, rfl, rfl, hcopied, Nat.lt_succ_self _⟩
  | fetchSub drain =>
    have hpos : 0 < q.count := hC
    exact ⟨.consumerStep, _, if_neg hpos.ne', rfl, rfl, hcopied, Nat.lt_succ_self _⟩
  | fetchAdd drain => exact hC.elim
  | loadTail drain => exact ⟨.consumerStep, _, rfl, rfl, rfl, hcopied, Nat.lt_succ_self _⟩
  | readLength drain slot =>
    exact ⟨.consumerStep, _, rfl, rfl, rfl, hcopied, Nat.lt_succ_self _⟩
  | copyBuffer drain slot len =>
    exact ⟨.consumerStep, _, rfl, rfl, rfl, hlt rfl, Nat.lt_succ_self _⟩
  | commitTail drain buf len =>
    have hcopied' : R.length + 1 ≤ n := hcopied
    have hlen : (R ++ [buf.take len]).length = R.length + 1 := by simp
    refine ⟨.consumerStep, _, rfl, rfl, rfl, ?_, ?_⟩
    · cases drain with
      | true | false => exact hlen.trans_le hcopied'
    · have hrank : (if drain then ConsumerPc.loadCount drain else .idle).rank ≤ 7 := by
        cases drain <;> decide
      show (n - (R ++ [buf.take len]).length) * 10 +
        (if drain then ConsumerPc.loadCount drain else .idle).rank < (n - R.length) * 10 + 1
      rw [hlen]
      omega

theorem State.Counts.leads_reads (hN : N < 2 ^ 64) (h : s.Counts) (hcopied : s.copied ≤ n)
    (hn : n < s.sent.length) :
    ∃ t, (system N).Leads s t ∧ t.consumer.reads = true ∧ t.returned.length = n ∧
      t.producer = s.producer ∧ t.answers = s.answers := by
  induction hd : s.distance n using Nat.strongRecOn generalizing s with
  | ind d ih =>
    by_cases hdone : s.consumer.reads = true ∧ s.returned.length = n
    · exact ⟨s, .refl, hdone.1, hdone.2, rfl, rfl⟩
    obtain ⟨a, s', hs, hP, hA, hcopied', hcloser⟩ := h.exists_closer hcopied hn hdone
    have hsent : s'.sent = s.sent := by simp only [State.sent, State.queued, hP, hA]
    obtain ⟨t, ht, hreads, hlen, hP', hA'⟩ :=
      ih _ (hd ▸ hcloser) (h.next hN hs) hcopied' (hsent ▸ hn) rfl
    exact ⟨t, .head hs ht, hreads, hlen, hP'.trans hP, hA'.trans hA⟩

end Alone

/-! ## Every run -/

theorem counts_of_reachable (hN : N < 2 ^ 64) {s : State N} (hs : (system N).Reachable s) :
    s.Counts := by
  refine System.Reachable.invariant ?_ (fun s a s' h hst => h.next hN hst) hs
  rintro s rfl
  exact State.counts_initial

theorem intact_of_reachable (hN : N < 2 ^ 64) {s : State N}
    (hs : (system N).ReachableVia (fun s a => s.unready a = false) s) : s.Counts ∧ Intact s := by
  refine System.ReachableVia.invariant (I := fun s => s.Counts ∧ Intact s) ?_ ?_ hs
  · rintro s rfl
    exact ⟨State.counts_initial, intact_initial⟩
  · rintro s a s' hready ⟨hcounts, hintact⟩ hst
    exact ⟨hcounts.next hN hst, hintact.next hcounts hready hst⟩

/-- A reservation of `try_enqueue` that comes too early: the producer writes and the consumer reads. -/
theorem State.Counts.leads_unreadable_of_produce (hN : N < 2 ^ 64) {s s' : State N} (h : s.Counts)
    (hs : s.produce = some s') (hu : s.unready .producerStep = true) :
    ∃ t, (system N).Leads s' t ∧ t.consumer.reads = true ∧ ¬ t.Readable := by
  have hcounts' := h.produce hN hs
  obtain ⟨data, hp, hlt, n, hcopied, hn, hslot⟩ := (unready_producerStep s).1 hu
  obtain ⟨q, P, C, A, R⟩ := s
  obtain rfl : P = .fetchAdd data := hp
  simp only [State.produce, if_neg (not_le.2 hlt)] at hs
  generalize incr q.count = count at hs
  cases hs
  -- the producer loads `head` and writes the buffer
  let q' : TransactionQueue N := { q with count := count }
  let s₁ : State N := ⟨q', .writeBuffer data q.count (q.head % N), C, A, R⟩
  obtain ⟨b, hs₂⟩ : ∃ b, s₁.produce =
      some ⟨{ q' with buffers := b }, .writeLength data q.count (q.head % N), C, A, R⟩ := ⟨_, rfl⟩
  have hs₁ : State.produce ⟨q', .loadHead data q.count, C, A, R⟩ = some s₁ := rfl
  have hcounts₂ := State.Counts.produce hN (hcounts'.produce hN hs₁) hs₂
  have hsent : n < (State.queued ⟨q, .fetchAdd data, C, A, R⟩ ++ [data]).length := by
    rw [List.length_append]
    exact hn.trans (Nat.lt_succ_self _)
  obtain ⟨t, ht, hreads, hlen, hP, hA⟩ := hcounts₂.leads_reads hN hcopied hsent
  refine ⟨t, .head (a := .producerStep) hs₁ (.head (a := .producerStep) hs₂ ht), hreads,
    fun hr => ?_⟩
  have hqueued : t.queued = State.queued ⟨q, .fetchAdd data, C, A, R⟩ := by
    simp only [State.queued, hA]
  refine hr.2 (State.queued ⟨q, .fetchAdd data, C, A, R⟩).length (hlen ▸ hn) ?_ (hlen ▸ hslot.symm)
  rw [State.begun, hqueued, hP]
  exact Nat.lt_succ_self _

/-- A reservation of `try_dequeue` that comes too early. -/
theorem State.leads_unreadable_of_consume {s s' : State N} (hs : s.consume = some s')
    (hu : s.unready .consumerStep = true) :
    ∃ t, (system N).Leads s' t ∧ t.consumer.reads = true ∧ ¬ t.Readable := by
  obtain ⟨drain, hc, hpos, hwritten⟩ := (unready_consumerStep s).1 hu
  obtain ⟨q, P, C, A, R⟩ := s
  obtain rfl : C = .fetchSub drain := hc
  simp only [State.consume, if_neg hpos.ne'] at hs
  generalize decr q.count = count at hs
  cases hs
  refine ⟨_, .step .consumerStep .refl rfl, rfl, fun hr => ?_⟩
  exact absurd hr.1 (not_lt.2 hwritten)

/-- In a run without early reservations `try_dequeue` returns what was sent, in order, and reads a slot
only when it is fully written and before it is reused.  From every early reservation on, a run can come to
a read that is not so. -/
theorem returned_prefix_sent (N : ℕ) (hN : N < 2 ^ 64) :
    (∀ s, (system N).ReachableVia (fun s a => s.unready a = false) s →
      s.returned <+: s.sent ∧ (s.consumer.reads = true → s.Readable)) ∧
    (∀ s a s', (system N).Reachable s → (system N).step s a = some s' → s.unready a = true →
      ∃ t, (system N).Leads s' t ∧ t.consumer.reads = true ∧ ¬ t.Readable) := by
  constructor
  · intro s hs
    obtain ⟨-, hintact⟩ := intact_of_reachable hN hs
    exact ⟨hintact.returned_sent, hintact.readable⟩
  · intro s a s' hs hst hu
    cases a with
    | producerStep => exact (counts_of_reachable hN hs).leads_unreadable_of_produce hN hst hu
    | consumerStep => exact State.leads_unreadable_of_consume hst hu
    | enqueue data => cases hu
    | dequeue drain => cases hu

/-- `try_enqueue` up to the point where `steps` of its steps are taken. -/
def enqueueSteps (data : Bytes) (steps : ℕ) : List Action :=
  .enqueue data :: List.replicate steps .producerStep

/-- The same for `try_dequeue`. -/
def dequeueSteps (steps : ℕ) : List Action := .dequeue false :: List.replicate steps .consumerStep

/-- Two calls that do not overlap. -/
theorem returned_prefix_sent_apart : ∃ s : State 1, s.returned = [[1, 2]] ∧ s.returned <+: s.sent := by
  have hmap : ((system 1).runVia (fun s a => !s.unready a) .initial
      (enqueueSteps [1, 2] 6 ++ dequeueSteps 6)).map State.returned = some [[1, 2]] := by
    decide +kernel
  obtain ⟨s, hrun, hreturned⟩ := Option.map_eq_some_iff.1 hmap
  have hs : (system 1).ReachableVia (fun s a => s.unready a = false) s :=
    System.ReachableVia.runVia (fun _ _ h => by simpa using h) (.init rfl) hrun
  exact ⟨s, hreturned, (((returned_prefix_sent 1 (by decide)).1 s hs).1)⟩

/-- `try_dequeue` between the reservation and the write of `try_enqueue` returns an empty transaction; a
`try_enqueue` between the reservation and the copy of `try_dequeue` replaces what is returned. -/
theorem not_returned_prefix_sent :
    ((system 1).run .initial (enqueueSteps [1] 2 ++ dequeueSteps 6)).map
        (fun s => (s.returned, s.sent)) = some ([[]], [[1]]) ∧
    ((system 1).run .initial (enqueueSteps [1] 6 ++ dequeueSteps 3 ++ enqueueSteps [2] 6 ++
        List.replicate 3 .consumerStep)).map
        (fun s => (s.returned, s.sent)) = some ([[2]], [[1], [2]]) := by
  constructor <;> decide +kernel

end Land.Quic.SharedQueue
