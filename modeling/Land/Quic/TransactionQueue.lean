import Land.Lib.CountedRing

/-!
# The transaction queue of a connection

`TransactionQueue` of `quic/src/connection.rs`, as the endpoint uses it: the endpoint has exclusive
access to its connections, so a call is one step and the second check of the counter, after
`fetch_add` or `fetch_sub`, always passes.
-/

namespace Land.Quic

abbrev Bytes := List UInt8

/-- `MAX_PACKET_SIZE`. -/
def maxPacketSize : ℕ := 1350

/-- `DEFAULT_TX_QUEUE_CAPACITY`. -/
def defaultTxQueueCapacity : ℕ := 16

/-- `SendStatus`. -/
inductive SendStatus where
  | sent
  | queued (position : ℕ)
  | sentEarlyData
  | queueFull
  | dead (retries : ℕ)
  deriving Repr, DecidableEq

/-- `TransactionQueue<N>`. -/
structure TransactionQueue (N : ℕ) where
  buffers : ℕ → Bytes
  lengths : ℕ → ℕ
  head : ℕ
  tail : ℕ
  count : ℕ

namespace TransactionQueue

variable {N : ℕ}

/-- `new`. -/
def new : TransactionQueue N where
  buffers := fun _ => List.replicate maxPacketSize 0
  lengths := fun _ => 0
  head := 0
  tail := 0
  count := 0

/-- `try_enqueue`. -/
def tryEnqueue (q : TransactionQueue N) (data : Bytes) : TransactionQueue N × SendStatus :=
  if data.length > maxPacketSize then (q, .dead 0)
  else if q.count ≥ N then (q, .queueFull)
  else
    let slot := q.head % N
    ({ buffers := Function.update q.buffers slot (data ++ (q.buffers slot).drop data.length)
       lengths := Function.update q.lengths slot (data.length % 2 ^ 16)
       head := q.head + 1
       tail := q.tail
       count := q.count + 1 }, .queued (q.count % 2 ^ 8))

/-- `try_dequeue`: the buffer and the length. -/
def tryDequeue (q : TransactionQueue N) : Option (TransactionQueue N × Bytes × ℕ) :=
  if q.count = 0 then none
  else
    let slot := q.tail % N
    some ({ q with tail := q.tail + 1, count := q.count - 1 }, q.buffers slot, q.lengths slot)

/-- `has_pending`. -/
def hasPending (q : TransactionQueue N) : Bool := q.count > 0

/-! ## The queue as a list -/

/-- The transaction in a slot. -/
def transaction (q : TransactionQueue N) (slot : ℕ) : Bytes := (q.buffers slot).take (q.lengths slot)

/-- The transactions in the queue, oldest first. -/
def contents (q : TransactionQueue N) : List Bytes := ringContents N q.transaction q.tail q.count

/-- The counter says how far the producer is ahead. -/
def Ok (q : TransactionQueue N) : Prop := q.head = q.tail + q.count

theorem ok_new : (new : TransactionQueue N).Ok := rfl

@[simp] theorem contents_new : (new : TransactionQueue N).contents = [] := rfl

@[simp] theorem contents_length (q : TransactionQueue N) : q.contents.length = q.count :=
  ringContents_length _

theorem transaction_update (q : TransactionQueue N) {data : Bytes}
    (h : data.length ≤ maxPacketSize) (slot : ℕ) (head tail count : ℕ) :
    TransactionQueue.transaction (N := N)
      { buffers := Function.update q.buffers slot (data ++ (q.buffers slot).drop data.length)
        lengths := Function.update q.lengths slot (data.length % 2 ^ 16)
        head := head, tail := tail, count := count } =
      Function.update q.transaction slot data := by
  have hlen : data.length % 2 ^ 16 = data.length := by
    refine Nat.mod_eq_of_lt (h.trans_lt ?_)
    decide
  funext i
  by_cases hi : i = slot
  · subst hi
    simp only [transaction, Function.update_self, hlen]
    exact List.take_left
  · simp [transaction, hi]

/-- No transaction is sent from here. -/
theorem tryEnqueue_not_sent (q : TransactionQueue N) (data : Bytes) :
    (q.tryEnqueue data).2 ≠ .sent ∧ (q.tryEnqueue data).2 ≠ .sentEarlyData := by
  unfold tryEnqueue
  split_ifs
  all_goals exact ⟨by rintro ⟨⟩, by rintro ⟨⟩⟩

/-- A queued transaction goes to the end; otherwise nothing changes. -/
theorem tryEnqueue_spec{q : TransactionQueue N} (h : q.Ok) (data : Bytes) :
    (q.tryEnqueue data).1.Ok ∧
      ((∃ position, (q.tryEnqueue data).2 = .queued position ∧
          (q.tryEnqueue data).1.contents = q.contents ++ [data]) ∨
        ((∀ position, (q.tryEnqueue data).2 ≠ .queued position) ∧ (q.tryEnqueue data).1 = q)) := by
  unfold tryEnqueue
  split_ifs with hsize hfull
  · exact ⟨h, .inr ⟨nofun, rfl⟩⟩
  · exact ⟨h, .inr ⟨nofun, rfl⟩⟩
  · have hhead : q.head = q.tail + q.count := h
    refine ⟨by show q.head + 1 = q.tail + (q.count + 1); omega, .inl ⟨_, rfl, ?_⟩⟩
    show ringContents N (TransactionQueue.transaction _) q.tail (q.count + 1) = _
    rw [transaction_update q (not_lt.1 hsize), hhead]
    exact ringContents_push _ data (not_le.1 hfull)

theorem tryDequeue_eq_none {q : TransactionQueue N} : q.tryDequeue = none ↔ q.contents = [] := by
  unfold tryDequeue
  rw [← List.length_eq_zero_iff, contents_length]
  split_ifs with hzero
  · simp [hzero]
  · simp [hzero]

/-- The oldest transaction comes out. -/
theorem contents_of_tryDequeue {q q' : TransactionQueue N} {buf : Bytes} {len : ℕ}
    (hq : q.tryDequeue = some (q', buf, len)) : q.contents = buf.take len :: q'.contents := by
  unfold tryDequeue at hq
  split_ifs at hq with hzero
  cases hq
  obtain ⟨n, hn⟩ := Nat.exists_eq_succ_of_ne_zero hzero
  show ringContents N q.transaction q.tail q.count = _
  rw [hn, ringContents_pop]
  rfl

theorem Ok.tryDequeue {q q' : TransactionQueue N} {buf : Bytes} {len : ℕ} (h : q.Ok)
    (hq : q.tryDequeue = some (q', buf, len)) : q'.Ok := by
  unfold TransactionQueue.tryDequeue at hq
  split_ifs at hq with hzero
  cases hq
  have hhead : q.head = q.tail + q.count := h
  show q.head = q.tail + 1 + (q.count - 1)
  omega

end TransactionQueue

end Land.Quic
