import Land.Quic.TransactionQueue

/-!
# QUIC connections

`QuicConnection` of `quic/src/connection.rs` and the loop of `drive_slot` that drains its queue.  The
`quiche` connection is not part of the model: what it answers to a call comes with the call.

A connection has a history: the transactions queued on it, and for each that was taken from the queue
the transaction if a `send_uni` with it succeeded, or nothing if the loop gave up.  The n-th
transaction taken is the n-th one queued.  `excused` counts those queued before the slot of the
connection was last failed or dead.  No step looks at the history.
-/

namespace Land.Quic

/-- `ConnectionState`. -/
inductive ConnectionState where
  | connecting
  | ready
  | failed
  | dead
  deriving Repr, DecidableEq

/-- The errors the endpoint returns. -/
inductive Error where
  | io
  | quic
  | notEstablished
  | closed
  | timeout
  | notFound
  | dead (retries : ℕ)
  | wouldBlock
  deriving Repr, DecidableEq

/-- What `stream_send` answers. -/
inductive StreamSend where
  | ok (written : ℕ)
  | done
  | error
  deriving Repr, DecidableEq

/-- What `quiche` answers during one `send_uni`. -/
structure SendUni where
  isClosed : Bool
  isEstablished : Bool
  isInEarlyData : Bool
  streamSend : StreamSend

/-- What `send_uni` then returns. -/
def SendUni.result (a : SendUni) : Except Error Unit :=
  if a.isClosed = true then .error .closed
  else if a.isEstablished = false ∧ a.isInEarlyData = false then .error .notEstablished
  else
    match a.streamSend with
    | .ok _ => .ok ()
    | .done => .error .wouldBlock
    | .error => .error .quic

/-- `QuicConnection`, without the `quiche` connection. -/
structure QuicConnection where
  localStreamUniNext : ℕ
  txQueue : TransactionQueue defaultTxQueueCapacity
  queued : List Bytes
  handed : List (Option Bytes)
  excused : ℕ

namespace QuicConnection

/-- `new`. -/
def new : QuicConnection where
  localStreamUniNext := 2
  txQueue := .new
  queued := []
  handed := []
  excused := 0

/-- `send_uni`. -/
def sendUni (c : QuicConnection) (a : SendUni) : QuicConnection × Except Error Unit :=
  if a.isClosed = true then (c, .error .closed)
  else if a.isEstablished = false ∧ a.isInEarlyData = false then (c, .error .notEstablished)
  else
    match a.streamSend with
    | .ok _ => ({ c with localStreamUniNext := c.localStreamUniNext + 4 }, .ok ())
    | .done => (c, .error .wouldBlock)
    | .error => (c, .error .quic)

/-- `MAX_RETRIES` of `drive_slot`. -/
def maxRetries : ℕ := 5

/-- The attempts to send one transaction, with `left` of them to go. -/
def sendAttempts (answers : ℕ → SendUni) : ℕ → ℕ → QuicConnection → QuicConnection × Bool
  | 0, _, c => (c, false)
  | left + 1, attempt, c =>
      match c.sendUni (answers attempt) with
      | (c, .ok _) => (c, true)
      | (c, .error .wouldBlock) => sendAttempts answers left (attempt + 1) c
      | (c, .error _) => (c, false)

/-- The loop that drains the queue, and how many transactions it sent: `answers n` is what `quiche`
answers for the n-th one.  The queue gets shorter in every round, so `left` rounds are enough if that
many transactions are queued. -/
def drain (answers : ℕ → ℕ → SendUni) : ℕ → ℕ → QuicConnection → QuicConnection × ℕ
  | 0, _, c => (c, 0)
  | left + 1, n, c =>
      match c.txQueue.tryDequeue with
      | none => (c, 0)
      | some (q, buf, len) =>
          match sendAttempts (answers n) maxRetries 0 { c with txQueue := q } with
          | (c, true) =>
              let r := drain answers left (n + 1) { c with handed := c.handed ++ [some (buf.take len)] }
              (r.1, r.2 + 1)
          | (c, false) => ({ c with handed := c.handed ++ [none] }, 0)

/-- `tx_queue().try_enqueue`. -/
def enqueue (c : QuicConnection) (data : Bytes) : QuicConnection × SendStatus :=
  let r := c.txQueue.tryEnqueue data
  ({ c with
     txQueue := r.1
     queued := match r.2 with
       | .queued _ => c.queued ++ [data]
       | _ => c.queued }, r.2)

/-- The slot of the connection is failed or dead. -/
def excuse (c : QuicConnection) : QuicConnection := { c with excused := c.queued.length }

/-! ## What becomes of queued transactions -/

/-- The history fits the queue. -/
structure Ok (c : QuicConnection) : Prop where
  queue : c.txQueue.Ok
  contents : c.txQueue.contents = c.queued.drop c.handed.length
  handed_le : c.handed.length ≤ c.queued.length
  handed_eq : ∀ (i : ℕ) data, c.handed[i]? = some (some data) → c.queued[i]? = some data

/-- The loop gave up on no transaction that counts. -/
def NoneLost (c : QuicConnection) : Prop := ∀ i, c.excused ≤ i → c.handed[i]? ≠ some none

/-- Every queued transaction that counts was sent in its turn. -/
def Delivered (c : QuicConnection) : Prop :=
  ∀ i data, c.excused ≤ i → c.queued[i]? = some data → c.handed[i]? = some (some data)

/-- Every queued transaction that counts was sent in its turn, or is in the queue, at its place. -/
def Kept (c : QuicConnection) : Prop :=
  ∀ i data, c.excused ≤ i → c.queued[i]? = some data →
    c.handed[i]? = some (some data) ∨
      c.handed.length ≤ i ∧ c.txQueue.contents[i - c.handed.length]? = some data

variable {c : QuicConnection}

theorem ok_new : new.Ok := ⟨TransactionQueue.ok_new, rfl, le_rfl, nofun⟩

theorem noneLost_new : new.NoneLost := nofun

theorem Ok.kept (h : c.Ok) (hlost : c.NoneLost) : c.Kept := by
  intro i data hi hdata
  by_cases hlt : i < c.handed.length
  · -- taken from the queue: the i-th one taken is the i-th one queued
    left
    obtain ⟨r, hr⟩ : ∃ r, c.handed[i]? = some r := ⟨_, List.getElem?_eq_getElem hlt⟩
    cases r with
    | none => exact absurd hr (hlost i hi)
    | some d =>
      obtain rfl : d = data := Option.some.inj ((h.handed_eq i d hr).symm.trans hdata)
      exact hr
  · right
    have hle := not_lt.1 hlt
    refine ⟨hle, ?_⟩
    rw [h.contents, List.getElem?_drop, Nat.add_sub_cancel' hle]
    exact hdata

/-- With an empty queue, everything was sent. -/
theorem Ok.delivered (h : c.Ok) (hlost : c.NoneLost) (hempty : c.txQueue.contents = []) :
    c.Delivered := by
  intro i data hi hdata
  rcases h.kept hlost i data hi hdata with hsent | ⟨-, hplace⟩
  · exact hsent
  · rw [hempty] at hplace
    cases hplace

/-- With everything excused, nothing is to be sent. -/
theorem delivered_of_excused (h : c.excused = c.queued.length) : c.Delivered := by
  intro i data hi hdata
  have := (List.getElem?_eq_some_iff.1 hdata).1
  omega

/-! ## The operations -/

/-- What `send_uni` leaves alone. -/
structure Frame (c c' : QuicConnection) : Prop where
  txQueue : c'.txQueue = c.txQueue
  queued : c'.queued = c.queued
  handed : c'.handed = c.handed
  excused : c'.excused = c.excused

theorem Frame.refl (c : QuicConnection) : Frame c c := ⟨rfl, rfl, rfl, rfl⟩

theorem Frame.trans {c₁ c₂ c₃ : QuicConnection} (f : Frame c₁ c₂) (g : Frame c₂ c₃) : Frame c₁ c₃ :=
  ⟨g.txQueue.trans f.txQueue, g.queued.trans f.queued, g.handed.trans f.handed,
    g.excused.trans f.excused⟩

theorem Frame.ok {c' : QuicConnection} (f : Frame c c') (h : c.Ok) : c'.Ok := by
  obtain ⟨h1, h2, h3, h4⟩ := h
  rw [← f.txQueue, ← f.queued, ← f.handed] at *
  exact ⟨h1, h2, h3, h4⟩

theorem Frame.noneLost {c' : QuicConnection} (f : Frame c c') (h : c.NoneLost) : c'.NoneLost := by
  unfold NoneLost at *
  rw [f.excused, f.handed]
  exact h

theorem sendUni_frame (c : QuicConnection) (a : SendUni) : Frame c (c.sendUni a).1 := by
  unfold sendUni
  split_ifs
  · exact .refl c
  · exact .refl c
  · split
    · exact ⟨rfl, rfl, rfl, rfl⟩
    · exact .refl c
    · exact .refl c

theorem sendAttempts_frame (answers : ℕ → SendUni) (left attempt : ℕ) (c : QuicConnection) :
    Frame c (sendAttempts answers left attempt c).1 := by
  induction left generalizing attempt c with
  | zero => exact .refl c
  | succ left ih =>
    have hframe := c.sendUni_frame (answers attempt)
    simp only [sendAttempts]
    split <;> rename_i heq <;> rw [heq] at hframe
    · exact hframe
    · exact hframe.trans (ih _ _)
    · exact hframe

theorem sendUni_result (c : QuicConnection) (a : SendUni) : (c.sendUni a).2 = a.result := by
  unfold sendUni SendUni.result
  split_ifs
  · rfl
  · rfl
  · cases a.streamSend <;> rfl

/-- `quiche` takes the transaction in one of the attempts, and only refuses before. -/
def Accepted (answers : ℕ → SendUni) : Prop :=
  ∃ k < maxRetries, (answers k).result = .ok () ∧ ∀ j < k, (answers j).result = .error .wouldBlock

theorem sendAttempts_eq_true {answers : ℕ → SendUni} {k left attempt : ℕ} (hk : attempt ≤ k)
    (hleft : k < attempt + left) (hok : (answers k).result = .ok ())
    (hblocked : ∀ j < k, (answers j).result = .error .wouldBlock) (c : QuicConnection) :
    (sendAttempts answers left attempt c).2 = true := by
  induction left generalizing attempt c with
  | zero => omega
  | succ left ih =>
    rcases hk.eq_or_lt with rfl | hlt
    · obtain ⟨c₁, heq⟩ : ∃ c₁, c.sendUni (answers attempt) = (c₁, .ok ()) :=
        ⟨_, Prod.ext rfl ((c.sendUni_result _).trans hok)⟩
      rw [sendAttempts, heq]
    · obtain ⟨c₁, heq⟩ : ∃ c₁, c.sendUni (answers attempt) = (c₁, .error .wouldBlock) :=
        ⟨_, Prod.ext rfl ((c.sendUni_result _).trans (hblocked attempt hlt))⟩
      rw [sendAttempts, heq]
      exact ih hlt (by omega) c₁

theorem sendAttempts_of_accepted {answers : ℕ → SendUni} (h : Accepted answers)
    (c : QuicConnection) : (sendAttempts answers maxRetries 0 c).2 = true := by
  obtain ⟨k, hk, hok, hblocked⟩ := h
  exact sendAttempts_eq_true (Nat.zero_le k) (by omega) hok hblocked c

/-- A transaction is taken from the queue and sent, or given up. -/
theorem Ok.take {q : TransactionQueue defaultTxQueueCapacity} {buf : Bytes} {len : ℕ}
    {c' : QuicConnection} (h : c.Ok) (sent : Bool) (hq : c.txQueue.tryDequeue = some (q, buf, len))
    (hf : Frame { c with txQueue := q } c') :
    QuicConnection.Ok { c' with
      handed := c'.handed ++ [if sent then some (buf.take len) else none] } := by
  have hhead : c.queued.drop c.handed.length = buf.take len :: q.contents :=
    h.contents.symm.trans (TransactionQueue.contents_of_tryDequeue hq)
  have hget : c.queued[c.handed.length]? = some (buf.take len) := by
    have := congrArg (fun l => l[0]?) hhead
    rwa [List.getElem?_drop, Nat.add_zero] at this
  have hlt := (List.getElem?_eq_some_iff.1 hget).1
  refine ⟨?_, ?_, ?_, ?_⟩
  · show c'.txQueue.Ok
    rw [hf.txQueue]
    exact h.queue.tryDequeue hq
  · show c'.txQueue.contents = c'.queued.drop (c'.handed ++ _).length
    rw [hf.txQueue, hf.queued, hf.handed, List.length_append, List.length_singleton,
      ← List.drop_drop, hhead]
    rfl
  · show (c'.handed ++ _).length ≤ c'.queued.length
    rw [hf.queued, hf.handed, List.length_append]
    exact hlt
  · intro i data hi
    have hi : (c'.handed ++ [if sent then some (buf.take len) else none])[i]? = some (some data) := hi
    show c'.queued[i]? = some data
    rw [hf.handed] at hi
    rw [hf.queued]
    rcases lt_trichotomy i c.handed.length with hlt | rfl | hgt
    · rw [List.getElem?_append_left hlt] at hi
      exact h.handed_eq i data hi
    · rw [List.getElem?_concat_length] at hi
      cases sent with
      | false => cases hi
      | true =>
        cases hi
        exact hget
    · rw [List.getElem?_eq_none (by simpa using hgt)] at hi
      cases hi

theorem drain_ok (h : c.Ok) (answers : ℕ → ℕ → SendUni) (left n : ℕ) :
    (drain answers left n c).1.Ok ∧ (drain answers left n c).1.queued = c.queued ∧
      (drain answers left n c).1.excused = c.excused := by
  induction left generalizing n c with
  | zero => exact ⟨h, rfl, rfl⟩
  | succ left ih =>
    simp only [drain]
    split
    · exact ⟨h, rfl, rfl⟩
    · next q buf len hq =>
      have hf := sendAttempts_frame (answers n) maxRetries 0 { c with txQueue := q }
      split <;> rename_i heq <;> rw [heq] at hf
      · obtain ⟨hok, hqueued, hexcused⟩ := ih (h.take true hq hf) (n + 1)
        exact ⟨hok, hqueued.trans hf.queued, hexcused.trans hf.excused⟩
      · exact ⟨h.take false hq hf, hf.queued, hf.excused⟩

theorem NoneLost.concat_some (h : c.NoneLost) (data : Bytes) :
    NoneLost { c with handed := c.handed ++ [some data] } := by
  intro i hi hnone
  have hnone : (c.handed ++ [some data])[i]? = some none := hnone
  rcases lt_trichotomy i c.handed.length with hlt | rfl | hgt
  · rw [List.getElem?_append_left hlt] at hnone
    exact h i hi hnone
  · rw [List.getElem?_concat_length] at hnone
    cases hnone
  · rw [List.getElem?_eq_none (by simpa using hgt)] at hnone
    cases hnone

/-- If `quiche` takes every transaction, none is lost. -/
theorem drain_noneLost {answers : ℕ → ℕ → SendUni} (hacc : ∀ n, Accepted (answers n))
    (h : c.NoneLost) (left n : ℕ) : (drain answers left n c).1.NoneLost := by
  induction left generalizing n c with
  | zero => exact h
  | succ left ih =>
    simp only [drain]
    split
    · exact h
    · next q buf len hq =>
      have hf := sendAttempts_frame (answers n) maxRetries 0 { c with txQueue := q }
      have hsent := sendAttempts_of_accepted (hacc n) { c with txQueue := q }
      split <;> rename_i heq <;> rw [heq] at hf hsent
      · exact ih ((hf.noneLost h).concat_some _) (n + 1)
      · cases hsent

/-- If `quiche` takes every transaction, the queue is sent to its end, oldest first. -/
theorem drain_of_accepted {answers : ℕ → ℕ → SendUni} (hacc : ∀ n, Accepted (answers n))
    (c : QuicConnection) {left : ℕ} (hleft : c.txQueue.contents.length ≤ left) (n : ℕ) :
    (drain answers left n c).1.txQueue.contents = [] ∧
      (drain answers left n c).1.handed = c.handed ++ c.txQueue.contents.map some := by
  induction left generalizing n c with
  | zero =>
    have hnil : c.txQueue.contents = [] := List.length_eq_zero_iff.1 (Nat.le_zero.1 hleft)
    simp [drain, hnil]
  | succ left ih =>
    simp only [drain]
    split
    · next hq =>
      have hnil := TransactionQueue.tryDequeue_eq_none.1 hq
      simp [hnil]
    · next q buf len hq =>
      have hcontents := TransactionQueue.contents_of_tryDequeue hq
      have hf := sendAttempts_frame (answers n) maxRetries 0 { c with txQueue := q }
      have hsent := sendAttempts_of_accepted (hacc n) { c with txQueue := q }
      split <;> rename_i c' heq <;> rw [heq] at hf hsent
      · have hqueue : c'.txQueue = q := hf.txQueue
        have hfew : c'.txQueue.contents.length ≤ left := by
          rw [hqueue]
          rw [hcontents, List.length_cons] at hleft
          omega
        obtain ⟨hempty, hhanded⟩ :=
          ih { c' with handed := c'.handed ++ [some (buf.take len)] } hfew (n + 1)
        refine ⟨hempty, hhanded.trans ?_⟩
        show (c'.handed ++ [some (buf.take len)]) ++ c'.txQueue.contents.map some = _
        rw [hqueue, hf.handed, hcontents, List.map_cons, List.append_assoc]
        rfl
      · cases hsent

/-- Nothing to drain. -/
theorem drain_of_contents_nil (answers : ℕ → ℕ → SendUni) (left n : ℕ)
    (h : c.txQueue.contents = []) : drain answers left n c = (c, 0) := by
  cases left with
  | zero => rfl
  | succ left => rw [drain, TransactionQueue.tryDequeue_eq_none.2 h]

theorem Ok.enqueue (h : c.Ok) (hlost : c.NoneLost) (data : Bytes) :
    (c.enqueue data).1.Ok ∧ (c.enqueue data).1.NoneLost := by
  refine ⟨?_, hlost⟩
  obtain ⟨hq, ⟨position, hstatus, hcontents⟩ | ⟨hstatus, hsame⟩⟩ :=
    TransactionQueue.tryEnqueue_spec h.queue data
  · have hqueued : (c.enqueue data).1.queued = c.queued ++ [data] := by
      simp only [QuicConnection.enqueue, hstatus]
    refine ⟨hq, ?_, ?_, fun i d hi => ?_⟩
    · rw [hqueued]
      show (c.txQueue.tryEnqueue data).1.contents = (c.queued ++ [data]).drop c.handed.length
      rw [hcontents, h.contents, List.drop_append_of_le_length h.handed_le]
    · rw [hqueued, List.length_append]
      exact h.handed_le.trans (Nat.le_add_right _ _)
    · have hlt := (List.getElem?_eq_some_iff.1 (h.handed_eq i d hi)).1
      rw [hqueued, List.getElem?_append_left hlt]
      exact h.handed_eq i d hi
  · have hqueued : (c.enqueue data).1.queued = c.queued := by
      simp only [QuicConnection.enqueue]
    have hsame' : (c.enqueue data).1.txQueue = c.txQueue := hsame
    refine ⟨hq, ?_, ?_, ?_⟩
    · rw [hsame', hqueued]
      exact h.contents
    · rw [hqueued]
      exact h.handed_le
    · rw [hqueued]
      exact h.handed_eq

theorem Ok.excuse (h : c.Ok) : c.excuse.Ok ∧ c.excuse.NoneLost := by
  refine ⟨⟨h.queue, h.contents, h.handed_le, h.handed_eq⟩, fun i hi hnone => ?_⟩
  have hlt := (List.getElem?_eq_some_iff.1 hnone).1
  have : c.queued.length ≤ i := hi
  exact absurd (hlt.trans_le h.handed_le) (not_lt.2 this)

end QuicConnection

end Land.Quic
