import Mathlib.Data.List.AList
import Land.Lib.Transition
import Land.Quic.Connection
import Land.Quic.SocketAddr

/-!
# Sending through `io_uring`

`IoUringBackend` of `quic/src/io_uring_backend.rs`, and `send_pending_packets` of `quic/src/endpoint.rs`, which falls
back to `send_to` when the backend returns an error.  What the ring and the kernel answer comes with the call.

A buffer is taken from the pool before the operation is pushed, and is dropped with the operation when there is no
room.  An entry stays in the submission queue when the kernel refuses it, although an error is returned; the next
`submit` hands it over, and the packet goes out a second time.  `allOrNothing_iff` says that nothing else goes wrong.
-/

namespace Land.Quic.Uring

/-! ### The backend -/

/-- `Box<[u8; MAX_PACKET_SIZE]>`. -/
structure Buffer where
  bytes : Bytes
  length_bytes : bytes.length = maxPacketSize

/-- `Box::new([0u8; MAX_PACKET_SIZE])`. -/
def Buffer.zero : Buffer := ⟨List.replicate maxPacketSize 0, List.length_replicate⟩

/-- `buf[..data.len()].copy_from_slice(data)`. -/
def Buffer.copyFromSlice (buf : Buffer) (data : Bytes) (h : data.length ≤ maxPacketSize) : Buffer where
  bytes := data ++ buf.bytes.drop data.length
  length_bytes := by
    rw [List.length_append, List.length_drop, buf.length_bytes]
    omega

/-- A packet and where it goes. -/
structure Datagram where
  data : Bytes
  addr : SocketAddr
  deriving DecidableEq

/-- `InFlightOp`.  The pointers of `iovec` and `msghdr` are to the other fields. -/
structure InFlightOp where
  buf : Buffer
  sockaddr : SocketAddr
  iovLen : ℕ

/-- What the kernel finds behind the pointers. -/
def InFlightOp.datagram (op : InFlightOp) : Datagram := ⟨op.buf.bytes.take op.iovLen, op.sockaddr⟩

/-- An entry of the submission queue, with the operation that its pointer is to. -/
structure Entry where
  socketFd : Int32
  op : InFlightOp
  userData : UInt64

/-- The ring.  An entry of the completion queue is its `user_data`; the result is only logged. -/
structure IoUring where
  /-- pushed, and not yet handed to the kernel -/
  submission : List Entry
  /-- handed to the kernel, which sends it once -/
  taken : List Entry
  completion : List UInt64

/-- `submission().push(&send_e)`, if there is room. -/
def IoUring.push (ring : IoUring) (entry : Entry) : IoUring :=
  { ring with submission := ring.submission ++ [entry] }

/-- `submit()`, if it succeeds: the kernel takes some entries from the front. -/
def IoUring.submit (ring : IoUring) (count : ℕ) : IoUring :=
  { ring with taken := ring.taken ++ ring.submission.take count, submission := ring.submission.drop count }

/-- `IoUringBackend`.  The pool is a stack, its top in front. -/
structure IoUringBackend where
  ring : IoUring
  bufPool : List Buffer
  inFlight : AList fun _ : UInt64 => InFlightOp
  nextUserData : UInt64

/-- What the ring and the kernel answer during one `submit_send`. -/
structure Answers where
  /-- whether there is room in the submission queue -/
  pushed : Bool
  /-- how many entries the kernel takes, unless `submit` fails -/
  submitted : Option ℕ
  deriving DecidableEq

namespace IoUringBackend

/-- A backend with an empty ring and as many buffers as the queue is deep. -/
def initial (queueDepth : UInt32) : IoUringBackend :=
  ⟨⟨[], [], []⟩, List.replicate queueDepth.toNat .zero, ∅, 0⟩

/-- `new`, if the system has `io_uring`. -/
def new (available : Bool) (queueDepth : UInt32) : Except String IoUringBackend :=
  if available then .ok (initial queueDepth) else .error "Failed to initialize io_uring"

/-- The part of `submit_send` after the entry was made. -/
def pushAndSubmit (b : IoUringBackend) (entry : Entry) (answers : Answers) : Except String Unit × IoUringBackend :=
  if answers.pushed then
    let b := { b with ring := b.ring.push entry, inFlight := b.inFlight.insert entry.userData entry.op }
    match answers.submitted with
    | some count => (.ok (), { b with ring := b.ring.submit count })
    | none => (.error "Failed to submit to kernel", b)
  else
    -- the operation is dropped here, and its buffer with it
    (.error "Failed to push to submission queue", b)

/-- `submit_send`. -/
def submitSend (b : IoUringBackend) (d : Datagram) (socketFd : Int32) (answers : Answers) :
    Except String Unit × IoUringBackend :=
  if h : d.data.length ≤ maxPacketSize then
    match b.bufPool with
    | [] => (.error "No available buffers", b)
    | buf :: bufPool =>
        let op := ⟨buf.copyFromSlice d.data h, d.addr, d.data.length⟩
        pushAndSubmit { b with bufPool := bufPool, nextUserData := b.nextUserData + 1 }
          ⟨socketFd, op, b.nextUserData⟩ answers
  else (.error "Packet exceeds maximum size", b)

/-- One iteration of the loop of `poll_completions`. -/
def reclaim (acc : IoUringBackend × ℕ) (userData : UInt64) : IoUringBackend × ℕ :=
  match acc.1.inFlight.lookup userData with
  | some op =>
      ({ acc.1 with inFlight := acc.1.inFlight.erase userData, bufPool := op.buf :: acc.1.bufPool }, acc.2 + 1)
  | none => acc

/-- `poll_completions`. -/
def pollCompletions (b : IoUringBackend) : Except String ℕ × IoUringBackend :=
  let acc := b.ring.completion.foldl reclaim ({ b with ring := { b.ring with completion := [] } }, 0)
  (.ok acc.2, acc.1)

/-- `available_buffers`. -/
def availableBuffers (b : IoUringBackend) : ℕ := b.bufPool.length

/-- `in_flight_count`. -/
def inFlightCount (b : IoUringBackend) : ℕ := b.inFlight.keys.length

end IoUringBackend

/-! ### The endpoint -/

/-- What sends in `QuicEndpoint`: the ring, if there is one, and the socket with what `send_to` has sent. -/
structure Sender where
  ioUring : Option IoUringBackend
  socketFd : Int32
  sentTo : List Datagram

/-- A packet that `conn.send` returns, and what happens to it. -/
structure Attempt where
  datagram : Datagram
  answers : Answers
  /-- the result of `send_to`, if it is called -/
  sendTo : Except Error Unit

namespace Sender

/-- `send_to`. -/
def fallback (s : Sender) (a : Attempt) : Except Error Unit × Sender :=
  match a.sendTo with
  | .ok _ => (.ok (), { s with sentTo := s.sentTo ++ [a.datagram] })
  | .error e => (.error e, s)

/-- One packet in the loop of `send_pending_packets`. -/
def sendPacket (s : Sender) (a : Attempt) : Except Error Unit × Sender :=
  match s.ioUring with
  | none => s.fallback a
  | some uring =>
      match uring.submitSend a.datagram s.socketFd a.answers with
      | (.ok _, uring) => (.ok (), { s with ioUring := some uring })
      | (.error _, uring) => fallback { s with ioUring := some uring } a

/-- The loop of `send_pending_packets`; `last` is what `conn.send` returns after its packets. -/
def sendLoop (last : Error) : List Attempt → ℕ → Sender → Except Error ℕ × Sender
  | [], packetsSent, s => (if last = .wouldBlock then .ok packetsSent else .error last, s)
  | a :: rest, packetsSent, s =>
      match s.sendPacket a with
      | (.ok _, s) => sendLoop last rest (packetsSent + 1) s
      | (.error e, s) => (.error e, s)

/-- `send_pending_packets`, for a slot with or without a connection. -/
def sendPendingPackets (s : Sender) (connected : Bool) (attempts : List Attempt) (last : Error) :
    Except Error ℕ × Sender :=
  if connected then sendLoop last attempts 0 s else (.error .notFound, s)

end Sender

/-! ### Runs -/

/-- The two calls, and the kernel when it posts a completion, whatever its `user_data`. -/
inductive Action where
  | submitSend (d : Datagram) (socketFd : Int32) (answers : Answers)
  | complete (userData : UInt64)
  | pollCompletions

namespace IoUringBackend

/-- The backend after an action. -/
def next (b : IoUringBackend) : Action → IoUringBackend
  | .submitSend d socketFd answers => (b.submitSend d socketFd answers).2
  | .complete userData => { b with ring := { b.ring with completion := b.ring.completion ++ [userData] } }
  | .pollCompletions => b.pollCompletions.2

/-- The action is a `submit_send` that returns an error. -/
def Fails (b : IoUringBackend) : Action → Prop
  | .submitSend d socketFd answers => ∃ e, (b.submitSend d socketFd answers).1 = .error e
  | .complete _ => False
  | .pollCompletions => False

/-- The buffers that are available or in flight. -/
def buffers (b : IoUringBackend) : ℕ := b.availableBuffers + b.inFlightCount

/-- There is a buffer for the packet. -/
def Ready (b : IoUringBackend) (d : Datagram) : Prop := d.data.length ≤ maxPacketSize ∧ b.bufPool ≠ []

/-- All buffers are there after the action, and an error leaves nothing in the submission queue. -/
structure AllOrNothing (depth : ℕ) (b : IoUringBackend) (a : Action) : Prop where
  conserved : (b.next a).buffers = depth
  nothing : b.Fails a → (b.next a).ring.submission = b.ring.submission

/-- If there is a buffer for the packet, then the entry is pushed and submitted under a `user_data` that is not in
flight. -/
def Accepted (b : IoUringBackend) : Action → Prop
  | .submitSend d _ answers =>
      b.Ready d → answers.pushed = true ∧ answers.submitted.isSome = true ∧ b.nextUserData ∉ b.inFlight
  | .complete _ => True
  | .pollCompletions => True

end IoUringBackend

open IoUringBackend

/-- The runs of a backend. -/
def uring (queueDepth : UInt32) : System IoUringBackend Action where
  init b := new true queueDepth = .ok b
  step b a := some (b.next a)

/-! ### One submission -/

/-- What the kernel has and what it will have with the next `submit`. -/
def IoUring.outgoing (ring : IoUring) : List Entry := ring.taken ++ ring.submission

theorem IoUring.outgoing_push (ring : IoUring) (entry : Entry) :
    (ring.push entry).outgoing = ring.outgoing ++ [entry] :=
  (List.append_assoc _ _ _).symm

theorem IoUring.outgoing_submit (ring : IoUring) (count : ℕ) : (ring.submit count).outgoing = ring.outgoing := by
  rw [outgoing, submit, List.append_assoc, List.take_append_drop, outgoing]

theorem Buffer.take_copyFromSlice (buf : Buffer) {data : Bytes} (h : data.length ≤ maxPacketSize) :
    (buf.copyFromSlice data h).bytes.take data.length = data :=
  List.take_left

namespace IoUringBackend

variable {b : IoUringBackend}

theorem submitSend_of_not_ready {d : Datagram} (h : ¬ b.Ready d) (socketFd : Int32) (answers : Answers) :
    ∃ e, b.submitSend d socketFd answers = (.error e, b) := by
  rw [submitSend]
  split_ifs with hlen
  · have hpool : b.bufPool = [] := by
      by_contra hpool
      exact h ⟨hlen, hpool⟩
    rw [hpool]
    exact ⟨_, rfl⟩
  · exact ⟨_, rfl⟩

/-- A buffer is taken from the pool, and the packet is copied into it. -/
theorem submitSend_of_ready {d : Datagram} (h : b.Ready d) (socketFd : Int32) (answers : Answers) :
    ∃ buf bufPool entry, b.bufPool = buf :: bufPool ∧ entry.userData = b.nextUserData ∧ entry.op.datagram = d ∧
      b.submitSend d socketFd answers =
        pushAndSubmit { b with bufPool := bufPool, nextUserData := b.nextUserData + 1 } entry answers := by
  obtain ⟨hlen, hpool⟩ := h
  obtain ⟨buf, bufPool, hpool⟩ := List.exists_cons_of_ne_nil hpool
  refine ⟨buf, bufPool, ⟨socketFd, ⟨buf.copyFromSlice d.data hlen, d.addr, d.data.length⟩, b.nextUserData⟩,
    hpool, rfl, ?_, ?_⟩
  · rw [InFlightOp.datagram, Buffer.take_copyFromSlice]
  · rw [submitSend, dif_pos hlen, hpool]

/-- Either the entry is not pushed, and nothing happens; or it is outgoing, and its operation is in flight, whatever
is returned. -/
theorem pushAndSubmit_cases (b : IoUringBackend) (entry : Entry) (answers : Answers) :
    (answers.pushed = false ∧ b.pushAndSubmit entry answers = (.error "Failed to push to submission queue", b)) ∨
    ∃ result ring, answers.pushed = true ∧
      b.pushAndSubmit entry answers =
        (result, { b with ring := ring, inFlight := b.inFlight.insert entry.userData entry.op }) ∧
      ring.outgoing = b.ring.outgoing ++ [entry] ∧
      (answers.submitted = none ∧ result = .error "Failed to submit to kernel" ∧ ring = b.ring.push entry ∨
        answers.submitted.isSome = true ∧ result = .ok ()) := by
  rw [pushAndSubmit]
  cases answers.pushed with
  | false => exact .inl ⟨rfl, rfl⟩
  | true =>
    right
    cases answers.submitted with
    | none => exact ⟨_, _, rfl, rfl, IoUring.outgoing_push _ _, .inl ⟨rfl, rfl, rfl⟩⟩
    | some count =>
      refine ⟨_, _, rfl, rfl, ?_, .inr ⟨rfl, rfl⟩⟩
      rw [IoUring.outgoing_submit, IoUring.outgoing_push]

theorem length_keys_insert (s : AList fun _ : UInt64 => InFlightOp) (userData : UInt64) (op : InFlightOp) :
    (s.insert userData op).keys.length = if userData ∈ s then s.keys.length else s.keys.length + 1 := by
  rw [AList.keys_insert, List.length_cons]
  split_ifs with hmem
  · have hpos := List.length_pos_of_mem (AList.mem_keys.1 hmem)
    rw [List.length_erase_of_mem (AList.mem_keys.1 hmem)]
    omega
  · rw [List.erase_of_not_mem fun h => hmem (AList.mem_keys.2 h)]

/-- A pushed operation holds its buffer, unless it takes the place of another one. -/
theorem buffers_pushAndSubmit (b : IoUringBackend) (entry : Entry) (answers : Answers) :
    (b.pushAndSubmit entry answers).2.buffers =
      if answers.pushed = true ∧ entry.userData ∉ b.inFlight then b.buffers + 1 else b.buffers := by
  obtain ⟨hpushed, hr⟩ | ⟨result, ring, hpushed, hr, -, -⟩ := pushAndSubmit_cases b entry answers
  · rw [hr, hpushed, if_neg fun h => Bool.false_ne_true h.1]
  · rw [hr, buffers, inFlightCount, length_keys_insert]
    by_cases hmem : entry.userData ∈ b.inFlight
    · rw [if_pos hmem, if_neg fun h => h.2 hmem]
      rfl
    · rw [if_neg hmem, if_pos ⟨hpushed, hmem⟩]
      rfl

/-- An error leaves the submission queue as it is, unless the entry was pushed before. -/
theorem submission_pushAndSubmit (b : IoUringBackend) (entry : Entry) (answers : Answers) :
    ((∃ e, (b.pushAndSubmit entry answers).1 = .error e) →
      (b.pushAndSubmit entry answers).2.ring.submission = b.ring.submission) ↔
    (answers.pushed = true → answers.submitted.isSome = true) := by
  obtain ⟨hpushed, hr⟩ | ⟨result, ring, hpushed, hr, -, ⟨hnone, rfl, rfl⟩ | ⟨hsome, rfl⟩⟩ :=
    pushAndSubmit_cases b entry answers
  · rw [hr, hpushed]
    exact ⟨fun _ h => absurd h Bool.false_ne_true, fun _ _ => rfl⟩
  · rw [hr, hnone]
    constructor
    · -- the queue has one entry more
      intro h
      have hlen := congrArg List.length (h ⟨_, rfl⟩)
      rw [IoUring.push, List.length_append, List.length_singleton] at hlen
      omega
    · exact fun h => absurd (h hpushed) Bool.false_ne_true
  · rw [hr]
    refine ⟨fun _ _ => hsome, fun _ herror => ?_⟩
    obtain ⟨e, he⟩ := herror
    cases he

/-- From a backend with all its buffers, a `submit_send` is all or nothing exactly if it is accepted. -/
theorem allOrNothing_submitSend_iff {depth : ℕ} (hb : b.buffers = depth) (d : Datagram) (socketFd : Int32)
    (answers : Answers) :
    AllOrNothing depth b (.submitSend d socketFd answers) ↔ b.Accepted (.submitSend d socketFd answers) := by
  by_cases hready : b.Ready d
  · obtain ⟨buf, bufPool, entry, hpool, hdata, -, hr⟩ := submitSend_of_ready hready socketFd answers
    have hqueue := submission_pushAndSubmit
      { b with bufPool := bufPool, nextUserData := b.nextUserData + 1 } entry answers
    rw [← hr] at hqueue
    have hconserved : (b.submitSend d socketFd answers).2.buffers = depth ↔
        answers.pushed = true ∧ b.nextUserData ∉ b.inFlight := by
      have hdepth : bufPool.length + 1 + b.inFlightCount = depth := by
        rw [← hb, buffers, availableBuffers, hpool, List.length_cons]
      have htaken : ({ b with bufPool := bufPool, nextUserData := b.nextUserData + 1 } : IoUringBackend).buffers =
          bufPool.length + b.inFlightCount := rfl
      rw [hr, buffers_pushAndSubmit, hdata, htaken]
      split_ifs with h
      · exact ⟨fun _ => h, fun _ => by omega⟩
      · exact ⟨fun _ => by omega, fun h' => absurd h' h⟩
    constructor
    · intro hall _
      obtain ⟨hpushed, hfresh⟩ := hconserved.1 hall.conserved
      exact ⟨hpushed, hqueue.1 hall.nothing hpushed, hfresh⟩
    · intro haccepted
      obtain ⟨hpushed, hsubmitted, hfresh⟩ := haccepted hready
      exact ⟨hconserved.2 ⟨hpushed, hfresh⟩, hqueue.2 fun _ => hsubmitted⟩
  · obtain ⟨e, hr⟩ := submitSend_of_not_ready hready socketFd answers
    refine ⟨fun _ h => absurd h hready, fun _ => ⟨?_, fun _ => ?_⟩⟩
    · rw [next, hr, hb]
    · rw [next, hr]

/-! ### Completions -/

theorem buffers_reclaim (acc : IoUringBackend × ℕ) (userData : UInt64) :
    (reclaim acc userData).1.buffers = acc.1.buffers := by
  rw [reclaim]
  cases hop : acc.1.inFlight.lookup userData with
  | none => rfl
  | some op =>
    have hmem : userData ∈ acc.1.inFlight.keys := by
      rw [← AList.mem_keys, ← AList.lookup_isSome, hop, Option.isSome_some]
    have hpos := List.length_pos_of_mem hmem
    simp only [buffers, availableBuffers, inFlightCount, List.length_cons, AList.keys_erase,
      List.length_erase_of_mem hmem]
    omega

/-- What one iteration keeps, the loop keeps. -/
theorem pollCompletions_induction {I : IoUringBackend → Prop} (b : IoUringBackend)
    (hstart : I { b with ring := { b.ring with completion := [] } })
    (hstep : ∀ acc userData, I acc.1 → I (reclaim acc userData).1) : I b.pollCompletions.2 := by
  have hloop (ids : List UInt64) : ∀ acc : IoUringBackend × ℕ, I acc.1 → I (ids.foldl reclaim acc).1 := by
    induction ids with
    | nil => exact fun _ h => h
    | cons id ids ih => exact fun acc h => ih _ (hstep acc id h)
  exact hloop b.ring.completion _ hstart

theorem buffers_pollCompletions (b : IoUringBackend) : b.pollCompletions.2.buffers = b.buffers := by
  refine pollCompletions_induction (I := fun b' => b'.buffers = b.buffers) b rfl ?_
  intro acc userData h
  rw [buffers_reclaim, h]

theorem allOrNothing_iff_accepted {depth : ℕ} (hb : b.buffers = depth) (a : Action) :
    AllOrNothing depth b a ↔ b.Accepted a := by
  cases a with
  | submitSend d socketFd answers => exact allOrNothing_submitSend_iff hb d socketFd answers
  | complete userData => exact ⟨fun _ => trivial, fun _ => ⟨hb, fun h => h.elim⟩⟩
  | pollCompletions =>
    exact ⟨fun _ => trivial, fun _ => ⟨(buffers_pollCompletions b).trans hb, fun h => h.elim⟩⟩

theorem buffers_initial (queueDepth : UInt32) : (initial queueDepth).buffers = queueDepth.toNat :=
  List.length_replicate

theorem buffers_of_reachableVia {queueDepth : UInt32} (h : (uring queueDepth).ReachableVia Accepted b) :
    b.buffers = queueDepth.toNat := by
  refine h.invariant (I := fun b => b.buffers = queueDepth.toNat) ?_ ?_
  · intro b hinit
    obtain rfl : initial queueDepth = b := Except.ok.inj hinit
    exact buffers_initial queueDepth
  · intro b a b' haccepted hb hstep
    obtain rfl := Option.some.inj hstep
    exact ((allOrNothing_iff_accepted hb a).2 haccepted).conserved

/-! ### The numbers of the operations -/

/-- At most so many numbers have been given, and those in flight are among them. -/
structure Numbered (given : ℕ) (b : IoUringBackend) : Prop where
  next_le : b.nextUserData.toNat ≤ given
  lt_next : ∀ userData ∈ b.inFlight, userData.toNat < b.nextUserData.toNat

theorem Numbered.mono {given given' : ℕ} (h : Numbered given b) (hle : given ≤ given') : Numbered given' b :=
  ⟨h.next_le.trans hle, h.lt_next⟩

theorem Numbered.submitSend {given : ℕ} (h : Numbered given b) (hgiven : given + 1 < 2 ^ 64) (d : Datagram)
    (socketFd : Int32) (answers : Answers) : Numbered (given + 1) (b.submitSend d socketFd answers).2 := by
  by_cases hready : b.Ready d
  · obtain ⟨buf, bufPool, entry, -, hdata, -, hr⟩ := submitSend_of_ready hready socketFd answers
    have hle := h.next_le
    have hnext : (b.nextUserData + 1).toNat = b.nextUserData.toNat + 1 := by
      rw [UInt64.toNat_add]
      exact Nat.mod_eq_of_lt (by simpa using by omega)
    have hold (userData : UInt64) (hmem : userData ∈ b.inFlight) : userData.toNat < (b.nextUserData + 1).toNat := by
      have hlt := h.lt_next userData hmem
      omega
    rw [hr]
    obtain ⟨-, hr'⟩ | ⟨result, ring, -, hr', -, -⟩ := pushAndSubmit_cases
      { b with bufPool := bufPool, nextUserData := b.nextUserData + 1 } entry answers
    · rw [hr']
      exact ⟨by rw [hnext]; omega, hold⟩
    · rw [hr']
      refine ⟨by rw [hnext]; omega, fun userData hmem => ?_⟩
      rcases (AList.mem_insert _).1 hmem with rfl | hmem
      · rw [hdata, hnext]
        omega
      · exact hold userData hmem
  · obtain ⟨e, hr⟩ := submitSend_of_not_ready hready socketFd answers
    rw [hr]
    exact h.mono (Nat.le_succ given)

theorem Numbered.pollCompletions {given : ℕ} (h : Numbered given b) : Numbered given b.pollCompletions.2 := by
  refine pollCompletions_induction (I := Numbered given) b ⟨h.next_le, h.lt_next⟩ ?_
  intro acc userData hacc
  rw [reclaim]
  cases acc.1.inFlight.lookup userData with
  | none => exact hacc
  | some op => exact ⟨hacc.next_le, fun id hid => hacc.lt_next id (AList.mem_erase.1 hid).2⟩

theorem Numbered.next {given : ℕ} (h : Numbered given b) (hgiven : given + 1 < 2 ^ 64) (a : Action) :
    Numbered (given + 1) (b.next a) := by
  cases a with
  | submitSend d socketFd answers => exact h.submitSend hgiven d socketFd answers
  | complete userData => exact ⟨h.next_le.trans (Nat.le_succ given), h.lt_next⟩
  | pollCompletions => exact h.pollCompletions.mono (Nat.le_succ given)

theorem Numbered.run {queueDepth : UInt32} {given : ℕ} {as : List Action} {b' : IoUringBackend} (h : Numbered given b)
    (hgiven : given + as.length < 2 ^ 64) (hrun : (uring queueDepth).run b as = some b') :
    Numbered (given + as.length) b' := by
  induction as generalizing b given with
  | nil =>
    obtain rfl := Option.some.inj hrun
    exact h
  | cons a as ih =>
    rw [List.length_cons, ← Nat.succ_add_eq_add_succ] at hgiven ⊢
    exact ih (h.next (by omega) a) hgiven hrun

/-- A run of fewer than `2 ^ 64` actions never meets a number that is in flight. -/
theorem fresh_of_run {queueDepth : UInt32} {as : List Action} (hlen : as.length < 2 ^ 64)
    (hrun : (uring queueDepth).run (initial queueDepth) as = some b) : b.nextUserData ∉ b.inFlight := by
  have hinit : Numbered 0 (initial queueDepth) := by
    refine ⟨Nat.le_refl 0, fun userData hmem => ?_⟩
    exact absurd hmem (AList.notMem_empty userData)
  intro hmem
  have hnumbered := hinit.run (by rwa [Nat.zero_add]) hrun
  exact lt_irrefl _ (hnumbered.lt_next _ hmem)

/-! ### What goes out -/

/-- If no pushed entry is refused by the kernel, the packet becomes outgoing exactly if `submit_send` succeeds. -/
theorem outgoing_submitSend (d : Datagram) (socketFd : Int32) (answers : Answers)
    (h : b.Ready d → answers.pushed = true → answers.submitted.isSome = true) :
    (∃ e b', b.submitSend d socketFd answers = (.error e, b') ∧ b'.ring.outgoing = b.ring.outgoing) ∨
    ∃ entry b', b.submitSend d socketFd answers = (.ok (), b') ∧ entry.op.datagram = d ∧
      b'.ring.outgoing = b.ring.outgoing ++ [entry] := by
  by_cases hready : b.Ready d
  · obtain ⟨buf, bufPool, entry, -, -, hd, hr⟩ := submitSend_of_ready hready socketFd answers
    rw [hr]
    obtain ⟨-, hr'⟩ | ⟨result, ring, hpushed, hr', hring, ⟨hnone, -, -⟩ | ⟨-, rfl⟩⟩ := pushAndSubmit_cases
      { b with bufPool := bufPool, nextUserData := b.nextUserData + 1 } entry answers
    · exact .inl ⟨_, _, hr', rfl⟩
    · have hsome := h hready hpushed
      rw [hnone] at hsome
      cases hsome
    · exact .inr ⟨entry, _, hr', hd, hring⟩
  · obtain ⟨e, hr⟩ := submitSend_of_not_ready hready socketFd answers
    exact .inl ⟨e, b, hr, rfl⟩

end IoUringBackend

namespace Sender

/-- The packets that have gone out or will go out with the next `submit`. -/
def out (s : Sender) : List Datagram :=
  s.sentTo ++ (s.ioUring.elim [] fun uring => uring.ring.outgoing.map fun entry => entry.op.datagram)

/-- If the entry for the packet is pushed, the kernel does not refuse it. -/
def Once (s : Sender) (a : Attempt) : Prop :=
  ∀ uring, s.ioUring = some uring → uring.Ready a.datagram → a.answers.pushed = true →
    a.answers.submitted.isSome = true

theorem out_fallback (s : Sender) (a : Attempt) :
    (s.fallback a).1 = .ok () ∧ (s.fallback a).2.out.Perm (s.out ++ [a.datagram]) ∨
    ∃ e, (s.fallback a).1 = .error e ∧ (s.fallback a).2.out = s.out := by
  rw [fallback]
  cases a.sendTo with
  | ok _ =>
    refine .inl ⟨rfl, ?_⟩
    rw [out, out, List.append_assoc, List.append_assoc]
    exact List.perm_append_comm.append_left s.sentTo
  | error e => exact .inr ⟨e, rfl, rfl⟩

/-- A packet is sent once, or not at all if `send_to` fails. -/
theorem out_sendPacket {s : Sender} {a : Attempt} (h : s.Once a) :
    (s.sendPacket a).1 = .ok () ∧ (s.sendPacket a).2.out.Perm (s.out ++ [a.datagram]) ∨
    ∃ e, (s.sendPacket a).1 = .error e ∧ (s.sendPacket a).2.out = s.out := by
  rw [sendPacket]
  cases huring : s.ioUring with
  | none => exact out_fallback s a
  | some uring =>
    obtain ⟨e, uring', hr, hring⟩ | ⟨entry, uring', hr, hd, hring⟩ :=
      outgoing_submitSend a.datagram s.socketFd a.answers (h uring huring)
    · have hout : ({ s with ioUring := some uring' } : Sender).out = s.out := by
        rw [out, out, huring, Option.elim_some, Option.elim_some, hring]
      have hfallback := out_fallback { s with ioUring := some uring' } a
      rw [hout] at hfallback
      dsimp only
      rw [hr]
      exact hfallback
    · dsimp only
      rw [hr]
      refine .inl ⟨rfl, List.Perm.of_eq ?_⟩
      rw [out, out, huring, Option.elim_some, Option.elim_some, hring, List.map_append, List.map_singleton, hd,
        List.append_assoc]

/-- `send_pending_packets` sends a number of packets once, and all of them if it succeeds. -/
theorem out_sendLoop (last : Error) {attempts : List Attempt} (packetsSent : ℕ) (s : Sender)
    (h : ∀ a ∈ attempts, a.answers.pushed = true → a.answers.submitted.isSome = true) :
    ∃ count ≤ attempts.length,
      (sendLoop last attempts packetsSent s).2.out.Perm (s.out ++ (attempts.take count).map (·.datagram)) ∧
      ∀ n, (sendLoop last attempts packetsSent s).1 = .ok n →
        count = attempts.length ∧ n = packetsSent + attempts.length := by
  induction attempts generalizing packetsSent s with
  | nil =>
    refine ⟨0, le_rfl, ?_, fun n hn => ⟨rfl, ?_⟩⟩
    · rw [List.take_nil, List.map_nil, List.append_nil]
      rfl
    · rw [sendLoop] at hn
      split_ifs at hn
      · exact (Except.ok.inj hn).symm
  | cons a attempts ih =>
    rw [sendLoop]
    obtain ⟨hok, hperm⟩ | ⟨e, herror, hout⟩ :=
      out_sendPacket (s := s) (a := a) fun _ _ _ => h a List.mem_cons_self
    · obtain ⟨s', hs'⟩ : ∃ s', s.sendPacket a = (.ok (), s') := ⟨_, Prod.ext hok rfl⟩
      obtain ⟨count, hle, hrest, hn⟩ := ih (packetsSent + 1) s' fun a' ha' => h a' (List.mem_cons_of_mem a ha')
      rw [hs'] at hperm ⊢
      refine ⟨count + 1, Nat.succ_le_succ hle, ?_, fun n hresult => ?_⟩
      · rw [List.take_succ_cons, List.map_cons, List.append_cons]
        exact hrest.trans (hperm.append_right _)
      · obtain ⟨rfl, rfl⟩ := hn n hresult
        exact ⟨rfl, by rw [List.length_cons]; omega⟩
    · obtain ⟨s', hs'⟩ : ∃ s', s.sendPacket a = (.error e, s') := ⟨_, Prod.ext herror rfl⟩
      rw [hs'] at hout ⊢
      refine ⟨0, Nat.zero_le _, ?_, fun n hn => ?_⟩
      · rw [List.take_zero, List.map_nil, List.append_nil]
        exact List.Perm.of_eq hout
      · cases hn

theorem out_sendPendingPackets (s : Sender) (connected : Bool) {attempts : List Attempt} (last : Error)
    (h : ∀ a ∈ attempts, a.answers.pushed = true → a.answers.submitted.isSome = true) :
    ∃ count ≤ attempts.length,
      (s.sendPendingPackets connected attempts last).2.out.Perm (s.out ++ (attempts.take count).map (·.datagram)) ∧
      ∀ n, (s.sendPendingPackets connected attempts last).1 = .ok n → count = attempts.length ∧ n = attempts.length := by
  cases connected with
  | false =>
    refine ⟨0, Nat.zero_le _, ?_, ?_⟩
    · rw [List.take_zero, List.map_nil, List.append_nil]
      rfl
    · rintro n ⟨⟩
  | true =>
    obtain ⟨count, hle, hperm, hn⟩ := out_sendLoop last 0 s h
    refine ⟨count, hle, hperm, fun n hresult => ?_⟩
    obtain ⟨hcount, hsum⟩ := hn n hresult
    exact ⟨hcount, hsum.trans (Nat.zero_add _)⟩

end Sender

/-- A backend whose submissions were accepted has all its buffers, and the next action is all or nothing exactly if it
is accepted, too.  That the number of an operation is not in flight is so in every run of fewer than `2 ^ 64` actions.
A packet that is accepted does not go out a second time by `send_to`. -/
theorem allOrNothing_iff (queueDepth : UInt32) {b : IoUringBackend}
    (hb : (uring queueDepth).ReachableVia Accepted b) :
    b.availableBuffers + b.inFlightCount = queueDepth.toNat ∧
    (∀ a, AllOrNothing queueDepth.toNat b a ↔ b.Accepted a) ∧
    (∀ as : List Action, as.length < 2 ^ 64 → (uring queueDepth).run (initial queueDepth) as = some b →
      b.nextUserData ∉ b.inFlight) ∧
    ∀ (s : Sender) (a : Attempt), s.ioUring = some b → b.Accepted (.submitSend a.datagram s.socketFd a.answers) →
      (s.sendPacket a).2.out.Perm (s.out ++ [a.datagram]) ∨ (s.sendPacket a).2.out = s.out := by
  have hbuffers := buffers_of_reachableVia hb
  refine ⟨hbuffers, allOrNothing_iff_accepted hbuffers, fun as hlen => fresh_of_run hlen, ?_⟩
  intro s a huring haccepted
  have honce : s.Once a := by
    intro uring h hready _
    obtain rfl := Option.some.inj (huring.symm.trans h)
    exact (haccepted hready).2.1
  rcases Sender.out_sendPacket honce with ⟨-, hperm⟩ | ⟨e, -, hout⟩
  · exact .inl hperm
  · exact .inr hout

/-- A small packet. -/
def hello : Datagram := ⟨[104, 101, 108, 108, 111], .v4 1 1⟩

theorem ready_hello : (initial 2).Ready hello := ⟨by decide, by decide⟩

/-- A packet in flight. -/
theorem allOrNothing_iff_hello :
    ((initial 2).next (.submitSend hello 3 ⟨true, some 1⟩)).availableBuffers +
      ((initial 2).next (.submitSend hello 3 ⟨true, some 1⟩)).inFlightCount = 2 :=
  (allOrNothing_iff 2 (.step (.submitSend hello 3 ⟨true, some 1⟩) (.init rfl)
    (fun _ => ⟨rfl, rfl, AList.notMem_empty 0⟩) rfl)).1

/-- If there is no room in the submission queue, a buffer is lost.  If the kernel refuses, the packet is sent by
`send_to` and handed to the kernel with the next one. -/
theorem not_allOrNothing_refused :
    (¬ AllOrNothing 2 (initial 2) (.submitSend hello 3 ⟨false, none⟩) ∧
      ((initial 2).next (.submitSend hello 3 ⟨false, none⟩)).buffers = 1) ∧
    ¬ AllOrNothing 2 (initial 2) (.submitSend hello 3 ⟨true, none⟩) ∧
    (Sender.sendPendingPackets ⟨some (initial 2), 3, []⟩ true
      [⟨hello, ⟨true, none⟩, .ok ()⟩, ⟨⟨[], .v4 1 1⟩, ⟨true, some 2⟩, .ok ()⟩] .wouldBlock).2.out =
        [hello, hello, ⟨[], .v4 1 1⟩] := by
  refine ⟨⟨fun h => ?_, by decide +kernel⟩, fun h => ?_, by decide +kernel⟩
  · have haccepted := (allOrNothing_iff_accepted (buffers_initial 2) _).1 h ready_hello
    exact Bool.false_ne_true haccepted.1
  · have haccepted := (allOrNothing_iff_accepted (buffers_initial 2) _).1 h ready_hello
    exact Bool.false_ne_true haccepted.2.1

end Land.Quic.Uring
