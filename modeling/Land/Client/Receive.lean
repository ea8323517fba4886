import Land.Client.Connection

/-!
# The receive buffer of the client

`recv` of `client/src/connection.rs` with what it does to the buffer.  Room for 4096 bytes is made before
anything is read, and every way out of `recv_plain` and of `recv_tls` cuts off what was not filled, except
for one: when `process_new_packets` fails, the operator `?` returns with the room still there.

Up to the room, this is the `recv` of `Land.Client.Connection` (`recv_eq`), which gives its result without
the steps in between.
-/

namespace Land.Client.Receive

open Server (Bytes)

/-- `buf.resize(len, 0)`. -/
def resize (buf : Bytes) (len : ℕ) : Bytes := buf.take len ++ List.replicate (len - buf.length) 0

/-- The number of bytes that the buffer is enlarged by. -/
def room : ℕ := 4096

/-- The bytes that a read puts into the room. -/
structure Received where
  data : Bytes
  fits : data.length ≤ room

/-- The buffer after a read into `buf[start..]`. -/
def readInto (buf : Bytes) (start : ℕ) (received : Received) : Bytes :=
  buf.take start ++ received.data ++ buf.drop (start + received.data.length)

/-- What the connection meets while it receives: for TLS the number of bytes from the network and the result of
`process_new_packets`, and then the read into the buffer. -/
structure Answers where
  network : Io ℕ
  process : Except String Unit
  read : Io Received

/-- The end of `recv_plain` and of `recv_tls`, with room in the buffer from `startLen` on. -/
def finishRead (buf : Bytes) (startLen : ℕ) : Io Received → Bytes × Except Error ℕ
  | .ok received =>
      let buf := readInto buf startLen received
      match received.data.length with
      | 0 => (buf.take startLen, .error (.recv "connection closed"))
      | n + 1 => (buf.take (startLen + (n + 1)), .ok (n + 1))
  | .wouldBlock => (buf.take startLen, .error .wouldBlock)
  | .interrupted => (buf.take startLen, .error (.recv "interrupted"))
  | .error text => (buf.take startLen, .error (.recv text))

/-- `recv_plain`. -/
def recvPlain (buf : Bytes) (answers : Answers) : Bytes × Except Error ℕ :=
  let startLen := buf.length
  let buf := resize buf (startLen + room)
  finishRead buf startLen answers.read

/-- `recv_tls`. -/
def recvTls (buf : Bytes) (answers : Answers) : Bytes × Except Error ℕ :=
  let startLen := buf.length
  let buf := resize buf (startLen + room)
  match answers.network with
  | .ok 0 => (buf.take startLen, .error (.recv "connection closed"))
  | .ok (_ + 1) =>
      match answers.process with
      -- `?`
      | .error text => (buf, .error (.recv text))
      | .ok () => finishRead buf startLen answers.read
  | .wouldBlock => finishRead buf startLen answers.read
  | .interrupted => (buf.take startLen, .error (.recv "interrupted"))
  | .error text => (buf.take startLen, .error (.recv text))

/-- `recv`. -/
def recv (conn : Connection) (buf : Bytes) (answers : Answers) : Bytes × Except Error ℕ :=
  if conn.connected then if conn.useTls then recvTls buf answers else recvPlain buf answers
  else (buf, .error (.recv "not connected"))

/-! ### The result without the room -/

/-- The answers, without the bound on what is read. -/
def Answers.steps (answers : Answers) : RecvSteps where
  network := answers.network
  process := answers.process
  read :=
    match answers.read with
    | .ok received => .ok received.data
    | .wouldBlock => .wouldBlock
    | .interrupted => .interrupted
    | .error text => .error text

theorem resize_add (buf : Bytes) (n : ℕ) : resize buf (buf.length + n) = buf ++ List.replicate n 0 := by
  rw [resize, List.take_of_length_le (Nat.le_add_right _ _), Nat.add_sub_cancel_left]

/-- What is read stands behind what was there. -/
theorem take_readInto (buf : Bytes) (received : Received) :
    (readInto (buf ++ List.replicate room 0) buf.length received).take (buf.length + received.data.length) =
      buf ++ received.data := by
  rw [readInto, List.take_left, ← List.length_append, List.take_left]

theorem finishRead_eq (buf : Bytes) (answers : Answers) :
    finishRead (buf ++ List.replicate room 0) buf.length answers.read = keepRead buf answers.steps.read := by
  obtain ⟨network, process, read⟩ := answers
  cases read with
  | ok received =>
    have htake := take_readInto buf received
    obtain ⟨data, fits⟩ := received
    cases data with
    | nil =>
      simp only [List.length_nil, Nat.add_zero, List.append_nil] at htake
      exact Prod.ext htake rfl
    | cons b data => exact Prod.ext htake rfl
  | wouldBlock => exact Prod.ext List.take_left rfl
  | interrupted => exact Prod.ext List.take_left rfl
  | error text => exact Prod.ext List.take_left rfl

theorem recvTls_eq (buf : Bytes) (answers : Answers) :
    recvTls buf answers = Client.recvTls buf answers.steps := by
  have hread := finishRead_eq buf answers
  obtain ⟨network, process, read⟩ := answers
  simp only [recvTls, Client.recvTls, resize_add]
  cases network with
  | ok n =>
    cases n with
    | zero => exact Prod.ext List.take_left rfl
    | succ n =>
      cases process with
      | ok u => exact hread
      | error text => rfl
  | wouldBlock => exact hread
  | interrupted => exact Prod.ext List.take_left rfl
  | error text => exact Prod.ext List.take_left rfl

/-- The room is not seen in the result, except where `process_new_packets` fails. -/
theorem recv_eq (conn : Connection) (buf : Bytes) (answers : Answers) :
    recv conn buf answers = conn.recv buf answers.steps := by
  simp only [recv, Connection.recv, recvTls_eq, recvPlain, resize_add, finishRead_eq]

/-! ### Receiving is all or nothing -/

/-- The receive returns the number of bytes read and appends them, or fails and leaves the buffer. -/
def Atomic (conn : Connection) (buf : Bytes) (answers : Answers) : Prop :=
  (∃ received, answers.read = .ok received ∧
    recv conn buf answers = (buf ++ received.data, .ok received.data.length)) ∨
  ∃ e, recv conn buf answers = (buf, .error e)

/-- TLS records arrive and are rejected. -/
def Rejected (conn : Connection) (answers : Answers) : Prop :=
  conn.connected = true ∧ conn.useTls = true ∧ (∃ n, answers.network = .ok (n + 1)) ∧
    ∃ text, answers.process = .error text

variable {conn : Connection} {buf : Bytes} {answers : Answers}

theorem atomic_of_eq_keepRead (h : recv conn buf answers = keepRead buf answers.steps.read) :
    Atomic conn buf answers := by
  obtain ⟨network, process, read⟩ := answers
  cases read with
  | ok received =>
    obtain ⟨data, fits⟩ := received
    cases data with
    | nil => exact .inr ⟨_, h⟩
    | cons b data => exact .inl ⟨⟨b :: data, fits⟩, rfl, h⟩
  | wouldBlock => exact .inr ⟨_, h⟩
  | interrupted => exact .inr ⟨_, h⟩
  | error text => exact .inr ⟨_, h⟩

theorem not_atomic_of_rejected (h : Rejected conn answers) : ¬ Atomic conn buf answers := by
  obtain ⟨hconn, htls, ⟨n, hnetwork⟩, text, hprocess⟩ := h
  have hrecv : recv conn buf answers = (buf ++ List.replicate room 0, .error (.recv text)) := by
    simp only [recv, hconn, htls, if_true, recvTls, hnetwork, hprocess, resize_add]
  rintro (⟨received, -, hok⟩ | ⟨e, herr⟩)
  · rw [hrecv] at hok
    cases congrArg Prod.snd hok
  · have hlen := congrArg (fun r => r.1.length) (hrecv.symm.trans herr)
    simp only [List.length_append, List.length_replicate, room] at hlen
    omega

/-- Receiving is all or nothing exactly if no TLS records are rejected. -/
theorem atomic_iff (conn : Connection) (buf : Bytes) (answers : Answers) :
    Atomic conn buf answers ↔ ¬ Rejected conn answers := by
  refine ⟨fun h hrejected => not_atomic_of_rejected hrejected h, fun h => ?_⟩
  have hrecv := recv_eq conn buf answers
  unfold Connection.recv at hrecv
  split_ifs at hrecv with hconn htls
  · -- each way through `recv_tls`; the one through `?` is excluded
    unfold Client.recvTls at hrecv
    cases hnetwork : answers.steps.network with
    | ok n =>
      rw [hnetwork] at hrecv
      cases n with
      | zero => exact .inr ⟨_, hrecv⟩
      | succ n =>
        cases hprocess : answers.steps.process with
        | ok u =>
          rw [hprocess] at hrecv
          exact atomic_of_eq_keepRead hrecv
        | error text => exact absurd ⟨hconn, htls, ⟨n, hnetwork⟩, text, hprocess⟩ h
    | wouldBlock =>
      rw [hnetwork] at hrecv
      exact atomic_of_eq_keepRead hrecv
    | interrupted =>
      rw [hnetwork] at hrecv
      exact .inr ⟨_, hrecv⟩
    | error text =>
      rw [hnetwork] at hrecv
      exact .inr ⟨_, hrecv⟩
  · exact atomic_of_eq_keepRead hrecv
  · exact .inr ⟨_, hrecv⟩

/-- Records that do not authenticate leave 4096 zeros in an empty buffer. -/
theorem not_atomic_badRecord :
    let answers : Answers := ⟨.ok 29, .error "cannot decrypt peer's message", .wouldBlock⟩
    recv ⟨true, true⟩ [] answers =
        (List.replicate 4096 0, .error (.recv "cannot decrypt peer's message")) ∧
      ¬ Atomic ⟨true, true⟩ [] answers :=
  ⟨rfl, not_atomic_of_rejected ⟨rfl, rfl, ⟨28, rfl⟩, _, rfl⟩⟩

end Land.Client.Receive
