import Land.Client.Request
import Land.Client.Response

/-!
# The client and its connection

`Connection` of `client/src/connection.rs` and `LandClient::send_with_opts` of `client/src/client.rs`.
What `poll`, the socket and the TLS session give comes from outside, one result per call.
-/

namespace Land.Client

open Server (Bytes)

/-- What a call of the socket or of the TLS session gives. -/
inductive Io (α : Type) where
  | ok (value : α)
  | wouldBlock
  | interrupted
  | error (text : String)

/-! ## Waiting -/

/-- An event of mio. -/
structure PollEvent where
  token : ℕ
  readable : Bool
  writable : Bool

/-- `CONNECTION`. -/
def connectionToken : ℕ := 0

/-- What `poll` gives: an error, or the events, none of them when the time is over. -/
abbrev Poll := Except String (List PollEvent)

/-- The loop of `wait_readable` and `wait_writable`; no result while it goes on. -/
def waitFor (ready : PollEvent → Bool) (err : String → Error) (timeout : String) :
    List Poll → Option (Except Error Unit)
  | [] => none
  | .error text :: _ => some (.error (err text))
  | .ok events :: polls =>
      if events.any fun event => event.token == connectionToken && ready event then some (.ok ())
      else if events.isEmpty then some (.error (err timeout))
      else waitFor ready err timeout polls

/-- `wait_writable`. -/
def waitWritable : List Poll → Option (Except Error Unit) :=
  waitFor PollEvent.writable .send "write timeout"

/-- `wait_readable`. -/
def waitReadable : List Poll → Option (Except Error Unit) :=
  waitFor PollEvent.readable .recv "read timeout"

/-! ## Sending -/

/-- One attempt to write, with the polls of `wait_writable` when it would block. -/
structure WriteStep where
  result : Io ℕ
  polls : List Poll

/-- `send_plain`; no result while it goes on, and none when the socket takes more than it was given. -/
def sendPlain : Bytes → List WriteStep → Option (Except Error Unit)
  | [], _ => some (.ok ())
  | _ :: _, [] => none
  | b :: data, w :: ws =>
      match w.result with
      | .ok 0 => some (.error (.send "write returned 0"))
      | .ok (n + 1) => if n ≤ data.length then sendPlain (data.drop n) ws else none
      | .wouldBlock =>
          match waitWritable w.polls with
          | some (.ok ()) => sendPlain (b :: data) ws
          | r => r
      | .interrupted => sendPlain (b :: data) ws
      | .error text => some (.error (.send text))

/-- `flush_tls_write`: the steps are the calls of `write_tls` until nothing is left to write. -/
def flushTlsWrite : List WriteStep → Option (Except Error Unit)
  | [] => some (.ok ())
  | w :: ws =>
      match w.result with
      | .ok _ => flushTlsWrite ws
      | .wouldBlock =>
          match waitWritable w.polls with
          | some (.ok ()) => flushTlsWrite ws
          | r => r
      | .interrupted => some (.error (.send "interrupted"))
      | .error text => some (.error (.send text))

/-- `Connection`: whether there is a stream, and whether it is encrypted. -/
structure Connection where
  connected : Bool
  useTls : Bool

/-- What the connection meets while it sends: for TLS, first the result of `write_all`. -/
structure SendSteps where
  writeAll : Except String Unit
  writes : List WriteStep

/-- `send`. -/
def Connection.send (conn : Connection) (data : Bytes) (steps : SendSteps) : Option (Except Error Unit) :=
  if conn.connected then
    if conn.useTls then
      -- `send_tls`
      match steps.writeAll with
      | .error text => some (.error (.send text))
      | .ok () => flushTlsWrite steps.writes
    else sendPlain data steps.writes
  else some (.error (.send "not connected"))

/-! ## Receiving -/

/-- The end of `recv_plain` and of `recv_tls`: what was read is kept. -/
def keepRead (buf : Bytes) : Io Bytes → Bytes × Except Error ℕ
  | .ok [] => (buf, .error (.recv "connection closed"))
  | .ok (b :: data) => (buf ++ b :: data, .ok (data.length + 1))
  | .wouldBlock => (buf, .error .wouldBlock)
  | .interrupted => (buf, .error (.recv "interrupted"))
  | .error text => (buf, .error (.recv text))

/-- What the connection meets while it receives: the plain bytes read, and for TLS before that the
number of bytes from the network and the result of `process_new_packets`. -/
structure RecvSteps where
  network : Io ℕ
  process : Except String Unit
  read : Io Bytes

/-- `recv_tls`. -/
def recvTls (buf : Bytes) (steps : RecvSteps) : Bytes × Except Error ℕ :=
  match steps.network with
  | .ok 0 => (buf, .error (.recv "connection closed"))
  | .ok (_ + 1) =>
      match steps.process with
      | .error text => (buf ++ List.replicate 4096 0, .error (.recv text))
      | .ok () => keepRead buf steps.read
  | .wouldBlock => keepRead buf steps.read
  | .interrupted => (buf, .error (.recv "interrupted"))
  | .error text => (buf, .error (.recv text))

/-- `recv`. -/
def Connection.recv (conn : Connection) (buf : Bytes) (steps : RecvSteps) : Bytes × Except Error ℕ :=
  if conn.connected then if conn.useTls then recvTls buf steps else keepRead buf steps.read
  else (buf, .error (.recv "not connected"))

/-- A `recv` that is not an error is that of a read. -/
theorem Connection.recv_cases {conn : Connection} {buf : Bytes} {steps : RecvSteps}
    {r : Bytes × Except Error ℕ} (h : conn.recv buf steps = r) :
    keepRead buf steps.read = r ∨ ∃ text, r.2 = .error (.recv text) := by
  unfold Connection.recv at h
  split_ifs at h
  · unfold recvTls at h
    split at h
    · exact .inr ⟨_, (congrArg Prod.snd h).symm⟩
    · split at h
      · exact .inr ⟨_, (congrArg Prod.snd h).symm⟩
      · exact .inl h
    · exact .inl h
    · exact .inr ⟨_, (congrArg Prod.snd h).symm⟩
    · exact .inr ⟨_, (congrArg Prod.snd h).symm⟩
  · exact .inl h
  · exact .inr ⟨_, (congrArg Prod.snd h).symm⟩

/-- What was received is what was read, appended. -/
theorem Connection.recv_ok {conn : Connection} {buf buf' : Bytes} {steps : RecvSteps} {n : ℕ}
    (h : conn.recv buf steps = (buf', .ok n)) :
    ∃ data, steps.read = .ok data ∧ data.length = n ∧ buf' = buf ++ data := by
  rcases recv_cases h with hkeep | ⟨text, htext⟩
  · unfold keepRead at hkeep
    split at hkeep
    all_goals cases hkeep
    next heq => exact ⟨_, heq, rfl, rfl⟩
  · cases htext

/-- A `recv` that would block leaves the buffer. -/
theorem Connection.recv_wouldBlock {conn : Connection} {buf buf' : Bytes} {steps : RecvSteps}
    (h : conn.recv buf steps = (buf', .error .wouldBlock)) : buf' = buf := by
  rcases recv_cases h with hkeep | ⟨text, htext⟩
  · unfold keepRead at hkeep
    split at hkeep
    all_goals cases hkeep
    rfl
  · cases htext

/-! ## Calls -/

/-- `SendOptions`. -/
structure SendOptions where
  fanout : Option UInt64 := none
  targetSlot : Option UInt64 := none

/-- `get_fanout`. -/
def SendOptions.getFanout (opts : SendOptions) : UInt64 := opts.fanout.getD 1

/-- `get_target_slot`. -/
def SendOptions.getTargetSlot (opts : SendOptions) : UInt64 := opts.targetSlot.getD 0

/-- `LandClient`. -/
structure LandClient where
  conn : Connection
  sendBuf : Bytes
  recvBuf : Bytes
  requestId : UInt64
  host : String

/-- The client that `LandClient::connect` gives. -/
def LandClient.new (host : String) (useTls : Bool) : LandClient := ⟨⟨true, useTls⟩, [], [], 0, host⟩

/-- Where a client is. -/
inductive CallPc where
  | idle
  /-- in `wait_readable`: at the top of the loop, or after a `recv` that would block -/
  | waiting (blocked : Bool)
  /-- before `recv` -/
  | reading
  deriving DecidableEq

namespace LandClient

/-- `send_with_opts` up to the request. -/
def prepare (c : LandClient) (tx : Slice) (opts : SendOptions) : LandClient :=
  { c with
    requestId := c.requestId + 1
    sendBuf := buildRequest c.host (c.requestId + 1) tx opts.getFanout opts.getTargetSlot }

/-- The top of the loop over the response. -/
def top (c : LandClient) : CallPc := if c.recvBuf.isEmpty then .waiting false else .reading

end LandClient

end Land.Client
