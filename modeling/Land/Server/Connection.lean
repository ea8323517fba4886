import Land.Server.Message

/-!
# Connections and the connection pool

`Connection` and `ConnectionPool` of `server/src/server.rs`.  A `Stream` is the server's end of an
accepted TCP connection: it has the bytes the socket took from the server, and as history the requests
that were handled on it with the responses made for them; no step looks at the history.

What a socket does comes from outside: a read yields chunks and then ends, a write takes some of the
bytes offered, or would block, or fails.
-/

namespace Land.Server

/-- What became of a complete request. -/
inductive Outcome where
  | refused (e : ServerError)
  | queued (requestId : ℕ) (request : ParsedRequest) (connectionClose : Bool)

/-- A request that was handled, with its response once there is one. -/
structure Handled where
  outcome : Outcome
  reply : Option Bytes

/-- The server's end of an accepted connection. -/
structure Stream where
  written : Bytes
  handled : List Handled

/-- `ConnectionState`. -/
inductive ConnectionState where
  | reading
  | processing
  | writing
  deriving Repr, DecidableEq

/-- `Connection`, without its address. -/
structure Connection where
  stream : Stream
  recvBuf : Bytes
  lastScannedPos : ℕ
  headersEndCache : Option ℕ
  sendBuf : Bytes
  jsonBuf : Bytes
  sendPos : ℕ
  pendingRequestId : Option ℕ
  state : ConnectionState
  shouldClose : Bool

/-- `MAX_REQUEST_SIZE`. -/
def maxRequestSize : ℕ := 1024 * 1024

/-- How a sequence of reads ends. -/
inductive ReadEnd where
  | closed
  | wouldBlock
  | error

/-- What the socket answers to one `write`. -/
inductive WriteResult where
  | ok (n : ℕ)
  | wouldBlock
  | error

namespace Connection

/-- `Connection::new`, and a connection over recycled buffers. -/
def new (stream : Stream) (recvBuf sendBuf jsonBuf : Bytes) : Connection where
  stream := stream
  recvBuf := recvBuf
  lastScannedPos := 0
  headersEndCache := none
  sendBuf := sendBuf
  jsonBuf := jsonBuf
  sendPos := 0
  pendingRequestId := none
  state := .reading
  shouldClose := false

/-- `try_read` over the given chunks: `some true` when more may come, `some false` when the client
closed, `none` on an error. -/
def tryRead (c : Connection) : List Bytes → ReadEnd → Connection × Option Bool
  | [], .closed => (c, some false)
  | [], .wouldBlock => (c, some true)
  | [], .error => (c, none)
  | chunk :: chunks, last =>
      let c := { c with recvBuf := c.recvBuf ++ chunk }
      if c.recvBuf.length > maxRequestSize then (c, none) else c.tryRead chunks last

/-- `try_write` with the given answers of the socket: `some true` when all is written, `some false`
when the socket would block, `none` on an error.  No result when the answers do not fit. -/
def tryWrite : Connection → List WriteResult → Option (Connection × Option Bool)
  | c, [] => if c.sendPos < c.sendBuf.length then none else some (c, some true)
  | c, w :: ws =>
      if c.sendPos < c.sendBuf.length then
        match w with
        | .ok n =>
            if n ≤ c.sendBuf.length - c.sendPos then
              let taken := (c.sendBuf.drop c.sendPos).take n
              tryWrite { c with
                sendPos := c.sendPos + n
                stream := { c.stream with written := c.stream.written ++ taken } } ws
            else none
        | .wouldBlock => some (c, some false)
        | .error => some (c, none)
      else some (c, some true)

/-- The end of the headers. -/
def headersEnd : Bytes := [13, 10, 13, 10]

/-- `is_request_complete`. -/
def isRequestComplete (http : Http) (c : Connection) : Connection × Bool :=
  let bufLen := c.recvBuf.length
  match c.headersEndCache with
  | some i => (c, http.isBodyComplete c.recvBuf i)
  | none =>
      if bufLen < 4 then (c, false)
      else
        let start := c.lastScannedPos - 3
        match (List.range' start (bufLen - 3 - start)).find? fun i =>
            (c.recvBuf.drop i).take 4 == headersEnd with
        | some i =>
            ({ c with headersEndCache := some i, lastScannedPos := bufLen },
              http.isBodyComplete c.recvBuf i)
        | none => ({ c with lastScannedPos := bufLen }, false)

/-- `clear_recv_buf`. -/
def clearRecvBuf (c : Connection) : Connection :=
  { c with recvBuf := [], lastScannedPos := 0, headersEndCache := none }

/-- `queue_response`. -/
def queueResponse (c : Connection) (response : Bytes) : Connection :=
  { c with sendBuf := response, sendPos := 0, state := .writing }

/-- `is_response_sent`. -/
def isResponseSent (c : Connection) : Bool := c.sendPos ≥ c.sendBuf.length

/-- `reset_for_next_request`. -/
def resetForNextRequest (c : Connection) : Connection :=
  { c.clearRecvBuf with
    sendBuf := []
    jsonBuf := []
    sendPos := 0
    pendingRequestId := none
    state := .reading }

end Connection

/-- `RecycledBuffers`. -/
structure RecycledBuffers where
  recvBuf : Bytes
  sendBuf : Bytes
  jsonBuf : Bytes

/-- `ConnectionPool`; the end of a `Vec` used as a stack is the head of the list. -/
structure ConnectionPool where
  connections : List (Option Connection)
  freeSlots : List ℕ
  recycledBuffers : List RecycledBuffers

namespace ConnectionPool

/-- `ConnectionPool::new`. -/
def new : ConnectionPool := ⟨[], [], []⟩

/-- `create_connection`. -/
def createConnection (p : ConnectionPool) (stream : Stream) : ConnectionPool × Connection :=
  match p.recycledBuffers with
  | r :: rest => ({ p with recycledBuffers := rest }, .new stream r.recvBuf r.sendBuf r.jsonBuf)
  | [] => (p, .new stream [] [] [])

/-- `alloc_empty`. -/
def allocEmpty (p : ConnectionPool) : ConnectionPool × ℕ :=
  match p.freeSlots with
  | idx :: rest => ({ p with freeSlots := rest }, idx)
  | [] => ({ p with connections := p.connections ++ [none] }, p.connections.length)

/-- `set`. -/
def set (p : ConnectionPool) (idx : ℕ) (conn : Connection) : ConnectionPool :=
  { p with connections := p.connections.set idx (some conn) }

/-- `get_mut`. -/
def get (p : ConnectionPool) (idx : ℕ) : Option Connection := p.connections[idx]?.join

/-- `remove`. -/
def remove (p : ConnectionPool) (idx : ℕ) : ConnectionPool :=
  if idx < p.connections.length then
    { connections := p.connections.set idx none
      freeSlots := idx :: p.freeSlots
      recycledBuffers :=
        match p.get idx with
        | some _ =>
            -- the buffers are cleared and keep their capacity
            if p.recycledBuffers.length < 64 then ⟨[], [], []⟩ :: p.recycledBuffers
            else p.recycledBuffers
        | none => p.recycledBuffers }
  else p

end ConnectionPool

end Land.Server
