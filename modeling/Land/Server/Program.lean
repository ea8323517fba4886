import Land.Lib.Transition
import Land.Channel.RingBuffer
import Land.Server.Connection

/-!
# The RPC server as a transition system

The event loop of `RpcServer::run_with_sender` and the loop of the worker thread (`worker_loop`), which
talk through the request queue and the response queue.  Only the event loop touches the connections,
so a ready event, a response and each accept are one step each; the accesses to the queues are steps
of their own, and a `send` to a full queue waits.

The queues are bounded queues of `queue_size` places: that is what the SPSC channel is at every
capacity, and the MPSC channel at every capacity from 64 on.  The receiving side may take any place
of a queue (place `0` is what the channels do), so responses may come late and out of order.  When the
worker has exited, the request queue is closed and `send` fails.  The server is not shut down, and
neither registering a stream nor polling fails: these errors end the loop.
-/

namespace Land.Server

/-- A ready event of a connection, with what its socket does while the event is handled and the cached
date. -/
structure Event where
  readable : Bool
  writable : Bool
  reads : List Bytes
  readEnd : ReadEnd
  writes : List WriteResult
  date : Bytes

/-! ## One connection -/

/-- What the readable part of an event leads to. -/
inductive ReadOutcome where
  | remove
  | proceed
  | refuse (e : ServerError)
  | request (request : ParsedRequest) (connectionClose : Bool)

namespace Connection

/-- The readable part of an event, up to the request id. -/
def readEvent (http : Http) (c : Connection) (ev : Event) : Connection × ReadOutcome :=
  if ev.readable = true ∧ c.state = .reading then
    match c.tryRead ev.reads ev.readEnd with
    | (c, some false) => (c, .remove)
    | (c, none) => (c, .remove)
    | (c, some true) =>
        let r := c.isRequestComplete http
        if r.2 = true ∧ r.1.pendingRequestId = none then
          match http.parseRequest r.1.recvBuf with
          | .ok (request, connectionClose) => (r.1, .request request connectionClose)
          | .error e => (r.1, .refuse e)
        else (r.1, .proceed)
  else (c, .proceed)

/-- A request was refused: queue the error response. -/
def refuse (http : Http) (c : Connection) (e : ServerError) (date : Bytes) : Connection :=
  let response := errorResponse http date e false
  { c.queueResponse response with
    stream := { c.stream with
      handled := c.stream.handled ++ [Handled.mk (.refused e) (some response)] } }

/-- A request was sent to the worker. -/
def await (c : Connection) (requestId : ℕ) (request : ParsedRequest) (connectionClose : Bool) :
    Connection :=
  let h : Handled := ⟨.queued requestId request connectionClose, none⟩
  { c.clearRecvBuf with
    pendingRequestId := some requestId
    shouldClose := connectionClose
    state := .processing
    stream := { c.stream with handled := c.stream.handled ++ [h] } }

/-- The end of a handled request: write the response into the history. -/
def replied (handled : List Handled) (response : Bytes) : List Handled :=
  handled.dropLast ++ handled.getLast?.toList.map fun h => { h with reply := some response }

/-- The worker's response arrived: queue the HTTP response. -/
def answer (c : Connection) (response : QueuedResponse) (date : Bytes) : Connection :=
  let jsonBuf := writeJsonResponse response.requestId response.result
  let httpResponse := createResponse date response.requestId response.result c.shouldClose
  { c.queueResponse httpResponse with
    jsonBuf := jsonBuf
    pendingRequestId := none
    stream := { c.stream with handled := replied c.stream.handled httpResponse } }

/-- After a `try_write`: whether the connection is removed. -/
def afterWrite (r : Connection × Option Bool) : Connection × Bool :=
  match r with
  | (c, some _) =>
      if c.isResponseSent then
        if c.shouldClose then (c, true) else (c.resetForNextRequest, false)
      else (c, false)
  | (c, none) => (c, true)

/-- The writable part of an event. -/
def writeEvent (c : Connection) (ev : Event) : Option (Connection × Bool) :=
  if ev.writable = true ∧ c.sendBuf ≠ [] then (c.tryWrite ev.writes).map afterWrite
  else some (c, false)

end Connection

/-! ## The threads -/

/-- Where the event loop is. -/
inductive LoopPc where
  /-- before `poll` -/
  | poll
  /-- in the loop over the ready events, with `left` of them to go -/
  | events (left : ℕ)
  /-- inside `req_tx.send(queued)` of `handle_request` -/
  | sending (left idx : ℕ) (queued : QueuedRequest) (connectionClose : Bool) (ev : Event)
  /-- in the loop that fills `response_batch` -/
  | drain (batch : List QueuedResponse)
  /-- in the loop over `response_batch` -/
  | process (batch : List QueuedResponse)

/-- Where the worker is. -/
inductive WorkerPc where
  /-- in the loop that fills `batch` -/
  | collect (batch : List QueuedRequest)
  /-- in the loop over `batch`, inside `response_tx.send` of its first request -/
  | sending (batch : List QueuedRequest)
  | exited

/-- The server and its worker. -/
structure State where
  pool : ConnectionPool
  loop : LoopPc
  requests : List QueuedRequest
  worker : WorkerPc
  responses : List QueuedResponse
  nextRequestId : ℕ
  /-- history: the streams of removed connections, and the number of accepted ones -/
  closed : List Stream
  accepted : ℕ

/-- A step of the event loop or of the worker, with what its environment does. -/
inductive Action where
  | poll (n : ℕ)
  | accept
  | acceptDone
  | event (idx : ℕ) (ev : Event)
  | sendRequest
  | eventsDone
  | takeResponse (i : ℕ)
  | drainDone
  | respond (writes : List WriteResult) (date : Bytes)
  | processDone
  | workerTake (i : ℕ)
  | workerStart
  | workerSend
  | workerExit

namespace State

/-- Store the connection, and remove it when the step says so. -/
def finish (s : State) (idx : ℕ) (r : Connection × Bool) : State :=
  if r.2 then
    { s with pool := (s.pool.set idx r.1).remove idx, closed := r.1.stream :: s.closed }
  else { s with pool := s.pool.set idx r.1 }

/-- The rest of an event after its readable part. -/
def finishEvent (s : State) (left idx : ℕ) (c : Connection) (ev : Event) : Option State :=
  (c.writeEvent ev).map fun r => { s.finish idx r with loop := .events left }

/-- Accept a connection. -/
def accept (s : State) : State :=
  let a := s.pool.allocEmpty
  let r := a.1.createConnection ⟨[], []⟩
  { s with pool := r.1.set a.2 r.2, accepted := s.accepted + 1 }

/-- Handle a ready event of a connection. -/
def event (http : Http) (s : State) (left idx : ℕ) (ev : Event) : Option State :=
  match s.pool.get idx with
  | none => some { s with loop := .events left }
  | some c =>
      match c.readEvent http ev with
      | (c, .remove) => some { s.finish idx (c, true) with loop := .events left }
      | (c, .proceed) => s.finishEvent left idx c ev
      | (c, .refuse e) => s.finishEvent left idx (c.refuse http e ev.date) ev
      | (c, .request request connectionClose) =>
          -- `generate_request_id`
          some { s with
            pool := s.pool.set idx c
            nextRequestId := s.nextRequestId + 1
            loop := .sending left idx ⟨s.nextRequestId, idx + 1, request⟩ connectionClose ev }

/-- `req_tx.send`, and the rest of the event; not enabled while the queue is full. -/
def sendRequest (http : Http) (queueSize : ℕ) (s : State) (left idx : ℕ) (queued : QueuedRequest)
    (connectionClose : Bool) (ev : Event) : Option State :=
  match s.pool.get idx with
  | none => none
  | some c =>
      match s.worker with
      | .exited => s.finishEvent left idx (c.refuse http .queueFull ev.date) ev
      | _ =>
          if s.requests.length < queueSize then
            { s with requests := s.requests ++ [queued] }.finishEvent left idx
              (c.await queued.requestId queued.request connectionClose) ev
          else none

/-- Handle the first response of the batch. -/
def respond (s : State) (response : QueuedResponse) (rest : List QueuedResponse)
    (writes : List WriteResult) (date : Bytes) : Option State :=
  let idx := response.token - 1
  match s.pool.get idx with
  | none => some { s with loop := .process rest }
  | some c =>
      if c.pendingRequestId = some response.requestId then
        ((c.answer response date).tryWrite writes).map fun r =>
          { s.finish idx (Connection.afterWrite r) with loop := .process rest }
      else some { s with loop := .process rest }

/-- One step. -/
def next (http : Http) (queueSize : ℕ) (s : State) (a : Action) : Option State :=
  match a with
  | .poll n =>
      match s.loop with
      | .poll => if n ≤ 1024 then some { s with loop := .events n } else none
      | _ => none
  | .accept =>
      match s.loop with
      | .events (_ + 1) => some s.accept
      | _ => none
  | .acceptDone =>
      match s.loop with
      | .events (left + 1) => some { s with loop := .events left }
      | _ => none
  | .event idx ev =>
      match s.loop with
      | .events (left + 1) => s.event http left idx ev
      | _ => none
  | .sendRequest =>
      match s.loop with
      | .sending left idx queued close ev => s.sendRequest http queueSize left idx queued close ev
      | _ => none
  | .eventsDone =>
      match s.loop with
      | .events 0 => some { s with loop := .drain [] }
      | _ => none
  | .takeResponse i =>
      match s.loop, s.responses[i]? with
      | .drain batch, some r =>
          if batch.length < 64 then
            some { s with loop := .drain (batch ++ [r]), responses := s.responses.eraseIdx i }
          else none
      | _, _ => none
  | .drainDone =>
      match s.loop with
      | .drain batch =>
          if batch.length ≥ 64 ∨ s.responses = [] then some { s with loop := .process batch }
          else none
      | _ => none
  | .respond writes date =>
      match s.loop with
      | .process (response :: rest) => s.respond response rest writes date
      | _ => none
  | .processDone =>
      match s.loop with
      | .process [] => some { s with loop := .poll }
      | _ => none
  | .workerTake i =>
      match s.worker, s.requests[i]? with
      | .collect batch, some queued =>
          if batch.length < 64 then
            some { s with worker := .collect (batch ++ [queued]), requests := s.requests.eraseIdx i }
          else none
      | _, _ => none
  | .workerStart =>
      match s.worker with
      | .collect batch =>
          if batch.length ≥ 64 ∨ s.requests = [] then
            if batch = [] then some s else some { s with worker := .sending batch }
          else none
      | _ => none
  | .workerSend =>
      match s.worker with
      | .sending (queued :: rest) =>
          if s.responses.length < queueSize then
            some { s with
              responses := s.responses ++ [processRequest queued]
              worker := if rest = [] then .collect [] else .sending rest }
          else none
      | _ => none
  | .workerExit =>
      match s.worker with
      | .collect [] => some { s with worker := .exited }
      | _ => none

/-- The server before its first `poll`. -/
def initial : State where
  pool := .new
  loop := .poll
  requests := []
  worker := .collect []
  responses := []
  nextRequestId := 1
  closed := []
  accepted := 0

end State

/-- A server with the given parsers and queue size. -/
def system (http : Http) (queueSize : ℕ) : System State Action where
  init := fun s => Channel.isPowerOfTwo queueSize = true ∧ s = State.initial
  step := State.next http queueSize

end Land.Server
