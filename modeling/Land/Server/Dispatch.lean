import Land.Server.Echo

/-!
# From the connections to the sender

What becomes of an accepted request: it waits for the worker, `process_request` answers it and passes its transaction
to `send_fanout`, and the answer travels back to its connection.  `Progress` says once what a step of the server does
to the requests on this way; each is at exactly one place (`Ledger`).  So every accepted transaction is passed on
exactly once, in the order of the request ids, and a client that has its answer has had its transaction passed on.

The server's own step for `process_request` ends with its answer.  `Node` adds the call of `send_fanout` that follows
and keeps the worker busy until it returns.
-/

namespace Land.Server

variable {http : Http} {s s' : State}

/-! ## The books of a server -/

/-- A request with its id. -/
def QueuedRequest.order (q : QueuedRequest) : ℕ × ParsedRequest := (q.requestId, q.request)

/-- The request that went to the worker. -/
def Outcome.order? : Outcome → Option (ℕ × ParsedRequest)
  | .refused _ => none
  | .queued requestId request _ => some (requestId, request)

/-- The request that went to the worker and came back. -/
def Handled.told? (h : Handled) : Option (ℕ × ParsedRequest) := h.reply.bind fun _ => h.outcome.order?

/-- The requests of a connection that went to the worker. -/
def Stream.orders (st : Stream) : List (ℕ × ParsedRequest) := st.handled.filterMap fun h => h.outcome.order?

/-- Those that have their answer. -/
def Stream.told (st : Stream) : List (ℕ × ParsedRequest) := st.handled.filterMap Handled.told?

namespace State

/-- The requests that went to the worker, on all connections ever accepted. -/
def orders (s : State) : List (ℕ × ParsedRequest) := s.streams.flatMap Stream.orders

/-- Those that have their answer. -/
def told (s : State) : List (ℕ × ParsedRequest) := s.streams.flatMap Stream.told

/-- The requests that the worker has not answered, in the order in which it comes to them. -/
def waiting (s : State) : List QueuedRequest := s.worker.batch ++ s.requests

/-- The answers on their way back. -/
def replying (s : State) : List QueuedResponse := s.responses ++ s.loop.batch

/-- The request that `process_request` answers in a step. -/
def answering (s : State) : Action → Option QueuedRequest
  | .workerSend => s.worker.batch.head?
  | _ => none

end State

/-- The worker takes the requests as they come, which is what the channel does. -/
def Action.fifo : Action → Bool
  | .workerTake i => i == 0
  | _ => true

/-- What a step does to the requests. -/
inductive Progress (a : Action) (s s' : State) : Option QueuedRequest → Prop
  | idle (horders : s'.orders.Perm s.orders) (hwaiting : s'.waiting.Perm s.waiting)
      (hfifo : a.fifo = true → s'.waiting = s.waiting) (hreplying : s'.replying.Perm s.replying)
      (htold : s'.told.Perm s.told) : Progress a s s' none
  | enter (q : QueuedRequest) (horders : s'.orders.Perm (q.order :: s.orders))
      (hfresh : ∀ id ∈ s.requestIds, id < q.requestId) (hwaiting : s'.waiting = s.waiting ++ [q])
      (hreplying : s'.replying.Perm s.replying) (htold : s'.told.Perm s.told) : Progress a s s' none
  | answer (q : QueuedRequest) (horders : s'.orders = s.orders) (hwaiting : s.waiting = q :: s'.waiting)
      (hreplying : s'.replying.Perm (processRequest q :: s.replying)) (htold : s'.told = s.told) :
      Progress a s s' (some q)
  | tell (r : QueuedResponse) (request : ParsedRequest) (horders : s'.orders.Perm s.orders)
      (hwaiting : s'.waiting = s.waiting) (hreplying : s.replying.Perm (r :: s'.replying))
      (htold : s'.told.Perm ((r.requestId, request) :: s.told)) : Progress a s s' none

theorem requestIds_eq_orders (s : State) : s.requestIds = s.orders.map Prod.fst := by
  have hstream (st : Stream) : st.requestIds = st.orders.map Prod.fst := by
    rw [Stream.requestIds, Stream.orders, List.map_filterMap]
    refine List.filterMap_congr fun h _ => ?_
    cases h.outcome <;> rfl
  rw [State.requestIds, State.orders, List.map_flatMap]
  exact congrArg (fun f => s.streams.flatMap f) (funext hstream)

/-! ## The steps -/

/-- Nothing happens to the connections. -/
theorem Progress.of_streams {a : Action} (hstreams : s'.streams = s.streams) (hwaiting : s'.waiting.Perm s.waiting)
    (hfifo : a.fifo = true → s'.waiting = s.waiting) (hreplying : s'.replying.Perm s.replying) :
    Progress a s s' none := by
  refine .idle (.of_eq ?_) hwaiting hfifo hreplying (.of_eq ?_)
  · rw [State.orders, hstreams, State.orders]
  · rw [State.told, hstreams, State.told]

/-- The event loop goes on. -/
theorem Progress.of_loop {a : Action} {pc : LoopPc} (hbatch : pc.batch = s.loop.batch) :
    Progress a s { s with loop := pc } none :=
  .of_streams rfl (.refl _) (fun _ => rfl) (.of_eq (by rw [State.replying, hbatch, State.replying]))

/-- The worker goes on. -/
theorem Progress.of_worker {a : Action} {pc : WorkerPc} (hbatch : pc.batch = s.worker.batch) :
    Progress a s { s with worker := pc } none := by
  have hwaiting : State.waiting { s with worker := pc } = s.waiting := by
    rw [State.waiting, hbatch, State.waiting]
  exact .of_streams rfl (.of_eq hwaiting) (fun _ => hwaiting) (.refl _)

/-- A connection is exchanged, and what it has of a list. -/
theorem perm_flatMap_finish {α : Type} (f : Stream → List α) {idx : ℕ} {c : Connection}
    (hc : s.pool.get idx = some c) (r : Connection × Bool) :
    (f c.stream ++ (s.finish idx r).streams.flatMap f).Perm (f r.1.stream ++ s.streams.flatMap f) :=
  (streams_finish hc r).flatMap_right f

theorem perm_flatMap_finish_of_eq {α : Type} {f : Stream → List α} {idx : ℕ} {c : Connection}
    (hc : s.pool.get idx = some c) {r : Connection × Bool} (h : f r.1.stream = f c.stream) :
    ((s.finish idx r).streams.flatMap f).Perm (s.streams.flatMap f) := by
  have hperm := perm_flatMap_finish f hc r
  rw [h] at hperm
  exact (List.perm_append_left_iff _).1 hperm

/-- The turn of a connection ends that has got neither a request to the worker nor its answer. -/
theorem Progress.of_finish {a : Action} {idx : ℕ} {c : Connection} (hc : s.pool.get idx = some c)
    {r : Connection × Bool} {pc : LoopPc} (horders : r.1.stream.orders = c.stream.orders)
    (htold : r.1.stream.told = c.stream.told) (hbatch : pc.batch = s.loop.batch) :
    Progress a s { s.finish idx r with loop := pc } none := by
  obtain ⟨hrequests, hworker, hresponses, -, -⟩ := finish_fields s idx r
  have hwaiting : State.waiting { s.finish idx r with loop := pc } = s.waiting := by
    simp only [State.waiting, hworker, hrequests]
  refine .idle (perm_flatMap_finish_of_eq hc horders) (.of_eq hwaiting) (fun _ => hwaiting) (.of_eq ?_)
    (perm_flatMap_finish_of_eq hc htold)
  simp only [State.replying, hresponses, hbatch]

theorem Progress.of_finishEvent {a : Action} {left idx : ℕ} {c c₁ : Connection} {ev : Event}
    (hbatch : s.loop.batch = []) (hc : s.pool.get idx = some c) (hok : c₁.Ok http)
    (horders : c₁.stream.orders = c.stream.orders) (htold : c₁.stream.told = c.stream.told)
    (hs : s.finishEvent left idx c₁ ev = some s') : Progress a s s' none := by
  obtain ⟨r, hr, rfl⟩ := Option.map_eq_some_iff.1 hs
  obtain ⟨-, hh, -⟩ := hok.writeEvent hr
  refine .of_finish hc ?_ ?_ hbatch.symm
  · rw [Stream.orders, hh]
    exact horders
  · rw [Stream.told, hh]
    exact htold

/-- A refused request goes nowhere. -/
theorem books_refuse (http : Http) (c : Connection) (e : ServerError) (date : Bytes) :
    (c.refuse http e date).stream.orders = c.stream.orders ∧ (c.refuse http e date).stream.told = c.stream.told := by
  simp only [Connection.refuse, Stream.orders, Stream.told, List.filterMap_append]
  exact ⟨List.append_nil _, List.append_nil _⟩

theorem progress_event (h : Inv http s) {left idx : ℕ} {ev : Event} {a : Action}
    (hloop : s.loop = .events (left + 1)) (hs : s.event http left idx ev = some s') : Progress a s s' none := by
  have hbatch : s.loop.batch = [] := by rw [hloop]; rfl
  unfold State.event at hs
  split at hs
  · cases hs
    exact .of_loop hbatch.symm
  · next c hc =>
    have hok := h.conns idx c hc
    obtain ⟨hcore, -⟩ := Connection.readEvent_spec http c ev
    split at hs
    · next c₁ heq =>
      rw [heq] at hcore
      cases hs
      have hc₁ : c₁.stream = c.stream := congrArg (fun k => k.1) hcore
      exact .of_finish hc (r := (c₁, true)) (by rw [hc₁]) (by rw [hc₁]) hbatch.symm
    · next c₁ heq =>
      rw [heq] at hcore
      have hc₁ : c₁.stream = c.stream := congrArg (fun k => k.1) hcore
      exact .of_finishEvent hbatch hc (hok.of_core hcore) (by rw [hc₁]) (by rw [hc₁]) hs
    · next c₁ e heq =>
      rw [heq] at hcore
      have hc₁ : c₁.stream = c.stream := congrArg (fun k => k.1) hcore
      have hst := Connection.readEvent_reading heq (by rintro ⟨⟩)
      obtain ⟨horders, htold⟩ := books_refuse http c₁ e ev.date
      rw [hc₁] at horders htold
      exact .of_finishEvent hbatch hc ((hok.of_core hcore).refuse hst e ev.date) horders htold hs
    · next c₁ request close heq =>
      rw [heq] at hcore
      cases hs
      have hc₁ : c₁.stream = c.stream := congrArg (fun k => k.1) hcore
      exact .idle (perm_flatMap_finish_of_eq hc (r := (c₁, false)) (by rw [hc₁])) (.refl _) (fun _ => rfl)
        (.of_eq (by rw [State.replying, State.replying, hbatch]; rfl))
        (perm_flatMap_finish_of_eq hc (r := (c₁, false)) (by rw [hc₁]))

/-- The request in hand enters the queue, or the worker has gone. -/
theorem progress_sendRequest (h : Inv http s) {queueSize left idx : ℕ} {queued : QueuedRequest} {close : Bool}
    {ev : Event} {a : Action} (hloop : s.loop = .sending left idx queued close ev)
    (hs : s.sendRequest http queueSize left idx queued close ev = some s') : Progress a s s' none := by
  have hbatch : s.loop.batch = [] := by rw [hloop]; rfl
  obtain ⟨-, -, c, hc, hst⟩ := h.inHand idx queued (by rw [hloop]; rfl)
  have hok := h.conns idx c hc
  obtain ⟨hsend, -, -, -⟩ : c.sendBuf = [] ∧ c.pendingRequestId = none ∧ _ ∧ _ := by
    have hreading := hok.2
    rw [hst] at hreading
    exact hreading
  simp only [State.sendRequest, hc] at hs
  split at hs
  · obtain ⟨horders, htold⟩ := books_refuse http c .queueFull ev.date
    exact .of_finishEvent hbatch hc (hok.refuse hst _ _) horders htold hs
  · split_ifs at hs
    rw [finishEvent_of_nil _ _ _ _ (by exact hsend)] at hs
    cases hs
    let c₁ := c.await queued.requestId queued.request close
    have horders : c₁.stream.orders = c.stream.orders ++ [queued.order] := List.filterMap_append
    have htold : c₁.stream.told = c.stream.told := List.filterMap_append.trans (List.append_nil _)
    refine .enter queued ?_ (fun id hid => ?_) ?_ (.of_eq ?_)
      (perm_flatMap_finish_of_eq hc (r := (c₁, false)) htold)
    · have hperm := perm_flatMap_finish Stream.orders hc (c₁, false)
      rw [horders, List.append_assoc] at hperm
      exact (List.perm_append_left_iff _).1 hperm
    · have hbound := h.bound id hid
      rwa [State.idBound, hloop] at hbound
    · exact (List.append_assoc _ _ _).symm
    · rw [State.replying, State.replying, hbatch]
      rfl

theorem progress_respond (h : Inv http s) {r : QueuedResponse} {rest : List QueuedResponse}
    {writes : List WriteResult} {date : Bytes} {a : Action} (hloop : s.loop = .process (r :: rest))
    (hs : s.respond r rest writes date = some s') : Progress a s s' none := by
  obtain ⟨c, res, hc, ⟨-, hs', request, hlast, -⟩, rfl, -, hh, -⟩ := h.respond_eq hloop hs
  obtain ⟨hrequests, hworker, hresponses, -, -⟩ := finish_fields s (r.token - 1) (Connection.afterWrite res)
  have hhandled : (Connection.afterWrite res).1.stream.handled =
      hs' ++ [⟨.queued r.requestId request c.shouldClose,
        some (createResponse date r.requestId r.result c.shouldClose)⟩] := by
    rw [hh]
    show Connection.replied c.stream.handled _ = _
    rw [hlast, Connection.replied_concat]
  have horders : (Connection.afterWrite res).1.stream.orders = c.stream.orders := by
    rw [Stream.orders, Stream.orders, hhandled, hlast, List.filterMap_append, List.filterMap_append]
    rfl
  have htold : (Connection.afterWrite res).1.stream.told = c.stream.told ++ [(r.requestId, request)] := by
    rw [Stream.told, Stream.told, hhandled, hlast, List.filterMap_append, List.filterMap_append, List.append_assoc]
    rfl
  refine .tell r request (perm_flatMap_finish_of_eq hc horders) ?_ ?_ ?_
  · simp only [State.waiting, hworker, hrequests]
  · simp only [State.replying, hloop, hresponses]
    exact List.perm_middle
  · have hperm := perm_flatMap_finish Stream.told hc (Connection.afterWrite res)
    rw [htold, List.append_assoc] at hperm
    exact (List.perm_append_left_iff _).1 hperm

theorem progress_accept (h : Inv http s) (a : Action) : Progress a s s.accept none :=
  .idle (h.streams_accept.flatMap_right Stream.orders) (.refl _) (fun _ => rfl) (.refl _)
    (h.streams_accept.flatMap_right Stream.told)

theorem progress_workerTake {batch : List QueuedRequest} {i : ℕ} {q : QueuedRequest}
    (hworker : s.worker = .collect batch) (hq : s.requests[i]? = some q) :
    Progress (.workerTake i) s { s with worker := .collect (batch ++ [q]), requests := s.requests.eraseIdx i }
      none := by
  have hbatch : s.worker.batch = batch := by rw [hworker]; rfl
  refine .of_streams rfl ?_ (fun hfifo => ?_) (.refl _)
  · rw [State.waiting, State.waiting, hbatch]
    exact List.perm_append_comm.trans ((perm_take hq batch).trans List.perm_append_comm)
  · obtain rfl := beq_iff_eq.1 (show (i == 0) = true from hfifo)
    obtain ⟨hpos, rfl⟩ := List.getElem?_eq_some_iff.1 hq
    rw [State.waiting, State.waiting, hbatch]
    show batch ++ [s.requests[0]] ++ s.requests.eraseIdx 0 = batch ++ s.requests
    rw [List.append_assoc, List.eraseIdx_zero, List.singleton_append, List.getElem_zero, List.cons_head_tail]

theorem progress_workerSend {q : QueuedRequest} {pc : WorkerPc} (hworker : s.worker = .sending (q :: pc.batch)) :
    Progress .workerSend s { s with responses := s.responses ++ [processRequest q], worker := pc } (some q) := by
  have hbatch : s.worker.batch = q :: pc.batch := by rw [hworker]; rfl
  refine .answer q rfl ?_ ?_ rfl
  · rw [State.waiting, hbatch]
    rfl
  · rw [State.replying, List.append_assoc]
    exact List.perm_middle

theorem progress_next (h : Inv http s) {queueSize : ℕ} {a : Action} (hs : s.next http queueSize a = some s') :
    Progress a s s' (s.answering a) := by
  cases a with
  | poll n =>
    simp only [State.next] at hs
    split at hs <;> try cases hs
    next heq =>
    split_ifs at hs
    cases hs
    exact .of_loop (by rw [heq]; rfl)
  | accept =>
    simp only [State.next] at hs
    split at hs <;> cases hs
    exact progress_accept h _
  | event idx ev =>
    simp only [State.next] at hs
    split at hs <;> try cases hs
    next heq => exact progress_event h heq hs
  | sendRequest =>
    simp only [State.next] at hs
    split at hs <;> try cases hs
    next heq => exact progress_sendRequest h heq hs
  | respond writes date =>
    simp only [State.next] at hs
    split at hs <;> try cases hs
    next heq => exact progress_respond h heq hs
  | acceptDone | eventsDone | processDone =>
    simp only [State.next] at hs
    split at hs <;> cases hs
    next heq => exact .of_loop (by rw [heq]; rfl)
  | takeResponse i =>
    simp only [State.next] at hs
    split at hs <;> try cases hs
    next batch r heq hr =>
    split_ifs at hs
    cases hs
    refine .of_streams rfl (.refl _) (fun _ => rfl) ?_
    rw [State.replying, State.replying, heq]
    exact perm_take hr batch
  | drainDone =>
    simp only [State.next] at hs
    split at hs <;> try cases hs
    next heq =>
    split_ifs at hs
    cases hs
    exact .of_loop (by rw [heq]; rfl)
  | workerTake i =>
    simp only [State.next] at hs
    split at hs <;> try cases hs
    next heq hq =>
    split_ifs at hs
    cases hs
    exact progress_workerTake heq hq
  | workerStart =>
    simp only [State.next] at hs
    split at hs <;> try cases hs
    next heq =>
    split_ifs at hs <;> cases hs
    · exact .of_worker rfl
    · exact .of_worker (by rw [heq]; rfl)
  | workerSend =>
    simp only [State.next] at hs
    split at hs <;> try cases hs
    next q rest heq =>
    have hanswering : s.answering .workerSend = some q := by
      rw [State.answering, heq]
      rfl
    rw [hanswering]
    split_ifs at hs with _ hnil <;> cases hs
    · exact progress_workerSend (hnil ▸ heq)
    · exact progress_workerSend heq
  | workerExit =>
    simp only [State.next] at hs
    split at hs <;> cases hs
    next heq => exact .of_worker (by rw [heq]; rfl)

/-! ## The sender -/

/-- The request has something to send. -/
def QueuedRequest.carries (q : QueuedRequest) : Bool := !q.request.transaction.isEmpty

/-- The server with the sender of its worker. -/
structure Node where
  server : State
  /-- the request with which `process_request` is about to call `send_fanout` -/
  sending : Option QueuedRequest
  /-- history: the requests answered -/
  answered : List QueuedRequest
  /-- history: the requests whose transaction went to `send_fanout` -/
  sent : List QueuedRequest

/-- A step of the worker. -/
def Action.ofWorker : Action → Bool
  | .workerTake _ => true
  | .workerStart => true
  | .workerSend => true
  | .workerExit => true
  | _ => false

namespace Node

/-- A step of the server, or the call of `send_fanout`. -/
inductive Action where
  | server (a : Server.Action)
  | sendFanout

/-- One step.  Inside `process_request` the worker does nothing else. -/
def next (http : Http) (queueSize : ℕ) (n : Node) : Action → Option Node
  | .server a =>
      if a.ofWorker && n.sending.isSome then none
      else
        (n.server.next http queueSize a).map fun s =>
          let answered := n.server.answering a
          { server := s
            sending := n.sending.or (answered.filter QueuedRequest.carries)
            answered := n.answered ++ answered.toList
            sent := n.sent }
  | .sendFanout => n.sending.map fun q => { n with sending := none, sent := n.sent ++ [q] }

/-- Before the first `poll`. -/
def initial : Node := ⟨.initial, none, [], []⟩

/-- A server with its sender. -/
def system (http : Http) (queueSize : ℕ) : System Node Action where
  init := fun n => Channel.isPowerOfTwo queueSize = true ∧ n = initial
  step := next http queueSize

/-- The requests whose transaction went to `send_fanout` or is about to. -/
def passed (n : Node) : List QueuedRequest := n.sent ++ n.sending.toList

/-- Every request that went to the worker waits or is answered; every answer is under way or told; what was
answered and has a transaction was passed on. -/
structure Ledger (http : Http) (n : Node) : Prop where
  inv : Inv http n.server
  parsed : Parsed http n.server
  orders : ((n.answered ++ n.server.waiting).map QueuedRequest.order).Perm n.server.orders
  told : (n.server.told.map Prod.fst ++ n.server.replying.map QueuedResponse.requestId).Perm
    (n.answered.map QueuedRequest.requestId)
  passed : n.passed = n.answered.filter QueuedRequest.carries

variable {n n' : Node} {queueSize : ℕ}

/-- A step of the server that answers nothing leaves the sender alone. -/
theorem answering_of_not_worker (s : State) {a : Server.Action} (h : a.ofWorker = false) : s.answering a = none := by
  cases a with
  | workerSend => cases h
  | _ => rfl

theorem next_server {a : Server.Action} (hs : n.next http queueSize (.server a) = some n') :
    ∃ s', n.server.next http queueSize a = some s' ∧
      n' = ⟨s', n.sending.or ((n.server.answering a).filter QueuedRequest.carries),
        n.answered ++ (n.server.answering a).toList, n.sent⟩ ∧
      (n.sending = none ∨ n.server.answering a = none) := by
  simp only [next] at hs
  split_ifs at hs with hbusy
  obtain ⟨s', hs', rfl⟩ := Option.map_eq_some_iff.1 hs
  refine ⟨s', hs', rfl, ?_⟩
  cases hworker : a.ofWorker with
  | false => exact .inr (answering_of_not_worker n.server hworker)
  | true =>
    rw [hworker, Bool.true_and, Option.isSome_iff_ne_none, not_not] at hbusy
    exact .inl hbusy

/-- What is answered and has a transaction is passed on next. -/
theorem passed_answer {sending o : Option QueuedRequest} (h : sending = none ∨ o = none) (sent : List QueuedRequest) :
    sent ++ (sending.or (o.filter QueuedRequest.carries)).toList =
      sent ++ sending.toList ++ o.toList.filter QueuedRequest.carries := by
  rcases h with rfl | rfl
  · rw [Option.none_or, Option.toList_filter, Option.toList_none, List.append_nil]
  · rw [Option.filter_none, Option.or_none, Option.toList_none, List.filter_nil, List.append_nil]

/-- The books after a step of the server. -/
theorem Ledger.books (h : Ledger http n) {a : Server.Action} {o : Option QueuedRequest}
    (hprogress : Progress a n.server s' o) :
    ((n.answered ++ o.toList ++ s'.waiting).map QueuedRequest.order).Perm s'.orders ∧
      (s'.told.map Prod.fst ++ s'.replying.map QueuedResponse.requestId).Perm
        ((n.answered ++ o.toList).map QueuedRequest.requestId) := by
  have horders := h.orders
  have htold := h.told
  cases hprogress with
  | idle ho hw _ hr ht =>
    rw [Option.toList_none, List.append_nil]
    exact ⟨((hw.append_left _).map _).trans (horders.trans ho.symm), ((ht.map _).append (hr.map _)).trans htold⟩
  | enter q ho _ hw hr ht =>
    rw [Option.toList_none, List.append_nil, hw, ← List.append_assoc, List.map_append]
    refine ⟨?_, ((ht.map _).append (hr.map _)).trans htold⟩
    exact (List.perm_append_singleton _ _).trans ((horders.cons _).trans ho.symm)
  | answer q ho hw hr ht =>
    rw [hw] at horders
    have hids : (n.answered ++ [q]).map QueuedRequest.requestId =
        n.answered.map QueuedRequest.requestId ++ [q.requestId] := List.map_append
    rw [Option.toList_some, ho, ht, hids, List.append_assoc]
    refine ⟨horders, ?_⟩
    have hperm : (n.server.told.map Prod.fst ++ s'.replying.map QueuedResponse.requestId).Perm
        (q.requestId :: (n.server.told.map Prod.fst ++ n.server.replying.map QueuedResponse.requestId)) :=
      ((hr.map _).append_left _).trans List.perm_middle
    exact hperm.trans ((htold.cons _).trans (List.perm_append_singleton _ _).symm)
  | tell r request ho hw hr ht =>
    rw [Option.toList_none, List.append_nil, hw]
    refine ⟨horders.trans ho.symm, ?_⟩
    have ht : (s'.told.map Prod.fst).Perm (r.requestId :: n.server.told.map Prod.fst) := ht.map _
    have hr : (n.server.replying.map QueuedResponse.requestId).Perm
        (r.requestId :: s'.replying.map QueuedResponse.requestId) := hr.map _
    exact (ht.append_right _).trans (List.perm_middle.symm.trans ((hr.symm.append_left _).trans htold))

theorem Ledger.next (h : Ledger http n) {a : Action} (hs : n.next http queueSize a = some n') : Ledger http n' := by
  cases a with
  | server a =>
    obtain ⟨s', hs', rfl, hfree⟩ := next_server hs
    obtain ⟨horders, htold⟩ := h.books (progress_next h.inv hs')
    refine ⟨h.inv.next hs', h.parsed.next h.inv hs', horders, htold, ?_⟩
    have hpassed := h.passed
    rw [Node.passed] at hpassed
    rw [Node.passed, passed_answer hfree, hpassed, List.filter_append]
  | sendFanout =>
    obtain ⟨q, hq, rfl⟩ := Option.map_eq_some_iff.1 hs
    refine ⟨h.inv, h.parsed, h.orders, h.told, ?_⟩
    have hpassed := h.passed
    rw [Node.passed, hq, Option.toList_some] at hpassed
    exact (List.append_nil _).trans hpassed

theorem ledger_initial (http : Http) : Ledger http initial where
  inv := inv_initial http
  parsed := ⟨fun st hst => absurd hst List.not_mem_nil, fun left idx queued close ev hloop => by cases hloop⟩
  orders := .refl _
  told := .refl _
  passed := rfl

/-- Two clients send a request each.  The worker has taken both and has passed on the first. -/
def twoRequests : List Action :=
  [.server (.poll 3), .server .accept, .server .accept, .server .acceptDone, .server (.event 0 requestEvent),
    .server .sendRequest, .server (.event 1 requestEvent), .server .sendRequest, .server .eventsDone,
    .server (.workerTake 0), .server (.workerTake 0), .server .workerStart, .server .workerSend, .sendFanout]

/-- The worker takes the requests as they come. -/
def Action.fifo : Action → Bool
  | .server a => a.fifo
  | .sendFanout => true

/-- The requests are answered, and wait, in the order of their ids. -/
def InOrder (n : Node) : Prop := ((n.answered ++ n.server.waiting).map QueuedRequest.requestId).Pairwise (· < ·)

theorem InOrder.next (h : n.InOrder) (hledger : Ledger http n) {a : Action} (hfifo : a.fifo = true)
    (hs : n.next http queueSize a = some n') : n'.InOrder := by
  cases a with
  | sendFanout =>
    obtain ⟨q, -, rfl⟩ := Option.map_eq_some_iff.1 hs
    exact h
  | server a =>
    obtain ⟨s', hs', rfl, -⟩ := next_server hs
    have hprogress := progress_next hledger.inv hs'
    unfold InOrder at h ⊢
    show ((n.answered ++ (n.server.answering a).toList ++ s'.waiting).map QueuedRequest.requestId).Pairwise (· < ·)
    generalize n.server.answering a = o at hprogress ⊢
    cases hprogress with
    | idle _ _ hw _ _ => rwa [Option.toList_none, List.append_nil, hw hfifo]
    | enter q _ hfresh hw _ _ =>
      rw [Option.toList_none, List.append_nil, hw, ← List.append_assoc, List.map_append, List.pairwise_append]
      refine ⟨h, List.pairwise_singleton _ _, fun id hid id' hid' => ?_⟩
      rw [List.mem_singleton.1 hid']
      refine hfresh id ?_
      rw [requestIds_eq_orders, ← (hledger.orders.map Prod.fst).mem_iff, List.map_map]
      exact hid
    | answer q _ hw _ _ =>
      rw [hw] at h
      rwa [Option.toList_some, List.append_assoc]
    | tell r request _ hw _ _ => rwa [Option.toList_none, List.append_nil, hw]

/-- The transactions go to `send_fanout` in the order in which the requests were accepted, and before those of the
requests that wait. -/
theorem forwarded_in_order (hn : (system http queueSize).ReachableVia (fun _ a => a.fifo = true) n) :
    ((n.passed ++ n.server.waiting).map QueuedRequest.requestId).Pairwise (· < ·) := by
  have hboth : Ledger http n ∧ n.InOrder := by
    refine hn.invariant (I := fun n => Ledger http n ∧ n.InOrder) (fun n h => ?_)
      fun n a n' hfifo h hstep => ⟨h.1.next hstep, h.2.next h.1 hfifo hstep⟩
    rw [h.2]
    exact ⟨ledger_initial http, List.Pairwise.nil⟩
  rw [hboth.1.passed]
  exact hboth.2.sublist ((List.filter_sublist.append_right _).map _)

theorem forwarded_in_order_two : ∃ n, (system sampleHttp 64).ReachableVia (fun _ a => a.fifo = true) n ∧
    (n.passed ++ n.server.waiting).map QueuedRequest.requestId = [1, 2] ∧
    ((n.passed ++ n.server.waiting).map QueuedRequest.requestId).Pairwise (· < ·) := by
  obtain ⟨n, hrun, hids⟩ : ∃ n, (system sampleHttp 64).runVia (fun _ a => a.fifo) initial twoRequests = some n ∧
      (n.passed ++ n.server.waiting).map QueuedRequest.requestId = [1, 2] := ⟨_, rfl, rfl⟩
  have hreach : (system sampleHttp 64).ReachableVia (fun _ a => a.fifo = true) n :=
    System.ReachableVia.runVia (fun _ _ h => h) (.init ⟨by decide, rfl⟩) hrun
  exact ⟨n, hreach, hids, forwarded_in_order hreach⟩

end Node

end Land.Server
