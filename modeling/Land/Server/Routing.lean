import Land.Server.Invariant

/-!
# Routing of responses

The invariant of the whole server: every connection is in order, every response under way is for a
connection that waits for it, and no request id is used twice.  From it, what is written on any stream
ever accepted is the beginning of the responses to the requests of that stream.
-/

namespace Land.Server

/-- The request in the hand of the event loop, with the slot of its connection. -/
def LoopPc.inHand : LoopPc → Option (ℕ × QueuedRequest)
  | .sending _ idx queued _ _ => some (idx, queued)
  | _ => none

/-- The responses that the event loop has taken and not handled. -/
def LoopPc.batch : LoopPc → List QueuedResponse
  | .drain batch => batch
  | .process batch => batch
  | _ => []

/-- The requests that the worker has taken and not answered. -/
def WorkerPc.batch : WorkerPc → List QueuedRequest
  | .collect batch => batch
  | .sending batch => batch
  | .exited => []

namespace State

/-- What is under way, as the responses that will arrive. -/
def inFlight (s : State) : List QueuedResponse :=
  s.requests.map processRequest ++ s.worker.batch.map processRequest ++ s.responses ++ s.loop.batch

/-- All streams ever accepted. -/
def streams (s : State) : List Stream := s.pool.streams ++ s.closed

/-- The ids of all requests handled so far. -/
def requestIds (s : State) : List ℕ := s.streams.flatMap Stream.requestIds

/-- The ids of handled requests are below this one. -/
def idBound (s : State) : ℕ :=
  match s.loop.inHand with
  | some (_, queued) => queued.requestId
  | none => s.nextRequestId

/-- The connection whose request is in hand is reading. -/
def InHandOk (s : State) : Prop :=
  ∀ idx queued, s.loop.inHand = some (idx, queued) →
    queued.token = idx + 1 ∧ queued.requestId < s.nextRequestId ∧
    ∃ c, s.pool.get idx = some c ∧ c.state = .reading

end State

/-- The connection that the response is for waits for it. -/
def Expected (p : ConnectionPool) (r : QueuedResponse) : Prop :=
  0 < r.token ∧ ∃ c, p.get (r.token - 1) = some c ∧ c.Awaits r

/-- The invariant of every reachable state. -/
structure Inv (http : Http) (s : State) : Prop where
  pool : s.pool.Ok
  conns : ∀ i c, s.pool.get i = some c → c.Ok http
  closed : ∀ st ∈ s.closed, st.Sound http
  nodup : (s.inFlight.map QueuedResponse.requestId).Nodup
  flight : ∀ r ∈ s.inFlight, Expected s.pool r
  ids : s.requestIds.Nodup
  bound : ∀ id ∈ s.requestIds, id < s.idBound
  inHand : s.InHandOk
  accepted : s.streams.length = s.accepted

variable {http : Http} {s s' : State}

theorem Inv.sound (h : Inv http s) : ∀ st ∈ s.streams, st.Sound http := by
  intro st hst
  rcases List.mem_append.1 hst with hst | hst
  · obtain ⟨i, c, hi, rfl⟩ := ConnectionPool.mem_streams.1 hst
    exact (h.conns i c hi).sound
  · exact h.closed st hst

/-- The id of what is under way is in the history. -/
theorem Inv.mem_requestIds (h : Inv http s) {r : QueuedResponse} (hr : r ∈ s.inFlight) :
    r.requestId ∈ s.requestIds := by
  obtain ⟨-, c, hc, -, hs, request, hh, -⟩ := h.flight r hr
  refine List.mem_flatMap.2 ⟨c.stream, List.mem_append_left _
    (ConnectionPool.mem_streams.2 ⟨_, c, hc, rfl⟩), ?_⟩
  rw [Stream.requestIds, hh, List.filterMap_append]
  exact List.mem_append_right _ (List.mem_singleton.2 rfl)

/-! ## Something moves between the threads -/

/-- Only the places of requests and responses change, and where the threads are. -/
structure Moved (s s' : State) : Prop where
  pool : s'.pool = s.pool
  closed : s'.closed = s.closed
  accepted : s'.accepted = s.accepted
  nextRequestId : s'.nextRequestId = s.nextRequestId
  loop : s'.loop = s.loop ∨ s.loop.inHand = none ∧ s'.loop.inHand = none
  inFlight : s'.inFlight.Perm s.inFlight

theorem Moved.inHand (h : Moved s s') : s'.loop.inHand = s.loop.inHand := by
  rcases h.loop with hloop | ⟨hhand, hhand'⟩
  · rw [hloop]
  · rw [hhand, hhand']

theorem Moved.streams (h : Moved s s') : s'.streams = s.streams := by
  rw [State.streams, h.pool, h.closed, State.streams]

/-- The event loop goes on. -/
theorem moved_loop {pc : LoopPc} (hpc : pc.inHand = none) (hhand : s.loop.inHand = none)
    (hbatch : pc.batch = s.loop.batch) : Moved s { s with loop := pc } := by
  refine ⟨rfl, rfl, rfl, rfl, .inr ⟨hhand, hpc⟩, List.Perm.of_eq ?_⟩
  simp only [State.inFlight, hbatch]

/-- The worker goes on. -/
theorem moved_worker {pc : WorkerPc} (hbatch : pc.batch = s.worker.batch) :
    Moved s { s with worker := pc } := by
  refine ⟨rfl, rfl, rfl, rfl, .inl rfl, List.Perm.of_eq ?_⟩
  simp only [State.inFlight, hbatch]

theorem perm_concat {α : Type} (as bs : List α) (x : α) :
    (as ++ (bs ++ [x])).Perm (x :: (as ++ bs)) := by
  rw [← List.append_assoc]
  exact List.perm_append_singleton x (as ++ bs)

/-- An element goes from its place in one list to the end of another. -/
theorem perm_take {α : Type} {l : List α} {i : ℕ} {x : α} (h : l[i]? = some x) (batch : List α) :
    (l.eraseIdx i ++ (batch ++ [x])).Perm (l ++ batch) := by
  obtain ⟨hlt, rfl⟩ := List.getElem?_eq_some_iff.1 h
  exact (perm_concat _ batch _).trans ((List.getElem_cons_eraseIdx_perm hlt).append_right batch)

theorem moved_takeResponse {batch : List QueuedResponse} {i : ℕ} {r : QueuedResponse}
    (hloop : s.loop = .drain batch) (hr : s.responses[i]? = some r) :
    Moved s { s with loop := .drain (batch ++ [r]), responses := s.responses.eraseIdx i } := by
  refine ⟨rfl, rfl, rfl, rfl, .inr ⟨by rw [hloop]; rfl, rfl⟩, ?_⟩
  simp only [State.inFlight, hloop, LoopPc.batch, List.append_assoc]
  exact ((perm_take hr batch).append_left _).append_left _

theorem moved_workerTake {batch : List QueuedRequest} {i : ℕ} {queued : QueuedRequest}
    (hworker : s.worker = .collect batch) (hq : s.requests[i]? = some queued) :
    Moved s { s with
      worker := .collect (batch ++ [queued]), requests := s.requests.eraseIdx i } := by
  refine ⟨rfl, rfl, rfl, rfl, .inl rfl, ?_⟩
  simp only [State.inFlight, hworker, WorkerPc.batch, ← List.map_append]
  exact (((perm_take hq batch).map _).append_right _).append_right _

theorem moved_workerSend {queued : QueuedRequest} {pc : WorkerPc}
    (hworker : s.worker = .sending (queued :: pc.batch)) :
    Moved s { s with responses := s.responses ++ [processRequest queued], worker := pc } := by
  refine ⟨rfl, rfl, rfl, rfl, .inl rfl, ?_⟩
  have hbatch : s.worker.batch = queued :: pc.batch := by rw [hworker]; rfl
  simp only [State.inFlight, hbatch, List.map_cons, List.append_assoc _ _ s.responses,
    List.append_assoc _ _ (s.responses ++ _)]
  exact ((perm_concat _ s.responses _).append_left _).append_right _

theorem Inv.move (h : Inv http s) (hmoved : Moved s s') : Inv http s' := by
  have hids : s'.requestIds = s.requestIds := by
    rw [State.requestIds, hmoved.streams, State.requestIds]
  have hbound : s'.idBound = s.idBound := by
    rw [State.idBound, hmoved.inHand, hmoved.nextRequestId, State.idBound]
  refine ⟨hmoved.pool ▸ h.pool, hmoved.pool ▸ h.conns, hmoved.closed ▸ h.closed, ?_, fun r hr => ?_,
    hids ▸ h.ids, ?_, ?_, ?_⟩
  · exact (hmoved.inFlight.map _).nodup_iff.2 h.nodup
  · rw [hmoved.pool]
    exact h.flight r (hmoved.inFlight.mem_iff.1 hr)
  · rw [hids, hbound]
    exact h.bound
  · intro idx queued hq
    rw [hmoved.inHand] at hq
    rw [hmoved.nextRequestId, hmoved.pool]
    exact h.inHand idx queued hq
  · rw [hmoved.streams, hmoved.accepted]
    exact h.accepted

/-! ## A connection changes -/

theorem finish_fields (s : State) (idx : ℕ) (r : Connection × Bool) :
    (s.finish idx r).requests = s.requests ∧ (s.finish idx r).worker = s.worker ∧
      (s.finish idx r).responses = s.responses ∧
      (s.finish idx r).nextRequestId = s.nextRequestId ∧
      (s.finish idx r).accepted = s.accepted := by
  unfold State.finish
  split_ifs <;> exact ⟨rfl, rfl, rfl, rfl, rfl⟩

theorem get_finish_of_ne {idx j : ℕ} (r : Connection × Bool) (hne : idx ≠ j) :
    (s.finish idx r).pool.get j = s.pool.get j := by
  unfold State.finish
  split_ifs
  · rw [ConnectionPool.get_remove_of_ne hne, ConnectionPool.get_set_of_ne hne]
  · exact ConnectionPool.get_set_of_ne hne

theorem get_finish_self {idx : ℕ} {c : Connection} (hc : s.pool.get idx = some c)
    (r : Connection × Bool) :
    (s.finish idx r).pool.get idx = if r.2 then none else some r.1 := by
  have hlt := ConnectionPool.lt_of_get hc
  unfold State.finish
  split_ifs
  · refine ConnectionPool.get_remove_self ?_
    exact lt_of_lt_of_eq hlt List.length_set.symm
  · exact ConnectionPool.get_set_self hlt

/-- One stream is exchanged. -/
theorem streams_finish {idx : ℕ} {c : Connection} (hc : s.pool.get idx = some c)
    (r : Connection × Bool) :
    (c.stream :: (s.finish idx r).streams).Perm (r.1.stream :: s.streams) := by
  have hset : (c.stream :: (s.pool.set idx r.1).streams).Perm (r.1.stream :: s.pool.streams) :=
    ConnectionPool.streams_set hc
  have hget : (s.pool.set idx r.1).get idx = some r.1 :=
    ConnectionPool.get_set_self (ConnectionPool.lt_of_get hc)
  unfold State.finish
  split_ifs
  · have hremove := ConnectionPool.streams_remove hget
    have hmove : (c.stream :: (((s.pool.set idx r.1).remove idx).streams ++ r.1.stream :: s.closed)).Perm
        (c.stream :: r.1.stream :: (((s.pool.set idx r.1).remove idx).streams ++ s.closed)) :=
      List.perm_middle.cons _
    exact hmove.trans (((hremove.append_right s.closed).cons c.stream).trans
      (hset.append_right s.closed))
  · exact hset.append_right s.closed

theorem Inv.finish_pool (h : Inv http s) {idx : ℕ} {c : Connection}
    (hc : s.pool.get idx = some c) (r : Connection × Bool) : (s.finish idx r).pool.Ok := by
  have hset : (s.pool.set idx r.1).Ok := h.pool.set fun hi => h.pool.ne_of_free hc hi rfl
  unfold State.finish
  split_ifs
  · exact hset.remove (ConnectionPool.get_set_self (ConnectionPool.lt_of_get hc))
  · exact hset

theorem requestIds_finish {idx : ℕ} {c : Connection} (hc : s.pool.get idx = some c)
    (r : Connection × Bool) :
    (c.stream.requestIds ++ (s.finish idx r).requestIds).Perm
      (r.1.stream.requestIds ++ s.requestIds) :=
  (streams_finish hc r).flatMap_right Stream.requestIds

/-- Another connection's response is still expected. -/
theorem Expected.finish_of_ne {x : QueuedResponse} (hx : Expected s.pool x) {idx : ℕ}
    (r : Connection × Bool) (hne : idx ≠ x.token - 1) : Expected (s.finish idx r).pool x := by
  obtain ⟨hpos, c, hc, hw⟩ := hx
  exact ⟨hpos, c, (get_finish_of_ne r hne).trans hc, hw⟩

/-- A response stays expected while its connection is left alone. -/
theorem Expected.finish {x : QueuedResponse} (hx : Expected s.pool x) {idx : ℕ} {c : Connection}
    (hc : s.pool.get idx = some c) {r : Connection × Bool}
    (hstill : ∀ id, c.pendingRequestId = some id → r.1.core = c.core ∧ r.2 = false) :
    Expected (s.finish idx r).pool x := by
  by_cases hidx : idx = x.token - 1
  · obtain ⟨hpos, c', hc', hw⟩ := hx
    subst hidx
    obtain rfl : c' = c := Option.some.inj (hc'.symm.trans hc)
    obtain ⟨hcore, hkeep⟩ := hstill _ hw.1
    refine ⟨hpos, r.1, ?_, hw.of_core hcore⟩
    rw [get_finish_self hc, hkeep]
    rfl
  · exact hx.finish_of_ne r hidx

/-- A connection is exchanged or removed; the rest of the state is given by its parts. -/
theorem Inv.exchange (h : Inv http s) {idx : ℕ} {c : Connection} (hc : s.pool.get idx = some c)
    {r : Connection × Bool} (hok : r.1.Ok http) (hpool : s'.pool = (s.finish idx r).pool)
    (hclosed : s'.closed = (s.finish idx r).closed) (haccepted : s'.accepted = s.accepted)
    (hnodup : (s'.inFlight.map QueuedResponse.requestId).Nodup)
    (hflight : ∀ x ∈ s'.inFlight, Expected (s.finish idx r).pool x)
    (hids : (s.finish idx r).requestIds.Nodup)
    (hbound : ∀ id ∈ (s.finish idx r).requestIds, id < s'.idBound) (hhand : s'.InHandOk) :
    Inv http s' := by
  have hstreams : s'.streams = (s.finish idx r).streams := by
    rw [State.streams, hpool, hclosed, State.streams]
  have hids' : s'.requestIds = (s.finish idx r).requestIds := by
    rw [State.requestIds, hstreams, State.requestIds]
  refine ⟨hpool ▸ h.finish_pool hc r, fun i d hd => ?_, fun st hst => ?_, hnodup,
    hpool ▸ hflight, hids' ▸ hids, hids' ▸ hbound, hhand, ?_⟩
  · rw [hpool] at hd
    by_cases hi : idx = i
    · subst hi
      rw [get_finish_self hc] at hd
      split_ifs at hd
      cases hd
      exact hok
    · rw [get_finish_of_ne r hi] at hd
      exact h.conns i d hd
  · rw [hclosed, State.finish] at hst
    split_ifs at hst
    · rcases List.mem_cons.1 hst with rfl | hst
      · exact hok.sound
      · exact h.closed st hst
    · exact h.closed st hst
  · have hlen := (streams_finish hc r).length_eq
    rw [List.length_cons, List.length_cons] at hlen
    rw [hstreams, haccepted, ← h.accepted]
    omega

/-- A step at a connection that leaves it alone if it waits, and handles no request for the worker. -/
theorem Inv.turn (h : Inv http s) {idx : ℕ} {c : Connection} (hc : s.pool.get idx = some c)
    {r : Connection × Bool} (hok : r.1.Ok http)
    (hsame : r.1.stream.requestIds = c.stream.requestIds)
    (hstill : ∀ id, c.pendingRequestId = some id → r.1.core = c.core ∧ r.2 = false)
    (hpool : s'.pool = (s.finish idx r).pool) (hclosed : s'.closed = (s.finish idx r).closed)
    (haccepted : s'.accepted = s.accepted) (hperm : s'.inFlight.Perm s.inFlight)
    (hbound : s.idBound ≤ s'.idBound) (hhand : s'.InHandOk) : Inv http s' := by
  have hids : (s.finish idx r).requestIds.Perm s.requestIds := by
    have := requestIds_finish hc r
    rw [hsame] at this
    exact (List.perm_append_left_iff _).1 this
  refine h.exchange hc hok hpool hclosed haccepted ((hperm.map _).nodup_iff.2 h.nodup) ?_
    (hids.nodup_iff.2 h.ids) (fun id hid => ?_) hhand
  · exact fun x hx => (h.flight x (hperm.mem_iff.1 hx)).finish hc hstill
  · exact lt_of_lt_of_le (h.bound id (hids.mem_iff.1 hid)) hbound

/-! ## The steps of the event loop -/

theorem inHandOk_of_none (h : s.loop.inHand = none) : s.InHandOk := by
  intro idx queued hq
  rw [h] at hq
  cases hq

theorem idBound_of_none (h : s.loop.inHand = none) : s.idBound = s.nextRequestId := by
  rw [State.idBound, h]

theorem Inv.idBound_le (h : Inv http s) : s.idBound ≤ s.nextRequestId := by
  cases hq : s.loop.inHand with
  | none => exact (idBound_of_none hq).le
  | some q =>
    rw [State.idBound, hq]
    exact (h.inHand q.1 q.2 hq).2.1.le

/-- The end of an event, for a connection that the readable part left as `c₁`. -/
theorem Inv.finishEvent (h : Inv http s) {left idx : ℕ} {c c₁ : Connection} {ev : Event}
    (hbatch : s.loop.batch = []) (hc : s.pool.get idx = some c) (hok : c₁.Ok http)
    (hsame : c₁.stream.requestIds = c.stream.requestIds)
    (hstill : ∀ id, c.pendingRequestId = some id → c₁.core = c.core)
    (hs : s.finishEvent left idx c₁ ev = some s') : Inv http s' := by
  simp only [State.finishEvent, Option.map_eq_some_iff] at hs
  obtain ⟨r, hr, rfl⟩ := hs
  obtain ⟨hok', hh, hnone⟩ := hok.writeEvent hr
  obtain ⟨hreq, hworker, hresp, hnext, haccepted⟩ := finish_fields s idx r
  refine h.turn hc hok' ?_ (fun id hp => ?_) rfl rfl haccepted ?_
    (le_of_le_of_eq h.idBound_le hnext.symm) (inHandOk_of_none rfl)
  · rw [Stream.requestIds, hh]
    exact hsame
  · -- a waiting connection has nothing to send
    have hcore := hstill id hp
    have hsend : c₁.sendBuf = [] := by
      rw [show c₁.sendBuf = c.sendBuf from congrArg (fun k => k.2.1) hcore]
      exact ((h.conns idx c hc).processing hp).2
    rw [hnone hsend]
    exact ⟨hcore, rfl⟩
  · refine List.Perm.of_eq ?_
    simp only [State.inFlight, hreq, hworker, hresp, hbatch]
    rfl

theorem Inv.event (h : Inv http s) {left idx : ℕ} {ev : Event}
    (hloop : s.loop = .events (left + 1)) (hs : s.event http left idx ev = some s') :
    Inv http s' := by
  have hbatch : s.loop.batch = [] := by rw [hloop]; rfl
  have hhand : s.loop.inHand = none := by rw [hloop]; rfl
  unfold State.event at hs
  split at hs
  · cases hs
    exact h.move (moved_loop rfl hhand hbatch.symm)
  · next c hc =>
    have hok := h.conns idx c hc
    obtain ⟨hcore, hidle⟩ := Connection.readEvent_spec http c ev
    have hpending : ∀ id, c.pendingRequestId = some id → c.readEvent http ev = (c, .proceed) := by
      intro id hp
      refine hidle ?_
      rw [(hok.processing hp).1]
      rintro ⟨⟩
    split at hs
    · next c₁ heq =>
      rw [heq] at hcore
      cases hs
      have hc₁ : c₁.stream = c.stream := congrArg (fun k => k.1) hcore
      refine h.turn hc (r := (c₁, true)) (hok.of_core hcore) (by rw [hc₁]) (fun id hp => ?_) rfl rfl
        rfl ?_ ?_ (inHandOk_of_none rfl)
      · have := heq.symm.trans (hpending id hp)
        cases this
      · refine List.Perm.of_eq ?_
        simp only [State.inFlight, hbatch]
        rfl
      · exact h.idBound_le
    · next c₁ heq =>
      rw [heq] at hcore
      have hc₁ : c₁.stream = c.stream := congrArg (fun k => k.1) hcore
      exact h.finishEvent hbatch hc (hok.of_core hcore) (by rw [hc₁]) (fun _ _ => hcore) hs
    · next c₁ e heq =>
      rw [heq] at hcore
      have hc₁ : c₁.stream = c.stream := congrArg (fun k => k.1) hcore
      have hst := Connection.readEvent_reading heq (by rintro ⟨⟩)
      refine h.finishEvent hbatch hc ((hok.of_core hcore).refuse hst e ev.date) ?_ (fun id hp => ?_) hs
      · simp only [Connection.refuse, Stream.requestIds, List.filterMap_append, hc₁]
        exact List.append_nil _
      · have := heq.symm.trans (hpending id hp)
        cases this
    · next c₁ request close heq =>
      rw [heq] at hcore
      cases hs
      have hc₁ : c₁.stream = c.stream := congrArg (fun k => k.1) hcore
      have hst := Connection.readEvent_reading heq (by rintro ⟨⟩)
      refine h.turn hc (r := (c₁, false)) (hok.of_core hcore) (by rw [hc₁]) (fun id hp => ⟨hcore, rfl⟩)
        rfl rfl rfl ?_ (idBound_of_none hhand).le ?_
      · refine List.Perm.of_eq ?_
        simp only [State.inFlight, hbatch]
        rfl
      · rintro i q ⟨⟩
        exact ⟨rfl, Nat.lt_succ_self _, c₁,
          ConnectionPool.get_set_self (ConnectionPool.lt_of_get hc), hst⟩

/-- With nothing to send, the writable part of an event does nothing. -/
theorem finishEvent_of_nil (s : State) (left idx : ℕ) {c : Connection} (ev : Event)
    (hsend : c.sendBuf = []) :
    s.finishEvent left idx c ev = some { s with pool := s.pool.set idx c, loop := .events left } := by
  have hnot : ¬ (ev.writable = true ∧ c.sendBuf ≠ []) := fun hw => hw.2 hsend
  simp only [State.finishEvent, Connection.writeEvent, if_neg hnot]
  rfl

theorem requestIds_await (c : Connection) (requestId : ℕ) (request : ParsedRequest) (close : Bool) :
    (c.await requestId request close).stream.requestIds = c.stream.requestIds ++ [requestId] := by
  simp only [Connection.await, Stream.requestIds, List.filterMap_append]
  rfl

/-- The request in hand goes into the queue, and its connection waits. -/
theorem Inv.await (h : Inv http s) {left idx : ℕ} {queued : QueuedRequest} {close : Bool} {ev : Event}
    {c : Connection} (hloop : s.loop = .sending left idx queued close ev)
    (hc : s.pool.get idx = some c) (hst : c.state = .reading)
    (hidle : c.pendingRequestId = none) :
    Inv http { s with
      pool := s.pool.set idx (c.await queued.requestId queued.request close)
      requests := s.requests ++ [queued]
      loop := .events left } := by
  obtain ⟨htoken, hlt, -⟩ := h.inHand idx queued (by rw [hloop]; rfl)
  have hok := (h.conns idx c hc).await hst queued.requestId queued.request close
  have hbound : s.idBound = queued.requestId := by rw [State.idBound, hloop]; rfl
  have hids : (s.finish idx (c.await queued.requestId queued.request close, false)).requestIds.Perm
      (queued.requestId :: s.requestIds) := by
    have hperm := requestIds_finish hc (c.await queued.requestId queued.request close, false)
    rw [requestIds_await, List.append_assoc] at hperm
    exact (List.perm_append_left_iff _).1 hperm
  have hfresh : queued.requestId ∉ s.requestIds := by
    intro hmem
    have := h.bound _ hmem
    omega
  have hperm : (((s.requests ++ [queued]).map processRequest ++
      s.worker.batch.map processRequest ++ s.responses) ++ []).Perm
      (processRequest queued :: s.inFlight) := by
    simp only [State.inFlight, hloop, LoopPc.batch, List.map_append, List.append_assoc]
    exact List.perm_middle
  refine h.exchange (r := (c.await queued.requestId queued.request close, false)) hc hok rfl rfl rfl
    ?_ (fun x hx => ?_) ?_ (fun id hid => ?_) (inHandOk_of_none rfl)
  · refine (hperm.map _).nodup_iff.2 (List.nodup_cons.2 ⟨fun hmem => ?_, h.nodup⟩)
    obtain ⟨x, hx, hid⟩ := List.mem_map.1 hmem
    have hx' := h.mem_requestIds hx
    rw [hid] at hx'
    exact hfresh hx'
  · rcases List.mem_cons.1 (hperm.mem_iff.1 hx) with rfl | hx
    · refine ⟨?_, c.await queued.requestId queued.request close, ?_, rfl, c.stream.handled,
        queued.request, rfl, rfl⟩
      · rw [processRequest, htoken]
        exact Nat.succ_pos _
      · rw [processRequest, htoken, Nat.add_sub_cancel, get_finish_self hc]
        rfl
    · refine (h.flight x hx).finish hc fun id hp => ?_
      rw [hidle] at hp
      cases hp
  · exact hids.nodup_iff.2 (List.nodup_cons.2 ⟨hfresh, h.ids⟩)
  · show id < s.nextRequestId
    rcases List.mem_cons.1 (hids.mem_iff.1 hid) with rfl | hid
    · exact hlt
    · have := h.bound id hid
      omega

theorem Inv.sendRequest (h : Inv http s) {queueSize left idx : ℕ} {queued : QueuedRequest}
    {close : Bool} {ev : Event} (hloop : s.loop = .sending left idx queued close ev)
    (hs : s.sendRequest http queueSize left idx queued close ev = some s') : Inv http s' := by
  obtain ⟨-, -, c, hc, hst⟩ := h.inHand idx queued (by rw [hloop]; rfl)
  obtain ⟨hsend, hpend, -, -⟩ : c.sendBuf = [] ∧ c.pendingRequestId = none ∧ _ ∧ _ := by
    have hok := (h.conns idx c hc).2
    rw [hst] at hok
    exact hok
  simp only [State.sendRequest, hc] at hs
  split at hs
  · refine h.finishEvent (by rw [hloop]; rfl) hc ((h.conns idx c hc).refuse hst _ _) ?_
      (fun id hp => ?_) hs
    · simp only [Connection.refuse, Stream.requestIds, List.filterMap_append]
      exact List.append_nil _
    · rw [hpend] at hp
      cases hp
  · split_ifs at hs
    rw [finishEvent_of_nil _ _ _ _ (by exact hsend)] at hs
    cases hs
    exact h.await hloop hc hst hpend

/-- A response that arrives is taken by the connection that waits for it. -/
theorem Inv.respond_eq (h : Inv http s) {r : QueuedResponse} {rest : List QueuedResponse}
    {writes : List WriteResult} {date : Bytes} (hloop : s.loop = .process (r :: rest))
    (hs : s.respond r rest writes date = some s') :
    ∃ c res, s.pool.get (r.token - 1) = some c ∧ c.Awaits r ∧
      s' = { s.finish (r.token - 1) (Connection.afterWrite res) with loop := .process rest } ∧
      (Connection.afterWrite res).1.Ok http ∧
      (Connection.afterWrite res).1.stream.handled = (c.answer r date).stream.handled ∧
      (Connection.afterWrite res).1.stream.requestIds = c.stream.requestIds := by
  have hmem : r ∈ s.inFlight := by
    rw [State.inFlight, hloop]
    exact List.mem_append_right _ List.mem_cons_self
  obtain ⟨-, c, hc, hw⟩ := h.flight r hmem
  simp only [State.respond, hc, if_pos hw.1, Option.map_eq_some_iff] at hs
  obtain ⟨res, hres, rfl⟩ := hs
  obtain ⟨hok, hst, hids⟩ := (h.conns _ c hc).answer hw date
  obtain ⟨hok', hst', hh'⟩ := hok.tryWrite hst hres
  obtain ⟨hok'', hh''⟩ := hok'.afterWrite hst'
  refine ⟨c, res, hc, hw, rfl, hok'', hh''.trans hh', ?_⟩
  rw [← hids, Stream.requestIds, hh'', hh']
  rfl

/-- A response arrives: only the connection that waits for it takes it. -/
theorem Inv.respond (h : Inv http s) {r : QueuedResponse} {rest : List QueuedResponse}
    {writes : List WriteResult} {date : Bytes} (hloop : s.loop = .process (r :: rest))
    (hs : s.respond r rest writes date = some s') : Inv http s' := by
  have hperm : s.inFlight.Perm
      (r :: (s.requests.map processRequest ++ s.worker.batch.map processRequest ++ s.responses ++
        rest)) := by
    simp only [State.inFlight, hloop]
    exact List.perm_middle
  have hnodup := (hperm.map QueuedResponse.requestId).nodup_iff.1 h.nodup
  obtain ⟨hfresh, hnodup'⟩ := List.nodup_cons.1 hnodup
  have hsub : ∀ x, x ∈ s.requests.map processRequest ++ s.worker.batch.map processRequest ++
      s.responses ++ rest → x ∈ s.inFlight ∧ x.requestId ≠ r.requestId := by
    intro x hx
    refine ⟨hperm.mem_iff.2 (List.mem_cons_of_mem _ hx), fun hid => hfresh ?_⟩
    exact hid ▸ List.mem_map.2 ⟨x, hx, rfl⟩
  obtain ⟨c, res, hc, hw, rfl, hok, -, hsame⟩ := h.respond_eq hloop hs
  obtain ⟨hreq, hworker, hresp, hnext, haccepted⟩ :=
    finish_fields s (r.token - 1) (Connection.afterWrite res)
  have hperm' : (s.finish (r.token - 1) (Connection.afterWrite res)).requestIds.Perm s.requestIds := by
    have := requestIds_finish hc (Connection.afterWrite res)
    rw [hsame] at this
    exact (List.perm_append_left_iff _).1 this
  have hhand : s.loop.inHand = none := by rw [hloop]; rfl
  refine h.exchange hc hok rfl rfl haccepted ?_ (fun x hx => ?_) (hperm'.nodup_iff.2 h.ids)
    (fun id hid => ?_) (inHandOk_of_none rfl)
  · simp only [State.inFlight, hreq, hworker, hresp]
    exact hnodup'
  · simp only [State.inFlight, hreq, hworker, hresp] at hx
    obtain ⟨hx, hne⟩ := hsub x hx
    refine (h.flight x hx).finish_of_ne _ fun hidx => ?_
    -- two responses for one connection have the same id
    obtain ⟨-, c', hc', hw'⟩ := h.flight x hx
    rw [← hidx, hc] at hc'
    obtain rfl := Option.some.inj hc'
    exact hne (Option.some.inj (hw'.1.symm.trans hw.1))
  · have := h.bound id (hperm'.mem_iff.1 hid)
    rw [idBound_of_none hhand] at this
    exact lt_of_lt_of_eq this hnext.symm

/-- An accepted connection starts with an empty history. -/
theorem Inv.streams_accept (h : Inv http s) : s.accept.streams.Perm (⟨[], []⟩ :: s.streams) := by
  obtain ⟨-, hnone, -, -, hstreams, recvBuf, jsonBuf, hnew⟩ := h.pool.accept ⟨[], []⟩
  set a := s.pool.allocEmpty
  set r := a.1.createConnection ⟨[], []⟩
  have hset : (r.1.set a.2 r.2).streams.Perm (r.2.stream :: r.1.streams) :=
    ConnectionPool.streams_set_of_none hnone
  have hempty : r.2.stream = ⟨[], []⟩ := by rw [hnew]; rfl
  rw [hstreams, hempty] at hset
  exact hset.append_right s.closed

theorem Inv.accept (h : Inv http s) (hhand : s.loop.inHand = none) : Inv http s.accept := by
  obtain ⟨hok, hnone, hfree, hget, hstreams, recvBuf, jsonBuf, hnew⟩ := h.pool.accept ⟨[], []⟩
  have hperm := h.streams_accept
  set a := s.pool.allocEmpty
  set r := a.1.createConnection ⟨[], []⟩
  have hids : s.accept.requestIds.Perm s.requestIds := hperm.flatMap_right Stream.requestIds
  have hlt : a.2 < r.1.connections.length := (List.getElem?_eq_some_iff.1 hnone).1
  have hempty : s.pool.get a.2 = none := by
    rw [← hget, ConnectionPool.get, hnone]
    rfl
  refine ⟨hok.set hfree, fun i c hc => ?_, h.closed, h.nodup, fun x hx => ?_, hids.nodup_iff.2 h.ids,
    fun id hid => ?_, inHandOk_of_none hhand, ?_⟩
  · by_cases hi : a.2 = i
    · subst hi
      have hc : (r.1.set a.2 r.2).get a.2 = some c := hc
      rw [ConnectionPool.get_set_self hlt] at hc
      rw [← Option.some.inj hc, hnew]
      exact ⟨nofun, rfl, rfl, nofun, rfl⟩
    · have hc : (r.1.set a.2 r.2).get i = some c := hc
      rw [ConnectionPool.get_set_of_ne hi, hget] at hc
      exact h.conns i c hc
  · obtain ⟨hpos, c, hc, hw⟩ := h.flight x hx
    refine ⟨hpos, c, ?_, hw⟩
    have hne : a.2 ≠ x.token - 1 := by
      intro heq
      rw [← heq, hempty] at hc
      cases hc
    show (r.1.set a.2 r.2).get (x.token - 1) = some c
    rw [ConnectionPool.get_set_of_ne hne, hget]
    exact hc
  · exact h.bound id (hids.mem_iff.1 hid)
  · rw [hperm.length_eq, List.length_cons, h.accepted]
    rfl

/-- A step moves something between the threads, or it is one of the four kinds that touch a
connection. -/
theorem next_cases {queueSize : ℕ} {a : Action} (hs : s.next http queueSize a = some s') :
    Moved s s' ∨
    (a = .accept ∧ s' = s.accept ∧ s.loop.inHand = none) ∨
    (∃ left idx ev, s.loop = .events (left + 1) ∧ s.event http left idx ev = some s') ∨
    (∃ left idx queued close ev, s.loop = .sending left idx queued close ev ∧
      s.sendRequest http queueSize left idx queued close ev = some s') ∨
    ∃ response rest writes date, s.loop = .process (response :: rest) ∧
      s.respond response rest writes date = some s' := by
  cases a with
  | poll n =>
    simp only [State.next] at hs
    split at hs <;> try cases hs
    next heq =>
    split_ifs at hs
    cases hs
    exact .inl (moved_loop rfl (by rw [heq]; rfl) (by rw [heq]; rfl))
  | accept =>
    simp only [State.next] at hs
    split at hs <;> cases hs
    next heq => exact .inr (.inl ⟨rfl, rfl, by rw [heq]; rfl⟩)
  | event idx ev =>
    simp only [State.next] at hs
    split at hs <;> try cases hs
    next heq => exact .inr (.inr (.inl ⟨_, idx, ev, heq, hs⟩))
  | sendRequest =>
    simp only [State.next] at hs
    split at hs <;> try cases hs
    next heq => exact .inr (.inr (.inr (.inl ⟨_, _, _, _, _, heq, hs⟩)))
  | respond writes date =>
    simp only [State.next] at hs
    split at hs <;> try cases hs
    next heq => exact .inr (.inr (.inr (.inr ⟨_, _, writes, date, heq, hs⟩)))
  | acceptDone | eventsDone | processDone =>
    simp only [State.next] at hs
    split at hs <;> cases hs
    next heq => exact .inl (moved_loop rfl (by rw [heq]; rfl) (by rw [heq]; rfl))
  | takeResponse i =>
    simp only [State.next] at hs
    split at hs <;> try cases hs
    next heq hr =>
    split_ifs at hs
    cases hs
    exact .inl (moved_takeResponse heq hr)
  | drainDone =>
    simp only [State.next] at hs
    split at hs <;> try cases hs
    next heq =>
    split_ifs at hs
    cases hs
    exact .inl (moved_loop rfl (by rw [heq]; rfl) (by rw [heq]; rfl))
  | workerTake i =>
    simp only [State.next] at hs
    split at hs <;> try cases hs
    next heq hq =>
    split_ifs at hs
    cases hs
    exact .inl (moved_workerTake heq hq)
  | workerStart =>
    simp only [State.next] at hs
    split at hs <;> try cases hs
    next heq =>
    split_ifs at hs <;> cases hs
    · exact .inl (moved_worker rfl)
    · exact .inl (moved_worker (by rw [heq]; rfl))
  | workerSend =>
    simp only [State.next] at hs
    split at hs <;> try cases hs
    next heq =>
    split_ifs at hs with _ hnil <;> cases hs
    · exact .inl (moved_workerSend (hnil ▸ heq))
    · exact .inl (moved_workerSend heq)
  | workerExit =>
    simp only [State.next] at hs
    split at hs <;> cases hs
    next heq => exact .inl (moved_worker (by rw [heq]; rfl))

/-! ## The turn of a connection -/

/-- What the end of an event or of a response does to the pool. -/
def ConnectionPool.finish (p : ConnectionPool) (idx : ℕ) (r : Connection × Bool) : ConnectionPool :=
  if r.2 then (p.set idx r.1).remove idx else p.set idx r.1

/-- The turn of a connection that is in the pool has ended. -/
def Turned (s s' : State) : Prop :=
  ∃ idx c r, s.pool.get idx = some c ∧ s'.pool = s.pool.finish idx r ∧
    s'.closed = (if r.2 then r.1.stream :: s.closed else s.closed) ∧ s'.accepted = s.accepted

theorem turned_finish {idx : ℕ} {c : Connection} (hc : s.pool.get idx = some c) (r : Connection × Bool)
    (pc : LoopPc) : Turned s { s.finish idx r with loop := pc } := by
  refine ⟨idx, c, r, hc, ?_⟩
  unfold State.finish ConnectionPool.finish
  split_ifs <;> exact ⟨rfl, rfl, rfl⟩

theorem turned_finishEvent {left idx : ℕ} {c c₁ : Connection} {ev : Event}
    (hc : s.pool.get idx = some c) (hs : s.finishEvent left idx c₁ ev = some s') : Turned s s' := by
  obtain ⟨r, -, rfl⟩ := Option.map_eq_some_iff.1 hs
  exact turned_finish hc r _

theorem turned_event {left idx : ℕ} {ev : Event} (hs : s.event http left idx ev = some s') :
    s' = { s with loop := .events left } ∨ Turned s s' := by
  unfold State.event at hs
  split at hs
  · cases hs
    exact .inl rfl
  · next c hc =>
    right
    split at hs
    · cases hs
      exact turned_finish hc (_, true) _
    · exact turned_finishEvent hc hs
    · exact turned_finishEvent hc hs
    · next c' _ _ _ =>
      cases hs
      exact ⟨idx, c, (c', false), hc, rfl, rfl, rfl⟩

theorem turned_sendRequest {queueSize left idx : ℕ} {queued : QueuedRequest} {close : Bool} {ev : Event}
    (hs : s.sendRequest http queueSize left idx queued close ev = some s') : Turned s s' := by
  unfold State.sendRequest at hs
  split at hs
  · cases hs
  · next c hc =>
    split at hs
    · exact turned_finishEvent hc hs
    · split_ifs at hs
      -- the queue has no part in the turn
      have hturned := turned_finishEvent (s := { s with requests := s.requests ++ [queued] }) hc hs
      exact hturned

theorem turned_respond {response : QueuedResponse} {rest : List QueuedResponse} {writes : List WriteResult}
    {date : Bytes} (hs : s.respond response rest writes date = some s') :
    s' = { s with loop := .process rest } ∨ Turned s s' := by
  simp only [State.respond] at hs
  split at hs
  · cases hs
    exact .inl rfl
  · next c hc =>
    split_ifs at hs
    · obtain ⟨res, -, rfl⟩ := Option.map_eq_some_iff.1 hs
      exact .inr (turned_finish hc _ _)
    · cases hs
      exact .inl rfl

/-- A step leaves the connections alone, accepts one, or is the turn of one. -/
theorem turned_next {queueSize : ℕ} {a : Action} (hs : s.next http queueSize a = some s') :
    (s'.pool = s.pool ∧ s'.closed = s.closed ∧ s'.accepted = s.accepted) ∨
      (a = .accept ∧ s' = s.accept) ∨ Turned s s' := by
  rcases next_cases hs with hmoved | ⟨ha, haccept, -⟩ | ⟨left, idx, ev, -, hs⟩ |
    ⟨left, idx, queued, close, ev, -, hs⟩ | ⟨response, rest, writes, date, -, hs⟩
  · exact .inl ⟨hmoved.pool, hmoved.closed, hmoved.accepted⟩
  · exact .inr (.inl ⟨ha, haccept⟩)
  · rcases turned_event hs with rfl | hturned
    · exact .inl ⟨rfl, rfl, rfl⟩
    · exact .inr (.inr hturned)
  · exact .inr (.inr (turned_sendRequest hs))
  · rcases turned_respond hs with rfl | hturned
    · exact .inl ⟨rfl, rfl, rfl⟩
    · exact .inr (.inr hturned)

/-! ## Every reachable state -/

theorem Inv.next (h : Inv http s) {queueSize : ℕ} {a : Action}
    (hs : s.next http queueSize a = some s') : Inv http s' := by
  rcases next_cases hs with hmoved | ⟨-, rfl, hhand⟩ | ⟨left, idx, ev, hloop, hs⟩ |
    ⟨left, idx, queued, close, ev, hloop, hs⟩ | ⟨response, rest, writes, date, hloop, hs⟩
  · exact h.move hmoved
  · exact h.accept hhand
  · exact h.event hloop hs
  · exact h.sendRequest hloop hs
  · exact h.respond hloop hs

theorem inv_initial (http : Http) : Inv http State.initial where
  pool := ⟨List.nodup_nil, nofun, nofun⟩
  conns := nofun
  closed := nofun
  nodup := List.nodup_nil
  flight := nofun
  ids := List.nodup_nil
  bound := nofun
  inHand := inHandOk_of_none rfl
  accepted := rfl

theorem inv_of_reachable {queueSize : ℕ} (hs : (system http queueSize).Reachable s) : Inv http s := by
  refine hs.invariant (fun s h => ?_) fun s a s' h hstep => h.next hstep
  rw [h.2]
  exact inv_initial http

/-- On every stream ever accepted, open or closed, the bytes written are the beginning of the complete
responses to the requests handled on it; no request is answered on two streams, and every response
under way is for an open connection that waits for just this one. -/
theorem written_prefix_responses (http : Http) (queueSize : ℕ) {s : State}
    (hs : (system http queueSize).Reachable s) :
    (∀ st ∈ s.streams, st.Sound http) ∧ s.requestIds.Nodup ∧ s.streams.length = s.accepted ∧
      ∀ r ∈ s.inFlight, Expected s.pool r :=
  have h := inv_of_reachable hs
  ⟨h.sound, h.ids, h.accepted, h.flight⟩

/-- Every body is complete and every request is the same one. -/
def sampleHttp : Http where
  isBodyComplete := fun _ _ => true
  parseRequest := fun _ => .ok (⟨"1", [1], 1, 0, none⟩, false)
  errorJson := fun _ => []

/-- An event that brings a whole request. -/
def requestEvent : Event := ⟨true, false, [Connection.headersEnd], .wouldBlock, [], []⟩

/-- Two clients each have a request under way. -/
theorem written_prefix_responses_two : ∃ s, (system sampleHttp 64).Reachable s ∧
    s.accepted = 2 ∧ s.requestIds = [1, 2] ∧ s.inFlight.length = 2 ∧
    (∀ st ∈ s.streams, st.Sound sampleHttp) ∧ ∀ r ∈ s.inFlight, Expected s.pool r := by
  have hinit : (system sampleHttp 64).Reachable State.initial := .init ⟨by decide, rfl⟩
  obtain ⟨s, hrun, hs⟩ : ∃ s, (system sampleHttp 64).run State.initial
      [.poll 3, .accept, .accept, .acceptDone, .event 0 requestEvent, .sendRequest,
        .event 1 requestEvent, .sendRequest] = some s ∧
      s.accepted = 2 ∧ s.requestIds = [1, 2] ∧ s.inFlight.length = 2 := ⟨_, rfl, rfl, rfl, rfl⟩
  have hreach := hinit.run hrun
  have h := written_prefix_responses sampleHttp 64 hreach
  exact ⟨s, hreach, hs.1, hs.2.1, hs.2.2, h.1, h.2.2.2⟩

end Land.Server
