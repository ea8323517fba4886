import Land.Server.Receive
import Land.Server.Routing

/-!
# One keep-alive connection

A connection of the server by itself: ready events, the end of `req_tx.send` and responses of the worker
come in any order, with the functions of the event loop.  As history it has the bytes that were read from
the socket and the buffers that went to `handle_request`.  Every connection of the server is one of these
(`keepAlive_of_reachable`).
-/

namespace Land.Server

/-- One connection, with the bytes read from its socket and the buffers given to `handle_request`. -/
structure KeepAlive where
  conn : Connection
  /-- the request inside `req_tx.send`, whether it asks to close, and its event -/
  inHand : Option (ParsedRequest × Bool × Event)
  received : Bytes
  handed : List Bytes

/-- A ready event, the end of `req_tx.send` under a request id, or a response. -/
inductive KeepAlive.Action where
  | event (ev : Event)
  | sent (requestId : ℕ) (accepted : Bool)
  | respond (response : QueuedResponse) (writes : List WriteResult) (date : Bytes)

namespace KeepAlive

/-- The end of a turn, unless the connection is removed. -/
def keep (k : KeepAlive) : Option (Connection × Bool) → Option KeepAlive
  | some (c, false) => some { k with conn := c, inHand := none }
  | _ => none

/-- The bytes that a step reads. -/
def bytesRead (k : KeepAlive) : Action → Bytes
  | .event ev => if ev.readable = true ∧ k.conn.state = .reading then ev.reads.flatten else []
  | _ => []

/-- A ready event. -/
def event (http : Http) (k : KeepAlive) (ev : Event) : Option KeepAlive :=
  let received := k.received ++ k.bytesRead (.event ev)
  match k.conn.readEvent http ev with
  | (_, .remove) => none
  | (c, .proceed) => { k with received := received }.keep (c.writeEvent ev)
  | (c, .refuse e) =>
      { k with received := received, handed := k.handed ++ [c.recvBuf] }.keep
        ((c.refuse http e ev.date).writeEvent ev)
  | (c, .request request connectionClose) =>
      some ⟨c, some (request, connectionClose, ev), received, k.handed ++ [c.recvBuf]⟩

/-- One step, if the connection is not removed in it. -/
def next (http : Http) (k : KeepAlive) (a : Action) : Option KeepAlive :=
  match a, k.inHand with
  | .event ev, none => k.event http ev
  | .sent requestId accepted, some (request, connectionClose, ev) =>
      if accepted then k.keep ((k.conn.await requestId request connectionClose).writeEvent ev)
      else k.keep ((k.conn.refuse http .queueFull ev.date).writeEvent ev)
  | .respond response writes date, none =>
      if k.conn.pendingRequestId = some response.requestId then
        k.keep (((k.conn.answer response date).tryWrite writes).map Connection.afterWrite)
      else some k
  | _, _ => none

/-- A connection that was just accepted. -/
def initial : KeepAlive := ⟨.new ⟨[], []⟩ [] [] [], none, [], []⟩

/-- The runs of a connection. -/
def system (http : Http) : System KeepAlive Action where
  init := fun k => k = initial
  step := next http

end KeepAlive

/-! ## The states of a connection -/

namespace Connection

variable {c c' : Connection}

/-- What there is to send and to wait for in each state. -/
def Calm (c : Connection) : Prop :=
  match c.state with
  | .reading => c.sendBuf = [] ∧ c.pendingRequestId = none
  | .processing => c.sendBuf = []
  | .writing => c.pendingRequestId = none

theorem Calm.reading (h : c.Calm) (hst : c.state = .reading) :
    c.sendBuf = [] ∧ c.pendingRequestId = none := by
  unfold Calm at h
  rw [hst] at h
  exact h

theorem refuse_state_ne (http : Http) (c : Connection) (e : ServerError) (date : Bytes) :
    (c.refuse http e date).state ≠ .reading := by
  simp only [refuse, queueResponse]
  rintro ⟨⟩

theorem calm_refuse (http : Http) (h : c.pendingRequestId = none) (e : ServerError) (date : Bytes) :
    (c.refuse http e date).Calm := by
  simp only [Calm, refuse, queueResponse]
  exact h

theorem Scanned.refuse (http : Http) (h : c.Scanned) (e : ServerError) (date : Bytes) :
    (c.refuse http e date).Scanned := by
  simp only [Connection.refuse, queueResponse]
  exact ⟨h.pos_le, h.cached, h.scanned⟩

theorem Calm.of_core (h : c.Calm) (hc : c'.core = c.core) : c'.Calm := by
  simp only [core, Prod.mk.injEq] at hc
  obtain ⟨-, hsend, -, hpend, hst, -⟩ := hc
  unfold Calm
  rw [hsend, hpend, hst]
  exact h

/-- Only a connection that is not reading waits for a response. -/
theorem Calm.ne_reading (h : c.Calm) {id : ℕ} (hp : c.pendingRequestId = some id) : c.state ≠ .reading := by
  intro hst
  rw [(h.reading hst).2] at hp
  cases hp

/-- Writing changes the position and the stream only. -/
theorem tryWrite_frame {ws : List WriteResult} {r : Connection × Option Bool}
    (h : c.tryWrite ws = some r) : ∃ pos stream, r.1 = { c with sendPos := pos, stream := stream } := by
  induction ws generalizing c with
  | nil =>
    simp only [tryWrite] at h
    split_ifs at h
    cases h
    exact ⟨c.sendPos, c.stream, rfl⟩
  | cons w ws ih =>
    simp only [tryWrite] at h
    split_ifs at h
    · cases w with
      | ok n =>
        dsimp only at h
        split_ifs at h
        obtain ⟨pos, stream, hr⟩ := ih h
        exact ⟨pos, stream, hr⟩
      | wouldBlock =>
        cases h
        exact ⟨c.sendPos, c.stream, rfl⟩
      | error =>
        cases h
        exact ⟨c.sendPos, c.stream, rfl⟩
    · cases h
      exact ⟨c.sendPos, c.stream, rfl⟩

/-- A connection that is kept after a write is as it was, or ready for the next request. -/
theorem afterWrite_cases {r : Connection × Option Bool} (h : afterWrite r = (c', false)) :
    c' = r.1 ∨ c' = r.1.resetForNextRequest := by
  obtain ⟨c, _ | done⟩ := r
  · cases h
  · simp only [afterWrite] at h
    split_ifs at h
    · cases h
    · cases h
      exact .inr rfl
    · cases h
      exact .inl rfl

/-- What a connection is after a write that it survives: it writes on, or it reads with an empty
buffer. -/
structure Wrote (c : Connection) : Prop where
  scanned : c.Scanned
  calm : c.Calm
  next : c.state = .reading → c.recvBuf = []

theorem wrote_of_afterWrite (hst : c.state = .writing) (hscanned : c.Scanned)
    (hpend : c.pendingRequestId = none) {ws : List WriteResult}
    (h : (c.tryWrite ws).map afterWrite = some (c', false)) : c'.Wrote := by
  obtain ⟨r, hr, hafter⟩ := Option.map_eq_some_iff.1 h
  obtain ⟨pos, stream, hframe⟩ := tryWrite_frame hr
  rcases afterWrite_cases hafter with rfl | rfl
  · rw [hframe]
    refine ⟨⟨hscanned.pos_le, hscanned.cached, hscanned.scanned⟩, ?_, fun hread => ?_⟩
    · unfold Calm
      rw [hst]
      exact hpend
    · rw [show c.state = .reading from hread] at hst
      cases hst
  · exact ⟨⟨le_rfl, nofun, nofun⟩, ⟨rfl, rfl⟩, fun _ => rfl⟩

theorem writeEvent_of_nil (h : c.sendBuf = []) (ev : Event) : c.writeEvent ev = some (c, false) :=
  if_neg fun hw => hw.2 h

/-- The writable part of an event does nothing, or it writes. -/
theorem writeEvent_cases (hcalm : c.Calm) (hscanned : c.Scanned) {ev : Event}
    (h : c.writeEvent ev = some (c', false)) : c' = c ∨ (c.state = .writing ∧ c'.Wrote) := by
  simp only [writeEvent] at h
  split_ifs at h with hw
  · unfold Calm at hcalm
    cases hst : c.state with
    | reading =>
      rw [hst] at hcalm
      exact absurd hcalm.1 hw.2
    | processing =>
      rw [hst] at hcalm
      exact absurd hcalm hw.2
    | writing =>
      rw [hst] at hcalm
      exact .inr ⟨rfl, wrote_of_afterWrite hst hscanned hcalm h⟩
  · cases h
    exact .inl rfl

end Connection

/-! ## What is read and what is handed out -/

namespace KeepAlive

/-- The bytes that were read and not handed out: there are some only while a request is read. -/
def buffered (k : KeepAlive) : Bytes :=
  if k.inHand = none ∧ k.conn.state = .reading then k.conn.recvBuf else []

/-- What a step reads is appended to what is buffered. -/
def bufferAfter (k : KeepAlive) (a : Action) : Bytes := k.buffered ++ k.bytesRead a

/-- What a step hands to `handle_request`. -/
def completed (http : Http) (k : KeepAlive) (a : Action) : List Bytes :=
  if requestComplete http (k.bufferAfter a) then [k.bufferAfter a] else []

/-- The invariant of a connection. -/
structure Inv (http : Http) (k : KeepAlive) : Prop where
  scanned : k.conn.Scanned
  calm : k.conn.Calm
  inHand : k.inHand ≠ none → k.conn.state = .reading
  received : k.received = k.handed.flatten ++ k.buffered
  incomplete : requestComplete http k.buffered = false

/-- What a step does to the history. -/
structure Step (http : Http) (k : KeepAlive) (a : Action) (k' : KeepAlive) : Prop where
  received : k'.received = k.received ++ k.bytesRead a
  handed : k'.handed = k.handed ++ k.completed http a

variable {http : Http} {k k' : KeepAlive}

theorem buffered_of_ne (h : k.conn.state ≠ .reading) : k.buffered = [] := if_neg fun hk => h hk.2

theorem buffered_of_reading (hhand : k.inHand = none) (hst : k.conn.state = .reading) :
    k.buffered = k.conn.recvBuf := if_pos ⟨hhand, hst⟩

/-- A connection that has written, in a state where everything that was received is handed out. -/
theorem Inv.of_wrote {c : Connection} (hw : c.Wrote) (h : k.received = k.handed.flatten) :
    Inv http { k with conn := c, inHand := none } := by
  have hnil : buffered { k with conn := c, inHand := none } = [] := by
    unfold buffered
    split_ifs with hst
    · exact hw.next hst.2
    · rfl
  refine ⟨hw.scanned, hw.calm, fun h => absurd rfl h, ?_, ?_⟩
  · rw [hnil, List.append_nil]
    exact h
  · rw [hnil]
    rfl

/-- The rest of a turn, at a connection that is not reading and after everything received is handed
out. -/
theorem Inv.of_writeEvent (http : Http) {c : Connection} (hne : c.state ≠ .reading) (hcalm : c.Calm)
    (hscanned : c.Scanned) (h : k.received = k.handed.flatten) {ev : Event} (hk : k.keep (c.writeEvent ev) = some k') :
    Inv http k' ∧ k'.received = k.received ∧ k'.handed = k.handed := by
  unfold keep at hk
  split at hk
  · next c' heq =>
    cases hk
    refine ⟨?_, rfl, rfl⟩
    rcases Connection.writeEvent_cases hcalm hscanned heq with rfl | ⟨-, hw⟩
    · exact .of_wrote ⟨hscanned, hcalm, fun hst => absurd hst hne⟩ h
    · exact .of_wrote hw h
  · cases hk

/-- A step that reads nothing while nothing is buffered hands out nothing. -/
theorem completed_of_nil {a : Action} (hbuf : k.buffered = []) (hread : k.bytesRead a = []) :
    k.completed http a = [] := by
  unfold completed bufferAfter
  rw [hbuf, hread]
  rfl

theorem received_of_nil (h : k.Inv http) (hbuf : k.buffered = []) : k.received = k.handed.flatten := by
  rw [h.received, hbuf, List.append_nil]

/-- An event at a connection that is not reading, or without anything to read. -/
theorem Inv.event_idle (h : k.Inv http) (hhand : k.inHand = none) {ev : Event}
    (hidle : ¬ (ev.readable = true ∧ k.conn.state = .reading)) (hk : k.event http ev = some k') :
    Inv http k' ∧ Step http k (.event ev) k' := by
  have hread : k.bytesRead (.event ev) = [] := if_neg hidle
  have hproceed : k.conn.readEvent http ev = (k.conn, .proceed) := if_neg hidle
  have hcompleted : k.completed http (.event ev) = [] := by
    have hnot : requestComplete http (k.bufferAfter (.event ev)) = false := by
      rw [bufferAfter, hread, List.append_nil]
      exact h.incomplete
    rw [completed, hnot]
    rfl
  have hk' : k.keep (k.conn.writeEvent ev) = some k' := by
    simp only [event, hproceed, hread, List.append_nil] at hk
    exact hk
  have hstep {k' : KeepAlive} (hr : k'.received = k.received) (hd : k'.handed = k.handed) :
      Step http k (.event ev) k' := by
    refine ⟨?_, ?_⟩
    · rw [hr, hread, List.append_nil]
    · rw [hd, hcompleted, List.append_nil]
  by_cases hst : k.conn.state = .reading
  · -- nothing is left to send
    rw [Connection.writeEvent_of_nil (h.calm.reading hst).1] at hk'
    cases hk'
    refine ⟨?_, hstep rfl rfl⟩
    rw [← hhand]
    exact h
  · obtain ⟨hinv, hr, hd⟩ := Inv.of_writeEvent http hst h.calm h.scanned
      (received_of_nil h (buffered_of_ne hst)) hk'
    exact ⟨hinv, hstep hr hd⟩

/-- An event that reads. -/
theorem Inv.event_read (h : k.Inv http) (hhand : k.inHand = none) {ev : Event}
    (hread : ev.readable = true) (hst : k.conn.state = .reading) (hk : k.event http ev = some k') :
    Inv http k' ∧ Step http k (.event ev) k' := by
  obtain ⟨hsend, hpend⟩ := h.calm.reading hst
  have hbytes : k.bytesRead (.event ev) = ev.reads.flatten := if_pos ⟨hread, hst⟩
  have hafter : k.bufferAfter (.event ev) = k.conn.recvBuf ++ ev.reads.flatten := by
    rw [bufferAfter, hbytes, buffered_of_reading hhand hst]
  have hreceived : k.received ++ k.bytesRead (.event ev) =
      k.handed.flatten ++ k.bufferAfter (.event ev) := by
    rw [h.received, bufferAfter, List.append_assoc]
  rcases Connection.readEvent_cases http h.scanned hst hpend hread with hremove | ⟨c, hbuf, hscanned, hc⟩
  · rw [event] at hk
    split at hk
    all_goals rename_i heq
    all_goals rw [heq] at hremove
    all_goals cases hremove
    cases hk
  · have hcore := (Connection.readEvent_spec http k.conn ev).1
    rw [hc] at hcore
    have hcalm : c.Calm := h.calm.of_core hcore
    have hst' : c.state = .reading := (congrArg (fun x => x.2.2.2.2.1) hcore).trans hst
    rw [← hafter] at hc hbuf
    simp only [event, hc, hreceived] at hk
    by_cases hcomplete : requestComplete http (k.bufferAfter (.event ev)) = true
    · have hcompleted : k.completed http (.event ev) = [c.recvBuf] := by
        rw [completed, if_pos hcomplete, hbuf]
      have hall : k.handed.flatten ++ k.bufferAfter (.event ev) = (k.handed ++ [c.recvBuf]).flatten := by
        rw [List.flatten_append, List.flatten_singleton, hbuf]
      rw [if_pos hcomplete] at hk
      unfold ReadOutcome.ofRequest at hk
      cases hparse : http.parseRequest (k.bufferAfter (.event ev)) with
      | ok r =>
        rw [hparse] at hk
        cases hk
        refine ⟨⟨hscanned, hcalm, fun _ => hst', ?_, ?_⟩, hreceived.symm, ?_⟩
        · exact hall.trans (List.append_nil _).symm
        · rfl
        · rw [hcompleted]
      | error e =>
        rw [hparse] at hk
        obtain ⟨hinv, hr, hd⟩ := Inv.of_writeEvent http
          (k := { k with received := k.handed.flatten ++ k.bufferAfter (.event ev),
                         handed := k.handed ++ [c.recvBuf] })
          (c.refuse_state_ne http e ev.date) (Connection.calm_refuse http (hcalm.reading hst').2 e ev.date)
          (hscanned.refuse http e ev.date) hall hk
        refine ⟨hinv, hr.trans hreceived.symm, ?_⟩
        rw [hd, hcompleted]
    · have hcompleted : k.completed http (.event ev) = [] := by rw [completed, if_neg hcomplete]
      simp only [if_neg hcomplete, Connection.writeEvent_of_nil (hcalm.reading hst').1] at hk
      cases hk
      have hbuffered : buffered ⟨c, none, k.handed.flatten ++ k.bufferAfter (.event ev), k.handed⟩ =
          k.bufferAfter (.event ev) := (buffered_of_reading rfl hst').trans hbuf
      refine ⟨⟨hscanned, hcalm, fun h => absurd rfl h, ?_, ?_⟩, hreceived.symm, ?_⟩
      · rw [hbuffered]
      · rw [hbuffered]
        exact Bool.eq_false_iff.2 hcomplete
      · rw [hcompleted, List.append_nil]

/-- The request in hand goes to the worker, or is refused because the worker is gone. -/
theorem Inv.sent (h : k.Inv http) {request : ParsedRequest} {close : Bool} {ev : Event}
    (hhand : k.inHand = some (request, close, ev)) {requestId : ℕ} {accepted : Bool}
    (hk : k.next http (.sent requestId accepted) = some k') :
    Inv http k' ∧ Step http k (.sent requestId accepted) k' := by
  have hsome : k.inHand ≠ none := by
    rw [hhand]
    exact Option.some_ne_none _
  have hbuf : k.buffered = [] := if_neg fun hnone => hsome hnone.1
  have hst := h.inHand hsome
  obtain ⟨hsend, hpend⟩ := h.calm.reading hst
  have hall := received_of_nil h hbuf
  have hstep (hr : k'.received = k.received) (hd : k'.handed = k.handed) :
      Step http k (.sent requestId accepted) k' := by
    refine ⟨hr.trans (List.append_nil _).symm, ?_⟩
    rw [hd, completed_of_nil hbuf rfl, List.append_nil]
  simp only [next, hhand] at hk
  split_ifs at hk
  · obtain ⟨hinv, hr, hd⟩ := Inv.of_writeEvent http (c := k.conn.await requestId request close)
      nofun hsend ⟨le_rfl, nofun, nofun⟩ hall hk
    exact ⟨hinv, hstep hr hd⟩
  · obtain ⟨hinv, hr, hd⟩ := Inv.of_writeEvent http (k.conn.refuse_state_ne http .queueFull ev.date)
      (Connection.calm_refuse http hpend .queueFull ev.date) (h.scanned.refuse http .queueFull ev.date) hall hk
    exact ⟨hinv, hstep hr hd⟩

/-- A response of the worker. -/
theorem Inv.respond (h : k.Inv http) (hhand : k.inHand = none) {response : QueuedResponse}
    {writes : List WriteResult} {date : Bytes}
    (hk : k.next http (.respond response writes date) = some k') :
    Inv http k' ∧ Step http k (.respond response writes date) k' := by
  have hnone : k.completed http (.respond response writes date) = [] := by
    rw [completed, bufferAfter, show k.bytesRead (.respond response writes date) = [] from rfl,
      List.append_nil, h.incomplete]
    rfl
  simp only [next, hhand] at hk
  split_ifs at hk with hpend
  · have hne := h.calm.ne_reading hpend
    unfold keep at hk
    split at hk
    · next c heq =>
      cases hk
      have hw := Connection.wrote_of_afterWrite (c := k.conn.answer response date) rfl
        ⟨h.scanned.pos_le, h.scanned.cached, h.scanned.scanned⟩ rfl heq
      refine ⟨.of_wrote hw (received_of_nil h (buffered_of_ne hne)), ?_, ?_⟩
      · exact (List.append_nil _).symm
      · rw [hnone, List.append_nil]
    · cases hk
  · cases hk
    refine ⟨h, (List.append_nil _).symm, ?_⟩
    rw [hnone, List.append_nil]

theorem Inv.next (h : k.Inv http) {a : Action} (hk : k.next http a = some k') :
    Inv http k' ∧ Step http k a k' := by
  cases hhand : k.inHand with
  | none =>
    cases a with
    | event ev =>
      simp only [KeepAlive.next, hhand] at hk
      by_cases hread : ev.readable = true ∧ k.conn.state = .reading
      · exact h.event_read hhand hread.1 hread.2 hk
      · exact h.event_idle hhand hread hk
    | sent requestId accepted =>
      simp only [KeepAlive.next, hhand] at hk
      cases hk
    | respond response writes date => exact h.respond hhand hk
  | some held =>
    obtain ⟨request, close, ev⟩ := held
    cases a with
    | sent requestId accepted => exact h.sent hhand hk
    | event ev =>
      simp only [KeepAlive.next, hhand] at hk
      cases hk
    | respond response writes date =>
      simp only [KeepAlive.next, hhand] at hk
      cases hk

theorem inv_initial (http : Http) : Inv http initial :=
  ⟨Connection.scanned_clearRecvBuf initial.conn, ⟨rfl, rfl⟩, fun h => absurd rfl h, rfl, rfl⟩

theorem inv_of_reachable (h : (system http).Reachable k) : Inv http k := by
  refine h.invariant (fun k hk => ?_) fun k a k' hinv hstep => (hinv.next hstep).1
  rw [show k = initial from hk]
  exact inv_initial http

/-- A turn that keeps the connection. -/
theorem keep_eq (k : KeepAlive) {r : Connection × Bool} (hr : r.2 = false) :
    k.keep (some r) = some { k with conn := r.1, inHand := none } := by
  obtain ⟨c, b⟩ := r
  cases hr
  rfl

end KeepAlive

/-! ## The connections of the server -/

/-- What the event loop has in hand for a slot. -/
def LoopPc.held (idx : ℕ) : LoopPc → Option (ParsedRequest × Bool × Event)
  | .sending _ i queued connectionClose ev =>
      if i = idx then some (queued.request, connectionClose, ev) else none
  | _ => none

theorem LoopPc.held_of_none {pc : LoopPc} (h : pc.inHand = none) (idx : ℕ) : pc.held idx = none := by
  cases pc with
  | sending left i queued close ev => cases h
  | _ => rfl

/-- The connection is that of a keep-alive connection in some run. -/
def Kept (http : Http) (c : Connection) (held : Option (ParsedRequest × Bool × Event)) : Prop :=
  ∃ k, (KeepAlive.system http).Reachable k ∧ k.conn = c ∧ k.inHand = held

/-- Every connection of the pool is, and recycled buffers are empty. -/
structure Modelled (http : Http) (s : State) : Prop where
  recycled : ∀ r ∈ s.pool.recycledBuffers, r = ⟨[], [], []⟩
  conns : ∀ idx c, s.pool.get idx = some c → Kept http c (s.loop.held idx)

variable {http : Http} {s s' : State}

/-- A removed connection leaves empty buffers. -/
theorem ConnectionPool.mem_recycled_remove {p : ConnectionPool} {i : ℕ} {b : RecycledBuffers}
    (h : b ∈ (p.remove i).recycledBuffers) : b = ⟨[], [], []⟩ ∨ b ∈ p.recycledBuffers := by
  unfold ConnectionPool.remove at h
  by_cases hi : i < p.connections.length
  · rw [if_pos hi] at h
    dsimp only at h
    cases hget : p.get i with
    | none =>
      rw [hget] at h
      exact .inr h
    | some c =>
      rw [hget] at h
      dsimp only at h
      split_ifs at h
      · exact List.mem_cons.1 h
      · exact .inr h
  · rw [if_neg hi] at h
    exact .inr h

theorem recycled_finish (h : ∀ r ∈ s.pool.recycledBuffers, r = ⟨[], [], []⟩) (idx : ℕ) (r : Connection × Bool) :
    ∀ b ∈ (s.finish idx r).pool.recycledBuffers, b = ⟨[], [], []⟩ := by
  intro b hb
  unfold State.finish at hb
  split_ifs at hb
  · exact (ConnectionPool.mem_recycled_remove hb).elim id (h b)
  · exact h b hb

/-- The connections are left alone. -/
theorem Modelled.move (h : Modelled http s) (hpool : s'.pool = s.pool)
    (hheld : ∀ idx, s'.loop.held idx = s.loop.held idx) : Modelled http s' := by
  refine ⟨hpool ▸ h.recycled, fun idx c hc => ?_⟩
  rw [hheld]
  exact h.conns idx c (hpool ▸ hc)

/-- A turn of one connection ends. -/
theorem Modelled.finish (h : Modelled http s) {idx : ℕ} {c : Connection} (hc : s.pool.get idx = some c)
    (hothers : ∀ j, idx ≠ j → s.loop.held j = none) {r : Connection × Bool}
    (hr : r.2 = false → Kept http r.1 none) (hpool : s'.pool = (s.finish idx r).pool)
    (hhand : s'.loop.inHand = none) : Modelled http s' := by
  refine ⟨hpool ▸ recycled_finish h.recycled idx r, fun j d hd => ?_⟩
  rw [LoopPc.held_of_none hhand]
  rw [hpool] at hd
  by_cases hj : idx = j
  · subst hj
    rw [get_finish_self hc] at hd
    split_ifs at hd with hremoved
    cases hd
    exact hr (Bool.eq_false_iff.2 hremoved)
  · rw [get_finish_of_ne r hj] at hd
    rw [← hothers j hj]
    exact h.conns j d hd

/-- The rest of an event, with the step that the connection takes by itself. -/
theorem Modelled.finishEvent (h : Modelled http s) {left idx : ℕ} {c₀ c : Connection} {ev : Event}
    (hc : s.pool.get idx = some c₀) (hothers : ∀ j, idx ≠ j → s.loop.held j = none) {k k₀ : KeepAlive}
    {a : KeepAlive.Action} (hk : (KeepAlive.system http).Reachable k)
    (hnext : k.next http a = k₀.keep (c.writeEvent ev)) (hs : s.finishEvent left idx c ev = some s') :
    Modelled http s' := by
  obtain ⟨r, hr, rfl⟩ := Option.map_eq_some_iff.1 hs
  refine h.finish hc hothers (fun hkept => ?_) rfl rfl
  rw [hr, KeepAlive.keep_eq k₀ hkept] at hnext
  exact ⟨_, hk.step a hnext, rfl, rfl⟩

theorem Modelled.event (h : Modelled http s) {left idx : ℕ} {ev : Event}
    (hloop : s.loop = .events (left + 1)) (hs : s.event http left idx ev = some s') : Modelled http s' := by
  have hheld (j : ℕ) : s.loop.held j = none := LoopPc.held_of_none (by rw [hloop]; rfl) j
  unfold State.event at hs
  split at hs
  · cases hs
    exact h.move rfl fun j => (hheld j).symm
  · next c hc =>
    obtain ⟨k, hk, hconn, hhand⟩ := h.conns idx c hc
    rw [hheld] at hhand
    have hnext : k.next http (.event ev) = k.event http ev := by simp only [KeepAlive.next, hhand]
    rw [KeepAlive.event, hconn] at hnext
    split at hs
    · next c' hread =>
      cases hs
      exact h.finish hc (fun j _ => hheld j) (r := (c', true)) nofun rfl rfl
    · next c' hread =>
      rw [hread] at hnext
      exact h.finishEvent hc (fun j _ => hheld j) hk hnext hs
    · next c' e hread =>
      rw [hread] at hnext
      exact h.finishEvent hc (fun j _ => hheld j) hk hnext hs
    · next c' request close hread =>
      rw [hread] at hnext
      cases hs
      refine ⟨h.recycled, fun j d hd => ?_⟩
      by_cases hj : idx = j
      · subst hj
        have hd : (s.pool.set idx c').get idx = some d := hd
        rw [ConnectionPool.get_set_self (ConnectionPool.lt_of_get hc)] at hd
        cases hd
        exact ⟨_, hk.step (.event ev) hnext, rfl, (if_pos rfl).symm⟩
      · have hd : (s.pool.set idx c').get j = some d := hd
        rw [ConnectionPool.get_set_of_ne hj] at hd
        have hnone : LoopPc.held j (.sending left idx ⟨s.nextRequestId, idx + 1, request⟩ close ev) = none :=
          if_neg hj
        rw [hnone, ← hheld j]
        exact h.conns j d hd

theorem Modelled.sendRequest (h : Modelled http s) {queueSize left idx : ℕ} {queued : QueuedRequest}
    {close : Bool} {ev : Event} (hloop : s.loop = .sending left idx queued close ev)
    (hs : s.sendRequest http queueSize left idx queued close ev = some s') : Modelled http s' := by
  have hothers : ∀ j, idx ≠ j → s.loop.held j = none := by
    intro j hj
    rw [hloop]
    exact if_neg hj
  unfold State.sendRequest at hs
  split at hs
  · cases hs
  · next c hc =>
    obtain ⟨k, hk, hconn, hhand⟩ := h.conns idx c hc
    have hheld : s.loop.held idx = some (queued.request, close, ev) := by
      rw [hloop]
      exact if_pos rfl
    rw [hheld] at hhand
    have hnext (accepted : Bool) : k.next http (.sent queued.requestId accepted) =
        if accepted then k.keep ((c.await queued.requestId queued.request close).writeEvent ev)
        else k.keep ((c.refuse http .queueFull ev.date).writeEvent ev) := by
      simp only [KeepAlive.next, hhand, hconn]
    split at hs
    · exact h.finishEvent hc hothers hk (hnext false) hs
    · split_ifs at hs
      have hqueued : Modelled http { s with requests := s.requests ++ [queued] } := ⟨h.recycled, h.conns⟩
      exact hqueued.finishEvent hc hothers hk (hnext true) hs

theorem Modelled.respond (h : Modelled http s) {r : QueuedResponse} {rest : List QueuedResponse}
    {writes : List WriteResult} {date : Bytes} (hloop : s.loop = .process (r :: rest))
    (hs : s.respond r rest writes date = some s') : Modelled http s' := by
  have hheld (j : ℕ) : s.loop.held j = none := LoopPc.held_of_none (by rw [hloop]; rfl) j
  simp only [State.respond] at hs
  split at hs
  · cases hs
    exact h.move rfl fun j => (hheld j).symm
  · next c hc =>
    split_ifs at hs with hpend
    · obtain ⟨res, hres, rfl⟩ := Option.map_eq_some_iff.1 hs
      obtain ⟨k, hk, hconn, hhand⟩ := h.conns _ c hc
      rw [hheld] at hhand
      refine h.finish hc (fun j _ => hheld j) (fun hkept => ?_) rfl rfl
      have hnext : k.next http (.respond r writes date) =
          k.keep (((c.answer r date).tryWrite writes).map Connection.afterWrite) := by
        simp only [KeepAlive.next, hhand, hconn, if_pos hpend]
      rw [hres, Option.map_some, KeepAlive.keep_eq k hkept] at hnext
      exact ⟨_, hk.step (.respond r writes date) hnext, rfl, rfl⟩
    · cases hs
      exact h.move rfl fun j => (hheld j).symm

theorem ConnectionPool.recycledBuffers_allocEmpty (p : ConnectionPool) :
    p.allocEmpty.1.recycledBuffers = p.recycledBuffers := by
  unfold ConnectionPool.allocEmpty
  split <;> rfl

/-- A connection over empty recycled buffers is a new one. -/
theorem ConnectionPool.createConnection_of_recycled {p : ConnectionPool}
    (h : ∀ r ∈ p.recycledBuffers, r = ⟨[], [], []⟩) (stream : Stream) :
    (p.createConnection stream).2 = .new stream [] [] [] ∧
      ∀ r ∈ (p.createConnection stream).1.recycledBuffers, r = ⟨[], [], []⟩ := by
  unfold ConnectionPool.createConnection
  cases hrecycled : p.recycledBuffers with
  | nil => exact ⟨rfl, h⟩
  | cons b bs =>
    rw [hrecycled] at h
    refine ⟨?_, fun r hr => h r (List.mem_cons_of_mem b hr)⟩
    rw [h b List.mem_cons_self]

/-- An accepted connection starts over. -/
theorem Modelled.accept (h : Modelled http s) (hinv : Inv http s) (hhand : s.loop.inHand = none) :
    Modelled http s.accept := by
  obtain ⟨-, hnone, -, hget, -, -⟩ := hinv.pool.accept ⟨[], []⟩
  have hfresh := ConnectionPool.createConnection_of_recycled
    ((ConnectionPool.recycledBuffers_allocEmpty s.pool).symm ▸ h.recycled) ⟨[], []⟩
  refine ⟨hfresh.2, fun j d hd => ?_⟩
  have hheld : s.accept.loop.held j = none := LoopPc.held_of_none hhand j
  rw [hheld]
  by_cases hj : s.pool.allocEmpty.2 = j
  · have hlt := (List.getElem?_eq_some_iff.1 hnone).1
    subst hj
    have hd : some _ = some d := (ConnectionPool.get_set_self hlt).symm.trans hd
    cases hd
    exact ⟨KeepAlive.initial, .init rfl, hfresh.1.symm, rfl⟩
  · have hd : s.pool.get j = some d := (hget j).symm.trans ((ConnectionPool.get_set_of_ne hj).symm.trans hd)
    rw [← LoopPc.held_of_none hhand j]
    exact h.conns j d hd

theorem Modelled.next (h : Modelled http s) (hinv : Inv http s) {queueSize : ℕ} {a : Action}
    (hs : s.next http queueSize a = some s') : Modelled http s' := by
  rcases next_cases hs with hmoved | ⟨-, rfl, hhand⟩ | ⟨left, idx, ev, hloop, hs⟩ |
    ⟨left, idx, queued, close, ev, hloop, hs⟩ | ⟨r, rest, writes, date, hloop, hs⟩
  · refine h.move hmoved.pool fun idx => ?_
    rcases hmoved.loop with hloop | ⟨hhand, hhand'⟩
    · rw [hloop]
    · rw [LoopPc.held_of_none hhand, LoopPc.held_of_none hhand']
  · exact h.accept hinv hhand
  · exact h.event hloop hs
  · exact h.sendRequest hloop hs
  · exact h.respond hloop hs

theorem modelled_of_reachable {queueSize : ℕ} (hs : (system http queueSize).Reachable s) :
    Modelled http s := by
  have hboth : Inv http s ∧ Modelled http s := by
    refine hs.invariant (I := fun s => Inv http s ∧ Modelled http s) (fun s h => ?_)
      fun s a s' h hstep => ⟨h.1.next hstep, h.2.next h.1 hstep⟩
    rw [h.2]
    exact ⟨inv_initial http, nofun, nofun⟩
  exact hboth.2

/-- In every state that the server reaches, each of its connections is in a state that a keep-alive
connection by itself reaches. -/
theorem keepAlive_of_reachable {queueSize : ℕ} (hs : (system http queueSize).Reachable s) {idx : ℕ}
    {c : Connection} (hc : s.pool.get idx = some c) :
    ∃ k, (KeepAlive.system http).Reachable k ∧ k.conn = c ∧ k.inHand = s.loop.held idx :=
  (modelled_of_reachable hs).conns idx c hc

end Land.Server
