import Land.Server.Program

/-!
# The invariant of the RPC server

What holds of each connection in each of its states (`Connection.Ok`), of the pool, and of the requests
and responses under way (`Expected`: the connection that a response is for still waits for it).  An
event leaves a waiting connection alone, so it is neither removed nor reused before its response
arrives; this is what makes the routing by slot index safe.
-/

namespace Land.Server

/-! ## Responses and what is written -/

/-- The bytes are a complete response to the request. -/
def Outcome.IsResponse (http : Http) (response : Bytes) : Outcome → Prop
  | .refused e => ∃ date, response = errorResponse http date e false
  | .queued requestId request connectionClose => ∃ date,
      response = createResponse date requestId (workerResult requestId request) connectionClose

/-- The id under which a request went to the worker. -/
def Outcome.requestId? : Outcome → Option ℕ
  | .refused _ => none
  | .queued requestId _ _ => some requestId

/-- The responses made, in the order of the requests. -/
def replies (handled : List Handled) : List Bytes := handled.filterMap Handled.reply

/-- Every request has its response. -/
def Answered (handled : List Handled) : Prop := ∀ h ∈ handled, h.reply.isSome = true

/-- Every response made is one to its request. -/
def Proper (http : Http) (handled : List Handled) : Prop :=
  ∀ h ∈ handled, ∀ b, h.reply = some b → h.outcome.IsResponse http b

def Stream.requestIds (st : Stream) : List ℕ := st.handled.filterMap fun h => h.outcome.requestId?

/-- What the server wrote on a stream: the beginning of the complete responses to the requests handled
on it, in their order; only the last request may have none yet. -/
structure Stream.Sound (http : Http) (st : Stream) : Prop where
  proper : Proper http st.handled
  answered : Answered st.handled.dropLast
  written : st.written <+: (replies st.handled).flatten

theorem replies_concat (hs : List Handled) (h : Handled) :
    (replies (hs ++ [h])).flatten = (replies hs).flatten ++ h.reply.getD [] := by
  rw [replies, List.filterMap_append, List.flatten_append]
  cases hr : h.reply <;> simp [replies, hr]

theorem Answered.concat {hs : List Handled} (h : Answered hs) (o : Outcome) (b : Bytes) :
    Answered (hs ++ [⟨o, some b⟩]) := by
  intro x hx
  rcases List.mem_append.1 hx with hx | hx
  · exact h x hx
  · rw [List.mem_singleton.1 hx]
    rfl

theorem Proper.concat {http : Http} {hs : List Handled} (h : Proper http hs) {o : Outcome}
    {r : Option Bytes} (ho : ∀ b, r = some b → o.IsResponse http b) :
    Proper http (hs ++ [⟨o, r⟩]) := by
  intro x hx b hb
  rcases List.mem_append.1 hx with hx | hx
  · exact h x hx b hb
  · rw [List.mem_singleton.1 hx] at hb ⊢
    exact ho b hb

/-! ## One connection -/

namespace Connection

/-- What a connection has in each state. -/
def Ok (http : Http) (c : Connection) : Prop :=
  Proper http c.stream.handled ∧
  match c.state with
  | .reading => c.sendBuf = [] ∧ c.pendingRequestId = none ∧ Answered c.stream.handled ∧
      c.stream.written = (replies c.stream.handled).flatten
  | .processing => c.sendBuf = [] ∧ ∃ hs requestId request, c.pendingRequestId = some requestId ∧
      c.stream.handled = hs ++ [⟨.queued requestId request c.shouldClose, none⟩] ∧ Answered hs ∧
      c.stream.written = (replies hs).flatten
  | .writing => c.pendingRequestId = none ∧ c.sendPos ≤ c.sendBuf.length ∧ ∃ hs o,
      c.stream.handled = hs ++ [⟨o, some c.sendBuf⟩] ∧ Answered hs ∧
      c.stream.written = (replies hs).flatten ++ c.sendBuf.take c.sendPos

/-- All but the buffer that is read into. -/
def core (c : Connection) : Stream × Bytes × ℕ × Option ℕ × ConnectionState × Bool :=
  (c.stream, c.sendBuf, c.sendPos, c.pendingRequestId, c.state, c.shouldClose)

/-- The connection waits for this response. -/
def Awaits (c : Connection) (r : QueuedResponse) : Prop :=
  c.pendingRequestId = some r.requestId ∧ ∃ hs request,
    c.stream.handled = hs ++ [⟨.queued r.requestId request c.shouldClose, none⟩] ∧
    r.result = workerResult r.requestId request

variable {http : Http} {c c' : Connection}

theorem Ok.of_core (h : c.Ok http) (hc : c'.core = c.core) : c'.Ok http := by
  simp only [core, Prod.mk.injEq] at hc
  obtain ⟨h1, h2, h3, h4, h5, h6⟩ := hc
  unfold Ok
  rw [h1, h2, h3, h4, h5, h6]
  exact h

theorem Awaits.of_core {r : QueuedResponse} (h : c.Awaits r) (hc : c'.core = c.core) :
    c'.Awaits r := by
  simp only [core, Prod.mk.injEq] at hc
  obtain ⟨h1, -, -, h4, -, h6⟩ := hc
  unfold Awaits
  rw [h1, h4, h6]
  exact h

theorem Ok.sound (h : c.Ok http) : c.stream.Sound http := by
  obtain ⟨hproper, h⟩ := h
  cases hst : c.state with
  | reading =>
    rw [hst] at h
    obtain ⟨-, -, hans, hw⟩ := h
    exact ⟨hproper, fun x hx => hans x (List.dropLast_subset _ hx), hw ▸ List.prefix_rfl⟩
  | processing =>
    rw [hst] at h
    obtain ⟨-, hs, id, request, -, hh, hans, hw⟩ := h
    refine ⟨hproper, ?_, ?_⟩
    · rw [hh, List.dropLast_concat]
      exact hans
    · rw [hh, hw, replies_concat]
      exact List.prefix_append _ _
  | writing =>
    rw [hst] at h
    obtain ⟨-, -, hs, o, hh, hans, hw⟩ := h
    refine ⟨hproper, ?_, ?_⟩
    · rw [hh, List.dropLast_concat]
      exact hans
    · rw [hh, hw, replies_concat]
      exact (List.prefix_append_right_inj _).2 (List.take_prefix _ _)

/-- A connection with a pending request is not touched by an event. -/
theorem Ok.processing (h : c.Ok http) {id : ℕ} (hp : c.pendingRequestId = some id) :
    c.state = .processing ∧ c.sendBuf = [] := by
  obtain ⟨-, h⟩ := h
  cases hst : c.state with
  | reading =>
    rw [hst] at h
    rw [h.2.1] at hp
    cases hp
  | processing =>
    rw [hst] at h
    exact ⟨rfl, h.1⟩
  | writing =>
    rw [hst] at h
    rw [h.1] at hp
    cases hp

/-- Something is left to send only while writing. -/
theorem Ok.writing (h : c.Ok http) (hs : c.sendBuf ≠ []) : c.state = .writing := by
  obtain ⟨-, h⟩ := h
  cases hst : c.state with
  | reading =>
    rw [hst] at h
    exact absurd h.1 hs
  | processing =>
    rw [hst] at h
    exact absurd h.1 hs
  | writing => rfl

/-! ### Reading -/

theorem core_tryRead (c : Connection) (chunks : List Bytes) (last : ReadEnd) :
    (c.tryRead chunks last).1.core = c.core := by
  induction chunks generalizing c with
  | nil => cases last <;> rfl
  | cons chunk chunks ih =>
    simp only [tryRead]
    split_ifs
    · rfl
    · exact ih _

theorem core_isRequestComplete (http : Http) (c : Connection) :
    (c.isRequestComplete http).1.core = c.core := by
  simp only [isRequestComplete]
  split
  · rfl
  · split_ifs
    · rfl
    · split <;> rfl

/-- The readable part of an event changes the receive buffer only, and does nothing unless the
connection is reading. -/
theorem readEvent_spec (http : Http) (c : Connection) (ev : Event) :
    (c.readEvent http ev).1.core = c.core ∧
      (c.state ≠ .reading → c.readEvent http ev = (c, .proceed)) := by
  unfold readEvent
  split_ifs with hread
  · refine ⟨?_, fun hne => absurd hread.2 hne⟩
    have hcore := core_tryRead c ev.reads ev.readEnd
    split
    · next heq => rw [← hcore, heq]
    · next heq => rw [← hcore, heq]
    · next c₁ heq =>
      have hcomplete : (c₁.isRequestComplete http).1.core = c.core := by
        rw [core_isRequestComplete, ← hcore, heq]
      dsimp only
      split_ifs
      · split <;> exact hcomplete
      · exact hcomplete
  · exact ⟨rfl, fun _ => rfl⟩

/-- An event that comes to a request was at a connection that is reading. -/
theorem readEvent_reading {ev : Event} {o : ReadOutcome} (h : c.readEvent http ev = (c', o))
    (ho : o ≠ .proceed) : c'.state = .reading := by
  obtain ⟨hcore, hidle⟩ := readEvent_spec http c ev
  rw [h] at hcore hidle
  by_contra hne
  rw [show c'.state = c.state from congrArg (fun k => k.2.2.2.2.1) hcore] at hne
  exact ho (congrArg Prod.snd (hidle hne))

/-! ### Requests and responses -/

theorem Ok.refuse (h : c.Ok http) (hst : c.state = .reading) (e : ServerError) (date : Bytes) :
    (c.refuse http e date).Ok http := by
  obtain ⟨hproper, h⟩ := h
  rw [hst] at h
  obtain ⟨-, hpend, hans, hw⟩ := h
  refine ⟨hproper.concat ?_, hpend, Nat.zero_le _, c.stream.handled, .refused e, rfl, hans, ?_⟩
  · rintro b ⟨⟩
    exact ⟨date, rfl⟩
  · exact hw.trans (List.append_nil _).symm

theorem Ok.await (h : c.Ok http) (hst : c.state = .reading) (requestId : ℕ)
    (request : ParsedRequest) (close : Bool) : (c.await requestId request close).Ok http := by
  obtain ⟨hproper, h⟩ := h
  rw [hst] at h
  obtain ⟨hsend, -, hans, hw⟩ := h
  exact ⟨hproper.concat nofun, hsend, c.stream.handled, requestId, request, rfl, rfl, hans, hw⟩

theorem replied_concat (hs : List Handled) (h : Handled) (b : Bytes) :
    replied (hs ++ [h]) b = hs ++ [{ h with reply := some b }] := by
  simp [replied]

/-- The response that a connection waits for is a response to its last request. -/
theorem Ok.answer (h : c.Ok http) {r : QueuedResponse} (hr : c.Awaits r) (date : Bytes) :
    (c.answer r date).Ok http ∧ (c.answer r date).state = .writing ∧
      (c.answer r date).stream.requestIds = c.stream.requestIds := by
  obtain ⟨hpend, hs, request, hh, hresult⟩ := hr
  obtain ⟨hst, -⟩ := h.processing hpend
  obtain ⟨hproper, h⟩ := h
  rw [hst] at h
  obtain ⟨-, hs', id, request', hpend', hh', hans, hw⟩ := h
  obtain rfl : hs' = hs := List.append_inj_left' (hh'.symm.trans hh) rfl
  have hnew : (c.answer r date).stream.handled = hs' ++ [⟨.queued r.requestId request c.shouldClose,
      some (createResponse date r.requestId r.result c.shouldClose)⟩] := by
    show replied c.stream.handled _ = _
    rw [hh, replied_concat]
  refine ⟨⟨?_, rfl, Nat.zero_le _, hs', _, hnew, hans, hw.trans (List.append_nil _).symm⟩, rfl, ?_⟩
  · rw [hnew]
    refine Proper.concat (fun x hx => hproper x (hh ▸ List.mem_append_left _ hx)) ?_
    rintro b ⟨⟩
    exact ⟨date, by rw [hresult]⟩
  · rw [Stream.requestIds, Stream.requestIds, hnew, hh, List.filterMap_append, List.filterMap_append]
    rfl

/-! ### Writing -/

theorem Ok.tryWrite (h : c.Ok http) (hst : c.state = .writing) {ws : List WriteResult}
    {r : Connection × Option Bool} (hr : c.tryWrite ws = some r) :
    r.1.Ok http ∧ r.1.state = .writing ∧ r.1.stream.handled = c.stream.handled := by
  induction ws generalizing c with
  | nil =>
    simp only [Connection.tryWrite] at hr
    split_ifs at hr
    cases hr
    exact ⟨h, hst, rfl⟩
  | cons w ws ih =>
    simp only [Connection.tryWrite] at hr
    split_ifs at hr with hlt
    · cases w with
      | wouldBlock =>
        cases hr
        exact ⟨h, hst, rfl⟩
      | error =>
        cases hr
        exact ⟨h, hst, rfl⟩
      | ok n =>
        dsimp only at hr
        split_ifs at hr with hn
        refine ih (c := { c with
          sendPos := c.sendPos + n
          stream := ⟨c.stream.written ++ (c.sendBuf.drop c.sendPos).take n, c.stream.handled⟩ })
          ?_ hst hr
        obtain ⟨hproper, h⟩ := h
        rw [hst] at h
        obtain ⟨hpend, -, hs, o, hh, hans, hw⟩ := h
        refine ⟨hproper, ?_⟩
        dsimp only
        rw [hst]
        refine ⟨hpend, by omega, hs, o, hh, hans, ?_⟩
        rw [hw, List.append_assoc, ← List.take_add]
    · cases hr
      exact ⟨h, hst, rfl⟩

theorem Ok.afterWrite {r : Connection × Option Bool} (h : r.1.Ok http) (hst : r.1.state = .writing) :
    (afterWrite r).1.Ok http ∧ (afterWrite r).1.stream.handled = r.1.stream.handled := by
  obtain ⟨c, _ | done⟩ := r
  · exact ⟨h, rfl⟩
  · simp only [Connection.afterWrite]
    split_ifs with hsent
    · exact ⟨h, rfl⟩
    · -- everything is sent, so the response is on the wire
      refine ⟨?_, rfl⟩
      obtain ⟨hproper, h⟩ := h
      rw [hst] at h
      obtain ⟨-, -, hs, o, hh, hans, hw⟩ := h
      have hall : c.sendBuf.take c.sendPos = c.sendBuf := by
        simp only [isResponseSent, ge_iff_le, decide_eq_true_eq] at hsent
        exact List.take_of_length_le hsent
      refine ⟨hproper, rfl, rfl, ?_, ?_⟩
      · show Answered c.stream.handled
        rw [hh]
        exact hans.concat o _
      · show c.stream.written = (replies c.stream.handled).flatten
        rw [hh, replies_concat, hw, hall]
        rfl
    · exact ⟨h, rfl⟩

theorem Ok.writeEvent (h : c.Ok http) {ev : Event} {r : Connection × Bool}
    (hr : c.writeEvent ev = some r) :
    r.1.Ok http ∧ r.1.stream.handled = c.stream.handled ∧ (c.sendBuf = [] → r = (c, false)) := by
  simp only [Connection.writeEvent] at hr
  split_ifs at hr with hw
  · simp only [Option.map_eq_some_iff] at hr
    obtain ⟨r', hr', rfl⟩ := hr
    obtain ⟨hok, hst, hh⟩ := h.tryWrite (h.writing hw.2) hr'
    obtain ⟨hok', hh'⟩ := hok.afterWrite hst
    exact ⟨hok', hh'.trans hh, fun hnil => absurd hnil hw.2⟩
  · cases hr
    exact ⟨h, rfl, fun _ => rfl⟩

end Connection

/-! ## The pool -/

/-- Replacing an element is exchanging it. -/
theorem perm_set {α : Type} {l : List α} {i : ℕ} {x : α} (h : l[i]? = some x) (y : α) :
    (x :: l.set i y).Perm (y :: l) := by
  induction l generalizing i with
  | nil => cases h
  | cons z l ih =>
    cases i with
    | zero =>
      obtain rfl : z = x := by simpa using h
      exact List.Perm.swap _ _ _
    | succ i =>
      have hi : l[i]? = some x := by simpa using h
      have hswap : (x :: z :: l.set i y).Perm (z :: x :: l.set i y) := List.Perm.swap _ _ _
      exact hswap.trans (((ih hi).cons z).trans (List.Perm.swap _ _ _))

namespace ConnectionPool

/-- The free slots are empty and listed once. -/
structure Ok (p : ConnectionPool) : Prop where
  nodup : p.freeSlots.Nodup
  free : ∀ i ∈ p.freeSlots, p.connections[i]? = some none
  recycled : ∀ r ∈ p.recycledBuffers, r.sendBuf = []

/-- The streams of the connections in the pool. -/
def streams (p : ConnectionPool) : List Stream :=
  p.connections.filterMap fun c => c.map Connection.stream

variable {p : ConnectionPool} {i j : ℕ} {c c' : Connection}

theorem get_eq_some : p.get i = some c ↔ p.connections[i]? = some (some c) := by
  unfold get
  cases p.connections[i]? <;> simp

theorem lt_of_get (h : p.get i = some c) : i < p.connections.length :=
  (List.getElem?_eq_some_iff.1 (get_eq_some.1 h)).1

theorem get_set_self (h : i < p.connections.length) : (p.set i c').get i = some c' := by
  rw [get_eq_some]
  exact List.getElem?_set_self h

theorem get_set_of_ne (h : i ≠ j) : (p.set i c').get j = p.get j := by
  unfold get set
  rw [List.getElem?_set_ne h]

theorem connections_remove (h : i < p.connections.length) :
    (p.remove i).connections = p.connections.set i none := by
  unfold remove
  rw [if_pos h]

theorem get_remove_self (h : i < p.connections.length) : (p.remove i).get i = none := by
  unfold get
  rw [connections_remove h, List.getElem?_set_self h]
  rfl

theorem get_remove_of_ne (h : i ≠ j) : (p.remove i).get j = p.get j := by
  unfold get
  by_cases hlt : i < p.connections.length
  · rw [connections_remove hlt, List.getElem?_set_ne h]
  · rw [remove, if_neg hlt]

/-- A free slot is not the slot of a connection. -/
theorem Ok.ne_of_free (h : p.Ok) (hi : p.get i = some c) (hj : j ∈ p.freeSlots) : i ≠ j := by
  rintro rfl
  have := (h.free i hj).symm.trans (get_eq_some.1 hi)
  cases this

theorem Ok.set (h : p.Ok) (hi : i ∉ p.freeSlots) : (p.set i c').Ok := by
  refine ⟨h.nodup, fun j hj => ?_, h.recycled⟩
  have hne : i ≠ j := fun hij => hi (hij ▸ hj)
  exact (List.getElem?_set_ne hne).trans (h.free j hj)

theorem Ok.remove (h : p.Ok) (hi : p.get i = some c) : (p.remove i).Ok := by
  have hlt := lt_of_get hi
  have hnot : i ∉ p.freeSlots := fun hj => h.ne_of_free hi hj rfl
  have hfree : (p.remove i).freeSlots = i :: p.freeSlots := by rw [ConnectionPool.remove, if_pos hlt]
  refine ⟨?_, fun j hj => ?_, fun r hr => ?_⟩
  · rw [hfree]
    exact List.nodup_cons.2 ⟨hnot, h.nodup⟩
  · rw [connections_remove hlt]
    rw [hfree] at hj
    rcases List.mem_cons.1 hj with rfl | hj
    · exact List.getElem?_set_self hlt
    · exact (List.getElem?_set_ne (h.ne_of_free hi hj)).trans (h.free j hj)
  · simp only [ConnectionPool.remove, if_pos hlt, hi] at hr
    split_ifs at hr
    · rcases List.mem_cons.1 hr with rfl | hr
      · rfl
      · exact h.recycled r hr
    · exact h.recycled r hr

theorem streams_set (h : p.get i = some c) :
    (c.stream :: (p.set i c').streams).Perm (c'.stream :: p.streams) :=
  (perm_set (get_eq_some.1 h) (some c')).filterMap fun c : Option Connection => c.map Connection.stream

theorem streams_remove (h : p.get i = some c) :
    (c.stream :: (p.remove i).streams).Perm p.streams := by
  unfold streams
  rw [connections_remove (lt_of_get h)]
  exact (perm_set (get_eq_some.1 h) none).filterMap fun c => c.map Connection.stream

theorem streams_set_of_none (h : p.connections[i]? = some none) :
    (p.set i c').streams.Perm (c'.stream :: p.streams) :=
  (perm_set h (some c')).filterMap fun c : Option Connection => c.map Connection.stream

theorem mem_streams {st : Stream} : st ∈ p.streams ↔ ∃ i c, p.get i = some c ∧ c.stream = st := by
  simp only [streams, List.mem_filterMap, Option.map_eq_some_iff]
  constructor
  · rintro ⟨_, hmem, c, rfl, rfl⟩
    obtain ⟨i, hi⟩ := List.mem_iff_getElem?.1 hmem
    exact ⟨i, c, get_eq_some.2 hi, rfl⟩
  · rintro ⟨i, c, hi, rfl⟩
    exact ⟨some c, List.mem_of_getElem? (get_eq_some.1 hi), c, rfl, rfl⟩

/-- What `alloc_empty` and `create_connection` hand out: an empty slot that is free no longer, and a
connection that is reading, with nothing to send. -/
theorem Ok.accept (h : p.Ok) (st : Stream) :
    let a := p.allocEmpty
    let r := a.1.createConnection st
    r.1.Ok ∧ r.1.connections[a.2]? = some none ∧ a.2 ∉ r.1.freeSlots ∧
      (∀ j, r.1.get j = p.get j) ∧ r.1.streams = p.streams ∧
      ∃ recvBuf jsonBuf, r.2 = Connection.new st recvBuf [] jsonBuf := by
  obtain ⟨hnodup, hfree, hrec⟩ := h
  obtain ⟨conns, free, recycled⟩ := p
  cases free with
  | cons idx rest =>
    obtain ⟨hnot, hnodup'⟩ := List.nodup_cons.1 hnodup
    have hidx := hfree idx List.mem_cons_self
    have hrest : ∀ i ∈ rest, conns[i]? = some none := fun i hi => hfree i (List.mem_cons_of_mem _ hi)
    cases recycled with
    | nil => exact ⟨⟨hnodup', hrest, nofun⟩, hidx, hnot, fun _ => rfl, rfl, [], [], rfl⟩
    | cons b bs =>
      refine ⟨⟨hnodup', hrest, fun r hr => hrec r (List.mem_cons_of_mem _ hr)⟩, hidx, hnot,
        fun _ => rfl, rfl, b.recvBuf, b.jsonBuf, ?_⟩
      rw [← hrec b List.mem_cons_self]
      rfl
  | nil =>
    have hnew : (conns ++ [none])[conns.length]? = some none := by simp
    have hget : ∀ j : ℕ, ((conns ++ [none])[j]?).join = (conns[j]?).join := by
      intro j
      rcases Nat.lt_trichotomy j conns.length with hlt | rfl | hgt
      · rw [List.getElem?_append_left hlt]
      · simp
      · rw [List.getElem?_eq_none (by simp; omega), List.getElem?_eq_none (by omega)]
    have hstreams : (conns ++ [none]).filterMap (fun c : Option Connection => c.map Connection.stream) =
        conns.filterMap (fun c : Option Connection => c.map Connection.stream) := by
      rw [List.filterMap_append]
      exact List.append_nil _
    cases recycled with
    | nil => exact ⟨⟨hnodup, nofun, nofun⟩, hnew, nofun, hget, hstreams, [], [], rfl⟩
    | cons b bs =>
      refine ⟨⟨hnodup, nofun, fun r hr => hrec r (List.mem_cons_of_mem _ hr)⟩, hnew, nofun, hget,
        hstreams, b.recvBuf, b.jsonBuf, ?_⟩
      rw [← hrec b List.mem_cons_self]
      rfl

end ConnectionPool

end Land.Server
