import Land.Client.Request
import Land.Server.Receive
import Land.Server.Routing

/-!
# The id of a response

A JSON-RPC response repeats the `id` of its request.  `write_json_response` writes the number that
`generate_request_id` gave the request; the `id` of the JSON body is parsed into `ParsedRequest` and not
looked at again.  So in every run the two agree only where the client happened to use that number
(`id_echoed_iff`).
-/

namespace Land.Server

variable {http : Http} {s s' : State}

/-! ## Requests come from the parsers -/

/-- The parsers gave this request. -/
def Outcome.Parsed (http : Http) : Outcome → Prop
  | .refused _ => True
  | .queued _ request connectionClose => ∃ buf, http.parseRequest buf = .ok (request, connectionClose)

/-- Every request that was handled, or that is in hand, came from the parsers. -/
structure Parsed (http : Http) (s : State) : Prop where
  handled : ∀ st ∈ s.streams, ∀ h ∈ st.handled, h.outcome.Parsed http
  inHand : ∀ left idx queued close ev, s.loop = .sending left idx queued close ev →
    ∃ buf, http.parseRequest buf = .ok (queued.request, close)

theorem mem_streams_finish {idx : ℕ} {c : Connection} (hc : s.pool.get idx = some c)
    {r : Connection × Bool} {st : Stream} (hst : st ∈ (s.finish idx r).streams) :
    st = r.1.stream ∨ st ∈ s.streams :=
  List.mem_cons.1 ((streams_finish hc r).mem_iff.1 (List.mem_cons_of_mem _ hst))

theorem mem_streams_of_get {idx : ℕ} {c : Connection} (hc : s.pool.get idx = some c) :
    c.stream ∈ s.streams :=
  List.mem_append_left _ (ConnectionPool.mem_streams.2 ⟨idx, c, hc, rfl⟩)

/-- A connection is exchanged for one whose requests came from the parsers. -/
theorem Parsed.exchange (h : Parsed http s) {idx : ℕ} {c : Connection} (hc : s.pool.get idx = some c)
    {r : Connection × Bool} (hr : ∀ x ∈ r.1.stream.handled, x.outcome.Parsed http)
    (hstreams : s'.streams = (s.finish idx r).streams) (hhand : s'.loop.inHand = none) :
    Parsed http s' where
  handled st hst := by
    rw [hstreams] at hst
    rcases mem_streams_finish hc hst with rfl | hst
    · exact hr
    · exact h.handled st hst
  inHand left idx queued close ev hloop := by
    rw [hloop] at hhand
    cases hhand

/-- Where the readable part of an event gets its request from. -/
theorem readEvent_request {c c₁ : Connection} {ev : Event} {request : ParsedRequest} {close : Bool}
    (h : c.readEvent http ev = (c₁, .request request close)) :
    ∃ buf, http.parseRequest buf = .ok (request, close) := by
  unfold Connection.readEvent at h
  split_ifs at h
  · split at h
    · cases h
    · cases h
    · simp only at h
      split_ifs at h
      · split at h
        · next heq =>
          cases h
          exact ⟨_, heq⟩
        · cases h
      · cases h
  · cases h

theorem Parsed.finishEvent (h : Parsed http s) {left idx : ℕ} {c c₁ : Connection} {ev : Event}
    (hc : s.pool.get idx = some c) (hok : c₁.Ok http)
    (hparsed : ∀ x ∈ c₁.stream.handled, x.outcome.Parsed http)
    (hs : s.finishEvent left idx c₁ ev = some s') : Parsed http s' := by
  simp only [State.finishEvent, Option.map_eq_some_iff] at hs
  obtain ⟨r, hr, rfl⟩ := hs
  obtain ⟨-, hh, -⟩ := hok.writeEvent hr
  refine h.exchange hc (r := r) ?_ rfl rfl
  rw [hh]
  exact hparsed

/-- A refused request may join the history. -/
theorem parsed_refuse {hs : List Handled} (hold : ∀ x ∈ hs, x.outcome.Parsed http) (e : ServerError)
    (reply : Option Bytes) : ∀ x ∈ hs ++ [⟨.refused e, reply⟩], x.outcome.Parsed http := by
  intro x hx
  rcases List.mem_append.1 hx with hx | hx
  · exact hold x hx
  · rw [List.mem_singleton.1 hx]
    trivial

theorem Parsed.event (h : Parsed http s) (hinv : Inv http s) {left idx : ℕ} {ev : Event}
    (hs : s.event http left idx ev = some s') : Parsed http s' := by
  unfold State.event at hs
  split at hs
  · cases hs
    exact ⟨h.handled, nofun⟩
  next c hc =>
  have hok := hinv.conns idx c hc
  have hcore := (Connection.readEvent_spec http c ev).1
  have hold : ∀ x ∈ (c.readEvent http ev).1.stream.handled, x.outcome.Parsed http := by
    rw [show (c.readEvent http ev).1.stream = c.stream from congrArg (fun k => k.1) hcore]
    exact h.handled _ (mem_streams_of_get hc)
  split at hs
  · next c₁ heq =>
    rw [heq] at hold
    cases hs
    exact h.exchange hc (r := (c₁, true)) hold rfl rfl
  · next c₁ heq =>
    rw [heq] at hold hcore
    exact h.finishEvent hc (hok.of_core hcore) hold hs
  · next c₁ e heq =>
    rw [heq] at hold hcore
    have hst := Connection.readEvent_reading heq nofun
    exact h.finishEvent hc ((hok.of_core hcore).refuse hst e ev.date) (parsed_refuse hold e _) hs
  · next c₁ request close heq =>
    rw [heq] at hold
    cases hs
    refine ⟨fun st hst => ?_, ?_⟩
    · rcases mem_streams_finish (r := (c₁, false)) hc hst with rfl | hst
      · exact hold
      · exact h.handled st hst
    · rintro _ _ _ _ _ ⟨⟩
      exact readEvent_request heq

theorem Parsed.sendRequest (h : Parsed http s) (hinv : Inv http s) {queueSize left idx : ℕ}
    {queued : QueuedRequest} {close : Bool} {ev : Event}
    (hloop : s.loop = .sending left idx queued close ev)
    (hs : s.sendRequest http queueSize left idx queued close ev = some s') : Parsed http s' := by
  obtain ⟨-, -, c, hc, hst⟩ := hinv.inHand idx queued (by rw [hloop]; rfl)
  have hok := hinv.conns idx c hc
  have hold := h.handled _ (mem_streams_of_get hc)
  simp only [State.sendRequest, hc] at hs
  split at hs
  · exact h.finishEvent hc (hok.refuse hst _ _) (parsed_refuse hold _ _) hs
  · split_ifs at hs
    have hqueued : Parsed http { s with requests := s.requests ++ [queued] } := ⟨h.handled, h.inHand⟩
    refine hqueued.finishEvent hc (hok.await hst queued.requestId queued.request close) (fun x hx => ?_) hs
    rcases List.mem_append.1 hx with hx | hx
    · exact hold x hx
    · rw [List.mem_singleton.1 hx]
      exact h.inHand _ _ _ _ _ hloop

/-- Writing the response into the history leaves the requests. -/
theorem outcome_of_mem_replied {hs : List Handled} {response : Bytes} {x : Handled}
    (hx : x ∈ Connection.replied hs response) : ∃ y ∈ hs, y.outcome = x.outcome := by
  rcases List.mem_append.1 hx with hx | hx
  · exact ⟨x, List.dropLast_subset _ hx, rfl⟩
  · obtain ⟨y, hy, rfl⟩ := List.mem_map.1 hx
    exact ⟨y, List.mem_of_getLast? (Option.mem_toList.1 hy), rfl⟩

theorem Parsed.respond (h : Parsed http s) (hinv : Inv http s) {r : QueuedResponse}
    {rest : List QueuedResponse} {writes : List WriteResult} {date : Bytes}
    (hloop : s.loop = .process (r :: rest)) (hs : s.respond r rest writes date = some s') :
    Parsed http s' := by
  obtain ⟨c, res, hc, -, rfl, -, hh, -⟩ := hinv.respond_eq hloop hs
  refine h.exchange hc (r := Connection.afterWrite res) (fun x hx => ?_) rfl rfl
  rw [hh] at hx
  obtain ⟨y, hy, heq⟩ := outcome_of_mem_replied hx
  rw [← heq]
  exact h.handled _ (mem_streams_of_get hc) y hy

theorem Parsed.accept (h : Parsed http s) (hinv : Inv http s) (hhand : s.loop.inHand = none) :
    Parsed http s.accept := by
  refine ⟨fun st hst => ?_, fun left idx queued close ev hloop => ?_⟩
  · rcases List.mem_cons.1 (hinv.streams_accept.mem_iff.1 hst) with rfl | hst
    · nofun
    · exact h.handled st hst
  · rw [show s.loop = _ from hloop] at hhand
    cases hhand

theorem Parsed.next (h : Parsed http s) (hinv : Inv http s) {queueSize : ℕ} {a : Action}
    (hs : s.next http queueSize a = some s') : Parsed http s' := by
  rcases next_cases hs with hmoved | ⟨-, rfl, hhand⟩ | ⟨left, idx, ev, -, hs⟩ |
    ⟨left, idx, queued, close, ev, hloop, hs⟩ | ⟨r, rest, writes, date, hloop, hs⟩
  · refine ⟨hmoved.streams ▸ h.handled, fun left idx queued close ev hsending => ?_⟩
    rcases hmoved.loop with hloop | ⟨-, hloop⟩
    · exact h.inHand left idx queued close ev (hloop.symm.trans hsending)
    · rw [hsending] at hloop
      cases hloop
  · exact h.accept hinv hhand
  · exact h.event hinv hs
  · exact h.sendRequest hinv hloop hs
  · exact h.respond hinv hloop hs

theorem parsed_of_reachable {queueSize : ℕ} (hs : (system http queueSize).Reachable s) :
    Parsed http s := by
  have hboth : Inv http s ∧ Parsed http s := by
    refine hs.invariant (I := fun s => Inv http s ∧ Parsed http s) (fun s h => ?_)
      fun s a s' h hstep => ⟨h.1.next hstep, h.2.next h.1 hstep⟩
    rw [h.2]
    exact ⟨inv_initial http, nofun, nofun⟩
  exact hboth.2

/-! ## The JSON of a response -/

/-- The `id` member of a JSON-RPC response. -/
def idMember (body : Bytes) : Option Json := do
  let text ← Utf8.decode body
  match ← Json.parse text with
  | .obj ms => ms.lookup "id".toList
  | _ => none

/-- The JSON value that `write_json_response` writes. -/
def responseJson (requestId : ℕ) (result : Except String String) : Json :=
  .obj [("jsonrpc".toList, .str "2.0".toList), ("id".toList, .num false requestId []),
    match result with
    | .ok requestIdHex => ("result".toList, .obj [("status".toList, .str "queued".toList),
        ("request_id".toList, .str requestIdHex.toList)])
    | .error errorMsg => ("error".toList, .obj [("code".toList, .num true 32603 []),
        ("message".toList, .str errorMsg.toList)])]

/-- A text that needs no escaping. -/
def Plain (text : String) : Prop := ∀ c ∈ text.toList, 32 ≤ c.toNat ∧ c ≠ '"' ∧ c ≠ '\\'

theorem plain_of_all {text : String}
    (h : text.toList.all (fun c => 32 ≤ c.toNat ∧ c ≠ '"' ∧ c ≠ '\\') = true) : Plain text :=
  fun c hc => of_decide_eq_true (List.all_eq_true.1 h c hc)

theorem plain_hex16 (n : ℕ) : Plain (hex16 n) := by
  have hdigit : ∀ d < 16, 32 ≤ (Nat.digitChar d).toNat ∧ Nat.digitChar d ≠ '"' ∧
      Nat.digitChar d ≠ '\\' := by decide
  intro c hc
  rw [hex16, String.toList_ofList] at hc
  rcases List.mem_append.1 hc with hc | hc
  · rw [List.eq_of_mem_replicate hc]
    decide
  · obtain ⟨d, hd, rfl⟩ := Str.exists_of_mem_hexDigits hc
    exact hdigit d hd

/-- What is written is the text of that value, for a result that needs no escaping. -/
theorem writeJsonResponse_eq_render (requestId : ℕ) (result : Except String String)
    (hok : ∀ hex, result = .ok hex → Plain hex) (herror : ∀ msg, result = .error msg → Plain msg) :
    writeJsonResponse requestId result = Utf8.encode (responseJson requestId result).render := by
  cases result with
  | ok hex =>
    have hplain := Json.flatMap_escape (hok hex rfl)
    simp only [writeJsonResponse, bytes_eq, ← Utf8.encode_append]
    congr 1
    simp [responseJson, Json.render, Json.renderMembers, Json.renderMoreMembers, Json.renderNumber,
      Json.quote, hplain, Json.escape, Json.shortEscape]
  | error msg =>
    have hplain := Json.flatMap_escape (herror msg rfl)
    have hcode : Nat.toDigits 10 32603 = ['3', '2', '6', '0', '3'] := by decide
    simp only [writeJsonResponse, bytes_eq, ← Utf8.encode_append]
    congr 1
    simp [responseJson, Json.render, Json.renderMembers, Json.renderMoreMembers, Json.renderNumber,
      Json.quote, hplain, Json.escape, Json.shortEscape, hcode]

/-- The id in the answer to a request is the server's own number for it. -/
theorem idMember_workerResult (requestId : ℕ) (request : ParsedRequest) :
    idMember (writeJsonResponse requestId (workerResult requestId request)) =
      some (.num false requestId []) := by
  have hok : ∀ hex, workerResult requestId request = .ok hex → Plain hex := by
    intro hex h
    unfold workerResult at h
    split_ifs at h
    cases h
    exact plain_hex16 requestId
  have herror : ∀ msg, workerResult requestId request = .error msg → Plain msg := by
    intro msg h
    unfold workerResult at h
    split_ifs at h
    cases h
    exact plain_of_all (by decide)
  have hparse : Json.parse (responseJson requestId (workerResult requestId request)).render =
      some (responseJson requestId (workerResult requestId request)) := by
    refine Json.parse_render _ ?_
    cases workerResult requestId request <;> rfl
  simp only [idMember, writeJsonResponse_eq_render _ _ hok herror, Utf8.decode_encode, Option.bind_eq_bind,
    Option.bind_some, hparse]
  rfl

/-! ## The id of a request -/

/-- The id that the JSON body of a request carries. -/
def bodyId (serde : Serde) (buf : Bytes) : Option Json :=
  match HttpRequest.parse buf with
  | .error _ => none
  | .ok req =>
      match JsonRpcRequest.fromSlice serde req.body with
      | .error _ => none
      | .ok rpc => some rpc.id

theorem exists_bodyId {serde : Serde} {buf : Bytes} {r : ParsedRequest × Bool}
    (h : parseRequest serde buf = .ok r) : ∃ v, bodyId serde buf = some v := by
  unfold parseRequest at h
  unfold bodyId
  cases hparse : HttpRequest.parse buf with
  | error e =>
    rw [hparse] at h
    cases h
  | ok req =>
    simp only [hparse, bind, Except.bind] at h
    split at h
    · cases h
    · cases hslice : JsonRpcRequest.fromSlice serde req.body with
      | error e =>
        rw [hslice] at h
        cases h
      | ok rpc => exact ⟨rpc.id, by simp only [hslice]⟩

/-- Whether a response carries the id of its request.  In every run, the `id` of the answer to a request
that went to the worker is the server's own number for it, so it is the id of the request's JSON body
only where that is the same number. -/
theorem id_echoed_iff (serde : Serde) (queueSize : ℕ) {s : State}
    (hs : (system (Server.http serde errorJson) queueSize).Reachable s) {st : Stream}
    (hst : st ∈ s.streams) {requestId : ℕ} {request : ParsedRequest} {close : Bool} {response : Bytes}
    (hhandled : Handled.mk (.queued requestId request close) (some response) ∈ st.handled) :
    (∃ buf v, parseRequest serde buf = .ok (request, close) ∧ bodyId serde buf = some v) ∧
    ∃ date body, response = buildResponse date (HttpResponse.ok.withJsonBytes body) close ∧
      ∀ buf v, parseRequest serde buf = .ok (request, close) → bodyId serde buf = some v →
        (idMember body = some v ↔ v = .num false requestId []) := by
  obtain ⟨buf, hbuf⟩ := (parsed_of_reachable hs).handled st hst _ hhandled
  obtain ⟨v, hv⟩ := exists_bodyId hbuf
  obtain ⟨date, hresponse⟩ := ((inv_of_reachable hs).sound st hst).proper _ hhandled response rfl
  refine ⟨⟨buf, v, hbuf, hv⟩, date, _, hresponse, fun buf v _ _ => ?_⟩
  rw [idMember_workerResult, Option.some.injEq]
  exact eq_comm

/-! ## The first request of a server -/

theorem length_createResponse_pos (date : Bytes) (requestId : ℕ) (result : Except String String)
    (connectionClose : Bool) : 0 < (createResponse date requestId result connectionClose).length := by
  have hbytes : 0 < (bytes "HTTP/1.1 ").length := by
    rw [bytes_eq]
    exact List.length_pos_iff.2 (Utf8.encode_ne_nil (by decide))
  cases connectionClose
  all_goals
    simp only [createResponse, buildResponse, Bool.false_eq_true, if_true, if_false, HttpResponse.build,
      List.length_append]
    omega

/-- The first request that a server gets is answered under the number 1. -/
theorem exists_answered (http : Http) {buf : Bytes} (hlen : buf.length ≤ maxRequestSize)
    (hcomplete : requestComplete http buf = true) {request : ParsedRequest} {close : Bool}
    (hparse : http.parseRequest buf = .ok (request, close)) (date : Bytes) :
    ∃ s, (system http 64).Reachable s ∧ ∃ st ∈ s.streams,
      Handled.mk (.queued 1 request close)
        (some (createResponse date 1 (workerResult 1 request) close)) ∈ st.handled := by
  let ev : Event := ⟨true, false, [buf], .wouldBlock, [], date⟩
  let c₀ : Connection := .new ⟨[], []⟩ [] [] []
  let s₀ : State := { State.initial with pool := ⟨[some c₀], [], []⟩, loop := .events 1, accepted := 1 }
  have hinit : (system http 64).Reachable State.initial := .init ⟨by decide, rfl⟩
  have hs₀ : (system http 64).Reachable s₀ :=
    hinit.run (show (system http 64).run _ [.poll 2, .accept, .acceptDone] = some s₀ from rfl)
  have hbuf : c₀.recvBuf ++ ev.reads.flatten = buf := List.append_nil buf
  have hscanned : c₀.Scanned := ⟨le_rfl, nofun, nofun⟩
  obtain ⟨c₁, -, -, hread⟩ := Connection.readEvent_eq http hscanned rfl rfl
    (show ev.readable = true from rfl) rfl (hbuf ▸ hlen)
  rw [hbuf, hcomplete, if_pos rfl, ReadOutcome.ofRequest, hparse] at hread
  have hcore := (Connection.readEvent_spec http c₀ ev).1
  rw [hread] at hcore
  have hstream : c₁.stream = ⟨[], []⟩ := congrArg (fun k => k.1) hcore
  -- the request goes to the worker and back
  let queued : QueuedRequest := ⟨1, 1, request⟩
  let s₁ : State := { s₀ with
    pool := ⟨[some c₁], [], []⟩, nextRequestId := 2, loop := .sending 0 0 queued close ev }
  have hs₁ : (system http 64).Reachable s₁ := by
    refine hs₀.step (.event 0 ev) ?_
    show s₀.event http 0 0 ev = some s₁
    have hget : s₀.pool.get 0 = some c₀ := rfl
    simp only [State.event, hget, hread]
    rfl
  let c₂ : Connection := c₁.await 1 request close
  let s₂ : State := { s₁ with
    pool := ⟨[some c₂], [], []⟩, loop := .process [processRequest queued] }
  have hs₂ : (system http 64).Reachable s₂ :=
    hs₁.run (show (system http 64).run _ [.sendRequest, .eventsDone, .workerTake 0, .workerStart,
      .workerSend, .takeResponse 0, .drainDone] = some s₂ from rfl)
  -- the socket takes nothing of the response yet
  let c₃ : Connection := c₂.answer (processRequest queued) date
  have hpos := length_createResponse_pos date 1 (workerResult 1 request) close
  have hwrite : c₃.tryWrite [.wouldBlock] = some (c₃, some false) := if_pos hpos
  have hafter : Connection.afterWrite (c₃, some false) = (c₃, false) := by
    have hsent : c₃.isResponseSent = false := decide_eq_false (not_le.2 hpos)
    rw [Connection.afterWrite, hsent]
    rfl
  let s₃ : State := { s₂ with pool := ⟨[some c₃], [], []⟩, loop := .process [] }
  have hs₃ : (system http 64).Reachable s₃ := by
    refine hs₂.step (.respond [.wouldBlock] date) ?_
    show s₂.respond (processRequest queued) [] [.wouldBlock] date = some s₃
    have hget : s₂.pool.get ((processRequest queued).token - 1) = some c₂ := rfl
    have hpend : c₂.pendingRequestId = some (processRequest queued).requestId := rfl
    simp only [State.respond, hget, if_pos hpend]
    rw [show c₂.answer (processRequest queued) date = c₃ from rfl, hwrite, Option.map_some, hafter]
    rfl
  refine ⟨s₃, hs₃, c₃.stream, List.mem_append_left _ (List.mem_singleton.2 rfl), ?_⟩
  have hhandled : c₃.stream.handled =
      [⟨.queued 1 request close, some (createResponse date 1 (workerResult 1 request) close)⟩] := by
    show Connection.replied (c₁.stream.handled ++ [⟨.queued 1 request close, none⟩]) _ = _
    rw [hstream]
    rfl
  rw [hhandled]
  exact List.mem_singleton.2 rfl

/-- A request that the client builds is answered under the number 1 when it is the server's first. -/
theorem exists_answered_buildRequest (serde : Serde) (requestId : UInt64)
    (hlen : (Client.buildRequest "localhost" requestId ⟨[1], by decide⟩ 1 0).length ≤ maxRequestSize) :
    ∃ s st request response,
      (system (Server.http serde errorJson) 64).Reachable s ∧ st ∈ s.streams ∧
      Handled.mk (.queued 1 request false) (some response) ∈ st.handled ∧
      parseRequest serde (Client.buildRequest "localhost" requestId ⟨[1], by decide⟩ 1 0) =
        .ok (request, false) ∧
      bodyId serde (Client.buildRequest "localhost" requestId ⟨[1], by decide⟩ 1 0) =
        some (.num false requestId.toNat []) := by
  have hcr : '\r' ∉ "localhost".toList := by decide
  have hlf : '\n' ∉ "localhost".toList := by decide
  obtain ⟨id, hparse⟩ := Client.parseRequest_buildRequest serde errorJson "localhost" hcr hlf requestId
    ⟨[1], by decide⟩ (show (1 : UInt64) ≤ 1 by decide) 0
  have hcomplete : requestComplete (Server.http serde errorJson)
      (Client.buildRequest "localhost" requestId ⟨[1], by decide⟩ 1 0) = true :=
    (Client.isComplete_iff "localhost" hcr hlf List.prefix_rfl).2 rfl
  obtain ⟨s, hs, st, hst, hhandled⟩ := exists_answered _ hlen hcomplete hparse []
  refine ⟨s, st, _, _, hs, hst, hhandled, hparse, ?_⟩
  simp only [bodyId, Client.buildRequest_eq "localhost" hcr,
    Client.parse_requestMessage "localhost" hcr hlf (Client.length_requestBody_lt _ _ _ _),
    Client.fromSlice_requestBody]
  rfl

/-- The first request, with id 1: the answer carries its id. -/
theorem id_echoed_iff_first : ∃ s st request response date body,
    (system (Server.http ⟨fun _ => "", fun _ => ""⟩ errorJson) 64).Reachable s ∧ st ∈ s.streams ∧
    Handled.mk (.queued 1 request false) (some response) ∈ st.handled ∧
    response = buildResponse date (HttpResponse.ok.withJsonBytes body) false ∧
    idMember body = some (.num false 1 []) := by
  obtain ⟨s, st, request, response, hs, hst, hhandled, hparse, hid⟩ :=
    exists_answered_buildRequest ⟨fun _ => "", fun _ => ""⟩ 1 (by decide +kernel)
  obtain ⟨-, date, body, hresponse, hiff⟩ := id_echoed_iff _ 64 hs hst hhandled
  exact ⟨s, st, request, response, date, body, hs, hst, hhandled, hresponse,
    (hiff _ _ hparse hid).2 rfl⟩

/-- The first request, with id 7: the answer carries the id 1. -/
theorem id_not_echoed : ∃ s st request response date body buf,
    (system (Server.http ⟨fun _ => "", fun _ => ""⟩ errorJson) 64).Reachable s ∧ st ∈ s.streams ∧
    Handled.mk (.queued 1 request false) (some response) ∈ st.handled ∧
    parseRequest ⟨fun _ => "", fun _ => ""⟩ buf = .ok (request, false) ∧
    bodyId ⟨fun _ => "", fun _ => ""⟩ buf = some (.num false 7 []) ∧
    response = buildResponse date (HttpResponse.ok.withJsonBytes body) false ∧
    idMember body = some (.num false 1 []) := by
  obtain ⟨s, st, request, response, hs, hst, hhandled, hparse, hid⟩ :=
    exists_answered_buildRequest ⟨fun _ => "", fun _ => ""⟩ 7 (by decide +kernel)
  obtain ⟨date, hresponse⟩ := ((inv_of_reachable hs).sound st hst).proper _ hhandled response rfl
  exact ⟨s, st, request, response, date, _, _, hs, hst, hhandled, hparse, hid, hresponse,
    idMember_workerResult 1 request⟩

end Land.Server
