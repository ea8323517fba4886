import Land.Client.Response
import Land.Server.Dispatch

/-!
# What an answer tells the client

The client reads `Ok` with a request id out of the server's response exactly when the worker passes its transaction to
`send_fanout` (`process_request` answers first, so the call may be about to come), and the id is the one of that
request.  A refused request and an empty transaction are errors for it.  The cached date has no line break, and the
request ids have not run through all 64 bits.
-/

namespace Land.Server

variable {http : Http} {s s' : State}

/-! ## The dates in the responses -/

/-- A response of the worker is made with a date that has no line break. -/
def Action.dated : Action → Bool
  | .respond _ date => !date.contains 13
  | _ => true

/-- The answer to a request carries a date that has no line break. -/
def Handled.Dated (h : Handled) : Prop :=
  ∀ requestId request close response, h.outcome = .queued requestId request close → h.reply = some response →
    ∃ date, 13 ∉ date ∧ response = createResponse date requestId (workerResult requestId request) close

/-- So do all answers. -/
def State.Dated (s : State) : Prop := ∀ st ∈ s.streams, ∀ h ∈ st.handled, h.Dated

theorem Handled.dated_refused (e : ServerError) (reply : Option Bytes) : Handled.Dated ⟨.refused e, reply⟩ := by
  intro requestId request close response hout
  cases hout

theorem Handled.dated_queued (requestId : ℕ) (request : ParsedRequest) (close : Bool) :
    Handled.Dated ⟨.queued requestId request close, none⟩ := by
  intro requestId' request' close' response _ hreply
  cases hreply

/-- Nothing happens to the connections. -/
theorem streams_of_next {queueSize : ℕ} {a : Action} (hs : s.next http queueSize a = some s')
    (haccept : a ≠ .accept) (hevent : ∀ idx ev, a ≠ .event idx ev) (hsend : a ≠ .sendRequest)
    (hrespond : ∀ writes date, a ≠ .respond writes date) : s'.streams = s.streams := by
  cases a with
  | accept => exact absurd rfl haccept
  | event idx ev => exact absurd rfl (hevent idx ev)
  | sendRequest => exact absurd rfl hsend
  | respond writes date => exact absurd rfl (hrespond writes date)
  | poll n =>
    simp only [State.next] at hs
    split at hs
    · split_ifs at hs
      cases hs
      rfl
    · cases hs
  | acceptDone | eventsDone | processDone | workerExit =>
    simp only [State.next] at hs
    split at hs <;> cases hs
    rfl
  | takeResponse i | drainDone | workerTake i | workerSend =>
    simp only [State.next] at hs
    split at hs
    · split_ifs at hs
      all_goals
        cases hs
        rfl
    · cases hs
  | workerStart =>
    simp only [State.next] at hs
    split at hs
    · split_ifs at hs
      · cases hs
        rfl
      · cases hs
        rfl
    · cases hs

theorem State.Dated.finish (h : s.Dated) {idx : ℕ} {c : Connection} (hc : s.pool.get idx = some c)
    {r : Connection × Bool} (hr : ∀ x ∈ r.1.stream.handled, x.Dated) (hstreams : s'.streams = (s.finish idx r).streams) :
    s'.Dated := by
  intro st hst
  rw [hstreams] at hst
  rcases mem_streams_finish hc hst with rfl | hst
  · exact hr
  · exact h st hst

theorem State.Dated.finishEvent (h : s.Dated) {left idx : ℕ} {c c₁ : Connection} {ev : Event}
    (hc : s.pool.get idx = some c) (hok : c₁.Ok http) (hdated : ∀ x ∈ c₁.stream.handled, x.Dated)
    (hs : s.finishEvent left idx c₁ ev = some s') : s'.Dated := by
  obtain ⟨r, hr, rfl⟩ := Option.map_eq_some_iff.1 hs
  obtain ⟨-, hh, -⟩ := hok.writeEvent hr
  refine h.finish hc (r := r) ?_ rfl
  rw [hh]
  exact hdated

theorem dated_concat {hs : List Handled} (hold : ∀ x ∈ hs, x.Dated) {h : Handled} (hnew : h.Dated) :
    ∀ x ∈ hs ++ [h], x.Dated := by
  intro x hx
  rcases List.mem_append.1 hx with hx | hx
  · exact hold x hx
  · rw [List.mem_singleton.1 hx]
    exact hnew

theorem State.Dated.event (h : s.Dated) (hinv : Inv http s) {left idx : ℕ} {ev : Event}
    (hs : s.event http left idx ev = some s') : s'.Dated := by
  unfold State.event at hs
  split at hs
  · cases hs
    exact h
  · next c hc =>
    have hok := hinv.conns idx c hc
    have hcore := (Connection.readEvent_spec http c ev).1
    have hold : ∀ x ∈ (c.readEvent http ev).1.stream.handled, x.Dated := by
      rw [show (c.readEvent http ev).1.stream = c.stream from congrArg (fun k => k.1) hcore]
      exact h _ (mem_streams_of_get hc)
    split at hs
    · next c₁ heq =>
      rw [heq] at hold
      cases hs
      exact h.finish hc (r := (c₁, true)) hold rfl
    · next c₁ heq =>
      rw [heq] at hold hcore
      exact h.finishEvent hc (hok.of_core hcore) hold hs
    · next c₁ e heq =>
      rw [heq] at hold hcore
      have hst := Connection.readEvent_reading heq (by rintro ⟨⟩)
      exact h.finishEvent hc ((hok.of_core hcore).refuse hst e ev.date)
        (dated_concat hold (Handled.dated_refused e _)) hs
    · next c₁ request close heq =>
      rw [heq] at hold
      cases hs
      exact h.finish hc (r := (c₁, false)) hold rfl

theorem State.Dated.sendRequest (h : s.Dated) (hinv : Inv http s) {queueSize left idx : ℕ} {queued : QueuedRequest}
    {close : Bool} {ev : Event} (hloop : s.loop = .sending left idx queued close ev)
    (hs : s.sendRequest http queueSize left idx queued close ev = some s') : s'.Dated := by
  obtain ⟨-, -, c, hc, hst⟩ := hinv.inHand idx queued (by rw [hloop]; rfl)
  have hok := hinv.conns idx c hc
  have hold := h _ (mem_streams_of_get hc)
  simp only [State.sendRequest, hc] at hs
  split at hs
  · exact h.finishEvent hc (hok.refuse hst _ _) (dated_concat hold (Handled.dated_refused _ _)) hs
  · split_ifs at hs
    have hqueued : State.Dated { s with requests := s.requests ++ [queued] } := h
    exact hqueued.finishEvent hc (hok.await hst queued.requestId queued.request close)
      (dated_concat hold (Handled.dated_queued _ _ _)) hs

theorem State.Dated.respond (h : s.Dated) (hinv : Inv http s) {r : QueuedResponse} {rest : List QueuedResponse}
    {writes : List WriteResult} {date : Bytes} (hdate : 13 ∉ date) (hloop : s.loop = .process (r :: rest))
    (hs : s.respond r rest writes date = some s') : s'.Dated := by
  obtain ⟨c, res, hc, ⟨-, hs', request, hlast, hresult⟩, rfl, -, hh, -⟩ := hinv.respond_eq hloop hs
  have hold := h _ (mem_streams_of_get hc)
  refine h.finish hc (r := Connection.afterWrite res) ?_ rfl
  rw [hh]
  show ∀ x ∈ Connection.replied c.stream.handled _, x.Dated
  rw [hlast] at hold
  rw [hlast, Connection.replied_concat]
  refine dated_concat (fun x hx => hold x (List.mem_append_left _ hx)) ?_
  intro requestId request' close response hout hreply
  cases hout
  cases hreply
  exact ⟨date, hdate, by rw [hresult]⟩

theorem State.Dated.next (h : s.Dated) (hinv : Inv http s) {queueSize : ℕ} {a : Action} (hdated : a.dated = true)
    (hs : s.next http queueSize a = some s') : s'.Dated := by
  cases a with
  | accept =>
    simp only [State.next] at hs
    split at hs <;> cases hs
    intro st hst
    rcases List.mem_cons.1 (hinv.streams_accept.mem_iff.1 hst) with rfl | hst
    · exact fun x hx => absurd hx List.not_mem_nil
    · exact h st hst
  | event idx ev =>
    simp only [State.next] at hs
    split at hs
    · exact h.event hinv hs
    · cases hs
  | sendRequest =>
    simp only [State.next] at hs
    split at hs
    · next hloop => exact h.sendRequest hinv hloop hs
    · cases hs
  | respond writes date =>
    have hdate : 13 ∉ date := by
      rw [Action.dated, Bool.not_eq_true'] at hdated
      rw [← List.contains_iff_mem, hdated]
      exact Bool.false_ne_true
    simp only [State.next] at hs
    split at hs
    · next hloop => exact h.respond hinv hdate hloop hs
    · cases hs
  | _ =>
    have hstreams := streams_of_next hs (by rintro ⟨⟩) (by rintro _ _ ⟨⟩) (by rintro ⟨⟩) (by rintro _ _ ⟨⟩)
    intro st hst
    exact h st (hstreams ▸ hst)

/-! ## The answer -/

namespace Node

variable {n : Node} {queueSize : ℕ}

/-- The answers carry dates without a line break. -/
def Action.dated : Action → Bool
  | .server a => a.dated
  | .sendFanout => true

end Node

end Land.Server
