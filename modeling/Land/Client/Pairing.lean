import Land.Lib.Transition
import Land.Client.Connection

/-!
# Replies and calls

A client calls `send_with_opts` any number of times on one connection to a server that answers every
request once and in order, at any time.  Every call sends its request; it then ends with what it read, or
with an error, for instance when `wait_readable` times out.  The reply to a call that timed out stays
under way, and the next call reads it as its own.
-/

namespace Land.Client

open Server (Bytes)

/-! ## The server's answers -/

/-- What the server makes of a request. -/
inductive Outcome where
  /-- the request is queued under an id -/
  | queued (requestId : UInt64)
  /-- the worker of the request with this id failed -/
  | failed (requestId : UInt64) (msg : Text)
  /-- `error_response` -/
  | refused (http : Server.Http) (e : Server.ServerError)

/-- A response, with the date in it. -/
structure Answer where
  outcome : Outcome
  date : Bytes
  connectionClose : Bool
  cr_not_mem : 13 ∉ date

namespace Answer

/-- The bytes of the response. -/
def bytes (a : Answer) : Bytes :=
  match a.outcome with
  | .queued requestId =>
      Server.createResponse a.date requestId.toNat (.ok (Server.hex16 requestId.toNat)) a.connectionClose
  | .failed requestId msg =>
      Server.createResponse a.date requestId.toNat (.error msg.text) a.connectionClose
  | .refused http e => Server.errorResponse http a.date e a.connectionClose

/-- The id that the server assigned to the request. -/
def requestId (a : Answer) : Option ℕ :=
  match a.outcome with
  | .queued requestId => some requestId.toNat
  | .failed requestId _ => some requestId.toNat
  | .refused _ _ => none

theorem isComplete_queued {a : Answer} {requestId : UInt64} (ha : a.outcome = .queued requestId) {p : Bytes}
    (hp : p <+: a.bytes) : isComplete p = true ↔ p = a.bytes := by
  have hbytes : a.bytes = Server.createResponse a.date requestId.toNat
      (workerResult (.ok ⟨Server.hex16 requestId.toNat, length_bytes_hex16_lt requestId⟩))
      a.connectionClose := by
    rw [bytes, ha]
    rfl
  rw [hbytes] at hp ⊢
  exact isComplete_createResponse a.date a.cr_not_mem requestId _ a.connectionClose hp

theorem parseResponse_queued {a : Answer} {requestId : UInt64} (ha : a.outcome = .queued requestId) :
    parseResponse a.bytes = .ok ⟨requestId.toNat⟩ := by
  rw [bytes, ha]
  exact parseResponse_ok a.date a.cr_not_mem requestId a.connectionClose

/-- A success read from the beginning of a response that looks complete is the id of that response. -/
theorem requestId_of_parse {a : Answer} {p : Bytes} (hp : p <+: a.bytes) (hcomplete : isComplete p = true)
    {r : SendResult} (hr : parseResponse p = .ok r) : a.requestId = some r.requestId := by
  cases ha : a.outcome with
  | queued requestId =>
    obtain rfl := (isComplete_queued ha hp).1 hcomplete
    rw [parseResponse_queued ha] at hr
    cases hr
    rw [Answer.requestId, ha]
  | failed requestId msg =>
    have hbytes : a.bytes = Server.createResponse a.date requestId.toNat (workerResult (.error msg))
        a.connectionClose := by
      rw [bytes, ha]
      rfl
    rw [hbytes] at hp
    obtain rfl := (isComplete_createResponse a.date a.cr_not_mem requestId _ a.connectionClose hp).1 hcomplete
    rw [workerResult, parseResponse_error a.date a.cr_not_mem] at hr
    cases hr
  | refused http e =>
    have hbytes : a.bytes = Server.errorResponse http a.date e a.connectionClose := by rw [bytes, ha]
    rw [hbytes] at hp
    rw [parseResponse_errorResponse hp] at hr
    cases hr

end Answer

/-! ## Calls on one connection -/

/-- A client, its calls so far, and the server behind the connection. -/
structure Session where
  client : LandClient
  pc : CallPc
  /-- what the finished calls returned, in their order -/
  results : List (Except Error SendResult)
  /-- the number of requests sent, and the answers to the first of them -/
  sent : ℕ
  answers : List Answer
  /-- the bytes of the answers that were not read -/
  incoming : Bytes

/-- What happens next. -/
inductive Action where
  /-- the next call sends its request -/
  | call (tx : Slice) (opts : SendOptions) (steps : SendSteps)
  /-- the server answers the first request without an answer -/
  | answer (a : Answer)
  /-- `wait_readable` -/
  | wait (polls : List Poll)
  /-- `recv` -/
  | recv (steps : RecvSteps)

namespace Session

/-- The call under way returns. -/
def finish (s : Session) (r : Except Error SendResult) : Session :=
  { s with results := s.results ++ [r], pc := .idle }

/-- The bytes that a `read` may give. -/
def readable (s : Session) : Io Bytes → Bool
  | .ok data => data.isPrefixOf s.incoming && data.length ≤ 4096
  | _ => true

/-- `wait_readable` returns. -/
def wake (s : Session) (blocked : Bool) (r : Except Error Unit) : Session :=
  match r with
  | .error e => s.finish (.error e)
  | .ok () => { s with pc := if blocked then s.client.top else .reading }

/-- `recv` returns. -/
def received (s : Session) (r : Bytes × Except Error ℕ) : Session :=
  let s := { s with client := { s.client with recvBuf := r.1 } }
  match r.2 with
  | .ok n =>
      let s := { s with incoming := s.incoming.drop n }
      if isComplete s.client.recvBuf then s.finish (parseResponse s.client.recvBuf)
      else { s with pc := s.client.top }
  | .error .wouldBlock => { s with pc := .waiting true }
  | .error e => s.finish (.error e)

/-- One step. -/
def next (s : Session) : Action → Option Session
  | .call tx opts steps =>
      let client := s.client.prepare tx opts
      match s.pc, client.conn.send client.sendBuf steps with
      | .idle, some (.ok ()) =>
          let client := { client with recvBuf := [] }
          some { s with client := client, pc := client.top, sent := s.sent + 1 }
      | _, _ => none
  | .answer a =>
      if s.answers.length < s.sent then
        some { s with answers := s.answers ++ [a], incoming := s.incoming ++ a.bytes }
      else none
  | .wait polls =>
      match s.pc, waitReadable polls with
      | .waiting blocked, some r => some (s.wake blocked r)
      | _, _ => none
  | .recv steps =>
      if s.pc = .reading ∧ s.readable steps.read = true then
        some (s.received (s.client.conn.recv s.client.recvBuf steps))
      else none

/-- A client that has connected. -/
def initial (host : String) (useTls : Bool) : Session := ⟨.new host useTls, .idle, [], 0, [], []⟩

/-- The sessions of a client. -/
def system (host : String) (useTls : Bool) : System Session Action where
  init := fun s => s = initial host useTls
  step := next

theorem step_system (host : String) (useTls : Bool) (s : Session) (a : Action) :
    (system host useTls).step s a = s.next a := rfl

/-- Every call that succeeded returned the id that the server assigned to its request. -/
def Paired (s : Session) : Prop :=
  ∀ (i : ℕ) (r : SendResult), s.results[i]? = some (.ok r) →
    ∃ a, s.answers[i]? = some a ∧ a.requestId = some r.requestId

/-- A call starts when no reply to an earlier call is under way or unread. -/
def Settled (s : Session) : Action → Prop
  | .call _ _ _ => s.answers.length = s.sent ∧ s.incoming = []
  | _ => True

/-! ## Every session whose calls start settled -/

/-- What the call under way has of its reply. -/
structure Attached (s : Session) : Prop where
  sent : s.sent = s.results.length + 1
  reply : (s.answers.length = s.results.length ∧ s.client.recvBuf = [] ∧ s.incoming = []) ∨
    ∃ a, s.answers.length = s.sent ∧ s.answers[s.results.length]? = some a ∧
      s.client.recvBuf ++ s.incoming = a.bytes

structure Inv (s : Session) : Prop where
  paired : s.Paired
  answers_le : s.answers.length ≤ s.sent
  idle : s.pc = .idle → s.sent = s.results.length
  busy : s.pc ≠ .idle → s.Attached

variable {s s' : Session}

/-- A call that returns. -/
theorem Inv.finish (h : s.Inv) (hbusy : s.pc ≠ .idle) (client : LandClient) (incoming : Bytes)
    {r : Except Error SendResult}
    (hr : ∀ x, r = .ok x → ∃ a, s.answers[s.results.length]? = some a ∧ a.requestId = some x.requestId) :
    (Session.finish { s with client := client, incoming := incoming } r).Inv := by
  refine ⟨fun i x hx => ?_, h.answers_le, fun _ => ?_, fun hne => absurd rfl hne⟩
  · have hx : (s.results ++ [r])[i]? = some (.ok x) := hx
    rcases Nat.lt_trichotomy i s.results.length with hlt | rfl | hgt
    · rw [List.getElem?_append_left hlt] at hx
      exact h.paired i x hx
    · rw [List.getElem?_concat_length] at hx
      exact hr x (Option.some.inj hx)
    · rw [List.getElem?_eq_none (by simp; omega)] at hx
      cases hx
  · rw [Session.finish, List.length_append]
    exact (h.busy hbusy).sent

/-- A call goes on. -/
theorem Inv.move (h : s.Inv) (hbusy : s.pc ≠ .idle) {pc : CallPc} (hpc : pc ≠ .idle) :
    Inv { s with pc := pc } :=
  ⟨h.paired, h.answers_le, fun hidle => absurd hidle hpc, fun _ => ⟨(h.busy hbusy).sent, (h.busy hbusy).reply⟩⟩

theorem top_ne_idle (c : LandClient) : c.top ≠ .idle := by
  unfold LandClient.top
  split_ifs
  · exact nofun
  · exact nofun

theorem Inv.call (h : s.Inv) {tx : Slice} {opts : SendOptions} {steps : SendSteps}
    (hsettled : s.Settled (.call tx opts steps)) (hs : s.next (.call tx opts steps) = some s') : s'.Inv := by
  simp only [next] at hs
  split at hs
  · next hpc _ =>
    cases hs
    have hsent := h.idle hpc
    have htop := top_ne_idle { s.client.prepare tx opts with recvBuf := [] }
    refine ⟨h.paired, h.answers_le.trans (Nat.le_succ _), fun hidle => absurd hidle htop, fun _ => ?_⟩
    exact ⟨congrArg (· + 1) hsent, .inl ⟨hsettled.1.trans hsent, rfl, hsettled.2⟩⟩
  · cases hs

theorem Inv.answer (h : s.Inv) {a : Answer} (hs : s.next (.answer a) = some s') : s'.Inv := by
  simp only [next] at hs
  split_ifs at hs with hlt
  cases hs
  refine ⟨fun i r hr => ?_, ?_, h.idle, fun hbusy => ?_⟩
  · obtain ⟨b, hb, hid⟩ := h.paired i r hr
    exact ⟨b, List.getElem?_append_left (List.getElem?_eq_some_iff.1 hb).1 ▸ hb, hid⟩
  · rw [List.length_append]
    exact hlt
  · obtain ⟨hsent, ⟨hcount, hbuf, hincoming⟩ | ⟨_, hall, -, -⟩⟩ := h.busy hbusy
    · refine ⟨hsent, .inr ⟨a, ?_, ?_, ?_⟩⟩
      · rw [List.length_append, hcount]
        exact hsent.symm
      · show (s.answers ++ [a])[s.results.length]? = some a
        rw [← hcount, List.getElem?_concat_length]
      · show s.client.recvBuf ++ (s.incoming ++ a.bytes) = a.bytes
        rw [hbuf, hincoming]
        rfl
    · exact absurd hlt (hall ▸ lt_irrefl _)

theorem Inv.wait (h : s.Inv) {polls : List Poll} (hs : s.next (.wait polls) = some s') : s'.Inv := by
  simp only [next] at hs
  split at hs
  · next blocked r hpc _ =>
    cases hs
    have hbusy : s.pc ≠ .idle := by
      rw [hpc]
      exact nofun
    unfold wake
    split
    · exact h.finish hbusy s.client s.incoming nofun
    · refine h.move hbusy ?_
      split_ifs
      · exact top_ne_idle _
      · exact nofun
  · cases hs

/-- What a successful `recv` leaves: the reply is read from the front. -/
theorem Attached.recv (h : s.Attached) {data : Bytes} (hdata : data <+: s.incoming) :
    Attached { s with
      client := { s.client with recvBuf := s.client.recvBuf ++ data }
      incoming := s.incoming.drop data.length } := by
  obtain ⟨more, hmore⟩ := hdata
  refine ⟨h.sent, ?_⟩
  rcases h.reply with ⟨hcount, hbuf, hincoming⟩ | ⟨a, hall, ha, hbytes⟩
  · rw [hincoming] at hmore
    obtain ⟨rfl, rfl⟩ := List.append_eq_nil_iff.1 hmore
    exact .inl ⟨hcount, (List.append_nil _).trans hbuf, hincoming⟩
  · refine .inr ⟨a, hall, ha, ?_⟩
    rw [← hbytes, ← hmore, List.drop_left, List.append_assoc]

theorem Inv.recv (h : s.Inv) {steps : RecvSteps} (hs : s.next (.recv steps) = some s') : s'.Inv := by
  simp only [next] at hs
  split_ifs at hs with hguard
  cases hs
  obtain ⟨hpc, hreadable⟩ := hguard
  have hbusy : s.pc ≠ .idle := by
    rw [hpc]
    exact nofun
  have hattached := h.busy hbusy
  generalize hrecv : s.client.conn.recv s.client.recvBuf steps = r
  obtain ⟨buf, result⟩ := r
  cases result with
  | error e =>
    by_cases he : e = .wouldBlock
    · subst he
      obtain rfl := Connection.recv_wouldBlock hrecv
      exact h.move hbusy nofun
    · simp only [received]
      exact h.finish hbusy { s.client with recvBuf := buf } s.incoming nofun
  | ok n =>
    obtain ⟨data, hread, rfl, rfl⟩ := Connection.recv_ok hrecv
    have hdata : data <+: s.incoming := by
      simp only [readable, hread, Bool.and_eq_true] at hreadable
      exact List.isPrefixOf_iff_prefix.1 hreadable.1
    have hattached' := hattached.recv hdata
    simp only [received]
    split_ifs with hcomplete
    · refine h.finish hbusy { s.client with recvBuf := s.client.recvBuf ++ data }
        (s.incoming.drop data.length) fun x hx => ?_
      rcases hattached'.reply with ⟨-, hempty, -⟩ | ⟨a, -, ha, hbytes⟩
      · -- nothing is read, so nothing is complete
        have hempty : s.client.recvBuf ++ data = [] := hempty
        rw [hempty] at hcomplete
        cases hcomplete
      · exact ⟨a, ha, Answer.requestId_of_parse ⟨_, hbytes⟩ hcomplete hx⟩
    · exact ⟨h.paired, h.answers_le, fun hidle => (top_ne_idle _ hidle).elim,
        fun _ => ⟨hattached'.sent, hattached'.reply⟩⟩

theorem Inv.next (h : s.Inv) {a : Action} (hsettled : s.Settled a) (hs : s.next a = some s') : s'.Inv := by
  cases a with
  | call tx opts steps => exact h.call hsettled hs
  | answer a => exact h.answer hs
  | wait polls => exact h.wait hs
  | recv steps => exact h.recv hs

theorem inv_initial (host : String) (useTls : Bool) : (initial host useTls).Inv :=
  ⟨nofun, le_rfl, fun _ => rfl, fun h => absurd rfl h⟩

/-- In every session whose calls start only when all replies to the earlier calls were read, every call
that succeeds returns the id of its own request. -/
theorem paired_of_settled (host : String) (useTls : Bool) {s : Session}
    (hs : (system host useTls).ReachableVia Settled s) : s.Paired := by
  have hinv : s.Inv := by
    refine hs.invariant (fun s h => ?_) fun s a s' hsettled h hstep => h.next hsettled hstep
    rw [show s = initial host useTls from h]
    exact inv_initial host useTls
  exact hinv.paired

/-! ## A late reply -/

/-- A socket that takes the whole request. -/
theorem sendPlain_all (data : Bytes) : sendPlain data [⟨.ok data.length, []⟩] = some (.ok ()) := by
  cases data with
  | nil => rfl
  | cons b data =>
    simp only [sendPlain, List.length_cons, le_refl, if_true, List.drop_length]

/-- The result of `poll` when there is something to read, and when the time is over. -/
def readyPolls : List Poll := [.ok [⟨connectionToken, true, false⟩]]

def timeoutPolls : List Poll := [.ok []]

/-- The call of a transaction of one byte. -/
def oneByteCall (s : Session) : Action :=
  let client := s.client.prepare ⟨[1], by decide⟩ {}
  .call ⟨[1], by decide⟩ {} ⟨.ok (), [⟨.ok client.sendBuf.length, []⟩]⟩

/-- The session in which this call waits for its reply. -/
def called (s : Session) : Session :=
  { s with
    client := { s.client.prepare ⟨[1], by decide⟩ {} with recvBuf := [] }
    pc := .waiting false
    sent := s.sent + 1 }

theorem next_oneByteCall (hidle : s.pc = .idle) (hconn : s.client.conn = ⟨true, false⟩) :
    s.next (oneByteCall s) = some (called s) := by
  have hsend : (s.client.prepare ⟨[1], by decide⟩ {}).conn.send
      (s.client.prepare ⟨[1], by decide⟩ {}).sendBuf
      ⟨.ok (), [⟨.ok (s.client.prepare ⟨[1], by decide⟩ {}).sendBuf.length, []⟩]⟩ = some (.ok ()) := by
    rw [Connection.send, show (s.client.prepare ⟨[1], by decide⟩ {}).conn = ⟨true, false⟩ from hconn]
    exact sendPlain_all _
  simp only [oneByteCall, next, hidle, hsend]
  rfl

/-- A request queued under the given id, on the first day of the cache. -/
def queuedAnswer (requestId : UInt64) : Answer :=
  ⟨.queued requestId, Framing.literal "Thu, 01 Jan 1970 00:00:00 GMT", false, by decide⟩

/-- The session after its call read all that was under way. -/
def readAll (s : Session) (r : Except Error SendResult) : Session :=
  { s with
    client := { s.client with recvBuf := s.incoming }
    incoming := []
    results := s.results ++ [r]
    pc := .idle }

/-- A call that waits, while one whole reply is under way, returns the id of that reply. -/
theorem next_readAll (hpc : s.pc = .waiting false) (hconn : s.client.conn = ⟨true, false⟩)
    (hbuf : s.client.recvBuf = []) {requestId : UInt64} (hin : s.incoming = (queuedAnswer requestId).bytes)
    (hlen : (queuedAnswer requestId).bytes.length ≤ 4096) :
    s.next (.wait readyPolls) = some { s with pc := .reading } ∧
    next { s with pc := .reading } (.recv ⟨.wouldBlock, .ok (), .ok s.incoming⟩) =
      some (s.readAll (.ok ⟨requestId.toNat⟩)) := by
  have hcomplete : isComplete s.incoming = true := by
    rw [hin]
    exact (Answer.isComplete_queued rfl List.prefix_rfl).2 rfl
  have hparse : parseResponse s.incoming = .ok ⟨requestId.toNat⟩ := by
    rw [hin]
    exact Answer.parseResponse_queued rfl
  have hreadable : readable { s with pc := .reading } (.ok s.incoming) = true := by
    rw [← hin] at hlen
    exact Bool.and_eq_true_iff.2 ⟨List.isPrefixOf_iff_prefix.2 List.prefix_rfl, decide_eq_true hlen⟩
  have hrecv : s.client.conn.recv s.client.recvBuf ⟨.wouldBlock, .ok (), .ok s.incoming⟩ =
      (s.incoming, .ok s.incoming.length) := by
    rw [hconn, hbuf]
    obtain ⟨b, data, hdata⟩ : ∃ b data, s.incoming = b :: data := by
      refine List.exists_cons_of_ne_nil fun hnil => ?_
      rw [hnil] at hcomplete
      cases hcomplete
    rw [hdata]
    rfl
  constructor
  · simp only [next, hpc]
    rfl
  · rw [next, if_pos ⟨rfl, hreadable⟩, hrecv, received]
    simp only [hcomplete, if_true, hparse, List.drop_length]
    rfl

/-- Two calls, each of which reads its reply. -/
theorem paired_of_settled_two : ∃ s, (system "localhost" false).ReachableVia Settled s ∧
    s.results = [.ok ⟨1⟩, .ok ⟨2⟩] ∧ s.Paired := by
  have hstep {s : Session} (hs : (system "localhost" false).ReachableVia Settled s) (hidle : s.pc = .idle)
      (hconn : s.client.conn = ⟨true, false⟩) (hsettled : s.answers.length = s.sent ∧ s.incoming = [])
      (requestId : UInt64) (hlen : (queuedAnswer requestId).bytes.length ≤ 4096) :
      ∃ s', (system "localhost" false).ReachableVia Settled s' ∧ s'.pc = .idle ∧
        s'.client.conn = ⟨true, false⟩ ∧ (s'.answers.length = s'.sent ∧ s'.incoming = []) ∧
        s'.results = s.results ++ [.ok ⟨requestId.toNat⟩] := by
    have h₁ : (system "localhost" false).ReachableVia Settled (called s) :=
      .step (oneByteCall s) hs hsettled (next_oneByteCall hidle hconn)
    let s₂ : Session := { called s with
      answers := s.answers ++ [queuedAnswer requestId], incoming := (queuedAnswer requestId).bytes }
    have h₂ : (system "localhost" false).ReachableVia Settled s₂ := by
      refine .step (.answer (queuedAnswer requestId)) h₁ trivial ?_
      have hlt : s.answers.length < s.sent + 1 := hsettled.1 ▸ Nat.lt_succ_self _
      have hin : s.incoming ++ (queuedAnswer requestId).bytes = (queuedAnswer requestId).bytes := by
        rw [hsettled.2]
        rfl
      refine (if_pos hlt).trans ?_
      rw [show (called s).incoming = s.incoming from rfl, hin]
      rfl
    obtain ⟨hwait, hrecv⟩ := next_readAll (s := s₂) rfl hconn rfl rfl hlen
    have h₃ : (system "localhost" false).ReachableVia Settled { s₂ with pc := .reading } :=
      .step (.wait readyPolls) h₂ trivial hwait
    have h₄ : (system "localhost" false).ReachableVia Settled (s₂.readAll (.ok ⟨requestId.toNat⟩)) :=
      .step (.recv ⟨.wouldBlock, .ok (), .ok s₂.incoming⟩) h₃ trivial ((step_system _ _ _ _).trans hrecv)
    refine ⟨_, h₄, rfl, hconn, ⟨?_, rfl⟩, rfl⟩
    show (s.answers ++ [queuedAnswer requestId]).length = s.sent + 1
    rw [List.length_append, hsettled.1]
    rfl
  obtain ⟨s, hs, hidle, hconn, hsettled, hresults⟩ :=
    hstep (s := initial "localhost" false) (.init rfl) rfl rfl ⟨rfl, rfl⟩ 1 (by decide +kernel)
  obtain ⟨s', hs', -, -, -, hresults'⟩ := hstep hs hidle hconn hsettled 2 (by decide +kernel)
  exact ⟨s', hs', hresults'.trans (congrArg (· ++ _) hresults), paired_of_settled "localhost" false hs'⟩

/-- The first call times out and its reply comes late: the second call returns the id 1 of the first
request, and its own request has the id 2. -/
theorem late_reply_taken : ∃ s, (system "localhost" false).Reachable s ∧
    s.results = [.error (.recv "read timeout"), .ok ⟨1⟩] ∧
    s.answers.map Answer.requestId = [some 1, some 2] ∧ ¬ s.Paired := by
  let s₀ := initial "localhost" false
  let s₁ := finish (called s₀) (.error (.recv "read timeout"))
  have h₀ : (system "localhost" false).Reachable s₀ := .init rfl
  have h₁ : (system "localhost" false).Reachable s₁ :=
    (h₀.step (oneByteCall s₀) (next_oneByteCall rfl rfl)).step (.wait timeoutPolls) rfl
  let s₂ : Session := { called s₁ with answers := [queuedAnswer 1], incoming := (queuedAnswer 1).bytes }
  have h₂ : (system "localhost" false).Reachable s₂ :=
    (h₁.step (oneByteCall s₁) (next_oneByteCall rfl rfl)).step (.answer (queuedAnswer 1)) rfl
  obtain ⟨hwait, hrecv⟩ := next_readAll (s := s₂) rfl rfl rfl rfl (by decide +kernel)
  let s₃ : Session := { s₂.readAll (.ok ⟨1⟩) with
    answers := [queuedAnswer 1, queuedAnswer 2], incoming := (queuedAnswer 2).bytes }
  have h₃ : (system "localhost" false).Reachable s₃ :=
    ((h₂.step (.wait readyPolls) hwait).step (.recv ⟨.wouldBlock, .ok (), .ok s₂.incoming⟩) hrecv).step
      (.answer (queuedAnswer 2)) rfl
  refine ⟨s₃, h₃, rfl, rfl, fun hpaired => ?_⟩
  obtain ⟨a, ha, hid⟩ := hpaired 1 ⟨1⟩ rfl
  obtain rfl : queuedAnswer 2 = a := Option.some.inj ha
  cases hid

end Session

end Land.Client
