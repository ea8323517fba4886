import Land.Quic.Drain

/-!
# Transactions reported as sent

`send` and `send_nonblocking` tell the caller that a transaction was sent, and `drive_slot` counts the
queued transactions it sent.  All of them rely on `send_uni`, which hands the data to `stream_send` with
the FIN flag and takes every `Ok` for success, whatever the number of bytes accepted.

A report is a transaction for which one of the three says that it was sent, with all calls of
`stream_send` that were made for it.
-/

namespace Land.Quic

/-- A call of `stream_send`, and what `quiche` answered. -/
structure StreamCall where
  streamId : ℕ
  data : Bytes
  fin : Bool
  answer : StreamSend
  deriving DecidableEq

/-- The call that `send_uni` makes. -/
def QuicConnection.streamCall (c : QuicConnection) (data : Bytes) (a : SendUni) : Option StreamCall :=
  if a.isClosed = true then none
  else if a.isEstablished = false ∧ a.isInEarlyData = false then none
  else some ⟨c.localStreamUniNext, data, true, a.streamSend⟩

/-- A transaction reported as sent. -/
structure Report where
  data : Bytes
  calls : List StreamCall
  deriving DecidableEq

namespace Report

/-- One call accepted all bytes, with the FIN flag. -/
def Full (r : Report) : Prop :=
  ∃ call ∈ r.calls, call.data = r.data ∧ call.fin = true ∧ call.answer = .ok r.data.length

/-- No call accepted more than it was given. -/
def Bounded (r : Report) : Prop :=
  ∀ call ∈ r.calls, ∀ written, call.answer = .ok written → written ≤ call.data.length

/-- A call accepted less than it was given. -/
def Short (r : Report) : Prop :=
  ∃ call ∈ r.calls, ∃ written < call.data.length, call.answer = .ok written

/-- The calls of a transaction: some that were refused, and one that was not. -/
def Closed (r : Report) : Prop :=
  ∃ refused streamId written, r.calls = refused ++ [⟨streamId, r.data, true, .ok written⟩] ∧
    ∀ call ∈ refused, call.answer = .done

theorem Closed.full_iff {r : Report} (h : r.Closed) (hbounded : r.Bounded) : r.Full ↔ ¬ r.Short := by
  obtain ⟨refused, streamId, written, hcalls, hrefused⟩ := h
  have hlast : (⟨streamId, r.data, true, .ok written⟩ : StreamCall) ∈ r.calls := by simp [hcalls]
  -- only the last call can have accepted anything
  have hok {call : StreamCall} {n : ℕ} (hmem : call ∈ r.calls) (hn : call.answer = .ok n) :
      call = ⟨streamId, r.data, true, .ok written⟩ := by
    rw [hcalls, List.mem_append, List.mem_singleton] at hmem
    rcases hmem with hmem | hmem
    · rw [hrefused call hmem] at hn
      cases hn
    · exact hmem
  constructor
  · rintro ⟨call, hmem, -, -, hfull⟩ ⟨call', hmem', n, hlt, hshort⟩
    obtain rfl := hok hmem hfull
    obtain rfl := hok hmem' hshort
    cases hfull
    cases hshort
    exact lt_irrefl _ hlt
  · intro hshort
    have hle : written ≤ r.data.length := hbounded _ hlast written rfl
    have heq : written = r.data.length := by
      by_contra hne
      exact hshort ⟨_, hlast, written, lt_of_le_of_ne hle hne, rfl⟩
    exact ⟨_, hlast, rfl, rfl, congrArg StreamSend.ok heq⟩

end Report

/-! ## The calls made for a transaction -/

namespace QuicConnection

variable {c : QuicConnection} {a : SendUni}

theorem streamCall_of_ok (data : Bytes) (h : a.result = .ok ()) :
    ∃ written, c.streamCall data a = some ⟨c.localStreamUniNext, data, true, .ok written⟩ := by
  unfold SendUni.result at h
  unfold streamCall
  split_ifs at h ⊢
  cases hsend : a.streamSend with
  | ok written => exact ⟨written, rfl⟩
  | done =>
    rw [hsend] at h
    cases h
  | error =>
    rw [hsend] at h
    cases h

theorem streamCall_of_wouldBlock (data : Bytes) (h : a.result = .error .wouldBlock) :
    c.streamCall data a = some ⟨c.localStreamUniNext, data, true, .done⟩ := by
  unfold SendUni.result at h
  unfold streamCall
  split_ifs at h ⊢
  · cases h
  · cases h
  · cases hsend : a.streamSend with
    | ok written =>
      rw [hsend] at h
      cases h
    | done => rfl
    | error =>
      rw [hsend] at h
      cases h

/-- The calls in the attempts to send one transaction. -/
def attemptCalls (data : Bytes) (answers : ℕ → SendUni) : ℕ → ℕ → QuicConnection → List StreamCall
  | 0, _, _ => []
  | left + 1, attempt, c =>
      (c.streamCall data (answers attempt)).toList ++
        match c.sendUni (answers attempt) with
        | (c, .error .wouldBlock) => attemptCalls data answers left (attempt + 1) c
        | _ => []

/-- The transactions that the loop draining the queue counts. -/
def drainReports (answers : ℕ → ℕ → SendUni) : ℕ → ℕ → QuicConnection → List Report
  | 0, _, _ => []
  | left + 1, n, c =>
      match c.txQueue.tryDequeue with
      | none => []
      | some (q, buf, len) =>
          match sendAttempts (answers n) maxRetries 0 { c with txQueue := q } with
          | (c', true) =>
              ⟨buf.take len, attemptCalls (buf.take len) (answers n) maxRetries 0 { c with txQueue := q }⟩ ::
                drainReports answers left (n + 1)
                  { c' with handed := c'.handed ++ [some (buf.take len)] }
          | (_, false) => []

/-- The loop counts these transactions, and notes them as sent. -/
theorem drain_eq_drainReports (answers : ℕ → ℕ → SendUni) (left n : ℕ) (c : QuicConnection) :
    (drain answers left n c).2 = (drainReports answers left n c).length ∧
      ∃ rest, (rest = [] ∨ rest = [none]) ∧ (drain answers left n c).1.handed =
        c.handed ++ (drainReports answers left n c).map (fun r => some r.data) ++ rest := by
  induction left generalizing n c with
  | zero => exact ⟨rfl, [], .inl rfl, by simp [drain, drainReports]⟩
  | succ left ih =>
    cases hq : c.txQueue.tryDequeue with
    | none =>
      simp only [drain, drainReports, hq]
      exact ⟨rfl, [], .inl rfl, by simp⟩
    | some item =>
      obtain ⟨q, buf, len⟩ := item
      have hf := sendAttempts_frame (answers n) maxRetries 0 { c with txQueue := q }
      rcases hsend : sendAttempts (answers n) maxRetries 0 { c with txQueue := q } with ⟨c', sent⟩
      rw [hsend] at hf
      have hsame : c'.handed = c.handed := hf.handed
      cases sent with
      | true =>
        obtain ⟨hcount, rest, hrest, hhanded⟩ :=
          ih (n + 1) { c' with handed := c'.handed ++ [some (buf.take len)] }
        simp only [drain, drainReports, hq, hsend]
        refine ⟨by rw [hcount, List.length_cons], rest, hrest, hhanded.trans ?_⟩
        simp [hsame]
      | false =>
        simp only [drain, drainReports, hq, hsend]
        exact ⟨rfl, [none], .inr rfl, by simp [hsame]⟩

theorem closed_attemptCalls (data : Bytes) (answers : ℕ → SendUni) (left attempt : ℕ)
    (c : QuicConnection) (hsent : (sendAttempts answers left attempt c).2 = true) :
    (Report.mk data (attemptCalls data answers left attempt c)).Closed := by
  induction left generalizing attempt c with
  | zero => cases hsent
  | succ left ih =>
    have hresult := c.sendUni_result (answers attempt)
    simp only [sendAttempts] at hsent
    simp only [attemptCalls]
    split at hsent <;> rename_i c' heq <;> rw [heq] at hresult
    · obtain ⟨written, hcall⟩ := c.streamCall_of_ok data hresult.symm
      exact ⟨[], c.localStreamUniNext, written, by simp [hcall, heq], by simp⟩
    · have hcall := c.streamCall_of_wouldBlock data hresult.symm
      obtain ⟨refused, streamId, written, hcalls, hrefused⟩ := ih (attempt + 1) c' hsent
      have hcalls : attemptCalls data answers left (attempt + 1) c' =
          refused ++ [⟨streamId, data, true, .ok written⟩] := hcalls
      refine ⟨⟨c.localStreamUniNext, data, true, .done⟩ :: refused, streamId, written, ?_, ?_⟩
      · simp [hcall, heq, hcalls]
      · rintro call (_ | ⟨_, hmem⟩)
        · rfl
        · exact hrefused call hmem
    · cases hsent

theorem closed_drainReports (answers : ℕ → ℕ → SendUni) (left n : ℕ) (c : QuicConnection) :
    ∀ r ∈ drainReports answers left n c, r.Closed := by
  induction left generalizing n c with
  | zero => simp [drainReports]
  | succ left ih =>
    simp only [drainReports]
    split
    · simp
    · next q buf len hq =>
      split
      · next c' heq =>
        intro r hr
        rcases List.mem_cons.1 hr with rfl | hr
        · exact closed_attemptCalls _ _ _ _ _ (by rw [heq])
        · exact ih (n + 1) _ r hr
      · simp

end QuicConnection

/-! ## The ways to send -/

/-- An operation that reports transactions as sent. -/
inductive Sending where
  | send (addr : SocketAddr) (data : Bytes) (e : Send)
  | sendNonblocking (addr : SocketAddr) (data : Bytes) (e : SendNonblocking)
  | driveSlot (idx : SlotIdx) (d : Drive)

namespace ConnectionPool

/-- The call that `send` and `send_nonblocking` make on a slot that is there. -/
def slotCall (p : ConnectionPool) (idx : SlotIdx) (data : Bytes) (isInEarlyData : Bool) (a : SendUni) :
    Option StreamCall :=
  match (p.slots idx).state, (p.slots idx).connection with
  | .ready, some conn => conn.streamCall data a
  | .connecting, some conn => if isInEarlyData then conn.streamCall data a else none
  | _, _ => none

/-- The call that `send` makes. -/
def sendCall (p : ConnectionPool) (addr : SocketAddr) (data : Bytes) (e : Send) : Option StreamCall :=
  match p.find addr with
  | some idx => p.slotCall idx data e.isInEarlyData e.sendUni
  | none =>
      match p.connect addr false e.connect with
      | (_, .error _) => none
      | (p, .ok idx) => p.slotCall idx data e.isInEarlyData e.sendUni

/-- The call that `send_nonblocking` makes. -/
def sendNonblockingCall (p : ConnectionPool) (addr : SocketAddr) (data : Bytes) (e : SendNonblocking) :
    Option StreamCall :=
  match p.find addr with
  | some idx => p.slotCall idx data e.isInEarlyData e.sendUni
  | none =>
      match e.hasSession, p.connect addr false e.connect with
      | true, (p, .ok idx) =>
          match e.isInEarlyData, (p.slots idx).connection with
          | true, some conn => conn.streamCall data e.sendUni
          | _, _ => none
      | _, _ => none

/-- The transactions that `drive_slot` counts. -/
def driveReports (p : ConnectionPool) (idx : SlotIdx) (d : Drive) : List Report :=
  match (p.slots idx).connection, d.packets with
  | some conn, .ok _ =>
      if (d.isHandshakeConfirmed = true ∧ ¬ (p.slots idx).state = .ready) ∧ d.peerError = none ∧
          d.isClosed = false then
        QuicConnection.drainReports d.sendUni conn.txQueue.count 0 conn
      else []
  | _, _ => []

/-- The transactions an operation reports as sent. -/
def reports (p : ConnectionPool) : Sending → List Report
  | .send addr data e =>
      if (p.send addr data e).2 = .ok .sent ∨ (p.send addr data e).2 = .ok .sentEarlyData then
        [⟨data, (p.sendCall addr data e).toList⟩]
      else []
  | .sendNonblocking addr data e =>
      if (p.sendNonblocking addr e).2 = .ok () then [⟨data, (p.sendNonblockingCall addr data e).toList⟩]
      else []
  | .driveSlot idx d => p.driveReports idx d

variable {p : ConnectionPool} {idx : SlotIdx} {addr : SocketAddr} {data : Bytes} {status : SendStatus}

/-- Queueing a transaction does not report it. -/
theorem not_sent_of_enqueueDirty (h : (p.enqueueDirty idx data).2 = .ok status) :
    status ≠ .sent ∧ status ≠ .sentEarlyData := by
  cases hconn : (p.slots idx).connection with
  | none =>
    simp only [enqueueDirty, hconn] at h
    cases h
  | some conn =>
    simp only [enqueueDirty, hconn] at h
    cases h
    exact conn.txQueue.tryEnqueue_not_sent data

/-- `send` reports a transaction only after a call that was not refused. -/
theorem slotCall_of_sendOn {e : Send} (h : (p.sendOn idx addr data e).2 = .ok status)
    (hsent : status = .sent ∨ status = .sentEarlyData) :
    ∃ streamId written, p.slotCall idx data e.isInEarlyData e.sendUni =
      some ⟨streamId, data, true, .ok written⟩ := by
  have hqueued (h : status ≠ .sent ∧ status ≠ .sentEarlyData) : False :=
    hsent.elim h.1 h.2
  cases hstate : (p.slots idx).state with
  | ready =>
    cases hconn : (p.slots idx).connection with
    | none =>
      simp only [sendOn, hstate, hconn] at h
      cases h
    | some conn =>
      have hresult := conn.sendUni_result e.sendUni
      simp only [sendOn, hstate, hconn] at h
      simp only [slotCall, hstate, hconn]
      split at h <;> rename_i heq <;> rw [heq] at hresult
      · exact ⟨_, conn.streamCall_of_ok data hresult.symm⟩
      · cases h
        exact (hqueued (TransactionQueue.tryEnqueue_not_sent _ data)).elim
      · cases h
  | connecting =>
    cases hconn : (p.slots idx).connection with
    | none =>
      simp only [sendOn, hstate, hconn] at h
      cases h
    | some conn =>
      have hresult := conn.sendUni_result e.sendUni
      simp only [sendOn, hstate, hconn] at h
      simp only [slotCall, hstate, hconn]
      split at h
      · next hearly heq =>
        rw [heq] at hresult
        rw [if_pos hearly]
        exact ⟨_, conn.streamCall_of_ok data hresult.symm⟩
      · exact (hqueued (not_sent_of_enqueueDirty h)).elim
  | failed =>
    simp only [sendOn, hstate] at h
    split at h
    · cases h
    · exact (hqueued (not_sent_of_enqueueDirty h)).elim
  | dead =>
    simp only [sendOn, hstate] at h
    cases h
    exact hsent.elim (by rintro ⟨⟩) (by rintro ⟨⟩)

theorem sendCall_of_sent {e : Send} (h : (p.send addr data e).2 = .ok status)
    (hsent : status = .sent ∨ status = .sentEarlyData) :
    ∃ streamId written, p.sendCall addr data e = some ⟨streamId, data, true, .ok written⟩ := by
  cases hfind : p.find addr with
  | some idx =>
    simp only [send, hfind] at h
    simp only [sendCall, hfind]
    exact slotCall_of_sendOn h hsent
  | none =>
    rcases hconnect : p.connect addr false e.connect with ⟨p', err | idx⟩
    · simp only [send, hfind, hconnect] at h
      cases h
    · simp only [send, hfind, hconnect] at h
      simp only [sendCall, hfind, hconnect]
      exact slotCall_of_sendOn h hsent

theorem streamCall_of_sendNow {conn : QuicConnection} {e : SendNonblocking}
    (h : (p.sendNow idx conn e).2 = .ok ()) :
    ∃ streamId written, conn.streamCall data e.sendUni = some ⟨streamId, data, true, .ok written⟩ := by
  have hresult := conn.sendUni_result e.sendUni
  simp only [sendNow] at h
  split at h <;> rename_i heq <;> rw [heq] at hresult
  · exact ⟨_, conn.streamCall_of_ok data hresult.symm⟩
  · cases h

theorem slotCall_of_sendNonblockingOn {e : SendNonblocking}
    (h : (p.sendNonblockingOn idx addr e).2 = .ok ()) :
    ∃ streamId written, p.slotCall idx data e.isInEarlyData e.sendUni =
      some ⟨streamId, data, true, .ok written⟩ := by
  simp only [sendNonblockingOn] at h
  split at h <;> rename_i hstate hconn
  · cases h
  · simp only [slotCall, hstate, hconn]
    exact streamCall_of_sendNow h
  · cases h
  · split_ifs at h with hearly
    simp only [slotCall, hstate, hconn, if_pos hearly]
    exact streamCall_of_sendNow h
  · cases h
  · cases h

theorem sendNonblockingCall_of_ok {e : SendNonblocking} (data : Bytes)
    (h : (p.sendNonblocking addr e).2 = .ok ()) :
    ∃ streamId written, p.sendNonblockingCall addr data e =
      some ⟨streamId, data, true, .ok written⟩ := by
  cases hfind : p.find addr with
  | some idx =>
    simp only [sendNonblocking, hfind] at h
    simp only [sendNonblockingCall, hfind]
    exact slotCall_of_sendNonblockingOn h
  | none =>
    rcases hconnect : p.connect addr false e.connect with ⟨p', err | idx⟩ <;>
      cases hsession : e.hasSession <;>
      simp only [sendNonblocking, hfind, hconnect, hsession] at h
    · cases h
    · cases h
    · cases h
    · simp only [sendNonblockingCall, hfind, hconnect, hsession]
      cases hearly : e.isInEarlyData with
      | false =>
        simp only [hearly] at h
        cases h
      | true =>
        cases hconn : (p'.slots idx).connection with
        | none =>
          simp only [hearly, hconn] at h
          cases h
        | some conn =>
          simp only [hearly, hconn] at h ⊢
          exact streamCall_of_sendNow h

/-- Whatever is reported, the last call for it was not refused. -/
theorem closed_reports (p : ConnectionPool) (op : Sending) : ∀ r ∈ p.reports op, r.Closed := by
  cases op with
  | send addr data e =>
    intro r hr
    simp only [reports] at hr
    split_ifs at hr with hsent
    · obtain rfl := List.mem_singleton.1 hr
      obtain ⟨streamId, written, hcall⟩ :
          ∃ streamId written, p.sendCall addr data e = some ⟨streamId, data, true, .ok written⟩ := by
        rcases hsent with hsent | hsent
        · exact sendCall_of_sent hsent (.inl rfl)
        · exact sendCall_of_sent hsent (.inr rfl)
      exact ⟨[], streamId, written, by simp [hcall], by simp⟩
    · cases hr
  | sendNonblocking addr data e =>
    intro r hr
    simp only [reports] at hr
    split_ifs at hr with hok
    · obtain rfl := List.mem_singleton.1 hr
      obtain ⟨streamId, written, hcall⟩ := sendNonblockingCall_of_ok data hok
      exact ⟨[], streamId, written, by simp [hcall], by simp⟩
    · cases hr
  | driveSlot idx d =>
    intro r hr
    simp only [reports, driveReports] at hr
    split at hr
    · split_ifs at hr
      · exact QuicConnection.closed_drainReports _ _ _ _ r hr
      · cases hr
    · cases hr

/-- Every transaction that is reported as sent was accepted to its last byte, in one call with the FIN
flag, exactly if no call for such a transaction accepted less than it was given. -/
theorem full_iff_not_short (p : ConnectionPool) (op : Sending)
    (hbounded : ∀ r ∈ p.reports op, r.Bounded) :
    (∀ r ∈ p.reports op, r.Full) ↔ ∀ r ∈ p.reports op, ¬ r.Short :=
  forall₂_congr fun r hr => (closed_reports p op r hr).full_iff (hbounded r hr)

end ConnectionPool

/-- `quiche` takes the one byte queued during the handshake. -/
theorem full_iff_not_short_flushed :
    (ConnectionPool.new.after (.send samplePeer [7] sampleSend)).reports
        (.driveSlot sampleIdx (sampleDrive true acceptance)) = [⟨[7], [⟨2, [7], true, .ok 1⟩]⟩] ∧
      ∀ r ∈ (ConnectionPool.new.after (.send samplePeer [7] sampleSend)).reports
        (.driveSlot sampleIdx (sampleDrive true acceptance)), r.Full := by
  have hreports : (ConnectionPool.new.after (.send samplePeer [7] sampleSend)).reports
      (.driveSlot sampleIdx (sampleDrive true acceptance)) = [⟨[7], [⟨2, [7], true, .ok 1⟩]⟩] := rfl
  refine ⟨hreports, (ConnectionPool.full_iff_not_short _ _ ?_).2 ?_⟩
  · rw [hreports]
    intro r hr call hcall written hwritten
    obtain rfl := List.mem_singleton.1 hr
    obtain rfl := List.mem_singleton.1 hcall
    cases hwritten
    exact le_rfl
  · rw [hreports]
    rintro r hr ⟨call, hcall, written, hlt, hwritten⟩
    obtain rfl := List.mem_singleton.1 hr
    obtain rfl := List.mem_singleton.1 hcall
    cases hwritten
    exact lt_irrefl _ hlt

/-- Two transactions of two bytes each, of which `quiche` accepts one: the first is queued and flushed,
the second sent at once.  Both are reported as sent, none is accepted in full, and nothing is left in the
queue. -/
theorem short_write_reported :
    let queued := ConnectionPool.new.after (.send samplePeer [7, 8] sampleSend)
    let flushed := queued.after (.poll ⟨[], false, fun _ => sampleDrive true acceptance⟩)
    let accepting : Send := { sampleSend with sendUni := acceptance }
    system.Reachable queued ∧ system.Reachable flushed ∧
    queued.reports (.driveSlot sampleIdx (sampleDrive true acceptance)) =
      [⟨[7, 8], [⟨2, [7, 8], true, .ok 1⟩]⟩] ∧
    (flushed.send samplePeer [8, 9] accepting).2 = .ok .sent ∧
    flushed.reports (.send samplePeer [8, 9] accepting) = [⟨[8, 9], [⟨6, [8, 9], true, .ok 1⟩]⟩] ∧
    ¬ (⟨[8, 9], [⟨6, [8, 9], true, .ok 1⟩]⟩ : Report).Full ∧
    (((flushed.send samplePeer [8, 9] accepting).1.slots sampleIdx).connection.map fun conn =>
      (conn.localStreamUniNext, conn.txQueue.contents)) = some (10, []) := by
  have hqueued : system.Reachable (ConnectionPool.new.after (.send samplePeer [7, 8] sampleSend)) :=
    .step (.init rfl) (.send samplePeer [7, 8] sampleSend) rfl
  refine ⟨hqueued, hqueued.step (.poll ⟨[], false, fun _ => sampleDrive true acceptance⟩) rfl,
    rfl, rfl, rfl, ?_, rfl⟩
  rintro ⟨call, hcall, -, -, hfull⟩
  obtain rfl := List.mem_singleton.1 hcall
  cases hfull

end Land.Quic
