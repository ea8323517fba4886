import Land.Http.Framing
import Land.Server.Invariant

/-!
# The receive buffer

`is_request_complete` looks for the end of the headers only in the bytes that it has not seen, and
remembers the end once it is found.  Its verdict is that of a search over the whole buffer
(`isRequestComplete_spec`), however the bytes arrived.
-/

namespace Land.Server

/-- Whether a buffer holds a complete request, by a search over all of it. -/
def requestComplete (http : Http) (buf : Bytes) : Bool :=
  match Framing.findHeadersEnd buf with
  | some i => http.isBodyComplete buf i
  | none => false

namespace Connection

/-- What is remembered about the buffer is right. -/
structure Scanned (c : Connection) : Prop where
  pos_le : c.lastScannedPos ≤ c.recvBuf.length
  cached : ∀ i, c.headersEndCache = some i → Framing.findHeadersEnd c.recvBuf = some i
  scanned : c.headersEndCache = none → ∀ i < c.lastScannedPos - 3, ¬ headersEnd <+: c.recvBuf.drop i

variable {http : Http} {c : Connection}

theorem scanned_clearRecvBuf (c : Connection) : c.clearRecvBuf.Scanned := ⟨le_rfl, nofun, nofun⟩

/-- More bytes arrive. -/
theorem Scanned.append (h : c.Scanned) (more : Bytes) :
    ({ c with recvBuf := c.recvBuf ++ more } : Connection).Scanned where
  pos_le := h.pos_le.trans (by rw [List.length_append]; exact Nat.le_add_right _ _)
  cached i hi := Framing.findHeadersEnd_append (h.cached i hi) more
  scanned hnone i hi := by
    have hlt : i < c.lastScannedPos - 3 := hi
    have hlen : i + headersEnd.length ≤ c.recvBuf.length := by
      have hpos := h.pos_le
      simp only [headersEnd, List.length_cons, List.length_nil]
      omega
    rw [Scan.prefix_drop_append hlen]
    exact h.scanned hnone i hi

/-- The search from the last position on is a search over the whole buffer. -/
theorem Scanned.find?_eq (h : c.Scanned) (hnone : c.headersEndCache = none) :
    (List.range' (c.lastScannedPos - 3) (c.recvBuf.length - 3 - (c.lastScannedPos - 3))).find?
      (fun i => (c.recvBuf.drop i).take 4 == headersEnd) = Framing.findHeadersEnd c.recvBuf :=
  Scan.find?_eq_find (List.cons_ne_nil _ _) (h.scanned hnone)

/-- The verdict is that of a search over the whole buffer, which is left as it is. -/
theorem isRequestComplete_spec (http : Http) (h : c.Scanned) :
    (c.isRequestComplete http).2 = requestComplete http c.recvBuf ∧
      (c.isRequestComplete http).1.recvBuf = c.recvBuf ∧ (c.isRequestComplete http).1.Scanned := by
  unfold isRequestComplete requestComplete
  cases hcache : c.headersEndCache with
  | some i =>
    dsimp only
    rw [h.cached i hcache]
    exact ⟨rfl, rfl, h⟩
  | none =>
    dsimp only
    split_ifs with hshort
    · rw [show Framing.findHeadersEnd c.recvBuf = none from Scan.find_eq_none_of_length_lt hshort]
      exact ⟨rfl, rfl, h⟩
    · rw [h.find?_eq hcache]
      cases hend : Framing.findHeadersEnd c.recvBuf with
      | some i =>
        refine ⟨rfl, rfl, le_rfl, ?_, nofun⟩
        rintro _ ⟨⟩
        exact hend
      | none =>
        refine ⟨rfl, rfl, le_rfl, nofun, fun _ i _ => ?_⟩
        exact (Scan.find_eq_none_iff (List.cons_ne_nil _ _)).1 hend i

/-! ## Reading -/

/-- Reads that end with an empty socket, and are not too much, are appended. -/
theorem tryRead_eq (c : Connection) (chunks : List Bytes)
    (hlen : (c.recvBuf ++ chunks.flatten).length ≤ maxRequestSize) :
    c.tryRead chunks .wouldBlock = ({ c with recvBuf := c.recvBuf ++ chunks.flatten }, some true) := by
  induction chunks generalizing c with
  | nil =>
    rw [List.flatten_nil, List.append_nil]
    rfl
  | cons chunk chunks ih =>
    have hnext := ih { c with recvBuf := c.recvBuf ++ chunk } (by
      rw [List.flatten_cons, ← List.append_assoc] at hlen
      exact hlen)
    have hsize : ¬ (c.recvBuf ++ chunk).length > maxRequestSize := by
      simp only [List.flatten_cons, List.length_append] at hlen ⊢
      omega
    rw [tryRead, if_neg hsize, hnext, List.flatten_cons, List.append_assoc]

/-- After reads that let the connection live, all of them are appended. -/
theorem of_tryRead {c c' : Connection} {chunks : List Bytes} {last : ReadEnd}
    (h : c.tryRead chunks last = (c', some true)) :
    c' = { c with recvBuf := c.recvBuf ++ chunks.flatten } := by
  induction chunks generalizing c with
  | nil =>
    rw [List.flatten_nil, List.append_nil]
    cases last with
    | wouldBlock =>
      cases h
      rfl
    | closed => cases h
    | error => cases h
  | cons chunk chunks ih =>
    simp only [tryRead] at h
    split_ifs at h with hsize
    · cases h
    · rw [ih h, List.flatten_cons, List.append_assoc]

end Connection

/-- What `handle_request` makes of a buffer, up to the request id. -/
def ReadOutcome.ofRequest (http : Http) (buf : Bytes) : ReadOutcome :=
  match http.parseRequest buf with
  | .ok r => .request r.1 r.2
  | .error e => .refuse e

namespace Connection

/-- The readable part of an event at a connection that waits for a request: either the connection is
removed, or the new bytes are appended and a complete buffer is handled as a whole. -/
theorem readEvent_cases (http : Http) {c : Connection} (h : c.Scanned) (hst : c.state = .reading)
    (hpend : c.pendingRequestId = none) {ev : Event} (hread : ev.readable = true) :
    (c.readEvent http ev).2 = .remove ∨
    ∃ c₁ : Connection, c₁.recvBuf = c.recvBuf ++ ev.reads.flatten ∧ c₁.Scanned ∧
      c.readEvent http ev = (c₁,
        if requestComplete http (c.recvBuf ++ ev.reads.flatten) then
          ReadOutcome.ofRequest http (c.recvBuf ++ ev.reads.flatten)
        else .proceed) := by
  rw [readEvent, if_pos ⟨hread, hst⟩]
  split
  · exact .inl rfl
  · exact .inl rfl
  next c' heq =>
  obtain rfl := of_tryRead heq
  obtain ⟨hverdict, hbuf, hscanned⟩ := isRequestComplete_spec http (h.append ev.reads.flatten)
  refine .inr ⟨_, hbuf, hscanned, ?_⟩
  have hpend' : (({ c with recvBuf := c.recvBuf ++ ev.reads.flatten } : Connection).isRequestComplete
      http).1.pendingRequestId = none :=
    (congrArg (fun k => k.2.2.2.1) (core_isRequestComplete http
      { c with recvBuf := c.recvBuf ++ ev.reads.flatten })).trans hpend
  simp only [hverdict, hpend', and_true, hbuf, ReadOutcome.ofRequest]
  split_ifs
  · cases http.parseRequest (c.recvBuf ++ ev.reads.flatten) <;> rfl
  · rfl

/-- It is not removed when the socket runs empty and the request is not too large. -/
theorem readEvent_eq (http : Http) {c : Connection} (h : c.Scanned) (hst : c.state = .reading)
    (hpend : c.pendingRequestId = none) {ev : Event} (hread : ev.readable = true)
    (hend : ev.readEnd = .wouldBlock)
    (hlen : (c.recvBuf ++ ev.reads.flatten).length ≤ maxRequestSize) :
    ∃ c₁ : Connection, c₁.recvBuf = c.recvBuf ++ ev.reads.flatten ∧ c₁.Scanned ∧
      c.readEvent http ev = (c₁,
        if requestComplete http (c.recvBuf ++ ev.reads.flatten) then
          ReadOutcome.ofRequest http (c.recvBuf ++ ev.reads.flatten)
        else .proceed) := by
  refine (readEvent_cases http h hst hpend hread).resolve_left fun hremove => ?_
  rw [readEvent, if_pos ⟨hread, hst⟩, hend, tryRead_eq c ev.reads hlen] at hremove
  dsimp only at hremove
  split_ifs at hremove
  split at hremove
  · cases hremove
  · cases hremove

end Connection

end Land.Server
