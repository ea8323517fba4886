import Land.Lib.Transition
import Land.Server.Receive
import Land.Server.Request

/-!
# Checking for a complete request while it arrives

A connection whose receive buffer gets chunks of bytes, in any number and of any size, with calls of
`is_request_complete` between them and `clear_recv_buf` after a request was handled.  Every call agrees with
`HttpRequest::is_complete`, which searches the whole buffer and remembers nothing.
-/

namespace Land.Server

/-- What happens to the receive buffer. -/
inductive Receiving where
  | chunk (bytes : Bytes)
  | isRequestComplete
  | clearRecvBuf

/-- The connection after it. -/
def Connection.receive (http : Http) (c : Connection) : Receiving → Connection
  | .chunk bytes => { c with recvBuf := c.recvBuf ++ bytes }
  | .isRequestComplete => (c.isRequestComplete http).1
  | .clearRecvBuf => c.clearRecvBuf

/-- A connection that was just made, or whose receive buffer was just cleared, and everything after that. -/
def receiving (http : Http) : System Connection Receiving where
  init c := (∃ stream sendBuf jsonBuf, c = .new stream [] sendBuf jsonBuf) ∨
    ∃ c' : Connection, c = c'.clearRecvBuf
  step c r := some (c.receive http r)

theorem Connection.Scanned.receive {c : Connection} (h : c.Scanned) (http : Http) (r : Receiving) :
    (c.receive http r).Scanned := by
  cases r with
  | chunk bytes => exact h.append bytes
  | isRequestComplete => exact (isRequestComplete_spec http h).2.2
  | clearRecvBuf => exact scanned_clearRecvBuf c

theorem scanned_of_reachable {http : Http} {c : Connection} (hc : (receiving http).Reachable c) :
    c.Scanned := by
  refine System.Reachable.invariant ?_ ?_ hc
  · rintro c (⟨stream, sendBuf, jsonBuf, rfl⟩ | ⟨c, rfl⟩)
    · exact Connection.scanned_clearRecvBuf (.new stream [] sendBuf jsonBuf)
    · exact Connection.scanned_clearRecvBuf c
  · rintro c r c' h hstep
    cases hstep
    exact h.receive http r

/-- Whatever has arrived and whenever it was checked, a call returns what a search over the whole buffer
returns, and a remembered end of the headers is the first one in the buffer. -/
theorem isRequestComplete_eq_isComplete (serde : Serde) (errorJson : ServerError → Bytes) {c : Connection}
    (hc : (receiving (http serde errorJson)).Reachable c) :
    (c.isRequestComplete (http serde errorJson)).2 = HttpRequest.isComplete c.recvBuf ∧
      ∀ i, c.headersEndCache = some i → [13, 10, 13, 10] <+: c.recvBuf.drop i ∧
        ∀ j < i, ¬ [13, 10, 13, 10] <+: c.recvBuf.drop j := by
  have h := scanned_of_reachable hc
  refine ⟨(Connection.isRequestComplete_spec _ h).1, fun i hi => ?_⟩
  exact (Scan.find_eq_some_iff (List.cons_ne_nil _ _)).1 (h.cached i hi)

/-- The end of the headers is cut after its third byte, and the buffer is checked there. -/
theorem isRequestComplete_eq_isComplete_cut :
    let parsers := http ⟨fun _ => "", fun _ => ""⟩ fun _ => []
    let started := (Connection.new ⟨[], []⟩ [] [] []).receive parsers (.chunk [71, 13, 10, 13])
    let checked := started.receive parsers .isRequestComplete
    let c := checked.receive parsers (.chunk [10])
    c.lastScannedPos = 4 ∧ c.recvBuf = [71, 13, 10, 13, 10] ∧ (c.isRequestComplete parsers).2 = true := by
  have hstarted := System.Reachable.step (S := receiving (http ⟨fun _ => "", fun _ => ""⟩ fun _ => []))
    (.init (.inl ⟨⟨[], []⟩, [], [], rfl⟩)) (.chunk [71, 13, 10, 13]) rfl
  have hc := (hstarted.step .isRequestComplete rfl).step (.chunk [10]) rfl
  exact ⟨rfl, rfl, (isRequestComplete_eq_isComplete _ _ hc).1.trans rfl⟩

end Land.Server
