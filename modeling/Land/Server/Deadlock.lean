import Land.Server.Routing

/-!
# The cycle of the two queues

The event loop waits for space in the request queue while it handles events, and takes responses only
afterwards; the worker waits for space in the response queue.  When both queues are full and both
threads wait, nothing moves any more.

Every request under way belongs to a connection of its own, and the connection whose request is in hand
waits for nothing.  So the cycle closes only with `2 * queueSize + 2` open connections, and the server
does not limit their number (`max_connections` is only a capacity hint).
-/

namespace Land.Server

variable {http : Http} {queueSize : ℕ} {s s' : State} {a : Action}

end Land.Server
