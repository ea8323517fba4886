import Land.Client.Request
import Land.Lib.Cut
import Land.Server.KeepAlive

/-!
# How the requests of a stream are cut

A client sends requests one after the other on a keep-alive connection.  The buffer is given to
`handle_request` as a whole and is cleared with the request, so bytes that were read past the end of a
request are lost (`parse_append`: the parser ignores them).  The requests are handed out one by one, and
however the stream is cut, as long as no read goes past the end of a request.
-/

namespace Land.Server

/-! ## Bytes after a request -/

/-- The bytes of a valid POST request, with nothing after its body. -/
structure PostRequest where
  bytes : Bytes
  headersEnd : ℕ
  request : HttpRequest
  end_eq : Framing.findHeadersEnd bytes = some headersEnd
  parse_eq : HttpRequest.parse bytes = .ok request
  post : request.method = "POST"
  keepAlive : request.connectionClose = false
  body_eq : request.body = bytes.drop (headersEnd + 4)

/-- After the step, what is buffered belongs to the next request, and `is_request_complete` finds it
complete just when it is all of it. -/
def Fits (http : Http) (rs : List PostRequest) (k : KeepAlive) (a : KeepAlive.Action) : Prop :=
  ∀ r, rs[k.handed.length]? = some r → k.bufferAfter a <+: r.bytes ∧
    (requestComplete http (k.bufferAfter a) = true ↔ k.bufferAfter a = r.bytes)

variable {http : Http} {rs : List PostRequest} {k k' : KeepAlive} {a : KeepAlive.Action}

end Land.Server
