import Mathlib.Tactic

/-!
# Requests and responses of the RPC server

The messages between the event loop and the worker (`server/src/queue.rs`, `request.rs`), what the
worker answers (`worker.rs`), and the bytes of the HTTP responses (`http.rs`, and `create_response`,
`error_response` of `server.rs`).

What the event loop needs of the HTTP and JSON parsers is the record `Http`: a verdict on the body,
the parsed request, and the JSON text of an error.  The results hold for every such record.
-/

namespace Land.Server

abbrev Bytes := List UInt8

/-- The UTF-8 bytes of a text. -/
def bytes (text : String) : Bytes := text.toUTF8.toList

/-- `ServerError`; an error of another library is kept as its text. -/
inductive ServerError where
  | io (text : String)
  | jsonParse (text : String)
  | invalidRequest (text : String)
  | methodNotFound (text : String)
  | invalidParams (text : String)
  | internal (text : String)
  | queueFull
  | invalidHttp (text : String)
  | base64Decode (text : String)
  | channelSend
  | channelReceive
  deriving DecidableEq

/-- `ParsedRequest`; the JSON value of `id` is kept as its text. -/
structure ParsedRequest where
  id : String
  transaction : Bytes
  fanout : ℕ
  targetSlot : ℕ
  neighborFanout : Option ℕ
  deriving DecidableEq

/-- What the event loop uses of the parsers. -/
structure Http where
  /-- `HttpRequest::is_body_complete` -/
  isBodyComplete : Bytes → ℕ → Bool
  /-- `handle_request` up to the request id: the parsed request and `connection_close` -/
  parseRequest : Bytes → Except ServerError (ParsedRequest × Bool)
  /-- `JsonRpcResponse::from_error(null, e)` as `serde_json` writes it -/
  errorJson : ServerError → Bytes

/-- `QueuedRequest`; its `ResponseSender` has the same request id and token. -/
structure QueuedRequest where
  requestId : ℕ
  token : ℕ
  request : ParsedRequest

/-- `QueuedResponse`. -/
structure QueuedResponse where
  requestId : ℕ
  token : ℕ
  result : Except String String

/-! ## The worker's answer -/

/-- `format!("{:016x}", n)`. -/
def hex16 (n : ℕ) : String :=
  let digits := Nat.toDigits 16 n
  String.ofList (List.replicate (16 - digits.length) '0' ++ digits)

/-- The result that `process_request` sends back. -/
def workerResult (requestId : ℕ) (request : ParsedRequest) : Except String String :=
  if request.transaction.isEmpty then .error "Empty transaction" else .ok (hex16 requestId)

/-- The response that `process_request` sends for a request. -/
def processRequest (queued : QueuedRequest) : QueuedResponse where
  requestId := queued.requestId
  token := queued.token
  result := workerResult queued.requestId queued.request

/-! ## The bytes of a response -/

/-- `HttpResponse`, with its header list spelled out: `with_json_bytes` is the only caller. -/
structure HttpResponse where
  status : ℕ
  statusText : String
  headers : List (String × String)
  body : Bytes
  keepAlive : Bool

namespace HttpResponse

/-- `HttpResponse::ok`. -/
def ok : HttpResponse := ⟨200, "OK", [], [], true⟩

/-- `HttpResponse::bad_request`. -/
def badRequest : HttpResponse := ⟨400, "Bad Request", [], [], true⟩

/-- `with_json_bytes`. -/
def withJsonBytes (r : HttpResponse) (json : Bytes) : HttpResponse :=
  { r with body := json, headers := r.headers ++ [("Content-Type", "application/json")] }

/-- `with_connection_close`. -/
def withConnectionClose (r : HttpResponse) : HttpResponse := { r with keepAlive := false }

/-- `build`, with the cached date. -/
def build (date : Bytes) (r : HttpResponse) : Bytes :=
  bytes "HTTP/1.1 " ++ bytes (toString r.status) ++ bytes " " ++ bytes r.statusText ++ bytes "\r\n" ++
  bytes "Content-Length: " ++ bytes (toString r.body.length) ++ bytes "\r\n" ++
  bytes "Date: " ++ date ++ bytes "\r\n" ++
  r.headers.flatMap (fun h => bytes h.1 ++ bytes ": " ++ bytes h.2 ++ bytes "\r\n") ++
  (if r.keepAlive then bytes "Connection: keep-alive\r\n" else bytes "Connection: close\r\n") ++
  bytes "\r\n" ++ r.body

end HttpResponse

/-- `write_json_response`. -/
def writeJsonResponse (requestId : ℕ) (result : Except String String) : Bytes :=
  bytes "\x7b\"jsonrpc\":\"2.0\",\"id\":" ++ bytes (toString requestId) ++
  match result with
  | .ok requestIdHex =>
      bytes ",\"result\":\x7b\"status\":\"queued\",\"request_id\":\"" ++ bytes requestIdHex ++
      bytes "\"\x7d\x7d"
  | .error errorMsg =>
      bytes ",\"error\":\x7b\"code\":-32603,\"message\":\"" ++ bytes errorMsg ++ bytes "\"\x7d\x7d"

/-- A response with or without `Connection: close`. -/
def buildResponse (date : Bytes) (resp : HttpResponse) (connectionClose : Bool) : Bytes :=
  if connectionClose then resp.withConnectionClose.build date else resp.build date

/-- `create_response`. -/
def createResponse (date : Bytes) (requestId : ℕ) (result : Except String String)
    (connectionClose : Bool) : Bytes :=
  buildResponse date (HttpResponse.ok.withJsonBytes (writeJsonResponse requestId result))
    connectionClose

/-- `error_response`. -/
def errorResponse (http : Http) (date : Bytes) (error : ServerError) (connectionClose : Bool) :
    Bytes :=
  buildResponse date (HttpResponse.badRequest.withJsonBytes (http.errorJson error)) connectionClose

end Land.Server
