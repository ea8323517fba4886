import Land.Server.Request

/-!
# The client's request

`build_request` of `client/src/request.rs`, and what the server reads from its bytes.  The bytes are a
message with five lines; its body is the text of a JSON value.
-/

namespace Land.Client

open Server (Bytes bytes bytes_eq length_bytes_le length_bytes_u64)

/-- A `&[u8]`: a slice has at most `isize::MAX` bytes. -/
structure Slice where
  bytes : Bytes
  length_lt : bytes.length < 2 ^ 63

/-- `base64::encoded_len(len, true)`. -/
def encodedLen (len : ℕ) : Option ℕ :=
  let n := (len + 2) / 3 * 4
  if n < 2 ^ 64 then some n else none

/-- `encode_slice`: the bytes written to a buffer of `size` bytes. -/
def encodeSlice (tx : Bytes) (size : ℕ) : Option Bytes :=
  let encoded := Utf8.encode (Base64.encode tx)
  if encoded.length ≤ size then some encoded else none

/-- The JSON body that `build_request` writes. -/
def requestBody (requestId : UInt64) (tx : Slice) (fanout targetSlot : UInt64) : Bytes :=
  let encodedLen := (encodedLen tx.bytes.length).getD 0
  bytes "\x7b\"jsonrpc\":\"2.0\",\"id\":" ++ bytes (toString requestId.toNat) ++
  bytes ",\"method\":\"sendTransaction\",\"params\":\x7b\"transaction\":\"" ++
  (encodeSlice tx.bytes encodedLen).getD [] ++
  bytes "\",\"fanout\":" ++ bytes (toString fanout.toNat) ++
  bytes ",\"target_slot\":" ++ bytes (toString targetSlot.toNat) ++ bytes "\x7d\x7d"

/-- `build_request`. -/
def buildRequest (host : String) (requestId : UInt64) (tx : Slice) (fanout targetSlot : UInt64) :
    Bytes :=
  let body := requestBody requestId tx fanout targetSlot
  bytes "POST / HTTP/1.1\r\n" ++
  bytes "Host: " ++ bytes host ++ bytes "\r\n" ++
  bytes "Content-Type: application/json\r\n" ++
  bytes "Content-Length: " ++ bytes (toString body.length) ++ bytes "\r\n" ++
  bytes "Connection: keep-alive\r\n" ++
  bytes "\r\n" ++ body

/-! ## The body -/

/-- The value of the body. -/
def requestJson (requestId : UInt64) (tx : Slice) (fanout targetSlot : UInt64) : Json :=
  .obj [("jsonrpc".toList, .str "2.0".toList), ("id".toList, .num false requestId.toNat []),
    ("method".toList, .str "sendTransaction".toList),
    ("params".toList, .obj [("transaction".toList, .str (Base64.encode tx.bytes)),
      ("fanout".toList, .num false fanout.toNat []),
      ("target_slot".toList, .num false targetSlot.toNat [])])]

/-- Every transaction fits. -/
theorem encodeSlice_slice (tx : Slice) :
    (encodeSlice tx.bytes ((encodedLen tx.bytes.length).getD 0)).getD [] =
      Utf8.encode (Base64.encode tx.bytes) := by
  have htx := tx.length_lt
  have hlen : (Utf8.encode (Base64.encode tx.bytes)).length = (tx.bytes.length + 2) / 3 * 4 := by
    rw [Server.encode_base64, List.length_map, Base64.length_encode]
  have hfits : encodedLen tx.bytes.length = some ((tx.bytes.length + 2) / 3 * 4) := if_pos (by omega)
  rw [hfits, Option.getD_some, encodeSlice, hlen, if_pos le_rfl, Option.getD_some]

theorem flatMap_escape_base64 (tx : Bytes) :
    (Base64.encode tx).flatMap Json.escape = Base64.encode tx := by
  refine Json.flatMap_escape fun c hc => ?_
  obtain ⟨hlow, -, hspecial⟩ := Base64.printable_of_mem_encode hc
  exact ⟨by omega, hspecial⟩

/-- The body is the text of its value. -/
theorem requestBody_eq (requestId : UInt64) (tx : Slice) (fanout targetSlot : UInt64) :
    requestBody requestId tx fanout targetSlot =
      Utf8.encode (requestJson requestId tx fanout targetSlot).render := by
  simp only [requestBody, encodeSlice_slice, bytes_eq, ← Utf8.encode_append]
  refine congrArg Utf8.encode ?_
  simp [requestJson, Json.render, Json.renderMembers, Json.renderMoreMembers, Json.renderNumber,
    Json.quote, flatMap_escape_base64, Json.escape, Json.shortEscape]

/-- The length of every body is a `usize`. -/
theorem length_requestBody_lt (requestId : UInt64) (tx : Slice) (fanout targetSlot : UInt64) :
    (requestBody requestId tx fanout targetSlot).length < 2 ^ 64 := by
  have htx := tx.length_lt
  have h₁ := length_bytes_le "\x7b\"jsonrpc\":\"2.0\",\"id\":"
  have h₂ := length_bytes_le ",\"method\":\"sendTransaction\",\"params\":\x7b\"transaction\":\""
  have h₃ := length_bytes_le "\",\"fanout\":"
  have h₄ := length_bytes_le ",\"target_slot\":"
  have h₅ := length_bytes_le "\x7d\x7d"
  have hid := length_bytes_u64 requestId
  have hfanout := length_bytes_u64 fanout
  have hslot := length_bytes_u64 targetSlot
  simp only [requestBody, encodeSlice_slice, Server.encode_base64, List.length_append, List.length_map,
    Base64.length_encode]
  simp at h₁ h₂ h₃ h₄ h₅
  omega

/-! ## The message -/

/-- The lines before the length. -/
def requestFirstLines (host : String) : List (List Char) :=
  ["POST / HTTP/1.1".toList, "Host: ".toList ++ host.toList, "Content-Type: application/json".toList]

/-- The lines of a request. -/
def requestLines (host : String) (length : ℕ) : List (List Char) :=
  requestFirstLines host ++
    ["Content-Length: ".toList ++ Nat.toDigits 10 length, "Connection: keep-alive".toList]

/-- A line ending that is not in the host is in no line. -/
theorem not_mem_requestLines {c : Char} (hc : c = '\r' ∨ c = '\n') {host : String} (hhost : c ∉ host.toList)
    {length : ℕ} {l : List Char} (hl : l ∈ requestLines host length) : c ∉ l := by
  have hdigits : c ∉ Nat.toDigits 10 length := by
    intro h
    have hd := Str.isDigit_of_mem h
    rcases hc with rfl | rfl <;> cases hd
  simp only [requestLines, requestFirstLines, List.cons_append, List.nil_append, List.mem_cons,
    List.not_mem_nil, or_false] at hl
  rcases hl with rfl | rfl | rfl | rfl | rfl
  · rcases hc with rfl | rfl <;> decide
  · rw [List.mem_append, not_or]
    refine ⟨?_, hhost⟩
    rcases hc with rfl | rfl <;> decide
  · rcases hc with rfl | rfl <;> decide
  · rw [List.mem_append, not_or]
    refine ⟨?_, hdigits⟩
    rcases hc with rfl | rfl <;> decide
  · rcases hc with rfl | rfl <;> decide

theorem requestLine_ne_nil {host : String} {length : ℕ} {l : List Char} (hl : l ∈ requestLines host length) :
    l ≠ [] := by
  simp only [requestLines, requestFirstLines, List.cons_append, List.nil_append, List.mem_cons,
    List.not_mem_nil, or_false] at hl
  rcases hl with rfl | rfl | rfl | rfl | rfl <;> exact List.cons_ne_nil _ _

/-- The message of a request. -/
def requestMessage (host : String) (hcr : '\r' ∉ host.toList) (body : Bytes) : Framing.Message where
  lines := (requestLines host body.length).map Utf8.encode
  body := body
  lines_ne_nil := List.cons_ne_nil _ _
  line_ne_nil := by
    intro l hl
    obtain ⟨t, ht, rfl⟩ := List.mem_map.1 hl
    exact Utf8.encode_ne_nil (requestLine_ne_nil ht)
  cr_not_mem := by
    intro l hl
    obtain ⟨t, ht, rfl⟩ := List.mem_map.1 hl
    exact Utf8.ascii_not_mem_encode (c := '\r') (by decide) (not_mem_requestLines (.inl rfl) hcr ht)

/-- What `build_request` writes is the message of its body. -/
theorem buildRequest_eq (host : String) (hcr : '\r' ∉ host.toList) (requestId : UInt64) (tx : Slice)
    (fanout targetSlot : UInt64) :
    buildRequest host requestId tx fanout targetSlot =
      (requestMessage host hcr (requestBody requestId tx fanout targetSlot)).bytes := by
  have hend : ([13, 10, 13, 10] : Bytes) = Utf8.encode ['\r', '\n', '\r', '\n'] := rfl
  simp only [buildRequest, Framing.Message.bytes, Framing.Message.head, requestMessage,
    ← Server.encode_intercalate, hend, bytes_eq, ← Utf8.encode_append, ← List.append_assoc]
  refine congrArg (fun text => Utf8.encode text ++ _) ?_
  simp [requestLines, requestFirstLines, List.intercalate_cons_cons]

theorem encode_length (n : ℕ) :
    Utf8.encode ("Content-Length: ".toList ++ Nat.toDigits 10 n) = Framing.lengthLine n := by
  rw [Utf8.encode_append, Server.encode_toDigits]
  rfl

/-- The line of the length is the first one of its name. -/
theorem findContentLength_request (host : String) (hcr : '\r' ∉ host.toList) (hlf : '\n' ∉ host.toList)
    {body : Bytes} (hbody : body.length < 2 ^ 64) :
    Framing.findContentLength true (requestMessage host hcr body).head = some body.length := by
  have hpassed : ∀ l ∈ (requestFirstLines host).map Utf8.encode, Framing.Passed l := by
    intro l hl
    obtain ⟨t, ht, rfl⟩ := List.mem_map.1 hl
    have hmem : t ∈ requestLines host body.length := List.mem_append_left _ ht
    refine ⟨Utf8.encode_ne_nil (requestLine_ne_nil hmem),
      Utf8.ascii_not_mem_encode (c := '\n') (by decide) (not_mem_requestLines (.inr rfl) hlf hmem), ?_⟩
    intro rest
    simp only [requestFirstLines, List.mem_cons, List.not_mem_nil, or_false] at ht
    rcases ht with rfl | rfl | rfl <;> rfl
  have hsearch := Framing.findContentLength_lines hpassed body.length
    [Utf8.encode "Connection: keep-alive".toList]
  rw [Nat.mod_eq_of_lt hbody, ← encode_length] at hsearch
  exact hsearch

/-! ## What the server reads -/

/-- The headers of a request. -/
def requestHeaders (host : String) (length : ℕ) : List (String × String) :=
  [("Host", String.ofList (Str.trim host.toList)), ("Content-Type", "application/json"),
    ("Content-Length", toString length), ("Connection", "keep-alive")]

theorem parse_requestLines (host : String) {length : ℕ} (hlength : length < 2 ^ 64) :
    (requestLines host length).tail.foldlM Server.Headers.parseLine {} =
      .ok ⟨requestHeaders host length, length, false⟩ := by
  have hhost (acc : Server.Headers) : acc.parseLine ("Host: ".toList ++ host.toList) =
      acc.add "Host".toList (Str.trim host.toList) :=
    acc.parseLine_colon "Host".toList (by decide) (' ' :: host.toList)
  have htype (acc : Server.Headers) : acc.parseLine "Content-Type: application/json".toList =
      acc.add "Content-Type".toList "application/json".toList :=
    acc.parseLine_colon "Content-Type".toList (by decide) " application/json".toList
  have hline (acc : Server.Headers) :
      acc.parseLine ("Content-Length: ".toList ++ Nat.toDigits 10 length) =
        acc.add "Content-Length".toList (Nat.toDigits 10 length) := by
    have hsplit : "Content-Length: ".toList = "Content-Length".toList ++ [':', ' '] := by decide
    have hname : Str.trim "Content-Length".toList = "Content-Length".toList := by decide
    rw [hsplit, List.append_assoc, List.cons_append, List.singleton_append, acc.parseLine_colon _ (by decide), hname,
      Str.trim_space_toDigits]
  have hconnection (acc : Server.Headers) : acc.parseLine "Connection: keep-alive".toList =
      acc.add "Connection".toList "keep-alive".toList :=
    acc.parseLine_colon "Connection".toList (by decide) " keep-alive".toList
  have haddHost (acc : Server.Headers) (value : List Char) : acc.add "Host".toList value =
      .ok { acc with headers := acc.headers ++ [("Host", String.ofList value)] } := rfl
  have haddType (acc : Server.Headers) (value : List Char) : acc.add "Content-Type".toList value =
      .ok { acc with headers := acc.headers ++ [("Content-Type", String.ofList value)] } := rfl
  have haddLength (acc : Server.Headers) : acc.add "Content-Length".toList (Nat.toDigits 10 length) =
      .ok ⟨acc.headers ++ [("Content-Length", toString length)], length, acc.connectionClose⟩ := by
    have hname : Str.eqIgnoreAsciiCase "Content-Length".toList "content-length".toList = true := rfl
    simp only [Server.Headers.add, hname, if_true, Str.parseUnsigned_toDigits hlength,
      Nat.toString_eq_ofList_toDigits]
    rfl
  have haddConnection (acc : Server.Headers) : acc.add "Connection".toList "keep-alive".toList =
      .ok ⟨acc.headers ++ [("Connection", "keep-alive")], acc.contentLength, false⟩ := rfl
  simp only [requestLines, requestFirstLines, List.cons_append, List.nil_append, List.tail_cons,
    List.foldlM_cons, hhost, haddHost, htype, haddType, hline, haddLength, hconnection, haddConnection]
  rfl

/-- The server's parser on the message of a request. -/
theorem parse_requestMessage (host : String) (hcr : '\r' ∉ host.toList) (hlf : '\n' ∉ host.toList)
    {body : Bytes} (hbody : body.length < 2 ^ 64) :
    Server.HttpRequest.parse (requestMessage host hcr body).bytes =
      .ok ⟨"POST", "/", requestHeaders host body.length, body, false⟩ := by
  have hfirst : Server.parseRequestLine "POST / HTTP/1.1".toList = .ok ("POST", "/") := rfl
  have hlines : requestLines host body.length =
      "POST / HTTP/1.1".toList :: (requestLines host body.length).tail := rfl
  have hextract : Server.extractBody (requestMessage host hcr body).bytes
      ((requestMessage host hcr body).head.length + 4) body.length = .ok body :=
    Server.extractBody_message (requestMessage host hcr body)
  rw [Server.parse_message (requestMessage host hcr body) rfl fun l hl =>
    not_mem_requestLines (.inr rfl) hlf hl, hlines]
  simp only [Server.HttpRequest.parseLines, hfirst, parse_requestLines host hbody, hextract, bind, Except.bind]

/-- The request that the server parses. -/
def rpcRequest (requestId : UInt64) (tx : Slice) (fanout targetSlot : UInt64) : Server.JsonRpcRequest where
  jsonrpc := "2.0"
  id := .num false requestId.toNat []
  method := "sendTransaction"
  params := .obj [("transaction".toList, .str (Base64.encode tx.bytes)),
    ("fanout".toList, .num false fanout.toNat []), ("target_slot".toList, .num false targetSlot.toNat [])]

theorem fromSlice_requestBody (serde : Server.Serde) (requestId : UInt64) (tx : Slice)
    (fanout targetSlot : UInt64) :
    Server.JsonRpcRequest.fromSlice serde (requestBody requestId tx fanout targetSlot) =
      .ok (rpcRequest requestId tx fanout targetSlot) := by
  have hparse : Json.parse (requestJson requestId tx fanout targetSlot).render =
      some (requestJson requestId tx fanout targetSlot) := Json.parse_render _ rfl
  have hjson : Server.JsonRpcRequest.ofJson (requestJson requestId tx fanout targetSlot) =
      some (rpcRequest requestId tx fanout targetSlot) := rfl
  simp only [Server.JsonRpcRequest.fromSlice, requestBody_eq, Utf8.decode_encode, Option.bind_eq_bind,
    Option.bind_some, hparse, hjson]

theorem fromValue_params (requestId : UInt64) (tx : Slice) (fanout targetSlot : UInt64) :
    Server.SendTransactionParams.fromValue (rpcRequest requestId tx fanout targetSlot).params =
      some ⟨String.ofList (Base64.encode tx.bytes), fanout.toNat, targetSlot.toNat, none⟩ := by
  have hu64 (n : UInt64) : Server.asU64 (.num false n.toNat []) = some n.toNat := if_pos n.toNat_lt
  show (Server.asU64 (.num false fanout.toNat [])).bind (fun fanout =>
    (Server.asU64 (.num false targetSlot.toNat [])).bind fun targetSlot => some _) = _
  rw [hu64, hu64]
  rfl

/-- The parsed request. -/
theorem fromRpcRequest_rpcRequest (serde : Server.Serde) (requestId : UInt64) (tx : Slice)
    {fanout : UInt64} (hfanout : 1 ≤ fanout) (targetSlot : UInt64) :
    ∃ id, Server.fromRpcRequest serde (rpcRequest requestId tx fanout targetSlot) =
      .ok ⟨id, tx.bytes, fanout.toNat, targetSlot.toNat, none⟩ := by
  have hpos : fanout.toNat ≠ 0 := Nat.one_le_iff_ne_zero.1 (UInt64.le_iff_toNat_le.1 hfanout)
  exact ⟨_, Server.fromRpcRequest_ok serde rfl rfl (fromValue_params requestId tx fanout targetSlot)
    (Server.base64Decode_encode tx.bytes) hpos rfl⟩

/-- The part of a request that the server has is complete if it is the whole request. -/
theorem isComplete_iff (host : String) (hcr : '\r' ∉ host.toList) (hlf : '\n' ∉ host.toList)
    {requestId : UInt64} {tx : Slice} {fanout targetSlot : UInt64} {p : Bytes}
    (hp : p <+: buildRequest host requestId tx fanout targetSlot) :
    Server.HttpRequest.isComplete p = true ↔ p = buildRequest host requestId tx fanout targetSlot := by
  have hbody := length_requestBody_lt requestId tx fanout targetSlot
  rw [buildRequest_eq host hcr] at hp ⊢
  exact Framing.isComplete_prefix_iff _ (findContentLength_request host hcr hlf hbody) hp

/-- The server finds the request complete when it has all of it, and reads back what the client sent. -/
theorem server_reads_request (serde : Server.Serde) (host : String) (hcr : '\r' ∉ host.toList)
    (hlf : '\n' ∉ host.toList) (requestId : UInt64) (tx : Slice) (fanout targetSlot : UInt64)
    (hfanout : 1 ≤ fanout) :
    Server.HttpRequest.isComplete (buildRequest host requestId tx fanout targetSlot) = true ∧
    (∀ p, p <+: buildRequest host requestId tx fanout targetSlot →
      p ≠ buildRequest host requestId tx fanout targetSlot → Server.HttpRequest.isComplete p = false) ∧
    ∃ req rpc parsed,
      Server.HttpRequest.parse (buildRequest host requestId tx fanout targetSlot) = .ok req ∧
      req.method = "POST" ∧ req.connectionClose = false ∧
      req.body = requestBody requestId tx fanout targetSlot ∧
      Server.JsonRpcRequest.fromSlice serde req.body = .ok rpc ∧
      Server.fromRpcRequest serde rpc = .ok parsed ∧
      parsed.transaction = tx.bytes ∧ parsed.fanout = fanout.toNat ∧
      parsed.targetSlot = targetSlot.toNat := by
  have hbody := length_requestBody_lt requestId tx fanout targetSlot
  refine ⟨(isComplete_iff host hcr hlf List.prefix_rfl).2 rfl, ?_, ?_⟩
  · intro p hp hne
    exact Bool.eq_false_iff.2 fun h => hne ((isComplete_iff host hcr hlf hp).1 h)
  · obtain ⟨id, hparsed⟩ := fromRpcRequest_rpcRequest serde requestId tx hfanout targetSlot
    rw [buildRequest_eq host hcr]
    exact ⟨_, _, _, parse_requestMessage host hcr hlf hbody, rfl, rfl, rfl,
      fromSlice_requestBody serde requestId tx fanout targetSlot, hparsed, rfl, rfl, rfl⟩

/-- A request of four bytes to a local server. -/
theorem server_reads_request_local :
    '\r' ∉ "127.0.0.1:8080".toList ∧ '\n' ∉ "127.0.0.1:8080".toList ∧ (1 : UInt64) ≤ 3 ∧
    Server.HttpRequest.isComplete (buildRequest "127.0.0.1:8080" 1 ⟨[1, 2, 3, 4], by decide⟩ 3 12345) =
      true :=
  ⟨by decide, by decide, by decide,
    (server_reads_request ⟨fun _ => "", fun _ => ""⟩ "127.0.0.1:8080" (by decide) (by decide) 1
      ⟨[1, 2, 3, 4], by decide⟩ 3 12345 (by decide)).1⟩

/-- What the event loop gets for a request. -/
theorem parseRequest_buildRequest (serde : Server.Serde) (errorJson : Server.ServerError → Bytes)
    (host : String) (hcr : '\r' ∉ host.toList) (hlf : '\n' ∉ host.toList) (requestId : UInt64) (tx : Slice)
    {fanout : UInt64} (hfanout : 1 ≤ fanout) (targetSlot : UInt64) :
    ∃ id, (Server.http serde errorJson).parseRequest (buildRequest host requestId tx fanout targetSlot) =
      .ok (⟨id, tx.bytes, fanout.toNat, targetSlot.toNat, none⟩, false) := by
  obtain ⟨id, hparsed⟩ := fromRpcRequest_rpcRequest serde requestId tx hfanout targetSlot
  refine ⟨id, ?_⟩
  show Server.parseRequest serde _ = _
  simp only [Server.parseRequest, buildRequest_eq host hcr,
    parse_requestMessage host hcr hlf (length_requestBody_lt requestId tx fanout targetSlot), bind,
    Except.bind, fromSlice_requestBody, hparsed, ne_eq, not_true_eq_false, if_false, pure, Except.pure]

end Land.Client
