import Land.Server.Request

/-!
# The client's response parser

`client/src/response.rs`: when a response is complete, and the scan of its body for an error code or a
request id, against the bytes of the server's `create_response` and `error_response`.
-/

namespace Land.Client

open Server (Bytes bytes bytes_eq)

/-- `Error`; an error of the operating system is kept as its text. -/
inductive Error where
  | connect (text : String)
  | send (text : String)
  | recv (text : String)
  | invalidHttp
  | invalidResponse
  | rpc (code : Int32)
  | wouldBlock
  deriving DecidableEq

/-- `SendResult`. -/
structure SendResult where
  requestId : ℕ
  deriving DecidableEq

/-! ## Completeness -/

/-- `find_headers_end`. -/
def findHeadersEnd (buf : Bytes) : Option ℕ :=
  if buf.length < 4 then none else Framing.findHeadersEnd buf

/-- `is_body_complete`, with `find_content_length`. -/
def isBodyComplete (buf : Bytes) (headersEnd : ℕ) : Bool := Framing.isBodyComplete buf headersEnd

/-- `is_complete`. -/
def isComplete (buf : Bytes) : Bool :=
  match findHeadersEnd buf with
  | some headersEnd => isBodyComplete buf headersEnd
  | none => false

theorem findHeadersEnd_eq (buf : Bytes) : findHeadersEnd buf = Framing.findHeadersEnd buf := by
  unfold findHeadersEnd
  split_ifs with hlen
  · exact (Scan.find_eq_none_of_length_lt hlen).symm
  · rfl

theorem isComplete_eq (buf : Bytes) : isComplete buf = Framing.isComplete buf := by
  rw [isComplete, findHeadersEnd_eq, Framing.isComplete]
  rfl

/-! ## The parser -/

/-- `find_key`. -/
def findKey (buf key : Bytes) : Option ℕ := Scan.find key buf

/-- `find_byte`. -/
def findByte (buf : Bytes) (needle : UInt8) : Option ℕ := buf.findIdx? (· == needle)

/-- `get_http_status`. -/
def getHttpStatus (buf : Bytes) : ℕ :=
  if buf.length < 12 then 0
  else
    match (buf.take 12).findIdx? (· == 32) with
    | some pos =>
        match buf.drop (pos + 1) with
        | d1 :: d2 :: d3 :: _ =>
            if Framing.isAsciiDigit d1 && Framing.isAsciiDigit d2 && Framing.isAsciiDigit d3 then
              (d1.toNat - 48) * 100 + (d2.toNat - 48) * 10 + (d3.toNat - 48)
            else 0
        | _ => 0
    | none => 0

/-- `parse_number_after`; an `i32` wraps. -/
def parseNumberAfter (buf : Bytes) : Option Int32 := do
  let colon ← findByte buf 58
  let rest := (buf.drop (colon + 1)).dropWhile fun b => b == 32 || b == 9
  let negative := rest.head? = some 45
  let digits := (if negative then rest.tail else rest).takeWhile Framing.isAsciiDigit
  if digits.isEmpty then none
  else
    let val := digits.foldl (fun (val : Int32) b => val * 10 + Int32.ofNat (b.toNat - 48)) 0
    some (if negative then -val else val)

/-- `find_error_code`. -/
def findErrorCode (body : Bytes) : Option Int32 := do
  let errorPos ← findKey body (Framing.literal "\"error\"")
  let codePos ← findKey (body.drop errorPos) (Framing.literal "\"code\"")
  parseNumberAfter (body.drop (errorPos + codePos))

/-- The digit of `parse_hex_u64`. -/
def hexDigit (b : UInt8) : Option ℕ :=
  if 48 ≤ b ∧ b ≤ 57 then some (b.toNat - 48)
  else if 97 ≤ b ∧ b ≤ 102 then some (b.toNat - 97 + 10)
  else if 65 ≤ b ∧ b ≤ 70 then some (b.toNat - 65 + 10)
  else none

/-- One iteration of `parse_hex_u64`, with `checked_mul` and `checked_add`. -/
def hexStep (val : ℕ) (b : UInt8) : Option ℕ := do
  let digit ← hexDigit b
  if val * 16 < 2 ^ 64 ∧ val * 16 + digit < 2 ^ 64 then some (val * 16 + digit) else none

/-- `parse_hex_u64`. -/
def parseHexU64 (hex : Bytes) : Option ℕ := hex.foldlM hexStep 0

/-- `find_request_id`. -/
def findRequestId (body : Bytes) : Option ℕ := do
  let keyPos ← findKey body (Framing.literal "\"request_id\"")
  let rest := body.drop keyPos
  let colon ← findByte rest 58
  let quoteStart ← findByte (rest.drop colon) 34
  let valueStart := colon + quoteStart + 1
  if valueStart ≥ rest.length then none
  else
    let valueRest := rest.drop valueStart
    let quoteEnd ← findByte valueRest 34
    parseHexU64 (valueRest.take quoteEnd)

/-- `parse_json_rpc_response`. -/
def parseJsonRpcResponse (body : Bytes) : Except Error SendResult :=
  match findErrorCode body with
  | some code => .error (.rpc code)
  | none =>
      match findRequestId body with
      | some requestId => .ok ⟨requestId⟩
      | none => .error .invalidResponse

/-- `parse_response`. -/
def parseResponse (buf : Bytes) : Except Error SendResult :=
  match findHeadersEnd buf with
  | none => .error .invalidHttp
  | some headersEnd =>
      let status := getHttpStatus buf
      if status < 200 || status ≥ 300 then .error .invalidHttp
      else parseJsonRpcResponse (buf.drop (headersEnd + 4))

/-! ## Hexadecimal request ids -/

theorem hexDigit_digitChar : ∀ n < 16, hexDigit (Utf8.ascii (Nat.digitChar n)) = some n := by
  decide +kernel

theorem hexStep_digitChar {val d : ℕ} (hd : d < 16) (h : val * 16 + d < 2 ^ 64) :
    hexStep val (Utf8.ascii (Nat.digitChar d)) = some (val * 16 + d) := by
  rw [hexStep, hexDigit_digitChar d hd]
  exact if_pos ⟨by omega, h⟩

/-- The digits of a number are read back; no value on the way exceeds the number. -/
theorem foldlM_hexStep_toDigits {n : ℕ} (hn : n < 2 ^ 64) :
    ((Nat.toDigits 16 n).map Utf8.ascii).foldlM hexStep 0 = some n := by
  induction n using Nat.strong_induction_on with
  | _ n ih =>
    rw [Nat.toDigits_eq_if (by decide)]
    split_ifs with hlt
    · rw [List.map_singleton, List.foldlM_cons, hexStep_digitChar hlt (by omega), Nat.zero_mul, Nat.zero_add]
      rfl
    · have hrec := ih (n / 16) (by omega) (by omega)
      have hval : n / 16 * 16 + n % 16 = n := by omega
      rw [List.map_append, List.foldlM_append, hrec]
      show hexStep (n / 16) (Utf8.ascii (Nat.digitChar (n % 16))) >>= _ = _
      rw [hexStep_digitChar (by omega) (by omega), hval]
      rfl

theorem foldlM_hexStep_zeros (k : ℕ) (hex : Bytes) :
    (List.replicate k (48 : UInt8) ++ hex).foldlM hexStep 0 = hex.foldlM hexStep 0 := by
  induction k with
  | zero => rfl
  | succ k ih => exact ih

/-- The bytes of a request id: sixteen hexadecimal digits. -/
theorem bytes_hex16 (n : ℕ) : bytes (Server.hex16 n) =
    List.replicate (16 - (Nat.toDigits 16 n).length) 48 ++ (Nat.toDigits 16 n).map Utf8.ascii := by
  have hdigit : ∀ d < 16, (Nat.digitChar d).toNat ≤ 127 := by decide
  have hascii : Utf8.encode (Nat.toDigits 16 n) = (Nat.toDigits 16 n).map Utf8.ascii := by
    refine Utf8.encode_of_ascii fun c hc => ?_
    obtain ⟨d, hd, rfl⟩ := Str.exists_of_mem_hexDigits hc
    exact hdigit d hd
  have hzeros (k : ℕ) : Utf8.encode (List.replicate k '0') = List.replicate k 48 := by
    rw [Utf8.encode_of_ascii fun c hc => List.eq_of_mem_replicate hc ▸ by decide, List.map_replicate]
    rfl
  rw [bytes_eq, Server.hex16, String.toList_ofList, Utf8.encode_append, hascii, hzeros]

theorem parseHexU64_hex16 {n : ℕ} (hn : n < 2 ^ 64) : parseHexU64 (bytes (Server.hex16 n)) = some n := by
  rw [bytes_hex16, parseHexU64, foldlM_hexStep_zeros, foldlM_hexStep_toDigits hn]

theorem length_bytes_hex16 (n : ℕ) : 2 ≤ (bytes (Server.hex16 n)).length := by
  rw [bytes_hex16, List.length_append, List.length_replicate, List.length_map]
  omega

/-- A request id has no quote, and no letter of the word `error` but its first. -/
theorem ne_of_mem_hex16 {n : ℕ} {b : UInt8} (hb : b ∈ bytes (Server.hex16 n)) : b ≠ 34 ∧ b ≠ 114 := by
  have hdigit : ∀ d < 16, Utf8.ascii (Nat.digitChar d) ≠ 34 ∧ Utf8.ascii (Nat.digitChar d) ≠ 114 := by
    decide +kernel
  rw [bytes_hex16] at hb
  rcases List.mem_append.1 hb with hb | hb
  · rw [List.eq_of_mem_replicate hb]
    decide
  · obtain ⟨c, hc, rfl⟩ := List.mem_map.1 hb
    obtain ⟨d, hd, rfl⟩ := Str.exists_of_mem_hexDigits hc
    exact hdigit d hd

/-! ## The body of a response -/

theorem bytes_literal (text : String) (h : Utf8.isAscii text.toList = true) :
    bytes text = Framing.literal text := by
  rw [bytes_eq, Utf8.encode_of_isAscii h]
  rfl

/-- The digits of a number have no quote. -/
theorem quote_not_mem_bytes (n : ℕ) : 34 ∉ bytes (toString n) := by
  rw [Server.bytes_toString, Server.encode_toDigits]
  intro h
  obtain ⟨c, hc, hquote⟩ := List.mem_map.1 h
  have hdigit := (Framing.ascii_of_isDigit (Str.isDigit_of_mem hc)).1
  rw [hquote] at hdigit
  cases hdigit

/-- The body up to the number of the request. -/
def bodyFront (requestId : ℕ) : Bytes :=
  Framing.literal "\x7b\"jsonrpc\":\"2.0\",\"id\":" ++ bytes (toString requestId)

theorem passes_bodyFront {pat : Bytes}
    (h : Scan.skips (34 :: pat) (Framing.literal "\x7b\"jsonrpc\":\"2.0\",\"id\":") = true) (requestId : ℕ) :
    Scan.Passes (34 :: pat) (bodyFront requestId) :=
  (Scan.Passes.of_skips h).append (Scan.Passes.of_not_mem (quote_not_mem_bytes requestId))

/-- The body of an error, cut where the client's scans stop. -/
theorem writeJsonResponse_error (requestId : ℕ) (msg : String) :
    ∃ tail, Server.writeJsonResponse requestId (.error msg) = (bodyFront requestId ++ [44]) ++
      (Framing.literal "\"error\"" ++ (Framing.literal ":\x7b" ++ (Framing.literal "\"code\"" ++
        (Framing.literal ":-32603," ++ tail)))) := by
  refine ⟨Framing.literal "\"message\":\"" ++ bytes msg ++ Framing.literal "\"\x7d\x7d", ?_⟩
  have hmiddle : Framing.literal ",\"error\":\x7b\"code\":-32603,\"message\":\"" =
      [44] ++ (Framing.literal "\"error\"" ++ (Framing.literal ":\x7b" ++ (Framing.literal "\"code\"" ++
        (Framing.literal ":-32603," ++ Framing.literal "\"message\":\"")))) := rfl
  simp only [Server.writeJsonResponse, bodyFront, bytes_literal "\x7b\"jsonrpc\":\"2.0\",\"id\":" (by decide),
    bytes_literal ",\"error\":\x7b\"code\":-32603,\"message\":\"" (by decide),
    bytes_literal "\"\x7d\x7d" (by decide), hmiddle, List.append_assoc]

theorem findErrorCode_error (requestId : ℕ) (msg : String) :
    findErrorCode (Server.writeJsonResponse requestId (.error msg)) = some (-32603) := by
  obtain ⟨tail, htail⟩ := writeJsonResponse_error requestId msg
  have hfront : Scan.Passes (Framing.literal "\"error\"") (bodyFront requestId ++ [44]) :=
    (passes_bodyFront (by decide) requestId).append (Scan.Passes.of_skips (by decide))
  have hcode : Scan.Passes (Framing.literal "\"code\"")
      (Framing.literal "\"error\"" ++ Framing.literal ":\x7b") := Scan.Passes.of_skips (by decide)
  have herrorPos := hfront.find_eq (by decide) (Framing.literal ":\x7b" ++ (Framing.literal "\"code\"" ++
    (Framing.literal ":-32603," ++ tail)))
  have hcodePos := hcode.find_eq (by decide) (Framing.literal ":-32603," ++ tail)
  rw [List.append_assoc] at hcodePos
  have hnumber : parseNumberAfter (Framing.literal "\"code\"" ++ (Framing.literal ":-32603," ++ tail)) =
      some (-32603) := rfl
  rw [htail]
  simp only [findErrorCode, findKey, herrorPos, Option.bind_eq_bind, Option.bind_some, List.drop_left,
    hcodePos, ← List.drop_drop]
  rw [← List.append_assoc (Framing.literal "\"error\""), List.drop_left, hnumber]

/-- The part of a success between the number of the request and the request id. -/
def okMiddle : Bytes := Framing.literal ",\"result\":\x7b\"status\":\"queued\","

/-- The body of a success, cut where the client's scans stop. -/
theorem writeJsonResponse_ok (requestId : ℕ) (hex : String) :
    Server.writeJsonResponse requestId (.ok hex) = (bodyFront requestId ++ okMiddle) ++
      (Framing.literal "\"request_id\"" ++ ([58, 34] ++ (bytes hex ++ [34, 125, 125]))) := by
  have hmiddle : Framing.literal ",\"result\":\x7b\"status\":\"queued\",\"request_id\":\"" =
      okMiddle ++ (Framing.literal "\"request_id\"" ++ [58, 34]) := rfl
  have hend : Framing.literal "\"\x7d\x7d" = [34, 125, 125] := rfl
  simp only [Server.writeJsonResponse, bodyFront, bytes_literal "\x7b\"jsonrpc\":\"2.0\",\"id\":" (by decide),
    bytes_literal ",\"result\":\x7b\"status\":\"queued\",\"request_id\":\"" (by decide),
    bytes_literal "\"\x7d\x7d" (by decide), hmiddle, hend, List.append_assoc]

/-- No error is found in a success. -/
theorem findErrorCode_ok (requestId n : ℕ) :
    findErrorCode (Server.writeJsonResponse requestId (.ok (Server.hex16 n))) = none := by
  have hfront : Scan.Passes (Framing.literal "\"error\"")
      (bodyFront requestId ++ okMiddle ++ (Framing.literal "\"request_id\"" ++ [58])) :=
    ((passes_bodyFront (by decide) requestId).append (Scan.Passes.of_skips (by decide))).append
      (Scan.Passes.of_skips (by decide))
  -- the quote before the request id: the second letter of the word is no hexadecimal digit
  have hquote : ¬ Framing.literal "\"error\"" <+: 34 :: (bytes (Server.hex16 n) ++ [34, 125, 125]) := by
    have hlen := length_bytes_hex16 n
    have hmem : ∀ b ∈ bytes (Server.hex16 n), b ≠ 34 ∧ b ≠ 114 := fun b hb => ne_of_mem_hex16 hb
    generalize bytes (Server.hex16 n) = hex at hlen hmem
    obtain _ | ⟨x, _ | ⟨y, hex⟩⟩ := hex
    · exact absurd hlen (by decide)
    · exact absurd hlen (by simp)
    · intro hp
      have hy : (114 : UInt8) = y :=
        (List.cons_prefix_cons.1 (List.cons_prefix_cons.1 (List.cons_prefix_cons.1 hp).2).2).1
      exact (hmem y (by simp)).2 hy.symm
  have hhex : 34 ∉ bytes (Server.hex16 n) := fun h => (ne_of_mem_hex16 h).1 rfl
  have hnone : Scan.find (Framing.literal "\"error\"") (34 :: (bytes (Server.hex16 n) ++ [34, 125, 125])) =
      none := by
    rw [Scan.find_cons_skip hquote]
    show (Scan.find (34 :: Framing.literal "error\"") _).map _ = none
    rw [Scan.find_append_of_not_mem hhex]
    rfl
  have hbody : Server.writeJsonResponse requestId (.ok (Server.hex16 n)) =
      (bodyFront requestId ++ okMiddle ++ (Framing.literal "\"request_id\"" ++ [58])) ++
        34 :: (bytes (Server.hex16 n) ++ [34, 125, 125]) := by
    rw [writeJsonResponse_ok]
    simp
  rw [findErrorCode, findKey, hbody, hfront, hnone]
  rfl

theorem findByte_append {front : Bytes} {needle : UInt8} (h : needle ∉ front) (rest : Bytes) :
    findByte (front ++ needle :: rest) needle = some front.length := by
  have hfront : front.findIdx? (· == needle) = none :=
    List.findIdx?_eq_none_iff.2 fun b hb => beq_false_of_ne fun hne => h (hne ▸ hb)
  rw [findByte, List.findIdx?_append, hfront, List.findIdx?_cons, beq_self_eq_true, if_pos rfl]
  simp

/-- The request id is found in a success. -/
theorem findRequestId_ok (requestId : ℕ) {n : ℕ} (hn : n < 2 ^ 64) :
    findRequestId (Server.writeJsonResponse requestId (.ok (Server.hex16 n))) = some n := by
  have hfront : Scan.Passes (Framing.literal "\"request_id\"") (bodyFront requestId ++ okMiddle) :=
    (passes_bodyFront (by decide) requestId).append (Scan.Passes.of_skips (by decide))
  have hpos := hfront.find_eq (by decide) ([58, 34] ++ (bytes (Server.hex16 n) ++ [34, 125, 125]))
  have hvalue := parseHexU64_hex16 hn
  have hquote : findByte (bytes (Server.hex16 n) ++ [34, 125, 125]) 34 =
      some (bytes (Server.hex16 n)).length :=
    findByte_append (fun h => (ne_of_mem_hex16 h).1 rfl) _
  rw [writeJsonResponse_ok]
  generalize bytes (Server.hex16 n) = hex at hpos hquote hvalue
  -- the key, then the colon at 12 and the quote after it
  have hcolon : findByte (Framing.literal "\"request_id\"" ++ ([58, 34] ++ (hex ++ [34, 125, 125]))) 58 =
      some 12 := rfl
  have hstart : findByte ((Framing.literal "\"request_id\"" ++ ([58, 34] ++ (hex ++ [34, 125, 125]))).drop 12) 34 =
      some 1 := rfl
  have hdrop : (Framing.literal "\"request_id\"" ++ ([58, 34] ++ (hex ++ [34, 125, 125]))).drop 14 =
      hex ++ [34, 125, 125] := rfl
  have hlen : ¬ 14 ≥ (Framing.literal "\"request_id\"" ++ ([58, 34] ++ (hex ++ [34, 125, 125]))).length := by
    have hkey : (Framing.literal "\"request_id\"").length = 12 := rfl
    simp only [List.length_append, hkey, List.length_cons, List.length_nil]
    omega
  simp only [findRequestId, findKey, hpos, Option.bind_eq_bind, Option.bind_some, List.drop_left, hcolon,
    hstart, Nat.reduceAdd, if_neg hlen, hdrop, hquote, List.take_left, hvalue]

/-! ## The message of a response -/

/-- A `String`, which has at most `isize::MAX` bytes. -/
structure Text where
  text : String
  length_lt : (bytes text).length < 2 ^ 63

/-- The result of a worker. -/
def workerResult : Except Text Text → Except String String
  | .ok t => .ok t.text
  | .error t => .error t.text

/-- The length of every body is a `usize`. -/
theorem length_writeJsonResponse_lt (requestId : UInt64) (result : Except Text Text) :
    (Server.writeJsonResponse requestId.toNat (workerResult result)).length < 2 ^ 64 := by
  have hid := Server.length_bytes_u64 requestId
  have h₁ := Server.length_bytes_le "\x7b\"jsonrpc\":\"2.0\",\"id\":"
  have h₂ := Server.length_bytes_le ",\"result\":\x7b\"status\":\"queued\",\"request_id\":\""
  have h₃ := Server.length_bytes_le ",\"error\":\x7b\"code\":-32603,\"message\":\""
  have h₄ := Server.length_bytes_le "\"\x7d\x7d"
  simp at h₁ h₂ h₃ h₄
  cases result with
  | ok t =>
    have ht := t.length_lt
    simp only [workerResult, Server.writeJsonResponse, List.length_append]
    omega
  | error t =>
    have ht := t.length_lt
    simp only [workerResult, Server.writeJsonResponse, List.length_append]
    omega

/-- The lines of a response. -/
def responseLines (date : Bytes) (length : ℕ) (connectionClose : Bool) : List Bytes :=
  [Framing.literal "HTTP/1.1 200 OK", Framing.lengthLine length, Framing.literal "Date: " ++ date,
    Framing.literal "Content-Type: application/json",
    if connectionClose then Framing.literal "Connection: close"
    else Framing.literal "Connection: keep-alive"]

theorem cr_not_mem_lengthLine (n : ℕ) : 13 ∉ Framing.lengthLine n := by
  rw [Framing.lengthLine, List.mem_append, not_or]
  refine ⟨by decide, fun h => ?_⟩
  obtain ⟨c, hc, hcr⟩ := List.mem_map.1 h
  have hdigit := (Framing.ascii_of_isDigit (Str.isDigit_of_mem hc)).1
  rw [hcr] at hdigit
  cases hdigit

/-- The message of a response. -/
def responseMessage (date : Bytes) (hcr : 13 ∉ date) (body : Bytes) (connectionClose : Bool) :
    Framing.Message where
  lines := responseLines date body.length connectionClose
  body := body
  lines_ne_nil := List.cons_ne_nil _ _
  line_ne_nil := by
    intro l hl
    simp only [responseLines, List.mem_cons, List.not_mem_nil, or_false] at hl
    rcases hl with rfl | rfl | rfl | rfl | rfl
    · exact List.cons_ne_nil _ _
    · exact List.cons_ne_nil _ _
    · exact List.cons_ne_nil _ _
    · exact List.cons_ne_nil _ _
    · cases connectionClose <;> exact List.cons_ne_nil _ _
  cr_not_mem := by
    intro l hl
    simp only [responseLines, List.mem_cons, List.not_mem_nil, or_false] at hl
    rcases hl with rfl | rfl | rfl | rfl | rfl
    · decide
    · exact cr_not_mem_lengthLine body.length
    · rw [List.mem_append, not_or]
      exact ⟨by decide, hcr⟩
    · decide
    · cases connectionClose <;> decide

/-- A successful response with a JSON body is the message of its body. -/
theorem buildResponse_eq (date : Bytes) (hcr : 13 ∉ date) (body : Bytes) (connectionClose : Bool) :
    Server.buildResponse date (Server.HttpResponse.ok.withJsonBytes body) connectionClose =
      (responseMessage date hcr body connectionClose).bytes := by
  have hstatus : bytes (toString 200) = Framing.literal "200" := by
    rw [Server.bytes_toString, Server.encode_toDigits]
    rfl
  have hlength : bytes (toString body.length) = (Nat.toDigits 10 body.length).map Utf8.ascii := by
    rw [Server.bytes_toString, Server.encode_toDigits]
  -- the pieces that `build` writes, put together to lines
  have hfirst : Framing.literal "HTTP/1.1 200 OK" = Framing.literal "HTTP/1.1 " ++
      (Framing.literal "200" ++ (Framing.literal " " ++ Framing.literal "OK")) := rfl
  have htype : Framing.literal "Content-Type: application/json" = Framing.literal "Content-Type" ++
      (Framing.literal ": " ++ Framing.literal "application/json") := rfl
  have hclose : Framing.literal "Connection: close\r\n" = Framing.literal "Connection: close" ++ [13, 10] := rfl
  have hkeep : Framing.literal "Connection: keep-alive\r\n" =
      Framing.literal "Connection: keep-alive" ++ [13, 10] := rfl
  have hend : Framing.literal "\r\n" = [13, 10] := rfl
  simp (disch := decide) only [Server.buildResponse, Server.HttpResponse.build, Server.HttpResponse.withJsonBytes,
    Server.HttpResponse.ok, Server.HttpResponse.withConnectionClose, hstatus, hlength, bytes_literal, List.nil_append,
    List.flatMap_cons, List.flatMap_nil, List.append_assoc]
  cases connectionClose
  all_goals
    simp only [Framing.Message.bytes, Framing.Message.head, responseMessage, responseLines, Bool.false_eq_true,
      if_true, if_false, List.intercalate_cons_cons, List.intercalate_singleton, Framing.lengthLine, hfirst,
      htype, hclose, hkeep, hend, List.append_assoc, List.cons_append, List.nil_append]

/-- What `create_response` writes is the message of its body. -/
theorem createResponse_eq (date : Bytes) (hcr : 13 ∉ date) (requestId : ℕ) (result : Except String String)
    (connectionClose : Bool) :
    Server.createResponse date requestId result connectionClose =
      (responseMessage date hcr (Server.writeJsonResponse requestId result) connectionClose).bytes :=
  buildResponse_eq date hcr (Server.writeJsonResponse requestId result) connectionClose

theorem findContentLength_responseMessage (date : Bytes) (hcr : 13 ∉ date) {body : Bytes}
    (hbody : body.length < 2 ^ 64) (connectionClose : Bool) :
    Framing.findContentLength true (responseMessage date hcr body connectionClose).head =
      some body.length := by
  have hpassed : ∀ l ∈ [Framing.literal "HTTP/1.1 200 OK"], Framing.Passed l := by
    intro l hl
    obtain rfl := List.mem_singleton.1 hl
    exact ⟨List.cons_ne_nil _ _, by decide, fun rest => rfl⟩
  refine (Framing.findContentLength_lines hpassed body.length
    ((responseLines date body.length connectionClose).drop 2)).trans ?_
  rw [Nat.mod_eq_of_lt hbody]

theorem getHttpStatus_responseMessage (date : Bytes) (hcr : 13 ∉ date) (body : Bytes)
    (connectionClose : Bool) :
    getHttpStatus (responseMessage date hcr body connectionClose).bytes = 200 := by
  have hhead : (responseMessage date hcr body connectionClose).head =
      Framing.literal "HTTP/1.1 200 OK" ++ [13, 10] ++
        [13, 10].intercalate ((responseLines date body.length connectionClose).drop 1) :=
    List.intercalate_cons_cons
  obtain ⟨rest, hrest⟩ : ∃ rest, (responseMessage date hcr body connectionClose).bytes =
      Framing.literal "HTTP/1.1 200 OK" ++ rest := by
    rw [Framing.Message.bytes, hhead, List.append_assoc, List.append_assoc]
    exact ⟨_, rfl⟩
  have hlen : ¬ (Framing.literal "HTTP/1.1 200 OK" ++ rest).length < 12 := by
    rw [List.length_append]
    exact not_lt.2 ((show 12 ≤ 15 by decide).trans (Nat.le_add_right 15 _))
  rw [hrest, getHttpStatus, if_neg hlen]
  rfl

/-- A response is parsed from its body. -/
theorem parseResponse_responseMessage (date : Bytes) (hcr : 13 ∉ date) (body : Bytes)
    (connectionClose : Bool) :
    parseResponse (responseMessage date hcr body connectionClose).bytes = parseJsonRpcResponse body := by
  simp only [parseResponse, findHeadersEnd_eq, Framing.Message.findHeadersEnd_bytes,
    getHttpStatus_responseMessage, Framing.Message.drop_bytes]
  exact if_neg (by decide)

/-- A part of a response is complete when it is all of it. -/
theorem isComplete_createResponse (date : Bytes) (hcr : 13 ∉ date) (requestId : UInt64)
    (result : Except Text Text) (connectionClose : Bool) {p : Bytes}
    (hp : p <+: Server.createResponse date requestId.toNat (workerResult result) connectionClose) :
    isComplete p = true ↔
      p = Server.createResponse date requestId.toNat (workerResult result) connectionClose := by
  have hlength := length_writeJsonResponse_lt requestId result
  rw [createResponse_eq date hcr] at hp ⊢
  rw [isComplete_eq]
  exact Framing.isComplete_prefix_iff _
    (findContentLength_responseMessage date hcr hlength connectionClose) hp

theorem parseResponse_ok (date : Bytes) (hcr : 13 ∉ date) (requestId : UInt64) (connectionClose : Bool) :
    parseResponse (Server.createResponse date requestId.toNat (.ok (Server.hex16 requestId.toNat))
      connectionClose) = .ok ⟨requestId.toNat⟩ := by
  rw [createResponse_eq date hcr, parseResponse_responseMessage, parseJsonRpcResponse, findErrorCode_ok,
    findRequestId_ok _ requestId.toNat_lt]

theorem parseResponse_error (date : Bytes) (hcr : 13 ∉ date) (requestId : ℕ) (msg : String)
    (connectionClose : Bool) :
    parseResponse (Server.createResponse date requestId (.error msg) connectionClose) =
      .error (.rpc (-32603)) := by
  rw [createResponse_eq date hcr, parseResponse_responseMessage, parseJsonRpcResponse, findErrorCode_error]

/-- The client recognises a response of the server exactly when it is complete, whatever the worker
answered, and reads the worker's answer out of it: the request id, or the error. -/
theorem client_reads_response (date : Bytes) (hcr : 13 ∉ date) (requestId : UInt64)
    (result : Except Text Text) (connectionClose : Bool) :
    (∀ p, p <+: Server.createResponse date requestId.toNat (workerResult result) connectionClose →
      (isComplete p = true ↔
        p = Server.createResponse date requestId.toNat (workerResult result) connectionClose)) ∧
    (workerResult result = .ok (Server.hex16 requestId.toNat) →
      parseResponse (Server.createResponse date requestId.toNat (workerResult result) connectionClose) =
        .ok ⟨requestId.toNat⟩) ∧
    (∀ msg, workerResult result = .error msg →
      parseResponse (Server.createResponse date requestId.toNat (workerResult result) connectionClose) =
        .error (.rpc (-32603))) := by
  refine ⟨fun p hp => isComplete_createResponse date hcr requestId result connectionClose hp,
    fun hok => ?_, fun msg herror => ?_⟩
  · rw [hok]
    exact parseResponse_ok date hcr requestId connectionClose
  · rw [herror]
    exact parseResponse_error date hcr requestId.toNat msg connectionClose

theorem length_bytes_hex16_lt (requestId : UInt64) : (bytes (Server.hex16 requestId.toNat)).length < 2 ^ 63 := by
  have hdigits := Nat.toDigits_length 16 requestId.toNat 16 (by decide) requestId.toNat_lt
  rw [bytes_hex16, List.length_append, List.length_replicate, List.length_map]
  omega

/-- The response to request 255, with the date of the cache at its start. -/
theorem client_reads_response_255 :
    parseResponse (Server.createResponse (Framing.literal "Thu, 01 Jan 1970 00:00:00 GMT") 255
      (.ok (Server.hex16 255)) false) = .ok ⟨255⟩ :=
  (client_reads_response (Framing.literal "Thu, 01 Jan 1970 00:00:00 GMT") (by decide) 255
    (.ok ⟨Server.hex16 255, length_bytes_hex16_lt 255⟩) false).2.1 rfl

/-! ## Error responses -/

/-- The number of an error is read back. -/
theorem parseNumberAfter_code (err : Server.ServerError) (tail : Bytes) :
    parseNumberAfter (Framing.literal "\"code\"" ++ (58 ::
      ((Json.renderNumber (err.toRpcCode < 0) err.toRpcCode.toInt.natAbs []).map Utf8.ascii ++
        44 :: tail))) = some err.toRpcCode := by
  have hcode : err.toRpcCode ∈ ([-32700, -32600, -32601, -32602, -32603] : List Int32) := by
    cases err <;> simp [Server.ServerError.toRpcCode]
  have htext : ([-32700, -32600, -32601, -32602, -32603] : List Int32).all (fun code =>
      ∃ text ∈ ["-32700", "-32600", "-32601", "-32602", "-32603"],
        (Json.renderNumber (code < 0) code.toInt.natAbs []).map Utf8.ascii = Framing.literal text ∧
        parseNumberAfter (Framing.literal "\"code\"" ++ (58 :: (Framing.literal text ++ [44]))) =
          some code) = true := by
    decide +kernel
  obtain ⟨text, hmem, hdigits, hparse⟩ := of_decide_eq_true (List.all_eq_true.1 htext _ hcode)
  rw [hdigits, ← hparse]
  -- the digits stop at the comma, whatever follows it
  simp only [List.mem_cons, List.not_mem_nil, or_false] at hmem
  rcases hmem with rfl | rfl | rfl | rfl | rfl <;> rfl

theorem findErrorCode_errorJson (err : Server.ServerError) :
    findErrorCode (Server.errorJson err) = some err.toRpcCode := by
  obtain ⟨tail, htail⟩ := Server.errorJson_eq err
  have hfront : Scan.Passes (Framing.literal "\"error\"")
      (Framing.literal "\x7b\"jsonrpc\":\"2.0\",\"id\":null,") := Scan.Passes.of_skips (by decide)
  have hcode : Scan.Passes (Framing.literal "\"code\"")
      (Framing.literal "\"error\"" ++ Framing.literal ":\x7b") := Scan.Passes.of_skips (by decide)
  have hnumber := parseNumberAfter_code err tail
  rw [htail]
  generalize 58 :: ((Json.renderNumber (err.toRpcCode < 0) err.toRpcCode.toInt.natAbs []).map Utf8.ascii ++
    44 :: tail) = rest at hnumber ⊢
  have herrorPos := hfront.find_eq (by decide)
    (Framing.literal ":\x7b" ++ (Framing.literal "\"code\"" ++ rest))
  have hcodePos := hcode.find_eq (by decide) rest
  rw [List.append_assoc] at hcodePos
  simp only [findErrorCode, findKey, herrorPos, Option.bind_eq_bind, Option.bind_some, List.drop_left,
    hcodePos, ← List.drop_drop]
  rw [← List.append_assoc (Framing.literal "\"error\""), List.drop_left, hnumber]

theorem literal_prefix_errorResponse (http : Server.Http) (date : Bytes) (err : Server.ServerError)
    (connectionClose : Bool) :
    Framing.literal "HTTP/1.1 400" <+: Server.errorResponse http date err connectionClose := by
  have hstatus : bytes (toString 400) = Framing.literal "400" := by
    rw [Server.bytes_toString, Server.encode_toDigits]
    rfl
  cases connectionClose
  all_goals
    simp (disch := decide) only [Server.errorResponse, Server.buildResponse, Bool.false_eq_true, if_true,
      if_false, Server.HttpResponse.build, Server.HttpResponse.withJsonBytes,
      Server.HttpResponse.badRequest, Server.HttpResponse.withConnectionClose, hstatus,
      bytes_literal, List.append_assoc]
    exact ⟨_, rfl⟩

/-- A part of an error response has no status yet, or that of a bad request. -/
theorem getHttpStatus_errorResponse {http : Server.Http} {date : Bytes} {err : Server.ServerError}
    {connectionClose : Bool} {p : Bytes} (hp : p <+: Server.errorResponse http date err connectionClose) :
    getHttpStatus p = 0 ∨ getHttpStatus p = 400 := by
  by_cases hlen : p.length < 12
  · exact .inl (if_pos hlen)
  · obtain ⟨rest, rfl⟩ := List.prefix_of_prefix_length_le
      (literal_prefix_errorResponse http date err connectionClose) hp (not_lt.1 hlen)
    refine .inr ?_
    rw [getHttpStatus, if_neg hlen]
    rfl

/-- No error response is read beyond its status. -/
theorem parseResponse_errorResponse {http : Server.Http} {date : Bytes} {err : Server.ServerError}
    {connectionClose : Bool} {p : Bytes} (hp : p <+: Server.errorResponse http date err connectionClose) :
    parseResponse p = .error .invalidHttp := by
  rw [parseResponse]
  rcases getHttpStatus_errorResponse hp with hstatus | hstatus
  all_goals
    rw [hstatus]
    split
    · rfl
    · rfl

/-- The body of an error response carries the code, but the client gives up at the status before it
reads the body: no refusal of the server reaches the caller as an RPC error. -/
theorem client_discards_error (serde : Server.Serde) (date : Bytes) (err : Server.ServerError)
    (connectionClose : Bool) :
    parseJsonRpcResponse (Server.errorJson err) = .error (.rpc err.toRpcCode) ∧
    parseResponse (Server.errorResponse (Server.http serde Server.errorJson) date err connectionClose) =
      .error .invalidHttp ∧
    parseResponse (Server.errorResponse (Server.http serde Server.errorJson) date err connectionClose) ≠
      .error (.rpc err.toRpcCode) := by
  have hparse : parseResponse (Server.errorResponse (Server.http serde Server.errorJson) date err
      connectionClose) = .error .invalidHttp := parseResponse_errorResponse List.prefix_rfl
  refine ⟨?_, hparse, ?_⟩
  · rw [parseJsonRpcResponse, findErrorCode_errorJson]
  · rw [hparse]
    intro h
    cases h

/-- The server refuses a `GET` with code -32603, and the client does not report it. -/
theorem refused_get_discarded :
    Server.parseRequest ⟨fun _ => "", fun _ => ""⟩ (Framing.literal "GET / HTTP/1.1\r\n\r\n") =
      .error (.invalidHttp "Method not allowed: GET") ∧
    parseResponse (Server.errorResponse (Server.http ⟨fun _ => "", fun _ => ""⟩ Server.errorJson)
      (Framing.literal "Thu, 01 Jan 1970 00:00:00 GMT") (.invalidHttp "Method not allowed: GET") false) ≠
      .error (.rpc (Server.ServerError.invalidHttp "Method not allowed: GET").toRpcCode) := by
  refine ⟨?_, ?_⟩
  · have hend : Framing.findHeadersEnd (Framing.literal "GET / HTTP/1.1\r\n\r\n") = some 14 := by
      decide +kernel
    have hhead : (Framing.literal "GET / HTTP/1.1\r\n\r\n").take 14 =
        Utf8.encode "GET / HTTP/1.1".toList := by
      rw [Utf8.encode_of_isAscii (by decide)]
      rfl
    have hparse : Server.HttpRequest.parse (Framing.literal "GET / HTTP/1.1\r\n\r\n") =
        .ok ⟨"GET", "/", [], [], false⟩ := by
      simp only [Server.HttpRequest.parse, hend, hhead, Utf8.decode_encode]
      decide +kernel
    rw [Server.parseRequest, hparse]
    decide +kernel
  · rw [parseResponse_errorResponse List.prefix_rfl]
    intro h
    cases h

end Land.Client
