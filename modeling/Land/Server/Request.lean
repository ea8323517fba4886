import Land.Lib.Base64
import Land.Lib.Json
import Land.Server.Http

/-!
# Parsing of JSON-RPC requests

`JsonRpcRequest`, `SendTransactionParams`, `ParsedRequest::from_rpc_request` and the base64 decoder of
`server/src/request.rs`, and the parsing steps of `handle_request` (`server/src/server.rs`).  A struct is
read from JSON as `serde` reads it: from an object, where other members are ignored, or from an array of
its fields in order.  The texts of `serde_json`'s errors are the record `Serde`; the results hold for all
of them.
-/

namespace Land.Server

/-- The texts of `serde_json`'s errors. -/
structure Serde where
  /-- for a body that is no `JsonRpcRequest` -/
  bodyError : Bytes → String
  /-- for params that are no `SendTransactionParams` -/
  paramsError : Json → String

/-! ## Fields -/

/-- A `String`. -/
def asString : Json → Option String
  | .str s => some (String.ofList s)
  | _ => none

/-- A `u64` or `usize`. -/
def asU64 : Json → Option ℕ
  | .num false whole [] => if whole < 2 ^ 64 then some whole else none
  | _ => none

/-- A field by its name. -/
def getField (fields : List (List Char × Json)) (name : String) : Option Json :=
  fields.lookup name.toList

/-- The fields of a struct in an array. -/
def arrayFields (names : List String) (vs : List Json) : Option (List (List Char × Json)) :=
  if vs.length ≤ names.length then some ((names.map String.toList).zip vs) else none

/-- The fields of a struct that is read from a text: a field that comes twice is an error. -/
def textFields (names : List String) : Json → Option (List (List Char × Json))
  | .obj ms =>
      if ((ms.map Prod.fst).filter (· ∈ names.map String.toList)).Nodup then some ms else none
  | .arr vs => arrayFields names vs
  | _ => none

/-- The fields of a struct that is read from a `Value`, which has the last of several members of a name. -/
def valueFields (names : List String) : Json → Option (List (List Char × Json))
  | .obj ms => some ms.reverse
  | .arr vs => arrayFields names vs
  | _ => none

/-! ## Requests -/

/-- `JsonRpcRequest`. -/
structure JsonRpcRequest where
  jsonrpc : String
  id : Json
  method : String
  params : Json

namespace JsonRpcRequest

/-- `JsonRpcRequest` from JSON; `params` is `null` by default. -/
def ofJson (v : Json) : Option JsonRpcRequest := do
  let fields ← textFields ["jsonrpc", "id", "method", "params"] v
  let jsonrpc ← getField fields "jsonrpc" >>= asString
  let id ← getField fields "id"
  let method ← getField fields "method" >>= asString
  some ⟨jsonrpc, id, method, (getField fields "params").getD .null⟩

/-- `serde_json::from_slice`. -/
def fromSlice (serde : Serde) (body : Bytes) : Except ServerError JsonRpcRequest :=
  match Utf8.decode body >>= Json.parse >>= ofJson with
  | some req => .ok req
  | none => .error (.jsonParse (serde.bodyError body))

/-- `validate`. -/
def validate (req : JsonRpcRequest) : Except ServerError Unit :=
  if req.jsonrpc ≠ "2.0" then .error (.invalidRequest ("Invalid jsonrpc version: " ++ req.jsonrpc))
  else .ok ()

end JsonRpcRequest

/-- `SendTransactionParams`. -/
structure SendTransactionParams where
  transaction : String
  fanout : ℕ
  targetSlot : ℕ
  neighborFanout : Option ℕ

/-- `default_fanout`. -/
def defaultFanout : ℕ := 1

/-- `serde_json::from_value`; `neighbor_fanout` is `None` by default and for `null`. -/
def SendTransactionParams.fromValue (v : Json) : Option SendTransactionParams := do
  let fields ← valueFields ["transaction", "fanout", "target_slot", "neighbor_fanout"] v
  let transaction ← getField fields "transaction" >>= asString
  let fanout ← match getField fields "fanout" with
    | none => some defaultFanout
    | some v => asU64 v
  let targetSlot ← getField fields "target_slot" >>= asU64
  let neighborFanout ← match getField fields "neighbor_fanout" with
    | none | some .null => some none
    | some v => (asU64 v).map some
  some ⟨transaction, fanout, targetSlot, neighborFanout⟩

/-! ## Base64 -/

/-- `DECODE_TABLE`. -/
def decodeTable (b : UInt8) : UInt8 :=
  if 65 ≤ b ∧ b < 91 then b - 65
  else if 97 ≤ b ∧ b < 123 then b - 97 + 26
  else if 48 ≤ b ∧ b < 58 then b - 48 + 52
  else if b = 43 then 62
  else if b = 47 then 63
  else 255

/-- The error for a character. -/
def invalidCharacter (position : ℕ) : String :=
  "Invalid base64 character at position " ++ toString position

/-- The loop of `base64_decode` from position `i` on. -/
def base64Loop (i : ℕ) : Bytes → Except String Bytes
  | x :: y :: z :: w :: rest =>
      let a := decodeTable x
      let b := decodeTable y
      let c := decodeTable z
      let d := decodeTable w
      if a = 255 ∨ b = 255 then .error (invalidCharacter i)
      else if z ≠ 61 ∧ c = 255 then .error (invalidCharacter (i + 2))
      else if w ≠ 61 ∧ d = 255 then .error (invalidCharacter (i + 3))
      else do
        let output ← base64Loop (i + 4) rest
        .ok ([a <<< 2 ||| b >>> 4] ++ (if z ≠ 61 then [b <<< 4 ||| c >>> 2] else []) ++
          (if w ≠ 61 then [c <<< 6 ||| d] else []) ++ output)
  | _ => .ok []

/-- `base64_decode`. -/
def base64Decode (input : String) : Except String Bytes :=
  let inputBytes := Utf8.encode (Str.trim input.toList)
  let padding := (inputBytes.reverse.takeWhile (· == 61)).length
  if inputBytes.length - padding = 0 then .ok [] else base64Loop 0 inputBytes

/-- `decode_base64`. -/
def decodeBase64 (s : String) : Except ServerError Bytes :=
  match base64Decode s with
  | .ok bs => .ok bs
  | .error e => .error (.base64Decode e)

/-- The table inverts the standard alphabet, which has no padding character. -/
theorem decodeTable_alphabet : ∀ n < 64, decodeTable (Utf8.ascii (Base64.alphabet n)) = UInt8.ofNat n ∧
    Utf8.ascii (Base64.alphabet n) ≠ 61 ∧ UInt8.ofNat n ≠ 255 := by
  decide +kernel

theorem asciiPad : Utf8.ascii '=' = 61 := rfl

/-- A group of four characters that are not padding. -/
theorem base64Loop_group {n₁ n₂ n₃ n₄ : ℕ} (h₁ : n₁ < 64) (h₂ : n₂ < 64) (h₃ : n₃ < 64) (h₄ : n₄ < 64)
    {i : ℕ} {rest output : Bytes} (hrest : base64Loop (i + 4) rest = .ok output) :
    base64Loop i (([n₁, n₂, n₃, n₄].map fun n => Utf8.ascii (Base64.alphabet n)) ++ rest) =
      .ok ([UInt8.ofNat n₁ <<< 2 ||| UInt8.ofNat n₂ >>> 4, UInt8.ofNat n₂ <<< 4 ||| UInt8.ofNat n₃ >>> 2,
        UInt8.ofNat n₃ <<< 6 ||| UInt8.ofNat n₄] ++ output) := by
  obtain ⟨ht₁, -, hn₁⟩ := decodeTable_alphabet n₁ h₁
  obtain ⟨ht₂, -, hn₂⟩ := decodeTable_alphabet n₂ h₂
  obtain ⟨ht₃, he₃, hn₃⟩ := decodeTable_alphabet n₃ h₃
  obtain ⟨ht₄, he₄, hn₄⟩ := decodeTable_alphabet n₄ h₄
  simp only [List.map_cons, List.map_nil, List.cons_append, List.nil_append, base64Loop, ht₁, ht₂, ht₃, ht₄,
    hn₁, hn₂, hn₃, hn₄, or_self, and_false, if_false, ne_eq, he₃, he₄, not_false_eq_true, if_true, hrest]
  rfl

/-- The decoder inverts the encoding. -/
theorem base64Loop_encode (tx : Bytes) (i : ℕ) :
    base64Loop i ((Base64.encode tx).map Utf8.ascii) = .ok tx := by
  fun_induction Base64.encode tx generalizing i with
  | case1 => rfl
  | case2 a =>
    have ha := a.toNat_lt
    obtain ⟨ht₁, -, hn₁⟩ := decodeTable_alphabet (a.toNat / 4) (by omega)
    obtain ⟨ht₂, -, hn₂⟩ := decodeTable_alphabet (a.toNat % 4 * 16) (by omega)
    have hfirst := Base64.first_byte a (show 0 < 16 by decide)
    rw [Nat.add_zero] at hfirst
    simp only [List.map_cons, List.map_nil, base64Loop, ht₁, ht₂, hn₁, hn₂, asciiPad, or_self, if_false,
      ne_eq, not_true_eq_false, false_and, hfirst]
    rfl
  | case3 a b =>
    have ha := a.toNat_lt
    have hb := b.toNat_lt
    obtain ⟨ht₁, -, hn₁⟩ := decodeTable_alphabet (a.toNat / 4) (by omega)
    obtain ⟨ht₂, -, hn₂⟩ := decodeTable_alphabet (a.toNat % 4 * 16 + b.toNat / 16) (by omega)
    obtain ⟨ht₃, he₃, hn₃⟩ := decodeTable_alphabet (b.toNat % 16 * 4) (by omega)
    have hfirst := Base64.first_byte a (show b.toNat / 16 < 16 by omega)
    have hsecond := Base64.second_byte b (a.toNat % 4) (show 0 < 4 by decide)
    rw [Nat.add_zero] at hsecond
    simp only [List.map_cons, List.map_nil, base64Loop, ht₁, ht₂, ht₃, hn₁, hn₂, hn₃, asciiPad, or_self,
      if_false, ne_eq, not_true_eq_false, false_and, and_false, he₃, not_false_eq_true, if_true, hfirst,
      hsecond]
    rfl
  | case4 a b c l ih =>
    have ha := a.toNat_lt
    have hb := b.toNat_lt
    have hc := c.toNat_lt
    refine (base64Loop_group (by omega) (by omega) (by omega) (by omega) (ih (i + 4))).trans ?_
    rw [Base64.first_byte a (show b.toNat / 16 < 16 by omega),
      Base64.second_byte b _ (show c.toNat / 64 < 4 by omega), Base64.third_byte]
    rfl

theorem encode_base64 (tx : Bytes) :
    Utf8.encode (Base64.encode tx) = (Base64.encode tx).map Utf8.ascii :=
  Utf8.encode_of_ascii fun _ hc => (Base64.printable_of_mem_encode hc).2.1.trans (by decide)

theorem base64Decode_encode (tx : Bytes) : base64Decode (String.ofList (Base64.encode tx)) = .ok tx := by
  have htrim : Str.trim (String.ofList (Base64.encode tx)).toList = Base64.encode tx := by
    rw [String.toList_ofList]
    refine Str.trim_eq_self fun c hc => ?_
    obtain ⟨hlow, hhigh, -⟩ := Base64.printable_of_mem_encode hc
    exact Str.isWhitespace_of_printable hlow hhigh
  rw [base64Decode, htrim, encode_base64]
  split_ifs with hpadding
  · -- only the empty text is padding as a whole
    cases tx with
    | nil => rfl
    | cons a l =>
      exfalso
      obtain ⟨t, ht⟩ := Base64.encode_cons a l
      have hfirst := (decodeTable_alphabet (a.toNat / 4) (by have := a.toNat_lt; omega)).2.1
      generalize htext : (Base64.encode (a :: l)).map Utf8.ascii = text at hpadding
      have hmem : Utf8.ascii (Base64.alphabet (a.toNat / 4)) ∈ text.reverse := by
        rw [← htext, ht, List.mem_reverse]
        exact List.mem_cons_self
      have hall : text.reverse.takeWhile (· == 61) = text.reverse :=
        (List.takeWhile_prefix _).eq_of_length_le (by rw [List.length_reverse]; omega)
      rw [← hall] at hmem
      have hpad := List.all_eq_true.1 List.all_takeWhile _ hmem
      exact hfirst (beq_iff_eq.1 hpad)
  · exact base64Loop_encode tx 0

/-! ## The parsed request -/

/-- `ParsedRequest::from_rpc_request`. -/
def fromRpcRequest (serde : Serde) (req : JsonRpcRequest) : Except ServerError ParsedRequest := do
  req.validate
  if req.method ≠ "sendTransaction" then throw (.methodNotFound req.method)
  let params ← match SendTransactionParams.fromValue req.params with
    | some params => .ok params
    | none => .error (.invalidParams (serde.paramsError req.params))
  let transaction ← decodeBase64 params.transaction
  if params.fanout = 0 then throw (.invalidParams "fanout must be greater than 0")
  if params.neighborFanout.any (· > 8) then
    throw (.invalidParams "neighbor_fanout must be between 0 and 8")
  return ⟨String.ofList req.id.render, transaction, params.fanout, params.targetSlot,
    params.neighborFanout⟩

/-- A request that passes all checks. -/
theorem fromRpcRequest_ok (serde : Serde) {req : JsonRpcRequest} {params : SendTransactionParams}
    {transaction : Bytes} (hversion : req.jsonrpc = "2.0") (hmethod : req.method = "sendTransaction")
    (hparams : SendTransactionParams.fromValue req.params = some params)
    (htransaction : base64Decode params.transaction = .ok transaction) (hfanout : params.fanout ≠ 0)
    (hneighbor : params.neighborFanout.any (· > 8) = false) :
    fromRpcRequest serde req = .ok ⟨String.ofList req.id.render, transaction, params.fanout,
      params.targetSlot, params.neighborFanout⟩ := by
  have hvalid : req.validate = .ok () := if_neg (not_not.2 hversion)
  have hdecode : decodeBase64 params.transaction = .ok transaction := by
    rw [decodeBase64, htransaction]
  simp only [fromRpcRequest, hvalid, hmethod, hparams, ne_eq, not_true_eq_false, if_false, bind, Except.bind,
    hdecode, hfanout, hneighbor, Bool.false_eq_true, pure, Except.pure]

/-- `handle_request` up to the request id. -/
def parseRequest (serde : Serde) (buf : Bytes) : Except ServerError (ParsedRequest × Bool) := do
  let httpReq ← HttpRequest.parse buf
  if httpReq.method ≠ "POST" then throw (.invalidHttp ("Method not allowed: " ++ httpReq.method))
  let rpcReq ← JsonRpcRequest.fromSlice serde httpReq.body
  let parsed ← fromRpcRequest serde rpcReq
  return (parsed, httpReq.connectionClose)

/-- The parsers that the event loop uses. -/
def http (serde : Serde) (errorJson : ServerError → Bytes) : Http where
  isBodyComplete := HttpRequest.isBodyComplete
  parseRequest := parseRequest serde
  errorJson := errorJson

/-! ## Error responses -/

namespace ServerError

/-- The `Display` text. -/
def display : ServerError → String
  | io text => "I/O error: " ++ text
  | jsonParse text => "JSON parse error: " ++ text
  | invalidRequest text => "Invalid JSON-RPC request: " ++ text
  | methodNotFound text => "Method not found: " ++ text
  | invalidParams text => "Invalid parameters: " ++ text
  | internal text => "Internal error: " ++ text
  | queueFull => "Queue full"
  | invalidHttp text => "Invalid HTTP request: " ++ text
  | base64Decode text => "Base64 decode error: " ++ text
  | channelSend => "Channel send error"
  | channelReceive => "Channel receive error"

/-- `to_rpc_code`. -/
def toRpcCode : ServerError → Int32
  | jsonParse _ => -32700
  | invalidRequest _ => -32600
  | methodNotFound _ => -32601
  | invalidParams _ | base64Decode _ => -32602
  | _ => -32603

/-- `to_rpc_message`. -/
def toRpcMessage : ServerError → String
  | jsonParse _ => "Parse error"
  | invalidRequest _ => "Invalid Request"
  | methodNotFound _ => "Method not found"
  | invalidParams _ => "Invalid params"
  | base64Decode _ => "Invalid params"
  | _ => "Internal error"

/-- `to_rpc_data`. -/
def toRpcData (err : ServerError) : Option String := some err.display

end ServerError

/-- `JsonRpcError`. -/
structure JsonRpcError where
  code : Int32
  message : String
  data : Option String

/-- `from_server_error`. -/
def JsonRpcError.fromServerError (err : ServerError) : JsonRpcError :=
  ⟨err.toRpcCode, err.toRpcMessage, err.toRpcData⟩

/-- The JSON of an error; `data` is left out when it is `None`. -/
def JsonRpcError.toJson (err : JsonRpcError) : Json :=
  .obj ([("code".toList, .num (err.code < 0) err.code.toInt.natAbs []),
      ("message".toList, .str err.message.toList)] ++
    (err.data.map fun data => ("data".toList, Json.str data.toList)).toList)

/-- `JsonRpcResponse`. -/
structure JsonRpcResponse where
  jsonrpc : String
  id : Json
  result : Option Json
  error : Option JsonRpcError

/-- `from_error`. -/
def JsonRpcResponse.fromError (id : Json) (err : ServerError) : JsonRpcResponse :=
  ⟨"2.0", id, none, some (JsonRpcError.fromServerError err)⟩

/-- The JSON of a response; `result` and `error` are left out when they are `None`. -/
def JsonRpcResponse.toJson (resp : JsonRpcResponse) : Json :=
  .obj ([("jsonrpc".toList, .str resp.jsonrpc.toList), ("id".toList, resp.id)] ++
    (resp.result.map fun result => ("result".toList, result)).toList ++
    (resp.error.map fun error => ("error".toList, error.toJson)).toList)

/-- The body of `error_response`: the id is `null`. -/
def errorJson (err : ServerError) : Bytes :=
  Utf8.encode (JsonRpcResponse.fromError .null err).toJson.render

theorem ascii_renderNumber {negative : Bool} {n : ℕ} {c : Char}
    (hc : c ∈ Json.renderNumber negative n []) : c.toNat ≤ 127 := by
  rw [Json.renderNumber, List.append_nil] at hc
  rcases List.mem_append.1 hc with hc | hc
  · split_ifs at hc
    · rw [List.mem_singleton.1 hc]
      decide
    · cases hc
  · exact (Str.toNat_of_isDigit (Str.isDigit_of_mem hc)).2.trans (by decide)

/-- The body up to the code, whatever the error is. -/
theorem errorJson_eq (err : ServerError) : ∃ tail, errorJson err =
    Framing.literal "\x7b\"jsonrpc\":\"2.0\",\"id\":null," ++ (Framing.literal "\"error\"" ++
      (Framing.literal ":\x7b" ++ (Framing.literal "\"code\"" ++ (58 ::
        ((Json.renderNumber (err.toRpcCode < 0) err.toRpcCode.toInt.natAbs []).map Utf8.ascii ++
          44 :: tail))))) := by
  obtain ⟨rest, hrest⟩ : ∃ rest, (JsonRpcResponse.fromError .null err).toJson.render =
      "\x7b\"jsonrpc\":\"2.0\",\"id\":null,\"error\":\x7b\"code\":".toList ++
        (Json.renderNumber (err.toRpcCode < 0) err.toRpcCode.toInt.natAbs [] ++ ',' :: rest) := by
    refine ⟨Json.quote "message".toList ++ ':' :: (Json.quote err.toRpcMessage.toList ++
      (Json.renderMoreMembers [("data".toList, .str err.display.toList)] ++ ['}', '}'])), ?_⟩
    simp only [JsonRpcResponse.fromError, JsonRpcResponse.toJson, JsonRpcError.fromServerError,
      JsonRpcError.toJson, ServerError.toRpcData, Option.map_none, Option.map_some, Option.toList_none,
      Option.toList_some, List.append_nil, List.cons_append, List.nil_append, Json.render,
      Json.renderMembers, Json.renderMoreMembers, List.append_assoc]
    rfl
  have hfront : "\x7b\"jsonrpc\":\"2.0\",\"id\":null,\"error\":\x7b\"code\":".toList.map Utf8.ascii =
      Framing.literal "\x7b\"jsonrpc\":\"2.0\",\"id\":null," ++ (Framing.literal "\"error\"" ++
        (Framing.literal ":\x7b" ++ (Framing.literal "\"code\"" ++ [58]))) := rfl
  have hcomma : Utf8.encode (',' :: rest) = 44 :: Utf8.encode rest := rfl
  refine ⟨Utf8.encode rest, ?_⟩
  rw [errorJson, hrest, Utf8.encode_append, Utf8.encode_append, hcomma,
    Utf8.encode_of_ascii fun _ hc => ascii_renderNumber hc, Utf8.encode_of_isAscii (by decide), hfront]
  simp only [List.append_assoc, List.cons_append, List.nil_append]

end Land.Server
