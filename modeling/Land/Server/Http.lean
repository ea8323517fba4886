import Land.Http.Framing
import Land.Lib.Str
import Land.Server.Message

/-!
# Parsing of HTTP requests

`HttpRequest` of `server/src/http.rs`.  The header bytes are decoded to text and split into lines; the
parser on a message is the parser on its lines (`parse_message`).
-/

namespace Land.Server

/-- `HttpRequest`. -/
structure HttpRequest where
  method : String
  path : String
  headers : List (String × String)
  body : Bytes
  connectionClose : Bool
  deriving DecidableEq

/-- `parse_request_line`. -/
def parseRequestLine (line : List Char) : Except ServerError (String × String) :=
  match Str.splitWhitespace line with
  | method :: path :: _ :: _ => .ok (String.ofList method, String.ofList path)
  | _ => .error (.invalidHttp ("Invalid request line: " ++ String.ofList line))

/-- `parse_header_line`. -/
def parseHeaderLine (line : List Char) : Except ServerError (List Char × List Char) :=
  if ':' ∈ line then
    .ok (Str.trim (line.takeWhile (· != ':')), Str.trim ((line.dropWhile (· != ':')).drop 1))
  else .error (.invalidHttp ("Invalid header: " ++ String.ofList line))

/-- The variables of the loop over the header lines. -/
structure Headers where
  headers : List (String × String) := []
  contentLength : ℕ := 0
  connectionClose : Bool := false

/-- The body of the loop, for a header that was split. -/
def Headers.add (acc : Headers) (name value : List Char) : Except ServerError Headers :=
  let headers := acc.headers ++ [(String.ofList name, String.ofList value)]
  if Str.eqIgnoreAsciiCase name "content-length".toList then
    match Str.parseUnsigned 64 value with
    | some contentLength => .ok { acc with headers := headers, contentLength := contentLength }
    | none => .error (.invalidHttp "Invalid Content-Length")
  else if Str.eqIgnoreAsciiCase name "connection".toList then
    .ok { acc with
      headers := headers, connectionClose := Str.eqIgnoreAsciiCase value "close".toList }
  else .ok { acc with headers := headers }

/-- One iteration of the loop over the header lines. -/
def Headers.parseLine (acc : Headers) (line : List Char) : Except ServerError Headers :=
  if line.isEmpty then .ok acc
  else do
    let (name, value) ← parseHeaderLine line
    acc.add name value

/-- The extraction of the body. -/
def extractBody (buf : Bytes) (bodyStart contentLength : ℕ) : Except ServerError Bytes :=
  if bodyStart < buf.length then
    let available := buf.length - bodyStart
    if available ≥ contentLength then .ok ((buf.drop bodyStart).take contentLength)
    else .error (.invalidHttp
      ("Incomplete body: expected " ++ toString contentLength ++ ", got " ++ toString available))
  else if contentLength = 0 then .ok []
  else .error (.invalidHttp "Missing body")

namespace HttpRequest

/-- The part of `parse` after the headers were split into lines. -/
def parseLines (buf : Bytes) (bodyStart : ℕ) : List (List Char) → Except ServerError HttpRequest
  | [] => .error (.invalidHttp "Empty request")
  | requestLine :: lines => do
      let (method, path) ← parseRequestLine requestLine
      let acc ← lines.foldlM Headers.parseLine {}
      let body ← extractBody buf bodyStart acc.contentLength
      .ok ⟨method, path, acc.headers, body, acc.connectionClose⟩

/-- `HttpRequest::parse`. -/
def parse (buf : Bytes) : Except ServerError HttpRequest :=
  match Framing.findHeadersEnd buf with
  | none => .error (.invalidHttp "Incomplete HTTP request")
  | some headersEnd =>
      match Utf8.decode (buf.take headersEnd) with
      | none => .error (.invalidHttp "Invalid UTF-8 in headers")
      | some text => parseLines buf (headersEnd + 4) (Str.lines text)

/-- `HttpRequest::is_body_complete`. -/
def isBodyComplete (buf : Bytes) (headersEnd : ℕ) : Bool := Framing.isBodyComplete buf headersEnd

/-- `HttpRequest::is_complete`. -/
def isComplete (buf : Bytes) : Bool := Framing.isComplete buf

end HttpRequest

/-! ## The bytes of texts -/

theorem bytes_eq (text : String) : bytes text = Utf8.encode text.toList := Utf8.toList_toUTF8 text

theorem bytes_toString (n : ℕ) : bytes (toString n) = Utf8.encode (Nat.toDigits 10 n) := by
  rw [bytes_eq, Nat.toString_eq_ofList_toDigits, String.toList_ofList]

theorem length_bytes_le (text : String) : (bytes text).length ≤ 4 * text.toList.length := by
  rw [bytes_eq]
  exact Utf8.length_encode_le _

theorem length_bytes_u64 (n : UInt64) : (bytes (toString n.toNat)).length ≤ 80 := by
  have hdigits := Nat.toDigits_length 10 n.toNat 20 (by decide) (n.toNat_lt.trans (by decide))
  have hlen := Utf8.length_encode_le (Nat.toDigits 10 n.toNat)
  rw [bytes_toString]
  omega

/-- The digits of a number are ASCII characters. -/
theorem encode_toDigits (n : ℕ) :
    Utf8.encode (Nat.toDigits 10 n) = (Nat.toDigits 10 n).map Utf8.ascii :=
  Utf8.encode_of_ascii fun _ hc => (Str.toNat_of_isDigit (Str.isDigit_of_mem hc)).2.trans (by decide)

/-! ## Parsing a message -/

theorem ne_colon {name : List Char} (hname : ':' ∉ name) : ∀ c ∈ name, (c != ':') = true :=
  fun c hc => bne_iff_ne.2 fun h => hname (h ▸ hc)

theorem takeWhile_ne_colon {name : List Char} (hname : ':' ∉ name) (value : List Char) :
    (name ++ ':' :: value).takeWhile (· != ':') = name := by
  rw [List.takeWhile_append_of_pos (ne_colon hname), List.takeWhile_cons_of_neg (by decide), List.append_nil]

/-- A header line is split at its first colon. -/
theorem parseHeaderLine_colon {name : List Char} (hname : ':' ∉ name) (value : List Char) :
    parseHeaderLine (name ++ ':' :: value) = .ok (Str.trim name, Str.trim value) := by
  have hmem : ':' ∈ name ++ ':' :: value := List.mem_append_right _ List.mem_cons_self
  have hdrop : (name ++ ':' :: value).dropWhile (· != ':') = ':' :: value := by
    rw [List.dropWhile_append_of_pos (ne_colon hname), List.dropWhile_cons_of_neg (by decide)]
  rw [parseHeaderLine, if_pos hmem, takeWhile_ne_colon hname, hdrop, List.drop_one, List.tail_cons]

theorem Headers.parseLine_colon (acc : Headers) (name : List Char) (hname : ':' ∉ name)
    (value : List Char) :
    acc.parseLine (name ++ ':' :: value) = acc.add (Str.trim name) (Str.trim value) := by
  have hempty : (name ++ ':' :: value).isEmpty = false := by
    cases name <;> rfl
  rw [Headers.parseLine, hempty, if_neg Bool.false_ne_true, parseHeaderLine_colon hname]
  rfl

theorem encode_intercalate (ls : List (List Char)) :
    Utf8.encode (['\r', '\n'].intercalate ls) = [13, 10].intercalate (ls.map Utf8.encode) := by
  induction ls with
  | nil => rfl
  | cons l ls ih =>
    cases ls with
    | nil => rw [List.intercalate_singleton, List.map_singleton, List.intercalate_singleton]
    | cons l' ls =>
      rw [List.intercalate_cons_cons, Utf8.encode_append, Utf8.encode_append, ih]
      exact List.intercalate_cons_cons.symm

/-- A message whose lines are texts is parsed line by line. -/
theorem parse_message (m : Framing.Message) {ls : List (List Char)} (hm : m.lines = ls.map Utf8.encode)
    (hls : ∀ l ∈ ls, '\n' ∉ l) :
    HttpRequest.parse m.bytes = HttpRequest.parseLines m.bytes (m.head.length + 4) ls := by
  have hhead : m.bytes.take m.head.length = Utf8.encode (['\r', '\n'].intercalate ls) := by
    rw [Framing.Message.bytes, List.take_left, Framing.Message.head, hm, encode_intercalate]
  have hne : ls ≠ [] := by
    rintro rfl
    exact m.lines_ne_nil hm
  have hline : ∀ l ∈ ls, '\n' ∉ l ∧ l ≠ [] := by
    refine fun l hl => ⟨hls l hl, ?_⟩
    rintro rfl
    refine m.line_ne_nil [] ?_ rfl
    rw [hm]
    exact List.mem_map.2 ⟨[], hl, rfl⟩
  simp only [HttpRequest.parse, m.findHeadersEnd_bytes, hhead, Utf8.decode_encode,
    Str.lines_intercalate hne hline]

/-- The body of a message with the right length. -/
theorem extractBody_message (m : Framing.Message) :
    extractBody m.bytes (m.head.length + 4) m.body.length = .ok m.body := by
  rw [extractBody, m.drop_bytes, m.length_bytes]
  split_ifs with hstart hzero
  · refine (if_pos (by omega)).trans ?_
    rw [List.take_length]
  · rw [List.length_eq_zero_iff.1 hzero]
  · omega

end Land.Server
