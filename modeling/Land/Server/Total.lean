import Land.Http.Checked
import Land.Server.Incremental

/-!
# The front end on any bytes

`is_request_complete`, `is_body_complete` and `HttpRequest::parse` with every index, slice, sum, product and
difference checked.  `parse` never panics, whatever the bytes are.  The other two panic exactly if the digits of
the first `Content-Length` denote a number that is no `usize` (`frontEndTotal_iff`).
-/

namespace Land.Server.Total

open Checked

/-- `find_headers_end`. -/
def findHeadersEnd (buf : Bytes) : Run (Option ℕ) :=
  findLoop [13, 10, 13, 10] buf (List.range (buf.length - 3))

/-- `find_content_length_bytes`. -/
def findContentLengthBytes (headers : Bytes) : Run (Option ℕ) := Framing.searchContentLength headers

/-- `HttpRequest::is_body_complete`. -/
def isBodyComplete (buf : Bytes) (headersEnd : ℕ) : Run Bool := do
  let bodyStart ← add usize headersEnd 4
  let headersBytes ← slice buf 0 headersEnd
  let contentLength ← findContentLengthBytes headersBytes
  .ok (Framing.bodyAvailable buf bodyStart contentLength)

/-- `is_request_complete`. -/
def isRequestComplete (c : Connection) : Run (Connection × Bool) :=
  let bufLen := c.recvBuf.length
  match c.headersEndCache with
  | some headersEnd => do
      let complete ← isBodyComplete c.recvBuf headersEnd
      .ok (c, complete)
  | none =>
      if bufLen < 4 then .ok (c, false)
      else do
        let start := c.lastScannedPos - 3
        match ← findLoop Connection.headersEnd c.recvBuf (List.range' start (bufLen - 3 - start)) with
        | some i =>
            let complete ← isBodyComplete c.recvBuf i
            .ok ({ c with headersEndCache := some i, lastScannedPos := bufLen }, complete)
        | none => .ok ({ c with lastScannedPos := bufLen }, false)

/-- A function of the parser: it returns a `ServerError`, or it panics. -/
abbrev ParseM := ExceptT ServerError Run

/-- `parse_request_line`. -/
def parseRequestLine (line : List Char) : ParseM (String × String) := do
  let parts := Str.splitWhitespace line
  if parts.length < 3 then
    throw (.invalidHttp ("Invalid request line: " ++ String.ofList line))
  let method ← check (index parts 0)
  let path ← check (index parts 1)
  return (String.ofList method, String.ofList path)

/-- `str::find` for a character: a position in bytes. -/
def findChar (c : Char) (line : List Char) : Option ℕ :=
  if c ∈ line then some (Utf8.encode (line.takeWhile (· != c))).length else none

/-- A text cut at a position in bytes, which has to be the boundary of a character. -/
def splitStr : List Char → ℕ → Run (List Char × List Char)
  | line, 0 => .ok ([], line)
  | [], _ + 1 => .error .outOfRange
  | c :: line, i + 1 =>
      let width := (String.utf8EncodeChar c).length
      if width ≤ i + 1 then do
        let (front, rest) ← splitStr line (i + 1 - width)
        .ok (c :: front, rest)
      else .error .outOfRange

/-- `parse_header_line`. -/
def parseHeaderLine (line : List Char) : ParseM (List Char × List Char) :=
  match findChar ':' line with
  | none => throw (.invalidHttp ("Invalid header: " ++ String.ofList line))
  | some pos => do
      let (name, _) ← check (splitStr line pos)
      let valuePos ← check (add usize pos 1)
      let (_, value) ← check (splitStr line valuePos)
      return (Str.trim name, Str.trim value)

/-- One iteration of the loop over the header lines. -/
def parseLine (acc : Headers) (line : List Char) : ParseM Headers :=
  if line.isEmpty then return acc
  else do
    let (name, value) ← parseHeaderLine line
    acc.add name value

/-- The extraction of the body. -/
def extractBody (buf : Bytes) (bodyStart contentLength : ℕ) : ParseM Bytes :=
  if bodyStart < buf.length then do
    let available ← check (sub buf.length bodyStart)
    if available ≥ contentLength then
      let bodyEnd ← check (add usize bodyStart contentLength)
      check (slice buf bodyStart bodyEnd)
    else throw (.invalidHttp
      ("Incomplete body: expected " ++ toString contentLength ++ ", got " ++ toString available))
  else if contentLength = 0 then return []
  else throw (.invalidHttp "Missing body")

/-- The part of `parse` after the headers were split into lines. -/
def parseLines (buf : Bytes) (bodyStart : ℕ) : List (List Char) → ParseM HttpRequest
  | [] => throw (.invalidHttp "Empty request")
  | requestLine :: lines => do
      let (method, path) ← parseRequestLine requestLine
      let acc ← lines.foldlM parseLine {}
      let body ← extractBody buf bodyStart acc.contentLength
      return ⟨method, path, acc.headers, body, acc.connectionClose⟩

/-- `HttpRequest::parse`. -/
def parse (buf : Bytes) : ParseM HttpRequest := do
  match ← check (findHeadersEnd buf) with
  | none => throw (.invalidHttp "Incomplete HTTP request")
  | some headersEnd =>
      let headersBytes ← check (slice buf 0 headersEnd)
      let bodyStart ← check (add usize headersEnd 4)
      match Utf8.decode headersBytes with
      | none => throw (.invalidHttp "Invalid UTF-8 in headers")
      | some text => parseLines buf bodyStart (Str.lines text)

/-! ### The parser -/

theorem parseRequestLine_safe (line : List Char) : Safe (parseRequestLine line) (Server.parseRequestLine line) := by
  rw [parseRequestLine, Server.parseRequestLine]
  rcases Str.splitWhitespace line with _ | ⟨method, _ | ⟨path, _ | ⟨version, rest⟩⟩⟩
  · exact safe_throw _
  · exact safe_throw _
  · exact safe_throw _
  · exact safe_pure _

/-- The boundary behind a front part. -/
theorem splitStr_append (front rest : List Char) :
    splitStr (front ++ rest) (Utf8.encode front).length = .ok (front, rest) := by
  induction front with
  | nil => cases rest <;> rfl
  | cons c front ih =>
    have hpos := (Utf8.length_encodeChar c).1
    rw [Utf8.encode_cons, List.length_append]
    obtain ⟨i, hi⟩ : ∃ i, (String.utf8EncodeChar c).length + (Utf8.encode front).length = i + 1 :=
      ⟨_, (Nat.succ_pred_eq_of_pos (by omega)).symm⟩
    have hrest : i + 1 - (String.utf8EncodeChar c).length = (Utf8.encode front).length := by omega
    rw [hi, List.cons_append, splitStr, if_pos (by omega), hrest, ih]
    rfl

theorem parseHeaderLine_safe {line : List Char} (hlen : (Utf8.encode line).length < usize) :
    Safe (parseHeaderLine line) (Server.parseHeaderLine line) := by
  by_cases hcolon : ':' ∈ line
  · obtain ⟨name, value, rfl, hname⟩ := List.eq_append_cons_of_mem hcolon
    -- the position of the colon and the one behind it are boundaries
    have hpos : findChar ':' (name ++ ':' :: value) = some (Utf8.encode name).length := by
      rw [findChar, if_pos hcolon, takeWhile_ne_colon hname]
    have hcut : splitStr (name ++ ':' :: value) ((Utf8.encode name).length + 1) = .ok (name ++ [':'], value) := by
      have h := splitStr_append (name ++ [':']) value
      rwa [List.append_assoc, List.singleton_append, Utf8.encode_append, List.length_append] at h
    have hsum : (Utf8.encode name).length + 1 < usize := by
      rw [Utf8.encode_append, Utf8.encode_cons, List.length_append, List.length_append] at hlen
      have hone := (Utf8.length_encodeChar ':').1
      omega
    rw [parseHeaderLine, hpos, parseHeaderLine_colon hname]
    exact safe_check (splitStr_append name (':' :: value)) (safe_check (add_of_lt hsum)
      (safe_check hcut (safe_pure _)))
  · rw [parseHeaderLine, Server.parseHeaderLine, findChar, if_neg hcolon, if_neg hcolon]
    exact safe_throw _

theorem parseLine_safe (acc : Headers) {line : List Char} (hlen : (Utf8.encode line).length < usize) :
    Safe (parseLine acc line) (acc.parseLine line) := by
  rw [parseLine, Headers.parseLine]
  split_ifs with hempty
  · exact safe_pure acc
  · exact (parseHeaderLine_safe hlen).bind fun header _ => safe_monadLift (acc.add header.1 header.2)

theorem extractBody_safe {buf : Bytes} (hbuf : buf.length < usize) (bodyStart contentLength : ℕ) :
    Safe (extractBody buf bodyStart contentLength) (Server.extractBody buf bodyStart contentLength) := by
  rw [extractBody, Server.extractBody]
  by_cases hstart : bodyStart < buf.length
  · rw [if_pos hstart, if_pos hstart]
    apply safe_check (sub_of_le hstart.le)
    by_cases hlength : buf.length - bodyStart ≥ contentLength
    · have hend : bodyStart + contentLength ≤ buf.length := by omega
      have hslice : (buf.take (bodyStart + contentLength)).drop bodyStart =
          (buf.drop bodyStart).take contentLength := by
        rw [List.drop_take, Nat.add_sub_cancel_left]
      rw [if_pos hlength, if_pos hlength, ← hslice]
      apply safe_check (add_of_lt (hend.trans_lt hbuf))
      rw [slice_of_le (Nat.le_add_right _ _) hend]
      rfl
    · rw [if_neg hlength, if_neg hlength]
      exact safe_throw _
  · rw [if_neg hstart, if_neg hstart]
    split_ifs
    · exact safe_pure []
    · exact safe_throw _

/-- A line is no longer than the text. -/
theorem length_encode_line {text line : List Char} (h : line ∈ Str.lines text) :
    (Utf8.encode line).length ≤ (Utf8.encode text).length := by
  have hstrip (l : List Char) : (Utf8.encode (Str.stripCr l)).length ≤ (Utf8.encode l).length := by
    unfold Str.stripCr
    split_ifs with hlast
    · have hne : l ≠ [] := by
        rintro rfl
        cases hlast
      conv_rhs => rw [← List.dropLast_append_getLast hne, Utf8.encode_append, List.length_append]
      exact Nat.le_add_right _ _
    · exact le_rfl
  have hfrom (s l : List Char) (hl : line ∈ Str.linesFrom l s) :
      (Utf8.encode line).length ≤ (Utf8.encode (l ++ s)).length := by
    induction s generalizing l with
    | nil =>
      rw [Str.linesFrom] at hl
      split_ifs at hl
      · cases hl
      · rw [List.mem_singleton.1 hl, List.append_nil]
    | cons c s ih =>
      rw [Str.linesFrom] at hl
      split_ifs at hl with hc
      · rcases List.mem_cons.1 hl with rfl | hmem
        · rw [Utf8.encode_append, List.length_append]
          exact le_add_right (hstrip l)
        · have hle := ih [] hmem
          rw [List.nil_append] at hle
          rw [Utf8.encode_append, Utf8.encode_cons, List.length_append, List.length_append]
          omega
      · have hle := ih (l ++ [c]) hl
        rwa [List.append_assoc, List.singleton_append] at hle
  exact hfrom text [] h

theorem parseLines_safe {buf : Bytes} (hbuf : buf.length < usize) (bodyStart : ℕ) {lines : List (List Char)}
    (hlines : ∀ line ∈ lines, (Utf8.encode line).length < usize) :
    Safe (parseLines buf bodyStart lines) (HttpRequest.parseLines buf bodyStart lines) := by
  cases lines with
  | nil => exact safe_throw _
  | cons requestLine lines =>
    rw [parseLines, HttpRequest.parseLines]
    refine (parseRequestLine_safe requestLine).bind fun parts _ => ?_
    refine (safe_foldlM (fun acc line hline => ?_) ({} : Headers)).bind fun acc _ => ?_
    · exact parseLine_safe acc (hlines line (List.mem_cons_of_mem requestLine hline))
    · exact (extractBody_safe hbuf bodyStart acc.contentLength).bind fun body _ => safe_pure _

/-- `HttpRequest::parse` does not panic. -/
theorem parse_safe {buf : Bytes} (hbuf : buf.length < usize) : Safe (parse buf) (HttpRequest.parse buf) := by
  rw [parse, HttpRequest.parse]
  refine safe_check (Framing.findLoop_headersEnd hbuf) ?_
  cases hend : Framing.findHeadersEnd buf with
  | none => exact safe_throw _
  | some headersEnd =>
    have hle := Framing.headersEnd_le hend
    refine safe_check (slice_zero (by omega)) (safe_check (add_of_lt (hle.trans_lt hbuf)) ?_)
    dsimp only
    cases htext : Utf8.decode (buf.take headersEnd) with
    | none => exact safe_throw _
    | some text =>
      apply parseLines_safe hbuf
      intro line hline
      have hline := length_encode_line hline
      rw [Utf8.encode_of_decode htext, List.length_take] at hline
      omega

/-! ### Completeness -/

variable {c : Connection}

theorem isBodyComplete_eq {buf : Bytes} (hbuf : buf.length + 15 < usize) {headersEnd : ℕ}
    (h : Framing.findHeadersEnd buf = some headersEnd) :
    isBodyComplete buf headersEnd =
      (Framing.foundLength (Framing.lengthDigits (buf.take headersEnd)) >>= fun contentLength =>
        .ok (Framing.bodyAvailable buf (headersEnd + 4) contentLength)) := by
  have hle := Framing.headersEnd_le h
  rw [isBodyComplete, add_of_lt (by omega), ok_bind, slice_zero (by omega), ok_bind, findContentLengthBytes,
    Framing.searchContentLength_take hbuf]

/-- The digits of the `Content-Length` before the end of the headers fit. -/
def Fits (buf : Bytes) (headersEnd : ℕ) : Prop :=
  ∀ digits ∈ Framing.lengthDigits (buf.take headersEnd), decimal 0 digits < usize

theorem isBodyComplete_of_fits {buf : Bytes} (hbuf : buf.length + 15 < usize) {headersEnd : ℕ}
    (h : Framing.findHeadersEnd buf = some headersEnd) (hfits : Fits buf headersEnd) :
    isBodyComplete buf headersEnd = .ok (HttpRequest.isBodyComplete buf headersEnd) := by
  rw [isBodyComplete_eq hbuf h, Framing.foundLength_of_fits hfits, ok_bind, Framing.bodyAvailable_eq hfits]
  rfl

theorem isBodyComplete_of_not_fits {buf : Bytes} (hbuf : buf.length + 15 < usize) {headersEnd : ℕ}
    (h : Framing.findHeadersEnd buf = some headersEnd) (hfits : ¬ Fits buf headersEnd) :
    isBodyComplete buf headersEnd = .error .overflow := by
  rw [isBodyComplete_eq hbuf h, Framing.foundLength_of_not_fits hfits, error_bind]

/-- `is_request_complete`, in terms of the first end of the headers. -/
theorem isRequestComplete_eq (http : Http) (h : c.Scanned) (hbuf : c.recvBuf.length + 15 < usize) :
    isRequestComplete c =
      match Framing.findHeadersEnd c.recvBuf with
      | some headersEnd => do
          let complete ← isBodyComplete c.recvBuf headersEnd
          .ok ((c.isRequestComplete http).1, complete)
      | none => .ok (c.isRequestComplete http) := by
  unfold isRequestComplete Connection.isRequestComplete
  cases hcache : c.headersEndCache with
  | some headersEnd =>
    dsimp only
    rw [h.cached headersEnd hcache]
  | none =>
    dsimp only
    by_cases hshort : c.recvBuf.length < 4
    · rw [if_pos hshort, if_pos hshort,
        show Framing.findHeadersEnd c.recvBuf = none from Scan.find_eq_none_of_length_lt hshort]
    · have hloop : findLoop Connection.headersEnd c.recvBuf
          (List.range' (c.lastScannedPos - 3) (c.recvBuf.length - 3 - (c.lastScannedPos - 3))) =
          .ok (Framing.findHeadersEnd c.recvBuf) := by
        rw [findLoop_eq (by omega), ← h.find?_eq hcache]
        · rfl
        · intro i hi
          obtain ⟨hle, hlt⟩ := List.mem_range'_1.1 hi
          simp only [Connection.headersEnd, List.length_cons, List.length_nil]
          omega
      rw [if_neg hshort, if_neg hshort, hloop, ok_bind, h.find?_eq hcache]
      cases Framing.findHeadersEnd c.recvBuf <;> rfl

/-- None of the functions panics, and the length that is found is the number that the digits denote. -/
def FrontEndTotal (c : Connection) : Prop :=
  (∃ r, isRequestComplete c = .ok r) ∧ (∃ r, (parse c.recvBuf).run = .ok r) ∧
  ∀ headersEnd, Framing.findHeadersEnd c.recvBuf = some headersEnd →
    (∃ complete, isBodyComplete c.recvBuf headersEnd = .ok complete) ∧
    findContentLengthBytes (c.recvBuf.take headersEnd) =
      .ok ((Framing.lengthDigits (c.recvBuf.take headersEnd)).map (decimal 0))

theorem isRequestComplete_of_fits (http : Http) (hhttp : http.isBodyComplete = HttpRequest.isBodyComplete)
    (h : c.Scanned) (hbuf : c.recvBuf.length + 15 < usize) (hfits : Framing.LengthFits c.recvBuf) :
    isRequestComplete c = .ok (c.isRequestComplete http) := by
  rw [isRequestComplete_eq http h hbuf]
  cases hend : Framing.findHeadersEnd c.recvBuf with
  | none => rfl
  | some headersEnd =>
    have hverdict := (Connection.isRequestComplete_spec http h).1
    rw [requestComplete, hend, hhttp] at hverdict
    dsimp only at hverdict ⊢
    rw [isBodyComplete_of_fits hbuf hend (hfits headersEnd hend), ok_bind, ← hverdict]

theorem isRequestComplete_of_not_fits (http : Http) (h : c.Scanned) (hbuf : c.recvBuf.length + 15 < usize)
    (hfits : ¬ Framing.LengthFits c.recvBuf) : isRequestComplete c = .error .overflow := by
  obtain ⟨headersEnd, hend, hnot⟩ := Framing.exists_of_not_lengthFits hfits
  rw [isRequestComplete_eq http h hbuf, hend]
  dsimp only
  rw [isBodyComplete_of_not_fits hbuf hend hnot, error_bind]

theorem frontEndTotal_of_scanned (http : Http) (hhttp : http.isBodyComplete = HttpRequest.isBodyComplete)
    (h : c.Scanned) (hbuf : c.recvBuf.length + 15 < usize) :
    FrontEndTotal c ↔ Framing.LengthFits c.recvBuf := by
  constructor
  · rintro ⟨⟨r, hr⟩, -, -⟩
    by_contra hfits
    rw [isRequestComplete_of_not_fits http h hbuf hfits] at hr
    cases hr
  · intro hfits
    refine ⟨⟨_, isRequestComplete_of_fits http hhttp h hbuf hfits⟩, ⟨_, parse_safe (by omega)⟩,
      fun headersEnd hend => ⟨⟨_, isBodyComplete_of_fits hbuf hend (hfits headersEnd hend)⟩, ?_⟩⟩
    rw [findContentLengthBytes, Framing.searchContentLength_take hbuf,
      Framing.foundLength_of_fits (hfits headersEnd hend)]

/-- Whatever bytes have arrived, in whatever pieces: the front end does not panic, and finds the exact length, exactly
if the digits of the first `Content-Length` denote a `usize`.  Then it computes what the model without checks does.
If not, `is_request_complete` overflows; `parse` is safe also then. -/
theorem frontEndTotal_iff (serde : Serde) (errorJson : ServerError → Bytes)
    (hc : (receiving (http serde errorJson)).Reachable c)
    (hlen : c.recvBuf.length ≤ maxRequestSize + 8192) :
    (FrontEndTotal c ↔ Framing.LengthFits c.recvBuf) ∧
    (parse c.recvBuf).run = .ok (HttpRequest.parse c.recvBuf) ∧
    (Framing.LengthFits c.recvBuf → isRequestComplete c = .ok (c.isRequestComplete (http serde errorJson))) ∧
    (¬ Framing.LengthFits c.recvBuf → isRequestComplete c = .error .overflow) := by
  have h := scanned_of_reachable hc
  have hbuf : c.recvBuf.length + 15 < usize :=
    lt_of_le_of_lt (Nat.add_le_add_right hlen 15) (by decide)
  exact ⟨frontEndTotal_of_scanned (http serde errorJson) rfl h hbuf, parse_safe (by omega),
    isRequestComplete_of_fits (http serde errorJson) rfl h hbuf,
    isRequestComplete_of_not_fits (http serde errorJson) h hbuf⟩

/-- A connection that has received some bytes in one piece. -/
def received (buf : Bytes) : Connection :=
  (Connection.new ⟨[], []⟩ [] [] []).receive (http ⟨fun _ => "", fun _ => ""⟩ fun _ => []) (.chunk buf)

theorem received_reachable (buf : Bytes) :
    (receiving (http ⟨fun _ => "", fun _ => ""⟩ fun _ => [])).Reachable (received buf) :=
  System.Reachable.step (.init (.inl ⟨⟨[], []⟩, [], [], rfl⟩)) (.chunk buf) rfl

/-- A request with the largest length that is a `usize`. -/
theorem frontEndTotal_iff_largest :
    FrontEndTotal (received (Framing.literal
      "POST / HTTP/1.1\r\nContent-Length: 18446744073709551615\r\n\r\n")) :=
  (frontEndTotal_iff _ _ (received_reachable _) (by decide +kernel)).1.2
    ((@Framing.lengthFits_iff _ 53 (by decide +kernel) (Framing.literal "18446744073709551615")
      (by decide +kernel)).2 (by decide +kernel))

/-- The next length overflows. -/
theorem not_frontEndTotal_overflow :
    (receiving (http ⟨fun _ => "", fun _ => ""⟩ fun _ => [])).Reachable (received (Framing.literal
      "POST / HTTP/1.1\r\nContent-Length: 18446744073709551616\r\n\r\n")) ∧
    ¬ FrontEndTotal (received (Framing.literal
      "POST / HTTP/1.1\r\nContent-Length: 18446744073709551616\r\n\r\n")) := by
  refine ⟨received_reachable _, fun htotal => ?_⟩
  have hfits := (frontEndTotal_of_scanned (http ⟨fun _ => "", fun _ => ""⟩ fun _ => []) rfl
    (scanned_of_reachable (received_reachable _)) (by decide +kernel)).1 htotal
  rw [@Framing.lengthFits_iff _ 53 (by decide +kernel) (Framing.literal "18446744073709551616")
    (by decide +kernel)] at hfits
  exact absurd hfits (by decide +kernel)

end Land.Server.Total
