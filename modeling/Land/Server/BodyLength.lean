import Land.Http.ContentLength
import Land.Server.Http

/-!
# The two readings of `Content-Length`

`is_body_complete` reads the length from the raw bytes, `HttpRequest::parse` from the trimmed header
lines.  On a buffer whose headers `parse` accepts, both readings as functions of the lines, and where
they agree.
-/

namespace Land.Server

/-! ## The length that `parse` uses -/

/-- The length in a header line. -/
def headerLength (line : List Char) : Option ℕ :=
  if Str.eqIgnoreAsciiCase (Str.trim (line.takeWhile (· != ':'))) "content-length".toList then
    Str.parseUnsigned 64 (Str.trim ((line.dropWhile (· != ':')).drop 1))
  else none

/-- What `parse` uses: the last header line with the name. -/
def parsedLength (ls : List (List Char)) : ℕ := (ls.filterMap headerLength).getLast?.getD 0

theorem contentLength_parseLine {acc acc' : Headers} {line : List Char} (h : acc.parseLine line = .ok acc') :
    acc'.contentLength = (headerLength line).getD acc.contentLength := by
  unfold Headers.parseLine at h
  split_ifs at h with hempty
  · cases h
    rw [List.isEmpty_iff.1 hempty]
    rfl
  · unfold parseHeaderLine at h
    split_ifs at h
    · simp only [bind, Except.bind, Headers.add] at h
      unfold headerLength
      split_ifs at h ⊢ with hname
      · split at h
        · next n hn =>
          cases h
          rw [hn]
          rfl
        · cases h
      · cases h
        rfl
      · cases h
        rfl
    · cases h

/-- The loop keeps the last length. -/
theorem contentLength_foldlM {ls : List (List Char)} {acc acc' : Headers}
    (h : ls.foldlM Headers.parseLine acc = .ok acc') :
    acc'.contentLength = (ls.filterMap headerLength).getLast?.getD acc.contentLength := by
  induction ls generalizing acc with
  | nil =>
    cases h
    rfl
  | cons l ls ih =>
    rw [List.foldlM_cons] at h
    cases hl : acc.parseLine l with
    | error e =>
      rw [hl] at h
      cases h
    | ok acc₁ =>
      rw [hl] at h
      rw [ih h, contentLength_parseLine hl]
      cases hlen : headerLength l with
      | none =>
        rw [List.filterMap_cons_none hlen]
        rfl
      | some n =>
        rw [List.filterMap_cons_some hlen, List.getLast?_cons]
        rfl

/-! ## Buffers with accepted headers -/

/-- A buffer whose headers `parse` accepts, with what it reads of them. -/
structure AcceptedHead (buf : Bytes) where
  headersEnd : ℕ
  text : List Char
  requestLine : List Char
  lines : List (List Char)
  target : String × String
  headers : Headers
  end_eq : Framing.findHeadersEnd buf = some headersEnd
  text_eq : Utf8.decode (buf.take headersEnd) = some text
  lines_eq : Str.lines text = requestLine :: lines
  target_eq : parseRequestLine requestLine = .ok target
  headers_eq : lines.foldlM Headers.parseLine {} = .ok headers

namespace AcceptedHead

variable {buf : Bytes} (h : AcceptedHead buf)

/-- After the headers, `parse` fails only for want of body bytes. -/
theorem parse_ok_iff : (∃ req, HttpRequest.parse buf = .ok req) ↔
    parsedLength h.lines ≤ buf.length - (h.headersEnd + 4) := by
  have hlength : h.headers.contentLength = parsedLength h.lines := contentLength_foldlM h.headers_eq
  have hparse : HttpRequest.parse buf = (extractBody buf (h.headersEnd + 4) h.headers.contentLength).map
      fun body => ⟨h.target.1, h.target.2, h.headers.headers, body, h.headers.connectionClose⟩ := by
    simp only [HttpRequest.parse, h.end_eq, h.text_eq, h.lines_eq, HttpRequest.parseLines, h.target_eq, bind,
      Except.bind, h.headers_eq]
    rfl
  rw [hparse, hlength]
  unfold extractBody
  dsimp only
  split_ifs with hstart havail hzero
  · exact iff_of_true ⟨_, rfl⟩ havail
  · exact iff_of_false (by rintro ⟨_, ⟨⟩⟩) havail
  · exact iff_of_true ⟨_, rfl⟩ (by omega)
  · exact iff_of_false (by rintro ⟨_, ⟨⟩⟩) (by omega)

/-- The verdict on the same head before any body. -/
theorem isBodyComplete_iff (body : Bytes) :
    HttpRequest.isBodyComplete (buf.take (h.headersEnd + 4) ++ body) h.headersEnd = true ↔
      (Framing.scannedLength (h.requestLine :: h.lines)).getD 0 ≤ body.length := by
  have hle := Framing.headersEnd_le h.end_eq
  have htake : (buf.take (h.headersEnd + 4) ++ body).take h.headersEnd = Utf8.encode h.text := by
    rw [List.take_append_of_le_length (by rw [List.length_take]; omega), List.take_take,
      Nat.min_eq_left (Nat.le_add_right _ 4), Utf8.encode_of_decode h.text_eq]
  have hlength : (buf.take (h.headersEnd + 4) ++ body).length - (h.headersEnd + 4) = body.length := by
    rw [List.length_append, List.length_take]
    omega
  rw [HttpRequest.isBodyComplete, Framing.isBodyComplete, htake, Framing.findContentLength_lines_eq,
    h.lines_eq]
  cases Framing.scannedLength (h.requestLine :: h.lines) with
  | none => exact iff_of_true rfl (Nat.zero_le _)
  | some n =>
    rw [hlength]
    exact decide_eq_true_iff

end AcceptedHead

/-- Where the two readings of `Content-Length` agree.  `parse` uses the last header line with the name,
trimmed and read as a number; `is_body_complete` uses the first line that starts with the name, the
request line included, and the digits after its spaces.  On a head with these two numbers equal the
verdicts agree for every body, and on no other head. -/
theorem body_complete_agrees_iff {buf : Bytes} (h : AcceptedHead buf) :
    ((∃ req, HttpRequest.parse buf = .ok req) ↔
      parsedLength h.lines ≤ buf.length - (h.headersEnd + 4)) ∧
    ((HttpRequest.isBodyComplete buf h.headersEnd = true ↔
        parsedLength h.lines ≤ buf.length - (h.headersEnd + 4)) ↔
      ((Framing.scannedLength (h.requestLine :: h.lines)).getD 0 ≤ buf.length - (h.headersEnd + 4) ↔
        parsedLength h.lines ≤ buf.length - (h.headersEnd + 4))) ∧
    ((∀ body, HttpRequest.isBodyComplete (buf.take (h.headersEnd + 4) ++ body) h.headersEnd = true ↔
        parsedLength h.lines ≤ body.length) ↔
      (Framing.scannedLength (h.requestLine :: h.lines)).getD 0 = parsedLength h.lines) := by
  refine ⟨h.parse_ok_iff, ?_, ?_⟩
  · have hbuf := h.isBodyComplete_iff (buf.drop (h.headersEnd + 4))
    rw [List.take_append_drop, List.length_drop] at hbuf
    rw [hbuf]
  · constructor
    · intro hall
      -- bodies of both lengths
      have h₁ := (h.isBodyComplete_iff _).symm.trans
        (hall (List.replicate ((Framing.scannedLength (h.requestLine :: h.lines)).getD 0) 0))
      have h₂ := (h.isBodyComplete_iff _).symm.trans
        (hall (List.replicate (parsedLength h.lines) 0))
      rw [List.length_replicate] at h₁ h₂
      exact le_antisymm (h₂.2 le_rfl) (h₁.1 le_rfl)
    · intro heq body
      rw [h.isBodyComplete_iff, heq]

/-- A request whose length is written after a tab. -/
def tabbed : AcceptedHead (Framing.literal "POST / HTTP/1.1\r\nContent-Length:\t5\r\n\r\n") where
  headersEnd := 34
  text := "POST / HTTP/1.1\r\nContent-Length:\t5".toList
  requestLine := "POST / HTTP/1.1".toList
  lines := ["Content-Length:\t5".toList]
  target := ("POST", "/")
  headers := ⟨[("Content-Length", "5")], 5, false⟩
  end_eq := by decide +kernel
  text_eq := by
    have htake : (Framing.literal "POST / HTTP/1.1\r\nContent-Length:\t5\r\n\r\n").take 34 =
        Utf8.encode "POST / HTTP/1.1\r\nContent-Length:\t5".toList := by
      rw [Utf8.encode_of_isAscii (by decide)]
      rfl
    rw [htake, Utf8.decode_encode]
  lines_eq := by decide +kernel
  target_eq := rfl
  headers_eq := rfl

/-- It is judged complete before its body has come, and then refused for want of the body. -/
theorem tabbed_judged_complete :
    HttpRequest.isBodyComplete (Framing.literal "POST / HTTP/1.1\r\nContent-Length:\t5\r\n\r\n")
      tabbed.headersEnd = true ∧
    HttpRequest.parse (Framing.literal "POST / HTTP/1.1\r\nContent-Length:\t5\r\n\r\n") =
      .error (.invalidHttp "Missing body") := by
  refine ⟨by decide +kernel, ?_⟩
  simp only [HttpRequest.parse, tabbed.end_eq, tabbed.text_eq, tabbed.lines_eq]
  decide +kernel

end Land.Server
