import Land.Lib.BaseFraming
import Land.Lib.Lossy

/-!
# The frames of the subscriber's WebSocket

`writeFrame` builds the bytes of one frame, with a masking key, as the base framing prescribes
(`writeFrame_eq_encode`).  `readFrame` reads one frame from the stream.  It skips a masking key, if there is one,
and delivers the payload as it was sent (`run_readFrame`), so a masked text or ping comes out as other bytes than
went in.
-/

namespace Land.Pubsub

open BaseFraming (MaskingKey)
open scoped BaseFraming

/-- `[u8; 4]`, the masking key of a frame. -/
abbrev Mask := MaskingKey

def opcodeText : UInt8 := 0x1

def opcodeClose : UInt8 := 0x8

def opcodePing : UInt8 := 0x9

def opcodePong : UInt8 := 0xA

/-- `Frame`. -/
inductive Frame where
  | text (text : List Char)
  | ping (data : List UInt8)
  | pong (data : Unit)
  | close
  deriving DecidableEq

/-- The errors of `Error` that reading a frame can return. -/
inductive Error where
  | io
  | invalidFrame (message : String)
  deriving DecidableEq

/-- An `Err`, or the panic of `resize` on a capacity beyond `isize::MAX`. -/
inductive Failure where
  | err (e : Error)
  | capacityOverflow
  deriving DecidableEq

/-- A function that reads from the stream; the state holds the bytes that are still to come. -/
abbrev ReadM := ExceptT Failure (StateM (List UInt8))

/-- `read_exact` for a buffer of `n` bytes.  A stream that ends before is read to its end. -/
def readExact (n : ℕ) : ReadM (List UInt8) := do
  let stream ← get
  match BaseFraming.split n stream with
  | some (bytes, rest) =>
      set rest
      return bytes
  | none =>
      set ([] : List UInt8)
      throw (.err .io)

/-- `payload_len`, with the bytes of an extended length. -/
def readLength (len : ℕ) : ReadM ℕ := do
  if len = 126 then return BigEndian.ofBytes (← readExact 2)
  else if len = 127 then return BigEndian.ofBytes (← readExact 8)
  else return len

/-- `read_buf.resize(payload_len as usize, 0)` and the bytes read into it. -/
def readPayload (len : ℕ) : ReadM (List UInt8) := do
  if 2 ^ 63 ≤ len then throw .capacityOverflow
  readExact len

/-- The frame for an opcode and `read_buf`. -/
def process (opcode : UInt8) (readBuf : List UInt8) : Except Failure Frame :=
  if opcode = opcodeText then .ok (.text (Utf8.fromUtf8Lossy readBuf))
  else if opcode = opcodePing then .ok (.ping readBuf)
  else if opcode = opcodePong then .ok (.pong ())
  else if opcode = opcodeClose then .ok .close
  else .error (.err (.invalidFrame ("unknown opcode: " ++ toString opcode.toNat)))

/-- The key of a masked frame.  It is read, and not used. -/
def readMask (masked : Bool) : ReadM Unit := do
  if masked then let _ ← readExact 4

/-- `WebSocket::read_frame`. -/
def readFrame : ReadM Frame := do
  let header ← readExact 2
  let opcode := header.getD 0 0 &&& 0x0F
  let masked := header.getD 1 0 &&& 0x80 != 0
  let len ← readLength (header.getD 1 0 &&& 0x7F).toNat
  readMask masked
  let readBuf ← readPayload len
  process opcode readBuf

/-- The second byte of a frame, and an extended length. -/
def lengthBytes (len : ℕ) : List UInt8 :=
  if len < 126 then [0x80 ||| UInt8.ofNat len]
  else if len < 65536 then (0x80 ||| 126) :: BigEndian.toBytes 2 len
  else (0x80 ||| 127) :: BigEndian.toBytes 8 len

/-- The bytes that `WebSocket::write_frame` writes, with the result of `generate_mask_key` for `mask`. -/
def writeFrame (opcode : UInt8) (mask : Mask) (payload : List UInt8) : List UInt8 :=
  [0x80 ||| opcode] ++ lengthBytes payload.length ++ List.ofFn mask ++
    payload.mapIdx fun i byte => byte ^^^ mask (Fin.ofNat 4 i)

/-! ### The writer -/

theorem or_eq_ofNat {b : UInt8} (h : b.toNat < 128) : 0x80 ||| b = UInt8.ofNat (128 + b.toNat) := by
  apply UInt8.toNat.inj
  rw [UInt8.toNat_or, UInt8.toNat_ofNat', Nat.mod_eq_of_lt (by omega)]
  exact (Nat.two_pow_add_eq_or_of_lt (i := 7) h 1).symm

/-- The frame that a client writes. -/
def written (opcode : UInt8) (key : Option Mask) (payload : List UInt8) : BaseFraming.Frame :=
  ⟨true, 0, opcode.toNat, key, payload⟩

theorem written_wellFormed {opcode : UInt8} (hopcode : opcode < 16) (key : Option Mask)
    {payload : List UInt8} (hlen : payload.length < 2 ^ 63) : (written opcode key payload).WellFormed where
  rsv := Nat.zero_lt_succ 7
  opcode := hopcode
  length := hlen

theorem lengthBytes_eq (n : ℕ) :
    lengthBytes n = UInt8.ofNat (128 + (BaseFraming.lengthField n).1) :: (BaseFraming.lengthField n).2 := by
  unfold lengthBytes BaseFraming.lengthField
  split_ifs with hshort
  · have hn : (UInt8.ofNat n).toNat = n := by
      rw [UInt8.toNat_ofNat', Nat.mod_eq_of_lt (by omega)]
    rw [or_eq_ofNat (by omega), hn]
  · rw [or_eq_ofNat (by decide)]
    rfl
  · rw [or_eq_ofNat (by decide)]
    rfl

/-- `write_frame` writes the frame that the base framing has for its arguments. -/
theorem writeFrame_eq_encode {opcode : UInt8} (hopcode : opcode < 16) (mask : Mask) (payload : List UInt8) :
    writeFrame opcode mask payload = BaseFraming.encode (written opcode (some mask) payload) := by
  have hop : opcode.toNat < 16 := hopcode
  rw [writeFrame, lengthBytes_eq, or_eq_ofNat (by omega)]
  simp only [List.append_assoc]
  rfl

/-- What `write_frame` writes is read by the base framing as one final frame with the opcode and the payload,
and nothing is left over. -/
theorem decode_writeFrame {opcode : UInt8} (hopcode : opcode < 16) (mask : Mask) {payload : List UInt8}
    (hlen : payload.length < 2 ^ 63) :
    BaseFraming.decode (writeFrame opcode mask payload) =
      some (⟨true, 0, opcode.toNat, some mask, payload⟩, []) := by
  have h := BaseFraming.decode_encode (written_wellFormed hopcode (some mask) hlen) []
  rwa [List.append_nil, ← writeFrame_eq_encode hopcode mask payload] at h

/-- A text of two letters. -/
theorem decode_writeFrame_text :
    BaseFraming.decode (writeFrame opcodeText ![1, 2, 3, 4] [0x68, 0x69]) =
      some (⟨true, 0, 1, some ![1, 2, 3, 4], [0x68, 0x69]⟩, []) :=
  decode_writeFrame (by decide) ![1, 2, 3, 4] (by decide)

/-! ### The reader -/

section Reader

variable {α β : Type}

theorem run_bind_ok {x : ReadM α} {f : α → ReadM β} {stream rest : List UInt8} {a : α}
    (h : x.run.run stream = (.ok a, rest)) : (x >>= f).run.run stream = (f a).run.run rest := by
  simp only [ExceptT.run_bind, StateT.run_bind, h]
  rfl

theorem run_readExact {n : ℕ} {bytes : List UInt8} (h : bytes.length = n) (rest : List UInt8) :
    (readExact n).run.run (bytes ++ rest) = (.ok bytes, rest) := by
  have hget : (get : ReadM (List UInt8)).run.run (bytes ++ rest) = (.ok (bytes ++ rest), bytes ++ rest) := rfl
  rw [readExact, run_bind_ok hget, BaseFraming.split_append h]
  rfl

theorem run_readLength {n : ℕ} (hn : n < 2 ^ 63) (rest : List UInt8) :
    (readLength (BaseFraming.lengthField n).1).run.run ((BaseFraming.lengthField n).2 ++ rest) =
      (.ok n, rest) := by
  unfold BaseFraming.lengthField
  split_ifs with hshort hmiddle
  · rw [readLength, if_neg (by rintro rfl; omega), if_neg (by rintro rfl; omega)]
    rfl
  · rw [readLength, if_pos rfl, run_bind_ok (run_readExact (BigEndian.length_toBytes 2 n) rest),
      BigEndian.ofBytes_toBytes_of_lt hmiddle]
    rfl
  · rw [readLength, if_neg (by rintro ⟨⟩), if_pos rfl,
      run_bind_ok (run_readExact (BigEndian.length_toBytes 8 n) rest),
      BigEndian.ofBytes_toBytes_of_lt (hn.trans (by norm_num))]
    rfl

theorem run_readMask (key : Option Mask) (rest : List UInt8) :
    (readMask key.isSome).run.run (BaseFraming.keyOctets key ++ rest) = (.ok (), rest) := by
  cases key with
  | none => rfl
  | some key =>
    rw [readMask, Option.isSome_some, if_pos rfl, BaseFraming.keyOctets,
      run_bind_ok (run_readExact List.length_ofFn rest)]
    rfl

theorem run_readPayload {bytes : List UInt8} (h : bytes.length < 2 ^ 63) (rest : List UInt8) :
    (readPayload bytes.length).run.run (bytes ++ rest) = (.ok bytes, rest) := by
  rw [readPayload, if_neg (Nat.not_le.2 h)]
  exact run_readExact rfl rest

theorem and_0x80_ne_zero : ∀ b : UInt8, (b &&& 0x80 != 0) = decide (128 ≤ b.toNat) := by
  intro b
  have h : ∀ n : Fin 256, (UInt8.ofNat n &&& 0x80 != 0) = decide (128 ≤ n.val) := by decide +kernel
  have hb := h ⟨b.toNat, b.toNat_lt⟩
  rwa [UInt8.ofNat_toNat] at hb

theorem toNat_and_0x7F (b : UInt8) : (b &&& 0x7F).toNat = b.toNat % 128 := by
  rw [UInt8.toNat_and]
  exact Nat.and_two_pow_sub_one_eq_mod b.toNat 7

theorem toNat_and_0x0F (b : UInt8) : (b &&& 0x0F).toNat = b.toNat % 16 := by
  rw [UInt8.toNat_and]
  exact Nat.and_two_pow_sub_one_eq_mod b.toNat 4

/-- `read_frame` consumes the frame that the stream begins with and processes its payload as it was sent. -/
theorem run_readFrame {f : BaseFraming.Frame} (hf : f.WellFormed) (rest : List UInt8) :
    readFrame.run.run (BaseFraming.encode f ++ rest) =
      (process (UInt8.ofNat f.opcode) (BaseFraming.mask f.key f.payload), rest) := by
  obtain ⟨hmasked, hlen⟩ :=
    BaseFraming.flag_ofNat f.key.isSome (BaseFraming.lengthField_lt f.payload.length)
  have hopcode : (BaseFraming.header f).getD 0 0 &&& 0x0F = UInt8.ofNat f.opcode := by
    have hrsv := hf.rsv
    have hop := hf.opcode
    obtain ⟨-, hlow⟩ := BaseFraming.flag_ofNat f.fin (n := f.rsv * 16 + f.opcode) (by omega)
    rw [← Nat.add_assoc] at hlow
    apply UInt8.toNat.inj
    rw [toNat_and_0x0F, UInt8.toNat_ofNat', BaseFraming.header, List.getD_cons_zero]
    omega
  have hheader : (BaseFraming.header f).length = 2 := rfl
  rw [BaseFraming.encode, List.append_assoc, readFrame, run_bind_ok (run_readExact hheader _)]
  simp only [and_0x80_ne_zero, toNat_and_0x7F, hopcode]
  simp only [BaseFraming.header, List.getD_cons_succ, List.getD_cons_zero, hmasked, hlen, List.append_assoc]
  rw [run_bind_ok (run_readLength hf.length _), run_bind_ok (run_readMask f.key _),
    ← BaseFraming.length_mask f.key f.payload,
    run_bind_ok (run_readPayload ((BaseFraming.length_mask f.key f.payload).symm ▸ hf.length) rest)]
  rfl

end Reader

/-! ### The reader against the writer -/

/-- What a frame is sent for; the payload of a text is valid UTF-8. -/
inductive Message where
  | text (chars : List Char)
  | ping (data : List UInt8)
  | pong (data : List UInt8)
  | close (data : List UInt8)

namespace Message

def opcode : Message → UInt8
  | .text _ => opcodeText
  | .ping _ => opcodePing
  | .pong _ => opcodePong
  | .close _ => opcodeClose

def payload : Message → List UInt8
  | .text chars => Utf8.encode chars
  | .ping data => data
  | .pong data => data
  | .close data => data

/-- The `Frame` that corresponds to the message. -/
def frame : Message → Frame
  | .text chars => .text chars
  | .ping data => .ping data
  | .pong _ => .pong ()
  | .close _ => .close

/-- The bytes of the message without a mask, or what `write_frame` makes of it. -/
def encoding (m : Message) : Option Mask → List UInt8
  | none => BaseFraming.encode (written m.opcode none m.payload)
  | some mask => writeFrame m.opcode mask m.payload

/-- `read_frame` consumes exactly the message and returns its frame. -/
def Inverts (m : Message) (mask : Option Mask) : Prop :=
  ∀ rest, readFrame.run.run (m.encoding mask ++ rest) = (.ok m.frame, rest)

theorem opcode_lt (m : Message) : m.opcode < 16 := by
  have h : opcodeText < 16 ∧ opcodePing < 16 ∧ opcodePong < 16 ∧ opcodeClose < 16 := by decide
  obtain ⟨htext, hping, hpong, hclose⟩ := h
  cases m with
  | text chars => exact htext
  | ping data => exact hping
  | pong data => exact hpong
  | close data => exact hclose

theorem encoding_eq (m : Message) (mask : Option Mask) :
    m.encoding mask = BaseFraming.encode (written m.opcode mask m.payload) := by
  cases mask with
  | none => rfl
  | some mask => exact writeFrame_eq_encode m.opcode_lt mask m.payload

theorem inverts_iff_process {m : Message} (hlen : m.payload.length < 2 ^ 63) (mask : Option Mask) :
    m.Inverts mask ↔ process m.opcode (BaseFraming.mask mask m.payload) = .ok m.frame := by
  have hread (rest) : readFrame.run.run (m.encoding mask ++ rest) =
      (process m.opcode (BaseFraming.mask mask m.payload), rest) := by
    rw [encoding_eq, run_readFrame (written_wellFormed m.opcode_lt mask hlen)]
    simp only [written, UInt8.ofNat_toNat]
  constructor
  · intro h
    have hframe := h []
    rw [hread] at hframe
    exact (Prod.mk.inj hframe).1
  · intro h rest
    rw [hread, h]

/-- The opcode is one whose payload is delivered. -/
def Delivers (opcode : UInt8) : Prop := opcode = opcodeText ∨ opcode = opcodePing

/-- The bytes of the mask that a payload of the length is combined with are zero, if it is delivered. -/
def Harmless (opcode : UInt8) (len : ℕ) (mask : Option Mask) : Prop :=
  Delivers opcode → ∀ key ∈ mask, ∀ i < len, key (Fin.ofNat 4 i) = 0

theorem harmless_iff {opcode : UInt8} {payload : List UInt8} {mask : Option Mask} :
    Harmless opcode payload.length mask ↔ (Delivers opcode → BaseFraming.mask mask payload = payload) := by
  apply imp_congr_right
  intro _
  cases mask with
  | none => exact iff_of_true (by rintro _ ⟨⟩) rfl
  | some key => simp only [BaseFraming.mask, BaseFraming.applyMask_eq_self_iff, Option.mem_some_iff, forall_eq']

theorem process_text (sent : List UInt8) :
    process opcodeText sent = .ok (.text (Utf8.fromUtf8Lossy sent)) := rfl

theorem process_ping (sent : List UInt8) : process opcodePing sent = .ok (.ping sent) := rfl

/-- A harmless mask leaves every message as it is. -/
theorem inverts_of_harmless {m : Message} (hlen : m.payload.length < 2 ^ 63) {mask : Option Mask}
    (h : Harmless m.opcode m.payload.length mask) : m.Inverts mask := by
  rw [inverts_iff_process hlen]
  rw [harmless_iff] at h
  cases m with
  | text chars => rw [h (.inl rfl), opcode, payload, process_text, Utf8.fromUtf8Lossy_encode, frame]
  | ping data => rw [h (.inr rfl), opcode, payload, process_ping, frame]
  | pong data => rfl
  | close data => rfl

/-- A message without replacement characters is delivered only under a harmless mask. -/
theorem harmless_of_inverts {m : Message} (hlen : m.payload.length < 2 ^ 63) {mask : Option Mask}
    (hm : ∀ chars, m = .text chars → Utf8.replacement ∉ chars) (h : m.Inverts mask) :
    Harmless m.opcode m.payload.length mask := by
  rw [inverts_iff_process hlen] at h
  rw [harmless_iff]
  intro hop
  cases m with
  | text chars =>
    rw [opcode, payload, process_text, frame] at h
    have hchars : Utf8.fromUtf8Lossy (BaseFraming.mask mask (Utf8.encode chars)) = chars :=
      Frame.text.inj (Except.ok.inj h)
    -- no replacement was made, so the bytes that were read are those of the text
    have hnone : Utf8.replacement ∉ Utf8.fromUtf8Lossy (BaseFraming.mask mask (Utf8.encode chars)) := by
      rw [hchars]
      exact hm chars rfl
    have hbytes := Utf8.encode_fromUtf8Lossy hnone
    rw [payload, ← hbytes, hchars]
  | ping data => exact Frame.ping.inj (Except.ok.inj h)
  | pong data => exact absurd hop (by simp [Delivers, opcode, opcodePong, opcodeText, opcodePing])
  | close data => exact absurd hop (by simp [Delivers, opcode, opcodeClose, opcodeText, opcodePing])

/-- A message of each opcode and length, without replacement characters. -/
theorem exists_plain (m : Message) (n : ℕ) :
    ∃ m' : Message, m'.opcode = m.opcode ∧ m'.payload.length = n ∧
      ∀ chars, m' = .text chars → Utf8.replacement ∉ chars := by
  cases m with
  | text _ =>
    refine ⟨.text (List.replicate n 'a'), rfl, ?_, ?_⟩
    · have hascii : ∀ c ∈ List.replicate n 'a', c.toNat ≤ 127 := by
        intro c hc
        rw [List.eq_of_mem_replicate hc]
        decide
      rw [payload, Utf8.encode_of_ascii hascii, List.length_map, List.length_replicate]
    · rintro _ ⟨⟩ hmem
      exact absurd (List.eq_of_mem_replicate hmem) (by decide)
  | ping _ => exact ⟨.ping (List.replicate n 0), rfl, List.length_replicate, by rintro _ ⟨⟩⟩
  | pong _ => exact ⟨.pong (List.replicate n 0), rfl, List.length_replicate, by rintro _ ⟨⟩⟩
  | close _ => exact ⟨.close (List.replicate n 0), rfl, List.length_replicate, by rintro _ ⟨⟩⟩

/-- Every message with the opcode of `m` and a payload as long as its is delivered with the mask exactly if the
mask is harmless.  One with replacement characters can come out right by accident, any other cannot. -/
theorem inverts_iff {m : Message} (hlen : m.payload.length < 2 ^ 63) (mask : Option Mask) :
    ((∀ m' : Message, m'.opcode = m.opcode → m'.payload.length = m.payload.length → m'.Inverts mask) ↔
      Harmless m.opcode m.payload.length mask) ∧
    ((∀ chars, m = .text chars → Utf8.replacement ∉ chars) →
      (m.Inverts mask ↔ Harmless m.opcode m.payload.length mask)) := by
  refine ⟨⟨fun h => ?_, fun h m' hop hlen' => ?_⟩, fun hm => ⟨harmless_of_inverts hlen hm,
    inverts_of_harmless hlen⟩⟩
  · obtain ⟨m', hop, hlen', hplain⟩ := exists_plain m m.payload.length
    have hharmless := harmless_of_inverts (hlen'.symm ▸ hlen) hplain (h m' hop hlen')
    rwa [hop, hlen'] at hharmless
  · apply inverts_of_harmless (hlen'.symm ▸ hlen)
    rwa [hop, hlen']

/-- A ping that is not masked. -/
theorem inverts_iff_ping : (Message.ping [0x68]).Inverts none :=
  ((inverts_iff (m := .ping [0x68]) (by decide) none).2 (by rintro _ ⟨⟩)).2 (by rintro _ _ ⟨⟩)

/-- A ping of one byte that `write_frame` has masked comes out as another byte. -/
theorem not_inverts_masked : ¬ (Message.ping [0x68]).Inverts (some ![1, 2, 3, 4]) := by
  intro h
  have hdata : BaseFraming.applyMask ![1, 2, 3, 4] [0x68] = [0x68] :=
    Frame.ping.inj (Except.ok.inj ((inverts_iff_process (by decide) _).1 h))
  exact absurd hdata (by decide)

end Message

end Land.Pubsub
