import Land.Pubsub.Notification
import Land.Pubsub.WebSocket

/-!
# What a connection announces

`handle_messages` reads one frame after the other until the bytes end or a close comes, and looks for a slot
notification in each text.  `announced` is what it finds in the bytes of a connection.  For a server that frames
its messages as the protocol prescribes these are the slots that it announces, in order, whatever pings and
pongs come in between.
-/

namespace Land.Pubsub

/-- The notifications in the bytes of a connection, with a bound on the frames. -/
def announcedIn : ℕ → List UInt8 → List SlotInfo
  | 0, _ => []
  | n + 1, stream =>
      match readFrame.run.run stream with
      | (.ok (.text text), rest) => (parseSlotNotification text).toList ++ announcedIn n rest
      | (.ok .close, _) => []
      | (.ok _, rest) => announcedIn n rest
      | (.error _, _) => []

/-- The notifications in the bytes of a connection; every frame has a byte. -/
def announced (stream : List UInt8) : List SlotInfo := announcedIn stream.length stream

/-! ## A frame consumes bytes -/

section Shrinks

variable {α β : Type}

/-- Reading does not add to the bytes. -/
def Shrinks (x : ReadM α) : Prop := ∀ stream, (x.run.run stream).2.length ≤ stream.length

theorem run_bind (x : ReadM α) (f : α → ReadM β) (stream : List UInt8) :
    (x >>= f).run.run stream =
      match x.run.run stream with
      | (.ok a, rest) => (f a).run.run rest
      | (.error e, rest) => (.error e, rest) := by
  simp only [ExceptT.run_bind, StateT.run_bind]
  cases x.run.run stream with
  | mk r rest => cases r <;> rfl

theorem Shrinks.bind {x : ReadM α} {f : α → ReadM β} (hx : Shrinks x) (hf : ∀ a, Shrinks (f a)) :
    Shrinks (x >>= f) := by
  intro stream
  have hlen := hx stream
  rw [run_bind]
  cases hr : x.run.run stream with
  | mk r rest =>
    rw [hr] at hlen
    cases r with
    | ok a => exact (hf a rest).trans hlen
    | error e => exact hlen

theorem shrinks_pure (a : α) : Shrinks (pure a) := fun _ => le_rfl

theorem shrinks_throw (e : Failure) : Shrinks (throw e : ReadM α) := fun _ => le_rfl

/-- `read_exact` reads its bytes, or fails. -/
theorem readExact_length (n : ℕ) (stream : List UInt8) :
    (∃ bytes rest, (readExact n).run.run stream = (.ok bytes, rest) ∧ rest.length + n = stream.length) ∨
      ∃ e, (readExact n).run.run stream = (.error e, []) := by
  by_cases hlen : n ≤ stream.length
  · refine .inl ⟨stream.take n, stream.drop n, ?_, by rw [List.length_drop]; omega⟩
    have h := run_readExact (List.length_take_of_le hlen) (stream.drop n)
    rwa [List.take_append_drop] at h
  · refine .inr ⟨.err .io, ?_⟩
    have hget : (get : ReadM (List UInt8)).run.run stream = (.ok stream, stream) := rfl
    have hsplit : BaseFraming.split n stream = none := by
      rw [BaseFraming.split]
      exact if_neg hlen
    rw [readExact, run_bind_ok hget, hsplit]
    rfl

theorem shrinks_readExact (n : ℕ) : Shrinks (readExact n) := by
  intro stream
  obtain ⟨bytes, rest, h, hlen⟩ | ⟨e, h⟩ := readExact_length n stream
  · rw [h]
    exact (Nat.le_add_right _ n).trans hlen.le
  · rw [h]
    exact Nat.zero_le _

theorem shrinks_readLength (len : ℕ) : Shrinks (readLength len) := by
  unfold readLength
  split_ifs
  · exact (shrinks_readExact 2).bind fun _ => shrinks_pure _
  · exact (shrinks_readExact 8).bind fun _ => shrinks_pure _
  · exact shrinks_pure _

theorem shrinks_readMask (masked : Bool) : Shrinks (readMask masked) := by
  unfold readMask
  split_ifs
  · exact (shrinks_readExact 4).bind fun _ => shrinks_pure _
  · exact shrinks_pure _

theorem shrinks_readPayload (len : ℕ) : Shrinks (readPayload len) := by
  unfold readPayload
  split_ifs
  · exact (shrinks_throw _).bind fun _ => shrinks_readExact _
  · exact shrinks_readExact _

theorem shrinks_process (opcode : UInt8) (readBuf : List UInt8) :
    Shrinks (process opcode readBuf : ReadM Frame) := by
  intro stream
  cases h : process opcode readBuf with
  | ok frame => exact le_rfl
  | error e => exact le_rfl

end Shrinks

/-- A frame that is read has taken its header from the stream. -/
theorem length_readFrame {stream rest : List UInt8} {frame : Frame}
    (h : readFrame.run.run stream = (.ok frame, rest)) : rest.length < stream.length := by
  unfold readFrame at h
  rw [run_bind] at h
  obtain ⟨header, rest', hheader, hlen⟩ | ⟨e, hheader⟩ := readExact_length 2 stream
  · rw [hheader] at h
    have hrest : rest.length ≤ rest'.length := by
      have hshrinks := Shrinks.bind (shrinks_readLength (header.getD 1 0 &&& 0x7F).toNat) fun len =>
        (shrinks_readMask (header.getD 1 0 &&& 0x80 != 0)).bind fun _ =>
          (shrinks_readPayload len).bind fun readBuf => shrinks_process (header.getD 0 0 &&& 0x0F) readBuf
      exact (congrArg (fun p => p.2.length) h).symm.le.trans (hshrinks rest')
    omega
  · rw [hheader] at h
    cases h

/-! ## Frame by frame -/

theorem announcedIn_nil (n : ℕ) : announcedIn n [] = [] := by
  cases n <;> rfl

/-- A larger bound changes nothing. -/
theorem announcedIn_eq {n m : ℕ} {stream : List UInt8} (hn : stream.length ≤ n) (hm : stream.length ≤ m) :
    announcedIn n stream = announcedIn m stream := by
  induction n generalizing m stream with
  | zero =>
    obtain rfl := List.eq_nil_of_length_eq_zero (Nat.le_zero.1 hn)
    rw [announcedIn_nil, announcedIn_nil]
  | succ n ih =>
    cases m with
    | zero =>
      obtain rfl := List.eq_nil_of_length_eq_zero (Nat.le_zero.1 hm)
      rw [announcedIn_nil, announcedIn_nil]
    | succ m =>
      unfold announcedIn
      cases hread : readFrame.run.run stream with
      | mk r rest =>
        cases r with
        | error e => rfl
        | ok frame =>
          have hlen := length_readFrame hread
          have hih : announcedIn n rest = announcedIn m rest := ih (by omega) (by omega)
          cases frame with
          | text text => exact congrArg _ hih
          | close => rfl
          | ping data => exact hih
          | pong data => exact hih

/-- The notification in a frame. -/
def Frame.info : Frame → Option SlotInfo
  | .text json => parseSlotNotification json
  | _ => none

/-- A frame that does not end the reading. -/
theorem announced_frame {stream rest : List UInt8} {frame : Frame}
    (h : readFrame.run.run stream = (.ok frame, rest)) (hclose : frame ≠ .close) :
    announced stream = frame.info.toList ++ announced rest := by
  have hlen := length_readFrame h
  obtain ⟨n, hn⟩ := Nat.exists_eq_add_one_of_ne_zero (Nat.ne_of_gt (Nat.zero_lt_of_lt hlen))
  have hrest : announcedIn n rest = announced rest := announcedIn_eq (by omega) le_rfl
  rw [announced, hn, announcedIn, h]
  cases frame with
  | text text => exact congrArg _ hrest
  | close => exact absurd rfl hclose
  | ping data => exact hrest
  | pong data => exact hrest

/-! ## A server -/

/-- What a server sends on a connection after the response. -/
inductive ServerItem where
  | slot (info : SlotInfo) (subscription : ℕ)
  | ping (data : List UInt8)
  | pong (data : List UInt8)

namespace ServerItem

def message : ServerItem → Message
  | slot info subscription => .text (slotNotification info subscription).render
  | ping data => .ping data
  | pong data => .pong data

def info : ServerItem → Option SlotInfo
  | slot info _ => some info
  | _ => none

/-- The payload has a length that a frame can have, and the fields of a notification are of type `u64`. -/
structure Ok (item : ServerItem) : Prop where
  length : item.message.payload.length < 2 ^ 63
  fields : ∀ info ∈ item.info, info.slot < 2 ^ 64 ∧ info.parent < 2 ^ 64 ∧ info.root < 2 ^ 64

/-- The frames of the items, not masked. -/
def stream (items : List ServerItem) : List UInt8 := items.flatMap fun item => item.message.encoding none

end ServerItem

theorem plain_slotNotification (info : SlotInfo) (subscription : ℕ) :
    (slotNotification info subscription).Plain := by
  refine ⟨rfl, ?_⟩
  simp only [slotNotification, Json.members, Json.membersOfMembers, List.append_nil, List.nil_append,
    List.cons_append, List.forall_mem_cons]
  decide

theorem parseSlotNotification_slotNotification {info : SlotInfo} (subscription : ℕ)
    (h : info.slot < 2 ^ 64 ∧ info.parent < 2 ^ 64 ∧ info.root < 2 ^ 64) :
    parseSlotNotification (slotNotification info subscription).render = some info := by
  obtain ⟨hslot, hparent, hroot⟩ := h
  -- the fields are found in the first `result`
  have hresult : (slotNotification info subscription).members.lookup "result".toList =
      some (.obj [("parent".toList, .num false info.parent []), ("root".toList, .num false info.root []),
        ("slot".toList, .num false info.slot [])]) := rfl
  have hread := parseSlotNotification_fields (plain_slotNotification info subscription) hresult rfl rfl rfl
  simp only [asU64, if_pos hslot, if_pos hparent, if_pos hroot] at hread
  exact hread

/-- The slots that a server announces on a connection are found, all of them and in order. -/
theorem announced_stream {items : List ServerItem} (h : ∀ item ∈ items, item.Ok) :
    announced (ServerItem.stream items) = items.filterMap ServerItem.info := by
  induction items with
  | nil => rfl
  | cons item items ih =>
    obtain ⟨hlen, hfields⟩ := h item List.mem_cons_self
    have ih := ih fun item' hitem => h item' (List.mem_cons_of_mem item hitem)
    have hinverts : item.message.Inverts none := Message.inverts_of_harmless hlen (by rintro _ _ ⟨⟩)
    have hread : readFrame.run.run (ServerItem.stream (item :: items)) =
        (.ok item.message.frame, ServerItem.stream items) := hinverts (ServerItem.stream items)
    have hclose : item.message.frame ≠ .close := by cases item <;> exact fun heq => by cases heq
    have hinfo : item.message.frame.info = item.info := by
      cases item with
      | slot info subscription =>
        exact parseSlotNotification_slotNotification subscription (hfields info rfl)
      | ping data => rfl
      | pong data => rfl
    rw [announced_frame hread hclose, ih, hinfo, List.filterMap_cons]
    cases item.info <;> rfl

set_option maxRecDepth 4000 in
/-- Two slots with a ping between them. -/
theorem announced_stream_ping :
    announced (ServerItem.stream [.slot ⟨7, 6, 5⟩ 1, .ping [1, 2], .slot ⟨9, 7, 5⟩ 1]) =
      [⟨7, 6, 5⟩, ⟨9, 7, 5⟩] := by
  refine (announced_stream ?_).trans rfl
  simp only [List.forall_mem_cons]
  refine ⟨⟨by decide, ?_⟩, ⟨by decide, by rintro _ ⟨⟩⟩, ⟨by decide, ?_⟩, by rintro _ ⟨⟩⟩
  · rintro _ ⟨⟩
    decide
  · rintro _ ⟨⟩
    decide

end Land.Pubsub
