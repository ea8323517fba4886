import Land.Quic.NoLoss

/-!
# Which handshakes `poll` drives

`poll` drives the slots whose dirty bit is set.  A connection that is still connecting is scheduled when
its bit is set (`Scheduled`).  `poll` marks again what it has driven, and `send` marks the slot it queues
on, but `connect` marks nothing, so a slot that it takes is left unmarked unless something else takes it
out of the handshake (`Forgets`).  For every call but a blocking `connect`, `Leaves` says exactly when a
connection is left unmarked.
-/

namespace Land.Quic

/-- The slot has a connection that is still connecting. -/
def ConnectionSlot.Handshaking (slot : ConnectionSlot) : Prop :=
  slot.state = .connecting ∧ slot.connection.isSome = true

namespace ConnectionPool

/-- The slot has a connection that is still connecting, and the next `poll` does not drive it. -/
def Unmarked (p : ConnectionPool) (idx : SlotIdx) : Prop :=
  (p.slots idx).Handshaking ∧ p.dirty idx = false

/-- Every connection that is still connecting is driven by the next `poll`. -/
def Scheduled (p : ConnectionPool) : Prop :=
  ∀ idx, (p.slots idx).Handshaking → p.dirty idx = true

/-! ## When a call leaves a connection unmarked -/

/-- `connect` stores a connection that stays in the handshake, in a slot that is not marked. -/
def Forgets (p : ConnectionPool) (addr : SocketAddr) (e : Connect) : Prop :=
  let r := p.findOrAllocate addr e.now
  (r.1.slots r.2).state ≠ .ready ∧ e.created = true ∧ e.isEstablished = false ∧
    p.dirty r.2 = false ∧ ¬ e.drive.Settles

/-- The data goes out as early data on the connection of the slot. -/
def SendsEarly (p : ConnectionPool) (idx : SlotIdx) (isInEarlyData : Bool) (answer : SendUni) : Prop :=
  ∃ conn, (p.slots idx).connection = some conn ∧ isInEarlyData = true ∧
    (conn.sendUni answer).2.isOk = true

/-- `send`, once there is a slot: the early data goes out on a slot that is not marked, or the slot had
failed and `connect` ends in an error or takes another slot. -/
def SendOnLeaves (p : ConnectionPool) (idx : SlotIdx) (addr : SocketAddr) (e : Send) : Prop :=
  match (p.slots idx).state with
  | .connecting => p.dirty idx = false ∧ p.SendsEarly idx e.isInEarlyData e.sendUni ∧ ¬ e.drive.Settles
  | .failed =>
      p.Forgets addr e.reconnect ∧
        (e.reconnect.drive.packets.isOk = true → (p.findOrAllocate addr e.reconnect.now).2 ≠ idx)
  | _ => False

/-- The same for `send`. -/
def SendLeaves (p : ConnectionPool) (addr : SocketAddr) (e : Send) : Prop :=
  match p.find addr with
  | some idx => p.SendOnLeaves idx addr e
  | none =>
      match p.connect addr false e.connect with
      | (_, .error _) => p.Forgets addr e.connect
      | (p, .ok idx) => p.SendOnLeaves idx addr e

/-- The same for `send_nonblocking`. -/
def SendNonblockingLeaves (p : ConnectionPool) (addr : SocketAddr) (e : SendNonblocking) : Prop :=
  match p.find addr with
  | some idx => (p.slots idx).state = .failed ∧ p.Forgets addr e.connect
  | none =>
      p.Forgets addr e.connect ∧
        ¬ (e.hasSession = true ∧ (p.connect addr false e.connect).2.isOk = true ∧
          (p.connect addr false e.connect).1.SendsEarly (p.findOrAllocate addr e.connect.now).2
            e.isInEarlyData e.sendUni ∧ e.drive.Settles)

/-- One of the connects of a `prewarm` takes the slot. -/
def Retakes (p : ConnectionPool) (idx : SlotIdx) : List (SocketAddr × Connect) → Prop
  | [] => False
  | (addr, e) :: addrs =>
      match p.find addr with
      | some _ => p.Retakes idx addrs
      | none => idx = (p.findOrAllocate addr e.now).2 ∨ (p.connect addr false e).1.Retakes idx addrs

/-- The last connect of a `prewarm` that takes the slot leaves it unmarked. -/
def PrewarmLeaves (p : ConnectionPool) (idx : SlotIdx) : List (SocketAddr × Connect) → Prop
  | [] => False
  | (addr, e) :: addrs =>
      match p.find addr with
      | some _ => p.PrewarmLeaves idx addrs
      | none =>
          (p.connect addr false e).1.PrewarmLeaves idx addrs ∨
            idx = (p.findOrAllocate addr e.now).2 ∧ p.Forgets addr e ∧
              ¬ (p.connect addr false e).1.Retakes idx addrs

/-- The call leaves a connection that is still connecting unmarked. -/
def Leaves (p : ConnectionPool) : Call → Prop
  | .connect addr _ e => p.Forgets addr e
  | .send addr _ e => p.SendLeaves addr e
  | .sendNonblocking addr e => p.SendNonblockingLeaves addr e
  | .prewarm addrs => ∃ idx, p.PrewarmLeaves idx addrs
  | .poll _ => False
  | .keepAliveIfIdle _ _ _ => False

end ConnectionPool

/-- Every call but a blocking `connect`. -/
def Call.Nonblocking : Call → Prop
  | .connect _ blocking _ => blocking = false
  | _ => True

/-- The call does not block and leaves no connection unmarked. -/
def ConnectionPool.KeepsMarked (p : ConnectionPool) (call : Call) : Prop :=
  call.Nonblocking ∧ ¬ p.Leaves call

/-! ## Slots -/

namespace ConnectionSlot

variable {slot : ConnectionSlot}

theorem not_handshaking_of_state (h : slot.state ≠ .connecting) : ¬ slot.Handshaking :=
  fun hs => h hs.1

theorem not_handshaking_of_none (h : slot.connection = none) : ¬ slot.Handshaking := by
  rintro ⟨-, hsome⟩
  rw [h] at hsome
  cases hsome

theorem not_handshaking_markFailed (now : ℕ) : ¬ (slot.markFailed now).Handshaking := by
  refine not_handshaking_of_state ?_
  simp only [ConnectionSlot.markFailed]
  split_ifs <;> rintro ⟨⟩

/-- A connection that takes the place of another one leaves the slot in the handshake or out of it. -/
theorem handshaking_setConnection (h : slot.connection.isSome = true) (conn : QuicConnection) :
    ConnectionSlot.Handshaking { slot with connection := some conn } ↔ slot.Handshaking :=
  and_congr_right fun _ => iff_of_true rfl h

end ConnectionSlot

namespace ConnectionPool

variable {p q : ConnectionPool} {idx j : SlotIdx}

theorem scheduled_iff : p.Scheduled ↔ ∀ idx, ¬ p.Unmarked idx := by
  refine forall_congr' fun idx => ?_
  simp only [Unmarked, not_and, Bool.not_eq_false]

/-- Only the slot and the bit matter. -/
theorem unmarked_congr (hs : q.slots j = p.slots j) (hd : q.dirty j = p.dirty j) :
    q.Unmarked j ↔ p.Unmarked j := by
  rw [Unmarked, Unmarked, hs, hd]

/-- A change of one slot that leaves it in the handshake or out of it. -/
theorem unmarked_update {f : ConnectionSlot → ConnectionSlot}
    (hf : (f (p.slots idx)).Handshaking ↔ (p.slots idx).Handshaking) :
    (p.update idx f).Unmarked j ↔ p.Unmarked j := by
  by_cases hj : j = idx
  · subst hj
    rw [Unmarked, slots_update_self, hf]
    rfl
  · exact unmarked_congr (slots_update_of_ne f hj) rfl

theorem unmarked_markDirty : (p.markDirty idx).Unmarked j ↔ p.Unmarked j ∧ j ≠ idx := by
  by_cases hj : j = idx
  · subst hj
    refine iff_of_false (fun h => ?_) fun h => h.2 rfl
    have hbit : (p.markDirty j).dirty j = true := Function.update_self ..
    exact absurd (hbit.symm.trans h.2) (by decide)
  · have hbit : (p.markDirty idx).dirty j = p.dirty j := Function.update_of_ne hj ..
    have hcongr : (p.markDirty idx).Unmarked j ↔ p.Unmarked j := unmarked_congr rfl hbit
    rw [hcongr]
    exact (and_iff_left hj).symm

/-! ## Driving a slot -/

/-- A drive that settles takes the slot out of the handshake. -/
theorem not_handshaking_driveSlot {d : Drive} (h : d.Settles) :
    ¬ ((p.driveSlot idx d).1.slots idx).Handshaking := by
  have hdead := slots_update_self p idx fun slot => slot.setState .dead
  have hfailed := slots_update_self p idx fun slot => slot.markFailed d.now
  obtain ⟨hp, hnone | hready | hnot⟩ | ⟨-, hp | hp | ⟨conn, -, hp | hp⟩⟩ := driveSlot_cases p idx d <;>
    try rw [hp]
  · exact ConnectionSlot.not_handshaking_of_none hnone
  · exact ConnectionSlot.not_handshaking_of_state (by rw [hready]; decide)
  · exact absurd h hnot
  · exact hdead ▸ ConnectionSlot.not_handshaking_of_state (by rintro ⟨⟩)
  · exact hfailed ▸ ConnectionSlot.not_handshaking_markFailed d.now
  · exact slots_update_self p idx (drained d conn) ▸ ConnectionSlot.not_handshaking_of_state (by rintro ⟨⟩)
  · exact slots_update_self p idx (drained d conn) ▸ ConnectionSlot.not_handshaking_of_state (by rintro ⟨⟩)

theorem unmarked_driveSlot (p : ConnectionPool) (idx j : SlotIdx) (d : Drive) :
    (p.driveSlot idx d).1.Unmarked j ↔ p.Unmarked j ∧ ¬ (j = idx ∧ d.Settles) := by
  by_cases hj : j = idx
  · subst hj
    by_cases hs : d.Settles
    · exact iff_of_false (fun h => not_handshaking_driveSlot hs h.1) fun h => h.2 ⟨rfl, hs⟩
    · obtain ⟨hp, -⟩ | ⟨hs', -⟩ := driveSlot_cases p j d
      · rw [hp]
        exact (and_iff_left fun h => hs h.2).symm
      · exact absurd hs' hs
  · obtain ⟨hslot, hbit⟩ := driveSlot_of_ne (p := p) d hj
    rw [unmarked_congr hslot hbit]
    exact (and_iff_left fun h => hj h.1).symm

/-- Driving a slot leaves nothing unmarked that was not. -/
theorem Scheduled.driveSlot (h : p.Scheduled) (idx : SlotIdx) (d : Drive) :
    (p.driveSlot idx d).1.Scheduled := by
  rw [scheduled_iff] at h ⊢
  exact fun j hj => h j ((unmarked_driveSlot p idx j d).1 hj).1

/-! ## `connect` -/

theorem dirty_findOrAllocate (p : ConnectionPool) (addr : SocketAddr) (now : ℕ) :
    (p.findOrAllocate addr now).1.dirty = p.dirty := by
  obtain ⟨hp, -⟩ | ⟨f, -, -, hp⟩ := findOrAllocate_cases p addr now <;> rw [hp]
  rfl

theorem unmarked_findOrAllocate_of_ne (addr : SocketAddr) (now : ℕ)
    (hj : j ≠ (p.findOrAllocate addr now).2) :
    (p.findOrAllocate addr now).1.Unmarked j ↔ p.Unmarked j :=
  unmarked_congr (slots_findOrAllocate_of_ne addr now hj) (by rw [dirty_findOrAllocate])

/-- A slot taken for a new address has no connection yet. -/
theorem not_unmarked_allocated {addr : SocketAddr} {now : ℕ} (h : p.Scheduled ∨ p.find addr = none) :
    ¬ (p.findOrAllocate addr now).1.Unmarked (p.findOrAllocate addr now).2 := by
  obtain ⟨hp, hend, hocc⟩ | ⟨f, hnone, -, hp⟩ := findOrAllocate_cases p addr now
  · rw [hp]
    rcases h with hs | hfind
    · exact scheduled_iff.1 hs _
    · exact absurd (addr_of_probeEnd hend hocc) (addr_ne_of_find_eq_none hfind hocc)
  · rintro ⟨hs, -⟩
    rw [hp, slots_update_self] at hs
    exact ConnectionSlot.not_handshaking_of_none (hnone _) hs

/-- `connect` leaves the slot it takes unmarked if it forgets it, and the others as they were. -/
theorem unmarked_connect {addr : SocketAddr} {e : Connect}
    (h : ¬ (p.findOrAllocate addr e.now).1.Unmarked (p.findOrAllocate addr e.now).2) :
    (p.connect addr false e).1.Unmarked j ↔
      j = (p.findOrAllocate addr e.now).2 ∧ p.Forgets addr e ∨
        j ≠ (p.findOrAllocate addr e.now).2 ∧ p.Unmarked j := by
  have hothers := fun hj => unmarked_findOrAllocate_of_ne (p := p) (j := j) addr e.now hj
  have hbits := dirty_findOrAllocate p addr e.now
  rw [connect_fst]
  unfold Forgets
  generalize p.findOrAllocate addr e.now = r at h hothers hbits ⊢
  obtain ⟨p₁, idx⟩ := r
  dsimp only at h hothers hbits ⊢
  -- when nothing is stored, the slot was not unmarked before
  have hnone : p₁.Unmarked j ↔ j ≠ idx ∧ p.Unmarked j := by
    by_cases hj : j = idx
    · exact iff_of_false (hj ▸ h) fun hne => hne.1 hj
    · rw [hothers hj]
      exact (and_iff_right hj).symm
  by_cases hready : (p₁.slots idx).state = .ready
  · rw [if_pos hready, hnone]
    simp only [hready, ne_eq, not_true_eq_false, false_and, and_false, false_or]
  · rw [if_neg hready]
    by_cases hcreated : e.created = false
    · rw [if_pos hcreated, hnone]
      simp only [hcreated, Bool.false_eq_true, false_and, and_false, false_or]
    · rw [if_neg hcreated, unmarked_driveSlot]
      simp only [Bool.not_eq_false] at hcreated
      by_cases hj : j = idx
      · subst hj
        have hstored : (p₁.storeConnection j .new
            (if e.isEstablished = true then ConnectionState.ready else .connecting) e.now).Unmarked j ↔
              e.isEstablished = false ∧ p.dirty j = false := by
          rw [Unmarked, storeConnection, slots_update_self, ← hbits]
          refine and_congr_left fun _ => ?_
          cases e.isEstablished with
          | true =>
            exact iff_of_false (ConnectionSlot.not_handshaking_of_state (by rintro ⟨⟩)) (by decide)
          | false => exact iff_of_true ⟨rfl, rfl⟩ rfl
        rw [hstored]
        simp only [true_and, ne_eq, not_true_eq_false, false_and, or_false, hcreated, hready,
          not_false_eq_true, and_assoc]
      · have hstored : (p₁.storeConnection idx .new
            (if e.isEstablished = true then ConnectionState.ready else .connecting) e.now).Unmarked j ↔
              p.Unmarked j := by
          rw [← hothers hj]
          exact unmarked_congr (slots_storeConnection_of_ne _ _ _ hj) rfl
        rw [hstored]
        simp only [hj, false_and, not_false_eq_true, and_true, ne_eq, true_and, false_or]

/-- From a scheduled pool, `connect` leaves nothing else unmarked. -/
theorem Scheduled.unmarked_connect (h : p.Scheduled) {addr : SocketAddr} {e : Connect} :
    (p.connect addr false e).1.Unmarked j ↔
      j = (p.findOrAllocate addr e.now).2 ∧ p.Forgets addr e := by
  rw [ConnectionPool.unmarked_connect (not_unmarked_allocated (.inl h))]
  exact or_iff_left fun hj => scheduled_iff.1 h j hj.2

theorem Scheduled.connect_iff (h : p.Scheduled) (addr : SocketAddr) (e : Connect) :
    (p.connect addr false e).1.Scheduled ↔ ¬ p.Forgets addr e := by
  rw [scheduled_iff]
  constructor
  · exact fun hs hforgets => hs _ (h.unmarked_connect.2 ⟨rfl, hforgets⟩)
  · exact fun hkeeps j hj => hkeeps (h.unmarked_connect.1 hj).2

/-- A `connect` that forgets its slot ends in an error only if the first packets cannot be sent. -/
theorem isOk_connect_of_forgets {addr : SocketAddr} {e : Connect} (h : p.Forgets addr e) :
    (p.connect addr false e).2.isOk = e.drive.packets.isOk := by
  obtain ⟨hready, hcreated, -, -, hstays⟩ := h
  have hstored : (((p.findOrAllocate addr e.now).1.storeConnection (p.findOrAllocate addr e.now).2 .new
      (if e.isEstablished = true then .ready else .connecting) e.now).slots
      (p.findOrAllocate addr e.now).2).connection = some .new := by
    rw [storeConnection, slots_update_self]
    cases e.isEstablished <;> rfl
  simp only [ConnectionPool.connect, if_neg hready, hcreated, Bool.true_eq_false, Bool.false_eq_true,
    if_false, ConnectionPool.driveSlot, hstored]
  cases hpackets : e.drive.packets with
  | error err => rfl
  | ok n =>
    have hconf : ¬ e.drive.isHandshakeConfirmed = true := fun hconf =>
      hstays ⟨by rw [hpackets]; rfl, hconf⟩
    simp only [if_neg fun h => hconf (And.left h)]
    rfl

/-! ## `send` -/

theorem unmarked_flushSent (p : ConnectionPool) (idx j : SlotIdx) (d : Drive) (status : SendStatus) :
    (p.flushSent idx d status).1.Unmarked j ↔ p.Unmarked j ∧ ¬ (j = idx ∧ d.Settles) := by
  rw [← unmarked_driveSlot]
  unfold flushSent
  split <;> rename_i heq <;> rw [heq]
  exact unmarked_update Iff.rfl

/-- Queueing alone marks nothing. -/
theorem unmarked_enqueue {conn : QuicConnection} (hconn : (p.slots idx).connection = some conn)
    (conn' : QuicConnection) (data : Bytes) :
    (p.enqueue idx conn' data).1.Unmarked j ↔ p.Unmarked j :=
  unmarked_update (f := fun slot => (slot.enqueue conn' data).1)
    (ConnectionSlot.handshaking_setConnection (Option.isSome_of_mem hconn) _)

/-- A slot on which something is queued is marked. -/
theorem unmarked_enqueueDirty (p : ConnectionPool) (idx j : SlotIdx) (data : Bytes) :
    (p.enqueueDirty idx data).1.Unmarked j ↔ p.Unmarked j ∧ j ≠ idx := by
  unfold enqueueDirty
  split
  · next hnone =>
    refine (and_iff_left_of_imp ?_).symm
    rintro h rfl
    exact ConnectionSlot.not_handshaking_of_none hnone h.1
  · next conn hconn =>
    rw [unmarked_markDirty, unmarked_enqueue hconn]

/-- The connection of a slot after `send_uni`. -/
theorem unmarked_setConnection {conn : QuicConnection} (hconn : (p.slots idx).connection = some conn)
    (conn' : QuicConnection) :
    (p.update idx fun slot => { slot with connection := some conn' }).Unmarked j ↔ p.Unmarked j :=
  unmarked_update (ConnectionSlot.handshaking_setConnection (Option.isSome_of_mem hconn) conn')

/-- If only one slot can be unmarked, and it is out of the handshake, none is. -/
theorem scheduled_of_not_handshaking (h : ∀ j, p.Unmarked j → j = idx)
    (hidx : ¬ (p.slots idx).Handshaking) : p.Scheduled := by
  refine scheduled_iff.2 fun j hj => hidx ?_
  obtain rfl := h j hj
  exact hj.1

/-- Queueing on that slot marks it. -/
theorem scheduled_enqueueDirty (h : ∀ j, p.Unmarked j → j = idx) (data : Bytes) :
    (p.enqueueDirty idx data).1.Scheduled := by
  refine scheduled_iff.2 fun j hj => ?_
  obtain ⟨hj, hne⟩ := (unmarked_enqueueDirty p idx j data).1 hj
  exact hne (h j hj)

/-- `send` on a slot, when no other slot is unmarked. -/
theorem sendOn_scheduled_iff (h : ∀ j, p.Unmarked j → j = idx) (addr : SocketAddr) (data : Bytes)
    (e : Send) : (p.sendOn idx addr data e).1.Scheduled ↔ ¬ p.SendOnLeaves idx addr e := by
  cases hst : (p.slots idx).state with
  | ready =>
    have hs : p.Scheduled :=
      scheduled_of_not_handshaking h (ConnectionSlot.not_handshaking_of_state (by rw [hst]; decide))
    simp only [SendOnLeaves, hst, not_false_eq_true, iff_true, sendOn]
    rw [scheduled_iff] at hs ⊢
    intro j
    split
    · exact hs j
    · next conn hconn =>
      split
      · rw [unmarked_flushSent, unmarked_setConnection hconn]
        exact fun hj => hs j hj.1
      · rw [unmarked_enqueue hconn]
        exact hs j
      · exact hs j
  | connecting =>
    simp only [SendOnLeaves, hst, sendOn]
    cases hconn : (p.slots idx).connection with
    | none =>
      have hs := scheduled_of_not_handshaking h (ConnectionSlot.not_handshaking_of_none hconn)
      refine iff_of_true hs ?_
      rintro ⟨-, ⟨conn, hconn', -⟩, -⟩
      rw [hconn] at hconn'
      cases hconn'
    | some conn =>
      have hshaking : (p.slots idx).Handshaking := ⟨hst, Option.isSome_of_mem hconn⟩
      dsimp only
      split
      · next conn' n hearly hsent =>
        have hsends : p.SendsEarly idx e.isInEarlyData e.sendUni :=
          ⟨conn, hconn, hearly, by rw [hsent]; rfl⟩
        simp only [scheduled_iff, unmarked_flushSent, unmarked_setConnection hconn, hsends, true_and]
        constructor
        · exact fun hs hleaves => hs idx ⟨⟨hshaking, hleaves.1⟩, fun hsettles => hleaves.2 hsettles.2⟩
        · rintro hkeeps j ⟨hj, hstays⟩
          obtain rfl := h j hj
          exact hkeeps ⟨hj.2, fun hsettles => hstays ⟨rfl, hsettles⟩⟩
      · next hnot =>
        refine iff_of_true (scheduled_enqueueDirty h data) ?_
        rintro ⟨-, ⟨conn', hconn', hearly, hok⟩, -⟩
        obtain rfl := Option.some.inj (hconn.symm.trans hconn')
        obtain ⟨conn', r, hsent⟩ : ∃ conn' r, conn.sendUni e.sendUni = (conn', r) := ⟨_, _, rfl⟩
        rw [hsent] at hok
        cases r with
        | ok n => exact hnot _ _ hearly hsent
        | error err => cases hok
  | failed =>
    have hs : p.Scheduled :=
      scheduled_of_not_handshaking h (ConnectionSlot.not_handshaking_of_state (by rw [hst]; decide))
    simp only [SendOnLeaves, hst, sendOn]
    split <;> rename_i heq
    · next err =>
      -- the pool is the one that `connect` leaves
      have hiff := hs.connect_iff addr e.reconnect
      rw [heq] at hiff
      rw [hiff, not_iff_not]
      refine (and_iff_left_of_imp fun hforgets hok => ?_).symm
      rw [← isOk_connect_of_forgets hforgets, heq] at hok
      cases hok
    · next i =>
      rw [scheduled_iff]
      have hiff : ∀ j, _ ↔ j = (p.findOrAllocate addr e.reconnect.now).2 ∧ p.Forgets addr e.reconnect :=
        fun j => hs.unmarked_connect
      simp only [heq] at hiff
      simp only [unmarked_enqueueDirty, hiff]
      constructor
      · rintro hmarked ⟨hforgets, hne⟩
        have hok := isOk_connect_of_forgets hforgets
        rw [heq] at hok
        exact hmarked _ ⟨⟨rfl, hforgets⟩, hne hok.symm⟩
      · rintro hkeeps j ⟨⟨rfl, hforgets⟩, hne⟩
        exact hkeeps ⟨hforgets, fun _ => hne⟩
  | dead =>
    simp only [SendOnLeaves, hst, not_false_eq_true, iff_true, sendOn]
    exact scheduled_of_not_handshaking h (ConnectionSlot.not_handshaking_of_state (by rw [hst]; decide))

theorem Scheduled.send_iff (h : p.Scheduled) (addr : SocketAddr) (data : Bytes) (e : Send) :
    (p.send addr data e).1.Scheduled ↔ ¬ p.SendLeaves addr e := by
  cases hfind : p.find addr with
  | some idx =>
    simp only [send, SendLeaves, hfind]
    exact sendOn_scheduled_iff (fun j hj => absurd hj (scheduled_iff.1 h j)) addr data e
  | none =>
    have hiff := h.connect_iff addr e.connect
    have honly : ∀ j, (p.connect addr false e.connect).1.Unmarked j →
        j = (p.findOrAllocate addr e.connect.now).2 := fun j hj => (h.unmarked_connect.1 hj).1
    have hret : ∀ j, (p.connect addr false e.connect).2 = .ok j →
        j = (p.findOrAllocate addr e.connect.now).2 := fun j hj => connect_snd hj
    simp only [send, SendLeaves, hfind]
    obtain ⟨q, r, heq⟩ : ∃ q r, p.connect addr false e.connect = (q, r) := ⟨_, _, rfl⟩
    rw [heq] at hiff honly hret ⊢
    cases r with
    | error err => exact hiff
    | ok idx =>
      obtain rfl := hret idx rfl
      exact sendOn_scheduled_iff honly addr data e

/-! ## `send_nonblocking` and `prewarm` -/

theorem unmarked_sendNow {conn : QuicConnection} (hconn : (p.slots idx).connection = some conn)
    (e : SendNonblocking) :
    (p.sendNow idx conn e).1.Unmarked j ↔
      p.Unmarked j ∧ ¬ (j = idx ∧ (conn.sendUni e.sendUni).2.isOk = true ∧ e.drive.Settles) := by
  unfold sendNow
  split <;> rename_i heq <;> rw [heq]
  · rw [unmarked_driveSlot, unmarked_setConnection hconn]
    exact and_congr_right fun _ => not_congr (and_congr_right fun _ => (and_iff_right rfl).symm)
  · exact (and_iff_left (by rintro ⟨-, ⟨⟩, -⟩)).symm

theorem Scheduled.sendNow (h : p.Scheduled) {conn : QuicConnection}
    (hconn : (p.slots idx).connection = some conn) (e : SendNonblocking) :
    (p.sendNow idx conn e).1.Scheduled :=
  scheduled_iff.2 fun j hj => scheduled_iff.1 h j ((unmarked_sendNow hconn e).1 hj).1

/-- For a slot that is there. -/
theorem Scheduled.sendNonblockingOn_iff (h : p.Scheduled) (idx : SlotIdx) (addr : SocketAddr)
    (e : SendNonblocking) :
    (p.sendNonblockingOn idx addr e).1.Scheduled ↔
      ¬ ((p.slots idx).state = .failed ∧ p.Forgets addr e.connect) := by
  cases hst : (p.slots idx).state with
  | failed =>
    simp only [sendNonblockingOn, hst, true_and]
    exact h.connect_iff addr e.connect
  | ready =>
    refine iff_of_true ?_ (by rintro ⟨⟨⟩, -⟩)
    cases hconn : (p.slots idx).connection with
    | none => simpa only [sendNonblockingOn, hst, hconn] using h
    | some conn => simpa only [sendNonblockingOn, hst, hconn] using h.sendNow hconn e
  | connecting =>
    refine iff_of_true ?_ (by rintro ⟨⟨⟩, -⟩)
    cases hconn : (p.slots idx).connection with
    | none => simpa only [sendNonblockingOn, hst, hconn] using h.driveSlot idx e.drive
    | some conn =>
      simp only [sendNonblockingOn, hst, hconn]
      split_ifs
      · exact h.sendNow hconn e
      · exact h.driveSlot idx e.drive
  | dead =>
    refine iff_of_true ?_ (by rintro ⟨⟨⟩, -⟩)
    simpa only [sendNonblockingOn, hst] using h

theorem Scheduled.sendNonblocking_iff (h : p.Scheduled) (addr : SocketAddr) (e : SendNonblocking) :
    (p.sendNonblocking addr e).1.Scheduled ↔ ¬ p.SendNonblockingLeaves addr e := by
  cases hfind : p.find addr with
  | some idx =>
    simp only [sendNonblocking, SendNonblockingLeaves, hfind]
    exact h.sendNonblockingOn_iff idx addr e
  | none =>
    have hiff := h.connect_iff addr e.connect
    have hunmarked : ∀ j, (p.connect addr false e.connect).1.Unmarked j ↔
        j = (p.findOrAllocate addr e.connect.now).2 ∧ p.Forgets addr e.connect :=
      fun j => h.unmarked_connect
    have hret : ∀ j, (p.connect addr false e.connect).2 = .ok j →
        j = (p.findOrAllocate addr e.connect.now).2 := fun j hj => connect_snd hj
    simp only [sendNonblocking, SendNonblockingLeaves, hfind]
    obtain ⟨q, r, heq⟩ : ∃ q r, p.connect addr false e.connect = (q, r) := ⟨_, _, rfl⟩
    rw [heq] at hiff hunmarked hret ⊢
    dsimp only at hiff hunmarked hret ⊢
    cases hsession : e.hasSession with
    | false =>
      rw [hiff, not_iff_not]
      exact (and_iff_left (by rintro ⟨⟨⟩, -⟩)).symm
    | true =>
      cases r with
      | error err =>
        rw [hiff, not_iff_not]
        exact (and_iff_left (by rintro ⟨-, ⟨⟩, -⟩)).symm
      | ok idx =>
        obtain rfl := hret idx rfl
        dsimp only
        split
        · next conn hearly hconn =>
          simp only [scheduled_iff, unmarked_sendNow hconn, hunmarked]
          have hsends : q.SendsEarly (p.findOrAllocate addr e.connect.now).2 e.isInEarlyData e.sendUni ↔
              (conn.sendUni e.sendUni).2.isOk = true := by
            refine ⟨?_, fun hok => ⟨conn, hconn, hearly, hok⟩⟩
            rintro ⟨conn', hconn', -, hok⟩
            rwa [Option.some.inj (hconn.symm.trans hconn')]
          rw [hsends]
          constructor
          · rintro hmarked ⟨hforgets, hnot⟩
            exact hmarked _ ⟨⟨rfl, hforgets⟩, fun hs => hnot ⟨trivial, rfl, hs.2⟩⟩
          · rintro hkeeps j ⟨⟨rfl, hforgets⟩, hnot⟩
            exact hkeeps ⟨hforgets, fun hs => hnot ⟨rfl, hs.2.2⟩⟩
        · next hnot =>
          rw [hiff, not_iff_not]
          refine (and_iff_left ?_).symm
          rintro ⟨-, -, ⟨conn, hconn, hearly, -⟩, -⟩
          exact hnot conn hearly hconn

/-- A slot is unmarked after `prewarm` if the last connect that took it left it so, or if none took it
and it was before. -/
theorem unmarked_prewarm (addrs : List (SocketAddr × Connect)) :
    (p.prewarm addrs).Unmarked j ↔
      p.PrewarmLeaves j addrs ∨ p.Unmarked j ∧ ¬ p.Retakes j addrs := by
  induction addrs generalizing p with
  | nil => simp only [prewarm, PrewarmLeaves, Retakes, not_false_eq_true, and_true, false_or]
  | cons a addrs ih =>
    obtain ⟨addr, e⟩ := a
    cases hfind : p.find addr with
    | some idx =>
      simp only [prewarm, PrewarmLeaves, Retakes, hfind]
      exact ih
    | none =>
      simp only [prewarm, PrewarmLeaves, Retakes, hfind]
      rw [ih, unmarked_connect (not_unmarked_allocated (.inr hfind))]
      tauto

theorem Scheduled.prewarm_iff (h : p.Scheduled) (addrs : List (SocketAddr × Connect)) :
    (p.prewarm addrs).Scheduled ↔ ¬ ∃ idx, p.PrewarmLeaves idx addrs := by
  rw [scheduled_iff, not_exists]
  refine forall_congr' fun idx => not_congr ?_
  rw [unmarked_prewarm]
  exact or_iff_left fun hold => scheduled_iff.1 h idx hold.1

/-! ## `poll` -/

/-- A packet changes no bit and puts no slot into the handshake. -/
theorem unmarked_handleRecv (p : ConnectionPool) (packet : Packet) :
    (p.handleRecv packet).dirty = p.dirty ∧ ∀ j, (p.handleRecv packet).Unmarked j → p.Unmarked j := by
  obtain hp | ⟨idx, hp | hp⟩ := handleRecv_cases p packet <;> rw [hp]
  · exact ⟨rfl, fun _ => id⟩
  · exact ⟨rfl, fun j => (unmarked_update Iff.rfl).1⟩
  · refine ⟨rfl, fun j hj => ?_⟩
    by_cases hidx : j = idx
    · subst hidx
      have hs := hj.1
      rw [ConnectionPool.markFailed, slots_update_self] at hs
      exact absurd hs (ConnectionSlot.not_handshaking_markFailed packet.now)
    · exact (unmarked_congr (slots_update_of_ne _ hidx) rfl).1 hj

theorem unmarked_packets (p : ConnectionPool) (packets : List Packet) :
    (packets.foldl handleRecv p).dirty = p.dirty ∧
      ∀ j, (packets.foldl handleRecv p).Unmarked j → p.Unmarked j := by
  induction packets generalizing p with
  | nil => exact ⟨rfl, fun _ => id⟩
  | cons packet packets ih =>
    obtain ⟨hdirty, hun⟩ := unmarked_handleRecv p packet
    obtain ⟨hdirty', hun'⟩ := ih (p.handleRecv packet)
    exact ⟨hdirty'.trans hdirty, fun j hj => hun j (hun' j hj)⟩

/-- What is still connecting after the drive is marked again. -/
theorem unmarked_remark (p : ConnectionPool) (idx j : SlotIdx) :
    (p.remark idx).Unmarked j ↔ p.Unmarked j ∧ j ≠ idx := by
  have hout : (p.slots idx).state ≠ .connecting → (p.Unmarked j ↔ p.Unmarked j ∧ j ≠ idx) := by
    intro hst
    refine (and_iff_left_of_imp ?_).symm
    rintro h rfl
    exact hst h.1.1
  unfold remark
  split
  · next hst => exact hout (by rw [hst]; decide)
  · next hst => exact hout (by rw [hst]; decide)
  · exact unmarked_markDirty
  · next hst _ =>
    split_ifs
    · exact unmarked_markDirty
    · exact hout (by rw [hst]; decide)
  · next hst _ => exact hout (by rw [hst]; decide)

/-- The loop leaves no slot unmarked that it goes over. -/
theorem not_unmarked_driveDirty {drives : SlotIdx → Drive} {dirty : List SlotIdx}
    (h : j ∈ dirty ∨ ¬ p.Unmarked j) : ¬ (driveDirty drives dirty p).Unmarked j := by
  induction dirty generalizing p with
  | nil => exact h.resolve_left List.not_mem_nil
  | cons idx dirty ih =>
    refine ih (or_iff_not_imp_left.2 fun hj hun => ?_)
    obtain ⟨hun, hne⟩ := (unmarked_remark _ idx j).1 hun
    rcases h with hmem | hnot
    · exact (List.mem_cons.1 hmem).elim hne hj
    · exact hnot ((unmarked_driveSlot p idx j _).1 hun).1

/-- `poll` leaves no slot unmarked that was marked before. -/
theorem not_unmarked_poll (h : p.dirty j = true) (e : Poll) : ¬ (p.poll e).1.Unmarked j := by
  obtain ⟨hdirty, -⟩ := unmarked_packets p e.packets
  simp only [poll]
  split_ifs
  · intro hun
    have hbit := hun.2
    rw [hdirty, h] at hbit
    cases hbit
  · refine not_unmarked_driveDirty (.inl (List.mem_filter.2 ⟨List.mem_finRange j, ?_⟩))
    rw [hdirty, h]

theorem Scheduled.poll (h : p.Scheduled) (e : Poll) : (p.poll e).1.Scheduled := by
  refine scheduled_iff.2 fun j => ?_
  cases hbit : p.dirty j with
  | true => exact not_unmarked_poll hbit e
  | false =>
    obtain ⟨hdirty, hun⟩ := unmarked_packets p e.packets
    simp only [ConnectionPool.poll]
    split_ifs
    · exact fun hj => scheduled_iff.1 h j (hun j hj)
    · refine not_unmarked_driveDirty (.inr fun hj => scheduled_iff.1 h j (hun j ⟨hj.1, ?_⟩))
      rw [hdirty, hbit]

/-! ## Runs -/

/-- A call that does not block keeps the handshakes scheduled unless it leaves one unmarked. -/
theorem Scheduled.after_iff (h : p.Scheduled) {call : Call} (hcall : call.Nonblocking) :
    (p.after call).Scheduled ↔ ¬ p.Leaves call := by
  cases call with
  | connect addr blocking e =>
    obtain rfl : blocking = false := hcall
    exact h.connect_iff addr e
  | send addr data e => exact h.send_iff addr data e
  | sendNonblocking addr e => exact h.sendNonblocking_iff addr e
  | prewarm addrs => exact h.prewarm_iff addrs
  | poll e => exact iff_of_true (h.poll e) id
  | keepAliveIfIdle addr threshold d =>
    refine iff_of_true ?_ id
    simp only [after, keepAliveIfIdle]
    split
    · exact h
    · split_ifs
      · exact h.driveSlot _ d
      · exact h

theorem scheduled_new : new.Scheduled :=
  fun _ hs => absurd hs (ConnectionSlot.not_handshaking_of_none rfl)

/-- In every run of calls that do not block and leave nothing unmarked, every handshake is scheduled;
whether the next call keeps this is decided by `Leaves`; and `poll` leaves none of the slots it
processes unmarked. -/
theorem scheduled_of_keepsMarked {p : ConnectionPool} (hp : system.ReachableVia KeepsMarked p) :
    p.Scheduled ∧
    (∀ call : Call, call.Nonblocking → ((p.after call).Scheduled ↔ ¬ p.Leaves call)) ∧
    ∀ e idx, p.dirty idx = true → ¬ (p.poll e).1.Unmarked idx := by
  have hs : p.Scheduled := by
    refine hp.invariant (I := Scheduled) (fun p h => ?_) fun p call p' hkeeps h hstep => ?_
    · rw [show p = new from h]
      exact scheduled_new
    · cases hstep
      exact (h.after_iff hkeeps.1).2 hkeeps.2
  exact ⟨hs, fun _ hcall => hs.after_iff hcall, fun e _ hbit => not_unmarked_poll hbit e⟩

end ConnectionPool

/-- The slot that the sample address takes in a new pool. -/
def sampleIdx : SlotIdx := @Fin.ofNat maxPoolSize maxPoolSize_neZero samplePeer.hash

/-- `send` queues a transaction for a new address and marks the slot. -/
theorem scheduled_after_send :
    system.ReachableVia ConnectionPool.KeepsMarked (ConnectionPool.new.after (.send samplePeer [7] sampleSend)) ∧
    (ConnectionPool.new.after (.send samplePeer [7] sampleSend)).Scheduled ∧
    ((ConnectionPool.new.after (.send samplePeer [7] sampleSend)).slots sampleIdx).Handshaking := by
  have hkeeps : ¬ ConnectionPool.new.SendLeaves samplePeer sampleSend := by
    intro h
    obtain ⟨-, ⟨conn, -, hearly, -⟩, -⟩ :
        _ ∧ (∃ conn : QuicConnection, _ ∧ false = true ∧ _) ∧ _ := h
    cases hearly
  have hreach : system.ReachableVia ConnectionPool.KeepsMarked
      (ConnectionPool.new.after (.send samplePeer [7] sampleSend)) :=
    .step (.send samplePeer [7] sampleSend) (.init rfl) ⟨trivial, hkeeps⟩ rfl
  exact ⟨hreach, (ConnectionPool.scheduled_of_keepsMarked hreach).1, rfl, rfl⟩

/-- `connect` leaves the slot it takes unmarked, and a `poll` that finds the handshake confirmed leaves it
connecting. -/
theorem connect_not_scheduled :
    system.Reachable (ConnectionPool.new.after (.connect samplePeer false sampleSend.connect)) ∧
    ¬ (ConnectionPool.new.after (.connect samplePeer false sampleSend.connect)).Scheduled ∧
    (((ConnectionPool.new.after (.connect samplePeer false sampleSend.connect)).after
      (.poll ⟨[], false, fun _ => sampleDrive true acceptance⟩)).slots sampleIdx).Handshaking := by
  refine ⟨System.Reachable.step (.init rfl) (.connect samplePeer false sampleSend.connect) rfl,
    fun h => ?_, rfl, rfl⟩
  have hbit := h sampleIdx ⟨rfl, rfl⟩
  cases hbit

end Land.Quic
