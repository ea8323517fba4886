import Land.Quic.Endpoint

/-!
# Queued transactions are not lost

A transaction that `send` queued stays in the queue of its connection until it is sent, in its turn,
unless the slot fails or is evicted.  The endpoint breaks this in two ways: the loop that drains the
queue drops the transaction it has taken when `quiche` refuses it five times or fails, and `connect`
on a slot that is still connecting replaces the connection together with its queue.  Runs in which
neither happens lose nothing.
-/

namespace Land.Quic

/-- `quiche` takes every queued transaction within the attempts. -/
def Drive.Accepts (d : Drive) : Prop := ∀ n, QuicConnection.Accepted (d.sendUni n)

namespace ConnectionPool

/-- Every transaction queued on a connection in the pool, or on one that was replaced, is accounted
for. -/
def NoLoss (p : ConnectionPool) : Prop :=
  (∀ idx conn, (p.slots idx).connection = some conn → conn.Kept) ∧
  ∀ conn ∈ p.replaced, conn.Delivered

/-- A `connect` to the address replaces no connection that is still connecting and has transactions
queued. -/
def KeepsQueue (p : ConnectionPool) (addr : SocketAddr) : Prop :=
  ∀ idx conn, p.probeEnd addr = some idx → (p.slots idx).occupied = true →
    (p.slots idx).state = .connecting → (p.slots idx).connection = some conn →
    conn.txQueue.contents = []

/-- `send` reconnects a failed slot. -/
def Reconnects (p : ConnectionPool) (addr : SocketAddr) : Prop :=
  ∃ idx, p.find addr = some idx ∧ (p.slots idx).state = .failed

/-- The call drops no queued transaction. -/
def Safe (p : ConnectionPool) : Call → Prop
  | .connect addr _ _ => p.KeepsQueue addr
  | .send addr _ e => e.drive.Accepts ∧ (p.Reconnects addr → p.KeepsQueue addr)
  | .sendNonblocking addr e => e.drive.Accepts ∧ (p.Reconnects addr → p.KeepsQueue addr)
  | .prewarm _ => True
  | .poll e => ∀ idx, (e.drives idx).Accepts
  | .keepAliveIfIdle _ _ d => d.Accepts

end ConnectionPool

/-! ## Slots -/

/-- What holds of every slot. -/
structure ConnectionSlot.Ok (slot : ConnectionSlot) : Prop where
  free : slot.occupied = false → slot.connection = none
  conn : ∀ c, slot.connection = some c → c.Ok ∧ c.NoneLost
  down : ∀ c, slot.connection = some c → slot.state.Down → c.excused = c.queued.length

namespace ConnectionSlot

variable {slot : ConnectionSlot}

theorem Ok.setState (h : slot.Ok) (st : ConnectionState) : (slot.setState st).Ok := by
  by_cases hst : st.Down
  · have hconn : (slot.setState st).connection = slot.connection.map .excuse := if_pos hst
    refine ⟨fun hfree => ?_, fun c hc => ?_, fun c hc _ => ?_⟩
    · rw [hconn, h.free hfree]
      rfl
    · obtain ⟨c', hc', rfl⟩ := Option.map_eq_some_iff.1 (hconn.symm.trans hc)
      exact (h.conn c' hc').1.excuse
    · obtain ⟨c', hc', rfl⟩ := Option.map_eq_some_iff.1 (hconn.symm.trans hc)
      rfl
  · have hconn : (slot.setState st).connection = slot.connection := if_neg hst
    refine ⟨fun hfree => hconn.trans (h.free hfree), fun c hc => h.conn c (hconn.symm.trans hc),
      fun c hc hdown => absurd hdown hst⟩

theorem Ok.touch (h : slot.Ok) (now : ℕ) : (slot.touch now).Ok := ⟨h.free, h.conn, h.down⟩

theorem Ok.resetRetry (h : slot.Ok) : slot.resetRetry.Ok := ⟨h.free, h.conn, h.down⟩

theorem Ok.markFailed (h : slot.Ok) (now : ℕ) : (slot.markFailed now).Ok := by
  have hslot : ConnectionSlot.Ok { slot with retryCount := slot.retryCount + 1 } :=
    ⟨h.free, h.conn, h.down⟩
  simp only [ConnectionSlot.markFailed]
  split_ifs
  · have hdead := hslot.setState .dead
    exact ⟨hdead.free, hdead.conn, hdead.down⟩
  · exact hslot.setState .failed

/-- A slot without a connection. -/
theorem ok_of_none (h : slot.connection = none) : slot.Ok := by
  refine ⟨fun _ => h, fun c hc => ?_, fun c hc => ?_⟩ <;>
  · rw [h] at hc
    cases hc

/-- A slot gets another connection, with all excused if the slot is down. -/
theorem Ok.setConnection {c : QuicConnection} (hocc : slot.occupied = true) (hok : c.Ok)
    (hlost : c.NoneLost) (hdown : slot.state.Down → c.excused = c.queued.length) :
    ConnectionSlot.Ok { slot with connection := some c } := by
  refine ⟨fun hfree => ?_, ?_, ?_⟩
  · rw [hocc] at hfree
    cases hfree
  · rintro c' ⟨⟩
    exact ⟨hok, hlost⟩
  · rintro c' ⟨⟩
    exact hdown

theorem Ok.occupied (h : slot.Ok) {c : QuicConnection} (hc : slot.connection = some c) :
    slot.occupied = true := by
  cases hocc : slot.occupied with
  | true => rfl
  | false =>
    rw [h.free hocc] at hc
    cases hc

/-- `send_uni` leaves the queue alone. -/
theorem Ok.sendUni (h : slot.Ok) {c c' : QuicConnection} (hc : slot.connection = some c)
    (hf : QuicConnection.Frame c c') : ConnectionSlot.Ok { slot with connection := some c' } := by
  obtain ⟨hok, hlost⟩ := h.conn c hc
  refine Ok.setConnection (h.occupied hc) (hf.ok hok) (hf.noneLost hlost) fun hdown => ?_
  rw [hf.excused, hf.queued]
  exact h.down c hc hdown

theorem Ok.enqueue (h : slot.Ok) {c c' : QuicConnection} (hc : slot.connection = some c)
    (hf : QuicConnection.Frame c c') (data : Bytes) : (slot.enqueue c' data).1.Ok := by
  obtain ⟨hok, hlost⟩ := h.conn c hc
  obtain ⟨hok', hlost'⟩ := (hf.ok hok).enqueue (hf.noneLost hlost) data
  simp only [ConnectionSlot.enqueue]
  split_ifs with hdown
  · obtain ⟨hok'', hlost''⟩ := hok'.excuse
    exact Ok.setConnection (h.occupied hc) hok'' hlost'' fun _ => rfl
  · exact Ok.setConnection (h.occupied hc) hok' hlost' fun hd => absurd hd hdown

/-- The queue of the connection, if there is one, is empty. -/
def Empty (slot : ConnectionSlot) : Prop :=
  ∀ c, slot.connection = some c → c.txQueue.contents = []

theorem Empty.setState (h : slot.Empty) (st : ConnectionState) : (slot.setState st).Empty := by
  intro c hc
  simp only [ConnectionSlot.setState] at hc
  split_ifs at hc
  · obtain ⟨c', hc', rfl⟩ := Option.map_eq_some_iff.1 hc
    exact h c' hc'
  · exact h c hc

theorem Empty.markFailed (h : slot.Empty) (now : ℕ) : (slot.markFailed now).Empty := by
  have hslot : ConnectionSlot.Empty { slot with retryCount := slot.retryCount + 1 } := h
  simp only [ConnectionSlot.markFailed]
  split_ifs
  · exact fun c hc => hslot.setState .dead c hc
  · exact hslot.setState .failed

end ConnectionSlot

/-! ## The pool -/

namespace ConnectionPool

variable {p : ConnectionPool} {idx : SlotIdx}

/-- The invariant of runs that lose nothing. -/
structure Inv (p : ConnectionPool) : Prop where
  slots : ∀ idx, (p.slots idx).Ok
  replaced : ∀ conn ∈ p.replaced, conn.Delivered

theorem Inv.noLoss (h : Inv p) : p.NoLoss := by
  refine ⟨fun idx conn hc => ?_, h.replaced⟩
  obtain ⟨hok, hlost⟩ := (h.slots idx).conn conn hc
  exact hok.kept hlost

theorem Inv.update (h : Inv p) {f : ConnectionSlot → ConnectionSlot}
    (hf : (f (p.slots idx)).Ok) : Inv (p.update idx f) := by
  refine ⟨fun j => ?_, h.replaced⟩
  by_cases hj : j = idx
  · subst hj
    rw [slots_update_self]
    exact hf
  · rw [slots_update_of_ne f hj]
    exact h.slots j

theorem Inv.markFailed (h : Inv p) (idx : SlotIdx) (now : ℕ) : Inv (p.markFailed idx now) :=
  h.update ((h.slots idx).markFailed now)

theorem Inv.markDirty (h : Inv p) (idx : SlotIdx) : Inv (p.markDirty idx) := ⟨h.slots, h.replaced⟩

theorem Inv.clearDirty (h : Inv p) (idx : SlotIdx) : Inv (p.clearDirty idx) := ⟨h.slots, h.replaced⟩

/-- Draining the queue loses nothing if it is empty or `quiche` takes what is in it. -/
theorem Inv.drained (h : Inv p) {d : Drive} (hd : (p.slots idx).Empty ∨ d.Accepts)
    {conn : QuicConnection} (hc : (p.slots idx).connection = some conn) :
    Inv (p.update idx (ConnectionPool.drained d conn)) := by
  have hslot := h.slots idx
  obtain ⟨hok, hlost⟩ := hslot.conn conn hc
  obtain ⟨hok', -, -⟩ := QuicConnection.drain_ok hok d.sendUni conn.txQueue.count 0
  have hlost' : (QuicConnection.drain d.sendUni conn.txQueue.count 0 conn).1.NoneLost := by
    rcases hd with hempty | hacc
    · rw [QuicConnection.drain_of_contents_nil _ _ _ (hempty conn hc)]
      exact hlost
    · exact QuicConnection.drain_noneLost hacc hlost _ _
  refine h.update (ConnectionSlot.Ok.setConnection (hslot.occupied hc) hok' hlost' ?_)
  rintro (hdown | hdown) <;> cases hdown

/-- Driving a slot loses nothing if there is nothing to drain or `quiche` takes it. -/
theorem Inv.driveSlot (h : Inv p) {d : Drive} (hd : (p.slots idx).Empty ∨ d.Accepts) :
    Inv (p.driveSlot idx d).1 := by
  obtain ⟨hp, -⟩ | ⟨-, hp | hp | ⟨conn, hc, hp | hp⟩⟩ := driveSlot_cases p idx d <;> rw [hp]
  · exact h
  · exact (h.update ((h.slots idx).setState .dead)).clearDirty idx
  · exact (h.markFailed idx d.now).clearDirty idx
  · exact h.drained hd hc
  · exact (h.drained hd hc).clearDirty idx

/-- Driving a slot with an empty queue leaves it empty. -/
theorem empty_driveSlot (h : (p.slots idx).Empty) (d : Drive) :
    ((p.driveSlot idx d).1.slots idx).Empty := by
  have hdrained : ∀ conn, (p.slots idx).connection = some conn →
      ((p.update idx (drained d conn)).slots idx).Empty := by
    intro conn hc
    rw [slots_update_self]
    rintro c ⟨⟩
    rw [QuicConnection.drain_of_contents_nil _ _ _ (h conn hc)]
    exact h conn hc
  have hdead := slots_update_self p idx fun slot => slot.setState .dead
  have hfailed := slots_update_self p idx fun slot => slot.markFailed d.now
  obtain ⟨hp, -⟩ | ⟨-, hp | hp | ⟨conn, hc, hp | hp⟩⟩ := driveSlot_cases p idx d <;> rw [hp]
  · exact h
  · exact hdead ▸ h.setState .dead
  · exact hfailed ▸ h.markFailed d.now
  · exact hdrained conn hc
  · exact hdrained conn hc

theorem Inv.handleRecv (h : Inv p) (packet : Packet) : Inv (p.handleRecv packet) := by
  obtain hp | ⟨idx, hp | hp⟩ := handleRecv_cases p packet <;> rw [hp]
  · exact h
  · exact h.update ((h.slots idx).touch packet.now)
  · exact h.markFailed idx packet.now

theorem empty_handleRecv (h : (p.slots idx).Empty) (packet : Packet) :
    ((p.handleRecv packet).slots idx).Empty := by
  have hupdate : ∀ (j : SlotIdx) (f : ConnectionSlot → ConnectionSlot), (f (p.slots idx)).Empty →
      ((p.update j f).slots idx).Empty := by
    intro j f hf
    by_cases hj : idx = j
    · subst hj
      rw [slots_update_self]
      exact hf
    · rw [slots_update_of_ne f hj]
      exact h
  obtain hp | ⟨j, hp | hp⟩ := handleRecv_cases p packet <;> rw [hp]
  · exact h
  · exact hupdate j _ h
  · exact hupdate j _ (h.markFailed packet.now)

/-- Packets lose nothing and queue nothing. -/
theorem Inv.packets (h : Inv p) (packets : List Packet) : Inv (packets.foldl ConnectionPool.handleRecv p) := by
  induction packets generalizing p with
  | nil => exact h
  | cons packet packets ih => exact ih (h.handleRecv packet)

theorem empty_packets (h : (p.slots idx).Empty) (packets : List Packet) :
    ((packets.foldl ConnectionPool.handleRecv p).slots idx).Empty := by
  induction packets generalizing p with
  | nil => exact h
  | cons packet packets ih => exact ih (empty_handleRecv h packet)

/-! ## `connect` -/

theorem Inv.storeConnection (h : Inv p) (hocc : (p.slots idx).occupied = true)
    (hold : ∀ conn, (p.slots idx).connection = some conn → conn.Delivered) (st : ConnectionState)
    (now : ℕ) : Inv (p.storeConnection idx .new st now) := by
  have hnew : ConnectionSlot.Ok { p.slots idx with connection := some .new } := by
    refine ⟨fun hfree => ?_, ?_, ?_⟩
    · have hfree : (p.slots idx).occupied = false := hfree
      rw [hocc] at hfree
      cases hfree
    · rintro c ⟨⟩
      exact ⟨QuicConnection.ok_new, QuicConnection.noneLost_new⟩
    · rintro c ⟨⟩ -
      rfl
  refine ⟨(h.update (f := fun slot => _) ((hnew.setState st).touch now)).slots, fun conn hconn => ?_⟩
  rcases List.mem_append.1 hconn with hconn | hconn
  · exact h.replaced conn hconn
  · exact hold conn (Option.mem_toList.1 hconn)

theorem empty_storeConnection (p : ConnectionPool) (idx : SlotIdx) (st : ConnectionState) (now : ℕ) :
    ((p.storeConnection idx .new st now).slots idx).Empty := by
  have hnew : ConnectionSlot.Empty { p.slots idx with connection := some .new } := by
    rintro c ⟨⟩
    exact TransactionQueue.contents_new
  rw [storeConnection, slots_update_self]
  exact hnew.setState st

/-- Waiting for the handshake of a new connection loses nothing: its queue is empty. -/
theorem Inv.awaitHandshake (h : Inv p) (hempty : (p.slots idx).Empty) (now : ℕ)
    (rounds : List Round) : Inv (ConnectionPool.awaitHandshake idx now rounds p).1 := by
  induction rounds generalizing p with
  | nil => exact h.markFailed idx now
  | cons r rounds ih =>
    have h₁ := h.packets r.packets
    have hempty₁ := empty_packets hempty r.packets
    have h₂ := h₁.driveSlot (d := r.drive) (.inl hempty₁)
    have hempty₂ := empty_driveSlot hempty₁ r.drive
    obtain ⟨p₂, res, hdrive⟩ : ∃ p₂ res,
        (r.packets.foldl ConnectionPool.handleRecv p).driveSlot idx r.drive = (p₂, res) :=
      ⟨_, _, rfl⟩
    rw [hdrive] at h₂ hempty₂
    have hready := h₂.update (f := fun slot => slot.setState .ready) ((h₂.slots idx).setState .ready)
    simp only [ConnectionPool.awaitHandshake, hdrive]
    by_cases hio : r.ioError = true
    · rw [if_pos hio]
      exact h₁
    · rw [if_neg hio]
      cases res with
      | error e => exact h₂
      | ok _ =>
        dsimp only
        cases (p₂.slots idx).connection with
        | none => exact ih h₂ hempty₂
        | some conn =>
          dsimp only
          split_ifs
          · exact hready
          · refine ih hready ?_
            rw [slots_update_self]
            exact hempty₂.setState .ready
          · exact h₂.markFailed idx r.now
          · exact ih h₂ hempty₂

/-- What the slot for an address has may be replaced, unless it is ready. -/
theorem Inv.findOrAllocate (h : Inv p) {addr : SocketAddr} (hkeep : p.KeepsQueue addr) {now : ℕ}
    {p₁ : ConnectionPool} {idx : SlotIdx} (heq : p.findOrAllocate addr now = (p₁, idx)) :
    Inv p₁ ∧ (p₁.slots idx).occupied = true ∧
      ((p₁.slots idx).state ≠ .ready →
        ∀ conn, (p₁.slots idx).connection = some conn → conn.Delivered) := by
  have hcases := findOrAllocate_cases p addr now
  rw [heq] at hcases
  obtain ⟨hp, hend, hocc⟩ | ⟨f, hnone, hocc, hp⟩ := hcases
  · obtain rfl : p₁ = p := hp
    refine ⟨h, hocc, fun hready conn hconn => ?_⟩
    obtain ⟨hok, hlost⟩ := (h.slots idx).conn conn hconn
    cases hst : (p₁.slots idx).state with
    | connecting => exact hok.delivered hlost (hkeep idx conn hend hocc hst hconn)
    | ready => exact absurd hst hready
    | failed =>
      exact QuicConnection.delivered_of_excused ((h.slots idx).down conn hconn (.inl hst))
    | dead =>
      exact QuicConnection.delivered_of_excused ((h.slots idx).down conn hconn (.inr hst))
  · obtain rfl : p₁ = p.update idx f := hp
    rw [slots_update_self]
    refine ⟨h.update (ConnectionSlot.ok_of_none (hnone _)), hocc, fun _ conn hconn => ?_⟩
    rw [hnone] at hconn
    cases hconn

theorem Inv.connect (h : Inv p) {addr : SocketAddr} (hkeep : p.KeepsQueue addr) (blocking : Bool)
    (e : Connect) : Inv (p.connect addr blocking e).1 := by
  obtain ⟨p₁, idx, heq⟩ : ∃ p₁ idx, p.findOrAllocate addr e.now = (p₁, idx) := ⟨_, _, rfl⟩
  obtain ⟨h₁, hocc, hold⟩ := h.findOrAllocate hkeep heq
  simp only [ConnectionPool.connect, heq]
  by_cases hready : (p₁.slots idx).state = .ready
  · rw [if_pos hready]
    exact h₁
  · rw [if_neg hready]
    by_cases hcreated : e.created = false
    · rw [if_pos hcreated]
      exact h₁
    · rw [if_neg hcreated]
      generalize (if e.isEstablished = true then ConnectionState.ready else .connecting) = st
      have hempty := empty_storeConnection p₁ idx st e.now
      have h₂ := (h₁.storeConnection hocc (hold hready) st e.now).driveSlot (d := e.drive)
        (.inl hempty)
      have hempty₂ := empty_driveSlot hempty e.drive
      obtain ⟨p₂, res, hdrive⟩ : ∃ p₂ res,
          (p₁.storeConnection idx .new st e.now).driveSlot idx e.drive = (p₂, res) := ⟨_, _, rfl⟩
      rw [hdrive] at h₂ hempty₂ ⊢
      cases res with
      | error err => exact h₂
      | ok _ =>
        cases blocking with
        | true => exact h₂.awaitHandshake hempty₂ e.now e.rounds
        | false => exact h₂

/-- A new address replaces nothing. -/
theorem keepsQueue_of_find_eq_none {addr : SocketAddr} (h : p.find addr = none) :
    p.KeepsQueue addr := fun _ _ hend hocc _ _ =>
  absurd (addr_of_probeEnd hend hocc) (addr_ne_of_find_eq_none h hocc)

/-- Neither does a second `connect` to it, once the slot has failed. -/
theorem keepsQueue_connect {addr : SocketAddr} (h : p.find addr = none) {e : Connect}
    {p' : ConnectionPool} (heq : p.connect addr false e = (p', .ok idx))
    (hfailed : (p'.slots idx).state = .failed) : p'.KeepsQueue addr := by
  intro j conn hend hocc hst hconn
  have haddr := addr_of_probeEnd hend hocc
  obtain rfl : idx = (p.findOrAllocate addr e.now).2 := connect_snd (congrArg Prod.snd heq)
  by_cases hj : j = (p.findOrAllocate addr e.now).2
  · subst hj
    have := hst.symm.trans hfailed
    cases this
  · have hframe := slots_connect_of_ne addr e hj
    rw [heq] at hframe
    rw [hframe] at hocc haddr
    exact absurd haddr (addr_ne_of_find_eq_none h hocc)

/-! ## The other calls -/

theorem Inv.flushSent (h : Inv p) {d : Drive} (hd : d.Accepts) (status : SendStatus) :
    Inv (p.flushSent idx d status).1 := by
  have h₁ : Inv (p.driveSlot idx d).1 := h.driveSlot (.inr hd)
  unfold ConnectionPool.flushSent
  split <;> rename_i heq <;> rw [heq] at h₁
  · exact h₁
  · exact h₁.update (h₁.slots idx).resetRetry

theorem Inv.enqueueDirty (h : Inv p) (idx : SlotIdx) (data : Bytes) :
    Inv (p.enqueueDirty idx data).1 := by
  unfold ConnectionPool.enqueueDirty
  split
  · exact h
  · next conn hconn =>
    have hslot := (h.slots idx).enqueue hconn (.refl conn) data
    exact (h.update (f := fun slot => (slot.enqueue conn data).1) hslot).markDirty idx

theorem Inv.sendUni (h : Inv p) {conn conn' : QuicConnection}
    (hconn : (p.slots idx).connection = some conn) (hf : QuicConnection.Frame conn conn') :
    Inv (p.update idx fun slot => { slot with connection := some conn' }) :=
  h.update ((h.slots idx).sendUni hconn hf)

theorem Inv.sendOn (h : Inv p) {addr : SocketAddr} {e : Send} (hd : e.drive.Accepts)
    (hkeep : (p.slots idx).state = .failed → p.KeepsQueue addr) (data : Bytes) :
    Inv (p.sendOn idx addr data e).1 := by
  cases hst : (p.slots idx).state with
  | ready =>
    simp only [ConnectionPool.sendOn, hst]
    split
    · exact h
    · next conn hconn =>
      have hf := conn.sendUni_frame e.sendUni
      split <;> rename_i heq <;> rw [heq] at hf
      · exact (h.sendUni hconn hf).flushSent hd .sent
      · exact h.update (f := fun slot => (slot.enqueue _ data).1)
          ((h.slots idx).enqueue hconn hf data)
      · exact h
  | connecting =>
    simp only [ConnectionPool.sendOn, hst]
    split
    · exact h
    · next conn hconn =>
      have hf := conn.sendUni_frame e.sendUni
      split
      · next heq =>
        rw [heq] at hf
        exact (h.sendUni hconn hf).flushSent hd .sentEarlyData
      · exact h.enqueueDirty idx data
  | failed =>
    simp only [ConnectionPool.sendOn, hst]
    have h₁ := h.connect (hkeep hst) false e.reconnect
    split <;> rename_i heq <;> rw [heq] at h₁
    · exact h₁
    · exact h₁.enqueueDirty idx data
  | dead =>
    simp only [ConnectionPool.sendOn, hst]
    exact h

theorem Inv.send (h : Inv p) {addr : SocketAddr} {e : Send} (hd : e.drive.Accepts)
    (hkeep : p.Reconnects addr → p.KeepsQueue addr) (data : Bytes) :
    Inv (p.send addr data e).1 := by
  cases hfind : p.find addr with
  | some idx =>
    simp only [ConnectionPool.send, hfind]
    exact h.sendOn hd (fun hfailed => hkeep ⟨idx, hfind, hfailed⟩) data
  | none =>
    have h₁ := h.connect (keepsQueue_of_find_eq_none hfind) false e.connect
    simp only [ConnectionPool.send, hfind]
    split <;> rename_i heq <;> rw [heq] at h₁
    · exact h₁
    · exact h₁.sendOn hd (keepsQueue_connect hfind heq) data

theorem Inv.sendNow (h : Inv p) {conn : QuicConnection} (hconn : (p.slots idx).connection = some conn)
    {e : SendNonblocking} (hd : e.drive.Accepts) : Inv (p.sendNow idx conn e).1 := by
  have hf := conn.sendUni_frame e.sendUni
  unfold ConnectionPool.sendNow
  split <;> rename_i heq <;> rw [heq] at hf
  · exact (h.sendUni hconn hf).driveSlot (.inr hd)
  · exact h

theorem Inv.sendNonblocking (h : Inv p) {addr : SocketAddr} {e : SendNonblocking}
    (hd : e.drive.Accepts) (hkeep : p.Reconnects addr → p.KeepsQueue addr) :
    Inv (p.sendNonblocking addr e).1 := by
  cases hfind : p.find addr with
  | some idx =>
    have hdrive : Inv (p.driveSlot idx e.drive).1 := h.driveSlot (.inr hd)
    simp only [ConnectionPool.sendNonblocking, hfind, ConnectionPool.sendNonblockingOn]
    split
    · exact h
    · next hconn => exact h.sendNow hconn hd
    · exact hdrive
    · next hconn =>
      split_ifs
      · exact h.sendNow hconn hd
      · exact hdrive
    · next hst => exact h.connect (hkeep ⟨idx, hfind, hst⟩) false e.connect
    · exact h
  | none =>
    have h₁ := h.connect (keepsQueue_of_find_eq_none hfind) false e.connect
    simp only [ConnectionPool.sendNonblocking, hfind]
    split <;> rename_i heq <;> rw [heq] at h₁
    · exact h₁
    · split
      · next hconn => exact h₁.sendNow hconn hd
      · exact h₁
    · exact h₁

theorem Inv.prewarm (h : Inv p) (addrs : List (SocketAddr × Connect)) : Inv (p.prewarm addrs) := by
  induction addrs generalizing p with
  | nil => exact h
  | cons a addrs ih =>
    unfold ConnectionPool.prewarm
    split
    · exact ih h
    · next hfind => exact ih (h.connect (keepsQueue_of_find_eq_none hfind) false a.2)

theorem Inv.remark (h : Inv p) (idx : SlotIdx) : Inv (p.remark idx) := by
  unfold ConnectionPool.remark
  split
  · exact h
  · exact h
  · exact h.markDirty idx
  · split_ifs
    · exact h.markDirty idx
    · exact h
  · exact h

theorem Inv.driveDirty (h : Inv p) {drives : SlotIdx → Drive} (hd : ∀ idx, (drives idx).Accepts)
    (dirty : List SlotIdx) : Inv (ConnectionPool.driveDirty drives dirty p) := by
  induction dirty generalizing p with
  | nil => exact h
  | cons idx dirty ih => exact ih ((h.driveSlot (.inr (hd idx))).remark idx)

theorem Inv.after (h : Inv p) {call : Call} (hsafe : p.Safe call) : Inv (p.after call) := by
  cases call with
  | connect addr blocking e => exact h.connect hsafe blocking e
  | send addr data e => exact h.send hsafe.1 hsafe.2 data
  | sendNonblocking addr e => exact h.sendNonblocking hsafe.1 hsafe.2
  | prewarm addrs => exact h.prewarm addrs
  | poll e =>
    have h₁ := h.packets e.packets
    have h₂ : Inv { e.packets.foldl ConnectionPool.handleRecv p with dirty := fun _ => false } :=
      ⟨h₁.slots, h₁.replaced⟩
    simp only [ConnectionPool.after, ConnectionPool.poll]
    split_ifs
    · exact h₁
    · exact h₂.driveDirty hsafe _
  | keepAliveIfIdle addr threshold d =>
    simp only [ConnectionPool.after, ConnectionPool.keepAliveIfIdle]
    split
    · exact h
    · split_ifs
      · exact h.driveSlot (.inr hsafe)
      · exact h

theorem inv_new : Inv new :=
  ⟨fun _ => ConnectionSlot.ok_of_none rfl, nofun⟩

/-- In every run of safe calls no queued transaction is lost. -/
theorem noLoss_of_safe {p : ConnectionPool} (hp : system.ReachableVia Safe p) : p.NoLoss := by
  have hinv : Inv p := by
    refine hp.invariant (I := Inv) (fun p h => ?_) fun p call p' hsafe h hstep => ?_
    · rw [show p = new from h]
      exact inv_new
    · cases hstep
      exact h.after hsafe
  exact hinv.noLoss

end ConnectionPool

/-! ## A run that loses a transaction -/

/-- `quiche` refuses for now. -/
def refusal : SendUni := ⟨false, true, false, .done⟩

/-- `quiche` takes the data. -/
def acceptance : SendUni := ⟨false, true, false, .ok 1⟩

/-- A drive in which `quiche` answers as given once the handshake is confirmed. -/
def sampleDrive (confirmed : Bool) (answer : SendUni) : Drive where
  packets := .ok 1
  isHandshakeConfirmed := confirmed
  peerError := none
  isClosed := false
  sendUni := fun _ _ => answer
  flushed := .ok 1
  now := 2

/-- A `send` to a new address: the connection is made and the handshake is under way. -/
def sampleSend : Send where
  connect := ⟨true, false, sampleDrive false refusal, [], 1⟩
  reconnect := ⟨true, false, sampleDrive false refusal, [], 1⟩
  isInEarlyData := false
  sendUni := refusal
  drive := sampleDrive false acceptance

def samplePeer : SocketAddr := .v4 2130706433 8001

/-- The pool after a transaction was queued and the handshake confirmed, with `quiche` answering as
given. -/
def samplePool (answer : SendUni) : ConnectionPool :=
  (ConnectionPool.new.after (.send samplePeer [7] sampleSend)).after
    (.poll ⟨[], false, fun _ => sampleDrive true answer⟩)

theorem reachable_samplePool (answer : SendUni) : system.Reachable (samplePool answer) :=
  System.Reachable.step (.step (.init rfl) _ rfl) _ rfl

theorem accepts_acceptance (confirmed : Bool) : (sampleDrive confirmed acceptance).Accepts :=
  fun _ => ⟨0, by decide, rfl, nofun⟩

/-- The handshake is confirmed and `quiche` takes the queued transaction. -/
theorem noLoss_of_safe_sent : system.ReachableVia ConnectionPool.Safe (samplePool acceptance) ∧
    (samplePool acceptance).NoLoss ∧
    (((samplePool acceptance).slots (Fin.ofNat maxPoolSize samplePeer.hash)).connection.map
      QuicConnection.handed) = some [some [7]] := by
  have hnew : ¬ ConnectionPool.new.Reconnects samplePeer := by
    rintro ⟨idx, hfind, -⟩
    have hnone : ConnectionPool.new.find samplePeer = none := rfl
    rw [hnone] at hfind
    cases hfind
  have hreach : system.ReachableVia ConnectionPool.Safe (samplePool acceptance) :=
    .step _ (.step _ (.init rfl)
      (show ConnectionPool.Safe .new (.send samplePeer [7] sampleSend) from
        ⟨accepts_acceptance false, fun h => absurd h hnew⟩) rfl)
      (show ConnectionPool.Safe _ (.poll ⟨[], false, fun _ => sampleDrive true acceptance⟩) from
        fun _ => accepts_acceptance true) rfl
  exact ⟨hreach, ConnectionPool.noLoss_of_safe hreach, rfl⟩

/-- The handshake is confirmed and `quiche` refuses the queued transaction five times: it is gone, and
the connection is ready. -/
theorem not_noLoss_samplePool :
    (ConnectionPool.new.send samplePeer [7] sampleSend).2 = .ok (.queued 0) ∧
    system.Reachable (samplePool refusal) ∧ ¬ (samplePool refusal).NoLoss := by
  refine ⟨rfl, reachable_samplePool refusal, fun h => ?_⟩
  obtain ⟨conn, hconn, hqueued, hexcused, hhanded⟩ :
      ∃ conn, ((samplePool refusal).slots (Fin.ofNat maxPoolSize samplePeer.hash)).connection =
        some conn ∧ conn.queued = [[7]] ∧ conn.excused = 0 ∧ conn.handed = [none] :=
    ⟨_, rfl, rfl, rfl, rfl⟩
  rcases h.1 _ conn hconn 0 [7] (by rw [hexcused]) (by rw [hqueued]; rfl) with hsent | ⟨hle, -⟩
  · rw [hhanded] at hsent
    cases hsent
  · rw [hhanded] at hle
    cases hle

end Land.Quic
