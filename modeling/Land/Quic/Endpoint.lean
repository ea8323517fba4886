import Land.Lib.Transition
import Land.Quic.Pool

/-!
# The QUIC endpoint

`QuicEndpoint` of `quic/src/endpoint.rs`.  Of its fields only the pool matters here, so the pool is the
state.  Every call has exclusive access to the endpoint and is one step.

What `quiche`, the socket, the clock and the session cache answer during a call comes with the call, in
one record per function; the clock stands still inside a function.  Sending the pending packets of a
connection has no effect on the pool, so `send_pending_packets` is only its result.
-/

namespace Land.Quic

/-- What happens during one `drive_slot`. -/
structure Drive where
  /-- the first `send_pending_packets` -/
  packets : Except Error ℕ
  isHandshakeConfirmed : Bool
  /-- the code of `peer_error` -/
  peerError : Option ℕ
  isClosed : Bool
  /-- the attempts for each queued transaction -/
  sendUni : ℕ → ℕ → SendUni
  /-- the second `send_pending_packets` -/
  flushed : Except Error ℕ
  now : ℕ

/-- What `quiche` makes of a packet. -/
inductive Recv where
  | ok
  | done
  | error

/-- A packet from the socket. -/
structure Packet where
  sender : SocketAddr
  recv : Recv
  now : ℕ

/-- One round of the loop in which a blocking `connect` waits for the handshake. -/
structure Round where
  packets : List Packet
  /-- whether the socket then fails -/
  ioError : Bool
  drive : Drive
  isHandshakeConfirmed : Bool
  /-- the session ticket is there, or the time for it is over -/
  ticketDone : Bool
  isClosed : Bool
  now : ℕ

/-- What happens during one `connect`. -/
structure Connect where
  /-- whether `quiche::connect` makes a connection -/
  created : Bool
  isEstablished : Bool
  drive : Drive
  /-- the rounds of a blocking call; when they end, the time is over -/
  rounds : List Round
  now : ℕ

/-- What happens during one `send`. -/
structure Send where
  connect : Connect
  reconnect : Connect
  isInEarlyData : Bool
  sendUni : SendUni
  drive : Drive

/-- What happens during one `send_nonblocking`. -/
structure SendNonblocking where
  hasSession : Bool
  connect : Connect
  isInEarlyData : Bool
  sendUni : SendUni
  drive : Drive

/-- What happens during one `poll`. -/
structure Poll where
  packets : List Packet
  /-- whether the socket then fails -/
  ioError : Bool
  drives : SlotIdx → Drive

namespace ConnectionPool

/-! ## One slot -/

/-- The end of `drive_slot`: the dirty bit is cleared if the queue is empty. -/
def driveDone (p : ConnectionPool) (idx : SlotIdx) (conn : QuicConnection) :
    ConnectionPool × Except Error Unit :=
  (if conn.txQueue.hasPending then p else p.clearDirty idx, .ok ())

/-- The part of `drive_slot` for a healthy connection whose handshake is confirmed. -/
def driveReady (p : ConnectionPool) (idx : SlotIdx) (conn : QuicConnection) (d : Drive) :
    ConnectionPool × Except Error Unit :=
  let r := QuicConnection.drain d.sendUni conn.txQueue.count 0 conn
  let p := p.update idx fun slot => { slot.setState .ready with connection := some r.1 }
  if r.2 > 0 then
    match d.flushed with
    | .ok _ => p.driveDone idx r.1
    | .error e => (p, .error e)
  else p.driveDone idx r.1

/-- `drive_slot`. -/
def driveSlot (p : ConnectionPool) (idx : SlotIdx) (d : Drive) : ConnectionPool × Except Error Unit :=
  let wasReady := (p.slots idx).state = .ready
  match (p.slots idx).connection with
  | none => (p, .error .notFound)
  | some conn =>
      match d.packets with
      | .error e => (p, .error e)
      | .ok _ =>
          if d.isHandshakeConfirmed = true ∧ ¬ wasReady then
            match d.peerError with
            | some code =>
                if code = 2 then ((p.update idx fun slot => slot.setState .dead).clearDirty idx, .ok ())
                else ((p.markFailed idx d.now).clearDirty idx, .ok ())
            | none =>
                if d.isClosed then ((p.markFailed idx d.now).clearDirty idx, .ok ())
                else p.driveReady idx conn d
          else (p, .ok ())

/-- `handle_recv`, and the body of the receive loop of `poll`. -/
def handleRecv (p : ConnectionPool) (packet : Packet) : ConnectionPool :=
  match p.find packet.sender with
  | none => p
  | some idx =>
      let slot := p.slots idx
      if slot.state = .dead ∧ slot.canRetry packet.now = false then p
      else
        match slot.connection, packet.recv with
        | some _, .ok => p.update idx fun slot => slot.touch packet.now
        | some _, .done => p
        | some _, .error => p.markFailed idx packet.now
        | none, _ => p

/-! ## `connect` -/

/-- The loop in which a blocking `connect` waits for the handshake. -/
def awaitHandshake (idx : SlotIdx) (now : ℕ) :
    List Round → ConnectionPool → ConnectionPool × Except Error SlotIdx
  | [], p => (p.markFailed idx now, .error .timeout)
  | r :: rounds, p =>
      let p := r.packets.foldl handleRecv p
      if r.ioError then (p, .error .io)
      else
        match p.driveSlot idx r.drive with
        | (p, .error e) => (p, .error e)
        | (p, .ok _) =>
            match (p.slots idx).connection with
            | none => awaitHandshake idx now rounds p
            | some _ =>
                if r.isHandshakeConfirmed then
                  let p := p.update idx fun slot => slot.setState .ready
                  if r.ticketDone then (p, .ok idx) else awaitHandshake idx now rounds p
                else if r.isClosed then (p.markFailed idx r.now, .error .closed)
                else awaitHandshake idx now rounds p

/-- `connect`. -/
def connect (p : ConnectionPool) (addr : SocketAddr) (blocking : Bool) (e : Connect) :
    ConnectionPool × Except Error SlotIdx :=
  let (p, idx) := p.findOrAllocate addr e.now
  if (p.slots idx).state = .ready then (p, .ok idx)
  else if e.created = false then (p, .error .quic)
  else
    let initialState := if e.isEstablished then ConnectionState.ready else .connecting
    let p := p.storeConnection idx .new initialState e.now
    match p.driveSlot idx e.drive with
    | (p, .error err) => (p, .error err)
    | (p, .ok _) => if blocking then awaitHandshake idx e.now e.rounds p else (p, .ok idx)

/-! ## `send` -/

/-- `flush_slot` and `reset_retry` after a successful `send_uni`. -/
def flushSent (p : ConnectionPool) (idx : SlotIdx) (d : Drive) (status : SendStatus) :
    ConnectionPool × Except Error SendStatus :=
  match p.driveSlot idx d with
  | (p, .error e) => (p, .error e)
  | (p, .ok _) => (p.update idx fun slot => slot.resetRetry, .ok status)

/-- Queue a transaction on a connection of a slot. -/
def enqueue (p : ConnectionPool) (idx : SlotIdx) (conn : QuicConnection) (data : Bytes) :
    ConnectionPool × SendStatus :=
  (p.update idx fun slot => (slot.enqueue conn data).1, ((p.slots idx).enqueue conn data).2)

/-- Queue a transaction and mark the slot dirty. -/
def enqueueDirty (p : ConnectionPool) (idx : SlotIdx) (data : Bytes) :
    ConnectionPool × Except Error SendStatus :=
  match (p.slots idx).connection with
  | none => (p, .error .notFound)
  | some conn =>
      let r := p.enqueue idx conn data
      (r.1.markDirty idx, .ok r.2)

/-- `send`, once there is a slot. -/
def sendOn (p : ConnectionPool) (idx : SlotIdx) (addr : SocketAddr) (data : Bytes) (e : Send) :
    ConnectionPool × Except Error SendStatus :=
  match (p.slots idx).state with
  | .ready =>
      match (p.slots idx).connection with
      | none => (p, .error .notFound)
      | some conn =>
          match conn.sendUni e.sendUni with
          | (conn, .ok _) =>
              (p.update idx fun slot => { slot with connection := some conn }).flushSent idx e.drive
                .sent
          | (conn, .error .wouldBlock) =>
              let r := p.enqueue idx conn data
              (r.1, .ok r.2)
          | (_, .error err) => (p, .error err)
  | .connecting =>
      match (p.slots idx).connection with
      | none => (p, .error .notFound)
      | some conn =>
          match e.isInEarlyData, conn.sendUni e.sendUni with
          | true, (conn, .ok _) =>
              (p.update idx fun slot => { slot with connection := some conn }).flushSent idx e.drive
                .sentEarlyData
          | _, _ => p.enqueueDirty idx data
  | .failed =>
      match p.connect addr false e.reconnect with
      | (p, .error err) => (p, .error err)
      | (p, .ok _) => p.enqueueDirty idx data
  | .dead => (p, .ok (.dead (p.slots idx).retryCount))

/-- `send`. -/
def send (p : ConnectionPool) (addr : SocketAddr) (data : Bytes) (e : Send) :
    ConnectionPool × Except Error SendStatus :=
  match p.find addr with
  | some idx => p.sendOn idx addr data e
  | none =>
      match p.connect addr false e.connect with
      | (p, .error err) => (p, .error err)
      | (p, .ok idx) => p.sendOn idx addr data e

/-- `send_uni` and `flush_slot` of `send_nonblocking`. -/
def sendNow (p : ConnectionPool) (idx : SlotIdx) (conn : QuicConnection) (e : SendNonblocking) :
    ConnectionPool × Except Error Unit :=
  match conn.sendUni e.sendUni with
  | (conn, .ok _) =>
      (p.update idx fun slot => { slot with connection := some conn }).driveSlot idx e.drive
  | (_, .error err) => (p, .error err)

/-- `send_nonblocking`, for a slot that is there. -/
def sendNonblockingOn (p : ConnectionPool) (idx : SlotIdx) (addr : SocketAddr)
    (e : SendNonblocking) : ConnectionPool × Except Error Unit :=
  match (p.slots idx).state, (p.slots idx).connection with
  | .ready, none => (p, .error .notFound)
  | .ready, some conn => p.sendNow idx conn e
  | .connecting, none => ((p.driveSlot idx e.drive).1, .error .notEstablished)
  | .connecting, some conn =>
      if e.isInEarlyData then p.sendNow idx conn e
      else ((p.driveSlot idx e.drive).1, .error .notEstablished)
  | .failed, _ => ((p.connect addr false e.connect).1, .error .notEstablished)
  | .dead, _ => (p, .error (.dead (p.slots idx).retryCount))

/-- `send_nonblocking`. -/
def sendNonblocking (p : ConnectionPool) (addr : SocketAddr) (e : SendNonblocking) :
    ConnectionPool × Except Error Unit :=
  match p.find addr with
  | some idx => p.sendNonblockingOn idx addr e
  | none =>
      match e.hasSession, p.connect addr false e.connect with
      | true, (p, .error err) => (p, .error err)
      | true, (p, .ok idx) =>
          match e.isInEarlyData, (p.slots idx).connection with
          | true, some conn => p.sendNow idx conn e
          | _, _ => (p, .error .notEstablished)
      | false, (p, _) => (p, .error .notEstablished)

/-- `prewarm`. -/
def prewarm (p : ConnectionPool) : List (SocketAddr × Connect) → ConnectionPool
  | [] => p
  | (addr, e) :: addrs =>
      match p.find addr with
      | some _ => p.prewarm addrs
      | none => (p.connect addr false e).1.prewarm addrs

/-! ## `poll` and `keep_alive_if_idle` -/

/-- Mark a slot dirty again that still has work. -/
def remark (p : ConnectionPool) (idx : SlotIdx) : ConnectionPool :=
  match (p.slots idx).state, (p.slots idx).connection with
  | .dead, _ => p
  | .failed, _ => p
  | .connecting, _ => p.markDirty idx
  | .ready, some conn => if conn.txQueue.hasPending then p.markDirty idx else p
  | .ready, none => p

/-- The loop of `poll` over the dirty slots. -/
def driveDirty (drives : SlotIdx → Drive) : List SlotIdx → ConnectionPool → ConnectionPool
  | [], p => p
  | idx :: rest, p => driveDirty drives rest ((p.driveSlot idx (drives idx)).1.remark idx)

/-- `poll`. -/
def poll (p : ConnectionPool) (e : Poll) : ConnectionPool × Except Error Unit :=
  let p := e.packets.foldl handleRecv p
  if e.ioError then (p, .error .io)
  else
    let dirty := (List.finRange maxPoolSize).filter p.dirty
    (driveDirty e.drives dirty { p with dirty := fun _ => false }, .ok ())

/-- `keep_alive_if_idle`. -/
def keepAliveIfIdle (p : ConnectionPool) (addr : SocketAddr) (idleThresholdNs : ℕ) (d : Drive) :
    ConnectionPool × Except Error Unit :=
  match p.find addr with
  | none => (p, .ok ())
  | some idx =>
      if (p.slots idx).idleTimeNs d.now > idleThresholdNs then p.driveSlot idx d else (p, .ok ())

end ConnectionPool

/-- A call of the endpoint, with what happens during it. -/
inductive Call where
  | connect (addr : SocketAddr) (blocking : Bool) (e : Connect)
  | send (addr : SocketAddr) (data : Bytes) (e : Send)
  | sendNonblocking (addr : SocketAddr) (e : SendNonblocking)
  | prewarm (addrs : List (SocketAddr × Connect))
  | poll (e : Poll)
  | keepAliveIfIdle (addr : SocketAddr) (idleThresholdNs : ℕ) (d : Drive)

/-- The pool after a call. -/
def ConnectionPool.after (p : ConnectionPool) : Call → ConnectionPool
  | .connect addr blocking e => (p.connect addr blocking e).1
  | .send addr data e => (p.send addr data e).1
  | .sendNonblocking addr e => (p.sendNonblocking addr e).1
  | .prewarm addrs => p.prewarm addrs
  | .poll e => (p.poll e).1
  | .keepAliveIfIdle addr threshold d => (p.keepAliveIfIdle addr threshold d).1

/-- An endpoint. -/
def system : System ConnectionPool Call where
  init := fun p => p = .new
  step := fun p call => some (p.after call)

/-! ## What a function changes -/

/-- The drive takes a slot out of the handshake. -/
def Drive.Settles (d : Drive) : Prop := d.packets.isOk = true ∧ d.isHandshakeConfirmed = true

namespace ConnectionPool

variable {p : ConnectionPool} {idx j : SlotIdx}

/-- The slot of a healthy connection after its queue was drained. -/
def drained (d : Drive) (conn : QuicConnection) (slot : ConnectionSlot) : ConnectionSlot :=
  { slot.setState .ready with
    connection := some (QuicConnection.drain d.sendUni conn.txQueue.count 0 conn).1 }

/-- The queue is drained, and the dirty bit may be cleared. -/
theorem driveReady_cases (p : ConnectionPool) (idx : SlotIdx) (conn : QuicConnection) (d : Drive) :
    (p.driveReady idx conn d).1 = p.update idx (drained d conn) ∨
      (p.driveReady idx conn d).1 = (p.update idx (drained d conn)).clearDirty idx := by
  simp only [driveReady, driveDone]
  split_ifs
  · split <;> exact .inl rfl
  · split
    · exact .inr rfl
    · exact .inl rfl
  · exact .inl rfl
  · exact .inr rfl

/-- `drive_slot` does nothing, or it takes the slot out of the handshake: the slot is dead, failed, or
ready and drained. -/
theorem driveSlot_cases (p : ConnectionPool) (idx : SlotIdx) (d : Drive) :
    (p.driveSlot idx d).1 = p ∧
        ((p.slots idx).connection = none ∨ (p.slots idx).state = .ready ∨ ¬ d.Settles) ∨
      d.Settles ∧
        ((p.driveSlot idx d).1 = (p.update idx fun slot => slot.setState .dead).clearDirty idx ∨
          (p.driveSlot idx d).1 = (p.markFailed idx d.now).clearDirty idx ∨
          ∃ conn, (p.slots idx).connection = some conn ∧
            ((p.driveSlot idx d).1 = p.update idx (drained d conn) ∨
              (p.driveSlot idx d).1 = (p.update idx (drained d conn)).clearDirty idx)) := by
  cases hc : (p.slots idx).connection with
  | none => exact .inl ⟨by simp only [driveSlot, hc], .inl rfl⟩
  | some conn =>
    cases hpackets : d.packets with
    | error e =>
      refine .inl ⟨by simp only [driveSlot, hc, hpackets], .inr (.inr fun hs => ?_)⟩
      have hok := hs.1
      rw [hpackets] at hok
      cases hok
    | ok n =>
      by_cases hconf : d.isHandshakeConfirmed = true ∧ ¬ (p.slots idx).state = .ready
      · refine .inr ⟨⟨by rw [hpackets]; rfl, hconf.1⟩, ?_⟩
        cases hpeer : d.peerError with
        | some code =>
          simp only [driveSlot, hc, hpackets, if_pos hconf, hpeer]
          by_cases hcode : code = 2
          · rw [if_pos hcode]
            exact .inl rfl
          · rw [if_neg hcode]
            exact .inr (.inl rfl)
        | none =>
          simp only [driveSlot, hc, hpackets, if_pos hconf, hpeer]
          by_cases hclosed : d.isClosed = true
          · rw [if_pos hclosed]
            exact .inr (.inl rfl)
          · rw [if_neg hclosed]
            exact .inr (.inr ⟨conn, rfl, driveReady_cases p idx conn d⟩)
      · refine .inl ⟨by simp only [driveSlot, hc, hpackets, if_neg hconf], .inr ?_⟩
        by_cases hready : (p.slots idx).state = .ready
        · exact .inl hready
        · exact .inr fun hs => hconf ⟨hs.2, hready⟩

/-- `drive_slot` changes one slot and its bit only. -/
theorem driveSlot_of_ne (d : Drive) (h : j ≠ idx) :
    (p.driveSlot idx d).1.slots j = p.slots j ∧ (p.driveSlot idx d).1.dirty j = p.dirty j := by
  have hupdate (f : ConnectionSlot → ConnectionSlot) : (p.update idx f).slots j = p.slots j :=
    slots_update_of_ne f h
  have hclear (q : ConnectionPool) : (q.clearDirty idx).dirty j = q.dirty j :=
    Function.update_of_ne h ..
  obtain ⟨hp, -⟩ | ⟨-, hp | hp | ⟨conn, -, hp | hp⟩⟩ := driveSlot_cases p idx d <;> rw [hp]
  · exact ⟨rfl, rfl⟩
  · exact ⟨hupdate fun slot => slot.setState .dead, hclear _⟩
  · exact ⟨hupdate fun slot => slot.markFailed d.now, hclear _⟩
  · exact ⟨hupdate (drained d conn), rfl⟩
  · exact ⟨hupdate (drained d conn), hclear _⟩

/-- What a packet can do to the slots. -/
theorem handleRecv_cases (p : ConnectionPool) (packet : Packet) :
    p.handleRecv packet = p ∨
      ∃ idx, p.handleRecv packet = p.update idx (fun slot => slot.touch packet.now) ∨
        p.handleRecv packet = p.markFailed idx packet.now := by
  cases hfind : p.find packet.sender with
  | none =>
    left
    simp only [handleRecv, hfind]
  | some idx =>
    simp only [handleRecv, hfind]
    split_ifs
    · exact .inl rfl
    · split
      · exact .inr ⟨idx, .inl rfl⟩
      · exact .inl rfl
      · exact .inr ⟨idx, .inr rfl⟩
      · exact .inl rfl

/-- What a `connect` that does not block does to the pool. -/
theorem connect_fst (p : ConnectionPool) (addr : SocketAddr) (e : Connect) :
    (p.connect addr false e).1 =
      if ((p.findOrAllocate addr e.now).1.slots (p.findOrAllocate addr e.now).2).state = .ready then
        (p.findOrAllocate addr e.now).1
      else if e.created = false then (p.findOrAllocate addr e.now).1
      else
        (((p.findOrAllocate addr e.now).1.storeConnection (p.findOrAllocate addr e.now).2 .new
          (if e.isEstablished = true then .ready else .connecting) e.now).driveSlot
          (p.findOrAllocate addr e.now).2 e.drive).1 := by
  simp only [connect]
  by_cases hready :
      ((p.findOrAllocate addr e.now).1.slots (p.findOrAllocate addr e.now).2).state = .ready
  · rw [if_pos hready, if_pos hready]
  · rw [if_neg hready, if_neg hready]
    by_cases hcreated : e.created = false
    · rw [if_pos hcreated, if_pos hcreated]
    · rw [if_neg hcreated, if_neg hcreated]
      split <;> rename_i heq <;> rw [heq]
      rfl

/-- It returns the slot it took. -/
theorem connect_snd {addr : SocketAddr} {e : Connect} (h : (p.connect addr false e).2 = .ok j) :
    j = (p.findOrAllocate addr e.now).2 := by
  simp only [connect, Bool.false_eq_true, if_false] at h
  split_ifs at h
  · cases h
    rfl
  · split at h <;> cases h
    rfl
  · split at h <;> cases h
    rfl

theorem slots_findOrAllocate_of_ne (addr : SocketAddr) (now : ℕ)
    (h : j ≠ (p.findOrAllocate addr now).2) :
    (p.findOrAllocate addr now).1.slots j = p.slots j := by
  obtain ⟨hp, -⟩ | ⟨f, -, -, hp⟩ := findOrAllocate_cases p addr now
  · rw [hp]
  · rw [hp, slots_update_of_ne f h]

/-- It changes no other slot. -/
theorem slots_connect_of_ne (addr : SocketAddr) (e : Connect)
    (h : j ≠ (p.findOrAllocate addr e.now).2) : (p.connect addr false e).1.slots j = p.slots j := by
  rw [connect_fst]
  split_ifs
  · exact slots_findOrAllocate_of_ne addr e.now h
  · exact slots_findOrAllocate_of_ne addr e.now h
  · rw [(driveSlot_of_ne e.drive h).1, slots_storeConnection_of_ne _ _ _ h]
    exact slots_findOrAllocate_of_ne addr e.now h
  · rw [(driveSlot_of_ne e.drive h).1, slots_storeConnection_of_ne _ _ _ h]
    exact slots_findOrAllocate_of_ne addr e.now h

end ConnectionPool

end Land.Quic
