import Land.Quic.Scheduled

/-!
# Driving a healthy connection

`drive_slot` drains the queue of a connection when it finds the handshake confirmed, but only if the
slot was not ready before.  `send` also queues transactions on a ready connection, when `quiche` refuses
them for now; a drive of that slot leaves them where they are.
-/

namespace Land.Quic

/-- The handshake is confirmed, there is no peer error, and the connection is open. -/
def Drive.Healthy (d : Drive) : Prop :=
  d.isHandshakeConfirmed = true ∧ d.peerError = none ∧ d.isClosed = false

/-- Every `send_uni` of the drive succeeds. -/
def Drive.SendsAll (d : Drive) : Prop := ∀ n attempt, (d.sendUni n attempt).result = .ok ()

/-- The queue is empty, and what `conn` had queued was sent from it, oldest first. -/
def ConnectionSlot.Emptied (conn : QuicConnection) (slot : ConnectionSlot) : Prop :=
  ∃ conn', slot.connection = some conn' ∧ conn'.txQueue.contents = [] ∧
    conn'.handed = conn.handed ++ conn.txQueue.contents.map some

theorem Drive.SendsAll.accepts {d : Drive} (h : d.SendsAll) : d.Accepts :=
  fun n => ⟨0, by decide, h n 0, nofun⟩

namespace ConnectionPool

variable {p : ConnectionPool} {idx : SlotIdx} {conn : QuicConnection} {d : Drive}

/-- A drive of a ready slot changes nothing. -/
theorem driveSlot_of_ready (d : Drive) (hready : (p.slots idx).state = .ready) :
    (p.driveSlot idx d).1 = p := by
  have hguard : ¬ (d.isHandshakeConfirmed = true ∧ ¬ (p.slots idx).state = .ready) :=
    fun h => h.2 hready
  cases hconn : (p.slots idx).connection with
  | none => simp only [driveSlot, hconn]
  | some conn =>
    cases hpackets : d.packets with
    | error e => simp only [driveSlot, hconn, hpackets]
    | ok n => simp only [driveSlot, hconn, hpackets, if_neg hguard]

/-- Any other slot of a healthy connection is drained. -/
theorem slots_driveSlot_of_healthy (hconn : (p.slots idx).connection = some conn) (hd : d.Healthy)
    (hok : (p.driveSlot idx d).2 = .ok ()) (hstate : (p.slots idx).state ≠ .ready) :
    (p.driveSlot idx d).1.slots idx = drained d conn (p.slots idx) := by
  obtain ⟨hconfirmed, hpeer, hopen⟩ := hd
  cases hpackets : d.packets with
  | error e =>
    simp only [driveSlot, hconn, hpackets] at hok
    cases hok
  | ok n =>
    have hdrive : p.driveSlot idx d = p.driveReady idx conn d := by
      simp only [driveSlot, hconn, hpackets, hpeer, hopen, Bool.false_eq_true, if_false,
        if_pos (And.intro hconfirmed hstate)]
    rw [hdrive]
    obtain hp | hp := driveReady_cases p idx conn d <;> rw [hp]
    · exact slots_update_self p idx (drained d conn)
    · exact slots_update_self p idx (drained d conn)

/-- A drive of a healthy connection that returns `Ok`, with every `send_uni` successful, empties the queue
in order exactly if the slot was not ready before or there was nothing to send. -/
theorem emptied_iff_not_ready (hconn : (p.slots idx).connection = some conn) (hd : d.Healthy)
    (hsends : d.SendsAll) (hok : (p.driveSlot idx d).2 = .ok ()) :
    ((p.driveSlot idx d).1.slots idx).Emptied conn ↔
      (p.slots idx).state ≠ .ready ∨ conn.txQueue.contents = [] := by
  by_cases hready : (p.slots idx).state = .ready
  · rw [driveSlot_of_ready d hready]
    constructor
    · rintro ⟨conn', hconn', hempty, -⟩
      obtain rfl : conn = conn' := Option.some.inj (hconn.symm.trans hconn')
      exact .inr hempty
    · rintro (hstate | hempty)
      · exact absurd hready hstate
      · exact ⟨conn, hconn, hempty, by rw [hempty, List.map_nil, List.append_nil]⟩
  · refine iff_of_true ?_ (.inl hready)
    rw [slots_driveSlot_of_healthy hconn hd hok hready]
    exact ⟨_, rfl, QuicConnection.drain_of_accepted hsends.accepts conn
      (TransactionQueue.contents_length _).le 0⟩

end ConnectionPool

/-- The transaction queued during the handshake is sent by the drive that finds it confirmed. -/
theorem emptied_iff_not_ready_connecting :
    (((ConnectionPool.new.after (.send samplePeer [7] sampleSend)).driveSlot sampleIdx
      (sampleDrive true acceptance)).1.slots sampleIdx).Emptied
        (QuicConnection.new.enqueue [7]).1 := by
  refine (ConnectionPool.emptied_iff_not_ready (d := sampleDrive true acceptance) rfl
    ⟨rfl, rfl, rfl⟩ (fun _ _ => rfl) rfl).2 (.inl ?_)
  decide

/-- A ready connection on which `send` has queued a transaction, because `quiche` refused it. -/
def readyPool : ConnectionPool := (samplePool acceptance).after (.send samplePeer [8] sampleSend)

/-- Driving it leaves the transaction in the queue. -/
theorem ready_not_emptied :
    system.Reachable readyPool ∧
    ((samplePool acceptance).send samplePeer [8] sampleSend).2 = .ok (.queued 0) ∧
    (readyPool.slots sampleIdx).state = .ready ∧
    (sampleDrive true acceptance).Healthy ∧ (sampleDrive true acceptance).SendsAll ∧
    (readyPool.driveSlot sampleIdx (sampleDrive true acceptance)).2 = .ok () ∧
    ((readyPool.slots sampleIdx).connection.map fun conn => conn.txQueue.contents) = some [[8]] ∧
    (((readyPool.driveSlot sampleIdx (sampleDrive true acceptance)).1.slots sampleIdx).connection.map
      fun conn => conn.txQueue.contents) = some [[8]] :=
  ⟨(reachable_samplePool acceptance).step (.send samplePeer [8] sampleSend) rfl, rfl, rfl,
    ⟨rfl, rfl, rfl⟩, fun _ _ => rfl, rfl, rfl, rfl⟩

end Land.Quic
