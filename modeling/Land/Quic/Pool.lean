import Land.Quic.Connection
import Land.Quic.SocketAddr

/-!
# The connection pool

`ConnectionPool` of `quic/src/pool.rs` with its slots and dirty bits, for one thread: the endpoint has
exclusive access to its pool.  Left out are the statistics, the active bitmap and the version counter,
which nothing reads, and the start of the handshake, which only the timing statistics read.

A slot that becomes failed or dead excuses what is queued on its connection.  The pool keeps as history
the connections that were replaced; those of evicted slots are not kept.
-/

namespace Land.Quic

/-- `MAX_POOL_SIZE`. -/
abbrev maxPoolSize : ℕ := 128

/-- `MAX_RETRY_ATTEMPTS`. -/
def maxRetryAttempts : ℕ := 2

abbrev SlotIdx := Fin maxPoolSize

theorem maxPoolSize_neZero : NeZero maxPoolSize := ⟨by decide⟩

namespace SocketAddr

/-- `socket_addr_to_u128`. -/
def toU128 : SocketAddr → BitVec 128
  | v4 ip port => (ip.setWidth 128 <<< 16) ||| port.setWidth 128
  | v6 ip port _ _ =>
      let shifted (seg : BitVec 16) (i : ℕ) : BitVec 128 := seg.setWidth 128 <<< ((7 - i) * 16)
      let val := (segments ip).zipIdx.foldl (fun val seg => val ||| shifted seg.1 seg.2) 0
      val ^^^ port.setWidth 128

/-- `hash_addr`, before the remainder. -/
def hash : SocketAddr → ℕ
  | v4 ip port =>
      let h : BitVec 32 := (2166136261 ^^^ ip) * 16777619
      ((h ^^^ port.setWidth 32) * 16777619).toNat
  | v6 ip port _ _ =>
      let h : BitVec 64 := (segments ip).foldl (fun h seg => (h ^^^ seg.setWidth 64) * 1099511628211)
        2166136261
      ((h ^^^ port.setWidth 64) * 1099511628211).toNat

end SocketAddr

/-- `ConnectionSlot`. -/
structure ConnectionSlot where
  addr : SocketAddr
  connection : Option QuicConnection
  occupied : Bool
  state : ConnectionState
  retryCount : ℕ
  lastActivity : ℕ
  retryDeadlineNs : ℕ

/-- The slot has given up on its connection for now. -/
def ConnectionState.Down (st : ConnectionState) : Prop := st = .failed ∨ st = .dead

instance (st : ConnectionState) : Decidable st.Down := inferInstanceAs (Decidable (_ ∨ _))

namespace ConnectionSlot

/-- `default`. -/
def default : ConnectionSlot where
  addr := .v4 0 0
  connection := none
  occupied := false
  state := .connecting
  retryCount := 0
  lastActivity := 0
  retryDeadlineNs := 0

/-- `set_state`. -/
def setState (slot : ConnectionSlot) (st : ConnectionState) : ConnectionSlot :=
  { slot with
    state := st
    connection := if st.Down then slot.connection.map .excuse else slot.connection }

/-- `touch`. -/
def touch (slot : ConnectionSlot) (now : ℕ) : ConnectionSlot := { slot with lastActivity := now }

/-- `can_retry`. -/
def canRetry (slot : ConnectionSlot) (now : ℕ) : Bool :=
  slot.state = .dead ∧ now ≥ slot.retryDeadlineNs

/-- `idle_time_ns`. -/
def idleTimeNs (slot : ConnectionSlot) (now : ℕ) : ℕ := now - slot.lastActivity

/-- What `find_or_allocate` and `evict_and_allocate` write into a slot. -/
def allocate (slot : ConnectionSlot) (addr : SocketAddr) (now : ℕ) : ConnectionSlot :=
  { slot with
    addr := addr, connection := none, state := .connecting, retryCount := 0, lastActivity := now }

/-- `mark_failed`. -/
def markFailed (slot : ConnectionSlot) (now : ℕ) : ConnectionSlot :=
  let retry := slot.retryCount + 1
  let slot := { slot with retryCount := retry }
  if retry ≥ maxRetryAttempts then
    let backoffMs := match retry with
      | 0 => 0
      | 1 => 10
      | 2 => 30
      | _ => 60
    { slot.setState .dead with retryDeadlineNs := min (now + backoffMs * 1000000) (2 ^ 64 - 1) }
  else slot.setState .failed

/-- `reset_retry`. -/
def resetRetry (slot : ConnectionSlot) : ConnectionSlot :=
  { slot with retryCount := 0, retryDeadlineNs := 0 }

/-- `tx_queue().try_enqueue` on the connection of the slot. -/
def enqueue (slot : ConnectionSlot) (c : QuicConnection) (data : Bytes) :
    ConnectionSlot × SendStatus :=
  let r := c.enqueue data
  ({ slot with connection := some (if slot.state.Down then r.1.excuse else r.1) }, r.2)

end ConnectionSlot

/-- `ConnectionPool`. -/
structure ConnectionPool where
  slots : SlotIdx → ConnectionSlot
  dirty : SlotIdx → Bool
  replaced : List QuicConnection

namespace ConnectionPool

/-- `new`. -/
def new : ConnectionPool := ⟨fun _ => .default, fun _ => false, []⟩

/-- Change one slot. -/
def update (p : ConnectionPool) (idx : SlotIdx) (f : ConnectionSlot → ConnectionSlot) :
    ConnectionPool :=
  { p with slots := Function.update p.slots idx (f (p.slots idx)) }

/-- `mark_dirty`. -/
def markDirty (p : ConnectionPool) (idx : SlotIdx) : ConnectionPool :=
  { p with dirty := Function.update p.dirty idx true }

/-- `clear_dirty`. -/
def clearDirty (p : ConnectionPool) (idx : SlotIdx) : ConnectionPool :=
  { p with dirty := Function.update p.dirty idx false }

/-- `find`: the scan compares the packed addresses. -/
def find (p : ConnectionPool) (addr : SocketAddr) : Option SlotIdx :=
  (List.finRange maxPoolSize).find? fun idx =>
    (p.slots idx).occupied && (p.slots idx).addr.toU128 == addr.toU128

/-- The slots in the order in which `find_or_allocate` looks at them. -/
def probe (addr : SocketAddr) : List SlotIdx :=
  (List.range maxPoolSize).map fun i => Fin.ofNat maxPoolSize (addr.hash + i)

/-- The loop of `evict_and_allocate`. -/
def oldest (p : ConnectionPool) : List SlotIdx → SlotIdx → ℕ → SlotIdx
  | [], oldestIdx, _ => oldestIdx
  | i :: is, oldestIdx, oldestTime =>
      let slot := p.slots i
      if slot.occupied then
        if slot.state.Down then i
        else if slot.lastActivity < oldestTime then p.oldest is i slot.lastActivity
        else p.oldest is oldestIdx oldestTime
      else p.oldest is oldestIdx oldestTime

/-- `evict_and_allocate`. -/
def evictAndAllocate (p : ConnectionPool) (addr : SocketAddr) (now : ℕ) : ConnectionPool × SlotIdx :=
  let idx := p.oldest (List.finRange maxPoolSize) 0 (2 ^ 64 - 1)
  (p.update idx fun slot => slot.allocate addr now, idx)

/-- The slot at which the probe of `find_or_allocate` ends: it is free or has the address. -/
def probeEnd (p : ConnectionPool) (addr : SocketAddr) : Option SlotIdx :=
  (probe addr).find? fun idx => !(p.slots idx).occupied || (p.slots idx).addr == addr

/-- `find_or_allocate`. -/
def findOrAllocate (p : ConnectionPool) (addr : SocketAddr) (now : ℕ) : ConnectionPool × SlotIdx :=
  match p.probeEnd addr with
  | some idx =>
      if (p.slots idx).occupied then (p, idx)
      else
        (p.update idx fun slot => { slot.allocate addr now with occupied := true }, idx)
  | none => p.evictAndAllocate addr now

/-- `store_connection`, of a connection in the given state. -/
def storeConnection (p : ConnectionPool) (idx : SlotIdx) (conn : QuicConnection)
    (initialState : ConnectionState) (now : ℕ) : ConnectionPool :=
  { p.update idx fun slot =>
      (({ slot with connection := some conn }).setState initialState).touch now with
    replaced := p.replaced ++ (p.slots idx).connection.toList }

/-- `mark_failed`. -/
def markFailed (p : ConnectionPool) (idx : SlotIdx) (now : ℕ) : ConnectionPool :=
  p.update idx fun slot => slot.markFailed now

/-- `reset_retry`. -/
def resetRetry (p : ConnectionPool) (idx : SlotIdx) : ConnectionPool :=
  p.update idx fun slot => slot.resetRetry

/-- `remove`. -/
def remove (p : ConnectionPool) (idx : SlotIdx) : ConnectionPool :=
  p.update idx fun slot => { slot with connection := none, occupied := false }

/-! ## What an operation changes -/

variable {p : ConnectionPool} {idx : SlotIdx}

theorem slots_update_self (p : ConnectionPool) (idx : SlotIdx) (f : ConnectionSlot → ConnectionSlot) :
    (p.update idx f).slots idx = f (p.slots idx) :=
  Function.update_self ..

theorem slots_update_of_ne (f : ConnectionSlot → ConnectionSlot) {j : SlotIdx} (h : j ≠ idx) :
    (p.update idx f).slots j = p.slots j :=
  Function.update_of_ne h ..

theorem slots_storeConnection_of_ne (conn : QuicConnection) (st : ConnectionState) (now : ℕ)
    {j : SlotIdx} (h : j ≠ idx) : (p.storeConnection idx conn st now).slots j = p.slots j :=
  Function.update_of_ne h ..

/-- The probe looks at every slot. -/
theorem mem_probe (addr : SocketAddr) (idx : SlotIdx) : idx ∈ probe addr := by
  have hi : (idx + (maxPoolSize - addr.hash % maxPoolSize)) % maxPoolSize < maxPoolSize :=
    Nat.mod_lt _ (by decide)
  refine List.mem_map.2 ⟨_, List.mem_range.2 hi, Fin.ext ?_⟩
  have hidx : idx.val < 128 := idx.isLt
  simp only [Fin.val_ofNat, maxPoolSize]
  omega

/-- Where the probe ends at an occupied slot, the slot has the address. -/
theorem addr_of_probeEnd {addr : SocketAddr} (h : p.probeEnd addr = some idx)
    (hocc : (p.slots idx).occupied = true) : (p.slots idx).addr = addr := by
  have hfound := List.find?_some h
  simpa [hocc] using hfound

theorem addr_ne_of_find_eq_none {addr : SocketAddr} (h : p.find addr = none)
    (hocc : (p.slots idx).occupied = true) : (p.slots idx).addr ≠ addr := by
  intro haddr
  have hno := List.find?_eq_none.1 h idx (List.mem_finRange idx)
  simp [hocc, haddr] at hno

/-- A probe that ends nowhere met no free slot. -/
theorem occupied_of_probeEnd_eq_none {addr : SocketAddr} (h : p.probeEnd addr = none)
    (idx : SlotIdx) : (p.slots idx).occupied = true := by
  have hall := List.find?_eq_none.1 h idx (mem_probe addr idx)
  simp only [Bool.or_eq_true, Bool.not_eq_true', not_or, Bool.not_eq_false] at hall
  exact hall.1

/-- A slot is found, or taken for the address: then it has no connection. -/
theorem findOrAllocate_cases (p : ConnectionPool) (addr : SocketAddr) (now : ℕ) :
    (p.findOrAllocate addr now).1 = p ∧ p.probeEnd addr = some (p.findOrAllocate addr now).2 ∧
        (p.slots (p.findOrAllocate addr now).2).occupied = true ∨
      ∃ f : ConnectionSlot → ConnectionSlot, (∀ slot, (f slot).connection = none) ∧
        (f (p.slots (p.findOrAllocate addr now).2)).occupied = true ∧
        (p.findOrAllocate addr now).1 = p.update (p.findOrAllocate addr now).2 f := by
  cases hend : p.probeEnd addr with
  | none =>
    right
    simp only [findOrAllocate, hend]
    exact ⟨fun slot => slot.allocate addr now, fun _ => rfl, occupied_of_probeEnd_eq_none hend _, rfl⟩
  | some idx =>
    simp only [findOrAllocate, hend]
    by_cases hocc : (p.slots idx).occupied = true
    · rw [if_pos hocc]
      exact .inl ⟨rfl, rfl, hocc⟩
    · rw [if_neg hocc]
      exact .inr ⟨fun slot => { slot.allocate addr now with occupied := true }, fun _ => rfl, rfl, rfl⟩

end ConnectionPool

end Land.Quic
