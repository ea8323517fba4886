import Land.Lib.SlotTable
import Land.Server.KeepAlive

/-!
# The connection table

`remove` puts the index on the free list without looking whether it is there.  It is called for a connection
that `get_mut` has just found, so that the slot is occupied and not free: the table of `ConnectionPool` stays an
exact slot table, whatever the order in which connections are accepted, closed and answered.
-/

namespace Land.Server

/-- The free list names the empty slots, each once. -/
def ConnectionPool.Exact (p : ConnectionPool) : Prop := SlotTable.Exact p.connections p.freeSlots

/-- The slot is that of a live connection and is not free, or it is empty and free exactly once. -/
def ConnectionPool.Accounted (p : ConnectionPool) (idx : ℕ) : Prop :=
  (∃ c, p.get idx = some c) ∧ p.freeSlots.count idx = 0 ∨ p.get idx = none ∧ p.freeSlots.count idx = 1

namespace ConnectionPool

variable {p : ConnectionPool} {idx : ℕ}

theorem Exact.accounted (h : p.Exact) (hlt : idx < p.connections.length) : p.Accounted idx := by
  rcases h.slot_cases hlt with ⟨⟨c, hc⟩, hcount⟩ | ⟨hempty, hcount⟩
  · exact .inl ⟨⟨c, get_eq_some.2 hc⟩, hcount⟩
  · refine .inr ⟨?_, hcount⟩
    rw [get, hempty]
    rfl

theorem Exact.finish (h : p.Exact) {c : Connection} (hc : p.get idx = some c) (r : Connection × Bool) :
    (p.finish idx r).Exact := by
  have hset : (p.set idx r.1).Exact := h.exchange (get_eq_some.1 hc) r.1
  unfold ConnectionPool.finish
  split_ifs
  · have hget : (p.set idx r.1).get idx = some r.1 := get_set_self (lt_of_get hc)
    rw [ConnectionPool.remove, if_pos (lt_of_get hget)]
    exact hset.release (get_eq_some.1 hget)
  · exact hset

/-- A connection is placed in the slot that `alloc_empty` hands out. -/
theorem Exact.set_allocEmpty (h : p.Exact) (c : Connection) :
    (p.allocEmpty.1.set p.allocEmpty.2 c).Exact := by
  obtain ⟨connections, freeSlots, recycledBuffers⟩ := p
  cases freeSlots with
  | cons idx rest => exact SlotTable.Exact.reuse h c
  | nil => exact SlotTable.Exact.grow h c

/-- `create_connection` does not touch the table. -/
theorem table_createConnection (p : ConnectionPool) (stream : Stream) :
    (p.createConnection stream).1.connections = p.connections ∧
      (p.createConnection stream).1.freeSlots = p.freeSlots := by
  unfold createConnection
  split <;> exact ⟨rfl, rfl⟩

theorem Exact.accept (h : p.Exact) (stream : Stream) :
    let a := p.allocEmpty
    let r := a.1.createConnection stream
    (r.1.set a.2 r.2).Exact := by
  obtain ⟨hconns, hfree⟩ := table_createConnection p.allocEmpty.1 stream
  intro a r
  have hset := h.set_allocEmpty r.2
  unfold ConnectionPool.Exact ConnectionPool.set at hset ⊢
  rw [← hconns, ← hfree] at hset
  exact hset

/-- `alloc_empty` hands out the index of an empty slot, or a new one. -/
theorem Exact.get_allocEmpty (h : p.Exact) : p.get p.allocEmpty.2 = none := by
  unfold allocEmpty
  cases hslots : p.freeSlots with
  | cons idx rest =>
    have hempty := (h.mem_iff idx).1 (hslots ▸ List.mem_cons_self)
    rw [get, hempty]
    rfl
  | nil =>
    rw [get, List.getElem?_eq_none le_rfl]
    rfl

end ConnectionPool

/-! ### The steps of the server -/

variable {http : Http} {s s' : State}

theorem exact_next (h : s.pool.Exact) {queueSize : ℕ} {a : Action}
    (hs : s.next http queueSize a = some s') : s'.pool.Exact := by
  rcases turned_next hs with ⟨hpool, -, -⟩ | ⟨-, rfl⟩ | ⟨idx, c, r, hc, hpool, -, -⟩
  · exact hpool ▸ h
  · exact h.accept ⟨[], []⟩
  · exact hpool ▸ h.finish hc r

theorem exact_of_reachable {queueSize : ℕ} (hs : (system http queueSize).Reachable s) : s.pool.Exact := by
  refine hs.invariant (I := fun s => s.pool.Exact) (fun s h => ?_) fun s a s' h hstep => exact_next h hstep
  rw [h.2]
  exact SlotTable.exact_nil

/-- In every state that the server reaches, every slot is that of a live connection or is free exactly once.  So
`alloc_empty` does not hand out the slot of a live connection; and a connection over recycled buffers begins with
empty ones. -/
theorem slots_accounted (http : Http) (queueSize : ℕ) {s : State} (hs : (system http queueSize).Reachable s) :
    (∀ idx < s.pool.connections.length, s.pool.Accounted idx) ∧
      (∀ idx ∈ s.pool.freeSlots, idx < s.pool.connections.length) ∧
      s.pool.get s.pool.allocEmpty.2 = none ∧
      (∀ r ∈ s.pool.recycledBuffers, r = ⟨[], [], []⟩) ∧
      ∀ stream, (s.pool.allocEmpty.1.createConnection stream).2 = .new stream [] [] [] := by
  have hexact := exact_of_reachable hs
  have hrecycled := (modelled_of_reachable hs).recycled
  refine ⟨fun idx hlt => hexact.accounted hlt, fun idx hidx => hexact.lt_length hidx,
    hexact.get_allocEmpty, hrecycled, fun stream => ?_⟩
  apply (ConnectionPool.createConnection_of_recycled _ stream).1
  rw [ConnectionPool.recycledBuffers_allocEmpty]
  exact hrecycled

/-- The client closes. -/
def closeEvent : Event := ⟨true, false, [], .closed, [], []⟩

/-- The first of two clients has gone, and an event for its slot comes late. -/
theorem slots_accounted_closed : ∃ s, (system sampleHttp 64).Reachable s ∧
    s.pool.connections.length = 2 ∧ s.pool.freeSlots = [0] ∧ s.pool.recycledBuffers = [⟨[], [], []⟩] ∧
    s.pool.Accounted 0 ∧ s.pool.Accounted 1 := by
  have hinit : (system sampleHttp 64).Reachable State.initial := .init ⟨by decide, rfl⟩
  obtain ⟨s, hrun, hlen, hs⟩ : ∃ s, (system sampleHttp 64).run State.initial
      [.poll 3, .accept, .accept, .acceptDone, .event 0 closeEvent, .event 0 closeEvent] = some s ∧
      s.pool.connections.length = 2 ∧ s.pool.freeSlots = [0] ∧
      s.pool.recycledBuffers = [⟨[], [], []⟩] := ⟨_, rfl, rfl, rfl, rfl⟩
  have hreach := hinit.run hrun
  have h := (slots_accounted sampleHttp 64 hreach).1
  exact ⟨s, hreach, hlen, hs.1, hs.2, h 0 (by omega), h 1 (by omega)⟩

end Land.Server
