import Land.Lib.OpenAddressing
import Land.Lib.Transition
import Land.Quic.Pool

/-!
# Every address is in the pool once

The pool is an open-addressing table: `find_or_allocate` probes the slots from the hash of the address on,
up to the first free one.  Allocation and eviction keep every address findable.  `remove` frees a slot
without marking it, so an address whose probe passes the slot is not found any more, and the next
`find_or_allocate` puts it into a second slot.
-/

namespace Land.Quic

open OpenAddressing (Findable Passes)

/-- An operation of the pool, with the time at which it is made. -/
inductive PoolOp where
  | findOrAllocate (addr : SocketAddr) (now : ℕ)
  | storeConnection (idx : SlotIdx) (conn : QuicConnection) (initialState : ConnectionState) (now : ℕ)
  | markFailed (idx : SlotIdx) (now : ℕ)
  | resetRetry (idx : SlotIdx)
  | remove (idx : SlotIdx)

namespace ConnectionPool

/-- The pool after an operation; only an occupied slot is removed. -/
def apply (p : ConnectionPool) : PoolOp → Option ConnectionPool
  | .findOrAllocate addr now => some (p.findOrAllocate addr now).1
  | .storeConnection idx conn st now => some (p.storeConnection idx conn st now)
  | .markFailed idx now => some (p.markFailed idx now)
  | .resetRetry idx => some (p.resetRetry idx)
  | .remove idx => if (p.slots idx).occupied then some (p.remove idx) else none

/-- The histories of a pool. -/
def histories : System ConnectionPool PoolOp where
  init := fun p => p = .new
  step := apply

/-- No two occupied slots have the same address. -/
def UniqueAddrs (p : ConnectionPool) : Prop :=
  ∀ i j, (p.slots i).occupied = true → (p.slots j).occupied = true →
    (p.slots i).addr = (p.slots j).addr → i = j

/-- `find_or_allocate` returns the slot that has the address already. -/
def FindsExisting (p : ConnectionPool) : Prop :=
  ∀ addr now idx, (p.slots idx).occupied = true → (p.slots idx).addr = addr →
    (p.findOrAllocate addr now).2 = idx

/-- A slot is removed only if no probe for the address of another slot passes it. -/
def KeepsProbes (p : ConnectionPool) : PoolOp → Prop
  | .remove idx => ∀ j, j ≠ idx → (p.slots j).occupied = true → ¬ Passes probe (p.slots j).addr idx j
  | _ => True

/-! ## The pool as a table -/

variable {p : ConnectionPool} {idx : SlotIdx} {addr : SocketAddr}

/-- The address of each occupied slot. -/
def keys (p : ConnectionPool) : SlotIdx → Option SocketAddr := fun idx =>
  if (p.slots idx).occupied then some (p.slots idx).addr else none

theorem keys_eq_some_iff :
    p.keys idx = some addr ↔ (p.slots idx).occupied = true ∧ (p.slots idx).addr = addr := by
  unfold keys
  split_ifs with hocc
  · rw [Option.some.injEq, and_iff_right hocc]
  · exact iff_of_false nofun fun h => hocc h.1

theorem keys_eq_none (h : (p.slots idx).occupied = false) : p.keys idx = none := by
  rw [keys, h]
  rfl

theorem probeEnd_eq (p : ConnectionPool) (addr : SocketAddr) :
    p.probeEnd addr = OpenAddressing.probeEnd probe p.keys addr := by
  refine congrArg (fun f => List.find? f (probe addr)) (funext fun idx => ?_)
  unfold keys
  cases (p.slots idx).occupied with
  | false => rfl
  | true => simp [Bool.beq_eq_decide_eq]

theorem findOrAllocate_snd (h : p.probeEnd addr = some idx) (now : ℕ) :
    (p.findOrAllocate addr now).2 = idx := by
  simp only [findOrAllocate, h]
  split_ifs <;> rfl

theorem findsExisting_iff : p.FindsExisting ↔ Findable probe p.keys := by
  -- where a slot has the address, the probe ends somewhere
  have hend : ∀ idx addr, p.keys idx = some addr → ∃ j, p.probeEnd addr = some j := by
    intro idx addr hk
    cases h : p.probeEnd addr with
    | some j => exact ⟨j, rfl⟩
    | none =>
      rw [probeEnd_eq] at h
      exact absurd hk (OpenAddressing.skips_of_probeEnd_eq_none h (mem_probe addr idx)).2
  constructor
  · intro hfinds idx addr hk
    obtain ⟨hocc, haddr⟩ := keys_eq_some_iff.1 hk
    obtain ⟨j, hj⟩ := hend idx addr hk
    rw [← probeEnd_eq, hj, ← findOrAllocate_snd hj 0, hfinds addr 0 idx hocc haddr]
  · intro hfindable addr now idx hocc haddr
    have hfound := hfindable idx addr (keys_eq_some_iff.2 ⟨hocc, haddr⟩)
    exact findOrAllocate_snd ((probeEnd_eq p addr).trans hfound) now

theorem uniqueAddrs_of_findable (h : Findable probe p.keys) : p.UniqueAddrs := fun _ _ hi hj haddr =>
  h.eq (keys_eq_some_iff.2 ⟨hi, haddr⟩) (keys_eq_some_iff.2 ⟨hj, rfl⟩)

/-! ## The operations -/

theorem keys_update (p : ConnectionPool) (idx : SlotIdx) (f : ConnectionSlot → ConnectionSlot) :
    (p.update idx f).keys = Function.update p.keys idx
      (if (f (p.slots idx)).occupied then some (f (p.slots idx)).addr else none) := by
  funext j
  by_cases hj : j = idx
  · subst hj
    rw [Function.update_self, keys, slots_update_self]
  · rw [Function.update_of_ne hj, keys, slots_update_of_ne f hj]
    rfl

/-- A change that concerns neither the address nor whether the slot is occupied. -/
theorem keys_update_of_eq {f : ConnectionSlot → ConnectionSlot}
    (hocc : (f (p.slots idx)).occupied = (p.slots idx).occupied)
    (haddr : (f (p.slots idx)).addr = (p.slots idx).addr) : (p.update idx f).keys = p.keys := by
  rw [keys_update, hocc, haddr]
  exact Function.update_eq_self idx p.keys

theorem keys_storeConnection (conn : QuicConnection) (st : ConnectionState) (now : ℕ) :
    (p.storeConnection idx conn st now).keys = p.keys := by
  have hkeys : (p.update idx fun slot =>
      (({ slot with connection := some conn }).setState st).touch now).keys = p.keys :=
    keys_update_of_eq rfl rfl
  exact hkeys

theorem keys_markFailed (now : ℕ) : (p.markFailed idx now).keys = p.keys := by
  refine keys_update_of_eq ?_ ?_ <;>
  · simp only [ConnectionSlot.markFailed]
    split_ifs <;> rfl

theorem keys_resetRetry : (p.resetRetry idx).keys = p.keys := keys_update_of_eq rfl rfl

theorem keys_remove : (p.remove idx).keys = Function.update p.keys idx none := keys_update ..

/-- Allocation and eviction keep every address findable. -/
theorem findable_findOrAllocate (h : Findable probe p.keys) (addr : SocketAddr) (now : ℕ) :
    Findable probe (p.findOrAllocate addr now).1.keys := by
  cases hend : p.probeEnd addr with
  | none =>
    have hocc := occupied_of_probeEnd_eq_none hend (p.evictAndAllocate addr now).2
    have hkeys : (p.findOrAllocate addr now).1.keys =
        Function.update p.keys (p.evictAndAllocate addr now).2 (some addr) := by
      simp only [findOrAllocate, hend]
      refine (keys_update p _ fun slot => slot.allocate addr now).trans ?_
      exact congrArg (Function.update p.keys _) (if_pos hocc)
    rw [hkeys]
    exact h.overwrite (mem_probe addr) ((probeEnd_eq p addr).symm.trans hend) _
  | some idx =>
    simp only [findOrAllocate, hend]
    by_cases hocc : (p.slots idx).occupied = true
    · rw [if_pos hocc]
      exact h
    · rw [if_neg hocc, keys_update]
      exact h.insert ((probeEnd_eq p addr).symm.trans hend)
        (keys_eq_none (Bool.eq_false_of_not_eq_true hocc))

theorem findable_remove_iff (h : Findable probe p.keys) (idx : SlotIdx) :
    Findable probe (p.remove idx).keys ↔ p.KeepsProbes (.remove idx) := by
  rw [keys_remove, h.free_iff]
  constructor
  · exact fun hkeeps j hj hocc => hkeeps j _ hj (keys_eq_some_iff.2 ⟨hocc, rfl⟩)
  · intro hkeeps j addr hj hk
    obtain ⟨hocc, rfl⟩ := keys_eq_some_iff.1 hk
    exact hkeeps j hj hocc

theorem findable_apply_iff (h : Findable probe p.keys) {op : PoolOp} {p' : ConnectionPool}
    (hop : p.apply op = some p') : Findable probe p'.keys ↔ p.KeepsProbes op := by
  cases op with
  | findOrAllocate addr now =>
    cases hop
    exact iff_of_true (findable_findOrAllocate h addr now) trivial
  | storeConnection idx conn st now =>
    cases hop
    rw [keys_storeConnection]
    exact iff_of_true h trivial
  | markFailed idx now =>
    cases hop
    rw [keys_markFailed]
    exact iff_of_true h trivial
  | resetRetry idx =>
    cases hop
    rw [keys_resetRetry]
    exact iff_of_true h trivial
  | remove idx =>
    simp only [apply] at hop
    split_ifs at hop
    cases hop
    exact findable_remove_iff h idx

/-- In every history that removes no slot another probe passes, every address is in the pool once and
`find_or_allocate` returns its slot; and an operation keeps this exactly when it is not such a removal. -/
theorem uniqueAddrs_of_keepsProbes {p : ConnectionPool} (hp : histories.ReachableVia KeepsProbes p) :
    p.UniqueAddrs ∧ p.FindsExisting ∧
      ∀ op p', p.apply op = some p' → (p'.UniqueAddrs ∧ p'.FindsExisting ↔ p.KeepsProbes op) := by
  have hfindable : Findable probe p.keys := by
    refine hp.invariant (I := fun p => Findable probe p.keys) (fun p h => ?_) ?_
    · rw [show p = new from h]
      exact fun idx addr hk => nomatch (keys_eq_some_iff.1 hk).1
    · exact fun p op p' hkeeps h hop => (findable_apply_iff h hop).2 hkeeps
  refine ⟨uniqueAddrs_of_findable hfindable, findsExisting_iff.2 hfindable, fun op p' hop => ?_⟩
  rw [← findable_apply_iff hfindable hop, ← findsExisting_iff]
  exact and_iff_right_of_imp fun hfinds => uniqueAddrs_of_findable (findsExisting_iff.1 hfinds)

end ConnectionPool

/-! ## Two addresses with one hash -/

open ConnectionPool (histories)

/-- `127.0.0.1:8001` and `127.0.0.1:8129`. -/
def collidingPeers : SocketAddr × SocketAddr := (.v4 2130706433 8001, .v4 2130706433 8129)

/-- A pool that has both of them, one behind the other. -/
def collidingPool : ConnectionPool :=
  ((ConnectionPool.new.findOrAllocate collidingPeers.1 1).1.findOrAllocate collidingPeers.2 2).1

/-- The slot of the first one. -/
def collidingIdx : SlotIdx := @Fin.ofNat maxPoolSize maxPoolSize_neZero collidingPeers.1.hash

theorem keepsProbes_collidingPool : histories.ReachableVia ConnectionPool.KeepsProbes collidingPool :=
  .step (.findOrAllocate collidingPeers.2 2)
    (.step (.findOrAllocate collidingPeers.1 1) (.init rfl) trivial rfl) trivial rfl

/-- The last slot of a probe is removed: the other address is found where it is. -/
theorem uniqueAddrs_after_remove :
    ∃ p, collidingPool.apply (.remove (collidingIdx + 1)) = some p ∧
      histories.ReachableVia ConnectionPool.KeepsProbes p ∧ p.UniqueAddrs ∧ p.FindsExisting ∧
      (p.findOrAllocate collidingPeers.1 3).2 = collidingIdx := by
  have hkeeps : ∀ j, j ≠ collidingIdx + 1 → (collidingPool.slots j).occupied = true →
      ¬ Passes ConnectionPool.probe (collidingPool.slots j).addr (collidingIdx + 1) j := by
    decide +kernel
  have hreach : histories.ReachableVia ConnectionPool.KeepsProbes
      (collidingPool.remove (collidingIdx + 1)) :=
    .step (.remove (collidingIdx + 1)) keepsProbes_collidingPool hkeeps rfl
  obtain ⟨hunique, hfinds, -⟩ := ConnectionPool.uniqueAddrs_of_keepsProbes hreach
  exact ⟨_, rfl, hreach, hunique, hfinds, hfinds _ 3 collidingIdx rfl rfl⟩

/-- The first slot is removed: the second address is not found, and is put into the free slot. -/
theorem address_twice :
    ∃ p, histories.Reachable p ∧ (p.slots collidingIdx).occupied = true ∧
      (p.slots collidingIdx).addr = collidingPeers.2 ∧
      (p.slots (collidingIdx + 1)).occupied = true ∧
      (p.slots (collidingIdx + 1)).addr = collidingPeers.2 ∧ ¬ p.UniqueAddrs := by
  refine ⟨((collidingPool.remove collidingIdx).findOrAllocate collidingPeers.2 3).1,
    .step (.step keepsProbes_collidingPool.reachable (.remove collidingIdx) rfl)
      (.findOrAllocate collidingPeers.2 3) rfl, rfl, rfl, rfl, rfl, fun hunique => ?_⟩
  have heq := hunique collidingIdx (collidingIdx + 1) rfl rfl rfl
  exact absurd heq (by decide +kernel)

end Land.Quic
