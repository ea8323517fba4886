import Land.Session.Concurrent

/-!
# Calls that no other call overlaps

The accesses of one call, made in a row, do what the call of `Land.Session.Cache` does in one step.
-/

namespace Land.Session

open Land.Quic (Bytes)

variable {m m' : Memory} {a : Peer} {torn : SessionToken} {nowNs : ℕ}

/-- A thread makes accesses in a row. -/
def Alone (torn : SessionToken) (nowNs : ℕ) : Memory × Pc → Memory × Pc → Prop :=
  Relation.ReflTransGen fun r r' => r.2.access r.1 torn nowNs = some r'

theorem Alone.refl (r : Memory × Pc) : Alone torn nowNs r r := Relation.ReflTransGen.refl

theorem Alone.head {pc pc' : Pc} {r : Memory × Pc} (h : pc.access m torn nowNs = some (m', pc'))
    (hr : Alone torn nowNs (m', pc') r) : Alone torn nowNs (m, pc) r :=
  Relation.ReflTransGen.head h hr

/-- In the system, the other threads stay where they are. -/
theorem Alone.leads {T : Type} [DecidableEq T] {s : State T} {t : T} {r : Memory × Pc}
    (h : Alone torn nowNs (s.mem, s.pc t) r) : (concurrent T).Leads s (s.set t r.1 r.2) := by
  induction h with
  | refl =>
    have hself : s.set t s.mem (s.pc t) = s := by simp [State.set]
    rw [hself]
    exact .refl
  | tail _ h ih =>
    refine ih.step (.access t torn nowNs) ?_
    show ((State.set ..).pc t |>.access _ torn nowNs).map _ = _
    rw [State.set_pc_self]
    show Option.map _ (Pc.access _ torn nowNs _) = _
    rw [State.set, h]
    simp [State.set]

/-! ## The slots of a shard in turn -/

theorem find?_slot (p : Fin slotsPerShard → Bool) :
    Fin.find? p = if p 0 then some 0 else if p 1 then some 1 else none := by
  split_ifs with h₀ h₁
  · simp [h₀]
  · simp [Fin.forall_fin_two, h₀, h₁]
  · simp [Fin.forall_fin_two, h₀, h₁]

theorem slotOf_cache (m : Memory) (a : Peer) : m.cache.slotOf a.addr =
    if m.addr (a.shard, 0) = a.packed then some 0
    else if m.addr (a.shard, 1) = a.packed then some 1 else none := by
  simp only [SessionTokenCache.slotOf, find?_slot, beq_iff_eq]
  rfl

variable {i : Fin slotsPerShard}

/-! ## `get` -/

theorem getLoad_found (h : m.addr (a.shard, i) = a.packed) :
    (Pc.getLoad a i).access m torn nowNs = some (m, .readVersion a i) := by
  simp [Pc.access, h]

theorem getLoad_next (h : m.addr (a.shard, i) ≠ a.packed) :
    (Pc.getLoad a i).access m torn nowNs = some (m, .getScan a (nextSlot i)) := by
  simp [Pc.access, h]

/-- The read of a token that no write overlaps. -/
theorem read_alone (heven : m.seq (a.shard, i) % 2 = 0) (hspoiled : m.spoiled (a.shard, i) = false) :
    Alone torn nowNs (m, .readVersion a i) (m, .returned a
      (if (m.token (a.shard, i)).isValid nowNs then some (m.token (a.shard, i)) else none)) := by
  have hversion : (Pc.readVersion a i).access m torn nowNs =
      some (m, .readData a i (m.seq (a.shard, i))) := by
    simp [Pc.access, heven]
  have hdata : (Pc.readData a i (m.seq (a.shard, i))).access m torn nowNs =
      some (m, .readCheck a i (m.seq (a.shard, i)) (m.token (a.shard, i))) := by
    simp [Pc.access, Memory.copy, hspoiled]
  have hcheck : (Pc.readCheck a i (m.seq (a.shard, i)) (m.token (a.shard, i))).access m torn nowNs =
      some (m, .validate a (m.token (a.shard, i))) := by
    simp [Pc.access]
  have hvalidate : (Pc.validate a (m.token (a.shard, i))).access m torn nowNs = some (m, .returned a
      (if (m.token (a.shard, i)).isValid nowNs then some (m.token (a.shard, i)) else none)) := rfl
  exact .head hversion (.head hdata (.head hcheck (.head hvalidate (.refl _))))

theorem get_alone (heven : ∀ p, m.seq p % 2 = 0) (hspoiled : ∀ p, m.spoiled p = false) :
    Alone torn nowNs (m, .getLoad a 0) (m, .returned a (m.cache.get a.addr nowNs)) := by
  rw [SessionTokenCache.get, slotOf_cache]
  by_cases h₀ : m.addr (a.shard, 0) = a.packed
  · rw [if_pos h₀]
    exact .head (getLoad_found h₀) (read_alone (heven _) (hspoiled _))
  · rw [if_neg h₀]
    refine .head (getLoad_next h₀) ?_
    by_cases h₁ : m.addr (a.shard, 1) = a.packed
    · rw [if_pos h₁]
      exact .head (getLoad_found h₁) (read_alone (heven _) (hspoiled _))
    · rw [if_neg h₁]
      exact .head (getLoad_next h₁) (.refl _)

/-! ## `invalidate` -/

theorem invalidateLoad_found (h : m.addr (a.shard, i) = a.packed) :
    (Pc.invalidateLoad a i).access m torn nowNs = some (m, .clear a i) := by
  simp [Pc.access, h]

theorem invalidateLoad_next (h : m.addr (a.shard, i) ≠ a.packed) :
    (Pc.invalidateLoad a i).access m torn nowNs = some (m, .invalidateScan a (nextSlot i)) := by
  simp [Pc.access, h]

theorem cache_setAddr_zero (m : Memory) (p : Place) : (m.setAddr p 0).cache =
    { m.cache with slots := Function.update m.cache.slots p { m.cache.slots p with addr := 0 } } := by
  refine SessionTokenCache.ext (funext fun q => ?_) rfl
  by_cases hq : q = p
  · subst hq
    simp [Memory.cache, Memory.setAddr]
  · simp [Memory.cache, Memory.setAddr, Function.update_of_ne hq]

theorem invalidate_alone (m : Memory) (a : Peer) :
    ∃ m', Alone torn nowNs (m, .invalidateLoad a 0) (m', .idle) ∧
      m'.cache = m.cache.invalidate a.addr := by
  rw [SessionTokenCache.invalidate, slotOf_cache]
  by_cases h₀ : m.addr (a.shard, 0) = a.packed
  · rw [if_pos h₀]
    exact ⟨_, .head (invalidateLoad_found h₀) (.head rfl (.refl _)), cache_setAddr_zero m _⟩
  · rw [if_neg h₀]
    by_cases h₁ : m.addr (a.shard, 1) = a.packed
    · rw [if_pos h₁]
      exact ⟨_, .head (invalidateLoad_next h₀) (.head (invalidateLoad_found h₁) (.head rfl (.refl _))),
        cache_setAddr_zero m _⟩
    · rw [if_neg h₁]
      exact ⟨m, .head (invalidateLoad_next h₀) (.head (invalidateLoad_next h₁) (.refl _)), rfl⟩

/-! ## `insert` -/

section Insert

variable {token : SessionToken}

theorem insertLoad_found (h : m.addr (a.shard, i) = a.packed) :
    (Pc.insertLoad a token i).access m torn nowNs = some (m, .write .enter false a token i) := by
  simp [Pc.access, h]

theorem insertLoad_empty (h : m.addr (a.shard, i) = 0) :
    (Pc.insertLoad a token i).access m torn nowNs = some (m, .claim a token i) := by
  have hne : m.addr (a.shard, i) ≠ a.packed := fun heq => a.packed_ne_zero (heq.symm.trans h)
  simp only [Pc.access, if_neg hne, if_pos h]

theorem insertLoad_next (h : ¬ m.cache.Free a i) :
    (Pc.insertLoad a token i).access m torn nowNs = some (m, .insertScan a token (nextSlot i)) := by
  obtain ⟨hne, hzero⟩ := not_or.mp h
  exact congrArg some (congrArg (Prod.mk m) ((if_neg hne).trans (if_neg hzero)))

theorem claim_empty (h : m.addr (a.shard, i) = 0) : (Pc.claim a token i).access m torn nowNs =
    some (m.setAddr (a.shard, i) a.packed, .write .enter true a token i) := by
  simp [Pc.access, h]

/-- The memory after the write of a token to a slot that has the address. -/
theorem write_alone {claimed : Bool} (h : m.addr (a.shard, i) = a.packed) :
    ∃ m', Alone torn nowNs (m, .write .enter claimed a token i) (m', .idle) ∧
      m'.cache = m.cache.put (a.shard, i) a.packed token := by
  refine ⟨_, .head rfl (.head rfl (.head rfl (.refl _))), ?_⟩
  refine SessionTokenCache.ext (funext fun q => ?_) rfl
  by_cases hq : q = (a.shard, i)
  · subst hq
    simp [Memory.cache, SessionTokenCache.put, Memory.increment, Memory.setToken, Memory.beginWrite, h]
  · simp [Memory.cache, SessionTokenCache.put, Memory.increment, Memory.setToken, Memory.beginWrite,
      Function.update_of_ne hq]

/-- A claimed slot is filled as one that had the address. -/
theorem claim_alone : ∃ m', Alone torn nowNs
      (m.setAddr (a.shard, i) a.packed, .write .enter true a token i) (m', .idle) ∧
      m'.cache = m.cache.put (a.shard, i) a.packed token := by
  obtain ⟨m', hm, hcache⟩ := write_alone (m.setAddr_addr_self (p := (a.shard, i)) a.packed)
  refine ⟨m', hm, hcache.trans (SessionTokenCache.ext (funext fun q => ?_) rfl)⟩
  by_cases hq : q = (a.shard, i)
  · subst hq
    simp [Memory.cache, SessionTokenCache.put, Memory.setAddr]
  · simp [Memory.cache, SessionTokenCache.put, Memory.setAddr, Function.update_of_ne hq]

/-- The loop of `insert` at a slot that has the address or none. -/
theorem fill_alone (h : m.cache.Free a i) :
    ∃ m', Alone torn nowNs (m, .insertLoad a token i) (m', .idle) ∧
      m'.cache = m.cache.put (a.shard, i) a.packed token := by
  rcases h with h | h
  · obtain ⟨m', hm, hcache⟩ := write_alone h
    exact ⟨m', .head (insertLoad_found h) hm, hcache⟩
  · obtain ⟨m', hm, hcache⟩ := claim_alone
    exact ⟨m', .head (insertLoad_empty h) (.head (claim_empty h) hm), hcache⟩

theorem evict_alone : ∃ m', Alone torn nowNs (m, .evict a token) (m', .idle) ∧
    m'.cache = { m.cache.put (a.shard, Fin.ofNat slotsPerShard m.evictCounter) a.packed token with
      evictCounter := m.evictCounter + 1 } := by
  obtain ⟨m', hm, hcache⟩ := claim_alone
  exact ⟨m', .head rfl (.head rfl hm), hcache⟩

theorem insert_alone (m : Memory) (a : Peer) {tokenData : Bytes}
    (hlen : tokenData.length ≤ maxTokenSize) (now : ℕ) :
    ∃ m', Alone torn nowNs (m, .insertLoad a (.ofData tokenData now) 0) (m', .idle) ∧
      m'.cache = (m.cache.insert a.addr tokenData now).1 := by
  simp only [SessionTokenCache.insert, if_neg (Nat.not_lt.mpr hlen), find?_slot,
    SessionTokenCache.free_iff]
  split_ifs with h₀ h₁
  · exact fill_alone h₀
  · obtain ⟨m', hm, hcache⟩ := fill_alone h₁
    exact ⟨m', .head (insertLoad_next h₀) hm, hcache⟩
  · obtain ⟨m', hm, hcache⟩ := evict_alone
    exact ⟨m', .head (insertLoad_next h₀) (.head (insertLoad_next h₁) hm), hcache⟩

end Insert

end Land.Session
