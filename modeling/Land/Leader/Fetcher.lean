import Land.Leader.Refresh
import Mathlib.Data.List.Nodup

/-!
# A refresh is atomic and exact

`ScheduleFetcher::refresh` as a computation on the cache that it loads from and stores to.  The only store
is its last step, so that a refresh that fails anywhere leaves the cache as it was.  A refresh for a new
epoch joins the leader that lists a slot with the addresses of the last node of its public key.
-/

namespace Land.Leader

open Land.Quic (SocketAddr)

namespace ScheduleFetcher

/-- A call that may fail, on the cached schedule. -/
abbrev Fetch := ExceptT FetcherError (StateM (Option EpochSchedule))

/-- A request of the RPC client, with the `?` behind it. -/
def request {α : Type} (answer : Option α) : Fetch α := answer.getDM (throw .rpc)

/-- `refresh`. -/
def refresh (rpc : Rpc) : Fetch Unit := do
  let info ← request rpc.getEpochInfo
  let cache ← get
  if cache.any fun c => c.epoch = info.epoch then
    return
  let answer ← request rpc.getLeaderSchedule
  let schedule ← answer.getDM (throw .noSchedule)
  let leaders ← MonadExcept.ofExcept
    (slotLeaders (u64 (info.absoluteSlot + 2 ^ 64 - info.slotIndex)) schedule [])
  let nodes ← request rpc.getClusterNodes
  let addresses ← MonadExcept.ofExcept (tpuAddresses nodes [])
  set (some (newSchedule info leaders addresses))

/-- `get_leader_at_slot`. -/
def getLeaderAtSlot (cache : Option EpochSchedule) (slot : ℕ) : Option LeaderEntry :=
  cache.bind fun c => c.getLeaderAtSlot slot

theorem run_get_bind {α : Type} (cache : Option EpochSchedule) (f : Option EpochSchedule → Fetch α) :
    ((get : Fetch (Option EpochSchedule)) >>= f).run.run cache = (f cache).run.run cache := rfl

theorem ofExcept_ok {α : Type} (a : α) :
    (MonadExcept.ofExcept (.ok a : Except FetcherError α) : Fetch α) = pure a := rfl

/-- The computation returns what `Land.Leader.refresh` returns, and stores its result if there is one. -/
theorem run_refresh (rpc : Rpc) (cache : Option EpochSchedule) : (refresh rpc).run.run cache =
    ((Leader.refresh cache rpc).map fun _ => (), (Leader.refresh cache rpc).toOption.getD cache) := by
  obtain ⟨_ | info, answer, nodes⟩ := rpc
  · rfl
  by_cases hcached : cache.any fun c => c.epoch = info.epoch
  · simp only [refresh, Leader.refresh, request, Option.getDM_some, pure_bind, run_get_bind, if_pos hcached]
    rfl
  simp only [refresh, Leader.refresh, request, Option.getDM_some, pure_bind, run_get_bind, if_neg hcached]
  obtain _ | _ | schedule := answer
  · rfl
  · rfl
  simp only [Option.getDM_some, pure_bind]
  cases slotLeaders (u64 (info.absoluteSlot + 2 ^ 64 - info.slotIndex)) schedule [] with
  | error e => rfl
  | ok leaders =>
    obtain _ | nodes := nodes
    · rfl
    simp only [Option.getDM_some, ofExcept_ok, pure_bind]
    cases tpuAddresses nodes [] with
    | error e => rfl
    | ok addresses => rfl

end ScheduleFetcher

/-! ### What the answers say -/

/-- The leader that lists a slot of the epoch. -/
def Lists (schedule : List (Option Pubkey × List ℕ)) (relativeSlot : ℕ) (leader : Pubkey) : Prop :=
  ∃ slots, (some leader, slots) ∈ schedule ∧ relativeSlot ∈ slots

/-- The last node with a public key. -/
def lastNode (nodes : List ContactInfo) (leader : Pubkey) : Option ContactInfo :=
  nodes.reverse.find? fun node => node.pubkey = some leader

/-- A slot of the epoch is listed by a leader whose two addresses are known. -/
def Announced (schedule : List (Option Pubkey × List ℕ)) (nodes : List ContactInfo) (relativeSlot : ℕ)
    (leader : Pubkey) (tpuQuic tpuQuicFwd : SocketAddr) : Prop :=
  Lists schedule relativeSlot leader ∧ ∃ node, lastNode nodes leader = some node ∧
    node.tpuQuic = some tpuQuic ∧ node.tpuForwardsQuic = some tpuQuicFwd

/-- The entry that belongs to a slot of the epoch. -/
def Joined (schedule : List (Option Pubkey × List ℕ)) (nodes : List ContactInfo) (relativeSlot : ℕ)
    (entry : LeaderEntry) : Prop :=
  (∀ leader tpuQuic tpuQuicFwd, Announced schedule nodes relativeSlot leader tpuQuic tpuQuicFwd →
    entry = .new leader tpuQuic tpuQuicFwd) ∧
  ((¬ ∃ leader tpuQuic tpuQuicFwd, Announced schedule nodes relativeSlot leader tpuQuic tpuQuicFwd) →
    entry = .empty)

/-- The first slot of the epoch. -/
def EpochInfo.start (info : EpochInfo) : ℕ := info.absoluteSlot - info.slotIndex

/-- Answers with slots that fit, in which no slot is listed twice. -/
structure Rpc.WellFormed (rpc : Rpc) : Prop where
  slotIndex_le : ∀ info, rpc.getEpochInfo = some info → info.slotIndex ≤ info.absoluteSlot
  epoch_fits : ∀ info, rpc.getEpochInfo = some info → info.start + info.slotsInEpoch < 2 ^ 64
  listed_fits : ∀ info schedule, rpc.getEpochInfo = some info →
    rpc.getLeaderSchedule = some (some schedule) → ∀ e ∈ schedule, ∀ r ∈ e.2, info.start + r < 2 ^ 64
  nodup : ∀ schedule, rpc.getLeaderSchedule = some (some schedule) → (schedule.flatMap (·.2)).Nodup

theorem Lists.unique {schedule : List (Option Pubkey × List ℕ)} (hnodup : (schedule.flatMap (·.2)).Nodup)
    {r : ℕ} {leader leader' : Pubkey} (h : Lists schedule r leader) (h' : Lists schedule r leader') :
    leader = leader' := by
  obtain ⟨slots, hmem, hr⟩ := h
  obtain ⟨slots', hmem', hr'⟩ := h'
  have hsymm : Std.Symm (Function.onFun List.Disjoint fun e : Option Pubkey × List ℕ => e.2) :=
    ⟨fun _ _ h => h.symm⟩
  by_contra hne
  have hdisjoint := (List.nodup_flatMap.1 hnodup).2.forall hmem hmem' (by simpa using fun h => absurd h hne)
  exact hdisjoint hr hr'

/-! ### The two maps -/

/-- In a list with one value for a key, a lookup finds it. -/
theorem lookup_eq_some_iff_mem {α β : Type} [BEq α] [LawfulBEq α] {l : List (α × β)} {k : α} {v : β}
    (hunique : ∀ v', (k, v') ∈ l → ∀ v, (k, v) ∈ l → v' = v) : l.lookup k = some v ↔ (k, v) ∈ l := by
  constructor
  · intro h
    obtain ⟨l₁, l₂, rfl, -⟩ := List.lookup_eq_some_iff.1 h
    simp
  · intro h
    have hfound : (l.lookup k).isSome := List.lookup_isSome_iff.2 ⟨_, h, by simp⟩
    obtain ⟨v', hv'⟩ := Option.isSome_iff_exists.1 hfound
    obtain ⟨l₁, l₂, rfl, -⟩ := List.lookup_eq_some_iff.1 hv'
    rw [hv', hunique v' (by simp) v h]

/-- The slots that a schedule inserts, in the order of the loops. -/
def insertions (epochStartSlot : ℕ) (schedule : List (Option Pubkey × List ℕ)) : List (ℕ × Pubkey) :=
  schedule.flatMap fun e => e.1.toList.flatMap fun leader =>
    e.2.map fun relativeSlot => (u64 (epochStartSlot + relativeSlot), leader)

theorem slotLeaders_eq {start : ℕ} {schedule : List (Option Pubkey × List ℕ)}
    {acc leaders : List (ℕ × Pubkey)} (h : slotLeaders start schedule acc = .ok leaders) :
    leaders = (insertions start schedule).reverse ++ acc := by
  fun_induction slotLeaders start schedule acc with
  | case1 acc =>
    cases h
    rfl
  | case2 => cases h
  | case3 leader slots rest acc ih =>
    rw [ih h, List.foldl_flip_cons_eq_append]
    simp [insertions]

/-- Where no slot is listed twice, the map has for a slot the leader that lists it. -/
theorem lookup_slotLeaders {start : ℕ} {schedule : List (Option Pubkey × List ℕ)}
    {leaders : List (ℕ × Pubkey)} (h : slotLeaders start schedule [] = .ok leaders)
    (hnodup : (schedule.flatMap (·.2)).Nodup) (hfits : ∀ e ∈ schedule, ∀ r ∈ e.2, start + r < 2 ^ 64)
    (r : ℕ) (leader : Pubkey) :
    leaders.lookup (start + r) = some leader ↔ Lists schedule r leader := by
  have hmem (leader : Pubkey) : (start + r, leader) ∈ leaders ↔ Lists schedule r leader := by
    rw [slotLeaders_eq h]
    simp only [insertions, List.append_nil, List.mem_reverse, List.mem_flatMap, Option.mem_toList,
      List.mem_map, Prod.exists, Prod.mk.injEq]
    constructor
    · rintro ⟨_, slots, he, p, rfl, x, hx, heq, rfl⟩
      rw [u64_of_lt (hfits _ he x hx)] at heq
      obtain rfl : x = r := by omega
      exact ⟨slots, he, hx⟩
    · rintro ⟨slots, he, hr⟩
      exact ⟨some leader, slots, he, leader, rfl, r, hr, u64_of_lt (hfits _ he r hr), rfl⟩
  rw [lookup_eq_some_iff_mem, hmem]
  intro p hp p' hp'
  exact Lists.unique hnodup ((hmem p).1 hp) ((hmem p').1 hp')

/-- The map has for a public key the addresses of its last node, before those that were there. -/
theorem lookup_tpuAddresses {nodes : List ContactInfo} {acc addresses : List (Pubkey × TpuAddresses)}
    (h : tpuAddresses nodes acc = .ok addresses) (leader : Pubkey) :
    addresses.lookup leader = ((lastNode nodes leader).map fun node =>
      ⟨node.tpuQuic, node.tpuForwardsQuic⟩).or (acc.lookup leader) := by
  fun_induction tpuAddresses nodes acc with
  | case1 acc =>
    cases h
    rfl
  | case2 => cases h
  | case3 node rest acc pubkey hkey ih =>
    rw [ih h]
    have hlast : lastNode (node :: rest) leader =
        (lastNode rest leader).or (if pubkey = leader then some node else none) := by
      simp [lastNode, List.find?_append, hkey]
    rw [hlast]
    cases lastNode rest leader with
    | some last => rfl
    | none =>
      by_cases hp : pubkey = leader
      · subst hp
        simp
      · simp [hp, List.lookup_cons, beq_false_of_ne (Ne.symm hp)]

theorem joined_joinedEntry {start : ℕ} {schedule : List (Option Pubkey × List ℕ)}
    {nodes : List ContactInfo} {leaders : List (ℕ × Pubkey)} {addresses : List (Pubkey × TpuAddresses)}
    {r : ℕ} (hleaders : ∀ leader, leaders.lookup (start + r) = some leader ↔ Lists schedule r leader)
    (haddresses : ∀ leader, addresses.lookup leader = (lastNode nodes leader).map fun node =>
      ⟨node.tpuQuic, node.tpuForwardsQuic⟩) :
    Joined schedule nodes r (joinedEntry leaders addresses (start + r)) := by
  constructor
  · rintro leader quic fwd ⟨hlists, node, hnode, hquic, hfwd⟩
    simp only [joinedEntry, (hleaders leader).2 hlists, haddresses, hnode, Option.map_some,
      Option.getD_some, hquic, hfwd]
  · intro hnone
    unfold joinedEntry
    cases hl : leaders.lookup (start + r) with
    | none => rfl
    | some leader =>
      simp only [haddresses]
      cases hn : lastNode nodes leader with
      | none => rfl
      | some node =>
        simp only [Option.map_some, Option.getD_some]
        cases hq : node.tpuQuic with
        | none => rfl
        | some quic =>
          cases hf : node.tpuForwardsQuic with
          | none => rfl
          | some fwd => exact absurd ⟨leader, quic, fwd, (hleaders leader).1 hl, node, hn, hq, hf⟩ hnone

/-! ### The schedule that is stored -/

theorem u64_start {info : EpochInfo} (hle : info.slotIndex ≤ info.absoluteSlot)
    (hfit : info.start < 2 ^ 64) : u64 (info.absoluteSlot + 2 ^ 64 - info.slotIndex) = info.start := by
  have hsub : info.absoluteSlot + 2 ^ 64 - info.slotIndex = info.start + 2 ^ 64 := by
    unfold EpochInfo.start
    omega
  rw [hsub, u64, Nat.add_mod_right, Nat.mod_eq_of_lt hfit]

/-- The cache holds the epoch, and for each of its slots the entry that belongs to it. -/
structure Installed (info : EpochInfo) (schedule : List (Option Pubkey × List ℕ))
    (nodes : List ContactInfo) (cache : Option EpochSchedule) : Prop where
  isSlotInCache_iff : ∀ slot, isSlotInCache cache slot = true ↔
    info.start ≤ slot ∧ slot < info.start + info.slotsInEpoch
  index_lt : ∀ c ∈ cache, ∀ slot, isSlotInCache cache slot = true →
    slot - c.epochStartSlot < c.leaders.length
  getLeaderAtSlot : ∀ slot, info.start ≤ slot → slot < info.start + info.slotsInEpoch →
    ∃ entry, ScheduleFetcher.getLeaderAtSlot cache slot = some entry ∧
      Joined schedule nodes (slot - info.start) entry

theorem installed_some {info : EpochInfo} {schedule : List (Option Pubkey × List ℕ)}
    {nodes : List ContactInfo} {c : EpochSchedule} (hstart : c.epochStartSlot = info.start)
    (hmax : c.maxSlot = info.start + info.slotsInEpoch)
    (hentries : ∀ r < info.slotsInEpoch,
      ∃ entry, c.leaders[r]? = some entry ∧ Joined schedule nodes r entry) :
    Installed info schedule nodes (some c) := by
  have hin (slot : ℕ) : isSlotInCache (some c) slot = true ↔
      c.epochStartSlot ≤ slot ∧ slot < c.maxSlot := by
    rw [isSlotInCache, Option.any_some, decide_eq_true_iff]
  refine ⟨fun slot => ?_, ?_, fun slot hlo hhi => ?_⟩
  · rw [hin, hstart, hmax]
  · rintro c ⟨⟩ slot hslot
    exact c.index_lt ((hin slot).1 hslot).2 ((hin slot).1 hslot).1
  · obtain ⟨entry, hentry, hjoined⟩ := hentries (slot - info.start) (by omega)
    refine ⟨entry, ?_, hjoined⟩
    rw [ScheduleFetcher.getLeaderAtSlot, Option.bind_some,
      c.getLeaderAtSlot_of_mem ⟨hstart.trans_le hlo, hhi.trans_eq hmax.symm⟩, hstart, hentry]

/-- What a refresh stores, from the answers it got. -/
theorem installed_newSchedule {info : EpochInfo} {schedule : List (Option Pubkey × List ℕ)}
    {nodes : List ContactInfo} {leaders : List (ℕ × Pubkey)} {addresses : List (Pubkey × TpuAddresses)}
    (hwf : Rpc.WellFormed ⟨some info, some (some schedule), some nodes⟩)
    (hl : slotLeaders (u64 (info.absoluteSlot + 2 ^ 64 - info.slotIndex)) schedule [] = .ok leaders)
    (ha : tpuAddresses nodes [] = .ok addresses) :
    Installed info schedule nodes (some (newSchedule info leaders addresses)) := by
  have hfit := hwf.epoch_fits info rfl
  have hu64 := u64_start (hwf.slotIndex_le info rfl) (lt_of_le_of_lt (Nat.le_add_right _ _) hfit)
  rw [hu64] at hl
  have hstart : (newSchedule info leaders addresses).epochStartSlot = info.start := by
    simp only [newSchedule, hu64]
  have hleaders : (newSchedule info leaders addresses).leaders = (List.range info.slotsInEpoch).map
      fun slotOffset => joinedEntry leaders addresses (u64 (info.start + slotOffset)) := by
    simp only [newSchedule, hu64]
  apply installed_some hstart
  · rw [EpochSchedule.maxSlot, hstart]
    exact u64_of_lt hfit
  · intro r hr
    rw [hleaders, List.getElem?_map, List.getElem?_range hr, Option.map_some, u64_of_lt (by omega)]
    refine ⟨_, rfl, joined_joinedEntry (fun leader => ?_) fun leader => ?_⟩
    · exact lookup_slotLeaders hl (hwf.nodup schedule rfl) (hwf.listed_fits info schedule rfl rfl) r leader
    · rw [lookup_tpuAddresses ha leader, List.lookup_nil, Option.or_none]

/-- A refresh that fails leaves the cache unchanged, and one that succeeds for an epoch that was not cached
installs the schedule of that epoch. -/
theorem ScheduleFetcher.refresh_spec {rpc : Rpc} {cache cache' : Option EpochSchedule}
    {result : Except FetcherError Unit} (hrun : (refresh rpc).run.run cache = (result, cache')) :
    (∀ e, result = .error e → cache' = cache) ∧
    (rpc.WellFormed → result = .ok () →
      (∀ c ∈ cache, ∀ info ∈ rpc.getEpochInfo, c.epoch ≠ info.epoch) →
      ∃ info schedule nodes, rpc = ⟨some info, some (some schedule), some nodes⟩ ∧
        Installed info schedule nodes cache') := by
  rw [run_refresh] at hrun
  cases hr : Leader.refresh cache rpc with
  | error e =>
    rw [hr] at hrun
    cases hrun
    refine ⟨fun _ _ => rfl, fun _ hok => ?_⟩
    cases hok
  | ok installed =>
    rw [hr] at hrun
    cases hrun
    refine ⟨fun e herror => ?_, fun hwf _ hnew => ?_⟩
    · cases herror
    obtain ⟨info, hinfo, hcached, -⟩ | ⟨info, schedule, nodes, leaders, addresses, rfl, hl, ha, hc⟩ :=
      refresh_ok_cases hr
    · obtain _ | c := cache
      · cases hcached
      · exact absurd (of_decide_eq_true hcached) (hnew c rfl info hinfo)
    · obtain rfl := hc
      exact ⟨info, schedule, nodes, rfl, installed_newSchedule hwf hl ha⟩

/-- Answers for an epoch of four slots, of which one is not listed, with two nodes of one key. -/
def pairedRpc : Rpc where
  getEpochInfo := some ⟨7, 1003, 3, 4⟩
  getLeaderSchedule := some (some [(some 5, [0, 2]), (some 6, [1])])
  getClusterNodes := some [⟨some 5, some (.v4 0x0A000001 9000), some (.v4 0x0A000001 9001)⟩,
    ⟨some 6, some (.v4 0x0A000002 9000), none⟩,
    ⟨some 5, some (.v4 0x0A000003 9000), some (.v4 0x0A000003 9001)⟩]

/-- The last node of a key counts, and a leader without a second address has no entry. -/
theorem ScheduleFetcher.refresh_spec_paired : ∃ info schedule nodes cache',
    pairedRpc = ⟨some info, some (some schedule), some nodes⟩ ∧
    (refresh pairedRpc).run.run none = (.ok (), cache') ∧ Installed info schedule nodes cache' ∧
    getLeaderAtSlot cache' 1002 = some (.new 5 (.v4 0x0A000003 9000) (.v4 0x0A000003 9001)) ∧
    getLeaderAtSlot cache' 1001 = some .empty := by
  have hwf : pairedRpc.WellFormed := by
    constructor
    · rintro info ⟨⟩
      decide
    · rintro info ⟨⟩
      decide
    · rintro info schedule ⟨⟩ ⟨⟩
      decide
    · rintro schedule ⟨⟩
      decide
  obtain ⟨cache', hrun⟩ : ∃ cache', (refresh pairedRpc).run.run none = (.ok (), cache') := ⟨_, rfl⟩
  obtain ⟨info, schedule, nodes, hrpc, hinstalled⟩ := (refresh_spec hrun).2 hwf rfl (by simp)
  cases hrun
  exact ⟨info, schedule, nodes, _, hrpc, rfl, hinstalled, rfl, rfl⟩

end Land.Leader
