import Land.Leader.Schedule
import Land.Quic.SocketAddr

/-!
# Refreshing the schedule

`ScheduleFetcher::refresh` of `leader/src/schedule_fetcher.rs`.  The answers of the RPC node come with the
call, with each public key as its parser reads it.  A map is the list of what was inserted, the last
insertion of a key first.
-/

namespace Land.Leader

open Land.Quic (SocketAddr)

abbrev Pubkey := BitVec 256

/-- `FetcherError`. -/
inductive FetcherError where
  | rpc
  | noSchedule
  | invalidPubkey
  deriving Repr, DecidableEq

/-- `EpochInfo`, the fields read. -/
structure EpochInfo where
  epoch : ℕ
  absoluteSlot : ℕ
  slotIndex : ℕ
  slotsInEpoch : ℕ

/-- `RpcContactInfo`, the fields read. -/
structure ContactInfo where
  pubkey : Option Pubkey
  tpuQuic : Option SocketAddr
  tpuForwardsQuic : Option SocketAddr

/-- The answers to the three requests of a refresh. -/
structure Rpc where
  getEpochInfo : Option EpochInfo
  getLeaderSchedule : Option (Option (List (Option Pubkey × List ℕ)))
  getClusterNodes : Option (List ContactInfo)

/-- `TpuAddresses`. -/
structure TpuAddresses where
  tpuQuic : Option SocketAddr
  tpuQuicFwd : Option SocketAddr

namespace LeaderEntry

/-- `extract_ipv4`. -/
def extractIpv4 : SocketAddr → BitVec 32 × BitVec 16
  | .v4 ip port => (ip, port)
  | .v6 ip port _ _ => ((SocketAddr.toIpv4Mapped ip).getD 0, port)

/-- `LeaderEntry::new`. -/
def new (pubkey : Pubkey) (tpuQuic tpuQuicFwd : SocketAddr) : LeaderEntry :=
  let quic := extractIpv4 tpuQuic
  let fwd := extractIpv4 tpuQuicFwd
  { pubkey := pubkey
    tpuQuicIp := quic.1
    tpuQuicPort := quic.2
    tpuQuicFwdIp := fwd.1
    tpuQuicFwdPort := fwd.2
    startSlot := 0 }

end LeaderEntry

/-- The slot leaders of the fetched schedule, by absolute slot. -/
def slotLeaders (epochStartSlot : ℕ) :
    List (Option Pubkey × List ℕ) → List (ℕ × Pubkey) → Except FetcherError (List (ℕ × Pubkey))
  | [], acc => .ok acc
  | (none, _) :: _, _ => .error .invalidPubkey
  | (some leader, slots) :: rest, acc =>
      slotLeaders epochStartSlot rest
        (slots.foldl (fun acc relativeSlot => (u64 (epochStartSlot + relativeSlot), leader) :: acc) acc)

/-- The addresses of the fetched nodes, by public key. -/
def tpuAddresses :
    List ContactInfo → List (Pubkey × TpuAddresses) → Except FetcherError (List (Pubkey × TpuAddresses))
  | [], acc => .ok acc
  | node :: rest, acc =>
      match node.pubkey with
      | none => .error .invalidPubkey
      | some pubkey => tpuAddresses rest ((pubkey, ⟨node.tpuQuic, node.tpuForwardsQuic⟩) :: acc)

/-- The entry of an absolute slot: a leader both of whose addresses are known. -/
def joinedEntry (leaders : List (ℕ × Pubkey)) (addresses : List (Pubkey × TpuAddresses))
    (absoluteSlot : ℕ) : LeaderEntry :=
  match leaders.lookup absoluteSlot with
  | none => .empty
  | some leader =>
      match (addresses.lookup leader).getD ⟨none, none⟩ with
      | ⟨some tpuQuic, some tpuQuicFwd⟩ => .new leader tpuQuic tpuQuicFwd
      | _ => .empty

/-- The schedule that a refresh installs. -/
def newSchedule (info : EpochInfo) (leaders : List (ℕ × Pubkey))
    (addresses : List (Pubkey × TpuAddresses)) : EpochSchedule :=
  let epochStartSlot := u64 (info.absoluteSlot + 2 ^ 64 - info.slotIndex)
  { epoch := info.epoch
    epochStartSlot := epochStartSlot
    slotsInEpoch := info.slotsInEpoch
    leaders := (List.range info.slotsInEpoch).map fun slotOffset =>
      joinedEntry leaders addresses (u64 (epochStartSlot + slotOffset))
    length_leaders := by simp }

/-- `refresh`: the cache after it. -/
def refresh (cache : Option EpochSchedule) (rpc : Rpc) : Except FetcherError (Option EpochSchedule) :=
  match rpc.getEpochInfo with
  | none => .error .rpc
  | some info =>
      if cache.any fun c => c.epoch = info.epoch then .ok cache
      else
        match rpc.getLeaderSchedule with
        | none => .error .rpc
        | some none => .error .noSchedule
        | some (some schedule) => do
            let leaders ← slotLeaders (u64 (info.absoluteSlot + 2 ^ 64 - info.slotIndex)) schedule []
            match rpc.getClusterNodes with
            | none => .error .rpc
            | some nodes => do
                let addresses ← tpuAddresses nodes []
                return some (newSchedule info leaders addresses)

/-- How a refresh succeeds. -/
theorem refresh_ok_cases {cache cache' : Option EpochSchedule} {rpc : Rpc}
    (h : refresh cache rpc = .ok cache') :
    (∃ info, rpc.getEpochInfo = some info ∧ (cache.any fun c => c.epoch = info.epoch) = true ∧
      cache' = cache) ∨
    ∃ info schedule nodes leaders addresses, rpc = ⟨some info, some (some schedule), some nodes⟩ ∧
      slotLeaders (u64 (info.absoluteSlot + 2 ^ 64 - info.slotIndex)) schedule [] = .ok leaders ∧
      tpuAddresses nodes [] = .ok addresses ∧ cache' = some (newSchedule info leaders addresses) := by
  obtain ⟨_ | info, answer, nodes⟩ := rpc
  · cases h
  by_cases hcached : cache.any fun c => c.epoch = info.epoch
  · simp only [refresh, if_pos hcached] at h
    cases h
    exact .inl ⟨info, rfl, hcached, rfl⟩
  simp only [refresh, if_neg hcached] at h
  obtain _ | _ | schedule := answer
  · cases h
  · cases h
  simp only at h
  cases hl : slotLeaders (u64 (info.absoluteSlot + 2 ^ 64 - info.slotIndex)) schedule [] with
  | error e =>
    rw [hl] at h
    cases h
  | ok leaders =>
    rw [hl] at h
    obtain _ | nodes := nodes
    · cases h
    cases ha : tpuAddresses nodes [] with
    | error e =>
      simp only [ha] at h
      cases h
    | ok addresses =>
      simp only [ha] at h
      cases h
      exact .inr ⟨info, schedule, nodes, leaders, addresses, rfl, hl, ha, rfl⟩

/-- `is_slot_in_cache`. -/
def isSlotInCache (cache : Option EpochSchedule) (slot : ℕ) : Bool :=
  cache.any fun c => c.epochStartSlot ≤ slot ∧ slot < c.maxSlot

/-- A turn of the task of `spawn_refresh_task` that reads `currentSlot`; a failed refresh keeps the
cache. -/
def refreshTask (cache : Option EpochSchedule) (currentSlot : ℕ) (rpc : Rpc) : Option EpochSchedule :=
  if isSlotInCache cache currentSlot then cache
  else
    match refresh cache rpc with
    | .ok cache' => cache'
    | .error _ => cache

end Land.Leader
