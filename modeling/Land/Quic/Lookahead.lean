import Land.Quic.SocketAddr
import Land.Timing.Percentile

/-!
# The adaptive lookahead

`calculate_lookahead_solana_slots` of `quic/src/endpoint.rs` over the registry of
`quic/src/timing_registry.rs`: the handshake time of the configured percentile is rounded down to the lower
end of its bucket and then to milliseconds, and the number of slots is rounded up from there.  So the
lookahead need not cover the handshake that it is computed from.
-/

namespace Land.Quic

open Land.Timing
open Rank (orderStatistic)

/-- `TimingCategory`. -/
inductive TimingCategory where
  | handshake
  | zeroRtt
  | oneRtt
  deriving Repr, DecidableEq

/-- `ConnectionTimings`, the histograms. -/
structure ConnectionTimings where
  handshakeHistogram : Histogram
  zeroRttHistogram : Histogram
  oneRttHistogram : Histogram

namespace ConnectionTimings

/-- `ConnectionTimings::new`. -/
def new : ConnectionTimings := ⟨.new, .new, .new⟩

/-- `ConnectionTimings::record`. -/
def record (t : ConnectionTimings) (timeNs : U64) : TimingCategory → ConnectionTimings
  | .handshake => { t with handshakeHistogram := t.handshakeHistogram.record timeNs }
  | .zeroRtt => { t with zeroRttHistogram := t.zeroRttHistogram.record timeNs }
  | .oneRtt => { t with oneRttHistogram := t.oneRttHistogram.record timeNs }

end ConnectionTimings

/-- `TimingRegistry`, with each map as the list of its entries. -/
structure TimingRegistry where
  shards : Fin 16 → List (SocketAddr × ConnectionTimings)

/-- `get_or_create`, followed by a change of the entry. -/
def modifyEntry (addr : SocketAddr) (f : ConnectionTimings → ConnectionTimings) :
    List (SocketAddr × ConnectionTimings) → List (SocketAddr × ConnectionTimings)
  | [] => [(addr, f .new)]
  | (a, t) :: rest => if a = addr then (a, f t) :: rest else (a, t) :: modifyEntry addr f rest

/-- A handshake that was measured. -/
structure Measurement where
  addr : SocketAddr
  timeNs : U64
  category : TimingCategory

namespace TimingRegistry

/-- `TimingRegistry::new`. -/
def new : TimingRegistry := ⟨fun _ => []⟩

/-- `shard_index`. -/
def shardIndex (addr : SocketAddr) : Fin 16 :=
  let round (hash x : BitVec 64) : BitVec 64 := (hash ^^^ x) * 1099511628211
  let hash : BitVec 64 :=
    match addr with
    | .v4 ip port => round (round 2166136261 (ip.setWidth 64)) (port.setWidth 64)
    | .v6 ip port _ _ =>
        round ((SocketAddr.segments ip).foldl (fun hash seg => round hash (seg.setWidth 64)) 2166136261)
          (port.setWidth 64)
  Fin.ofNat 16 hash.toNat

/-- `get`. -/
def get (r : TimingRegistry) (addr : SocketAddr) : Option ConnectionTimings :=
  (r.shards (shardIndex addr)).lookup addr

/-- `get_or_create(addr).record(time_ns, category)`. -/
def record (r : TimingRegistry) (m : Measurement) : TimingRegistry :=
  ⟨Function.update r.shards (shardIndex m.addr)
    (modifyEntry m.addr (fun t => t.record m.timeNs m.category) (r.shards (shardIndex m.addr)))⟩

/-- `global_median_handshake_ms`, with the rank that `50.0` selects. -/
def globalMedianHandshakeMs (r : TimingRegistry) (p50 : Percentile) : Option U64 :=
  let allP50s := (List.finRange 16).flatMap fun i => (r.shards i).filterMap fun e =>
    let p := (e.2.handshakeHistogram.percentiles [p50]).headD 0
    if 0 < p then some p else none
  (allP50s.mergeSort (· ≤ ·))[allP50s.length / 2]?.map (· / 1000000)

end TimingRegistry

/-- `AdaptivePrewarmConfig`. -/
structure AdaptivePrewarmConfig where
  minSolanaSlots : U64
  maxSolanaSlots : U64
  solanaSlotDurationMs : U64
  defaultHandshakeMs : U64
  bootstrapFromMedian : Bool
  timingPercentile : Percentile

/-- A configuration whose slots have a length and whose bounds are in order. -/
structure AdaptivePrewarmConfig.Valid (config : AdaptivePrewarmConfig) : Prop where
  duration_pos : 0 < config.solanaSlotDurationMs
  min_le_max : config.minSolanaSlots ≤ config.maxSolanaSlots

/-- `get_bootstrap_timing_ms`. -/
def getBootstrapTimingMs (adaptiveConfig : Option AdaptivePrewarmConfig) (r : TimingRegistry)
    (p50 : Percentile) : U64 :=
  match adaptiveConfig with
  | none => 2000
  | some config =>
      if config.bootstrapFromMedian then (r.globalMedianHandshakeMs p50).getD config.defaultHandshakeMs
      else config.defaultHandshakeMs

/-- The handshake time in milliseconds for an address that has no handshake time. -/
def fallbackMs (config : AdaptivePrewarmConfig) (r : TimingRegistry) (p50 : Percentile)
    (timing : ConnectionTimings) : U64 :=
  let zeroRttNs := (timing.zeroRttHistogram.percentiles [config.timingPercentile]).headD 0
  if 0 < zeroRttNs then zeroRttNs / 1000000 else getBootstrapTimingMs (some config) r p50

/-- The expected handshake time in milliseconds. -/
def handshakeMs (config : AdaptivePrewarmConfig) (r : TimingRegistry) (p50 : Percentile)
    (addr : SocketAddr) : U64 :=
  match r.get addr with
  | none => getBootstrapTimingMs (some config) r p50
  | some timing =>
      let handshakeNs := (timing.handshakeHistogram.percentiles [config.timingPercentile]).headD 0
      if handshakeNs = 0 then fallbackMs config r p50 timing else handshakeNs / 1000000

/-- `ceil(handshake_ms / solana_slot_duration_ms)`, with the sum of a `u64`. -/
def AdaptivePrewarmConfig.solanaSlotsNeeded (config : AdaptivePrewarmConfig) (handshakeMs : U64) : U64 :=
  (handshakeMs + config.solanaSlotDurationMs - 1) / config.solanaSlotDurationMs

/-- `Ord::clamp`. -/
def clamp (x lo hi : U64) : U64 := if x < lo then lo else if hi < x then hi else x

/-- `calculate_lookahead_solana_slots`. -/
def calculateLookaheadSolanaSlots (adaptiveConfig : Option AdaptivePrewarmConfig) (r : TimingRegistry)
    (p50 : Percentile) (addr : SocketAddr) : U64 :=
  match adaptiveConfig with
  | none => 4
  | some config =>
      clamp (config.solanaSlotsNeeded (handshakeMs config r p50 addr)) config.minSolanaSlots
        config.maxSolanaSlots

/-! ### The registry after some measurements -/

theorem lookup_modifyEntry (addr a : SocketAddr) (f : ConnectionTimings → ConnectionTimings)
    (entries : List (SocketAddr × ConnectionTimings)) : (modifyEntry addr f entries).lookup a =
      if a = addr then some (f ((entries.lookup addr).getD .new)) else entries.lookup a := by
  induction entries with
  | nil =>
    rcases eq_or_ne a addr with rfl | hne
    · simp [modifyEntry]
    · simp [modifyEntry, List.lookup_cons, beq_false_of_ne hne, hne]
  | cons e rest ih =>
    obtain ⟨b, t⟩ := e
    rw [modifyEntry]
    rcases eq_or_ne b addr with rfl | hb
    · rw [if_pos rfl]
      rcases eq_or_ne a b with rfl | hne
      · simp
      · simp [List.lookup_cons, beq_false_of_ne hne, hne]
    · rw [if_neg hb]
      rcases eq_or_ne a b with rfl | hne
      · simp [hb]
      · rw [List.lookup_cons, beq_false_of_ne hne]
        simp only [ih]
        rw [List.lookup_cons, List.lookup_cons, beq_false_of_ne hne, beq_false_of_ne hb.symm]

namespace TimingRegistry

/-- A measurement changes the entry of its own address. -/
theorem get_record (r : TimingRegistry) (m : Measurement) (a : SocketAddr) : (r.record m).get a =
    if a = m.addr then some (((r.get m.addr).getD .new).record m.timeNs m.category) else r.get a := by
  simp only [get, record]
  rcases eq_or_ne (shardIndex a) (shardIndex m.addr) with hshard | hshard
  · rw [hshard, Function.update_self, lookup_modifyEntry]
  · have hne : a ≠ m.addr := fun h => hshard (congrArg shardIndex h)
    rw [Function.update_of_ne hshard, if_neg hne]

/-- The registry after some measurements. -/
def recordAll (r : TimingRegistry) (measurements : List Measurement) : TimingRegistry :=
  measurements.foldl record r

/-- The handshake histogram of an address. -/
def handshakeHistogram (r : TimingRegistry) (addr : SocketAddr) : Histogram :=
  ((r.get addr).getD .new).handshakeHistogram

end TimingRegistry

/-- The full handshake times measured for an address. -/
def handshakeTimes (measurements : List Measurement) (addr : SocketAddr) : List U64 :=
  (measurements.filter fun m => m.addr = addr ∧ m.category = .handshake).map Measurement.timeNs

theorem handshakeHistogram_recordAll (r : TimingRegistry) (measurements : List Measurement)
    (addr : SocketAddr) : (r.recordAll measurements).handshakeHistogram addr =
      (r.handshakeHistogram addr).recordAll (handshakeTimes measurements addr) := by
  unfold TimingRegistry.recordAll TimingRegistry.handshakeHistogram
  induction measurements generalizing r with
  | nil => rfl
  | cons m measurements ih =>
    rw [List.foldl_cons, ih, TimingRegistry.get_record]
    by_cases haddr : m.addr = addr
    · subst haddr
      rw [if_pos rfl, Option.getD_some]
      cases hc : m.category with
      | handshake => simp [handshakeTimes, hc, ConnectionTimings.record, Histogram.recordAll]
      | zeroRtt => simp [handshakeTimes, hc, ConnectionTimings.record]
      | oneRtt => simp [handshakeTimes, hc, ConnectionTimings.record]
    · rw [if_neg (Ne.symm haddr)]
      simp [handshakeTimes, haddr]

/-! ### What the lookahead covers -/

/-- The lookahead is in its bounds, and is the largest or covers a handshake time. -/
def Covers (config : AdaptivePrewarmConfig) (slots timeNs : U64) : Prop :=
  config.minSolanaSlots ≤ slots ∧ slots ≤ config.maxSolanaSlots ∧
    (slots = config.maxSolanaSlots ∨
      timeNs.val ≤ slots.val * config.solanaSlotDurationMs.val * 1000000)

section Rank

variable {config : AdaptivePrewarmConfig} {measurements : List Measurement} {addr : SocketAddr}
  {r : TimingRegistry} (hr : r = TimingRegistry.new.recordAll measurements) {t x : U64}
  (ht : t = config.timingPercentile.target (r.handshakeHistogram addr).count)
  (hx : orderStatistic ((handshakeTimes measurements addr).filter (· ≠ 0)) t = some x)

include hr ht hx

end Rank

/-- One handshake with the peer `10.0.0.1:8009`. -/
def oneHandshake (timeNs : U64) : List Measurement := [⟨.v4 0x0A000001 8009, timeNs, .handshake⟩]

end Land.Quic
