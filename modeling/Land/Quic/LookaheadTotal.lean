import Land.Lib.Checked
import Land.Quic.Lookahead

/-!
# The lookahead for any registry

`calculate_lookahead_solana_slots` with its sums and indices checked, and with the two other ways in which it can
stop: a division by zero, and the assertion of `clamp` that its bounds are in order.  The builders of
`AdaptivePrewarmConfig` change the least number of slots without looking at the largest, so that the assertion
fails from `with_min_slots(21)` on.  Besides that, only the cumulative count of a histogram can overflow, after
`2 ^ 64` measurements.
-/

namespace Land.Quic.Total

open Land.Timing
open Checked

/-! ### The configurations -/

/-- `AdaptivePrewarmConfig::default`; `p90` is the rank that `90.0` selects. -/
def default (p90 : Percentile) : AdaptivePrewarmConfig where
  minSolanaSlots := 4
  maxSolanaSlots := 20
  solanaSlotDurationMs := 400
  defaultHandshakeMs := 2000
  bootstrapFromMedian := true
  timingPercentile := p90

/-- `with_min_slots`. -/
def withMinSlots (p90 : Percentile) (minSlots : U64) : AdaptivePrewarmConfig :=
  { default p90 with minSolanaSlots := minSlots }

/-- `with_percentile`. -/
def withPercentile (p90 percentile : Percentile) : AdaptivePrewarmConfig :=
  { default p90 with timingPercentile := percentile }

/-- The ways to make a configuration. -/
inductive Builder where
  | default
  | withMinSlots (minSlots : U64)
  | withPercentile (percentile : Percentile)

def Builder.config (p90 : Percentile) : Builder → AdaptivePrewarmConfig
  | .default => Total.default p90
  | .withMinSlots minSlots => Total.withMinSlots p90 minSlots
  | .withPercentile percentile => Total.withPercentile p90 percentile

/-- The least number of slots that was asked for is not above the largest. -/
def Builder.InOrder : Builder → Prop
  | .withMinSlots minSlots => minSlots ≤ 20
  | _ => True

/-! ### The computation -/

/-- What stops the computation besides its indices and sums. -/
inductive Abort where
  | divisionByZero
  /-- `assert!(min <= max)` of `Ord::clamp` -/
  | clampBounds

def addU64 (a b : U64) : Run U64 := do
  let _ ← add (2 ^ 64) a.val b.val
  .ok (a + b)

def subU64 (a b : U64) : Run U64 := do
  let _ ← sub a.val b.val
  .ok (a - b)

/-- The loop of `percentiles` that collects the bucket counts. -/
def cumulateLoop (i : ℕ) (cumulative : U64) : List U64 → Run (List (U64 × U64))
  | [] => .ok []
  | bucketCount :: rest => do
      let cumulative ← addU64 cumulative bucketCount
      let buckets ← cumulateLoop (i + 1) cumulative rest
      .ok ((bucketToValue i, cumulative) :: buckets)

/-- `Histogram::percentiles`. -/
def percentiles (h : Histogram) (percentiles : List Percentile) : Run (List U64) :=
  if h.count = 0 then .ok (List.replicate percentiles.length 0)
  else do
    let buckets ← cumulateLoop 0 0 (List.ofFn h.buckets)
    .ok (percentiles.map fun p => (findBucket buckets (p.target h.count)).getD 0)

/-- `percentiles(&[p])[0]`. -/
def percentile (h : Histogram) (p : Percentile) : Run U64 := do
  let values ← percentiles h [p]
  index values 0

/-- The timings of all shards. -/
def timings (r : TimingRegistry) : List ConnectionTimings :=
  (List.finRange 16).flatMap fun i => (r.shards i).map Prod.snd

/-- The body of the loop over all timings. -/
def collectP50 (p50 : Percentile) (allP50s : List U64) (timing : ConnectionTimings) : Run (List U64) := do
  let p ← percentile timing.handshakeHistogram p50
  .ok (if 0 < p then allP50s ++ [p] else allP50s)

/-- `global_median_handshake_ms`. -/
def globalMedianHandshakeMs (r : TimingRegistry) (p50 : Percentile) : Run (Option U64) := do
  let allP50s ← (timings r).foldlM (collectP50 p50) []
  if allP50s.isEmpty then .ok none
  else do
    let medianNs ← index (allP50s.mergeSort (· ≤ ·)) (allP50s.length / 2)
    .ok (some (medianNs / 1000000))

/-- `get_bootstrap_timing_ms`. -/
def getBootstrapTimingMs (adaptiveConfig : Option AdaptivePrewarmConfig) (r : TimingRegistry)
    (p50 : Percentile) : Run U64 :=
  match adaptiveConfig with
  | none => .ok 2000
  | some config =>
      if config.bootstrapFromMedian then do
        let median ← globalMedianHandshakeMs r p50
        .ok (median.getD config.defaultHandshakeMs)
      else .ok config.defaultHandshakeMs

/-- The handshake time in milliseconds for an address that has no handshake time. -/
def fallbackMs (config : AdaptivePrewarmConfig) (r : TimingRegistry) (p50 : Percentile)
    (timing : ConnectionTimings) : Run U64 := do
  let zeroRttNs ← percentile timing.zeroRttHistogram config.timingPercentile
  if 0 < zeroRttNs then .ok (zeroRttNs / 1000000) else getBootstrapTimingMs (some config) r p50

/-- The expected handshake time in milliseconds. -/
def handshakeMs (config : AdaptivePrewarmConfig) (r : TimingRegistry) (p50 : Percentile)
    (addr : SocketAddr) : Run U64 :=
  match r.get addr with
  | none => getBootstrapTimingMs (some config) r p50
  | some timing => do
      let handshakeNs ← percentile timing.handshakeHistogram config.timingPercentile
      if handshakeNs = 0 then fallbackMs config r p50 timing else .ok (handshakeNs / 1000000)

/-- `ceil(handshake_ms / solana_slot_duration_ms)`. -/
def solanaSlotsNeeded (config : AdaptivePrewarmConfig) (handshakeMs : U64) : ExceptT Abort Run U64 := do
  let sum ← check (addU64 handshakeMs config.solanaSlotDurationMs)
  let sum ← check (subU64 sum 1)
  if config.solanaSlotDurationMs = 0 then throw .divisionByZero
  else pure (sum / config.solanaSlotDurationMs)

/-- `Ord::clamp`. -/
def clamp (x lo hi : U64) : ExceptT Abort Run U64 :=
  if lo ≤ hi then pure (Quic.clamp x lo hi) else throw .clampBounds

/-- `calculate_lookahead_solana_slots`. -/
def calculateLookaheadSolanaSlots (adaptiveConfig : Option AdaptivePrewarmConfig) (r : TimingRegistry)
    (p50 : Percentile) (addr : SocketAddr) : ExceptT Abort Run U64 :=
  match adaptiveConfig with
  | none => pure 4
  | some config => do
      let ms ← check (handshakeMs config r p50 addr)
      let needed ← solanaSlotsNeeded config ms
      clamp needed config.minSolanaSlots config.maxSolanaSlots

/-- The lookahead is computed without stopping, and is at least the least number of slots. -/
def LookaheadTotal (config : AdaptivePrewarmConfig) (r : TimingRegistry) (p50 : Percentile)
    (addr : SocketAddr) : Prop :=
  ∃ slots, Safe (calculateLookaheadSolanaSlots (some config) r p50 addr) (.ok slots) ∧
    config.minSolanaSlots ≤ slots

/-! ### The histograms that are read -/

/-- The bucket counts add up in a `u64`, or are not added up. -/
def Readable (h : Histogram) : Prop := h.count = 0 ∨ total (List.ofFn h.buckets) < 2 ^ 64

/-- The histograms that `get_bootstrap_timing_ms` reads. -/
def bootstrapHistograms (config : AdaptivePrewarmConfig) (r : TimingRegistry) : List Histogram :=
  if config.bootstrapFromMedian then (timings r).map ConnectionTimings.handshakeHistogram else []

/-- Those that are read for an address that has no handshake time. -/
def fallbackHistograms (config : AdaptivePrewarmConfig) (r : TimingRegistry) (timing : ConnectionTimings) :
    List Histogram :=
  timing.zeroRttHistogram ::
    if 0 < (timing.zeroRttHistogram.percentiles [config.timingPercentile]).headD 0 then []
    else bootstrapHistograms config r

/-- Those that are read for an address. -/
def consulted (config : AdaptivePrewarmConfig) (r : TimingRegistry) (addr : SocketAddr) : List Histogram :=
  match r.get addr with
  | none => bootstrapHistograms config r
  | some timing =>
      timing.handshakeHistogram ::
        if (timing.handshakeHistogram.percentiles [config.timingPercentile]).headD 0 = 0 then
          fallbackHistograms config r timing
        else []

theorem fitsIff_addU64 (a b : U64) : FitsIff (a.val + b.val < 2 ^ 64) (addU64 a b) (a + b) :=
  (fitsIff_add (2 ^ 64) a.val b.val).bind_ok rfl

/-- To check each of the cumulative counts is to check the last. -/
theorem cumulateLoop_fits (i : ℕ) (cumulative : U64) (loaded : List U64) :
    FitsIff (cumulative.val + total loaded < 2 ^ 64) (cumulateLoop i cumulative loaded)
      (cumulate i cumulative loaded) := by
  induction loaded generalizing i cumulative with
  | nil => exact (fitsIff_ok []).congr (iff_of_true trivial cumulative.isLt)
  | cons bucketCount rest ih =>
    have hrest := (ih (i + 1) (cumulative + bucketCount)).bind_ok
      (f := fun buckets => .ok ((bucketToValue i, cumulative + bucketCount) :: buckets)) rfl
    refine ((fitsIff_addU64 cumulative bucketCount).bind hrest).congr ?_
    rw [total_cons]
    constructor
    · rintro ⟨hadd, hall⟩
      rw [Fin.val_add_eq_of_add_lt hadd] at hall
      omega
    · intro hall
      have hadd : cumulative.val + bucketCount.val < 2 ^ 64 := by omega
      rw [Fin.val_add_eq_of_add_lt hadd]
      omega

theorem percentiles_fits (h : Histogram) (ps : List Percentile) :
    FitsIff (Readable h) (percentiles h ps) (h.percentiles ps) := by
  unfold percentiles Histogram.percentiles percentilesOf
  split_ifs with hcount
  · exact (fitsIff_ok _).congr (iff_of_true trivial (.inl hcount))
  · refine ((cumulateLoop_fits 0 0 (List.ofFn h.buckets)).bind_ok ?_).congr ?_
    · rfl
    · have hzero : ((0 : U64) : ℕ) = 0 := rfl
      rw [hzero, Nat.zero_add, Readable, or_iff_right hcount]

theorem percentile_fits (h : Histogram) (p : Percentile) :
    FitsIff (Readable h) (percentile h p) ((h.percentiles [p]).headD 0) := by
  refine (percentiles_fits h [p]).bind_ok ?_
  rw [Histogram.percentiles, percentilesOf]
  split_ifs <;> rfl

/-- A loop that collects values. -/
theorem foldl_collect {α : Type} (value : α → U64) (l : List α) (acc : List U64) :
    l.foldl (fun acc a => if 0 < value a then acc ++ [value a] else acc) acc =
      acc ++ l.filterMap fun a => if 0 < value a then some (value a) else none := by
  induction l generalizing acc with
  | nil => rw [List.foldl_nil, List.filterMap_nil, List.append_nil]
  | cons a l ih =>
    rw [List.foldl_cons, ih, List.filterMap_cons]
    split_ifs
    · rw [List.append_assoc, List.singleton_append]
    · rfl

/-- The middle of a sorted list is there if the list is not empty. -/
theorem median_eq (allP50s : List U64) :
    (if allP50s.isEmpty then .ok none
      else do
        let medianNs ← index (allP50s.mergeSort (· ≤ ·)) (allP50s.length / 2)
        .ok (some (medianNs / 1000000)) : Run (Option U64)) =
      .ok ((allP50s.mergeSort (· ≤ ·))[allP50s.length / 2]?.map (· / 1000000)) := by
  cases allP50s with
  | nil =>
    rw [List.mergeSort_nil]
    rfl
  | cons a rest =>
    have hlt : (a :: rest).length / 2 < ((a :: rest).mergeSort (· ≤ ·)).length := by
      rw [List.length_mergeSort, List.length_cons]
      omega
    rw [List.isEmpty_cons, if_neg Bool.false_ne_true, index_of_lt hlt, List.getElem?_eq_getElem hlt]
    rfl

theorem globalMedianHandshakeMs_fits (r : TimingRegistry) (p50 : Percentile) :
    FitsIff (∀ h ∈ (timings r).map ConnectionTimings.handshakeHistogram, Readable h)
      (globalMedianHandshakeMs r p50) (r.globalMedianHandshakeMs p50) := by
  have hcollect (allP50s : List U64) (timing : ConnectionTimings) :=
    (percentile_fits timing.handshakeHistogram p50).bind_ok
      (f := fun p => .ok (if 0 < p then allP50s ++ [p] else allP50s)) rfl
  refine ((fitsIff_foldlM hcollect []).bind_ok ?_).congr ?_
  · rw [median_eq, foldl_collect, List.nil_append, timings, List.filterMap_flatMap]
    simp only [List.filterMap_map]
    rfl
  · rw [List.forall_mem_map]

theorem getBootstrapTimingMs_fits (config : AdaptivePrewarmConfig) (r : TimingRegistry) (p50 : Percentile) :
    FitsIff (∀ h ∈ bootstrapHistograms config r, Readable h) (getBootstrapTimingMs (some config) r p50)
      (Quic.getBootstrapTimingMs (some config) r p50) := by
  unfold bootstrapHistograms getBootstrapTimingMs Quic.getBootstrapTimingMs
  dsimp only
  split_ifs
  · exact (globalMedianHandshakeMs_fits r p50).bind_ok rfl
  · exact fitsIff_ok_nil _

theorem fallbackMs_fits (config : AdaptivePrewarmConfig) (r : TimingRegistry) (p50 : Percentile)
    (timing : ConnectionTimings) :
    FitsIff (∀ h ∈ fallbackHistograms config r timing, Readable h) (fallbackMs config r p50 timing)
      (Quic.fallbackMs config r p50 timing) := by
  unfold fallbackHistograms fallbackMs Quic.fallbackMs
  refine FitsIff.congr ((percentile_fits _ _).bind ?_) List.forall_mem_cons.symm
  dsimp only
  split_ifs
  · exact fitsIff_ok_nil _
  · exact getBootstrapTimingMs_fits config r p50

/-- The handshake time is that without checks, unless one of the histograms read for it is not readable. -/
theorem handshakeMs_fits (config : AdaptivePrewarmConfig) (r : TimingRegistry) (p50 : Percentile)
    (addr : SocketAddr) :
    FitsIff (∀ h ∈ consulted config r addr, Readable h) (handshakeMs config r p50 addr)
      (Quic.handshakeMs config r p50 addr) := by
  unfold consulted handshakeMs Quic.handshakeMs
  cases r.get addr with
  | none => exact getBootstrapTimingMs_fits config r p50
  | some timing =>
    refine FitsIff.congr ((percentile_fits _ _).bind ?_) List.forall_mem_cons.symm
    dsimp only
    split_ifs
    · exact fallbackMs_fits config r p50 timing
    · exact fitsIff_ok_nil _

/-! ### The slots -/

/-- What every builder leaves as it is. -/
structure Standard (config : AdaptivePrewarmConfig) : Prop where
  duration : config.solanaSlotDurationMs = 400
  handshake : config.defaultHandshakeMs = 2000

theorem Builder.standard (p90 : Percentile) (b : Builder) : Standard (b.config p90) := by
  cases b <;> exact ⟨rfl, rfl⟩

theorem Builder.inOrder_iff (p90 : Percentile) (b : Builder) :
    b.InOrder ↔ (b.config p90).minSolanaSlots ≤ (b.config p90).maxSolanaSlots := by
  cases b with
  | default => exact iff_of_true trivial (by decide : (4 : U64) ≤ 20)
  | withMinSlots minSlots => exact Iff.rfl
  | withPercentile percentile => exact iff_of_true trivial (by decide : (4 : U64) ≤ 20)

theorem val_div_million_le (x : U64) : (x / 1000000).val ≤ 18446744073709 := by
  have hval : (x / 1000000).val = x.val / 1000000 := rfl
  omega

section Slots

variable {config : AdaptivePrewarmConfig} (hconfig : Standard config) {r : TimingRegistry} {p50 : Percentile}
  {addr : SocketAddr}

include hconfig

theorem val_getBootstrapTimingMs_le (r : TimingRegistry) (p50 : Percentile) :
    (Quic.getBootstrapTimingMs (some config) r p50).val ≤ 18446744073709 := by
  have hdefault : config.defaultHandshakeMs.val ≤ 18446744073709 := by
    rw [hconfig.handshake]
    decide
  unfold Quic.getBootstrapTimingMs
  dsimp only
  split_ifs
  · cases hmedian : r.globalMedianHandshakeMs p50 with
    | none => exact hdefault
    | some ms =>
      obtain ⟨x, -, rfl⟩ := Option.map_eq_some_iff.1 hmedian
      exact val_div_million_le x
  · exact hdefault

/-- A handshake time in milliseconds is far from the end of a `u64`. -/
theorem val_handshakeMs_le (r : TimingRegistry) (p50 : Percentile) (addr : SocketAddr) :
    (Quic.handshakeMs config r p50 addr).val ≤ 18446744073709 := by
  have hbootstrap := val_getBootstrapTimingMs_le hconfig r p50
  unfold Quic.handshakeMs
  cases r.get addr with
  | none => exact hbootstrap
  | some timing =>
    dsimp only
    split_ifs
    · unfold Quic.fallbackMs
      dsimp only
      split_ifs
      · exact val_div_million_le _
      · exact hbootstrap
    · exact val_div_million_le _

theorem safe_solanaSlotsNeeded {ms : U64} (hms : ms.val ≤ 18446744073709) :
    Safe (solanaSlotsNeeded config ms) (.ok (config.solanaSlotsNeeded ms)) := by
  have hduration : config.solanaSlotDurationMs.val = 400 := by
    rw [hconfig.duration]
    rfl
  have hfits : ms.val + config.solanaSlotDurationMs.val < 2 ^ 64 := by omega
  have hsub : subU64 (ms + config.solanaSlotDurationMs) 1 = .ok (ms + config.solanaSlotDurationMs - 1) := by
    have hone : ((1 : U64) : ℕ) = 1 := rfl
    rw [subU64, sub_of_le, ok_bind]
    rw [hone, Fin.val_add_eq_of_add_lt hfits]
    omega
  have hne : config.solanaSlotDurationMs ≠ 0 := by
    rw [hconfig.duration]
    decide
  refine safe_check ((fitsIff_addU64 ms _).ok hfits) (safe_check hsub ?_)
  rw [if_neg hne]
  exact safe_pure _

omit hconfig in
theorem safe_clamp_iff {x lo hi slots : U64} :
    Safe (clamp x lo hi) (.ok slots) ↔ lo ≤ hi ∧ Quic.clamp x lo hi = slots := by
  unfold clamp
  split_ifs with hle
  · rw [and_iff_right hle]
    constructor
    · rintro ⟨⟩
      rfl
    · rintro rfl
      rfl
  · refine iff_of_false ?_ fun h => hle h.1
    rintro ⟨⟩

omit hconfig in
theorem le_clamp {x lo hi : U64} (h : lo ≤ hi) : lo ≤ Quic.clamp x lo hi := by
  unfold Quic.clamp
  split_ifs with hlo hhi
  · exact le_rfl
  · exact h
  · exact not_lt.1 hlo

/-- When the histograms are readable, only the bounds can stop the computation, and the result is that without
checks. -/
theorem safe_calculateLookahead_iff (hread : ∀ h ∈ consulted config r addr, Readable h) {slots : U64} :
    Safe (calculateLookaheadSolanaSlots (some config) r p50 addr) (.ok slots) ↔
      config.minSolanaSlots ≤ config.maxSolanaSlots ∧
        Quic.calculateLookaheadSolanaSlots (some config) r p50 addr = slots := by
  have hms : Safe (check (handshakeMs config r p50 addr) : ExceptT Abort Run U64)
      (.ok (Quic.handshakeMs config r p50 addr)) :=
    congrArg (fun x : Run U64 => (check x : ExceptT Abort Run U64).run)
      ((handshakeMs_fits config r p50 addr).ok hread)
  have hneeded := safe_solanaSlotsNeeded hconfig (val_handshakeMs_le hconfig r p50 addr)
  exact hms.bind_iff.trans (hneeded.bind_iff.trans safe_clamp_iff)

theorem lookaheadTotal_iff_of_standard :
    LookaheadTotal config r p50 addr ↔
      config.minSolanaSlots ≤ config.maxSolanaSlots ∧ ∀ h ∈ consulted config r addr, Readable h := by
  by_cases hread : ∀ h ∈ consulted config r addr, Readable h
  · rw [and_iff_left hread]
    constructor
    · rintro ⟨slots, hsafe, -⟩
      exact ((safe_calculateLookahead_iff hconfig hread).1 hsafe).1
    · intro hle
      exact ⟨_, (safe_calculateLookahead_iff hconfig hread).2 ⟨hle, rfl⟩, le_clamp hle⟩
  · refine iff_of_false ?_ fun h => hread h.2
    rintro ⟨slots, hsafe, -⟩
    exact not_safe_check ((handshakeMs_fits config r p50 addr).overflow hread) hsafe

end Slots

/-! ### Measured registries -/

/-- At most `n` samples were recorded. -/
def Few (n : ℕ) (h : Histogram) : Prop := ∃ samples, h = Histogram.new.recordAll samples ∧ samples.length ≤ n

theorem few_new (n : ℕ) : Few n .new := ⟨[], rfl, Nat.zero_le n⟩

theorem Few.mono {m n : ℕ} {h : Histogram} (hfew : Few m h) (hmn : m ≤ n) : Few n h := by
  obtain ⟨samples, rfl, hlen⟩ := hfew
  exact ⟨samples, rfl, hlen.trans hmn⟩

theorem Few.record {n : ℕ} {h : Histogram} (hfew : Few n h) (value : U64) : Few (n + 1) (h.record value) := by
  obtain ⟨samples, rfl, hlen⟩ := hfew
  refine ⟨samples ++ [value], ?_, ?_⟩
  · rw [Histogram.recordAll, Histogram.recordAll, List.foldl_append]
    rfl
  · rw [List.length_append]
    exact Nat.add_le_add_right hlen 1

/-- Fewer than `2 ^ 64` samples add up. -/
theorem Few.readable {n : ℕ} {h : Histogram} (hfew : Few n h) (hn : n < 2 ^ 64) : Readable h := by
  obtain ⟨samples, rfl, hlen⟩ := hfew
  have hlt : (samples.filter (· ≠ 0)).length < 2 ^ 64 :=
    (List.length_filter_le _ _).trans_lt (hlen.trans_lt hn)
  have hpos : ∀ x ∈ samples.filter (· ≠ 0), x ≠ 0 := fun x hx => of_decide_eq_true (List.mem_filter.1 hx).2
  right
  rw [← Histogram.recordAll_filter, total_ofFn (Histogram.val_buckets_of_pos hpos hlt)]
  exact hlt

/-- The histograms that the lookahead reads have at most `n` samples. -/
structure Measured (n : ℕ) (t : ConnectionTimings) : Prop where
  handshake : Few n t.handshakeHistogram
  zeroRtt : Few n t.zeroRttHistogram

theorem Measured.succ {n : ℕ} {t : ConnectionTimings} (h : Measured n t) : Measured (n + 1) t :=
  ⟨h.handshake.mono (Nat.le_succ n), h.zeroRtt.mono (Nat.le_succ n)⟩

theorem Measured.record {n : ℕ} {t : ConnectionTimings} (h : Measured n t) (timeNs : U64)
    (category : TimingCategory) : Measured (n + 1) (t.record timeNs category) := by
  cases category with
  | handshake => exact ⟨h.handshake.record timeNs, h.succ.zeroRtt⟩
  | zeroRtt => exact ⟨h.succ.handshake, h.zeroRtt.record timeNs⟩
  | oneRtt => exact ⟨h.succ.handshake, h.succ.zeroRtt⟩

theorem measured_modifyEntry {n : ℕ} {entries : List (SocketAddr × ConnectionTimings)}
    (h : ∀ e ∈ entries, Measured n e.2) (m : Measurement) :
    ∀ e ∈ modifyEntry m.addr (fun t => t.record m.timeNs m.category) entries, Measured (n + 1) e.2 := by
  induction entries with
  | nil =>
    intro e he
    rw [List.mem_singleton.1 he]
    exact Measured.record ⟨few_new n, few_new n⟩ m.timeNs m.category
  | cons head rest ih =>
    obtain ⟨a, t⟩ := head
    obtain ⟨ht, hrest⟩ := List.forall_mem_cons.1 h
    rw [modifyEntry]
    split_ifs
    · exact List.forall_mem_cons.2 ⟨ht.record m.timeNs m.category, fun e he => (hrest e he).succ⟩
    · exact List.forall_mem_cons.2 ⟨ht.succ, ih hrest⟩

/-- Each entry of a registry has at most as many samples as there were measurements. -/
theorem measured_recordAll {n : ℕ} {r : TimingRegistry} (h : ∀ i, ∀ e ∈ r.shards i, Measured n e.2)
    (measurements : List Measurement) (i : Fin 16) :
    ∀ e ∈ (r.recordAll measurements).shards i, Measured (n + measurements.length) e.2 := by
  induction measurements generalizing n r with
  | nil => exact h i
  | cons m measurements ih =>
    have hrecord : ∀ j, ∀ e ∈ (r.record m).shards j, Measured (n + 1) e.2 := by
      intro j
      rw [TimingRegistry.record]
      dsimp only
      rcases eq_or_ne j (TimingRegistry.shardIndex m.addr) with rfl | hne
      · rw [Function.update_self]
        exact measured_modifyEntry (h _) m
      · rw [Function.update_of_ne hne]
        exact fun e he => (h j e he).succ
    have hall := ih hrecord
    rw [Nat.add_assoc, Nat.add_comm 1] at hall
    exact hall

/-- What is read for an address belongs to some entry. -/
theorem exists_entry_of_consulted {config : AdaptivePrewarmConfig} {r : TimingRegistry} {addr : SocketAddr}
    {h : Histogram} (hh : h ∈ consulted config r addr) :
    ∃ i, ∃ e ∈ r.shards i, h = e.2.handshakeHistogram ∨ h = e.2.zeroRttHistogram := by
  have hbootstrap (hh : h ∈ bootstrapHistograms config r) :
      ∃ i, ∃ e ∈ r.shards i, h = e.2.handshakeHistogram ∨ h = e.2.zeroRttHistogram := by
    unfold bootstrapHistograms timings at hh
    split_ifs at hh
    · obtain ⟨t, ht, rfl⟩ := List.mem_map.1 hh
      obtain ⟨i, -, ht⟩ := List.mem_flatMap.1 ht
      obtain ⟨e, he, rfl⟩ := List.mem_map.1 ht
      exact ⟨i, e, he, .inl rfl⟩
    · cases hh
  unfold consulted at hh
  cases hget : r.get addr with
  | none =>
    rw [hget] at hh
    exact hbootstrap hh
  | some timing =>
    rw [hget] at hh
    obtain ⟨before, behind, hentries, -⟩ := List.lookup_eq_some_iff.1 hget
    have hentry : (addr, timing) ∈ r.shards (TimingRegistry.shardIndex addr) := by
      rw [hentries]
      exact List.mem_append_right _ List.mem_cons_self
    rcases List.mem_cons.1 hh with rfl | hh
    · exact ⟨_, _, hentry, .inl rfl⟩
    · split_ifs at hh
      · unfold fallbackHistograms at hh
        rcases List.mem_cons.1 hh with rfl | hh
        · exact ⟨_, _, hentry, .inr rfl⟩
        · split_ifs at hh
          · cases hh
          · exact hbootstrap hh
      · cases hh

/-- A registry of fewer than `2 ^ 64` measurements is readable. -/
theorem readable_recordAll {measurements : List Measurement} (hlen : measurements.length < 2 ^ 64)
    (config : AdaptivePrewarmConfig) (addr : SocketAddr) :
    ∀ h ∈ consulted config (TimingRegistry.new.recordAll measurements) addr, Readable h := by
  intro h hh
  obtain ⟨i, e, he, hsample⟩ := exists_entry_of_consulted hh
  have hmeasured := measured_recordAll (n := 0) (r := .new) (fun _ _ he => absurd he List.not_mem_nil)
    measurements i e he
  rw [Nat.zero_add] at hmeasured
  rcases hsample with rfl | rfl
  · exact hmeasured.handshake.readable hlen
  · exact hmeasured.zeroRtt.readable hlen

/-- For every configuration that the builders make, every registry and every address: the lookahead is computed
without stopping exactly if the least number of slots is not above the largest and the histograms read are
readable; and those of fewer than `2 ^ 64` measurements are. -/
theorem lookaheadTotal_iff (p90 p50 : Percentile) (b : Builder) (r : TimingRegistry) (addr : SocketAddr) :
    (LookaheadTotal (b.config p90) r p50 addr ↔
      b.InOrder ∧ ∀ h ∈ consulted (b.config p90) r addr, Readable h) ∧
    ∀ measurements : List Measurement, measurements.length < 2 ^ 64 →
      r = TimingRegistry.new.recordAll measurements →
      (LookaheadTotal (b.config p90) r p50 addr ↔ b.InOrder) := by
  have hiff : LookaheadTotal (b.config p90) r p50 addr ↔
      b.InOrder ∧ ∀ h ∈ consulted (b.config p90) r addr, Readable h := by
    rw [lookaheadTotal_iff_of_standard (b.standard p90), b.inOrder_iff p90]
  refine ⟨hiff, ?_⟩
  rintro measurements hlen rfl
  rw [hiff, and_iff_left (readable_recordAll hlen (b.config p90) addr)]

/-- The longest handshake there is, and the largest number of slots that can be asked for. -/
theorem lookaheadTotal_iff_longest : LookaheadTotal (withMinSlots id 20)
    (TimingRegistry.new.recordAll (oneHandshake ⊤)) id (.v4 0x0A000001 8009) := by
  have hlen : (oneHandshake ⊤).length < 2 ^ 64 := Nat.one_lt_two_pow (by decide)
  exact ((lookaheadTotal_iff id id (.withMinSlots 20) _ (.v4 0x0A000001 8009)).2 _ hlen rfl).2 le_rfl

/-- `with_min_slots(21)` fails the assertion of `clamp`, here for a new registry. -/
theorem not_lookaheadTotal_twentyOne :
    Safe (calculateLookaheadSolanaSlots (some (withMinSlots id 21)) .new id (.v4 0x0A000001 8009))
        (.error .clampBounds) ∧
      ¬ LookaheadTotal (withMinSlots id 21) .new id (.v4 0x0A000001 8009) := by
  refine ⟨rfl, fun h => ?_⟩
  have hle := ((lookaheadTotal_iff_of_standard (Builder.standard id (.withMinSlots 21))).1 h).1
  exact absurd hle (by decide : ¬ (21 : U64) ≤ 20)

end Land.Quic.Total
