import Land.Lib.GetOrCreate
import Land.Quic.Lookahead
import Land.Timing.Concurrent

/-!
# The timing registry shared by threads

`quic/src/timing_registry.rs`: any number of calls of `get_or_create(addr).record(time_ns, category)`, interleaved at
the locks of the shards and at the atomic operations of the entries.  Once all calls have returned, the registry is
that of the measurements recorded one after the other, in any order: no measurement is lost when two threads are the
first to see an address, none goes to another address, and the lookahead computed from the registry does not depend on
how the threads were interleaved.
-/

namespace Land.Quic

open Land.Timing
open Land.Timing.Histogram (single)

/-! ## The entries -/

namespace ConnectionTimings

/-- The histogram of a category. -/
def histogram (t : ConnectionTimings) : TimingCategory → Histogram
  | .handshake => t.handshakeHistogram
  | .zeroRtt => t.zeroRttHistogram
  | .oneRtt => t.oneRttHistogram

/-- Another histogram for a category. -/
def setHistogram (t : ConnectionTimings) (h : Histogram) : TimingCategory → ConnectionTimings
  | .handshake => { t with handshakeHistogram := h }
  | .zeroRtt => { t with zeroRttHistogram := h }
  | .oneRtt => { t with oneRttHistogram := h }

theorem histogram_setHistogram (t : ConnectionTimings) (h : Histogram) (category category' : TimingCategory) :
    (t.setHistogram h category).histogram category' = if category = category' then h else t.histogram category' := by
  cases category <;> cases category' <;> rfl

theorem setHistogram_self (t : ConnectionTimings) (category : TimingCategory) :
    t.setHistogram (t.histogram category) category = t := by
  cases category <;> rfl

theorem record_eq_setHistogram (t : ConnectionTimings) (timeNs : U64) (category : TimingCategory) :
    t.record timeNs category = t.setHistogram (t.histogram category + single timeNs) category := by
  cases category <;> simp only [record, setHistogram, histogram, Histogram.record_eq]

theorem ext_histogram {t t' : ConnectionTimings} (h : ∀ category, t.histogram category = t'.histogram category) :
    t = t' := by
  obtain ⟨h₁, h₂, h₃⟩ := t
  obtain ⟨h₁', h₂', h₃'⟩ := t'
  obtain rfl : h₁ = h₁' := h .handshake
  obtain rfl : h₂ = h₂' := h .zeroRtt
  obtain rfl : h₃ = h₃' := h .oneRtt
  rfl

end ConnectionTimings

namespace Registry

/-- The arguments of a call of `record`. -/
structure Sample where
  timeNs : U64
  category : TimingCategory
  deriving Repr, DecidableEq

/-- The histogram of a sample in a category. -/
def Sample.share (category : TimingCategory) (w : Sample) : Histogram :=
  if w.category = category then single w.timeNs else 0

/-- `ConnectionTimings`, with its counters. -/
structure Entry where
  timings : ConnectionTimings
  firstSeenNs : U64
  lastSuccessNs : U64
  attempts : U64

/-- `ConnectionTimings::new`. -/
def Entry.new (nowNs : U64) : Entry := ⟨.new, nowNs, nowNs, 0⟩

/-- Where a call of `ConnectionTimings::record` is: in the histogram of its category, before it reads the clock, before
it stores the time, or at its end. -/
inductive Recording where
  | histogram (c : Timing.Concurrent.Call)
  | clock
  | store (nowNs : U64)
  | returned
  deriving DecidableEq

/-- The next atomic operation, an exchange that fails for no reason, or a reading of the clock. -/
inductive Input where
  | step
  | fail
  | clock (nowNs : U64)

/-- `ConnectionTimings::record`, one atomic operation at a time. -/
def Recording.step (w : Sample) (a : Input) (e : Entry) (r : Recording) : Option (Entry × Recording) :=
  match a, r with
  | .step, .histogram c =>
      if c.pc = .finished then some ({ e with attempts := e.attempts + 1 }, .clock)
      else (c.step (e.timings.histogram w.category)).map fun p =>
        ({ e with timings := e.timings.setHistogram p.1 w.category }, .histogram p.2)
  | .fail, .histogram c => (c.fail (e.timings.histogram w.category)).map fun c' => (e, .histogram c')
  | .clock nowNs, .clock => some (e, .store nowNs)
  | .step, .store nowNs => some ({ e with lastSuccessNs := nowNs }, .returned)
  | _, _ => none

/-- `record` on an entry; the entry is made with the time of its clock. -/
def program : Program Entry Recording Sample U64 Input where
  fresh := .new
  start w := .histogram (.start w.timeNs)
  step := Recording.step

/-! ## What the calls have added to an entry -/

/-- What a call has added so far to the histogram of its category. -/
def Recording.share (w : Sample) : Recording → Histogram
  | .histogram c => c.share
  | .clock | .store _ | .returned => single w.timeNs

/-- The call has counted its attempt. -/
def Recording.counted : Recording → U64
  | .histogram _ => 0
  | .clock | .store _ | .returned => 1

/-- What a call has added so far to the histogram of a category. -/
def share (category : TimingCategory) (x : Sample × Recording) : Histogram :=
  if x.1.category = category then x.2.share x.1 else 0

/-- A call in its histogram records its own sample. -/
def Recording.Ok (e : Entry) (w : Sample) : Recording → Prop
  | .histogram c => c.value = w.timeNs ∧ c.Ok (e.timings.histogram w.category)
  | .clock | .store _ | .returned => True

/-- The entry is what the calls have added to it. -/
structure Recorded (e : Entry) (ls : Multiset (Sample × Recording)) : Prop where
  histogram : ∀ category, e.timings.histogram category = (ls.map (share category)).sum
  attempts : e.attempts = (ls.map fun x => x.2.counted).sum
  ok : ∀ x ∈ ls, x.2.Ok e x.1

namespace Recorded

variable {e : Entry} {w : Sample} {ls : Multiset (Sample × Recording)}

/-- A step in the histogram of the category. -/
theorem moves {c c' : Timing.Concurrent.Call} {h' : Histogram} (hr : Recorded e ((w, .histogram c) ::ₘ ls))
    (hmove : c.Moves (e.timings.histogram w.category) h' c') :
    Recorded { e with timings := e.timings.setHistogram h' w.category } ((w, .histogram c') ::ₘ ls) := by
  obtain ⟨hvalue, hok⟩ := hr.ok _ (Multiset.mem_cons_self _ _)
  obtain ⟨hvalue', hok', d, rfl, hshare⟩ := hmove.spec hok
  refine ⟨fun category => ?_, ?_, fun x hx => ?_⟩
  · have hold := hr.histogram category
    rw [Multiset.map_cons, Multiset.sum_cons] at hold ⊢
    rw [ConnectionTimings.histogram_setHistogram]
    by_cases hc : w.category = category
    · subst hc
      rw [share, if_pos rfl] at hold ⊢
      simp only [Recording.share, if_true] at hold ⊢
      rw [hold, hshare, add_right_comm]
    · rw [share, if_neg hc] at hold ⊢
      rw [if_neg hc, hold]
  · rw [hr.attempts, Multiset.map_cons, Multiset.map_cons]
    rfl
  · rcases Multiset.mem_cons.1 hx with rfl | hx
    · refine ⟨hvalue'.trans hvalue, ?_⟩
      rw [ConnectionTimings.histogram_setHistogram, if_pos rfl]
      exact hok'
    · have hold := hr.ok x (Multiset.mem_cons_of_mem hx)
      obtain ⟨w₁, r₁⟩ := x
      cases r₁ with
      | histogram c₁ =>
        refine ⟨hold.1, ?_⟩
        rw [ConnectionTimings.histogram_setHistogram]
        split_ifs with hc
        · exact hc ▸ hold.2.add d
        · exact hold.2
      | clock | store nowNs | returned => trivial

/-- A step behind the histogram. -/
theorem later {e' : Entry} {r r' : Recording} (hr : Recorded e ((w, r) ::ₘ ls)) (htimings : e'.timings = e.timings)
    {n : U64} (hattempts : e'.attempts = e.attempts + n) (hcounted : r'.counted = r.counted + n)
    (hshare : r'.share w = r.share w) (hok : r'.Ok e' w) : Recorded e' ((w, r') ::ₘ ls) := by
  refine ⟨fun category => ?_, ?_, fun x hx => ?_⟩
  · have hsame : share category (w, r') = share category (w, r) := by simp only [share, hshare]
    rw [htimings, hr.histogram category, Multiset.map_cons, Multiset.map_cons, hsame]
  · rw [hattempts, hr.attempts, Multiset.map_cons, Multiset.map_cons, Multiset.sum_cons, Multiset.sum_cons, hcounted,
      add_right_comm]
  · rcases Multiset.mem_cons.1 hx with rfl | hx
    · exact hok
    · have hold := hr.ok x (Multiset.mem_cons_of_mem hx)
      obtain ⟨w₁, r₁⟩ := x
      cases r₁ with
      | histogram c₁ => exact ⟨hold.1, htimings ▸ hold.2⟩
      | clock | store nowNs | returned => trivial

end Recorded

theorem recorded_invariant : program.Invariant Recorded where
  fresh nowNs := ⟨fun category => by cases category <;> rfl, rfl, fun x hx => absurd hx (Multiset.notMem_zero x)⟩
  start e ls w hr := by
    refine ⟨fun category => ?_, ?_, fun x hx => ?_⟩
    · have hzero : share category (w, program.start w) = 0 := by
        unfold share
        split_ifs
        · exact Timing.Concurrent.Call.share_start w.timeNs
        · rfl
      rw [Multiset.map_cons, Multiset.sum_cons, hzero, zero_add, hr.histogram]
    · rw [Multiset.map_cons, Multiset.sum_cons, hr.attempts]
      exact (zero_add _).symm
    · rcases Multiset.mem_cons.1 hx with rfl | hx
      · exact ⟨rfl, Timing.Concurrent.Call.ok_start _ _⟩
      · exact hr.ok x hx
  step w a e r ls e' r' hr hstep := by
    change Recording.step w a e r = _ at hstep
    unfold Recording.step at hstep
    split at hstep
    · next c =>
      split_ifs at hstep with hfinished
      · obtain ⟨rfl, rfl⟩ := Prod.mk.inj (Option.some.inj hstep)
        obtain ⟨hvalue, -⟩ := hr.ok _ (Multiset.mem_cons_self _ _)
        refine hr.later rfl rfl rfl ?_ trivial
        simp only [Recording.share, Timing.Concurrent.Call.share, hfinished, hvalue]
      · obtain ⟨⟨h', c'⟩, hc, heq⟩ := Option.map_eq_some_iff.1 hstep
        obtain ⟨rfl, rfl⟩ := Prod.mk.inj heq
        exact hr.moves (.inl hc)
    · next c =>
      obtain ⟨c', hc, heq⟩ := Option.map_eq_some_iff.1 hstep
      obtain ⟨rfl, rfl⟩ := Prod.mk.inj heq
      have hmoved := hr.moves (.inr ⟨rfl, hc⟩)
      rw [ConnectionTimings.setHistogram_self] at hmoved
      exact hmoved
    · next nowNs =>
      obtain ⟨rfl, rfl⟩ := Prod.mk.inj (Option.some.inj hstep)
      exact hr.later rfl (add_zero _).symm rfl rfl trivial
    · next nowNs =>
      obtain ⟨rfl, rfl⟩ := Prod.mk.inj (Option.some.inj hstep)
      exact hr.later rfl (add_zero _).symm rfl rfl trivial
    · cases hstep

end Registry

/-! ## Measurements one after the other -/

/-- The address and the arguments of `record`. -/
def Measurement.request (m : Measurement) : SocketAddr × Registry.Sample := (m.addr, ⟨m.timeNs, m.category⟩)

/-- The samples of an address. -/
def samplesFor (addr : SocketAddr) (measurements : List Measurement) : List Registry.Sample :=
  GetOrCreate.argsFor addr (measurements.map Measurement.request)

theorem samplesFor_cons (addr : SocketAddr) (m : Measurement) (measurements : List Measurement) :
    samplesFor addr (m :: measurements) = if m.addr = addr then ⟨m.timeNs, m.category⟩ :: samplesFor addr measurements
      else samplesFor addr measurements := by
  unfold samplesFor GetOrCreate.argsFor
  rw [List.map_cons, List.filterMap_cons, Measurement.request]
  by_cases haddr : m.addr = addr
  · simp only [haddr, if_true]
  · simp only [haddr, if_false]

theorem length_samplesFor (addr : SocketAddr) (measurements : List Measurement) :
    (samplesFor addr measurements).length = measurements.countP fun m => m.addr = addr := by
  induction measurements with
  | nil => rfl
  | cons m measurements ih =>
    rw [samplesFor_cons, List.countP_cons, ← ih]
    by_cases haddr : m.addr = addr <;> simp [haddr]

theorem mem_addrs_iff (addr : SocketAddr) (measurements : List Measurement) :
    addr ∈ measurements.map Measurement.addr ↔ samplesFor addr measurements ≠ [] := by
  rw [← List.length_pos_iff, length_samplesFor, List.countP_pos_iff, List.mem_map]
  simp only [decide_eq_true_eq]

namespace ConnectionTimings

/-- Samples recorded one after the other. -/
def recordAll (t : ConnectionTimings) (samples : List Registry.Sample) : ConnectionTimings :=
  samples.foldl (fun t w => t.record w.timeNs w.category) t

theorem histogram_recordAll (t : ConnectionTimings) (samples : List Registry.Sample) (category : TimingCategory) :
    (t.recordAll samples).histogram category = t.histogram category + (samples.map (·.share category)).sum := by
  unfold recordAll
  induction samples generalizing t with
  | nil => exact (add_zero _).symm
  | cons w samples ih =>
    rw [List.foldl_cons, ih, record_eq_setHistogram, histogram_setHistogram, List.map_cons, List.sum_cons,
      Registry.Sample.share]
    split_ifs with hc
    · rw [hc, add_assoc]
    · rw [zero_add]

end ConnectionTimings

theorem keys_modifyEntry (addr : SocketAddr) (f : ConnectionTimings → ConnectionTimings)
    (entries : List (SocketAddr × ConnectionTimings)) : (modifyEntry addr f entries).map Prod.fst =
      if addr ∈ entries.map Prod.fst then entries.map Prod.fst else entries.map Prod.fst ++ [addr] := by
  induction entries with
  | nil => rfl
  | cons e rest ih =>
    obtain ⟨a, t⟩ := e
    rw [modifyEntry, List.map_cons]
    by_cases ha : a = addr
    · rw [if_pos ha, if_pos (ha ▸ List.mem_cons_self), List.map_cons]
    · rw [if_neg ha, List.map_cons, ih]
      simp only [List.mem_cons, Ne.symm ha, false_or, List.cons_append]
      split_ifs <;> rfl

namespace TimingRegistry

open GetOrCreate (Sharded)

variable {r r' : TimingRegistry}

theorem sharded_record (hr : Sharded shardIndex r.shards) (m : Measurement) :
    Sharded shardIndex (r.record m).shards := by
  have hkeys := keys_modifyEntry m.addr (fun t => t.record m.timeNs m.category) (r.shards (shardIndex m.addr))
  refine hr.update (fun e he => ?_) ?_
  · have hin := List.mem_map_of_mem (f := Prod.fst) he
    rw [hkeys] at hin
    have hcases : e.1 ∈ (r.shards (shardIndex m.addr)).map Prod.fst ∨ e.1 = m.addr := by
      split_ifs at hin
      · exact .inl hin
      · rwa [List.mem_append, List.mem_singleton] at hin
    rcases hcases with hin | haddr
    · obtain ⟨e', he', heq⟩ := List.mem_map.1 hin
      rw [← heq]
      exact hr.home _ e' he'
    · rw [haddr]
  · rw [hkeys]
    split_ifs with hin
    · exact hr.nodup _
    · rw [← List.concat_eq_append, List.nodup_concat]
      exact ⟨hin, hr.nodup _⟩

theorem sharded_recordAll (hr : Sharded shardIndex r.shards) (measurements : List Measurement) :
    Sharded shardIndex (r.recordAll measurements).shards := by
  unfold recordAll
  induction measurements generalizing r with
  | nil => exact hr
  | cons m measurements ih => exact ih (sharded_record hr m)

/-- An address has an entry if it had one or was measured, and its entry has its samples. -/
theorem get_recordAll (r : TimingRegistry) (measurements : List Measurement) (addr : SocketAddr) :
    (r.recordAll measurements).get addr = if samplesFor addr measurements = [] then r.get addr
      else some (((r.get addr).getD .new).recordAll (samplesFor addr measurements)) := by
  unfold recordAll
  induction measurements generalizing r with
  | nil => rfl
  | cons m measurements ih =>
    rw [List.foldl_cons, ih, get_record, samplesFor_cons]
    by_cases haddr : m.addr = addr
    · subst haddr
      rw [if_pos rfl, if_pos rfl, if_neg (List.cons_ne_nil _ _), Option.getD_some]
      split_ifs with hnil
      · rw [hnil]
        rfl
      · rfl
    · rw [if_neg (Ne.symm haddr), if_neg haddr]

/-! ## Registries with the same entries -/

/-- `ip_count`. -/
def ipCount (r : TimingRegistry) : ℕ := ((List.finRange 16).map fun i => (r.shards i).length).sum

theorem ipCount_eq_card (hr : Sharded shardIndex r.shards) {addrs : List SocketAddr}
    (haddrs : ∀ addr, addr ∈ addrs ↔ (r.get addr).isSome = true) : r.ipCount = addrs.dedup.length := by
  obtain ⟨hnodup, hmem⟩ := hr.keys (List.nodup_finRange 16) List.mem_finRange
  have hperm : ((List.finRange 16).flatMap fun i => (r.shards i).map Prod.fst).Perm addrs.dedup := by
    refine (List.perm_ext_iff_of_nodup hnodup (List.nodup_dedup _)).2 fun addr => ?_
    rw [hmem, List.mem_dedup, haddrs]
    rfl
  rw [← hperm.length_eq, List.length_flatMap]
  simp only [ipCount, List.length_map]

variable (hperm : ∀ i, (r.shards i).Perm (r'.shards i))

include hperm

theorem globalMedianHandshakeMs_congr (p50 : Percentile) :
    r.globalMedianHandshakeMs p50 = r'.globalMedianHandshakeMs p50 := by
  unfold globalMedianHandshakeMs
  generalize hp : (fun e : SocketAddr × ConnectionTimings =>
    let p := (e.2.handshakeHistogram.percentiles [p50]).headD 0
    if 0 < p then some p else none) = f
  have hall : ((List.finRange 16).flatMap fun i => (r.shards i).filterMap f).Perm
      ((List.finRange 16).flatMap fun i => (r'.shards i).filterMap f) :=
    .flatMap_left _ fun i _ => (hperm i).filterMap f
  -- sorted lists with the same members are the same
  have hsorted : ((List.finRange 16).flatMap fun i => (r.shards i).filterMap f).mergeSort (· ≤ ·) =
      ((List.finRange 16).flatMap fun i => (r'.shards i).filterMap f).mergeSort (· ≤ ·) :=
    (((List.mergeSort_perm _ _).trans hall).trans (List.mergeSort_perm _ _).symm).eq_of_sortedLE
      List.sortedLE_mergeSort List.sortedLE_mergeSort
  simp only [hsorted, hall.length_eq]

theorem calculateLookaheadSolanaSlots_congr (hget : ∀ addr, r.get addr = r'.get addr)
    (config : Option AdaptivePrewarmConfig) (p50 : Percentile) (addr : SocketAddr) :
    calculateLookaheadSolanaSlots config r p50 addr = calculateLookaheadSolanaSlots config r' p50 addr := by
  have hmedian := globalMedianHandshakeMs_congr hperm p50
  simp only [calculateLookaheadSolanaSlots, handshakeMs, fallbackMs, getBootstrapTimingMs, hget, hmedian]

end TimingRegistry

/-! ## All interleavings -/

namespace Registry

open GetOrCreate (Inv)

abbrev State := GetOrCreate.State SocketAddr (Fin 16) Entry Sample Recording

abbrev Action := GetOrCreate.Action SocketAddr Sample U64 Input

/-- `TimingRegistry::new` and calls of any number of threads. -/
abbrev system : System State Action := GetOrCreate.system TimingRegistry.shardIndex program

/-- The registry that readers find. -/
def registry (s : State) : TimingRegistry :=
  ⟨fun i => (s.maps.shards i).map (Prod.map id fun h => (s.heap h).timings)⟩

/-- `get`, with the counters. -/
def get (s : State) (addr : SocketAddr) : Option Entry :=
  (s.maps.find TimingRegistry.shardIndex addr).map s.heap

/-- All calls have returned. -/
def Returned (s : State) : Prop := ∀ c ∈ s.calls, ∃ h, c.phase = .use h .returned

theorem get_registry (s : State) (addr : SocketAddr) : (registry s).get addr = (get s addr).map Entry.timings := by
  rw [get, Option.map_map]
  exact GetOrCreate.lookup_mapValues _ _ _

theorem sharded_registry {s : State} (hi : Inv TimingRegistry.shardIndex Recorded s) :
    GetOrCreate.Sharded TimingRegistry.shardIndex (registry s).shards :=
  hi.maps.sharded.mapValues _

section Returned

variable {s : State} (hreturned : Returned s)

include hreturned

theorem settled_of_returned : s.Settled := by
  intro c hc
  obtain ⟨h, hphase⟩ := hreturned c hc
  exact ⟨h, .returned, hphase⟩

theorem returned_of_mem_users {h : ℕ} {x : Sample × Recording} (hx : x ∈ s.users h) : x.2 = .returned := by
  obtain ⟨c, hc, hat⟩ := List.mem_filterMap.1 hx
  obtain ⟨h', hphase⟩ := hreturned c hc
  simp only [GetOrCreate.Call.at?, hphase] at hat
  obtain ⟨-, hx⟩ := Option.ite_none_right_eq_some.1 hat
  rw [← Option.some.inj hx]

variable (hi : Inv TimingRegistry.shardIndex Recorded s) {requests : List (SocketAddr × Sample)}
  (hrequests : requests.Perm (s.calls.map GetOrCreate.Call.request))

include hi hrequests

/-- The entry of an address after all calls: the histograms of its samples and their number. -/
theorem entry_of_returned {addr : SocketAddr} {e : Entry} (hget : get s addr = some e) :
    (∀ category, e.timings.histogram category =
      ((GetOrCreate.argsFor addr requests).map (·.share category)).sum) ∧
      e.attempts.val = (GetOrCreate.argsFor addr requests).length % 2 ^ 64 := by
  obtain ⟨h, hfind, rfl⟩ := Option.map_eq_some_iff.1 hget
  obtain ⟨hr, -⟩ := hi.objects addr h hfind
  have hargs : (s.users h).map Prod.fst = (GetOrCreate.argsFor addr requests : List Sample) := by
    rw [hi.args_users (settled_of_returned hreturned) hfind, Multiset.coe_eq_coe]
    exact (hrequests.filterMap _).symm
  refine ⟨fun category => ?_, ?_⟩
  · have hshare : (s.users h).map (share category) = ((s.users h).map Prod.fst).map (·.share category) := by
      rw [Multiset.map_map]
      refine Multiset.map_congr rfl fun x hx => ?_
      simp only [share, returned_of_mem_users hreturned hx, Recording.share, Function.comp, Sample.share]
    rw [hr.histogram, hshare, hargs, Multiset.map_coe, Multiset.sum_coe]
  · have hcounted : ((s.users h).map fun x => x.2.counted) =
        ((s.users h).map Prod.fst).map fun _ => if True then 1 else 0 := by
      rw [Multiset.map_map]
      refine Multiset.map_congr rfl fun x hx => ?_
      simp only [returned_of_mem_users hreturned hx, Recording.counted, Function.comp, if_true]
    rw [hr.attempts, hcounted, hargs, Multiset.map_coe, Multiset.sum_coe, val_sum_ite]
    simp only [decide_true, List.countP_true]

theorem get_eq_none_iff (addr : SocketAddr) : get s addr = none ↔ GetOrCreate.argsFor addr requests = [] := by
  have hargs : (GetOrCreate.argsFor addr requests).Perm
      (GetOrCreate.argsFor addr (s.calls.map GetOrCreate.Call.request)) := hrequests.filterMap _
  rw [get, Option.map_eq_none_iff, hi.find_eq_none_iff (settled_of_returned hreturned), ← List.length_eq_zero_iff,
    ← List.length_eq_zero_iff, hargs.length_eq]

end Returned

/-- Threads record measurements in any interleaving, and all have returned.  Then the registry is that of the same
measurements recorded one after the other in any order: every address has the same histograms, the lookahead is the
same for every configuration and address, there is one entry for each address, and it has counted its attempts. -/
theorem registry_of_run {s₀ s : State} (hinit : system.init s₀) {as : List Action} (hrun : system.run s₀ as = some s)
    (hreturned : Returned s) {measurements : List Measurement}
    (hperm : (measurements.map Measurement.request).Perm (as.filterMap GetOrCreate.Action.call?)) :
    (∀ addr, (registry s).get addr = (TimingRegistry.new.recordAll measurements).get addr) ∧
    (∀ config p50 addr, calculateLookaheadSolanaSlots config (registry s) p50 addr =
      calculateLookaheadSolanaSlots config (TimingRegistry.new.recordAll measurements) p50 addr) ∧
    (registry s).ipCount = (measurements.map Measurement.addr).dedup.length ∧
    ∀ addr e, get s addr = some e →
      e.attempts.val = (measurements.countP fun m => m.addr = addr) % 2 ^ 64 := by
  have hi := GetOrCreate.inv_of_reachable recorded_invariant (System.Reachable.run (.init hinit) hrun)
  have hrequests : (measurements.map Measurement.request).Perm (s.calls.map GetOrCreate.Call.request) := by
    have hcalls := GetOrCreate.request_run hrun
    rw [hinit.2] at hcalls
    exact hperm.trans hcalls.symm
  have hnone (addr : SocketAddr) := get_eq_none_iff hreturned hi hrequests addr
  have hget (addr : SocketAddr) :
      (registry s).get addr = (TimingRegistry.new.recordAll measurements).get addr := by
    rw [get_registry, TimingRegistry.get_recordAll]
    split_ifs with hnil
    · rw [(hnone addr).2 hnil]
      rfl
    · obtain ⟨e, he⟩ := Option.ne_none_iff_exists'.1 (fun h => hnil ((hnone addr).1 h))
      rw [he, Option.map_some]
      congr 1
      refine ConnectionTimings.ext_histogram fun category => ?_
      rw [(entry_of_returned hreturned hi hrequests he).1, ConnectionTimings.histogram_recordAll]
      cases category <;> exact (zero_add _).symm
  have hsharded := sharded_registry hi
  have hshards := hsharded.perm (TimingRegistry.sharded_recordAll .empty measurements) hget
  refine ⟨hget, TimingRegistry.calculateLookaheadSolanaSlots_congr hshards hget, ?_, fun addr e he => ?_⟩
  · refine TimingRegistry.ipCount_eq_card hsharded fun addr => ?_
    rw [mem_addrs_iff, get_registry, Option.isSome_map, Option.isSome_iff_ne_none, ne_eq, ne_eq, hnone]
    rfl
  · rw [(entry_of_returned hreturned hi hrequests he).2, ← length_samplesFor]
    rfl

/-- Two threads that are the first to see the peer `10.0.0.1:8009`, and one that records for another peer.  Both of the
first find no entry; the second makes it before the first takes the write lock, and they race for the least sample. -/
def firstSeen : List Action :=
  let first : SocketAddr := .v4 0x0A000001 8009
  let other : SocketAddr := .v4 0x0A000002 8009
  List.flatten [[.call first ⟨5, .handshake⟩, .call first ⟨3, .handshake⟩, .call other ⟨9, .zeroRtt⟩,
      .lock 0 0, .lock 1 0, .lock 2 0, .lock 1 7, .lock 0 8, .lock 2 9],
    List.replicate 4 (.step 0 .step), List.replicate 5 (.step 1 .step), [.step 0 .fail],
    List.replicate 4 (.step 0 .step), List.replicate 3 (.step 1 .step), List.replicate 8 (.step 2 .step),
    [.step 0 (.clock 20), .step 1 (.clock 21), .step 2 (.clock 22), .step 1 .step, .step 2 .step, .step 0 .step]]

/-- One entry for each of the two peers, with the samples of both threads in the first. -/
theorem registry_of_run_firstSeen : ∃ s : State,
    system.run ⟨.new, fun _ => .new 0, []⟩ firstSeen = some s ∧ (registry s).ipCount = 2 ∧
      (registry s).handshakeHistogram (.v4 0x0A000001 8009) = Histogram.new.recordAll [3, 5] ∧
      ∀ e, get s (.v4 0x0A000001 8009) = some e → e.attempts.val = 2 := by
  have hfinal : (system.run ⟨.new, fun _ => .new 0, []⟩ firstSeen).map (fun s => s.calls.map (·.phase)) =
      some [.use 0 .returned, .use 0 .returned, .use 1 .returned] := by decide +kernel
  obtain ⟨s, hrun, hphases⟩ := Option.map_eq_some_iff.1 hfinal
  have hreturned : Returned s := by
    intro c hc
    have hin : c.phase ∈ s.calls.map (·.phase) := List.mem_map_of_mem hc
    rw [hphases] at hin
    simp only [List.mem_cons, List.not_mem_nil, or_false] at hin
    rcases hin with h | h | h <;> exact ⟨_, h⟩
  have hperm : (([⟨.v4 0x0A000001 8009, 3, .handshake⟩, ⟨.v4 0x0A000001 8009, 5, .handshake⟩,
      ⟨.v4 0x0A000002 8009, 9, .zeroRtt⟩] : List Measurement).map Measurement.request).Perm
        (firstSeen.filterMap GetOrCreate.Action.call?) := .swap _ _ _
  obtain ⟨hget, -, hcount, hattempts⟩ := registry_of_run ⟨rfl, rfl⟩ hrun hreturned hperm
  refine ⟨s, hrun, hcount.trans (by decide), ?_, fun e he => (hattempts _ e he).trans (by decide)⟩
  rw [TimingRegistry.handshakeHistogram, hget, ← TimingRegistry.handshakeHistogram, handshakeHistogram_recordAll]
  rfl

end Registry

end Land.Quic
