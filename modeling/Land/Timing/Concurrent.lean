import Land.Lib.Transition
import Land.Timing.Percentile

/-!
# A histogram shared by threads

Any number of calls of `record` and `percentiles` on one histogram, as a transition system in which each
atomic operation is a step.  `record` updates the bucket, then the count, then the sum, and then the least
and the largest sample in two loops of `compare_exchange_weak`; `percentiles` loads the count and then the
buckets one by one.

Each step adds something to the histogram, and what a call has added so far depends on its own position
only (`Call.share`).  So the histogram is the sum of the shares of all calls, and once all have returned, the
sum of their samples.

The counters are `u64`.  As long as no bucket has wrapped around, a reader finds every rank of the count that it
loaded, since each bucket is incremented before the count is; with `2 ^ 64` samples one wraps around under it.
-/

namespace Land.Timing.Concurrent

open Histogram (new ofBucket ofCount ofSum ofMin ofMax single)

/-- The next atomic step of a call of `record`. -/
inductive Pc where
  | bucket
  | count
  | sum
  | minLoad
  | minLoop (current : U64)
  | maxLoad
  | maxLoop (current : U64)
  | finished
  deriving Repr, DecidableEq

/-- A call of `record`. -/
structure Call where
  value : U64
  pc : Pc
  deriving Repr, DecidableEq

namespace Call

/-- A call that begins; a zero returns at once. -/
def start (value : U64) : Call := ⟨value, if value = 0 then .finished else .bucket⟩

/-- The next atomic step of a call.  The comparison of a loop is local and goes with the exchange behind
it; an exchange that fails loads the value it found. -/
def step (h : Histogram) (c : Call) : Option (Histogram × Call) :=
  match c.pc with
  | .bucket =>
      some ({ h with buckets :=
          Function.update h.buckets (bucketOf c.value) (h.buckets (bucketOf c.value) + 1) },
        { c with pc := .count })
  | .count => some ({ h with count := h.count + 1 }, { c with pc := .sum })
  | .sum => some ({ h with sum := h.sum + c.value }, { c with pc := .minLoad })
  | .minLoad => some (h, { c with pc := .minLoop h.min })
  | .minLoop current =>
      if c.value < current then
        if h.min = current then some ({ h with min := c.value }, { c with pc := .maxLoad })
        else some (h, { c with pc := .minLoop h.min })
      else some (h, { c with pc := .maxLoad })
  | .maxLoad => some (h, { c with pc := .maxLoop h.max })
  | .maxLoop current =>
      if current < c.value then
        if h.max = current then some ({ h with max := c.value }, { c with pc := .finished })
        else some (h, { c with pc := .maxLoop h.max })
      else some (h, { c with pc := .finished })
  | .finished => none

/-- An exchange that fails whatever it found. -/
def fail (h : Histogram) (c : Call) : Option Call :=
  match c.pc with
  | .minLoop current => if c.value < current then some { c with pc := .minLoop h.min } else none
  | .maxLoop current => if current < c.value then some { c with pc := .maxLoop h.max } else none
  | _ => none

end Call

/-- A call of `percentiles`, with the count and the bucket counts that it has loaded. -/
inductive Reader where
  | start
  | loading (count : U64) (loaded : List U64)
  | returned (count : U64) (loaded : List U64)
  deriving Repr, DecidableEq

/-- The next load of a call of `percentiles`. -/
def Reader.step (h : Histogram) : Reader → Option Reader
  | .start => some (if h.count = 0 then .returned 0 [] else .loading h.count [])
  | .loading count loaded =>
      if hlt : loaded.length < numBuckets then
        let loaded := loaded ++ [h.buckets ⟨loaded.length, hlt⟩]
        some (if loaded.length = numBuckets then .returned count loaded else .loading count loaded)
      else none
  | .returned _ _ => none

/-- The histogram, with all calls that have begun. -/
structure State where
  hist : Histogram
  calls : List Call
  readers : List Reader

inductive Action where
  | record (value : U64)
  | percentiles
  | step (i : ℕ)
  | fail (i : ℕ)
  | load (i : ℕ)

/-- A new histogram, and calls of any number of threads. -/
def system : System State Action where
  init s := s = ⟨new, [], []⟩
  step s
    | .record value => some { s with calls := s.calls ++ [.start value] }
    | .percentiles => some { s with readers := s.readers ++ [.start] }
    | .step i => s.calls[i]?.bind fun c => (c.step s.hist).map fun p =>
        { s with hist := p.1, calls := s.calls.set i p.2 }
    | .fail i => s.calls[i]?.bind fun c => (c.fail s.hist).map fun c' =>
        { s with calls := s.calls.set i c' }
    | .load i => s.readers[i]?.bind fun r => (r.step s.hist).map fun r' =>
        { s with readers := s.readers.set i r' }

theorem exists_set_eq {α : Type} {l : List α} {i : ℕ} {a : α} (h : l[i]? = some a) :
    ∃ before after, l = before ++ a :: after ∧ ∀ b, l.set i b = before ++ b :: after := by
  obtain ⟨hlt, rfl⟩ := List.getElem?_eq_some_iff.1 h
  refine ⟨l.take i, l.drop (i + 1), ?_, fun b => ?_⟩
  · rw [← List.drop_eq_getElem_cons hlt, List.take_append_drop]
  · rw [List.set_eq_take_append_cons_drop, if_pos hlt]

/-- A step of one call of `record`, from one histogram to the next. -/
def Call.Moves (h : Histogram) (c : Call) (h' : Histogram) (c' : Call) : Prop :=
  c.step h = some (h', c') ∨ h' = h ∧ c.fail h = some c'

/-- What a step can do. -/
theorem step_cases {s s' : State} {a : Action} (h : system.step s a = some s') :
    (∃ value, s' = { s with calls := s.calls ++ [.start value] }) ∨
    s' = { s with readers := s.readers ++ [.start] } ∨
    (∃ before c after h' c', s.calls = before ++ c :: after ∧ c.Moves s.hist h' c' ∧
      s' = { s with hist := h', calls := before ++ c' :: after }) ∨
    ∃ before r after r', s.readers = before ++ r :: after ∧ r.step s.hist = some r' ∧
      s' = { s with readers := before ++ r' :: after } := by
  cases a with
  | record value =>
    cases h
    exact .inl ⟨value, rfl⟩
  | percentiles =>
    cases h
    exact .inr (.inl rfl)
  | step i =>
    obtain ⟨c, hc, h⟩ := Option.bind_eq_some_iff.1 h
    obtain ⟨⟨h', c'⟩, hstep, rfl⟩ := Option.map_eq_some_iff.1 h
    obtain ⟨before, after, hl, hset⟩ := exists_set_eq hc
    refine .inr (.inr (.inl ⟨before, c, after, h', c', hl, .inl hstep, ?_⟩))
    rw [hset]
  | fail i =>
    obtain ⟨c, hc, h⟩ := Option.bind_eq_some_iff.1 h
    obtain ⟨c', hfail, rfl⟩ := Option.map_eq_some_iff.1 h
    obtain ⟨before, after, hl, hset⟩ := exists_set_eq hc
    refine .inr (.inr (.inl ⟨before, c, after, s.hist, c', hl, .inr ⟨rfl, hfail⟩, ?_⟩))
    rw [hset]
  | load i =>
    obtain ⟨r, hr, h⟩ := Option.bind_eq_some_iff.1 h
    obtain ⟨r', hstep, rfl⟩ := Option.map_eq_some_iff.1 h
    obtain ⟨before, after, hl, hset⟩ := exists_set_eq hr
    refine .inr (.inr (.inr ⟨before, r, after, r', hl, hstep, ?_⟩))
    rw [hset]

/-! ### The shares of the calls -/

namespace Call

/-- What a call has added so far. -/
def share (c : Call) : Histogram :=
  match c.pc with
  | .bucket => 0
  | .count => ofBucket c.value
  | .sum => ofBucket c.value + ofCount
  | .minLoad | .minLoop _ => ofBucket c.value + ofCount + ofSum c.value
  | .maxLoad | .maxLoop _ => ofBucket c.value + ofCount + ofSum c.value + ofMin c.value
  | .finished => single c.value

/-- A call that has not returned has a sample to record, and in a loop it has seen a least or a largest
sample that was there at some time. -/
def Ok (h : Histogram) (c : Call) : Prop :=
  match c.pc with
  | .finished => True
  | .minLoop current => c.value ≠ 0 ∧ h.min ≤ current
  | .maxLoop current => c.value ≠ 0 ∧ current ≤ h.max
  | _ => c.value ≠ 0

theorem ok_start (h : Histogram) (value : U64) : (start value).Ok h := by
  unfold start
  split_ifs with hzero
  · trivial
  · exact hzero

theorem share_start (value : U64) : (start value).share = 0 := by
  unfold start
  split_ifs with hzero
  · exact if_pos hzero
  · rfl

/-- The least sample only goes down and the largest only up. -/
theorem Ok.add {h : Histogram} {c : Call} (hok : c.Ok h) (d : Histogram) : c.Ok (h + d) := by
  obtain ⟨value, pc⟩ := c
  cases pc with
  | minLoop current => exact ⟨hok.1, inf_le_left.trans hok.2⟩
  | maxLoop current => exact ⟨hok.1, hok.2.trans le_sup_left⟩
  | bucket | count | sum | minLoad | maxLoad | finished => exact hok

/-- Every step adds the same to the histogram and to the share of the call. -/
theorem Moves.spec {h h' : Histogram} {c c' : Call} (hok : c.Ok h) (hmove : c.Moves h h' c') :
    c'.value = c.value ∧ c'.Ok h' ∧ ∃ d, h' = h + d ∧ c'.share = c.share + d := by
  obtain ⟨value, pc⟩ := c
  have hzero (c : Call) : ∃ d, h = h + d ∧ c.share = c.share + d :=
    ⟨0, (add_zero h).symm, (add_zero _).symm⟩
  rcases hmove with hstep | ⟨rfl, hfail⟩
  · cases pc with
    | finished => cases hstep
    | bucket =>
      cases hstep
      exact ⟨rfl, hok, ofBucket value, (Histogram.add_ofBucket h value).symm, (zero_add _).symm⟩
    | count =>
      cases hstep
      exact ⟨rfl, hok, ofCount, (Histogram.add_ofCount h).symm, rfl⟩
    | sum =>
      cases hstep
      exact ⟨rfl, hok, ofSum value, (Histogram.add_ofSum h value).symm, rfl⟩
    | minLoad =>
      cases hstep
      exact ⟨rfl, ⟨hok, le_rfl⟩, hzero _⟩
    | minLoop current =>
      obtain ⟨hv, hle⟩ := hok
      simp only [step] at hstep
      split_ifs at hstep with hlt heq
      · -- the exchange succeeds
        cases hstep
        refine ⟨rfl, hv, ofMin value, ?_, rfl⟩
        rw [Histogram.add_ofMin, if_pos (heq ▸ hlt)]
      · cases hstep
        exact ⟨rfl, ⟨hv, le_rfl⟩, hzero _⟩
      · -- the least sample is not above the one that was loaded
        cases hstep
        refine ⟨rfl, hv, ofMin value, ?_, rfl⟩
        rw [Histogram.add_ofMin, if_neg (not_lt.2 (hle.trans (not_lt.1 hlt)))]
    | maxLoad =>
      cases hstep
      exact ⟨rfl, ⟨hok, le_rfl⟩, hzero _⟩
    | maxLoop current =>
      obtain ⟨hv, hle⟩ := hok
      have hshare : single value = (⟨value, .maxLoop current⟩ : Call).share + ofMax value := if_neg hv
      simp only [step] at hstep
      split_ifs at hstep with hlt heq
      · cases hstep
        refine ⟨rfl, trivial, ofMax value, ?_, hshare⟩
        rw [Histogram.add_ofMax, if_pos (heq ▸ hlt)]
      · cases hstep
        exact ⟨rfl, ⟨hv, le_rfl⟩, hzero _⟩
      · cases hstep
        refine ⟨rfl, trivial, ofMax value, ?_, hshare⟩
        rw [Histogram.add_ofMax, if_neg (not_lt.2 ((not_lt.1 hlt).trans hle))]
  · cases pc with
    | minLoop current =>
      obtain ⟨-, ⟨⟩⟩ := Option.ite_none_right_eq_some.1 hfail
      exact ⟨rfl, ⟨hok.1, le_rfl⟩, hzero _⟩
    | maxLoop current =>
      obtain ⟨-, ⟨⟩⟩ := Option.ite_none_right_eq_some.1 hfail
      exact ⟨rfl, ⟨hok.1, le_rfl⟩, hzero _⟩
    | bucket | count | sum | minLoad | maxLoad | finished => cases hfail

end Call

/-- The histogram is what the calls have added. -/
structure Inv (s : State) : Prop where
  hist : s.hist = (s.calls.map Call.share).sum
  ok : ∀ c ∈ s.calls, c.Ok s.hist

theorem Inv.step {s s' : State} {a : Action} (hi : Inv s) (hstep : system.step s a = some s') : Inv s' := by
  obtain ⟨value, rfl⟩ | rfl | ⟨before, c, after, h', c', hcalls, hmove, rfl⟩ |
    ⟨before, r, after, r', -, -, rfl⟩ := step_cases hstep
  · refine ⟨?_, fun c hc => ?_⟩
    · simp [hi.hist, Call.share_start]
    · rcases List.mem_append.1 hc with hc | hc
      · exact hi.ok c hc
      · rw [List.mem_singleton.1 hc]
        exact Call.ok_start _ _
  · exact ⟨hi.hist, hi.ok⟩
  · have hok := hi.ok
    rw [hcalls] at hok
    obtain ⟨-, hok', d, rfl, hshare⟩ := hmove.spec (hok c (by simp))
    refine ⟨?_, fun e he => ?_⟩
    · simp only [hi.hist, hcalls, List.map_append, List.map_cons, List.sum_append, List.sum_cons, hshare]
      abel
    · rcases List.mem_append.1 he with he | he
      · exact (hok e (by simp [he])).add d
      · rcases List.mem_cons.1 he with rfl | he
        · exact hok'
        · exact (hok e (by simp [he])).add d
  · exact ⟨hi.hist, hi.ok⟩

theorem inv_of_reachable {s : State} (hs : system.Reachable s) : Inv s := by
  refine System.Reachable.invariant ?_ (fun s a s' hi hstep => hi.step hstep) hs
  rintro s rfl
  exact ⟨rfl, by simp⟩

/-- Once all calls have returned, the histogram is that of their samples in any order. -/
theorem Inv.hist_eq_recordAll {s : State} (hi : Inv s) (hfinished : ∀ c ∈ s.calls, c.pc = .finished)
    {samples : List U64} (hperm : samples.Perm (s.calls.map Call.value)) :
    s.hist = new.recordAll samples := by
  have hshare : s.calls.map Call.share = s.calls.map (single ∘ Call.value) := by
    apply List.map_congr_left
    intro c hc
    simp only [Call.share, hfinished c hc, Function.comp]
  rw [Histogram.recordAll_eq, (hperm.map single).sum_eq, hi.hist, List.map_map, hshare]
  exact (zero_add _).symm

/-! ### What a reader finds -/

namespace Call

/-- The call has incremented its bucket. -/
def Bucketed (c : Call) : Prop := c.pc ≠ .bucket ∧ c.value ≠ 0

/-- The call has incremented the count. -/
def Counted (c : Call) : Prop := c.pc ≠ .count ∧ c.Bucketed

instance : DecidablePred Bucketed := fun c => inferInstanceAs (Decidable (c.pc ≠ .bucket ∧ c.value ≠ 0))

instance : DecidablePred Counted := fun c => inferInstanceAs (Decidable (c.pc ≠ .count ∧ c.Bucketed))

theorem Ok.value_ne {h : Histogram} {c : Call} (hok : c.Ok h) : c.pc = .finished ∨ c.value ≠ 0 := by
  obtain ⟨value, pc⟩ := c
  cases pc with
  | finished => exact .inl rfl
  | minLoop current | maxLoop current => exact .inr hok.1
  | bucket | count | sum | minLoad | maxLoad => exact .inr hok

theorem share_buckets {h : Histogram} {c : Call} (hok : c.Ok h) (b : Fin numBuckets) :
    c.share.buckets b = if c.Bucketed ∧ bucketOf c.value = b then 1 else 0 := by
  obtain ⟨value, pc⟩ := c
  rcases hok.value_ne with rfl | hv
  · simp [share, Bucketed, Histogram.single_buckets]
  · cases pc <;> simp_all [share, Bucketed, Histogram.single_buckets]

theorem share_count {h : Histogram} {c : Call} (hok : c.Ok h) :
    c.share.count = if c.Counted then 1 else 0 := by
  obtain ⟨value, pc⟩ := c
  rcases hok.value_ne with rfl | hv
  · simp [share, Counted, Bucketed, Histogram.single_count]
  · cases pc <;> simp_all [share, Counted, Bucketed, Histogram.single_count]

theorem Moves.pc_ne {h h' : Histogram} {c c' : Call} (hmove : c.Moves h h' c') : c'.pc ≠ .bucket := by
  obtain ⟨value, pc⟩ := c
  rcases hmove with hstep | ⟨-, hfail⟩
  · cases pc <;> grind [step]
  · cases pc <;> grind [fail]

theorem Moves.bucketed {h h' : Histogram} {c c' : Call} (hok : c.Ok h) (hmove : c.Moves h h' c')
    (hb : c.Bucketed) : c'.Bucketed ∧ bucketOf c'.value = bucketOf c.value := by
  have hvalue := (hmove.spec hok).1
  exact ⟨⟨hmove.pc_ne, hvalue ▸ hb.2⟩, by rw [hvalue]⟩

end Call

/-- The calls that have incremented their bucket. -/
def State.bucketed (s : State) : List Call := s.calls.filter Call.Bucketed

section Counts

variable {s : State} (hi : Inv s) (hlen : s.bucketed.length < 2 ^ 64)

include hi hlen

theorem Inv.val_buckets (b : Fin numBuckets) :
    (s.hist.buckets b).val = s.bucketed.countP fun c => bucketOf c.value = b := by
  have hmap : (s.calls.map Call.share).map (fun h => h.buckets b) =
      s.calls.map fun c => if c.Bucketed ∧ bucketOf c.value = b then 1 else 0 := by
    rw [List.map_map]
    exact List.map_congr_left fun c hc => Call.share_buckets (hi.ok c hc) b
  have hcount : (s.calls.countP fun c => c.Bucketed ∧ bucketOf c.value = b) =
      s.bucketed.countP fun c => bucketOf c.value = b := by
    rw [State.bucketed, List.countP_filter]
    apply List.countP_congr
    intro c _
    simp [and_comm]
  rw [hi.hist, Histogram.sum_buckets, hmap, val_sum_ite, hcount]
  exact Nat.mod_eq_of_lt (List.countP_le_length.trans_lt hlen)

/-- A bucket is incremented before the count is. -/
theorem Inv.val_count_le : s.hist.count.val ≤ total (List.ofFn s.hist.buckets) := by
  have hmap : (s.calls.map Call.share).map Histogram.count =
      s.calls.map fun c => if c.Counted then 1 else 0 := by
    rw [List.map_map]
    exact List.map_congr_left fun c hc => Call.share_count (hi.ok c hc)
  rw [total_ofFn (hi.val_buckets hlen), hi.hist, Histogram.sum_count, hmap, val_sum_ite, State.bucketed,
    ← List.countP_eq_length_filter]
  refine (Nat.mod_le _ _).trans (List.countP_mono_left fun c _ hc => ?_)
  simp only [decide_eq_true_eq] at hc ⊢
  exact hc.2

end Counts

section Growth

variable {s s' : State} {a : Action} (hi : Inv s) (hstep : system.step s a = some s')

include hi hstep

/-- The calls with a property that their steps keep become more only. -/
theorem Inv.countP_mono {p : Call → Bool}
    (hp : ∀ {h h' : Histogram} {c c' : Call}, c.Ok h → c.Moves h h' c' → p c = true → p c' = true) :
    s.calls.countP p ≤ s'.calls.countP p := by
  obtain ⟨value, rfl⟩ | rfl | ⟨before, c, after, h', c', hcalls, hmove, rfl⟩ |
    ⟨before, r, after, r', -, -, rfl⟩ := step_cases hstep
  · rw [List.countP_append]
    exact Nat.le_add_right _ _
  · exact le_rfl
  · have hpc := hp (hi.ok c (by simp [hcalls])) hmove
    simp only [hcalls, List.countP_append, List.countP_cons]
    split_ifs with hc hc'
    · exact le_rfl
    · exact absurd (hpc hc) hc'
    · omega
    · exact le_rfl
  · exact le_rfl

theorem Inv.bucketed_length_le : s.bucketed.length ≤ s'.bucketed.length := by
  simp only [State.bucketed, ← List.countP_eq_length_filter]
  refine hi.countP_mono hstep fun hok hmove hb => ?_
  rw [decide_eq_true_iff] at hb ⊢
  exact (hmove.bucketed hok hb).1

/-- The buckets only grow, as long as they do not wrap around. -/
theorem Inv.buckets_mono (hlen : s'.bucketed.length < 2 ^ 64) (b : Fin numBuckets) :
    (s.hist.buckets b).val ≤ (s'.hist.buckets b).val := by
  rw [hi.val_buckets ((hi.bucketed_length_le hstep).trans_lt hlen), (hi.step hstep).val_buckets hlen]
  simp only [State.bucketed, List.countP_filter]
  refine hi.countP_mono hstep fun hok hmove hb => ?_
  rw [Bool.and_eq_true, decide_eq_true_iff, decide_eq_true_iff] at hb ⊢
  obtain ⟨hb', hval⟩ := hmove.bucketed hok hb.2
  exact ⟨hval.trans hb.1, hb'⟩

end Growth

/-- What a reader has loaded is still in the buckets, and with the buckets ahead it makes up the count. -/
structure Reads (h : Histogram) (count : U64) (loaded : List U64) : Prop where
  length_le : loaded.length ≤ numBuckets
  le_take : total loaded ≤ total ((List.ofFn h.buckets).take loaded.length)
  count_le : count.val ≤ total loaded + total ((List.ofFn h.buckets).drop loaded.length)

namespace Reads

variable {h h' : Histogram} {count : U64} {loaded : List U64}

theorem mono (hr : Reads h count loaded) (hle : ∀ b, (h.buckets b).val ≤ (h'.buckets b).val) :
    Reads h' count loaded := by
  refine ⟨hr.length_le, hr.le_take.trans ?_, hr.count_le.trans (Nat.add_le_add_left ?_ _)⟩
  · rw [List.ofFn_eq_map, List.ofFn_eq_map, ← List.map_take, ← List.map_take]
    exact total_map_le hle
  · rw [List.ofFn_eq_map, List.ofFn_eq_map, ← List.map_drop, ← List.map_drop]
    exact total_map_le hle

theorem load (hr : Reads h count loaded) (hlt : loaded.length < numBuckets) :
    Reads h count (loaded ++ [h.buckets ⟨loaded.length, hlt⟩]) := by
  have hlt' : loaded.length < (List.ofFn h.buckets).length := by rwa [List.length_ofFn]
  have hget : (List.ofFn h.buckets)[loaded.length] = h.buckets ⟨loaded.length, hlt⟩ := List.getElem_ofFn _
  have htake := hr.le_take
  have hcount := hr.count_le
  rw [List.drop_eq_getElem_cons hlt', hget, total_cons] at hcount
  constructor
  · simpa using hlt
  · rw [List.length_append, List.length_singleton, List.take_add_one, List.getElem?_eq_getElem hlt', hget,
      Option.toList_some, total_append, total_append]
    omega
  · rw [List.length_append, List.length_singleton, total_append, total_cons, total_nil]
    omega

/-- A reader that has loaded all buckets finds every rank of its count. -/
theorem isSome_findBucket (hr : Reads h count loaded) (hall : loaded.length = numBuckets)
    (hfit : total (List.ofFn h.buckets) < 2 ^ 64) {t : U64} (ht : 1 ≤ t) (hcount : t ≤ count) :
    (findBucket (cumulate 0 0 loaded) t).isSome := by
  have hzero : ((0 : U64) : ℕ) = 0 := rfl
  have htake := hr.le_take
  have hle := hr.count_le
  rw [hall, List.take_of_length_le (by simp)] at htake
  rw [hall, List.drop_of_length_le (by simp), total_nil] at hle
  apply Timing.isSome_findBucket
  · omega
  · exact lt_of_lt_of_le (by decide) ht
  · have := Fin.le_def.1 hcount
    omega

end Reads

/-- What a reader knows at each of its loads. -/
def Reader.Ok (h : Histogram) : Reader → Prop
  | .start => True
  | .loading count loaded => Reads h count loaded
  | .returned count loaded => count ≠ 0 → Reads h count loaded ∧ loaded.length = numBuckets

theorem Reader.Ok.mono {h h' : Histogram} {r : Reader} (hr : r.Ok h)
    (hle : ∀ b, (h.buckets b).val ≤ (h'.buckets b).val) : r.Ok h' := by
  cases r with
  | start => trivial
  | loading count loaded => exact Reads.mono hr hle
  | returned count loaded => exact fun hne => ⟨(hr hne).1.mono hle, (hr hne).2⟩

theorem Reader.Ok.step {h : Histogram} (hcount : h.count.val ≤ total (List.ofFn h.buckets)) {r r' : Reader}
    (hr : r.Ok h) (hstep : r.step h = some r') : r'.Ok h := by
  cases r with
  | start =>
    obtain rfl := Option.some.inj hstep
    split_ifs with hzero
    · exact fun hne => absurd rfl hne
    · exact ⟨Nat.zero_le _, le_rfl, by simpa using hcount⟩
  | loading count loaded =>
    obtain ⟨hlt, hstep⟩ := Option.dite_none_right_eq_some.1 hstep
    obtain rfl := Option.some.inj hstep
    have hload := Reads.load hr hlt
    split_ifs with hall
    · exact fun _ => ⟨hload, hall⟩
    · exact hload
  | returned count loaded => cases hstep

/-- Up to the bound of the counters, all readers are as they should be. -/
theorem readers_ok {s : State} (hs : system.Reachable s) :
    Inv s ∧ (s.bucketed.length < 2 ^ 64 → ∀ r ∈ s.readers, r.Ok s.hist) := by
  refine System.Reachable.invariant
    (I := fun s => Inv s ∧ (s.bucketed.length < 2 ^ 64 → ∀ r ∈ s.readers, r.Ok s.hist)) ?_ ?_ hs
  · rintro s rfl
    exact ⟨⟨rfl, by simp⟩, by simp⟩
  rintro s a s' ⟨hi, hok⟩ hstep
  refine ⟨hi.step hstep, fun hlen => ?_⟩
  have hlen' := (hi.bucketed_length_le hstep).trans_lt hlen
  have hmono := hi.buckets_mono hstep hlen
  have hok := hok hlen'
  have hcount := hi.val_count_le hlen'
  obtain ⟨value, rfl⟩ | rfl | ⟨before, c, after, h', c', -, -, rfl⟩ |
    ⟨before, r, after, r', hreaders, hload, rfl⟩ := step_cases hstep
  · exact hok
  · intro r hr
    rcases List.mem_append.1 hr with hr | hr
    · exact hok r hr
    · rw [List.mem_singleton.1 hr]
      trivial
  · exact fun r hr => (hok r hr).mono hmono
  · rw [hreaders] at hok
    intro e he
    rcases List.mem_append.1 he with he | he
    · exact hok e (by simp [he])
    · rcases List.mem_cons.1 he with rfl | he
      · exact (hok r (by simp)).step hcount hload
      · exact hok e (by simp [he])

/-- Once all calls of `record` have returned, the histogram is that of their samples recorded one after the
other in any order.  As long as fewer than `2 ^ 64` calls have incremented a bucket, a reader that has loaded a
positive count finds a bucket for every rank of it. -/
theorem agrees_of_reachable {s : State} (hs : system.Reachable s) :
    ((∀ c ∈ s.calls, c.pc = .finished) → ∀ samples : List U64, samples.Perm (s.calls.map Call.value) →
      s.hist = new.recordAll samples) ∧
    (s.bucketed.length < 2 ^ 64 → ∀ count loaded, .returned count loaded ∈ s.readers → count ≠ 0 →
      ∀ t, 1 ≤ t → t ≤ count → (findBucket (cumulate 0 0 loaded) t).isSome) := by
  obtain ⟨hi, hok⟩ := readers_ok hs
  refine ⟨fun hfinished samples hperm => hi.hist_eq_recordAll hfinished hperm, ?_⟩
  intro hlen count loaded hmem hne t ht hcount
  obtain ⟨hreads, hall⟩ := hok hlen _ hmem hne
  have hfit : total (List.ofFn s.hist.buckets) < 2 ^ 64 := by
    rw [total_ofFn (hi.val_buckets hlen)]
    exact hlen
  exact hreads.isSome_findBucket hall hfit ht hcount

/-- Two calls of `record` that race for the least and the largest sample, with an exchange that fails for no
reason, and a reader that loads the count between their increments. -/
def race : List Action :=
  [.record 5, .record 3, .percentiles, .step 1, .step 0, .step 0, .load 0, .step 1, .step 0, .step 0, .step 1,
    .step 1, .step 0, .step 1, .fail 1, .step 1, .step 1, .step 0, .step 0, .step 1, .step 1]

/-- After the race the histogram is that of the two samples, and the rank `1` is found. -/
theorem agrees_of_reachable_race : ∃ s : State, ∃ loaded : List U64, system.Reachable s ∧
    s.calls = [⟨5, .finished⟩, ⟨3, .finished⟩] ∧ s.readers = [.returned 1 loaded] ∧
    s.hist = new.recordAll [3, 5] ∧ (findBucket (cumulate 0 0 loaded) 1).isSome := by
  obtain ⟨loaded, hfinal⟩ : ∃ loaded,
      (system.run ⟨new, [], []⟩ (race ++ List.replicate 64 (.load 0))).map (fun s => (s.calls, s.readers)) =
        some ([⟨5, .finished⟩, ⟨3, .finished⟩], [.returned 1 loaded]) :=
    ⟨0 :: 1 :: 1 :: List.replicate 61 0, by decide +kernel⟩
  obtain ⟨s, hrun, hfinal⟩ := Option.map_eq_some_iff.1 hfinal
  obtain ⟨hcalls, hreaders⟩ := Prod.mk.inj hfinal
  have hs : system.Reachable s := System.Reachable.run (.init rfl) hrun
  obtain ⟨hhist, hfound⟩ := agrees_of_reachable hs
  rw [hcalls] at hhist
  refine ⟨s, loaded, hs, hcalls, hreaders, hhist ?_ [3, 5] (.swap 5 3 []), ?_⟩
  · simp
  · refine hfound ?_ 1 loaded (by simp [hreaders]) (by decide) 1 le_rfl le_rfl
    rw [State.bucketed, hcalls]
    decide

/-! ### Calls that run alone -/

section Alone

variable {before after : List Call} {readers : List Reader}

variable (before after readers) in
/-- The call returns if no other call takes a step. -/
def Returns (h : Histogram) (c : Call) : Prop :=
  ∃ h', system.Leads ⟨h, before ++ c :: after, readers⟩
    ⟨h', before ++ ⟨c.value, .finished⟩ :: after, readers⟩

theorem Returns.finished {h : Histogram} {value : U64} :
    Returns before after readers h ⟨value, .finished⟩ := ⟨h, .refl⟩

theorem Returns.step {h h' : Histogram} {value : U64} {pc pc' : Pc}
    (hstep : Call.step h ⟨value, pc⟩ = some (h', ⟨value, pc'⟩))
    (hr : Returns before after readers h' ⟨value, pc'⟩) : Returns before after readers h ⟨value, pc⟩ := by
  obtain ⟨t, ht⟩ := hr
  refine ⟨t, .head (a := .step before.length) ?_ ht⟩
  simp [system, hstep]

/-- An exchange that fails loads the largest sample, and nobody changes it before the next. -/
theorem returns_maxLoop (h : Histogram) (value current : U64) :
    Returns before after readers h ⟨value, .maxLoop current⟩ := by
  have hnow (h : Histogram) : Returns before after readers h ⟨value, .maxLoop h.max⟩ := by
    by_cases hlt : h.max < value
    · exact .step ((if_pos hlt).trans (if_pos rfl)) .finished
    · exact .step (if_neg hlt) .finished
  by_cases heq : h.max = current
  · exact heq ▸ hnow h
  by_cases hlt : current < value
  · exact .step ((if_pos hlt).trans (if_neg heq)) (hnow h)
  · exact .step (if_neg hlt) .finished

theorem returns_minLoop (h : Histogram) (value current : U64) :
    Returns before after readers h ⟨value, .minLoop current⟩ := by
  have hmax (h : Histogram) : Returns before after readers h ⟨value, .maxLoad⟩ :=
    .step rfl (returns_maxLoop h value h.max)
  have hnow (h : Histogram) : Returns before after readers h ⟨value, .minLoop h.min⟩ := by
    by_cases hlt : value < h.min
    · exact .step ((if_pos hlt).trans (if_pos rfl)) (hmax _)
    · exact .step (if_neg hlt) (hmax _)
  by_cases heq : h.min = current
  · exact heq ▸ hnow h
  by_cases hlt : value < current
  · exact .step ((if_pos hlt).trans (if_neg heq)) (hnow h)
  · exact .step (if_neg hlt) (hmax _)

theorem returns (h : Histogram) (c : Call) : Returns before after readers h c := by
  obtain ⟨value, pc⟩ := c
  cases pc with
  | finished => exact .finished
  | maxLoop current => exact returns_maxLoop h value current
  | maxLoad => exact .step rfl (returns_maxLoop _ _ _)
  | minLoop current => exact returns_minLoop h value current
  | minLoad => exact .step rfl (returns_minLoop _ _ _)
  | sum => exact .step rfl (.step rfl (returns_minLoop _ _ _))
  | count => exact .step rfl (.step rfl (.step rfl (returns_minLoop _ _ _)))
  | bucket => exact .step rfl (.step rfl (.step rfl (.step rfl (returns_minLoop _ _ _))))

/-- From every state the calls can return, one after the other. -/
theorem leads_finished (h : Histogram) (before after : List Call) (readers : List Reader) :
    ∃ h', system.Leads ⟨h, before ++ after, readers⟩
      ⟨h', before ++ after.map fun c => ⟨c.value, .finished⟩, readers⟩ := by
  induction after generalizing h before with
  | nil => exact ⟨h, .refl⟩
  | cons c after ih =>
    obtain ⟨h₁, hc⟩ : Returns before after readers h c := returns h c
    obtain ⟨h', hafter⟩ := ih h₁ (before ++ [⟨c.value, .finished⟩])
    rw [← List.append_cons, ← List.append_cons] at hafter
    exact ⟨h', hc.trans hafter⟩

end Alone

theorem Reader.step_take (h : Histogram) (count : U64) {k : ℕ} (hk : k < numBuckets) :
    Reader.step h (.loading count ((List.ofFn h.buckets).take k)) =
      some (if k + 1 = numBuckets then .returned count (List.ofFn h.buckets)
        else .loading count ((List.ofFn h.buckets).take (k + 1))) := by
  have hlen : ((List.ofFn h.buckets).take k).length = k := by
    rw [List.length_take, List.length_ofFn]
    omega
  have hlt : ((List.ofFn h.buckets).take k).length < numBuckets := hlen.trans_lt hk
  have hload : (List.ofFn h.buckets).take k ++ [h.buckets ⟨_, hlt⟩] = (List.ofFn h.buckets).take (k + 1) := by
    rw [List.take_add_one, List.getElem?_ofFn, dif_pos hk, Option.toList_some]
    exact congrArg (fun b => _ ++ [h.buckets b]) (Fin.ext hlen)
  rw [Reader.step, dif_pos hlt]
  simp only [hload]
  by_cases hall : k + 1 = numBuckets
  · rw [if_pos hall, if_pos (by simp [hall]), List.take_of_length_le (by simp [hall])]
  · rw [if_neg hall, if_neg]
    rw [List.length_take, List.length_ofFn]
    omega

/-- A reader that runs alone loads all buckets. -/
theorem leads_returned (h : Histogram) (calls : List Call) (count : U64) {k : ℕ} (hk : k < numBuckets) :
    system.Leads ⟨h, calls, [.loading count ((List.ofFn h.buckets).take k)]⟩
      ⟨h, calls, [.returned count (List.ofFn h.buckets)]⟩ := by
  -- on the number of buckets that are left behind the next one
  obtain ⟨d, hd⟩ := Nat.exists_eq_add_of_lt hk
  induction d generalizing k with
  | zero =>
    have hstep := Reader.step_take h count hk
    rw [if_pos hd.symm] at hstep
    exact .head (a := .load 0) (by simp [system, hstep]) .refl
  | succ d ih =>
    have hstep := Reader.step_take h count hk
    rw [if_neg (by omega)] at hstep
    have hnext := ih (k := k + 1) (by omega) (by omega)
    exact .head (a := .load 0) (by simp [system, hstep]) hnext

/-! ### Beyond the bound of the counters -/

theorem reachable_record {h : Histogram} {samples : List U64} {readers : List Reader} (value : U64)
    (hs : system.Reachable ⟨h, samples.map (Call.mk · .finished), readers⟩) :
    system.Reachable ⟨new.recordAll (samples ++ [value]), (samples ++ [value]).map (Call.mk · .finished),
      readers⟩ := by
  obtain ⟨h', hleads⟩ := leads_finished h (samples.map (Call.mk · .finished)) [.start value] readers
  have hs' : system.Reachable ⟨h', (samples ++ [value]).map (Call.mk · .finished), readers⟩ := by
    rw [List.map_append]
    exact (hs.step (.record value) rfl).leads hleads
  have hhist : h' = new.recordAll (samples ++ [value]) := by
    refine (inv_of_reachable hs').hist_eq_recordAll (fun c hc => ?_) (by simp [Function.comp_def])
    obtain ⟨v, -, rfl⟩ := List.mem_map.1 hc
    rfl
  exact hhist ▸ hs'

theorem reachable_replicate (n : ℕ) : system.Reachable
    ⟨new.recordAll (List.replicate n 1), (List.replicate n 1).map (Call.mk · .finished), []⟩ := by
  induction n with
  | zero => exact .init rfl
  | succ n ih =>
    rw [List.replicate_succ']
    exact reachable_record 1 ih

/-- After `2 ^ 64` samples of one bucket all buckets are zero. -/
theorem buckets_replicate {n : ℕ} (hn : n = 2 ^ 64) :
    (new.recordAll (List.replicate n 1)).buckets = fun _ => 0 := by
  funext b
  apply Fin.ext
  rw [Histogram.val_buckets_recordAll, List.countP_replicate]
  split_ifs
  · rw [hn, Nat.mod_self]
    rfl
  · rw [Nat.zero_mod]
    rfl

/-- A reader that has loaded the count `2 ^ 64 - 1`, when the next sample makes its bucket wrap around, does not
find the rank `1`. -/
theorem not_found_of_wrap : ∃ s count loaded, system.Reachable s ∧ .returned count loaded ∈ s.readers ∧
    count ≠ 0 ∧ findBucket (cumulate 0 0 loaded) 1 = none := by
  obtain ⟨n, hn⟩ : ∃ n, n + 1 = 2 ^ 64 := ⟨2 ^ 64 - 1, by norm_num⟩
  have hcount : (new.recordAll (List.replicate n 1)).count ≠ 0 := by
    intro hzero
    have hval := Histogram.val_count_recordAll (List.replicate n 1)
    rw [hzero, List.countP_replicate, if_pos (by decide)] at hval
    have hz : ((0 : U64) : ℕ) = 0 := rfl
    omega
  generalize hc : (new.recordAll (List.replicate n 1)).count = count at hcount
  have hload : system.Reachable ⟨new.recordAll (List.replicate n 1),
      (List.replicate n 1).map (Call.mk · .finished), [.loading count []]⟩ := by
    refine ((reachable_replicate n).step .percentiles rfl).step (.load 0) ?_
    simp [system, Reader.step, hc, hcount]
  have hwrap := reachable_record 1 hload
  rw [← List.replicate_succ', hn] at hwrap
  have hfinal := hwrap.leads (leads_returned _ _ count (k := 0) (by decide))
  rw [buckets_replicate rfl] at hfinal
  exact ⟨_, count, _, hfinal, List.mem_singleton.2 rfl, hcount, by decide +kernel⟩

end Land.Timing.Concurrent
