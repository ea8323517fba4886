import Land.Lib.Rank
import Land.Timing.Histogram

/-!
# Percentiles

`Histogram::percentiles` loads the bucket counts, adds them up and returns for each percentile the value of
the first bucket at which the cumulative count reaches its rank.  For samples recorded into an empty
histogram that is the bucket of the sample of this rank, so that the value is at most the sample and more
than half of it.
-/

namespace Land.Timing

open Rank (orderStatistic)

/-- What `(count as f64 * p / 100.0) as u64` is for each count; the floating-point arithmetic of a
percentile `p` is not modelled. -/
abbrev Percentile := U64 → U64

/-- The rank of a percentile. -/
def Percentile.target (p : Percentile) (count : U64) : U64 := max (p count) 1

/-- The bucket values with the cumulative counts, of the loaded counts from bucket `i` on. -/
def cumulate (i : ℕ) (cumulative : U64) : List U64 → List (U64 × U64)
  | [] => []
  | bucketCount :: rest =>
      (bucketToValue i, cumulative + bucketCount) :: cumulate (i + 1) (cumulative + bucketCount) rest

/-- The search for the bucket that contains the target. -/
def findBucket (buckets : List (U64 × U64)) (target : U64) : Option U64 :=
  (buckets.find? fun bucket => target ≤ bucket.2).map Prod.fst

/-- The value for a target, `0` if no bucket is found. -/
def scan (loaded : List U64) (target : U64) : U64 := (findBucket (cumulate 0 0 loaded) target).getD 0

/-- `percentiles`, from the count and the bucket counts that it loads. -/
def percentilesOf (count : U64) (loaded : List U64) (percentiles : List Percentile) : List U64 :=
  if count = 0 then List.replicate percentiles.length 0
  else percentiles.map fun p => scan loaded (p.target count)

namespace Histogram

/-- The value that the scan of `percentiles` returns for a target, when no other call runs. -/
def valueAt (h : Histogram) (target : U64) : U64 := scan (List.ofFn h.buckets) target

/-- `percentiles`, when no other call runs. -/
def percentiles (h : Histogram) (percentiles : List Percentile) : List U64 :=
  percentilesOf h.count (List.ofFn h.buckets) percentiles

end Histogram

/-! ### The search over any loaded counts -/

/-- The number of samples in some buckets. -/
def total (loaded : List U64) : ℕ := (loaded.map Fin.val).sum

@[simp] theorem total_nil : total [] = 0 := rfl

@[simp] theorem total_cons (c : U64) (loaded : List U64) : total (c :: loaded) = c.val + total loaded := by
  rw [total, List.map_cons, List.sum_cons, total]

@[simp] theorem total_append (loaded loaded' : List U64) :
    total (loaded ++ loaded') = total loaded + total loaded' := by
  rw [total, List.map_append, List.sum_append, total, total]

theorem total_map_le {l : List (Fin numBuckets)} {f g : Fin numBuckets → U64}
    (h : ∀ b, (f b).val ≤ (g b).val) : total (l.map f) ≤ total (l.map g) := by
  unfold total
  rw [List.map_map, List.map_map]
  exact List.sum_le_sum fun b _ => h b

/-- Where each bucket counts the entries of a list that belong to it, the first `k` buckets count those that
belong below `k`. -/
theorem total_take_ofFn {ι : Type} {l : List ι} {f : ι → Fin numBuckets} {buckets : Fin numBuckets → U64}
    (h : ∀ b, (buckets b).val = l.countP fun i => f i = b) {k : ℕ} (hk : k ≤ numBuckets) :
    total ((List.ofFn buckets).take k) = l.countP fun i => (f i).val < k := by
  induction k with
  | zero => simp
  | succ k ih =>
    have hget : (List.ofFn buckets)[k]? = some (buckets ⟨k, hk⟩) := by
      rw [List.getElem?_ofFn, dif_pos (Nat.lt_of_succ_le hk)]
    rw [List.take_add_one, hget, Option.toList_some, total_append, ih (by omega), total_cons, total_nil, h,
      Nat.add_zero, Rank.countP_lt_succ]
    simp only [Fin.ext_iff]

theorem total_ofFn {ι : Type} {l : List ι} {f : ι → Fin numBuckets} {buckets : Fin numBuckets → U64}
    (h : ∀ b, (buckets b).val = l.countP fun i => f i = b) : total (List.ofFn buckets) = l.length := by
  have hall := total_take_ofFn h le_rfl
  rw [List.take_of_length_le (by simp)] at hall
  rw [hall, List.countP_eq_length]
  simp

theorem findBucket_cons (b : U64 × U64) (buckets : List (U64 × U64)) (target : U64) :
    findBucket (b :: buckets) target = if target ≤ b.2 then some b.1 else findBucket buckets target := by
  unfold findBucket
  rw [List.find?_cons]
  split_ifs with h
  · simp [h]
  · simp [h]

section Search

variable {loaded : List U64} {i : ℕ} {cumulative target : U64}
  (hfit : cumulative.val + total loaded < 2 ^ 64)

include hfit

/-- The search finds the first bucket at which the counts add up to the target. -/
theorem findBucket_cumulate {k : ℕ} (hk : k < loaded.length)
    (hlo : cumulative.val + total (loaded.take k) < target.val)
    (hhi : target.val ≤ cumulative.val + total (loaded.take (k + 1))) :
    findBucket (cumulate i cumulative loaded) target = some (bucketToValue (i + k)) := by
  induction loaded generalizing i cumulative k with
  | nil => cases hk
  | cons c rest ih =>
    rw [total_cons] at hfit
    have hadd : (cumulative + c).val = cumulative.val + c.val := by
      rw [Fin.val_add]
      exact Nat.mod_eq_of_lt (by omega)
    rw [cumulate, findBucket_cons]
    cases k with
    | zero =>
      rw [List.take_succ_cons, List.take_zero, total_cons, total_nil] at hhi
      exact if_pos (show target ≤ cumulative + c from Fin.le_def.2 (by omega))
    | succ k =>
      rw [List.take_succ_cons, total_cons] at hlo hhi
      have hlt : ¬ target ≤ cumulative + c := by
        rw [Fin.le_def]
        omega
      rw [if_neg hlt, ih (by omega) (by simpa using hk) (by omega) (by omega), Nat.add_right_comm,
        Nat.add_assoc]

/-- A target that the counts reach is found. -/
theorem isSome_findBucket (hlo : cumulative < target)
    (hhi : target.val ≤ cumulative.val + total loaded) :
    (findBucket (cumulate i cumulative loaded) target).isSome := by
  induction loaded generalizing i cumulative with
  | nil =>
    have := Fin.lt_def.1 hlo
    rw [total_nil] at hhi
    omega
  | cons c rest ih =>
    rw [total_cons] at hfit hhi
    have hadd : (cumulative + c).val = cumulative.val + c.val := by
      rw [Fin.val_add]
      exact Nat.mod_eq_of_lt (by omega)
    rw [cumulate, findBucket_cons]
    split_ifs with hfound
    · rfl
    · exact ih (by omega) (not_le.1 hfound) (by omega)

end Search

/-! ### Recorded samples -/

namespace Histogram

/-- Zeros are not recorded. -/
theorem recordAll_filter (h : Histogram) (samples : List U64) :
    h.recordAll (samples.filter (· ≠ 0)) = h.recordAll samples := by
  unfold recordAll
  induction samples generalizing h with
  | nil => rfl
  | cons value samples ih =>
    rcases eq_or_ne value 0 with rfl | hne
    · rw [List.filter_cons_of_neg (by simp), ih, List.foldl_cons, record, if_pos rfl]
    · rw [List.filter_cons_of_pos (by simpa using hne), List.foldl_cons, List.foldl_cons, ih]

section Samples

variable {samples : List U64} (hpos : ∀ x ∈ samples, x ≠ 0) (hlen : samples.length < 2 ^ 64)

include hpos hlen

theorem val_count_of_pos : (new.recordAll samples).count.val = samples.length := by
  have hall : (samples.countP fun value => value ≠ 0) = samples.length := by
    rw [List.countP_eq_length]
    simpa using hpos
  rw [val_count_recordAll, hall]
  exact Nat.mod_eq_of_lt hlen

theorem val_buckets_of_pos (b : Fin numBuckets) :
    ((new.recordAll samples).buckets b).val = samples.countP fun value => bucketOf value = b := by
  have hcongr : (samples.countP fun value => value ≠ 0 ∧ bucketOf value = b) =
      samples.countP fun value => bucketOf value = b := by
    apply List.countP_congr
    intro value hvalue
    simp [hpos value hvalue]
  rw [val_buckets_recordAll, hcongr]
  exact Nat.mod_eq_of_lt (List.countP_le_length.trans_lt hlen)

/-- The scan returns the value of the bucket with the sample of that rank. -/
theorem valueAt_recordAll {t x : U64} (ht : 1 ≤ t) (hx : orderStatistic samples t = some x) :
    (new.recordAll samples).valueAt t = bucketToValue (valueToBucket x) := by
  have hbucket := valueToBucket_lt x
  have hcount (k : ℕ) : valueToBucket x < k ↔
      t.val ≤ samples.countP fun value => valueToBucket value < k := by
    rw [← Rank.orderStatistic_iff (Fin.le_def.1 ht) hx, decide_eq_true_iff]
    intro a b hab hb
    rw [decide_eq_true_iff] at hb ⊢
    exact (valueToBucket_mono hab).trans_lt hb
  have htotal (k : ℕ) (hk : k ≤ numBuckets) :
      total ((List.ofFn (new.recordAll samples).buckets).take k) =
        samples.countP fun value => valueToBucket value < k :=
    total_take_ofFn (val_buckets_of_pos hpos hlen) hk
  have hfit : total (List.ofFn (new.recordAll samples).buckets) < 2 ^ 64 := by
    rw [total_ofFn (val_buckets_of_pos hpos hlen)]
    exact hlen
  have hzero : ((0 : U64) : ℕ) = 0 := rfl
  rw [valueAt, scan, findBucket_cumulate (k := valueToBucket x), Option.getD_some, Nat.zero_add]
  · rw [hzero, Nat.zero_add]
    exact hfit
  · rw [List.length_ofFn]
    exact hbucket
  · rw [hzero, Nat.zero_add, htotal _ hbucket.le, ← not_le, ← hcount]
    exact lt_irrefl _
  · rw [hzero, Nat.zero_add, htotal _ hbucket, ← hcount]
    exact Nat.lt_succ_self _

end Samples

end Histogram

open Histogram (new)

/-- For samples recorded since the histogram was created or cleared, the value for a rank is at most the
sample of that rank and more than half of it, and it does not go down with the rank. -/
theorem valueAt_bracket {h₀ : Histogram} (hempty : h₀ = new ∨ ∃ h : Histogram, h₀ = h.clear)
    {samples : List U64} (hpos : ∀ x ∈ samples, x ≠ 0) (hlen : samples.length < 2 ^ 64) {t : U64}
    (ht : 1 ≤ t) (hcount : t ≤ (h₀.recordAll samples).count) :
    (∃ x : U64, orderStatistic samples t = some x ∧
      ((h₀.recordAll samples).valueAt t).val ≤ x.val ∧
      x.val < 2 * max ((h₀.recordAll samples).valueAt t).val 1) ∧
    ∀ t', t ≤ t' → t' ≤ (h₀.recordAll samples).count →
      (h₀.recordAll samples).valueAt t ≤ (h₀.recordAll samples).valueAt t' := by
  obtain rfl : h₀ = new := by
    rcases hempty with rfl | ⟨h, rfl⟩
    · rfl
    · exact Histogram.clear_eq_new h
  have hstat {t : U64} (ht : 1 ≤ t) (hcount : t ≤ (new.recordAll samples).count) :
      ∃ x, orderStatistic samples t = some x := by
    apply Rank.exists_orderStatistic (Fin.le_def.1 ht)
    rw [← Histogram.val_count_of_pos hpos hlen]
    exact hcount
  have hvalue {t x : U64} (ht : 1 ≤ t) (hx : orderStatistic samples t = some x) :=
    Histogram.valueAt_recordAll hpos hlen ht hx
  obtain ⟨x, hx⟩ := hstat ht hcount
  refine ⟨⟨x, hx, ?_⟩, fun t' htt hcount' => ?_⟩
  · rw [hvalue ht hx]
    exact bucketToValue_bracket (hpos x (Rank.mem_of_orderStatistic hx))
  · obtain ⟨x', hx'⟩ := hstat (ht.trans htt) hcount'
    rw [hvalue ht hx, hvalue (ht.trans htt) hx']
    exact bucketToValue_mono (valueToBucket_mono (Rank.orderStatistic_mono htt hx hx')) (valueToBucket_lt x')

/-- The second of three samples. -/
theorem valueAt_bracket_second :
    (new.recordAll [700, 1, 3]).valueAt 2 = 2 ∧ ∃ x : U64, orderStatistic [700, 1, 3] 2 = some x ∧
      2 ≤ x.val ∧ x.val < 4 := by
  have hvalue : (new.recordAll [700, 1, 3]).valueAt 2 = 2 := by decide +kernel
  have hpos : ∀ x ∈ ([700, 1, 3] : List U64), x ≠ 0 := by simp
  have hbracket := (valueAt_bracket (.inl rfl) hpos (by decide) (t := 2) (by decide)
    (by decide +kernel)).1
  rw [hvalue] at hbracket
  exact ⟨hvalue, hbracket⟩

end Land.Timing
