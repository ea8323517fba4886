import Mathlib.Algebra.BigOperators.Group.List.Basic
import Mathlib.Algebra.Order.Group.Nat
import Mathlib.Data.BitVec
import Mathlib.Data.Fin.Basic
import Mathlib.Tactic

/-!
# The latency histogram

`Histogram` of `timing/src/histogram.rs`, with the values of its atomics: 64 buckets by the logarithm of the
sample, and the count, the sum, the least and the largest sample.  The counters wrap around as `u64` does.

Histograms add up: two of them merge into that of the samples of both, and the new histogram is the zero of
this.  To record a sample is to add the histogram of that sample alone, so that the order of the samples does
not matter.
-/

namespace Land.Timing

abbrev U64 := Fin (2 ^ 64)

scoped instance u64_neZero : NeZero (2 ^ 64) := ⟨by decide⟩

/-- `NUM_BUCKETS`. -/
def numBuckets : ℕ := 64

/-- `Histogram`. -/
@[ext] structure Histogram where
  buckets : Fin numBuckets → U64
  count : U64
  sum : U64
  min : U64
  max : U64

/-- `u64::leading_zeros`. -/
def leadingZeros (value : U64) : ℕ := (BitVec.ofFin value).clz.toNat

/-- `value_to_bucket`. -/
def valueToBucket (value : U64) : ℕ :=
  if value = 0 then 0 else min (63 - leadingZeros value) (numBuckets - 1)

/-- `bucket_to_value`. -/
def bucketToValue (bucket : ℕ) : U64 :=
  if bucket = 0 then 0 else Fin.ofNat (2 ^ 64) (1 <<< bucket)

theorem valueToBucket_lt (value : U64) : valueToBucket value < numBuckets := by
  unfold valueToBucket numBuckets
  split_ifs <;> omega

/-- The index into `buckets` for a sample. -/
def bucketOf (value : U64) : Fin numBuckets := ⟨valueToBucket value, valueToBucket_lt value⟩

/-! ### Samples and their buckets -/

theorem bucket_bounds {value : U64} (h : value ≠ 0) :
    2 ^ valueToBucket value ≤ value.val ∧ value.val < 2 ^ (valueToBucket value + 1) := by
  have hne : BitVec.ofFin value ≠ 0#64 := by
    intro heq
    exact h (congrArg BitVec.toFin heq)
  have hclz : leadingZeros value < 64 := BitVec.clz_lt_iff_ne_zero.2 hne
  have hbucket : valueToBucket value = 63 - leadingZeros value := by
    rw [valueToBucket, if_neg h, numBuckets]
    omega
  constructor
  · rw [hbucket]
    exact BitVec.two_pow_sub_clz_le_toNat_of_ne_zero (by decide) hne
  · have hexp : valueToBucket value + 1 = 64 - leadingZeros value := by omega
    rw [hexp]
    exact BitVec.toNat_lt_two_pow_sub_clz (x := BitVec.ofFin value)

theorem valueToBucket_mono {v w : U64} (h : v ≤ w) : valueToBucket v ≤ valueToBucket w := by
  rcases eq_or_ne v 0 with rfl | hv
  · rw [valueToBucket, if_pos rfl]
    exact Nat.zero_le _
  have hw : w ≠ 0 := by
    rintro rfl
    exact hv (le_bot_iff.1 h)
  by_contra hlt
  have hpow : 2 ^ (valueToBucket w + 1) ≤ 2 ^ valueToBucket v :=
    Nat.pow_le_pow_right (by decide) (by omega)
  have hlo := (bucket_bounds hv).1
  have hhi := (bucket_bounds hw).2
  have hle : v.val ≤ w.val := h
  omega

theorem val_bucketToValue {bucket : ℕ} (h : bucket < numBuckets) :
    (bucketToValue bucket).val = if bucket = 0 then 0 else 2 ^ bucket := by
  unfold bucketToValue
  split_ifs with hzero
  · rfl
  · rw [Nat.one_shiftLeft, Fin.val_ofNat]
    exact Nat.mod_eq_of_lt (Nat.pow_lt_pow_right (by decide) h)

theorem bucketToValue_mono {b b' : ℕ} (h : b ≤ b') (hb' : b' < numBuckets) :
    bucketToValue b ≤ bucketToValue b' := by
  rw [Fin.le_def, val_bucketToValue (h.trans_lt hb'), val_bucketToValue hb']
  split_ifs with h0 h0'
  · exact le_rfl
  · exact Nat.zero_le _
  · omega
  · exact Nat.pow_le_pow_right (by decide) h

/-- A sample lies between the value of its bucket and twice that; the first bucket, with the value `0`,
holds only the sample `1`. -/
theorem bucketToValue_bracket {value : U64} (h : value ≠ 0) :
    (bucketToValue (valueToBucket value)).val ≤ value.val ∧
      value.val < 2 * max (bucketToValue (valueToBucket value)).val 1 := by
  obtain ⟨hlo, hhi⟩ := bucket_bounds h
  rw [val_bucketToValue (valueToBucket_lt value)]
  split_ifs with hzero
  · rw [hzero] at hhi
    exact ⟨Nat.zero_le _, hhi⟩
  · rw [max_eq_left Nat.one_le_two_pow, ← pow_succ']
    exact ⟨hlo, hhi⟩

/-- A counter wraps around at `2 ^ 64`. -/
theorem val_sum_ite {ι : Type} (p : ι → Prop) [DecidablePred p] (l : List ι) :
    (l.map fun i => if p i then (1 : U64) else 0).sum.val = l.countP p % 2 ^ 64 := by
  induction l with
  | nil => rfl
  | cons i l ih =>
    have hone : ((1 : U64) : ℕ) = 1 := rfl
    rw [List.map_cons, List.sum_cons, Fin.val_add, ih, List.countP_cons]
    by_cases hp : p i
    · simp only [hp, if_true, decide_true, hone]
      omega
    · simp only [hp, if_false, decide_false]
      rw [Fin.val_zero, Nat.zero_add, Nat.mod_mod]
      rfl

namespace Histogram

/-- `Histogram::new`; the least sample of none is `u64::MAX`. -/
def new : Histogram where
  buckets _ := 0
  count := 0
  sum := 0
  min := ⊤
  max := 0

/-- `clear`: every atomic gets a new value, whatever it held. -/
def clear (h : Histogram) : Histogram :=
  { h with buckets := fun _ => 0, count := 0, sum := 0, min := ⊤, max := 0 }

/-- `record`, when no other call runs. -/
def record (h : Histogram) (value : U64) : Histogram :=
  if value = 0 then h
  else
    { buckets := Function.update h.buckets (bucketOf value) (h.buckets (bucketOf value) + 1)
      count := h.count + 1
      sum := h.sum + value
      min := if value < h.min then value else h.min
      max := if h.max < value then value else h.max }

theorem clear_eq_new (h : Histogram) : h.clear = new := rfl

/-! ### Histograms add up -/

instance : Zero Histogram := ⟨new⟩

instance : Add Histogram where
  add h h' :=
    { buckets := h.buckets + h'.buckets
      count := h.count + h'.count
      sum := h.sum + h'.sum
      min := h.min ⊓ h'.min
      max := h.max ⊔ h'.max }

@[simp] theorem add_buckets (h h' : Histogram) (b : Fin numBuckets) :
    (h + h').buckets b = h.buckets b + h'.buckets b := rfl

@[simp] theorem add_count (h h' : Histogram) : (h + h').count = h.count + h'.count := rfl

@[simp] theorem add_sum (h h' : Histogram) : (h + h').sum = h.sum + h'.sum := rfl

@[simp] theorem add_min (h h' : Histogram) : (h + h').min = h.min ⊓ h'.min := rfl

@[simp] theorem add_max (h h' : Histogram) : (h + h').max = h.max ⊔ h'.max := rfl

@[simp] theorem zero_buckets (b : Fin numBuckets) : (0 : Histogram).buckets b = 0 := rfl

@[simp] theorem zero_count : (0 : Histogram).count = 0 := rfl

@[simp] theorem zero_sum : (0 : Histogram).sum = 0 := rfl

@[simp] theorem zero_min : (0 : Histogram).min = ⊤ := rfl

@[simp] theorem zero_max : (0 : Histogram).max = 0 := rfl

instance : AddCommMonoid Histogram where
  nsmul := nsmulRec
  add_assoc h h' h'' := by
    ext1 <;> first | exact add_assoc _ _ _ | exact inf_assoc _ _ _ | exact sup_assoc _ _ _
  zero_add h := by
    ext1 <;> first | exact zero_add _ | exact top_inf_eq _ | exact bot_sup_eq _
  add_zero h := by
    ext1 <;> first | exact add_zero _ | exact inf_top_eq _ | exact sup_bot_eq _
  add_comm h h' := by
    ext1 <;> first | exact add_comm _ _ | exact inf_comm _ _ | exact sup_comm _ _

/-! ### The parts of a record

Each atomic update of a call of `record` adds something that is zero in every other field. -/

/-- The update of the bucket. -/
def ofBucket (value : U64) : Histogram := { new with buckets := Pi.single (bucketOf value) 1 }

/-- The update of the count. -/
def ofCount : Histogram := { new with count := 1 }

/-- The update of the sum. -/
def ofSum (value : U64) : Histogram := { new with sum := value }

/-- What `update_min` does in the end. -/
def ofMin (value : U64) : Histogram := { new with min := value }

/-- What `update_max` does in the end. -/
def ofMax (value : U64) : Histogram := { new with max := value }

theorem add_ofBucket (h : Histogram) (value : U64) : h + ofBucket value =
    { h with buckets := Function.update h.buckets (bucketOf value) (h.buckets (bucketOf value) + 1) } := by
  ext1
  · funext b
    rcases eq_or_ne b (bucketOf value) with rfl | hne
    · simp [ofBucket]
    · simp [ofBucket, hne]
  · exact add_zero _
  · exact add_zero _
  · exact inf_top_eq _
  · exact sup_bot_eq _

theorem add_ofCount (h : Histogram) : h + ofCount = { h with count := h.count + 1 } := by
  ext1
  · exact add_zero _
  · rfl
  · exact add_zero _
  · exact inf_top_eq _
  · exact sup_bot_eq _

theorem add_ofSum (h : Histogram) (value : U64) :
    h + ofSum value = { h with sum := h.sum + value } := by
  ext1
  · exact add_zero _
  · exact add_zero _
  · rfl
  · exact inf_top_eq _
  · exact sup_bot_eq _

theorem add_ofMin (h : Histogram) (value : U64) :
    h + ofMin value = { h with min := if value < h.min then value else h.min } := by
  ext1
  · exact add_zero _
  · exact add_zero _
  · exact add_zero _
  · show h.min ⊓ value = if value < h.min then value else h.min
    split_ifs with hlt
    · exact inf_eq_right.2 hlt.le
    · exact inf_eq_left.2 (not_lt.1 hlt)
  · exact sup_bot_eq _

theorem add_ofMax (h : Histogram) (value : U64) :
    h + ofMax value = { h with max := if h.max < value then value else h.max } := by
  ext1
  · exact add_zero _
  · exact add_zero _
  · exact add_zero _
  · exact inf_top_eq _
  · show h.max ⊔ value = if h.max < value then value else h.max
    split_ifs with hlt
    · exact sup_eq_right.2 hlt.le
    · exact sup_eq_left.2 (not_lt.1 hlt)

@[simp] theorem ofBucket_buckets (value : U64) (b : Fin numBuckets) :
    (ofBucket value).buckets b = if bucketOf value = b then 1 else 0 := by
  simp [ofBucket, Pi.single_apply, eq_comm]

@[simp] theorem ofBucket_count (value : U64) : (ofBucket value).count = 0 := rfl

@[simp] theorem ofCount_buckets (b : Fin numBuckets) : ofCount.buckets b = 0 := rfl

@[simp] theorem ofCount_count : ofCount.count = 1 := rfl

@[simp] theorem ofSum_buckets (value : U64) (b : Fin numBuckets) : (ofSum value).buckets b = 0 := rfl

@[simp] theorem ofSum_count (value : U64) : (ofSum value).count = 0 := rfl

@[simp] theorem ofMin_buckets (value : U64) (b : Fin numBuckets) : (ofMin value).buckets b = 0 := rfl

@[simp] theorem ofMin_count (value : U64) : (ofMin value).count = 0 := rfl

@[simp] theorem ofMax_buckets (value : U64) (b : Fin numBuckets) : (ofMax value).buckets b = 0 := rfl

@[simp] theorem ofMax_count (value : U64) : (ofMax value).count = 0 := rfl

/-- The histogram of one sample; a zero is not recorded. -/
def single (value : U64) : Histogram :=
  if value = 0 then 0 else ofBucket value + ofCount + ofSum value + ofMin value + ofMax value

theorem record_eq (h : Histogram) (value : U64) : h.record value = h + single value := by
  rcases eq_or_ne value 0 with rfl | hne
  · rw [record, if_pos rfl, single, if_pos rfl, add_zero]
  · rw [record, if_neg hne, single, if_neg hne, ← add_assoc, ← add_assoc, ← add_assoc, ← add_assoc,
      add_ofBucket, add_ofCount, add_ofSum, add_ofMin, add_ofMax]

/-- Samples recorded one after the other. -/
def recordAll (h : Histogram) (samples : List U64) : Histogram := samples.foldl record h

theorem recordAll_eq (h : Histogram) (samples : List U64) :
    h.recordAll samples = h + (samples.map single).sum := by
  unfold recordAll
  induction samples generalizing h with
  | nil => exact (add_zero h).symm
  | cons value samples ih => rw [List.foldl_cons, ih, record_eq, List.map_cons, List.sum_cons, add_assoc]

/-! ### Counting the samples -/

theorem sum_buckets (l : List Histogram) (b : Fin numBuckets) :
    l.sum.buckets b = (l.map fun h => h.buckets b).sum := by
  induction l with
  | nil => rfl
  | cons h l ih => rw [List.sum_cons, add_buckets, ih, List.map_cons, List.sum_cons]

theorem sum_count (l : List Histogram) : l.sum.count = (l.map count).sum := by
  induction l with
  | nil => rfl
  | cons h l ih => rw [List.sum_cons, add_count, ih, List.map_cons, List.sum_cons]

theorem single_buckets (value : U64) (b : Fin numBuckets) :
    (single value).buckets b = if value ≠ 0 ∧ bucketOf value = b then 1 else 0 := by
  rcases eq_or_ne value 0 with rfl | hne
  · simp [single]
  · simp [single, hne]

theorem single_count (value : U64) : (single value).count = if value ≠ 0 then 1 else 0 := by
  rcases eq_or_ne value 0 with rfl | hne
  · simp [single]
  · simp [single, hne]

theorem val_buckets_recordAll (samples : List U64) (b : Fin numBuckets) :
    ((new.recordAll samples).buckets b).val =
      (samples.countP fun value => value ≠ 0 ∧ bucketOf value = b) % 2 ^ 64 := by
  rw [recordAll_eq, add_buckets, sum_buckets, List.map_map]
  show (0 + _ : U64).val = _
  rw [zero_add]
  simp only [Function.comp_def, single_buckets]
  exact val_sum_ite _ samples

theorem val_count_recordAll (samples : List U64) :
    (new.recordAll samples).count.val = (samples.countP fun value => value ≠ 0) % 2 ^ 64 := by
  rw [recordAll_eq, add_count, sum_count, List.map_map]
  show (0 + _ : U64).val = _
  rw [zero_add]
  simp only [Function.comp_def, single_count]
  exact val_sum_ite _ samples

end Histogram

end Land.Timing
