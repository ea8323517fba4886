import Mathlib.Tactic

/-!
# Sequenced rings

A bounded buffer whose cells are addressed by ever-growing sequence numbers: producers claim
sequences, put a value in the cell of a sequence they claimed, and publish it; one consumer takes
the published sequences in order and releases their cells for the next lap.  `SeqRing` records the
whole history of such a buffer: who claimed each sequence, what its claimant left in the cell, which
sequences are published, what the consumer took and how far it released.

`SeqRing.Step` gives the moves with their side conditions (`some i` is producer `i`, `none` the
consumer).  `Valid` is the invariant of every history, and `Valid.delivery` its consequence: the
`n`-th value taken is the one the claimant of sequence `n` left.  The `Step` lemmas say what a
producer may rely on while others move.
-/

namespace Land

/-- The history of a bounded buffer addressed by sequence numbers. -/
structure SeqRing (ι α : Type) where
  /-- the sequences below `claims` have been claimed -/
  claims : ℕ
  claimant : ℕ → Option ι
  /-- who last set what the cell of a sequence is to deliver -/
  author : ℕ → Option ι
  contents : ℕ → α
  published : ℕ → Bool
  slots : ℕ → α
  taken : List α
  /-- the cells of the sequences below `released` may be claimed again -/
  released : ℕ

namespace SeqRing

variable {ι α : Type}

/-- An unused ring over the given cells. -/
def start (slots : ℕ → α) : SeqRing ι α where
  claims := 0
  claimant := fun _ => none
  author := fun _ => none
  contents := fun _ => slots 0
  published := fun _ => false
  slots := slots
  taken := []
  released := 0

/-- Producer `i` claims the next `k` sequences. -/
def claim (R : SeqRing ι α) (i : ι) (k : ℕ) : SeqRing ι α :=
  { R with
    claims := R.claims + k
    claimant := fun s => if R.claims ≤ s ∧ s < R.claims + k then some i else R.claimant s }

/-- Producer `i` adopts the present contents of the cells of `[a, a + k)`. -/
def acquire (R : SeqRing ι α) (cap : ℕ) (i : ι) (a k : ℕ) : SeqRing ι α :=
  { R with
    author := fun s => if a ≤ s ∧ s < a + k then some i else R.author s
    contents := fun s => if a ≤ s ∧ s < a + k then R.slots (s % cap) else R.contents s }

/-- Producer `i` writes `v` into the cell of sequence `s`. -/
def write (R : SeqRing ι α) (cap : ℕ) (i : ι) (s : ℕ) (v : α) : SeqRing ι α :=
  { R with
    author := Function.update R.author s (some i)
    contents := Function.update R.contents s v
    slots := Function.update R.slots (s % cap) v }

/-- The sequences `[a, a + k)` are published. -/
def publish (R : SeqRing ι α) (a k : ℕ) : SeqRing ι α :=
  { R with published := fun s => R.published s || decide (a ≤ s ∧ s < a + k) }

/-- The consumer takes the value `v`. -/
def take (R : SeqRing ι α) (v : α) : SeqRing ι α := { R with taken := R.taken ++ [v] }

/-- The consumer releases every cell below `r`. -/
def release (R : SeqRing ι α) (r : ℕ) : SeqRing ι α := { R with released := r }

/-- Producer `i` has claimed `s` and not published it. -/
def Claimed (R : SeqRing ι α) (i : ι) (s : ℕ) : Prop :=
  R.claimant s = some i ∧ R.published s = false

/-- Producer `i` has claimed `s`, the cell is free, and holds what `i` is to deliver. -/
structure Acquired (R : SeqRing ι α) (cap : ℕ) (i : ι) (s : ℕ) : Prop where
  claimed : R.Claimed i s
  room : s < R.released + cap
  author : R.author s = some i
  slot : R.slots (s % cap) = R.contents s

/-- The moves of the producers and of the consumer. -/
inductive Step (cap : ℕ) : Option ι → SeqRing ι α → SeqRing ι α → Prop
  | stutter {R : SeqRing ι α} (o : Option ι) : Step cap o R R
  | claim {R : SeqRing ι α} (i : ι) (k : ℕ) : Step cap (some i) R (R.claim i k)
  | acquire {R : SeqRing ι α} (i : ι) (a k : ℕ) (h : ∀ s, a ≤ s → s < a + k → R.Claimed i s) :
      Step cap (some i) R (R.acquire cap i a k)
  | write {R : SeqRing ι α} (i : ι) (s : ℕ) (v : α) (h : R.Claimed i s)
      (room : s < R.released + cap) : Step cap (some i) R (R.write cap i s v)
  | publish {R : SeqRing ι α} (i : ι) (a k : ℕ)
      (h : ∀ s, a ≤ s → s < a + k → R.Acquired cap i s) : Step cap (some i) R (R.publish a k)
  | take {R : SeqRing ι α} (v : α) (h : R.published R.taken.length = true)
      (hv : v = R.slots (R.taken.length % cap)) : Step cap none R (R.take v)
  | release {R : SeqRing ι α} (r : ℕ) (h : R.released ≤ r) (h' : r ≤ R.taken.length) :
      Step cap none R (R.release r)

/-- What holds of every history. -/
structure Valid (R : SeqRing ι α) (cap : ℕ) : Prop where
  released_le : R.released ≤ R.taken.length
  taken_published : ∀ s, s < R.taken.length → R.published s = true
  claimant_isSome : ∀ s, (R.claimant s).isSome = true ↔ s < R.claims
  published_lt : ∀ s, R.published s = true → s < R.claims
  published_room : ∀ s, R.published s = true → s < R.released + cap
  published_author : ∀ s, R.published s = true → R.author s = R.claimant s
  published_slot : ∀ s, R.published s = true → R.released ≤ s → R.slots (s % cap) = R.contents s
  taken_contents : ∀ (n : ℕ) (v : α), R.taken[n]? = some v → v = R.contents n

/-! ## Windows -/

/-- Two sequences of one lap-long window that share a cell are equal. -/
theorem eq_of_mod_eq {cap a s t : ℕ} (hs : a ≤ s) (hs' : s < a + cap) (ht : a ≤ t)
    (ht' : t < a + cap) (h : s % cap = t % cap) : s = t := by
  rcases Nat.lt_trichotomy s t with hlt | rfl | hlt
  · have hd : cap ∣ t - s := (Nat.modEq_iff_dvd' hlt.le).1 h
    have := Nat.le_of_dvd (by omega) hd
    omega
  · rfl
  · have hd : cap ∣ s - t := (Nat.modEq_iff_dvd' hlt.le).1 h.symm
    have := Nat.le_of_dvd (by omega) hd
    omega

/-- A claimed and unpublished sequence is not released yet. -/
theorem Valid.taken_le_of_unpublished {R : SeqRing ι α} {cap : ℕ} (hv : R.Valid cap) {s : ℕ}
    (h : R.published s = false) : R.taken.length ≤ s := by
  by_contra hlt
  rw [hv.taken_published s (by omega)] at h
  exact absurd h (by decide)

/-- Only claimed sequences are released. -/
theorem Valid.released_le_claims {R : SeqRing ι α} {cap : ℕ} (hv : R.Valid cap) :
    R.released ≤ R.claims := by
  have hnext : R.published R.claims = false := by
    by_contra hp
    exact lt_irrefl _ (hv.published_lt _ (Bool.not_eq_false _ ▸ hp))
  exact hv.released_le.trans (hv.taken_le_of_unpublished hnext)

/-- No published sequence that is still to be released shares a cell with an unpublished one. -/
theorem Valid.mod_ne {R : SeqRing ι α} {cap : ℕ} (hv : R.Valid cap) {s t : ℕ}
    (hs : R.published s = false) (room : s < R.released + cap) (ht : R.published t = true)
    (ht' : R.released ≤ t) : t % cap ≠ s % cap := by
  intro h
  have hle := hv.taken_le_of_unpublished hs
  have := hv.released_le
  have := eq_of_mod_eq ht' (hv.published_room t ht) (by omega) room h
  subst this
  rw [hs] at ht
  exact absurd ht (by decide)

/-! ## The invariant -/

theorem valid_start (slots : ℕ → α) (cap : ℕ) : (start (ι := ι) slots).Valid cap where
  released_le := le_rfl
  taken_published := fun _ h => absurd h (Nat.not_lt_zero _)
  claimant_isSome := fun s => by simp [start]
  published_lt := fun _ h => absurd h (by simp [start])
  published_room := fun _ h => absurd h (by simp [start])
  published_author := fun _ h => absurd h (by simp [start])
  published_slot := fun _ h => absurd h (by simp [start])
  taken_contents := fun n v h => by simp [start] at h

theorem Valid.claim {R : SeqRing ι α} {cap : ℕ} (hv : R.Valid cap) (i : ι) (k : ℕ) :
    (R.claim i k).Valid cap where
  released_le := hv.released_le
  taken_published := hv.taken_published
  claimant_isSome := fun s => by
    have := hv.claimant_isSome s
    simp only [SeqRing.claim]
    split_ifs with h
    · simp only [Option.isSome_some, true_iff]
      omega
    · rw [this]
      omega
  published_lt := fun s h => Nat.lt_add_right k (hv.published_lt s h)
  published_room := hv.published_room
  published_author := fun s h => by
    have := hv.published_lt s h
    simp only [SeqRing.claim]
    rw [if_neg (by omega)]
    exact hv.published_author s h
  published_slot := hv.published_slot
  taken_contents := hv.taken_contents

theorem Valid.acquire {R : SeqRing ι α} {cap : ℕ} (hv : R.Valid cap) {i : ι} {a k : ℕ}
    (h : ∀ s, a ≤ s → s < a + k → R.Claimed i s) : (R.acquire cap i a k).Valid cap := by
  have out : ∀ s, R.published s = true → ¬ (a ≤ s ∧ s < a + k) := by
    rintro s hs ⟨h1, h2⟩
    rw [(h s h1 h2).2] at hs
    exact absurd hs (by decide)
  refine ⟨hv.released_le, hv.taken_published, hv.claimant_isSome, hv.published_lt,
    hv.published_room, ?_, ?_, ?_⟩
  · intro s hs
    simp only [SeqRing.acquire]
    rw [if_neg (out s hs)]
    exact hv.published_author s hs
  · intro s hs hr
    simp only [SeqRing.acquire]
    rw [if_neg (out s hs)]
    exact hv.published_slot s hs hr
  · intro n v hn
    simp only [SeqRing.acquire] at hn ⊢
    rw [if_neg (out n (hv.taken_published n (List.getElem?_eq_some_iff.1 hn).1))]
    exact hv.taken_contents n v hn

theorem Valid.write {R : SeqRing ι α} {cap : ℕ} (hv : R.Valid cap) {i : ι} {s : ℕ} (v : α)
    (h : R.Claimed i s) (room : s < R.released + cap) : (R.write cap i s v).Valid cap := by
  have hne : ∀ t, R.published t = true → t ≠ s := by
    rintro t ht rfl
    rw [h.2] at ht
    exact absurd ht (by decide)
  refine ⟨hv.released_le, hv.taken_published, hv.claimant_isSome, hv.published_lt,
    hv.published_room, ?_, ?_, ?_⟩
  · intro t ht
    simp only [SeqRing.write]
    rw [Function.update_of_ne (hne t ht)]
    exact hv.published_author t ht
  · intro t ht hr
    simp only [SeqRing.write]
    rw [Function.update_of_ne (hv.mod_ne h.2 room ht hr), Function.update_of_ne (hne t ht)]
    exact hv.published_slot t ht hr
  · intro n w hn
    simp only [SeqRing.write] at hn ⊢
    rw [Function.update_of_ne (hne n (hv.taken_published n (List.getElem?_eq_some_iff.1 hn).1))]
    exact hv.taken_contents n w hn

theorem Valid.publish {R : SeqRing ι α} {cap : ℕ} (hv : R.Valid cap) {i : ι} {a k : ℕ}
    (h : ∀ s, a ≤ s → s < a + k → R.Acquired cap i s) : (R.publish a k).Valid cap := by
  have split : ∀ s, (R.publish a k).published s = true →
      R.published s = true ∨ R.Acquired cap i s := by
    intro s hs
    simp only [SeqRing.publish, Bool.or_eq_true, decide_eq_true_eq] at hs
    exact hs.imp_right fun hs => h s hs.1 hs.2
  refine ⟨hv.released_le, ?_, hv.claimant_isSome, ?_, ?_, ?_, ?_, hv.taken_contents⟩
  · intro s hs
    simp only [SeqRing.publish, Bool.or_eq_true]
    exact Or.inl (hv.taken_published s hs)
  · intro s hs
    rcases split s hs with hp | hq
    · exact hv.published_lt s hp
    · exact (hv.claimant_isSome s).1 (by rw [hq.claimed.1]; rfl)
  · intro s hs
    rcases split s hs with hp | hq
    · exact hv.published_room s hp
    · exact hq.room
  · intro s hs
    rcases split s hs with hp | hq
    · exact hv.published_author s hp
    · exact hq.author.trans hq.claimed.1.symm
  · intro s hs hr
    rcases split s hs with hp | hq
    · exact hv.published_slot s hp hr
    · exact hq.slot

theorem Valid.take {R : SeqRing ι α} {cap : ℕ} (hv : R.Valid cap) {w : α}
    (h : R.published R.taken.length = true) (hw : w = R.slots (R.taken.length % cap)) :
    (R.take w).Valid cap where
  released_le := by
    have := hv.released_le
    simp only [SeqRing.take, List.length_append, List.length_singleton]
    omega
  taken_published := fun s hs => by
    simp only [SeqRing.take, List.length_append, List.length_singleton] at hs ⊢
    rcases Nat.lt_or_eq_of_le (Nat.le_of_lt_succ hs) with hlt | rfl
    · exact hv.taken_published s hlt
    · exact h
  claimant_isSome := hv.claimant_isSome
  published_lt := hv.published_lt
  published_room := hv.published_room
  published_author := hv.published_author
  published_slot := hv.published_slot
  taken_contents := fun n v hn => by
    simp only [SeqRing.take] at hn ⊢
    rcases Nat.lt_or_ge n R.taken.length with hlt | hge
    · rw [List.getElem?_append_left hlt] at hn
      exact hv.taken_contents n v hn
    · have hn' := (List.getElem?_eq_some_iff.1 hn).1
      simp only [List.length_append, List.length_singleton] at hn'
      obtain rfl : n = R.taken.length := by omega
      simp only [List.getElem?_append_right le_rfl, Nat.sub_self, List.getElem?_cons_zero,
        Option.some.injEq] at hn
      rw [← hn, hw]
      exact hv.published_slot _ h hv.released_le

theorem Valid.release {R : SeqRing ι α} {cap : ℕ} (hv : R.Valid cap) {r : ℕ} (h : R.released ≤ r)
    (h' : r ≤ R.taken.length) : (R.release r).Valid cap where
  released_le := h'
  taken_published := hv.taken_published
  claimant_isSome := hv.claimant_isSome
  published_lt := hv.published_lt
  published_room := fun s hs => by
    have := hv.published_room s hs
    simp only [SeqRing.release]
    omega
  published_author := hv.published_author
  published_slot := fun s hs hr => hv.published_slot s hs (le_trans h hr)
  taken_contents := hv.taken_contents

/-- Every move keeps the invariant. -/
theorem Valid.step {R R' : SeqRing ι α} {cap : ℕ} {o : Option ι} (hv : R.Valid cap)
    (h : Step cap o R R') : R'.Valid cap := by
  cases h with
  | stutter => exact hv
  | claim i k => exact hv.claim i k
  | acquire i a k h => exact hv.acquire h
  | write i s v h room => exact hv.write v h room
  | publish i a k h => exact hv.publish h
  | take v h hv' => exact hv.take h hv'
  | release r h h' => exact hv.release h h'

/-- The `n`-th value taken is what the claimant of sequence `n` left in its cell. -/
theorem Valid.delivery {R : SeqRing ι α} {cap : ℕ} (hv : R.Valid cap) {n : ℕ} {v : α}
    (h : R.taken[n]? = some v) :
    ∃ i, R.claimant n = some i ∧ R.author n = some i ∧ R.published n = true ∧ v = R.contents n := by
  have hp := hv.taken_published n (List.getElem?_eq_some_iff.1 h).1
  obtain ⟨i, hi⟩ := Option.isSome_iff_exists.1 ((hv.claimant_isSome n).2 (hv.published_lt n hp))
  exact ⟨i, hi, (hv.published_author n hp).trans hi, hp, hv.taken_contents n v h⟩

/-- The values taken are the contents of the first sequences, in order. -/
theorem Valid.taken_eq {R : SeqRing ι α} {cap : ℕ} (hv : R.Valid cap) :
    R.taken = (List.range R.taken.length).map R.contents := by
  refine List.ext_getElem? fun n => ?_
  rcases Nat.lt_or_ge n R.taken.length with hlt | hge
  · obtain ⟨v, hn⟩ : ∃ v, R.taken[n]? = some v := ⟨_, List.getElem?_eq_getElem hlt⟩
    rw [hn, hv.taken_contents n v hn, List.getElem?_map, List.getElem?_range hlt]
    rfl
  · rw [List.getElem?_eq_none hge, List.getElem?_eq_none]
    rw [List.length_map, List.length_range]
    exact hge

/-- Everything published has been taken. -/
def Drained (R : SeqRing ι α) : Prop := ∀ s, R.published s = true → s < R.taken.length

/-- With no claim outstanding, the next sequence alone tells whether anything is left. -/
theorem Valid.drained_iff {R : SeqRing ι α} {cap : ℕ} (hv : R.Valid cap)
    (hall : ∀ i s, ¬ R.Claimed i s) : R.Drained ↔ R.published R.taken.length = false := by
  constructor
  · intro h
    by_contra hp
    exact absurd (h _ (by simpa using hp)) (lt_irrefl _)
  · intro h s hs
    by_contra hge
    have hlt := hv.published_lt s hs
    obtain ⟨i, hi⟩ := Option.isSome_iff_exists.1 ((hv.claimant_isSome R.taken.length).2 (by omega))
    exact hall i _ ⟨hi, h⟩

/-! ## What the others may do -/

theorem Step.published_mono {R R' : SeqRing ι α} {cap : ℕ} {o : Option ι} (h : Step cap o R R')
    {s : ℕ} (hs : R.published s = true) : R'.published s = true := by
  cases h with
  | publish i a k h => simp only [SeqRing.publish, hs, Bool.true_or]
  | _ => exact hs

theorem Step.released_mono {R R' : SeqRing ι α} {cap : ℕ} {o : Option ι} (h : Step cap o R R') :
    R.released ≤ R'.released := by
  cases h with
  | release r h h' => exact h
  | _ => exact le_rfl

theorem Step.claims_mono {R R' : SeqRing ι α} {cap : ℕ} {o : Option ι} (h : Step cap o R R') :
    R.claims ≤ R'.claims := by
  cases h with
  | claim i k => exact Nat.le_add_right _ _
  | _ => exact le_rfl

/-- Producers neither take nor release. -/
theorem Step.consumer_eq {R R' : SeqRing ι α} {cap : ℕ} {i : ι} (h : Step cap (some i) R R') :
    R'.taken = R.taken ∧ R'.released = R.released := by
  cases h <;> exact ⟨rfl, rfl⟩

/-- The consumer neither claims nor publishes. -/
theorem Step.producer_eq {R R' : SeqRing ι α} {cap : ℕ} (h : Step cap none R R') :
    R'.claims = R.claims ∧ R'.published = R.published := by
  cases h <;> exact ⟨rfl, rfl⟩

/-- The consumer does not write. -/
theorem Step.contents_eq {R R' : SeqRing ι α} {cap : ℕ} (h : Step cap none R R') :
    R'.contents = R.contents := by
  cases h <;> rfl

/-- A claim is lost only by its claimant's own publication. -/
theorem Step.claimed {R R' : SeqRing ι α} {cap : ℕ} {o : Option ι} (hv : R.Valid cap)
    (h : Step cap o R R') {i : ι} (ho : o ≠ some i) {s : ℕ} (hs : R.Claimed i s) :
    R'.Claimed i s := by
  cases h with
  | claim j k =>
    refine ⟨?_, hs.2⟩
    have := (hv.claimant_isSome s).1 (by rw [hs.1]; rfl)
    simp only [SeqRing.claim]
    rw [if_neg (by omega)]
    exact hs.1
  | publish j a k h =>
    refine ⟨hs.1, ?_⟩
    simp only [SeqRing.publish, hs.2, Bool.false_or, decide_eq_false_iff_not]
    rintro ⟨h1, h2⟩
    have := (h s h1 h2).claimed.1.symm.trans hs.1
    exact ho this
  | _ => exact hs

/-- Nobody gains a claim by another's move. -/
theorem Step.of_claimed {R R' : SeqRing ι α} {cap : ℕ} {o : Option ι} (h : Step cap o R R') {i : ι}
    (ho : o ≠ some i) {s : ℕ} (hs : R'.Claimed i s) : R.Claimed i s := by
  have hpub : R.published s = false := by
    by_contra hp
    exact absurd (h.published_mono (by simpa using hp)) (by rw [hs.2]; decide)
  refine ⟨?_, hpub⟩
  cases h with
  | claim j k =>
    have hclaim := hs.1
    simp only [SeqRing.claim] at hclaim
    split_ifs at hclaim with hnew
    · exact absurd hclaim ho
    · exact hclaim
  | _ => exact hs.1

/-- What is published stays as it was published. -/
theorem Step.published_fixed {R R' : SeqRing ι α} {cap : ℕ} {o : Option ι} (hv : R.Valid cap)
    (h : Step cap o R R') {s : ℕ} (hs : R.published s = true) :
    R'.contents s = R.contents s ∧ R'.claimant s = R.claimant s ∧ R'.author s = R.author s := by
  have unclaimed : ∀ i, ¬ R.Claimed i s := by
    intro i hc
    rw [hc.2] at hs
    exact absurd hs (by decide)
  cases h with
  | claim i k =>
    have := hv.published_lt s hs
    exact ⟨rfl, if_neg (by omega), rfl⟩
  | acquire i a k h =>
    have hout : ¬ (a ≤ s ∧ s < a + k) := fun hin => unclaimed i (h s hin.1 hin.2)
    exact ⟨if_neg hout, rfl, if_neg hout⟩
  | write i t v h room =>
    have hne : s ≠ t := by
      rintro rfl
      exact unclaimed i h
    exact ⟨Function.update_of_ne hne _ _, rfl, Function.update_of_ne hne _ _⟩
  | _ => exact ⟨rfl, rfl, rfl⟩

theorem Step.taken_prefix {R R' : SeqRing ι α} {cap : ℕ} {o : Option ι} (h : Step cap o R R') :
    R.taken <+: R'.taken := by
  cases h with
  | take v h hv => exact List.prefix_append _ _
  | _ => exact List.prefix_rfl

/-- An acquired cell is left alone by everybody else. -/
theorem Step.acquired {R R' : SeqRing ι α} {cap : ℕ} {o : Option ι} (hv : R.Valid cap)
    (h : Step cap o R R') {i : ι} (ho : o ≠ some i) {s : ℕ} (hs : R.Acquired cap i s) :
    R'.Acquired cap i s := by
  have hc := h.claimed hv ho hs.claimed
  have hroom : s < R'.released + cap := lt_of_lt_of_le hs.room (Nat.add_le_add_right h.released_mono _)
  refine ⟨hc, hroom, ?_, ?_⟩
  · cases h with
    | acquire j a k h =>
      simp only [SeqRing.acquire]
      rw [if_neg]
      · exact hs.author
      · rintro ⟨h1, h2⟩
        exact ho ((h s h1 h2).1.symm.trans hs.claimed.1)
    | write j t v h room =>
      simp only [SeqRing.write]
      rw [Function.update_of_ne]
      · exact hs.author
      · rintro rfl
        exact ho (h.1.symm.trans hs.claimed.1)
    | _ => exact hs.author
  · cases h with
    | acquire j a k h =>
      simp only [SeqRing.acquire]
      rw [if_neg]
      · exact hs.slot
      · rintro ⟨h1, h2⟩
        exact ho ((h s h1 h2).1.symm.trans hs.claimed.1)
    | write j t v h room =>
      have hne : s ≠ t := by
        rintro rfl
        exact ho (h.1.symm.trans hs.claimed.1)
      have hs' := hv.taken_le_of_unpublished hs.claimed.2
      have ht' := hv.taken_le_of_unpublished h.2
      have hr := hv.released_le
      simp only [SeqRing.write]
      rw [Function.update_of_ne hne, Function.update_of_ne]
      · exact hs.slot
      · intro hmod
        exact hne (eq_of_mod_eq (a := R.released) (by omega) hs.room (by omega) room hmod)
    | _ => exact hs.slot

/-! ## What a producer gets from its own moves -/

theorem claimed_claim {R : SeqRing ι α} {cap : ℕ} (hv : R.Valid cap) (i : ι) {k s : ℕ}
    (h1 : R.claims ≤ s) (h2 : s < R.claims + k) : (R.claim i k).Claimed i s := by
  refine ⟨if_pos ⟨h1, h2⟩, ?_⟩
  simp only [claim]
  by_contra hp
  have := hv.published_lt s (by simpa using hp)
  omega

theorem of_claimed_claim {R : SeqRing ι α} {i : ι} {k s : ℕ} (h : (R.claim i k).Claimed i s) :
    R.claims ≤ s ∧ s < R.claims + k ∨ R.Claimed i s := by
  obtain ⟨hclaim, hpub⟩ := h
  simp only [claim] at hclaim
  split_ifs at hclaim with hnew
  · exact Or.inl hnew
  · exact Or.inr ⟨hclaim, hpub⟩

theorem of_claimed_publish {R : SeqRing ι α} {i : ι} {a k s : ℕ} (h : (R.publish a k).Claimed i s) :
    R.Claimed i s ∧ ¬ (a ≤ s ∧ s < a + k) := by
  obtain ⟨hclaim, hpub⟩ := h
  simp only [publish, Bool.or_eq_false_iff, decide_eq_false_iff_not] at hpub
  exact ⟨⟨hclaim, hpub.1⟩, hpub.2⟩

theorem acquired_acquire {R : SeqRing ι α} {cap : ℕ} {i : ι} {a k s : ℕ} (hc : R.Claimed i s)
    (room : s < R.released + cap) (h1 : a ≤ s) (h2 : s < a + k) :
    (R.acquire cap i a k).Acquired cap i s :=
  ⟨hc, room, if_pos ⟨h1, h2⟩, (if_pos ⟨h1, h2⟩).symm⟩

theorem acquired_write {R : SeqRing ι α} {cap : ℕ} {i : ι} {s : ℕ} (v : α) (hc : R.Claimed i s)
    (room : s < R.released + cap) : (R.write cap i s v).Acquired cap i s := by
  refine ⟨hc, room, ?_, ?_⟩ <;> simp [write]

/-- Writing one acquired cell leaves the producer's other acquired cells alone. -/
theorem Acquired.write {R : SeqRing ι α} {cap : ℕ} (hv : R.Valid cap) {i : ι} {s t : ℕ} (v : α)
    (ht : R.Claimed i t) (room : t < R.released + cap) (hs : R.Acquired cap i s) :
    (R.write cap i t v).Acquired cap i s := by
  by_cases hst : s = t
  · subst hst
    exact acquired_write v hs.claimed hs.room
  · have hs' := hv.taken_le_of_unpublished hs.claimed.2
    have ht' := hv.taken_le_of_unpublished ht.2
    have hr := hv.released_le
    have hmod : s % cap ≠ t % cap := fun h =>
      hst (eq_of_mod_eq (a := R.released) (by omega) hs.room (by omega) room h)
    refine ⟨hs.claimed, hs.room, ?_, ?_⟩
    · simp only [SeqRing.write]
      rw [Function.update_of_ne hst]
      exact hs.author
    · simp only [SeqRing.write]
      rw [Function.update_of_ne hst, Function.update_of_ne hmod]
      exact hs.slot

/-- Publishing part of what a producer holds leaves it the rest. -/
theorem Acquired.publish {R : SeqRing ι α} {cap : ℕ} {i : ι} {s a k : ℕ}
    (hs : R.Acquired cap i s) (h : ¬ (a ≤ s ∧ s < a + k)) : (R.publish a k).Acquired cap i s := by
  refine ⟨⟨hs.claimed.1, ?_⟩, hs.room, hs.author, hs.slot⟩
  simp only [SeqRing.publish, hs.claimed.2, Bool.false_or, decide_eq_false_iff_not]
  exact h

end SeqRing

end Land
