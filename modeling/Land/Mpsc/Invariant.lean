import Land.Mpsc.Bitmap
import Land.Mpsc.Program

/-!
# The invariant of the MPSC channel

`Coupled` ties the shared memory to the history: the cursors, the contents of the slots and the
parity bits.  `Producer.Ok` and `Consumer.Ok` say what a thread knows at each point of its program.
A step of a thread is a move of the history (`SeqRing.Step`) that keeps `Coupled` and leads to a
point where the thread knows what it has to; the other threads' knowledge survives by the rely lemmas
of `SeqRing`.
-/

namespace Land.Mpsc

open Channel

variable {T : Type} {cap : ℕ}

/-- The shared memory is what the history says. -/
structure Coupled (cap : ℕ) (sh : Shared T) (R : History T) : Prop where
  valid : R.Valid cap
  buffer : sh.buffer.WellFormed cap
  bits : sh.OneBitPerSlot cap
  claim : sh.claimCursor = R.claims - 1
  consumer : sh.consumerCursor = R.released - 1
  slots : R.slots = fun j => (sh.buffer.slots j).bits
  parity : Parity.Tracks cap sh.bit R.released R.published

/-- Producer `p` holds the claim of `count` sequences that ends at `endSequence`. -/
def Holds (R : History T) (p count : ℕ) (endSequence : ℤ) (P : ℕ → Prop) : Prop :=
  ∃ a : ℕ, endSequence + 1 = (a + count : ℕ) ∧
    ∀ s, a ≤ s → s < a + count → R.Claimed p s ∧ P s

/-- What producer `p` knows at each point. -/
def Producer.Ok (cap : ℕ) (R : History T) (p : ℕ) : Producer T → Prop
  | .awaitSpace what endSequence => Holds R p what.count endSequence fun _ => True
  | .recheck what endSequence => Holds R p what.count endSequence fun _ => True
  | .tryCas what _ current => current + what.count < R.released + cap
  | .fill what endSequence => Holds R p what.count endSequence fun s => s < R.released + cap
  | .publish sequence => ∃ s : ℕ, sequence = s ∧ R.Acquired cap p s
  | .holding start count =>
      ∃ a : ℕ, start = a ∧ ∀ s, a ≤ s → s < a + count → R.Acquired cap p s
  | .flushing rest =>
      ∃ a b, Covers (cap / 64) a rest b ∧ ∀ s, a ≤ s → s < b → R.Acquired cap p s
  | _ => True

/-- What the consumer, whose next sequence is `n`, knows at each point. -/
def ConsumerPc.Ok (sh : Shared T) (R : History T) (n : ℕ) : ConsumerPc → Prop
  | .read => R.taken.length = n ∧ R.published n = true
  | .store => R.taken.length = n + 1
  | .scan _ c =>
      R.taken.length = n ∧ ∃ q, n ≤ q ∧ c.At sh q ∧ ∀ t, n ≤ t → t < q → R.published t = true
  | .batchRead _ count i =>
      R.taken.length = n + i ∧ i ≤ count ∧ ∀ t, n ≤ t → t < n + count → R.published t = true
  | _ => R.taken.length = n

/-- The next sequence is the first one not released, and the consumer is where it should be. -/
structure Consumer.Ok (sh : Shared T) (R : History T) (c : Consumer) : Prop where
  next : c.nextSequence = R.released
  pc : c.pc.Ok sh R R.released

/-- The invariant of every reachable state. -/
structure Inv (cap : ℕ) (s : State T) : Prop where
  coupled : Coupled cap s.shared s.ring
  producers : ∀ p, (s.producers p).Ok cap s.ring p
  consumer : s.consumer.Ok s.shared s.ring

/-! ## The shared memory after each kind of access -/

namespace Coupled

variable {sh : Shared T} {R : History T}

/-- The flags and counts are not coupled to anything. -/
theorem flags (h : Coupled cap sh R) (count strong : ℕ) (closed : Bool) :
    Coupled cap { sh with producerCount := count, strongCount := strong, closed := closed } R :=
  ⟨h.valid, h.buffer, ⟨h.bits.capacity_eq, h.bits.words, h.bits.pos⟩, h.claim, h.consumer, h.slots,
    h.parity⟩

theorem claim_cursor (h : Coupled cap sh R) (p k : ℕ) :
    Coupled cap { sh with claimCursor := sh.claimCursor + k } (R.claim p k) :=
  ⟨h.valid.claim p k, h.buffer, ⟨h.bits.capacity_eq, h.bits.words, h.bits.pos⟩, by
    have := h.claim
    simp only [SeqRing.claim, Nat.cast_add]
    omega, h.consumer, h.slots, h.parity⟩

theorem acquire (h : Coupled cap sh R) {p a k : ℕ}
    (hc : ∀ s, a ≤ s → s < a + k → R.Claimed p s) : Coupled cap sh (R.acquire cap p a k) :=
  ⟨h.valid.acquire hc, h.buffer, h.bits, h.claim, h.consumer, h.slots, h.parity⟩

theorem write (h : Coupled cap sh R) {p s : ℕ} (v : T) (hc : R.Claimed p s)
    (room : s < R.released + cap) :
    Coupled cap { sh with buffer := sh.buffer.write s v } (R.write cap p s (some v)) := by
  refine ⟨h.valid.write _ hc room, h.buffer.write _ _,
    ⟨h.bits.capacity_eq, h.bits.words, h.bits.pos⟩, h.claim, h.consumer, ?_, h.parity⟩
  rw [RingBuffer.write_bits, h.buffer.index_eq, asUsize_natCast, ← h.slots]
  rfl

/-- A `fetch_xor` of sequences its producer holds publishes exactly those. -/
theorem flush (h : Coupled cap sh R) {p : ℕ} {f : Flush} (hf : f.Exact sh.availabilityWords)
    (ha : ∀ s, f.first ≤ s → s < f.first + f.len → R.Acquired cap p s) :
    Coupled cap (sh.fetchXor f.word f.mask) (R.publish f.first f.len) := by
  refine ⟨h.valid.publish ha, h.buffer, ⟨h.bits.capacity_eq, h.bits.words, h.bits.pos⟩, h.claim,
    h.consumer, h.slots, ?_⟩
  show Parity.Tracks cap (sh.fetchXor f.word f.mask).bit R.released fun s =>
    R.published s || decide (f.first ≤ s ∧ s < f.first + f.len)
  refine Parity.Tracks.flip h.parity ?_ ?_
  · intro s hs
    rw [decide_eq_true_eq] at hs
    exact (ha s hs.1 hs.2).claimed.2
  · intro s hs hs'
    refine Flush.bit_fetchXor h.bits hf ?_ ?_ hs hs'
    · rcases Nat.eq_zero_or_pos f.len with hz | hpos
      · exact Or.inr hz
      · have := h.valid.taken_le_of_unpublished (ha f.first le_rfl (by omega)).claimed.2
        exact Or.inl (le_trans h.valid.released_le this)
    · rcases Nat.eq_zero_or_pos f.len with hz | hpos
      · exact Or.inr hz
      · have := (ha (f.first + f.len - 1) (by omega) (by omega)).room
        exact Or.inl (by omega)

/-- What the code finds in the slot of a sequence is what the history has there. -/
theorem get_eq (h : Coupled cap sh R) (n : ℕ) : sh.buffer.get n = R.slots (n % cap) := by
  rw [h.slots, RingBuffer.get, h.buffer.index_eq, asUsize_natCast]

theorem take (h : Coupled cap sh R) {b : RingBuffer T} (hb : b.WellFormed cap)
    (hbits : ∀ j, (b.slots j).bits = (sh.buffer.slots j).bits) {v : Option T}
    (hp : R.published R.taken.length = true) (hv : v = R.slots (R.taken.length % cap)) :
    Coupled cap { sh with buffer := b } (R.take v) :=
  ⟨h.valid.take hp hv, hb, ⟨h.bits.capacity_eq, h.bits.words, h.bits.pos⟩, h.claim, h.consumer,
    h.slots.trans (funext fun j => (hbits j).symm), h.parity⟩

theorem release (h : Coupled cap sh R) {r : ℕ} (hr : R.released ≤ r) (hr' : r ≤ R.taken.length) :
    Coupled cap { sh with consumerCursor := (r : ℤ) - 1 } (R.release r) := by
  refine ⟨h.valid.release hr hr', h.buffer, ⟨h.bits.capacity_eq, h.bits.words, h.bits.pos⟩, h.claim,
    rfl, h.slots, ?_⟩
  show Parity.Tracks cap sh.bit r R.published
  refine h.parity.advance h.bits.pos hr ?_ ?_ ?_
  · rcases Nat.eq_or_lt_of_le hr with heq | hlt
    · omega
    · have := h.valid.published_room (r - 1) (h.valid.taken_published _ (by omega))
      omega
  · exact fun s _ hs => h.valid.taken_published s (by omega)
  · intro s hs
    by_contra hp
    have := h.valid.published_room s (by simpa using hp)
    omega

theorem words_eq (h : Coupled cap sh R) : sh.availabilityWords = cap / 64 := by
  have := h.bits.words
  omega

end Coupled

/-! ## What a thread knows survives the moves of the others -/

section Rely

variable {R R' : History T} {o : Option ℕ} {p : ℕ}

theorem Holds.rely {count : ℕ} {e : ℤ} {P P' : ℕ → Prop} (hv : R.Valid cap)
    (h : SeqRing.Step cap o R R') (ho : o ≠ some p) (hP : ∀ s, P s → P' s)
    (hh : Holds R p count e P) : Holds R' p count e P' := by
  obtain ⟨a, ha, hs⟩ := hh
  exact ⟨a, ha, fun s h1 h2 => ⟨h.claimed hv ho (hs s h1 h2).1, hP s (hs s h1 h2).2⟩⟩

theorem Producer.Ok.rely {pc : Producer T} (hv : R.Valid cap) (h : SeqRing.Step cap o R R')
    (ho : o ≠ some p) (hp : pc.Ok cap R p) : pc.Ok cap R' p := by
  have hr := h.released_mono
  cases pc with
  | awaitSpace what e => exact Holds.rely hv h ho (fun _ => id) hp
  | recheck what e => exact Holds.rely hv h ho (fun _ => id) hp
  | tryCas what attempt current =>
    have hroom : current + what.count < R.released + cap := hp
    show current + what.count < R'.released + cap
    omega
  | fill what e => exact Holds.rely hv h ho (fun s hs => by omega) hp
  | publish sequence =>
    obtain ⟨s, rfl, hs⟩ := hp
    exact ⟨s, rfl, h.acquired hv ho hs⟩
  | holding start count =>
    obtain ⟨a, rfl, hs⟩ := hp
    exact ⟨a, rfl, fun s h1 h2 => h.acquired hv ho (hs s h1 h2)⟩
  | flushing rest =>
    obtain ⟨a, b, hcov, hs⟩ := hp
    exact ⟨a, b, hcov, fun s h1 h2 => h.acquired hv ho (hs s h1 h2)⟩
  | _ => trivial

theorem Consumer.Ok.rely {sh sh' : Shared T} {c : Consumer}
    (hw : sh'.availabilityWords = sh.availabilityWords) (h : SeqRing.Step cap (some p) R R')
    (hc : c.Ok sh R) : c.Ok sh' R' := by
  obtain ⟨ht, hr⟩ := h.consumer_eq
  obtain ⟨hn, hpc⟩ := hc
  refine ⟨by rw [hr]; exact hn, ?_⟩
  rw [hr]
  cases c with
  | mk next pc =>
    cases pc with
    | read => exact ⟨by rw [ht]; exact hpc.1, h.published_mono hpc.2⟩
    | scan op c =>
      obtain ⟨hlen, q, hq, hat, hpub⟩ := hpc
      exact ⟨by rw [ht]; exact hlen, q, hq, hat.congr hw,
        fun t h1 h2 => h.published_mono (hpub t h1 h2)⟩
    | batchRead op count i =>
      obtain ⟨hlen, hi, hpub⟩ := hpc
      exact ⟨by rw [ht]; exact hlen, hi, fun t h1 h2 => h.published_mono (hpub t h1 h2)⟩
    | _ => exact (congrArg List.length ht).trans hpc

end Rely

/-! ## The producers -/

/-- A step of producer `p` is a move of the history that keeps the coupling and `p`'s knowledge. -/
structure Producer.Moves (cap : ℕ) (R : History T) (p : ℕ)
    (r : Shared T × Producer T × History T) : Prop where
  step : SeqRing.Step cap (some p) R r.2.2
  coupled : Coupled cap r.1 r.2.2
  ok : r.2.1.Ok cap r.2.2 p

theorem Producer.Moves.stay {sh : Shared T} {R : History T} {p : ℕ} {pc : Producer T}
    (hc : Coupled cap sh R) (hp : pc.Ok cap R p) : Moves cap R p (sh, pc, R) :=
  ⟨.stutter _, hc, hp⟩

section Producers

variable {sh : Shared T} {R : History T} {p : ℕ}

/-- A claim of the next `k` sequences holds them. -/
theorem Coupled.holds_claim (hc : Coupled cap sh R) (k : ℕ) {P : ℕ → Prop}
    (hP : ∀ s, R.claims ≤ s → s < R.claims + k → P s) :
    Holds (R.claim p k) p k (sh.claimCursor + k) P := by
  refine ⟨R.claims, ?_, fun s h1 h2 => ⟨SeqRing.claimed_claim hc.valid p h1 h2, hP s h1 h2⟩⟩
  rw [hc.claim, Nat.cast_add]
  omega

/-- The check of the wrap point gives room for the whole claim. -/
theorem Coupled.holds_room (hc : Coupled cap sh R) {k : ℕ} {e : ℤ}
    (hh : Holds R p k e fun _ => True) (hroom : ¬ sh.consumerCursor < e - sh.capacity) :
    Holds R p k e fun s => s < R.released + cap := by
  obtain ⟨a, ha, hs⟩ := hh
  refine ⟨a, ha, fun s h1 h2 => ⟨(hs s h1 h2).1, ?_⟩⟩
  rw [hc.consumer, hc.bits.capacity_eq] at hroom
  omega

/-- Publishing the first flush of the rest leaves the rest. -/
theorem Producer.moves_flush (hc : Coupled cap sh R) {f : Flush} {rest : List Flush}
    (hp : (Producer.flushing (f :: rest) : Producer T).Ok cap R p) :
    Moves cap R p (sh.fetchXor f.word f.mask, .flushing rest, R.publish f.first f.len) := by
  obtain ⟨a, b, ⟨rfl, hex, hcov⟩, hs⟩ := hp
  have hle := hcov.le
  have hrun : ∀ s, f.first ≤ s → s < f.first + f.len → R.Acquired cap p s :=
    fun s h1 h2 => hs s h1 (by omega)
  refine ⟨.publish p _ _ hrun, hc.flush (by rw [hc.words_eq]; exact hex) hrun, ?_⟩
  exact ⟨_, b, hcov, fun s h1 h2 => (hs s (by omega) h2).publish (by omega)⟩

/-- A write into a slot that `p` has claimed and that is free. -/
theorem Producer.moves_write (hc : Coupled cap sh R) {s : ℕ} (v : T) (hcl : R.Claimed p s)
    (room : s < R.released + cap) {pc : Producer T}
    (hp : pc.Ok cap (R.write cap p s (some v)) p) :
    Moves cap R p
      ({ sh with buffer := sh.buffer.write s v }, pc, R.write sh.capacity p s (some v)) := by
  have hw : R.write sh.capacity p s (some v) = R.write cap p s (some v) := by
    rw [hc.bits.capacity_eq]
  rw [hw]
  exact ⟨.write p s _ hcl room, hc.write v hcl room, hp⟩

theorem Producer.moves_fillEvent (hc : Coupled cap sh R) {v : T} {e : ℤ}
    (hp : (Producer.fill (.event v) e).Ok cap R p) :
    Moves cap R p ({ sh with buffer := sh.buffer.write e v }, .publish e,
      R.write sh.capacity p (asUsize e) (some v)) := by
  obtain ⟨a, ha, hs⟩ := hp
  obtain rfl : e = (a : ℤ) := by
    simp only [Payload.count, Nat.cast_add, Nat.cast_one] at ha
    omega
  rw [asUsize_natCast]
  obtain ⟨hcl, room⟩ := hs a le_rfl (Nat.lt_succ_self a)
  refine moves_write hc v hcl room ?_
  exact ⟨a, rfl, SeqRing.acquired_write _ hcl room⟩

theorem Producer.moves_fillBatch (hc : Coupled cap sh R) {n : ℕ} {e : ℤ}
    (hp : (Producer.fill (.batch n) e : Producer T).Ok cap R p) :
    Moves cap R p (sh, .holding (e - n + 1) n,
      R.acquire sh.capacity p (asUsize (e - n + 1)) n) := by
  obtain ⟨a, ha, hs⟩ := hp
  have hstart : e - n + 1 = (a : ℤ) := by
    simp only [Payload.count, Nat.cast_add] at ha
    omega
  rw [hc.bits.capacity_eq, hstart, asUsize_natCast]
  have hcl : ∀ s, a ≤ s → s < a + n → R.Claimed p s := fun s h1 h2 => (hs s h1 h2).1
  refine ⟨.acquire p a n hcl, hc.acquire hcl, a, rfl, fun s h1 h2 => ?_⟩
  exact SeqRing.acquired_acquire (hcl s h1 h2) (hs s h1 h2).2 h1 h2

theorem Producer.step_moves {pc : Producer T} {r : Shared T × Producer T × History T}
    (hc : Coupled cap sh R) (hp : pc.Ok cap R p) (h : Producer.step sh R p pc = some r) :
    Moves cap R p r := by
  cases pc with
  | absent => cases h
  | idle => cases h
  | holding start count => cases h
  | check blocking what =>
    simp only [Producer.step] at h
    split_ifs at h <;> cases h <;> exact .stay hc trivial
  | claim what =>
    cases h
    exact ⟨.claim p _, hc.claim_cursor p _, hc.holds_claim _ fun _ _ _ => trivial⟩
  | awaitSpace what e =>
    simp only [Producer.step] at h
    split_ifs at h with hroom <;> cases h
    · exact .stay hc hp
    · exact .stay hc (hc.holds_room hp hroom)
  | recheck what e =>
    simp only [Producer.step] at h
    split_ifs at h <;> cases h
    · exact .stay hc trivial
    · exact .stay hc hp
  | tryLoad what attempt =>
    cases h
    exact .stay hc trivial
  | trySpace what attempt current =>
    simp only [Producer.step] at h
    split_ifs at h with hroom <;> cases h
    · exact .stay hc trivial
    · refine .stay hc ?_
      show current + what.count < R.released + cap
      rw [hc.consumer, hc.bits.capacity_eq] at hroom
      omega
  | tryCas what attempt current =>
    simp only [Producer.step] at h
    split_ifs at h with hcur <;> cases h
    · subst hcur
      have hroom : sh.claimCursor + what.count < R.released + cap := hp
      rw [hc.claim] at hroom
      refine ⟨.claim p _, hc.claim_cursor p _, hc.holds_claim _ fun s _ h2 => ?_⟩
      show s < R.released + cap
      omega
    · exact .stay hc trivial
    · exact .stay hc trivial
  | fill what e =>
    cases what with
    | event v =>
      cases h
      exact moves_fillEvent hc hp
    | batch n =>
      cases h
      exact moves_fillBatch hc hp
  | publish sequence =>
    cases h
    obtain ⟨s, rfl, hs⟩ := hp
    have hrun : ∀ t, s ≤ t → t < s + 1 → R.Acquired cap p t := by
      intro t h1 h2
      obtain rfl : t = s := by omega
      exact hs
    exact ⟨.publish p s 1 hrun, hc.flush (Flush.exact_single sh s) hrun, trivial⟩
  | flushing rest =>
    cases rest with
    | nil =>
      cases h
      exact .stay hc trivial
    | cons f rest =>
      cases h
      exact moves_flush hc hp
  | dropping =>
    simp only [Producer.step] at h
    split_ifs at h <;> cases h
    · exact .stay (hc.flags _ _ _) trivial
    · exact .stay (hc.flags _ _ _) trivial
  | closing =>
    cases h
    exact .stay (hc.flags _ _ _) trivial

theorem Producer.call_moves {pc : Producer T} {call : ProducerCall T}
    {r : Shared T × Producer T × History T} (hc : Coupled cap sh R) (hp : pc.Ok cap R p)
    (h : Producer.call sh R p pc call = some r) : Moves cap R p r := by
  unfold Producer.call at h
  split at h
  · cases h
    exact .stay hc trivial
  · cases h
    exact .stay hc trivial
  · split_ifs at h
    cases h
    exact .stay hc trivial
  · split_ifs at h
    cases h
    exact .stay hc trivial
  · cases h
    exact .stay (hc.flags _ _ _) trivial
  · cases h
    exact .stay hc trivial
  · next start count index v =>
    split_ifs at h with hi
    obtain ⟨a, rfl, hs⟩ := hp
    rw [asUsize_natCast_add, ← Nat.cast_add] at h
    cases h
    have hslot := hs (a + index) (by omega) (by omega)
    refine moves_write hc v hslot.claimed hslot.room ?_
    exact ⟨a, rfl, fun s h1 h2 => (hs s h1 h2).write hc.valid _ hslot.claimed hslot.room⟩
  · next start count =>
    cases h
    obtain ⟨a, rfl, hs⟩ := hp
    have hcov := covers_batchFlushes sh a count
    rw [hc.words_eq] at hcov
    exact .stay hc ⟨a, a + count, hcov, hs⟩
  · cases h

end Producers

end Land.Mpsc
