import Land.Spsc.Program

/-!
# Delivery through the SPSC channel

The invariant of the channel, after the pattern of the MPSC one: the shared memory is what the history
says (`Coupled`), and each thread knows what it needs at each point (`Producer.Ok`, `Consumer.Ok`).  The
producer's knowledge ties its stale `cached_consumer`, its `next_sequence` and its cursor together; a
batch has moved `next_sequence` past the slots that it still holds.
-/

namespace Land.Spsc

open Channel

variable {T : Type} {cap : ℕ}

/-- The shared memory is what the history says. -/
structure Coupled (cap : ℕ) (sh : Shared T) (R : History T) : Prop where
  valid : R.Valid cap
  buffer : sh.buffer.WellFormed cap
  consumer : sh.consumerCursor = R.released - 1
  slots : R.slots = fun j => (sh.buffer.slots j).bits
  published : ∀ s : ℕ, R.published s = true ↔ (s : ℤ) ≤ sh.producerCursor

/-- What the producer, whose cursor is before sequence `a` and whose next sequence is `next`, holds at
each point. -/
def ProducerPc.Ok (cap : ℕ) (R : History T) (a : ℕ) (next : ℤ) (claimed : Bool) :
    ProducerPc T → Prop
  | .loadClosed _ _ => next = a ∧ claimed = false ∧ R.claims = a
  | .loadCount _ _ => next = a ∧ claimed = false ∧ R.claims = a
  | .reload _ => next = a ∧ claimed = false ∧ R.claims = a
  | .fill op => next = a ∧ claimed = false ∧ R.claims = a + op.count ∧
      ∀ s, a ≤ s → s < a + op.count → R.Claimed () s ∧ s < R.released + cap
  | .publish => next = a ∧ claimed = false ∧ R.claims = a + 1 ∧ R.Acquired cap () a
  | .holding start count => start = a ∧ claimed = false ∧ next = (a + count : ℕ) ∧
      R.claims = a + count ∧ ∀ s, a ≤ s → s < a + count → R.Acquired cap () s
  | _ => next = a ∧ if claimed then R.claims = a + 1 ∧ R.Acquired cap () a else R.claims = a

/-- What the producer knows. -/
structure Producer.Ok (cap : ℕ) (sh : Shared T) (R : History T) (P : Producer T) : Prop where
  capacity : P.capacity = cap
  cached : P.cachedConsumer < R.released
  pc : ∃ a : ℕ, sh.producerCursor + 1 = a ∧ P.pc.Ok cap R a P.nextSequence P.claimed

/-- What the consumer, whose next sequence is `n`, knows at each point. -/
def ConsumerPc.Ok (R : History T) (n : ℕ) : ConsumerPc → Prop
  | .take _ count i =>
      R.taken.length = n + i ∧ i ≤ count ∧ ∀ t, n ≤ t → t < n + count → R.published t = true
  | _ => R.taken.length = n

/-- What the consumer knows. -/
structure Consumer.Ok (R : History T) (c : Consumer) : Prop where
  next : c.nextSequence = R.released
  pc : c.pc.Ok R R.released

/-- The invariant of every reachable state. -/
structure Inv (cap : ℕ) (s : State T) : Prop where
  coupled : Coupled cap s.shared s.ring
  producer : s.producer.Ok cap s.shared s.ring
  consumer : s.consumer.Ok s.ring

/-! ## The shared memory after each kind of access -/

namespace Coupled

variable {sh : Shared T} {R : History T}

theorem flags (h : Coupled cap sh R) (closed : Bool) (strong : ℕ) :
    Coupled cap { sh with closed := closed, strongCount := strong } R :=
  ⟨h.valid, h.buffer, h.consumer, h.slots, h.published⟩

theorem claim (h : Coupled cap sh R) (k : ℕ) : Coupled cap sh (R.claim () k) :=
  ⟨h.valid.claim () k, h.buffer, h.consumer, h.slots, h.published⟩

theorem acquire (h : Coupled cap sh R) {a k : ℕ}
    (hc : ∀ s, a ≤ s → s < a + k → R.Claimed () s) : Coupled cap sh (R.acquire cap () a k) :=
  ⟨h.valid.acquire hc, h.buffer, h.consumer, h.slots, h.published⟩

theorem write (h : Coupled cap sh R) {s : ℕ} (v : T) (hc : R.Claimed () s)
    (room : s < R.released + cap) :
    Coupled cap { sh with buffer := sh.buffer.write s v } (R.write cap () s (some v)) := by
  refine ⟨h.valid.write _ hc room, h.buffer.write _ _, h.consumer, ?_, h.published⟩
  rw [RingBuffer.write_bits, h.buffer.index_eq, asUsize_natCast, ← h.slots]
  rfl

/-- The cursor moves over sequences the producer holds. -/
theorem publish (h : Coupled cap sh R) {a k : ℕ} (ha : sh.producerCursor + 1 = a)
    (hs : ∀ s, a ≤ s → s < a + k → R.Acquired cap () s) {cursor : ℤ} (hk : cursor + 1 = (a + k : ℕ)) :
    Coupled cap { sh with producerCursor := cursor } (R.publish a k) := by
  refine ⟨h.valid.publish hs, h.buffer, h.consumer, h.slots, fun s => ?_⟩
  have := h.published s
  simp only [SeqRing.publish, Bool.or_eq_true, decide_eq_true_eq, this]
  omega

theorem get_eq (h : Coupled cap sh R) (n : ℕ) : sh.buffer.get n = R.slots (n % cap) := by
  rw [h.slots, RingBuffer.get, h.buffer.index_eq, asUsize_natCast]

theorem take (h : Coupled cap sh R) {b : RingBuffer T} (hb : b.WellFormed cap)
    (hbits : ∀ j, (b.slots j).bits = (sh.buffer.slots j).bits) {v : Option T}
    (hp : R.published R.taken.length = true) (hv : v = R.slots (R.taken.length % cap)) :
    Coupled cap { sh with buffer := b } (R.take v) :=
  ⟨h.valid.take hp hv, hb, h.consumer, h.slots.trans (funext fun j => (hbits j).symm), h.published⟩

theorem release (h : Coupled cap sh R) {r : ℕ} (hr : R.released ≤ r) (hr' : r ≤ R.taken.length) :
    Coupled cap { sh with consumerCursor := (r : ℤ) - 1 } (R.release r) :=
  ⟨h.valid.release hr hr', h.buffer, rfl, h.slots, h.published⟩

end Coupled

/-! ## What a thread knows survives the moves of the other -/

theorem ProducerPc.Ok.rely {R R' : History T} {a : ℕ} {next : ℤ} {claimed : Bool}
    {pc : ProducerPc T} (hv : R.Valid cap) (h : SeqRing.Step cap none R R')
    (hp : pc.Ok cap R a next claimed) : pc.Ok cap R' a next claimed := by
  obtain ⟨hclaims, -⟩ := h.producer_eq
  have hr := h.released_mono
  have hacq : ∀ {s}, R.Acquired cap () s → R'.Acquired cap () s := fun hs => h.acquired hv nofun hs
  have rest : (next = a ∧ if claimed then R.claims = a + 1 ∧ R.Acquired cap () a else R.claims = a) →
      next = a ∧ if claimed then R'.claims = a + 1 ∧ R'.Acquired cap () a else R'.claims = a := by
    rw [hclaims]
    rintro ⟨hn, hc⟩
    refine ⟨hn, ?_⟩
    split_ifs at hc ⊢
    · exact ⟨hc.1, hacq hc.2⟩
    · exact hc
  cases pc with
  | loadClosed op waiting => exact ⟨hp.1, hp.2.1, hclaims.trans hp.2.2⟩
  | loadCount op waiting => exact ⟨hp.1, hp.2.1, hclaims.trans hp.2.2⟩
  | reload op => exact ⟨hp.1, hp.2.1, hclaims.trans hp.2.2⟩
  | fill op =>
    obtain ⟨hn, hcl, hc, hs⟩ := hp
    refine ⟨hn, hcl, hclaims.trans hc, fun s h1 h2 => ⟨h.claimed hv nofun (hs s h1 h2).1, ?_⟩⟩
    have := (hs s h1 h2).2
    omega
  | publish => exact ⟨hp.1, hp.2.1, hclaims.trans hp.2.2.1, hacq hp.2.2.2⟩
  | holding start count =>
    obtain ⟨hst, hcl, hn, hc, hs⟩ := hp
    exact ⟨hst, hcl, hn, hclaims.trans hc, fun s h1 h2 => hacq (hs s h1 h2)⟩
  | absent => exact rest hp
  | idle => exact rest hp
  | dropping => exact rest hp

theorem Consumer.Ok.rely {R R' : History T} {c : Consumer} (h : SeqRing.Step cap (some ()) R R')
    (hc : c.Ok R) : c.Ok R' := by
  obtain ⟨ht, hr⟩ := h.consumer_eq
  obtain ⟨hn, hpc⟩ := hc
  refine ⟨by rw [hr]; exact hn, ?_⟩
  rw [hr]
  cases c with
  | mk next w cached pc =>
    cases pc with
    | take op count i =>
      obtain ⟨hlen, hi, hpub⟩ := hpc
      exact ⟨by rw [ht]; exact hlen, hi, fun t h1 h2 => h.published_mono (hpub t h1 h2)⟩
    | _ => exact (congrArg List.length ht).trans hpc

/-! ## The producer -/

/-- A step of the producer is a move of the history that keeps the coupling and its knowledge. -/
structure Producer.Moves (cap : ℕ) (R : History T) (r : Shared T × Producer T × History T) :
    Prop where
  step : SeqRing.Step cap (some ()) R r.2.2
  coupled : Coupled cap r.1 r.2.2
  ok : r.2.1.Ok cap r.1 r.2.2

section Producer

variable {sh : Shared T} {R : History T}

theorem Producer.Moves.stay {P : Producer T} (hc : Coupled cap sh R) (hok : P.Ok cap sh R) :
    Moves cap R (sh, P, R) :=
  ⟨.stutter _, hc, hok⟩

theorem ProducerPc.ok_idle {a : ℕ} {next : ℤ} {claimed : Bool}
    (h : next = a ∧ claimed = false ∧ R.claims = a) :
    (ProducerPc.idle : ProducerPc T).Ok cap R a next claimed := by
  obtain ⟨hn, rfl, hc⟩ := h
  exact ⟨hn, hc⟩

/-- The space found through the cached or the reloaded consumer position is there. -/
theorem Producer.moves_space (hc : Coupled cap sh R) (P : Producer T) (op : SendOp T) {a : ℕ}
    (hcap : P.capacity = cap) (hcached : P.cachedConsumer < R.released)
    (ha : sh.producerCursor + 1 = a)
    (hpc : P.nextSequence = a ∧ P.claimed = false ∧ R.claims = a)
    (hroom : P.cachedConsumer ≥ P.wrapPoint op) :
    Moves cap R (sh, { P with pc := .fill op }, R.claim () op.count) := by
  obtain ⟨hn, hcl, hclaims⟩ := hpc
  refine ⟨.claim () _, hc.claim _, hcap, hcached, a, ha, hn, hcl, ?_, fun s h1 h2 => ⟨?_, ?_⟩⟩
  · show R.claims + op.count = a + op.count
    rw [hclaims]
  · exact SeqRing.claimed_claim hc.valid () (by omega) (by omega)
  · show s < R.released + cap
    rw [Producer.wrapPoint, hcap, hn] at hroom
    omega

theorem Producer.moves_fill (hc : Coupled cap sh R) {P : Producer T} {op : SendOp T}
    (hpc : P.pc = .fill op) (hok : P.Ok cap sh R) {r : Shared T × Producer T × History T}
    (h : P.step sh R = some r) : Moves cap R r := by
  obtain ⟨cached, next, capacity, claimed, disconnected, pc⟩ := P
  obtain ⟨hcap, hcached, a, ha, hok⟩ := hok
  dsimp only at hpc hcap hcached hok
  subst hpc hcap
  obtain ⟨rfl, hcl, hclaims, hs⟩ := hok
  have hclaimed : ∀ s, a ≤ s → s < a + op.count → R.Claimed () s := fun s h1 h2 => (hs s h1 h2).1
  have hacquired : ∀ s, a ≤ s → s < a + op.count →
      (R.acquire cap () a op.count).Acquired cap () s := fun s h1 h2 =>
    SeqRing.acquired_acquire (hclaimed s h1 h2) (hs s h1 h2).2 h1 h2
  have event : ∀ v, op.count = 1 → Moves cap R ({ sh with buffer := sh.buffer.write a v },
      ⟨cached, a, cap, claimed, disconnected, .publish⟩, R.write cap () a (some v)) := by
    intro v hone
    obtain ⟨hcl', room⟩ := hs a le_rfl (by omega)
    refine ⟨.write () a _ hcl' room, hc.write v hcl' room, rfl, hcached, a, ha, rfl, hcl, ?_, ?_⟩
    · exact hclaims.trans (by rw [hone])
    · exact SeqRing.acquired_write _ hcl' room
  cases op with
  | send v =>
    cases h
    exact event v rfl
  | trySend v =>
    cases h
    exact event v rfl
  | claim =>
    cases h
    exact ⟨.acquire () a 1 hclaimed, hc.acquire hclaimed, rfl, hcached, a, ha, rfl, hclaims,
      hacquired a le_rfl (Nat.lt_succ_self a)⟩
  | tryClaim =>
    cases h
    exact ⟨.acquire () a 1 hclaimed, hc.acquire hclaimed, rfl, hcached, a, ha, rfl, hclaims,
      hacquired a le_rfl (Nat.lt_succ_self a)⟩
  | claimBatch n =>
    cases h
    exact ⟨.acquire () a n hclaimed, hc.acquire hclaimed, rfl, hcached, a, ha, rfl, hcl, rfl, hclaims,
      hacquired⟩
  | tryClaimBatch n =>
    cases h
    exact ⟨.acquire () a n hclaimed, hc.acquire hclaimed, rfl, hcached, a, ha, rfl, hcl, rfl, hclaims,
      hacquired⟩

/-- The cursor moves over everything that is held. -/
theorem Producer.moves_publish (hc : Coupled cap sh R) {a k : ℕ} {cached next : ℤ}
    {claimed disconnected : Bool} (ha : sh.producerCursor + 1 = a)
    (hcached : cached < R.released) (hclaims : R.claims = a + k) (hclaimed : claimed = false)
    (hs : ∀ s, a ≤ s → s < a + k → R.Acquired cap () s) {cursor : ℤ} (hcur : cursor + 1 = next)
    (hk : next = (a + k : ℕ)) :
    Moves cap R ({ sh with producerCursor := cursor },
      ⟨cached, next, cap, claimed, disconnected, .idle⟩, R.publish a k) := by
  have hcursor := hcur.trans hk
  exact ⟨.publish () a k hs, hc.publish ha hs hcursor, rfl, hcached, a + k, hcursor,
    ProducerPc.ok_idle ⟨hk, hclaimed, hclaims⟩⟩

theorem Producer.step_moves {P : Producer T} {r : Shared T × Producer T × History T}
    (hc : Coupled cap sh R) (hok : P.Ok cap sh R) (h : P.step sh R = some r) : Moves cap R r := by
  have hok' := hok
  obtain ⟨cached, next, capacity, claimed, disconnected, pc⟩ := P
  obtain ⟨hcap, hcached, a, ha, hpc⟩ := hok
  dsimp only at hcap hcached hpc
  cases pc with
  | absent => cases h
  | idle => cases h
  | holding start count => cases h
  | loadClosed op waiting =>
    simp only [Producer.step] at h
    split_ifs at h <;> cases h
    · exact .stay hc ⟨hcap, hcached, a, ha, ProducerPc.ok_idle hpc⟩
    · exact .stay hc ⟨hcap, hcached, a, ha, ProducerPc.ok_idle hpc⟩
    · exact .stay hc ⟨hcap, hcached, a, ha, hpc⟩
  | loadCount op waiting =>
    simp only [Producer.step, Producer.connected] at h
    split_ifs at h with hone hspace <;> cases h
    · exact .stay hc ⟨hcap, hcached, a, ha, ProducerPc.ok_idle hpc⟩
    · exact moves_space hc ⟨cached, next, capacity, claimed, disconnected, .loadCount op waiting⟩ op
        hcap hcached ha hpc hspace.2.2
    · exact .stay hc ⟨hcap, hcached, a, ha, hpc⟩
  | reload op =>
    have hnew : sh.consumerCursor < R.released := by
      have := hc.consumer
      omega
    simp only [Producer.step] at h
    split_ifs at h with hspace <;> cases h
    · exact moves_space hc ⟨sh.consumerCursor, next, capacity, claimed, disconnected, .reload op⟩ op
        hcap hnew ha hpc hspace
    · exact .stay hc ⟨hcap, hnew, a, ha, hpc⟩
    · exact .stay hc ⟨hcap, hnew, a, ha, ProducerPc.ok_idle hpc⟩
  | fill op => exact moves_fill hc rfl hok' h
  | publish =>
    cases h
    subst hcap
    obtain ⟨rfl, hcl, hclaims, hs⟩ := hpc
    refine moves_publish hc ha hcached hclaims hcl ?_ rfl rfl
    intro s h1 h2
    obtain rfl : s = a := by omega
    exact hs
  | dropping =>
    cases h
    exact .stay (hc.flags _ _) ⟨hcap, hcached, a, ha, hpc⟩

/-- A write into a slot that the producer holds. -/
theorem Producer.moves_write (hc : Coupled cap sh R) {P : Producer T} {s : ℕ} (v : T)
    (hs : R.Acquired cap () s)
    (hok : P.Ok cap { sh with buffer := sh.buffer.write s v } (R.write cap () s (some v))) :
    Moves cap R ({ sh with buffer := sh.buffer.write s v }, P, R.write cap () s (some v)) :=
  ⟨.write () s _ hs.claimed hs.room, hc.write v hs.claimed hs.room, hok⟩

theorem Producer.call_moves {P : Producer T} {call : ProducerCall T}
    {r : Shared T × Producer T × History T} (hc : Coupled cap sh R) (hok : P.Ok cap sh R)
    (h : P.call sh R call = some r) : Moves cap R r := by
  obtain ⟨cached, next, capacity, claimed, disconnected, pc⟩ := P
  obtain ⟨hcap, hcached, a, ha, hpc⟩ := hok
  dsimp only at hcap hcached hpc
  subst hcap
  cases pc with
  | idle =>
    obtain ⟨rfl, hcl⟩ := hpc
    cases call with
    | start op =>
      simp only [Producer.call] at h
      split_ifs at h with hstart
      cases h
      rw [hstart.1, if_neg Bool.false_ne_true] at hcl
      exact .stay hc ⟨rfl, hcached, a, ha, rfl, hstart.1, hcl⟩
    | setClaimed v =>
      simp only [Producer.call] at h
      split_ifs at h with hclaimed
      cases h
      rw [if_pos hclaimed] at hcl
      refine moves_write hc v hcl.2 ⟨rfl, hcached, a, ha, rfl, ?_⟩
      rw [if_pos hclaimed]
      exact ⟨hcl.1, SeqRing.acquired_write _ hcl.2.claimed hcl.2.room⟩
    | publish =>
      simp only [Producer.call] at h
      split_ifs at h with hclaimed
      cases h
      rw [if_pos hclaimed] at hcl
      refine moves_publish hc ha hcached hcl.1 rfl ?_ rfl rfl
      intro s h1 h2
      obtain rfl : s = a := by omega
      exact hcl.2
    | close =>
      cases h
      exact .stay (hc.flags _ _) ⟨rfl, hcached, a, ha, rfl, hcl⟩
    | drop =>
      cases h
      exact .stay (hc.flags _ _) ⟨rfl, hcached, a, ha, rfl, hcl⟩
    | setSlot index v => cases h
    | publishBatch => cases h
  | holding start count =>
    obtain ⟨rfl, hcl, hn, hclaims, hs⟩ := hpc
    cases call with
    | setSlot index v =>
      simp only [Producer.call] at h
      split_ifs at h with hi
      rw [asUsize_natCast_add, ← Nat.cast_add] at h
      cases h
      have hslot := hs (a + index) (by omega) (by omega)
      refine moves_write hc v hslot ⟨rfl, hcached, a, ha, rfl, hcl, hn, hclaims, fun s h1 h2 => ?_⟩
      exact (hs s h1 h2).write hc.valid _ hslot.claimed hslot.room
    | publishBatch =>
      cases h
      refine moves_publish hc ha hcached hclaims hcl hs ?_ hn
      rw [hn, Nat.cast_add]
      ring
    | _ => cases h
  | _ => cases call <;> cases h

end Producer

/-! ## The consumer -/

/-- A step of the consumer is a move of the history that keeps the coupling and its knowledge, and
leaves the producer's cursor alone. -/
structure Consumer.Moves (cap : ℕ) (sh : Shared T) (R : History T)
    (r : Shared T × Consumer × History T) : Prop where
  step : SeqRing.Step cap none R r.2.2
  coupled : Coupled cap r.1 r.2.2
  cursor : r.1.producerCursor = sh.producerCursor
  ok : r.2.1.Ok r.2.2

section Consumer

variable {sh : Shared T} {R : History T}

theorem Consumer.Moves.stay (hc : Coupled cap sh R) {c : Consumer} (hok : c.Ok R) :
    Moves cap sh R (sh, c, R) :=
  ⟨.stutter _, hc, rfl, hok⟩

/-- What the cursor announced is published. -/
theorem Consumer.ok_received (hc : Coupled cap sh R) {c : Consumer} (op : RecvOp)
    (hn : c.nextSequence = R.released) (hlen : R.taken.length = R.released)
    (h : sh.producerCursor ≥ c.nextSequence) : (c.received op sh.producerCursor).Ok R := by
  have take : ∀ k : ℕ, (k : ℤ) ≤ sh.producerCursor - c.nextSequence + 1 →
      ({ c with pc := .take op k 0 } : Consumer).Ok R := by
    intro k hk
    refine ⟨hn, hlen, Nat.zero_le k, fun t h1 h2 => (hc.published t).2 ?_⟩
    omega
  have hcount : (asUsize (sh.producerCursor - c.nextSequence + 1) : ℤ) ≤
      sh.producerCursor - c.nextSequence + 1 := by
    unfold asUsize
    omega
  have hmin : ∀ len : ℕ, (min len (asUsize (sh.producerCursor - c.nextSequence + 1)) : ℕ) ≤
      asUsize (sh.producerCursor - c.nextSequence + 1) := fun len => min_le_right _ _
  cases op with
  | recv => exact take 1 (by omega)
  | tryRecv => exact take 1 (by omega)
  | peek => exact ⟨hn, hlen⟩
  | poll => exact take _ hcount
  | recvAll => exact take _ hcount
  | recvBatch len => exact take _ (le_trans (Int.ofNat_le.2 (hmin len)) hcount)
  | tryRecvBatch len => exact take _ (le_trans (Int.ofNat_le.2 (hmin len)) hcount)

theorem Consumer.ok_answered {c : Consumer} (op : RecvOp) (disconnected : Bool)
    (hn : c.nextSequence = R.released) (hlen : R.taken.length = R.released) :
    (c.answered op disconnected).Ok R := by
  unfold Consumer.answered
  split_ifs
  · exact ⟨hn, hlen⟩
  · exact ⟨hn, hlen⟩
  · exact ⟨hn, hlen⟩

theorem Consumer.moves_take (hc : Coupled cap sh R) {n : ℤ} (hn : n = R.taken.length)
    (hp : R.published R.taken.length = true) {r : Option T × RingBuffer T}
    (hr : r = sh.buffer.read n ∨ r = (sh.buffer.get n, sh.buffer)) {c : Consumer}
    (hok : c.Ok (R.take r.1)) :
    Moves cap sh R ({ sh with buffer := r.2 }, c, R.take r.1) := by
  subst hn
  have hget := hc.get_eq R.taken.length
  rcases hr with rfl | rfl
  · exact ⟨.take _ hp hget, hc.take (hc.buffer.read _) (RingBuffer.read_bits _ _) hp hget, rfl, hok⟩
  · exact ⟨.take _ hp hget, hc.take hc.buffer (fun _ => rfl) hp hget, rfl, hok⟩

theorem Consumer.step_moves {c : Consumer} {r : Shared T × Consumer × History T}
    (hc : Coupled cap sh R) (hok : c.Ok R) (h : c.step sh R = some r) : Moves cap sh R r := by
  obtain ⟨n, w, cached, pc⟩ := c
  obtain ⟨hn, hpc⟩ := hok
  dsimp only at hn hpc
  cases pc with
  | absent => cases h
  | idle => cases h
  | check op =>
    simp only [Consumer.step] at h
    split_ifs at h with havail
    · cases h
      exact .stay hc (ok_received hc op hn hpc havail)
    · cases op <;> cases h <;> exact .stay hc ⟨hn, hpc⟩
  | loadClosed op =>
    simp only [Consumer.step] at h
    split_ifs at h <;> cases h
    · exact .stay hc (ok_answered op _ hn hpc)
    · exact .stay hc (ok_answered op _ hn hpc)
    · exact .stay hc ⟨hn, hpc⟩
  | loadCount op =>
    simp only [Consumer.step] at h
    split_ifs at h <;> cases h
    · exact .stay hc (ok_answered op _ hn hpc)
    · exact .stay hc (ok_answered op _ hn hpc)
  | finalCheck op =>
    simp only [Consumer.step] at h
    split_ifs at h <;> cases h <;> exact .stay hc ⟨hn, hpc⟩
  | waitFor op l =>
    simp only [Consumer.step] at h
    split at h <;> cases h <;> exact .stay hc ⟨hn, hpc⟩
  | take op count i =>
    obtain ⟨hlen, hi, hpub⟩ := hpc
    simp only [Consumer.step] at h
    split_ifs at h with hlt
    · cases h
      refine moves_take hc (n := n + i) (by rw [hn, hlen, Nat.cast_add])
        (by rw [hlen]; exact hpub _ (by omega) (by omega)) ?_ ⟨hn, ?_, hlt, hpub⟩
      · cases op <;> first | exact Or.inl rfl | exact Or.inr rfl
      · show (R.taken ++ [_]).length = R.released + (i + 1)
        rw [List.length_append, hlen, List.length_singleton]
        rfl
    · cases h
      have hlast : n + count - 1 = ((R.released + count : ℕ) : ℤ) - 1 := by
        rw [hn, Nat.cast_add]
      have hnext : n + (count : ℤ) = ((R.released + count : ℕ) : ℤ) := by rw [hn, Nat.cast_add]
      rw [hlast, hnext, sub_add_cancel, asUsize_natCast]
      exact ⟨.release _ (by omega) (by omega), hc.release (by omega) (by omega), rfl, rfl, by
        show R.taken.length = R.released + count
        omega⟩
  | dropping =>
    cases h
    exact ⟨.stutter _, hc.flags _ _, rfl, hn, hpc⟩

theorem Consumer.call_moves {c : Consumer} {call : ConsumerCall} {r : Shared T × Consumer}
    (hc : Coupled cap sh R) (hok : c.Ok R) (h : c.call sh call = some r) :
    Moves cap sh R (r.1, r.2, R) := by
  obtain ⟨n, w, cached, pc⟩ := c
  obtain ⟨hn, hpc⟩ := hok
  dsimp only at hn hpc
  cases pc with
  | idle =>
    cases call with
    | start op =>
      simp only [Consumer.call] at h
      split at h <;> cases h <;> exact .stay hc ⟨hn, hpc⟩
    | close =>
      cases h
      exact ⟨.stutter _, hc.flags _ _, rfl, hn, hpc⟩
    | drop =>
      cases h
      exact ⟨.stutter _, hc.flags _ _, rfl, hn, hpc⟩
  | _ => cases call <;> cases h

end Consumer

/-! ## Every reachable state -/

theorem Inv.setProducer {s : State T} {r : Shared T × Producer T × History T} (h : Inv cap s)
    (m : Producer.Moves cap s.ring r) : Inv cap (s.setProducer r) :=
  ⟨m.coupled, m.ok, h.consumer.rely m.step⟩

theorem Inv.setConsumer {s : State T} {r : Shared T × Consumer × History T} (h : Inv cap s)
    (m : Consumer.Moves cap s.shared s.ring r) : Inv cap (s.setConsumer r) := by
  obtain ⟨hcap, hcached, a, ha, hpc⟩ := h.producer
  refine ⟨m.coupled, ⟨hcap, ?_, a, ?_, hpc.rely h.coupled.valid m.step⟩, m.ok⟩
  · exact lt_of_lt_of_le hcached (Int.ofNat_le.2 m.step.released_mono)
  · show r.1.producerCursor + 1 = a
    rw [m.cursor]
    exact ha

/-- An action is a move of the history, and keeps the invariant. -/
theorem Inv.next {s s' : State T} {a : Action T} (h : Inv cap s) (hs : s.next a = some s') :
    Inv cap s' ∧ ∃ o, SeqRing.Step cap o s.ring s'.ring := by
  cases a with
  | producerCall call =>
    simp only [State.next, Option.map_eq_some_iff] at hs
    obtain ⟨r, hr, rfl⟩ := hs
    have m := Producer.call_moves h.coupled h.producer hr
    exact ⟨h.setProducer m, _, m.step⟩
  | producerStep =>
    simp only [State.next, Option.map_eq_some_iff] at hs
    obtain ⟨r, hr, rfl⟩ := hs
    have m := Producer.step_moves h.coupled h.producer hr
    exact ⟨h.setProducer m, _, m.step⟩
  | consumerCall call =>
    simp only [State.next, Option.map_eq_some_iff] at hs
    obtain ⟨r, hr, rfl⟩ := hs
    have m := Consumer.call_moves h.coupled h.consumer hr
    exact ⟨h.setConsumer m, _, m.step⟩
  | consumerStep =>
    simp only [State.next, Option.map_eq_some_iff] at hs
    obtain ⟨r, hr, rfl⟩ := hs
    have m := Consumer.step_moves h.coupled h.consumer hr
    exact ⟨h.setConsumer m, _, m.step⟩

theorem inv_initial {factory : Option T} {b : RingBuffer T} (w : WaitStrategy)
    (h : RingBuffer.new cap factory = some b) : Inv cap (State.initial b cap w) := by
  have hvalid := SeqRing.valid_start (ι := Unit) (fun j => (b.slots j).bits) cap
  have hnone : (-1 : ℤ) < (0 : ℕ) := by decide
  refine ⟨⟨hvalid, RingBuffer.wellFormed_new h, rfl, rfl, fun s => ?_⟩,
    ⟨rfl, hnone, 0, rfl, rfl, rfl⟩, rfl, rfl⟩
  show false = true ↔ (s : ℤ) ≤ -1
  constructor
  · exact fun h => absurd h Bool.false_ne_true
  · intro h
    omega

theorem inv_of_reachable {w : WaitStrategy} {s : State T} (hs : (system T cap w).Reachable s) :
    Inv cap s := by
  refine System.Reachable.invariant ?_ (fun s a s' h hst => (h.next hst).1) hs
  rintro s ⟨factory, b, h, rfl⟩
  exact inv_initial w h

/-! ## Delivery -/

/-- The values published so far, in order. -/
def State.published (s : State T) : List (Option T) :=
  (List.range (asUsize (s.shared.producerCursor + 1))).map s.ring.contents

/-- The sequence whose slot an action writes. -/
def State.writes (s : State T) : Action T → Option ℤ
  | .producerStep =>
      match s.producer.pc with
      | .fill (.send _) => some s.producer.nextSequence
      | .fill (.trySend _) => some s.producer.nextSequence
      | _ => none
  | .producerCall (.setClaimed _) =>
      match s.producer.pc with
      | .idle => if s.producer.claimed then some s.producer.nextSequence else none
      | _ => none
  | .producerCall (.setSlot index _) =>
      match s.producer.pc with
      | .holding start count => if index < count then some (start + index) else none
      | _ => none
  | _ => none

theorem map_range_prefix {α : Type} {f g : ℕ → α} {a b : ℕ} (hab : a ≤ b)
    (h : ∀ n, n < a → f n = g n) : (List.range a).map f <+: (List.range b).map g := by
  obtain ⟨k, rfl⟩ := Nat.exists_eq_add_of_le hab
  rw [List.range_add, List.map_append,
    List.map_congr_left fun n hn => h n (List.mem_range.1 hn)]
  exact List.prefix_append _ _

/-- The cursor is before the first sequence that is not published. -/
theorem Inv.published_iff {s : State T} (h : Inv cap s) (n : ℕ) :
    s.ring.published n = true ↔ n < asUsize (s.shared.producerCursor + 1) := by
  obtain ⟨-, -, a, ha, -⟩ := h.producer
  rw [h.coupled.published n, ha, asUsize_natCast]
  omega

/-- A write goes to a sequence that is claimed, free and not published. -/
theorem Inv.writes_claimed {s : State T} (h : Inv cap s) {a : Action T} {q : ℤ}
    (hq : s.writes a = some q) :
    ∃ n : ℕ, q = n ∧ s.ring.published n = false ∧ n < s.ring.released + cap := by
  obtain ⟨-, -, k, -, hpc⟩ := h.producer
  unfold State.writes at hq
  split at hq
  · split at hq
    · next hfill =>
      cases hq
      rw [hfill] at hpc
      obtain ⟨hn, -, -, hs⟩ := hpc
      obtain ⟨hcl, room⟩ := hs k le_rfl (Nat.lt_succ_self k)
      exact ⟨k, hn, hcl.2, room⟩
    · next hfill =>
      cases hq
      rw [hfill] at hpc
      obtain ⟨hn, -, -, hs⟩ := hpc
      obtain ⟨hcl, room⟩ := hs k le_rfl (Nat.lt_succ_self k)
      exact ⟨k, hn, hcl.2, room⟩
    · cases hq
  · split at hq
    · next hidle =>
      split_ifs at hq with hclaimed
      cases hq
      rw [hidle] at hpc
      obtain ⟨hn, hcl⟩ := hpc
      rw [if_pos hclaimed] at hcl
      exact ⟨k, hn, hcl.2.claimed.2, hcl.2.room⟩
    · cases hq
  · split at hq
    · next index _ _ start count hhold =>
      split_ifs at hq with hi
      cases hq
      rw [hhold] at hpc
      obtain ⟨rfl, -, -, -, hs⟩ := hpc
      have hslot := hs (k + index) (by omega) (by omega)
      exact ⟨k + index, by rw [Nat.cast_add], hslot.claimed.2, hslot.room⟩
    · cases hq
  · cases hq

/-- What is taken is the beginning of what is published. -/
theorem Inv.taken_prefix {s : State T} (h : Inv cap s) : s.ring.taken <+: s.published := by
  have hle : s.ring.taken.length ≤ asUsize (s.shared.producerCursor + 1) := by
    by_contra hlt
    have hp := h.coupled.valid.taken_published _ (not_le.1 hlt)
    exact lt_irrefl _ ((h.published_iff _).1 hp)
  rw [h.coupled.valid.taken_eq]
  exact map_range_prefix hle fun _ _ => rfl

/-- No more than a lap is published and not taken. -/
theorem Inv.published_length {s : State T} (h : Inv cap s) :
    s.published.length ≤ s.ring.released + cap := by
  rw [State.published, List.length_map, List.length_range]
  by_contra hlt
  have hp := (h.published_iff (s.ring.released + cap)).2 (not_le.1 hlt)
  exact lt_irrefl _ (h.coupled.valid.published_room _ hp)

/-- What is published stays as it is. -/
theorem Inv.published_prefix {s s' : State T} {a : Action T} (h : Inv cap s)
    (hs : s.next a = some s') : s.published <+: s'.published := by
  obtain ⟨h', o, hstep⟩ := h.next hs
  refine map_range_prefix ?_ fun n hn => ?_
  · by_contra hlt
    have hp := hstep.published_mono ((h.published_iff _).2 (not_le.1 hlt))
    exact lt_irrefl _ ((h'.published_iff _).1 hp)
  · exact (hstep.published_fixed h.coupled.valid ((h.published_iff n).2 hn)).1.symm

/-- The values taken are a prefix of the values published; the cursors are at most a lap apart, and so
are the two sequences of values.  A published value that is not taken yet is in its slot, and no action
writes the slot of a sequence between its publication and its release. -/
theorem taken_prefix_published {w : WaitStrategy} {s : State T}
    (hs : (system T cap w).Reachable s) :
    s.ring.taken <+: s.published ∧
    (s.shared.consumerCursor ≤ s.shared.producerCursor ∧
      s.shared.producerCursor ≤ s.shared.consumerCursor + cap) ∧
    (s.ring.taken.length ≤ s.published.length ∧
      s.published.length ≤ s.ring.taken.length + cap) ∧
    (∀ n : ℕ, s.shared.consumerCursor < n → (n : ℤ) ≤ s.shared.producerCursor →
      s.shared.buffer.get n = s.ring.contents n) ∧
    (∀ a s', (system T cap w).step s a = some s' → s.published <+: s'.published ∧
      ∀ q, s.writes a = some q → ∀ n : ℕ, s.shared.consumerCursor < n →
        (n : ℤ) ≤ s.shared.producerCursor → s.shared.buffer.index n ≠ s.shared.buffer.index q) := by
  have h := inv_of_reachable hs
  have hv := h.coupled.valid
  have hcur := h.coupled.consumer
  have hpre := h.taken_prefix
  have hroom := h.published_length
  have hlen : (s.published.length : ℤ) = s.shared.producerCursor + 1 := by
    obtain ⟨-, -, a, ha, -⟩ := h.producer
    rw [State.published, List.length_map, List.length_range, ha, asUsize_natCast]
  have hrel := hv.released_le
  have htaken := hpre.length_le
  refine ⟨hpre, ⟨by omega, by omega⟩, ⟨htaken, by omega⟩, fun n h1 h2 => ?_, fun a s' hstep => ?_⟩
  · rw [h.coupled.get_eq]
    exact hv.published_slot n ((h.coupled.published n).2 h2) (by omega)
  · refine ⟨h.published_prefix hstep, fun q hq n h1 h2 => ?_⟩
    obtain ⟨k, rfl, hk, kroom⟩ := h.writes_claimed hq
    rw [h.coupled.buffer.index_eq, h.coupled.buffer.index_eq, asUsize_natCast, asUsize_natCast]
    exact hv.mod_ne hk kroom ((h.coupled.published n).2 h2) (by omega)

/-- One event through the channel: `send`, then `try_recv`. -/
def sendAndTryRecv (v : T) : List (Action T) :=
  .producerCall (.start (.send v)) :: List.replicate 4 .producerStep ++
    .consumerCall (.start .tryRecv) :: List.replicate 3 .consumerStep

theorem taken_prefix_published_run : ∃ s : State ℕ, (system ℕ 2 .busySpinWait).Reachable s ∧
    s.ring.taken = [some 7] ∧ s.ring.taken <+: s.published ∧ s.shared.consumerCursor = 0 ∧
    s.shared.producerCursor ≤ s.shared.consumerCursor + 2 := by
  obtain ⟨b, hb, s, hrun, htaken, hcursor⟩ : ∃ b, RingBuffer.new 2 (none : Option ℕ) = some b ∧
      ∃ s, (system ℕ 2 .busySpinWait).run (State.initial b 2 .busySpinWait) (sendAndTryRecv 7) =
        some s ∧ s.ring.taken = [some 7] ∧ s.shared.consumerCursor = 0 := ⟨_, rfl, _, rfl, rfl, rfl⟩
  have hs : (system ℕ 2 .busySpinWait).Reachable s :=
    System.Reachable.run (.init ⟨none, b, hb, rfl⟩) hrun
  obtain ⟨hpre, ⟨-, hlap⟩, -⟩ := taken_prefix_published hs
  exact ⟨s, hs, htaken, hpre, hcursor, hlap⟩

end Land.Spsc
