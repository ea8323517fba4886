import Land.Mpsc.Delivery

/-!
# Teardown of the MPSC channel

`Shared::drop` goes over every claimed sequence after the consumer's cursor and drops the slots of those
that `is_published` accepts.  The bitmap answers for one lap.  Claims that were given up when the channel
closed reach further, and a sequence one lap on reads as published exactly if the one before it is not
(`Parity.published_add_iff`): its slot is then dropped although nothing was written there, or once more.
-/

namespace Land.Mpsc

open Channel

variable {T : Type} {cap : ℕ}

/-- The sequences for which the loop of `Shared::drop` calls `drop_in_place`. -/
def Shared.dropSequences (sh : Shared T) : List ℤ :=
  let consumerSeq := sh.consumerCursor
  let claimSeq := sh.claimCursor
  if claimSeq > consumerSeq then
    ((List.range (asUsize (claimSeq - consumerSeq))).map fun i : ℕ => consumerSeq + 1 + i).filter
      sh.isPublished
  else []

/-- The slots that `Shared::drop` drops, in order. -/
def Shared.dropped (sh : Shared T) : List ℕ := sh.dropSequences.map sh.buffer.index

/-- All handles are gone. -/
def State.Final (s : State T) : Prop := (∀ p, s.producers p = .absent) ∧ s.consumer.pc = .absent

/-- `Shared::drop` drops the slot of each event that is published and not consumed, once, and no other;
what it drops is there. -/
structure State.DropsLeftovers (s : State T) : Prop where
  nodup : s.shared.dropped.Nodup
  mem_iff : ∀ j, j ∈ s.shared.dropped ↔ ∃ n : ℕ, s.ring.published n = true ∧
    s.ring.taken.length ≤ n ∧ j = s.shared.buffer.index n
  live : ∀ j ∈ s.shared.dropped, s.shared.buffer.LiveAt j

/-- The claims reach at most two laps, and the sequences one lap before those of the second are
published. -/
def State.SecondLapCovered (s : State T) : Prop :=
  s.shared.claimCursor ≤ s.shared.consumerCursor + 2 * s.shared.capacity ∧
    ∀ n : ℕ, s.shared.consumerCursor < n → n + s.shared.capacity ≤ s.shared.claimCursor →
      s.ring.published n = true

/-- A claim of a batch has found space, and the batch is handed out. -/
def State.handsOutBatch (s : State T) : Action T → Bool
  | .step p =>
      match s.producers p with
      | .fill (.batch _) _ => true
      | _ => false
  | _ => false

/-! ## What is dropped -/

section Dropped

variable {sh : Shared T} {R : History T}

theorem Shared.nodup_dropSequences (sh : Shared T) : sh.dropSequences.Nodup := by
  unfold Shared.dropSequences
  dsimp only
  split_ifs
  · apply List.Nodup.filter
    apply List.nodup_range.map
    intro i j hij
    have hij' : sh.consumerCursor + 1 + (i : ℤ) = sh.consumerCursor + 1 + (j : ℤ) := hij
    omega
  · exact List.nodup_nil

theorem Coupled.mem_dropSequences (hc : Coupled cap sh R) (q : ℤ) :
    q ∈ sh.dropSequences ↔ ∃ n : ℕ, q = n ∧ R.released ≤ n ∧ n < R.claims ∧
      Parity.Published cap sh.bit n := by
  have hrange (n : ℕ) : ((n : ℤ) ∈ (List.range (asUsize (sh.claimCursor - sh.consumerCursor))).map
      fun i : ℕ => sh.consumerCursor + 1 + i) ↔ R.released ≤ n ∧ n < R.claims := by
    rw [hc.claim, hc.consumer, List.mem_map]
    unfold asUsize
    constructor
    · rintro ⟨i, hi, hn⟩
      rw [List.mem_range] at hi
      omega
    · rintro ⟨h1, h2⟩
      exact ⟨n - R.released, List.mem_range.2 (by omega), by omega⟩
  unfold Shared.dropSequences
  dsimp only
  split_ifs with hlt
  · rw [List.mem_filter]
    constructor
    · rintro ⟨hq, hpub⟩
      obtain ⟨n, rfl⟩ : ∃ n : ℕ, q = n := by
        obtain ⟨i, -, rfl⟩ := List.mem_map.1 hq
        rw [hc.consumer]
        exact ⟨R.released + i, by push_cast; ring⟩
      obtain ⟨h1, h2⟩ := (hrange n).1 hq
      exact ⟨n, rfl, h1, h2, (isPublished_iff hc.bits n).1 hpub⟩
    · rintro ⟨n, rfl, h1, h2, hpub⟩
      exact ⟨(hrange n).2 ⟨h1, h2⟩, (isPublished_iff hc.bits n).2 hpub⟩
  · rw [hc.claim, hc.consumer] at hlt
    refine iff_of_false List.not_mem_nil ?_
    rintro ⟨n, -, h1, h2, -⟩
    omega

/-- Two sequences of one slot and an even number of laps apart would both be dropped. -/
theorem Coupled.eq_of_mem_dropSequences (hc : Coupled cap sh R) (hnodup : sh.dropped.Nodup) {m n : ℕ}
    (hm : (m : ℤ) ∈ sh.dropSequences) (hn : (n : ℤ) ∈ sh.dropSequences) (hmod : m % cap = n % cap) :
    m = n := by
  have hindex : sh.buffer.index m = sh.buffer.index n := by
    rw [hc.buffer.index_eq, hc.buffer.index_eq, asUsize_natCast, asUsize_natCast, hmod]
  exact Int.ofNat_inj.1 (List.inj_on_of_nodup_map hnodup hm hn hindex)

end Dropped

/-! ## What is sent is written -/

/-- A thread that is to publish an event has written it; no batch is out. -/
def Producer.Written (cap : ℕ) (b : RingBuffer T) : Producer T → Prop
  | .publish sequence => b.LiveAt (asUsize sequence % cap)
  | .holding _ _ => False
  | .flushing _ => False
  | _ => True

/-- The slots of the events that are published and not taken, or about to be published, hold values. -/
structure Written (cap : ℕ) (s : State T) : Prop where
  published : ∀ n, s.ring.published n = true → s.ring.taken.length ≤ n →
    s.shared.buffer.LiveAt (n % cap)
  producers : ∀ p, (s.producers p).Written cap s.shared.buffer

theorem Producer.Written.mono {b b' : RingBuffer T} {pc : Producer T} (h : pc.Written cap b)
    (hb : ∀ sequence, pc = .publish sequence → b.LiveAt (asUsize sequence % cap) →
      b'.LiveAt (asUsize sequence % cap)) : pc.Written cap b' := by
  cases pc with
  | publish sequence => exact hb sequence rfl h
  | holding start count => exact h
  | flushing rest => exact h
  | _ => trivial

section Steps

variable {sh : Shared T} {R : History T} {p : ℕ}

/-- What a producer publishes it has written, and nothing that holds a value loses it. -/
theorem Producer.step_written {pc : Producer T} {r : Shared T × Producer T × History T}
    (hc : Coupled cap sh R) (hp : pc.Ok cap R p) (hw : pc.Written cap sh.buffer)
    (hb : ∀ n e, pc ≠ .fill (.batch n) e) (h : Producer.step sh R p pc = some r) :
    r.2.1.Written cap r.1.buffer ∧ (∀ j, sh.buffer.LiveAt j → r.1.buffer.LiveAt j) ∧
      ∀ n, r.2.2.published n = true → R.published n = true ∨ r.1.buffer.LiveAt (n % cap) := by
  cases pc with
  | absent => cases h
  | idle => cases h
  | holding start count => exact hw.elim
  | flushing rest => exact hw.elim
  | claim what | tryLoad what attempt | closing =>
    cases h
    exact ⟨trivial, fun _ => id, fun _ => .inl⟩
  | fill what e =>
    cases what with
    | batch n => exact absurd rfl (hb n e)
    | event v =>
      cases h
      refine ⟨?_, fun j hj => hj.write e v, fun _ => .inl⟩
      show (sh.buffer.write e v).LiveAt (asUsize e % cap)
      rw [← hc.buffer.index_eq]
      exact sh.buffer.liveAt_write e v
  | publish sequence =>
    cases h
    obtain ⟨s, rfl, -⟩ := hp
    refine ⟨trivial, fun _ => id, fun n hn => ?_⟩
    simp only [SeqRing.publish, Bool.or_eq_true, decide_eq_true_eq] at hn
    rcases hn with hn | hn
    · exact .inl hn
    · obtain rfl : n = s := by
        rw [asUsize_natCast] at hn
        omega
      exact .inr hw
  | _ =>
    simp only [Producer.step] at h
    split_ifs at h <;> cases h <;> exact ⟨trivial, fun _ => id, fun _ => .inl⟩

theorem Producer.call_written {pc : Producer T} {call : ProducerCall T}
    {r : Shared T × Producer T × History T} (hw : pc.Written cap sh.buffer)
    (h : Producer.call sh R p pc call = some r) :
    r.2.1.Written cap r.1.buffer ∧ (∀ j, sh.buffer.LiveAt j → r.1.buffer.LiveAt j) ∧
      ∀ n, r.2.2.published n = true → R.published n = true ∨ r.1.buffer.LiveAt (n % cap) := by
  cases pc with
  | idle =>
    cases call with
    | claimBatch n | tryClaimBatch n =>
      simp only [Producer.call] at h
      split_ifs at h
      cases h
      exact ⟨trivial, fun _ => id, fun _ => .inl⟩
    | setSlot index v => cases h
    | publishBatch => cases h
    | _ =>
      cases h
      exact ⟨trivial, fun _ => id, fun _ => .inl⟩
  | holding start count => exact hw.elim
  | _ => cases call <;> cases h

/-- The consumer leaves the slots alone, or moves the next event out and takes it. -/
theorem Consumer.step_buffer {c : Consumer} {r : Shared T × Consumer × History T} (hok : c.Ok sh R)
    (h : c.step sh R = some r) :
    r.1.buffer = sh.buffer ∨
      r.1.buffer = (sh.buffer.read (R.taken.length : ℤ)).2 ∧ R.published R.taken.length = true ∧
        r.2.2.taken.length = R.taken.length + 1 := by
  obtain ⟨n, pc⟩ := c
  obtain ⟨hn, hpc⟩ := hok
  dsimp only at hn hpc
  cases pc with
  | absent => cases h
  | idle => cases h
  | check op =>
    simp only [Consumer.step] at h
    split_ifs at h
    · cases op <;> cases h <;> exact .inl rfl
    · cases h
      exact .inl rfl
  | disconnected op =>
    cases op with
    | recv =>
      simp only [Consumer.step] at h
      split_ifs at h <;> cases h <;> exact .inl rfl
    | tryRecv | peek =>
      cases h
      exact .inl rfl
  | finalCheck =>
    simp only [Consumer.step] at h
    split_ifs at h <;> cases h <;> exact .inl rfl
  | read =>
    cases h
    obtain ⟨hlen, hpub⟩ := hpc
    rw [← hlen] at hn hpub
    rw [hn]
    exact .inr ⟨rfl, hpub, by simp [SeqRing.take]⟩
  | store =>
    cases h
    exact .inl rfl
  | scanStart op =>
    simp only [Consumer.step] at h
    split at h <;> cases h <;> exact .inl rfl
  | scan op scan =>
    simp only [Consumer.step] at h
    split at h <;> cases h <;> exact .inl rfl
  | batchDisconnected op =>
    cases op with
    | recvBatch len =>
      simp only [Consumer.step] at h
      split_ifs at h <;> cases h <;> exact .inl rfl
    | _ =>
      cases h
      exact .inl rfl
  | batchRead op count i =>
    obtain ⟨hlen, hi, hpub⟩ := hpc
    simp only [Consumer.step] at h
    split_ifs at h with hlt <;> cases h
    · have hnext : n + (i : ℤ) = (R.taken.length : ℤ) := by rw [hn, hlen, Nat.cast_add]
      have hpub' : R.published R.taken.length = true := by
        rw [hlen]
        exact hpub _ (by omega) (by omega)
      rw [hnext]
      cases op with
      | poll => exact .inl rfl
      | _ => exact .inr ⟨rfl, hpub', by simp [SeqRing.take]⟩
    · exact .inl rfl

theorem Consumer.call_buffer {c : Consumer} {call : ConsumerCall} {r : Shared T × Consumer}
    (h : c.call sh call = some r) : r.1.buffer = sh.buffer := by
  obtain ⟨n, pc⟩ := c
  cases pc with
  | idle =>
    cases call with
    | batch op =>
      simp only [Consumer.call] at h
      split at h <;> cases h <;> rfl
    | _ =>
      cases h
      rfl
  | _ => cases call <;> cases h

end Steps

/-- Producer `p` moved: it published nothing but what it had written. -/
theorem Written.setProducer {s : State T} {p : ℕ} {r : Shared T × Producer T × History T}
    (h : Written cap s) (htaken : r.2.2.taken = s.ring.taken)
    (hr : r.2.1.Written cap r.1.buffer ∧ (∀ j, s.shared.buffer.LiveAt j → r.1.buffer.LiveAt j) ∧
      ∀ n, r.2.2.published n = true → s.ring.published n = true ∨ r.1.buffer.LiveAt (n % cap)) :
    Written cap (s.setProducer p r) := by
  obtain ⟨hown, hlive, hpub⟩ := hr
  refine ⟨fun n hn hlen => ?_, fun q => ?_⟩
  · rcases hpub n hn with hold | hnew
    · have hlen' : r.2.2.taken.length ≤ n := hlen
      rw [htaken] at hlen'
      exact hlive _ (h.published n hold hlen')
    · exact hnew
  · show (Function.update s.producers p r.2.1 q).Written cap r.1.buffer
    by_cases hq : q = p
    · subst hq
      rw [Function.update_self]
      exact hown
    · rw [Function.update_of_ne hq]
      exact (h.producers q).mono fun _ _ => hlive _

/-- The consumer moved: the slot it moved out is that of the event it took. -/
theorem Written.setConsumer {s : State T} {r : Shared T × Consumer × History T} (h : Written cap s)
    (hi : Inv cap s) (m : Consumer.Moves cap s.ring r)
    (hr : r.1.buffer = s.shared.buffer ∨
      r.1.buffer = (s.shared.buffer.read (s.ring.taken.length : ℤ)).2 ∧
        s.ring.published s.ring.taken.length = true ∧
        r.2.2.taken.length = s.ring.taken.length + 1) :
    Written cap { s with shared := r.1, consumer := r.2.1, ring := r.2.2 } := by
  have hv := hi.coupled.valid
  have hpublished := m.step.producer_eq.2
  rcases hr with hsame | ⟨hread, hnext, hlen⟩
  · refine ⟨fun n hn hlen => ?_, fun q => ?_⟩
    · rw [hpublished] at hn
      have hle : s.ring.taken.length ≤ n := m.step.taken_prefix.length_le.trans hlen
      show r.1.buffer.LiveAt (n % cap)
      rw [hsame]
      exact h.published n hn hle
    · show (s.producers q).Written cap r.1.buffer
      rw [hsame]
      exact h.producers q
  · -- the other sequences of the window have other slots
    have hother (n : ℕ) (hle : s.ring.taken.length < n) (hroom : n < s.ring.released + cap)
        (hlive : s.shared.buffer.LiveAt (n % cap)) : r.1.buffer.LiveAt (n % cap) := by
      rw [hread]
      apply (RingBuffer.liveAt_read_of_ne _).2 hlive
      rw [hi.coupled.buffer.index_eq, asUsize_natCast]
      intro hmod
      have hrel := hv.released_le
      have heq := SeqRing.eq_of_mod_eq (by omega) hroom hrel (hv.published_room _ hnext) hmod
      omega
    refine ⟨fun n hn hle => ?_, fun q => ?_⟩
    · rw [hpublished] at hn
      have hle' : s.ring.taken.length + 1 ≤ n := hlen.symm.trans_le hle
      exact hother n (by omega) (hv.published_room n hn) (h.published n hn (by omega))
    · apply (h.producers q).mono
      intro sequence hpc hlive
      have hok := hi.producers q
      rw [hpc] at hok
      obtain ⟨t, rfl, hacq⟩ := hok
      have hne : t ≠ s.ring.taken.length := by
        rintro rfl
        rw [hacq.claimed.2] at hnext
        cases hnext
      have hge := hv.taken_le_of_unpublished hacq.claimed.2
      exact hother t (by omega) hacq.room hlive

theorem Written.next {s s' : State T} {a : Action T} (h : Written cap s) (hi : Inv cap s)
    (hb : s.handsOutBatch a = false) (hs : s.next a = some s') : Written cap s' := by
  cases a with
  | call p call =>
    simp only [State.next, Option.map_eq_some_iff] at hs
    obtain ⟨r, hr, rfl⟩ := hs
    have m := Producer.call_moves hi.coupled (hi.producers p) hr
    exact h.setProducer m.step.consumer_eq.1 (Producer.call_written (h.producers p) hr)
  | step p =>
    simp only [State.next, Option.map_eq_some_iff] at hs
    obtain ⟨r, hr, rfl⟩ := hs
    have m := Producer.step_moves hi.coupled (hi.producers p) hr
    apply h.setProducer m.step.consumer_eq.1
    apply Producer.step_written hi.coupled (hi.producers p) (h.producers p) _ hr
    intro n e hpc
    simp [State.handsOutBatch, hpc] at hb
  | clone p q =>
    simp only [State.next] at hs
    split at hs
    · cases hs
      refine ⟨h.published, fun t => ?_⟩
      show (Function.update s.producers q .idle t).Written cap s.shared.buffer
      by_cases ht : t = q
      · subst ht
        rw [Function.update_self]
        trivial
      · rw [Function.update_of_ne ht]
        exact h.producers t
    · cases hs
  | consumerCall call =>
    simp only [State.next, Option.map_eq_some_iff] at hs
    obtain ⟨r, hr, rfl⟩ := hs
    have m := Consumer.call_moves hi.coupled hi.consumer hr
    exact h.setConsumer hi m (.inl (Consumer.call_buffer hr))
  | consumerStep =>
    simp only [State.next, Option.map_eq_some_iff] at hs
    obtain ⟨r, hr, rfl⟩ := hs
    have m := Consumer.step_moves hi.coupled hi.consumer hr
    exact h.setConsumer hi m (Consumer.step_buffer hi.consumer hr)

theorem written_of_reachable (hcap : 64 ≤ cap) {s : State T}
    (hs : (system T cap).ReachableVia (fun s a => s.handsOutBatch a = false) s) :
    Inv cap s ∧ Written cap s := by
  apply System.ReachableVia.invariant (I := fun s => Inv cap s ∧ Written cap s) _ _ hs
  · rintro s ⟨factory, sh, h, rfl⟩
    refine ⟨inv_initial hcap h, fun n hn => ?_, fun p => ?_⟩
    · cases hn
    · show (Function.update (fun _ => Producer.absent) 0 Producer.idle p).Written cap sh.buffer
      rw [Function.update_apply]
      split_ifs <;> trivial
  · rintro s a s' hb ⟨hi, h⟩ hst
    exact ⟨(hi.next hst).1, h.next hi hb hst⟩

/-! ## The drop -/

section Drop

variable {s : State T}

/-- The condition in terms of the history. -/
theorem Inv.secondLapCovered_iff (hi : Inv cap s) : s.SecondLapCovered ↔
    s.ring.claims ≤ s.ring.released + 2 * cap ∧
      ∀ n, s.ring.released ≤ n → n + cap < s.ring.claims → s.ring.published n = true := by
  unfold State.SecondLapCovered
  rw [hi.coupled.claim, hi.coupled.consumer, hi.coupled.bits.capacity_eq]
  constructor
  · rintro ⟨h1, h2⟩
    exact ⟨by omega, fun n hn hlt => h2 n (by omega) (by omega)⟩
  · rintro ⟨h1, h2⟩
    exact ⟨by omega, fun n hn hlt => h2 n (by omega) (by omega)⟩

/-- One lap on, a sequence reads as published exactly if the one before is not. -/
theorem Inv.published_add_iff (hi : Inv cap s) {n : ℕ} (h1 : s.ring.released ≤ n)
    (h2 : n < s.ring.released + cap) :
    Parity.Published cap s.shared.bit (n + cap) ↔ s.ring.published n = false := by
  rw [Parity.published_add_iff hi.coupled.bits.pos, hi.coupled.parity n h1 h2, Bool.not_eq_true]

/-- With the condition, what is dropped is in the consumer's window and published. -/
theorem Inv.published_of_mem (hi : Inv cap s) (h : s.SecondLapCovered) {n : ℕ}
    (hn : (n : ℤ) ∈ s.shared.dropSequences) :
    s.ring.released ≤ n ∧ n < s.ring.released + cap ∧ s.ring.published n = true := by
  obtain ⟨hlaps, hcovered⟩ := hi.secondLapCovered_iff.1 h
  obtain ⟨m, hm, h1, h2, hpub⟩ := (hi.coupled.mem_dropSequences n).1 hn
  obtain rfl : n = m := Int.ofNat_inj.1 hm
  rcases Nat.lt_or_ge n (s.ring.released + cap) with hlt | hge
  · exact ⟨h1, hlt, (hi.coupled.parity n h1 hlt).1 hpub⟩
  · obtain ⟨t, rfl⟩ : ∃ t, n = t + cap := ⟨n - cap, by omega⟩
    rw [hi.published_add_iff (by omega) (by omega), hcovered t (by omega) h2] at hpub
    cases hpub

theorem Inv.secondLapCovered (hi : Inv cap s) (hlen : s.ring.taken.length = s.ring.released)
    (h : s.DropsLeftovers) : s.SecondLapCovered := by
  have hpos := hi.coupled.bits.pos
  have hindex (n : ℕ) : s.shared.buffer.index n = n % cap := by
    rw [hi.coupled.buffer.index_eq, asUsize_natCast]
  have hcovered (n : ℕ) (h1 : s.ring.released ≤ n) (h2 : n < s.ring.released + cap)
      (hlt : n + cap < s.ring.claims) : s.ring.published n = true := by
    by_contra hnot
    -- the slot of `n` is dropped for the sequence one lap on
    have hmem : ((n + cap : ℕ) : ℤ) ∈ s.shared.dropSequences := by
      apply (hi.coupled.mem_dropSequences _).2
      exact ⟨n + cap, rfl, by omega, hlt, (hi.published_add_iff h1 h2).2 (by simpa using hnot)⟩
    obtain ⟨m, hm, hge, heq⟩ := (h.mem_iff _).1 (List.mem_map_of_mem hmem)
    rw [hindex, hindex, Nat.add_mod_right] at heq
    have hnm := SeqRing.eq_of_mod_eq h1 h2 (by omega) (hi.coupled.valid.published_room m hm) heq
    exact hnot (hnm ▸ hm)
  apply hi.secondLapCovered_iff.2
  have hlaps : s.ring.claims ≤ s.ring.released + 2 * cap := by
    by_contra hlt
    -- the first slot is dropped for its event and two laps on
    have hfirst := hcovered s.ring.released le_rfl (by omega) (by omega)
    have hpub := (hi.coupled.parity s.ring.released le_rfl (by omega)).2 hfirst
    have hpub' : Parity.Published cap s.shared.bit (s.ring.released + cap + cap) := by
      rw [Parity.published_add_iff hpos, hi.published_add_iff le_rfl (by omega), hfirst]
      decide
    have hmem : ((s.ring.released : ℕ) : ℤ) ∈ s.shared.dropSequences :=
      (hi.coupled.mem_dropSequences _).2 ⟨_, rfl, le_rfl, by omega, hpub⟩
    have hmem' : ((s.ring.released + cap + cap : ℕ) : ℤ) ∈ s.shared.dropSequences :=
      (hi.coupled.mem_dropSequences _).2 ⟨_, rfl, by omega, by omega, hpub'⟩
    have heq := hi.coupled.eq_of_mem_dropSequences h.nodup hmem hmem' (by simp)
    omega
  exact ⟨hlaps, fun n h1 h2 => hcovered n h1 (by omega) h2⟩

theorem Inv.dropsLeftovers (hi : Inv cap s) (hw : Written cap s)
    (hlen : s.ring.taken.length = s.ring.released) (h : s.SecondLapCovered) : s.DropsLeftovers := by
  have hindex (n : ℕ) : s.shared.buffer.index n = n % cap := by
    rw [hi.coupled.buffer.index_eq, asUsize_natCast]
  have hcast {q : ℤ} (hq : q ∈ s.shared.dropSequences) : ∃ n : ℕ, q = n :=
    let ⟨n, hn, _⟩ := (hi.coupled.mem_dropSequences q).1 hq
    ⟨n, hn⟩
  have hmem (j : ℕ) : j ∈ s.shared.dropped ↔ ∃ n : ℕ, s.ring.published n = true ∧
      s.ring.taken.length ≤ n ∧ j = s.shared.buffer.index n := by
    rw [Shared.dropped, List.mem_map]
    constructor
    · rintro ⟨q, hq, rfl⟩
      obtain ⟨n, rfl⟩ := hcast hq
      obtain ⟨h1, -, hpub⟩ := hi.published_of_mem h hq
      exact ⟨n, hpub, hlen.trans_le h1, rfl⟩
    · rintro ⟨n, hpub, hge, rfl⟩
      have hv := hi.coupled.valid
      refine ⟨n, (hi.coupled.mem_dropSequences n).2 ⟨n, rfl, by omega, hv.published_lt n hpub, ?_⟩, rfl⟩
      exact (hi.coupled.parity n (by omega) (hv.published_room n hpub)).2 hpub
  refine ⟨?_, hmem, ?_⟩
  · apply List.Nodup.map_on _ s.shared.nodup_dropSequences
    intro q hq q' hq' heq
    obtain ⟨n, rfl⟩ := hcast hq
    obtain ⟨m, rfl⟩ := hcast hq'
    obtain ⟨h1, h2, -⟩ := hi.published_of_mem h hq
    obtain ⟨h1', h2', -⟩ := hi.published_of_mem h hq'
    rw [hindex, hindex] at heq
    exact congrArg Nat.cast (SeqRing.eq_of_mod_eq h1 h2 h1' h2' heq)
  · intro j hj
    obtain ⟨n, hpub, hge, rfl⟩ := (hmem j).1 hj
    rw [hindex]
    exact hw.published n hpub hge

end Drop

/-- Only a clone gives a thread a handle. -/
theorem absent_of_next {s s' : State T} {a : Action T} {p : ℕ} (hs : s.next a = some s')
    (hp : s.producers p = .absent) (ha : ∀ q, a ≠ .clone q p) : s'.producers p = .absent := by
  cases a with
  | call q call =>
    simp only [State.next, Option.map_eq_some_iff] at hs
    obtain ⟨r, hr, rfl⟩ := hs
    by_cases hq : p = q
    · subst hq
      rw [hp] at hr
      cases call <;> cases hr
    · exact (Function.update_of_ne hq _ _).trans hp
  | step q =>
    simp only [State.next, Option.map_eq_some_iff] at hs
    obtain ⟨r, hr, rfl⟩ := hs
    by_cases hq : p = q
    · subst hq
      rw [hp] at hr
      cases hr
    · exact (Function.update_of_ne hq _ _).trans hp
  | clone q t =>
    simp only [State.next] at hs
    split at hs
    · cases hs
      have hne : p ≠ t := by
        rintro rfl
        exact ha q rfl
      exact (Function.update_of_ne hne _ _).trans hp
    · cases hs
  | consumerCall call =>
    simp only [State.next, Option.map_eq_some_iff] at hs
    obtain ⟨r, -, rfl⟩ := hs
    exact hp
  | consumerStep =>
    simp only [State.next, Option.map_eq_some_iff] at hs
    obtain ⟨r, -, rfl⟩ := hs
    exact hp

theorem absent_of_run {s s' : State T} {as : List (Action T)} {p : ℕ}
    (hs : (system T cap).run s as = some s') (hp : s.producers p = .absent)
    (ha : ∀ q, .clone q p ∉ as) : s'.producers p = .absent := by
  induction as generalizing s with
  | nil =>
    cases hs
    exact hp
  | cons a as ih =>
    simp only [System.run, Option.bind_eq_some_iff] at hs
    obtain ⟨t, ht, hs⟩ := hs
    apply ih hs _ fun q hq => ha q (List.mem_cons_of_mem _ hq)
    exact absent_of_next ht hp fun q he => ha q (he ▸ List.mem_cons_self)

/-- In every final state of a run that hands out no batch, `Shared::drop` drops exactly the events left
over exactly if the claims that were given up do not reach into a third lap, nor past an unpublished
sequence into the second. -/
theorem dropsLeftovers_iff (hcap : 64 ≤ cap) {s : State T}
    (hs : (system T cap).ReachableVia (fun s a => s.handsOutBatch a = false) s) (hfinal : s.Final) :
    s.DropsLeftovers ↔ s.SecondLapCovered := by
  obtain ⟨hi, hw⟩ := written_of_reachable hcap hs
  have hlen : s.ring.taken.length = s.ring.released := by
    have hpc := hi.consumer.pc
    rw [hfinal.2] at hpc
    exact hpc
  exact ⟨hi.secondLapCovered hlen, hi.dropsLeftovers hw hlen⟩

/-- An event is sent; then a claim of 64 slots waits for space until the consumer is dropped. -/
def abandonOne (v : T) : List (Action T) :=
  [.call 0 (.send v), .step 0, .step 0, .step 0, .step 0, .step 0,
    .call 0 (.claimBatch 64), .step 0, .step 0, .step 0,
    .consumerCall .drop, .step 0, .call 0 .drop, .step 0, .step 0]

theorem dropsLeftovers_iff_abandonOne : ∃ s : State ℕ, s.Final ∧ s.shared.claimCursor = 64 ∧
    s.shared.dropped = [0] ∧ s.DropsLeftovers := by
  obtain ⟨sh, hsh, s, hrun, h0, hc, hclaim, hconsumer, hcapacity, hpub, hdropped⟩ :
      ∃ sh, createShared 64 (none : Option ℕ) = some sh ∧
      ∃ s, (system ℕ 64).runVia (fun s a => !s.handsOutBatch a) (.initial sh) (abandonOne 7) =
          some s ∧ s.producers 0 = .absent ∧ s.consumer.pc = .absent ∧ s.shared.claimCursor = 64 ∧
        s.shared.consumerCursor = -1 ∧ s.shared.capacity = 64 ∧ s.ring.published 0 = true ∧
        s.shared.dropped = [0] :=
    ⟨_, rfl, _, rfl, rfl, rfl, rfl, rfl, rfl, rfl, by decide +kernel⟩
  have hreach : (system ℕ 64).ReachableVia (fun s a => s.handsOutBatch a = false) s :=
    System.ReachableVia.runVia (by simp) (.init ⟨none, sh, hsh, rfl⟩) hrun
  have hfinal : s.Final := by
    refine ⟨fun p => ?_, hc⟩
    match p with
    | 0 => exact h0
    | p + 1 => exact absent_of_run (System.run_of_runVia hrun) rfl (by simp [abandonOne])
  refine ⟨s, hfinal, hclaim, hdropped, (dropsLeftovers_iff le_rfl hreach hfinal).2 ?_⟩
  refine ⟨by rw [hclaim, hconsumer, hcapacity]; decide, fun n h1 h2 => ?_⟩
  obtain rfl : n = 0 := by
    rw [hclaim, hcapacity] at h2
    omega
  exact hpub

/-- An event is sent; then a claim of 64 slots and a claim of one wait for space until the consumer is
dropped. -/
def abandonTwo (v : T) : List (Action T) :=
  [.call 0 (.send v), .step 0, .step 0, .step 0, .step 0, .step 0, .clone 0 1,
    .call 0 (.claimBatch 64), .step 0, .step 0, .step 0, .call 1 (.send v), .step 1, .step 1, .step 1,
    .consumerCall .drop, .step 0, .step 1, .call 0 .drop, .step 0, .call 1 .drop, .step 1, .step 1]

/-- Slot 1, which was never written, is dropped for sequence 65. -/
theorem not_dropsLeftovers_abandonTwo : ∃ sh, createShared 64 (none : Option ℕ) = some sh ∧
    ∃ s, (system ℕ 64).run (.initial sh) (abandonTwo 7) = some s ∧ s.Final ∧
      s.shared.dropped = [0, 1] ∧ s.shared.buffer.slots 1 = .uninit ∧ ¬ s.DropsLeftovers := by
  obtain ⟨sh, hsh, s, hrun, h0, h1, hc, hdropped, hslot⟩ :
      ∃ sh, createShared 64 (none : Option ℕ) = some sh ∧
      ∃ s, (system ℕ 64).run (.initial sh) (abandonTwo 7) = some s ∧ s.producers 0 = .absent ∧
        s.producers 1 = .absent ∧ s.consumer.pc = .absent ∧ s.shared.dropped = [0, 1] ∧
        s.shared.buffer.slots 1 = .uninit :=
    ⟨_, rfl, _, rfl, rfl, rfl, rfl, by decide +kernel, rfl⟩
  refine ⟨sh, hsh, s, hrun, ⟨fun p => ?_, hc⟩, hdropped, hslot, fun h => ?_⟩
  · match p with
    | 0 => exact h0
    | 1 => exact h1
    | p + 2 => exact absent_of_run hrun rfl (by simp [abandonTwo])
  · obtain ⟨v, hv⟩ := h.live 1 (by simp [hdropped])
    rw [hslot] at hv
    cases hv

end Land.Mpsc
