import Land.Mpsc.Invariant

/-!
# Delivery through the MPSC channel

The consumer's steps keep the invariant of `Land.Mpsc.Invariant`: what `is_published` and the word
scan find is published in the history, also when the scan runs up to the end of its window.  With the
producers' steps this gives the invariant of every reachable state, and delivery with it.
-/

namespace Land.Mpsc

open Channel

variable {T : Type} {cap : ℕ}

/-! ## What the consumer finds -/

section Finds

variable {sh : Shared T} {R : History T}

/-- The consumer's next sequence is published when `is_published` says so. -/
theorem Coupled.isPublished_next_iff (hc : Coupled cap sh R) {n : ℤ} (hn : n = R.released) :
    sh.isPublished n = true ↔ R.published R.released = true := by
  subst hn
  have hpos := hc.bits.pos
  rw [isPublished_iff hc.bits]
  exact hc.parity _ le_rfl (by omega)

/-- What the scan passes over is published.  It cannot pass the end of the window: the sequence
there shares its bit with the first one, which is published and of the other parity. -/
theorem Coupled.published_scan (hc : Coupled cap sh R) {q m : ℕ}
    (hpub : ∀ t, R.released ≤ t → t < q → R.published t = true)
    (hscan : ∀ t, q ≤ t → t < q + m → Parity.Published cap sh.bit t) :
    ∀ t, R.released ≤ t → t < q + m → R.published t = true := by
  have hpos := hc.bits.pos
  have window : ∀ t, R.released ≤ t → t < q + m → t < R.released + cap → R.published t = true := by
    intro t h1 h2 h3
    rcases Nat.lt_or_ge t q with hlt | hge
    · exact hpub t h1 hlt
    · exact (hc.parity t h1 h3).1 (hscan t hge h2)
  have hend : q + m ≤ R.released + cap := by
    by_contra hlt
    have hfirst := window R.released le_rfl (by omega) (by omega)
    have hqle : q ≤ R.released + cap := by
      by_contra hq'
      have := hc.valid.published_room _ (hpub (R.released + cap) (by omega) (by omega))
      omega
    have hlast := hscan (R.released + cap) hqle (by omega)
    rw [Parity.published_add_iff hpos] at hlast
    exact hlast ((hc.parity _ le_rfl (by omega)).2 hfirst)
  exact fun t h1 h2 => window t h1 h2 (by omega)

end Finds

/-! ## The consumer -/

/-- A step of the consumer is a move of the history that keeps the coupling and its knowledge. -/
structure Consumer.Moves (cap : ℕ) (R : History T) (r : Shared T × Consumer × History T) :
    Prop where
  step : SeqRing.Step cap none R r.2.2
  coupled : Coupled cap r.1 r.2.2
  ok : r.2.1.Ok r.1 r.2.2

section Consumer

variable {sh : Shared T} {R : History T}

theorem Consumer.Moves.stay (hc : Coupled cap sh R) {n : ℤ} {pc : ConsumerPc}
    (hn : n = R.released) (hp : pc.Ok sh R R.released) : Moves cap R (sh, ⟨n, pc⟩, R) :=
  ⟨.stutter _, hc, hn, hp⟩

/-- A scan that ends with everything below `b` published leads into the batch or gives up. -/
theorem Consumer.moves_afterScan (hc : Coupled cap sh R) {n : ℤ} (hn : n = R.released)
    {pc : ConsumerPc} (op : Batch) (hlen : R.taken.length = R.released) {b : ℕ}
    (hpub : ∀ t, R.released ≤ t → t < b → R.published t = true) :
    Moves cap R (sh, (⟨n, pc⟩ : Consumer).afterScan op ((b : ℤ) - 1), R) := by
  have batch : ∀ k, k ≤ asUsize ((b : ℤ) - 1 - n + 1) → n ≤ (b : ℤ) - 1 →
      Moves cap R (sh, ⟨n, .batchRead op k 0⟩, R) := by
    intro k hk hle
    refine .stay hc hn ⟨hlen, Nat.zero_le k, fun t h1 h2 => hpub t h1 ?_⟩
    unfold asUsize at hk
    omega
  unfold Consumer.afterScan
  dsimp only
  split_ifs with hge
  · cases op with
    | recvBatch len => exact batch _ (min_le_left _ _) hge
    | tryRecvBatch len => exact batch _ (min_le_left _ _) hge
    | poll => exact batch _ le_rfl hge
    | pending => exact .stay hc hn hlen
  · cases op with
    | recvBatch len => exact .stay hc hn hlen
    | tryRecvBatch len => exact .stay hc hn hlen
    | poll => exact .stay hc hn hlen
    | pending => exact .stay hc hn hlen

/-- Taking the event of the next sequence that is not taken, moved out or not. -/
theorem Consumer.moves_take (hc : Coupled cap sh R) {n : ℤ} (hn : n = R.taken.length)
    (hp : R.published R.taken.length = true) {r : Option T × RingBuffer T}
    (hr : r = sh.buffer.read n ∨ r = (sh.buffer.get n, sh.buffer)) {c : Consumer}
    (hok : c.Ok { sh with buffer := r.2 } (R.take r.1)) :
    Moves cap R ({ sh with buffer := r.2 }, c, R.take r.1) := by
  subst hn
  have hget := hc.get_eq R.taken.length
  rcases hr with rfl | rfl
  · exact ⟨.take _ hp hget, hc.take (hc.buffer.read _) (RingBuffer.read_bits _ _) hp hget, hok⟩
  · exact ⟨.take _ hp hget, hc.take hc.buffer (fun _ => rfl) hp hget, hok⟩

/-- Releasing everything that was taken. -/
theorem Consumer.moves_release (hc : Coupled cap sh R) {last : ℤ} {r : ℕ} (hlast : last + 1 = r)
    (hr : R.taken.length = r) :
    Moves cap R ({ sh with consumerCursor := last }, ⟨last + 1, .idle⟩,
      R.release (asUsize (last + 1))) := by
  obtain rfl : last = (r : ℤ) - 1 := by omega
  have hle := hc.valid.released_le
  rw [hlast, asUsize_natCast]
  exact ⟨.release r (by omega) (by omega), hc.release (by omega) (by omega), rfl, hr⟩

/-- A turn of the scan goes on at the next word, or ends in `afterScan`. -/
theorem Consumer.moves_scan (hc : Coupled cap sh R) {n : ℤ} (hn : n = R.released) (op : Batch)
    (hlen : R.taken.length = R.released) {q : ℕ} {scan : Scan} (hq : R.released ≤ q)
    (hat : scan.At sh q) (hpub : ∀ t, R.released ≤ t → t < q → R.published t = true) :
    (∀ highest, scan.step sh = .inl highest → ∀ pc,
      Moves cap R (sh, (⟨n, pc⟩ : Consumer).afterScan op highest, R)) ∧
    (∀ scan', scan.step sh = .inr scan' → Moves cap R (sh, ⟨n, .scan op scan'⟩, R)) := by
  obtain ⟨hend, hgo⟩ := Scan.step_spec hc.bits hat
  constructor
  · intro highest h pc
    obtain ⟨m, rfl, hm, -⟩ := hend highest h
    exact moves_afterScan hc hn op hlen (hc.published_scan hpub hm)
  · intro scan' h
    obtain ⟨m, hat', hm, -⟩ := hgo scan' h
    exact .stay hc hn ⟨hlen, q + m, by omega, hat', hc.published_scan hpub hm⟩

theorem Consumer.step_moves {c : Consumer} {r : Shared T × Consumer × History T}
    (hc : Coupled cap sh R) (hok : c.Ok sh R) (h : c.step sh R = some r) : Moves cap R r := by
  obtain ⟨n, pc⟩ := c
  obtain ⟨hn, hpc⟩ := hok
  dsimp only at hn hpc
  cases pc with
  | absent => cases h
  | idle => cases h
  | check op =>
    simp only [Consumer.step] at h
    split_ifs at h with hp
    · have hpub := (hc.isPublished_next_iff hn).1 hp
      cases op with
      | recv =>
        cases h
        exact .stay hc hn ⟨hpc, hpub⟩
      | tryRecv =>
        cases h
        exact .stay hc hn ⟨hpc, hpub⟩
      | peek =>
        cases h
        exact .stay hc hn hpc
    · cases h
      exact .stay hc hn hpc
  | disconnected op =>
    cases op with
    | recv =>
      simp only [Consumer.step] at h
      split_ifs at h <;> cases h <;> exact .stay hc hn hpc
    | tryRecv =>
      cases h
      exact .stay hc hn hpc
    | peek =>
      cases h
      exact .stay hc hn hpc
  | finalCheck =>
    simp only [Consumer.step] at h
    split_ifs at h <;> cases h <;> exact .stay hc hn hpc
  | read =>
    cases h
    obtain ⟨hlen, hpub⟩ := hpc
    refine moves_take hc (by rw [hn, hlen]) (by rw [hlen]; exact hpub) (Or.inl rfl) ⟨hn, ?_⟩
    show (R.taken ++ [_]).length = R.released + 1
    rw [List.length_append, hlen, List.length_singleton]
  | store =>
    cases h
    exact moves_release hc (r := R.released + 1) (by rw [hn, Nat.cast_add, Nat.cast_one]) hpc
  | scanStart op =>
    subst hn
    simp only [Consumer.step] at h
    cases hs : Scan.start sh (R.released : ℤ) with
    | inl highest =>
      rw [hs] at h
      cases h
      unfold Scan.start at hs
      split_ifs at hs
      cases hs
      exact moves_afterScan hc rfl op hpc fun t h1 h2 => absurd h1 (by omega)
    | inr scan =>
      rw [hs] at h
      cases h
      exact .stay hc rfl ⟨hpc, _, le_rfl, Scan.at_start hs, fun t h1 h2 => absurd h1 (by omega)⟩
  | scan op scan =>
    obtain ⟨hlen, q, hq, hat, hpub⟩ := hpc
    obtain ⟨hend, hgo⟩ := moves_scan hc hn op hlen hq hat hpub
    simp only [Consumer.step] at h
    cases hs : scan.step sh with
    | inl highest =>
      rw [hs] at h
      cases h
      exact hend highest hs _
    | inr scan' =>
      rw [hs] at h
      cases h
      exact hgo scan' hs
  | batchDisconnected op =>
    cases op with
    | recvBatch len =>
      simp only [Consumer.step] at h
      split_ifs at h <;> cases h <;> exact .stay hc hn hpc
    | tryRecvBatch len =>
      cases h
      exact .stay hc hn hpc
    | poll =>
      cases h
      exact .stay hc hn hpc
    | pending =>
      cases h
      exact .stay hc hn hpc
  | batchRead op count i =>
    obtain ⟨hlen, hi, hpub⟩ := hpc
    simp only [Consumer.step] at h
    split_ifs at h with hlt
    · cases h
      refine moves_take hc (n := n + i) (by rw [hn, hlen, Nat.cast_add])
        (by rw [hlen]; exact hpub _ (by omega) (by omega)) ?_ ⟨hn, ?_, hlt, hpub⟩
      · cases op <;> first | exact Or.inl rfl | exact Or.inr rfl
      · show (R.taken ++ [_]).length = R.released + (i + 1)
        rw [List.length_append, hlen, List.length_singleton]
        rfl
    · cases h
      have hcount : n + count - 1 + 1 = ((R.released + count : ℕ) : ℤ) := by
        rw [hn, Nat.cast_add]
        ring
      have hmove := moves_release hc hcount (by omega)
      rwa [show n + (count : ℤ) - 1 + 1 = n + count by ring] at hmove ⊢

/-- A call of the consumer changes no more than the flags. -/
theorem Consumer.call_moves {c : Consumer} {call : ConsumerCall} {r : Shared T × Consumer}
    (hc : Coupled cap sh R) (hok : c.Ok sh R) (h : c.call sh call = some r) :
    Moves cap R (r.1, r.2, R) := by
  obtain ⟨n, pc⟩ := c
  obtain ⟨hn, hpc⟩ := hok
  dsimp only at hn hpc
  cases pc with
  | idle =>
    cases call with
    | single op =>
      cases h
      exact .stay hc hn hpc
    | batch op =>
      simp only [Consumer.call] at h
      split at h <;> cases h <;> exact .stay hc hn hpc
    | close =>
      cases h
      exact .stay (hc.flags _ _ _) hn hpc
    | drop =>
      cases h
      exact .stay (hc.flags _ _ _) hn hpc
  | _ => cases call <;> cases h

end Consumer

/-! ## Every reachable state -/

/-- All words have all bits set, and there is one bit per slot. -/
theorem coupled_createShared (hcap : 64 ≤ cap) {factory : Option T} {sh : Shared T}
    (h : createShared cap factory = some sh) :
    Coupled cap sh (SeqRing.start fun j => (sh.buffer.slots j).bits) := by
  simp only [createShared, Option.map_eq_some_iff] at h
  obtain ⟨b, hb, rfl⟩ := h
  have hwf := RingBuffer.wellFormed_new hb
  have hdvd : 64 ∣ cap := by
    obtain ⟨k, rfl⟩ := (isPowerOfTwo_iff cap).1 hwf.isPowerOfTwo
    exact pow_dvd_pow 2 (m := 6) ((Nat.pow_le_pow_iff_right (by decide : 1 < 2)).1 hcap)
  refine ⟨SeqRing.valid_start _ _, hwf, ⟨rfl, ?_, by omega⟩, rfl, rfl, rfl, ?_⟩
  · show 64 * ((cap + bitsPerWord - 1) / bitsPerWord) = cap
    unfold bitsPerWord
    omega
  · refine Parity.tracks_start fun s _ => ?_
    show (BitVec.allOnes 64).getLsbD (s % 64) = true
    rw [BitVec.getLsbD_allOnes, decide_eq_true_eq]
    exact Nat.mod_lt _ (by decide)

theorem Inv.setProducer {s : State T} {p : ℕ} {r : Shared T × Producer T × History T}
    (h : Inv cap s) (m : Producer.Moves cap s.ring p r) : Inv cap (s.setProducer p r) := by
  refine ⟨m.coupled, fun q => ?_, ?_⟩
  · show (Function.update s.producers p r.2.1 q).Ok cap r.2.2 q
    by_cases hq : q = p
    · subst hq
      rw [Function.update_self]
      exact m.ok
    · rw [Function.update_of_ne hq]
      exact (h.producers q).rely h.coupled.valid m.step fun he => hq (Option.some.inj he).symm
  · exact h.consumer.rely (m.coupled.words_eq.trans h.coupled.words_eq.symm) m.step

theorem Inv.setConsumer {s : State T} {r : Shared T × Consumer × History T} (h : Inv cap s)
    (m : Consumer.Moves cap s.ring r) :
    Inv cap { s with shared := r.1, consumer := r.2.1, ring := r.2.2 } :=
  ⟨m.coupled, fun q => (h.producers q).rely h.coupled.valid m.step nofun, m.ok⟩

/-- An action is a move of the history, and keeps the invariant. -/
theorem Inv.next {s s' : State T} {a : Action T} (h : Inv cap s) (hs : s.next a = some s') :
    Inv cap s' ∧ ∃ o, SeqRing.Step cap o s.ring s'.ring := by
  cases a with
  | call p call =>
    simp only [State.next, Option.map_eq_some_iff] at hs
    obtain ⟨r, hr, rfl⟩ := hs
    have m := Producer.call_moves h.coupled (h.producers p) hr
    exact ⟨h.setProducer m, _, m.step⟩
  | step p =>
    simp only [State.next, Option.map_eq_some_iff] at hs
    obtain ⟨r, hr, rfl⟩ := hs
    have m := Producer.step_moves h.coupled (h.producers p) hr
    exact ⟨h.setProducer m, _, m.step⟩
  | clone p q =>
    simp only [State.next] at hs
    split at hs
    · cases hs
      have hflags := h.coupled.flags (s.shared.producerCount + 1) (s.shared.strongCount + 1)
        s.shared.closed
      have m : Producer.Moves cap s.ring q (_, .idle, s.ring) := .stay hflags trivial
      exact ⟨h.setProducer m, _, m.step⟩
    · cases hs
  | consumerCall call =>
    simp only [State.next, Option.map_eq_some_iff] at hs
    obtain ⟨r, hr, rfl⟩ := hs
    have m := Consumer.call_moves h.coupled h.consumer hr
    exact ⟨h.setConsumer m, _, m.step⟩
  | consumerStep =>
    simp only [State.next, Option.map_eq_some_iff] at hs
    obtain ⟨r, hr, rfl⟩ := hs
    have m := Consumer.step_moves h.coupled h.consumer hr
    exact ⟨h.setConsumer m, _, m.step⟩

theorem inv_initial (hcap : 64 ≤ cap) {factory : Option T} {sh : Shared T}
    (h : createShared cap factory = some sh) : Inv cap (State.initial sh) := by
  refine ⟨coupled_createShared hcap h, fun p => ?_, rfl, rfl⟩
  show (Function.update (fun _ => Producer.absent) 0 Producer.idle p).Ok cap _ p
  by_cases hp : p = 0
  · subst hp
    rw [Function.update_self]
    trivial
  · rw [Function.update_of_ne hp]
    trivial

theorem inv_of_reachable (hcap : 64 ≤ cap) {s : State T} (hs : (system T cap).Reachable s) :
    Inv cap s := by
  refine System.Reachable.invariant ?_ (fun s a s' h hst => (h.next hst).1) hs
  rintro s ⟨factory, sh, h, rfl⟩
  exact inv_initial hcap h

/-! ## Delivery -/

/-- The `n`-th event taken is what the producer that claimed sequence `n` left in its slot and
published.  What is published and not taken yet is still in its slot, and from its publication on
neither the value nor the producer of a sequence changes, whatever step is made. -/
theorem taken_eq_claimed (hcap : 64 ≤ cap) {s : State T} (hs : (system T cap).Reachable s) :
    (∀ n v, s.ring.taken[n]? = some v → ∃ p, s.ring.claimant n = some p ∧
      s.ring.author n = some p ∧ s.ring.published n = true ∧ v = s.ring.contents n) ∧
    (∀ n, s.ring.published n = true → s.ring.taken.length ≤ n →
      s.shared.buffer.get n = s.ring.contents n) ∧
    (∀ a s', (system T cap).step s a = some s' → s.ring.taken <+: s'.ring.taken ∧
      ∀ n, s.ring.published n = true → s'.ring.published n = true ∧
        s'.ring.contents n = s.ring.contents n ∧ s'.ring.claimant n = s.ring.claimant n ∧
        s'.ring.author n = s.ring.author n) := by
  have h := inv_of_reachable hcap hs
  have hv := h.coupled.valid
  refine ⟨fun n v hn => hv.delivery hn, ?_, ?_⟩
  · intro n hp hn
    rw [h.coupled.get_eq]
    exact hv.published_slot n hp (le_trans hv.released_le hn)
  · intro a s' hst
    obtain ⟨-, o, hmove⟩ := h.next hst
    exact ⟨hmove.taken_prefix, fun n hp => ⟨hmove.published_mono hp, hmove.published_fixed hv hp⟩⟩

/-- Producer `0` sends `v`, and the consumer receives it. -/
def sendAndTryRecv (v : T) : List (Action T) :=
  [.call 0 (.send v), .step 0, .step 0, .step 0, .step 0, .step 0,
    .consumerCall (.single .tryRecv), .consumerStep, .consumerStep, .consumerStep]

theorem taken_eq_claimed_run : ∃ s : State ℕ, (system ℕ 64).Reachable s ∧
    s.ring.taken = [some 7] ∧ ∃ p, s.ring.claimant 0 = some p ∧ s.ring.author 0 = some p ∧
      s.ring.published 0 = true ∧ some 7 = s.ring.contents 0 := by
  obtain ⟨sh, hsh, s, hrun, htaken⟩ : ∃ sh, createShared 64 (none : Option ℕ) = some sh ∧
      ∃ s, (system ℕ 64).run (State.initial sh) (sendAndTryRecv 7) = some s ∧
        s.ring.taken = [some 7] := ⟨_, rfl, _, rfl, rfl⟩
  have hs : (system ℕ 64).Reachable s := System.Reachable.run (.init ⟨none, sh, hsh, rfl⟩) hrun
  exact ⟨s, hs, htaken, (taken_eq_claimed (by decide) hs).1 0 (some 7) (by rw [htaken]; rfl)⟩

end Land.Mpsc
