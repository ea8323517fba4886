import Land.Spsc.Disconnect

/-!
# What a disconnection report of the SPSC consumer means

A blocking receive looks at the cursor once more after `is_disconnected`, and fails only if nothing is
left, whoever closed the channel (`drained_of_recvError`).  `try_recv`, `try_recv_batch` and `peek` look
at the cursor first and at the flag and the strong count afterwards.  In a channel that nobody closes
explicitly they report a disconnection with events left exactly if the producer's `drop` takes effect
between the two (`DropsUnseen`).
-/

namespace Land.Spsc

open Channel

variable {T : Type} {cap : ℕ} {w : WaitStrategy}

/-- `close` of the producer or of the consumer. -/
def Action.explicitClose : Action T → Bool
  | .producerCall .close => true
  | .consumerCall .close => true
  | _ => false

/-- `drop` has closed the channel. -/
def ConsumerPc.dropped : ConsumerPc → Bool
  | .absent => true
  | .dropping => true
  | _ => false

/-- The next step returns `RecvError` or `TryRecvError::Disconnected`. -/
def Consumer.reportsDisconnected (sh : Shared T) (c : Consumer) : Bool :=
  match c.pc with
  | .loadClosed op => !op.blocking && (c.cachedDisconnected || sh.closed)
  | .loadCount op => !op.blocking && decide (sh.strongCount = 1)
  | .finalCheck _ => decide (sh.producerCursor < c.nextSequence)
  | _ => false

/-- The producer's `drop` takes effect under an operation that has missed an event: it stores the flag
before the load of the flag, or releases the handle before the load of the count. -/
def DropsUnseen (s : State T) (a : Action T) : Prop :=
  s.consumer.nextSequence ≤ s.shared.producerCursor ∧ ∃ op : RecvOp, op.blocking = false ∧
    (a = .producerCall .drop ∧ s.consumer.pc = .loadClosed op ∨
      a = .producerStep ∧ s.producer.pc = .dropping ∧ s.consumer.pc = .loadCount op)

/-! ## The steps and the flags -/

section Flags

variable {sh : Shared T} {R : History T}

theorem Producer.call_flags {P : Producer T} {call : ProducerCall T}
    {r : Shared T × Producer T × History T} (h : P.call sh R call = some r) (hclose : call ≠ .close) :
    P.pc.dropped = false ∧ r.1.strongCount = sh.strongCount ∧
      (call = .drop ∧ r.2.1.pc = .dropping ∧ r.1.producerCursor = sh.producerCursor ∨
        r.1.closed = sh.closed) := by
  obtain ⟨cached, next, capacity, claimed, disconnected, pc⟩ := P
  cases pc with
  | idle =>
    cases call with
    | close => exact absurd rfl hclose
    | drop =>
      cases h
      exact ⟨rfl, rfl, .inl ⟨rfl, rfl, rfl⟩⟩
    | setSlot index v => cases h
    | publishBatch => cases h
    | _ =>
      simp only [Producer.call] at h
      split_ifs at h
      cases h
      exact ⟨rfl, rfl, .inr rfl⟩
  | holding start count =>
    cases call with
    | setSlot index v =>
      simp only [Producer.call] at h
      split_ifs at h
      cases h
      exact ⟨rfl, rfl, .inr rfl⟩
    | publishBatch =>
      cases h
      exact ⟨rfl, rfl, .inr rfl⟩
    | _ => cases h
  | _ => cases call <;> cases h

theorem Consumer.received_pc (sh : Shared T) (c : Consumer) (op : RecvOp) (available : ℤ) :
    (c.received op available).cachedDisconnected = c.cachedDisconnected ∧
      (c.received op available).reportsDisconnected sh = false := by
  cases op <;> exact ⟨rfl, rfl⟩

theorem Consumer.answered_pc (sh : Shared T) (c : Consumer) (op : RecvOp) (disconnected : Bool) :
    (c.answered op disconnected).cachedDisconnected = c.cachedDisconnected ∧
      (c.answered op disconnected).nextSequence = c.nextSequence ∧
      ((c.answered op disconnected).reportsDisconnected sh = true →
        sh.producerCursor < c.nextSequence) := by
  unfold Consumer.answered
  split_ifs
  · exact ⟨rfl, rfl, of_decide_eq_true⟩
  · exact ⟨rfl, rfl, nofun⟩
  · exact ⟨rfl, rfl, nofun⟩

/-- What a step of the consumer finds out: the cached flag comes from the flag or the count, and a report
comes after a look at the cursor, or at the flag. -/
theorem Consumer.step_flags {c : Consumer} {r : Shared T × Consumer × History T}
    (h : c.step sh R = some r) :
    (c.pc.dropped = true → r.2.1.pc.dropped = true) ∧
    (r.2.1.cachedDisconnected = true →
      c.cachedDisconnected = true ∨ sh.closed = true ∨ sh.strongCount = 1) ∧
    (r.2.1.reportsDisconnected r.1 = true →
      r.1.producerCursor < r.2.1.nextSequence ∨
        c.pc.dropped = false ∧ sh.closed = false ∧ sh.strongCount = 1) := by
  obtain ⟨n, w, cached, pc⟩ := c
  have hno {P : Prop} : false = true → P := fun he => absurd he Bool.false_ne_true
  cases pc with
  | absent => cases h
  | idle => cases h
  | check op =>
    simp only [Consumer.step] at h
    split_ifs at h with havail
    · cases h
      obtain ⟨hcached, hrep⟩ := Consumer.received_pc sh ⟨n, w, cached, .check op⟩ op
        sh.producerCursor
      exact ⟨hno, fun hc => .inl (hcached.symm.trans hc), fun hr => hno (hrep.symm.trans hr)⟩
    · have hlt : sh.producerCursor < n := not_le.1 havail
      cases op <;> cases h <;> exact ⟨hno, .inl, fun _ => .inl hlt⟩
  | loadClosed op =>
    simp only [Consumer.step] at h
    split_ifs at h with hcached hclosed <;> cases h
    · obtain ⟨-, hnext, hrep⟩ := Consumer.answered_pc sh ⟨n, w, cached, .loadClosed op⟩ op true
      exact ⟨hno, fun _ => .inl hcached, fun hr => .inl (hnext.symm ▸ hrep hr)⟩
    · obtain ⟨-, hnext, hrep⟩ := Consumer.answered_pc sh ⟨n, w, true, .loadClosed op⟩ op true
      exact ⟨hno, fun _ => .inr (.inl hclosed), fun hr => .inl (hnext.symm ▸ hrep hr)⟩
    · refine ⟨hno, .inl, fun hr => .inr ⟨rfl, by simpa using hclosed, ?_⟩⟩
      exact of_decide_eq_true (Bool.and_eq_true_iff.1 hr).2
  | loadCount op =>
    simp only [Consumer.step] at h
    split_ifs at h with hone <;> cases h
    · obtain ⟨-, hnext, hrep⟩ := Consumer.answered_pc sh ⟨n, w, true, .loadCount op⟩ op true
      exact ⟨hno, fun _ => .inr (.inr hone), fun hr => .inl (hnext.symm ▸ hrep hr)⟩
    · obtain ⟨hcached, hnext, hrep⟩ := Consumer.answered_pc sh ⟨n, w, cached, .loadCount op⟩ op
        false
      exact ⟨hno, fun hc => .inl (hcached.symm.trans hc), fun hr => .inl (hnext.symm ▸ hrep hr)⟩
  | finalCheck op | take op count i =>
    simp only [Consumer.step] at h
    split_ifs at h <;> cases h <;> exact ⟨hno, .inl, hno⟩
  | waitFor op l =>
    simp only [Consumer.step] at h
    split at h <;> cases h <;> exact ⟨hno, .inl, hno⟩
  | dropping =>
    cases h
    exact ⟨fun _ => rfl, .inl, hno⟩

theorem Consumer.call_flags {c : Consumer} {call : ConsumerCall} {r : Shared T × Consumer}
    (h : c.call sh call = some r) (hclose : call ≠ .close) :
    c.pc = .idle ∧ r.2.reportsDisconnected r.1 = false ∧
      (r.2.pc.dropped = true ∨
        r.1.closed = sh.closed ∧ r.2.cachedDisconnected = c.cachedDisconnected) := by
  obtain ⟨n, w, cached, pc⟩ := c
  cases pc with
  | idle =>
    cases call with
    | start op =>
      simp only [Consumer.call] at h
      split at h <;> cases h <;> exact ⟨rfl, rfl, .inr ⟨rfl, rfl⟩⟩
    | close => exact absurd rfl hclose
    | drop =>
      cases h
      exact ⟨rfl, rfl, .inl rfl⟩
  | _ => cases call <;> cases h

end Flags

/-! ## The handles -/

/-- In a channel that nobody closes explicitly, a consumer that still has its handle sees the flag, or
has cached its answer, only after the producer's `drop`. -/
structure Settled (s : State T) : Prop where
  handles : Handles s
  dropped : s.consumer.pc.dropped = false →
    s.shared.closed = true ∨ s.consumer.cachedDisconnected = true → s.producer.pc.dropped = true

namespace Settled

variable {s : State T}

theorem alive_of_not_dropped (hc : s.consumer.pc.dropped = false) : s.consumer.pc.alive = true := by
  cases hpc : s.consumer.pc with
  | absent => rw [hpc] at hc; cases hc
  | _ => rfl

theorem strongCount_ne_one (h : Settled s) (hp : s.producer.pc.dropped = false)
    (hc : s.consumer.pc.dropped = false) : s.shared.strongCount ≠ 1 := by
  rw [h.handles.count, ProducerPc.alive_of_dropped hp, alive_of_not_dropped hc]
  decide

/-- As long as the producer is there, nothing tells the consumer otherwise. -/
theorem not_seen (h : Settled s) (hp : s.producer.pc.dropped = false)
    (hc : s.consumer.pc.dropped = false) :
    ¬ (s.shared.closed = true ∨ s.consumer.cachedDisconnected = true) := by
  intro hseen
  rw [h.dropped hc hseen] at hp
  cases hp

end Settled

theorem Settled.next {s s' : State T} {a : Action T} (h : Settled s) (ha : a.explicitClose = false)
    (hs : s.next a = some s') : Settled s' := by
  refine ⟨h.handles.next hs, ?_⟩
  cases a with
  | producerCall call =>
    simp only [State.next, Option.map_eq_some_iff] at hs
    obtain ⟨r, hr, rfl⟩ := hs
    have hclose : call ≠ .close := by
      rintro rfl
      cases ha
    obtain ⟨hp, -, ⟨-, hpc, -⟩ | hclosed⟩ := Producer.call_flags hr hclose
    · intro _ _
      show r.2.1.pc.dropped = true
      rw [hpc]
      rfl
    · intro hc hseen
      exact absurd (hseen.imp_left hclosed.symm.trans) (h.not_seen hp hc)
  | producerStep =>
    simp only [State.next, Option.map_eq_some_iff] at hs
    obtain ⟨r, hr, rfl⟩ := hs
    obtain ⟨hclosed, ⟨-, hpc, -, -⟩ | ⟨hp, -, -⟩⟩ := Producer.step_handles hr
    · intro _ _
      show r.2.1.pc.dropped = true
      rw [hpc]
      rfl
    · intro hc hseen
      exact absurd (hseen.imp_left hclosed.symm.trans) (h.not_seen hp hc)
  | consumerCall call =>
    simp only [State.next, Option.map_eq_some_iff] at hs
    obtain ⟨r, hr, rfl⟩ := hs
    have hclose : call ≠ .close := by
      rintro rfl
      cases ha
    obtain ⟨hidle, -, hgone | ⟨hclosed, hcached⟩⟩ := Consumer.call_flags hr hclose
    · exact fun hc => absurd (hc.symm.trans hgone) Bool.false_ne_true
    · intro _ hseen
      apply h.dropped (by rw [hidle]; rfl)
      rw [← hclosed, ← hcached]
      exact hseen
  | consumerStep =>
    simp only [State.next, Option.map_eq_some_iff] at hs
    obtain ⟨r, hr, rfl⟩ := hs
    obtain ⟨hgone, hcached, -⟩ := Consumer.step_flags hr
    obtain ⟨hclosed, -⟩ := Consumer.step_handles hr
    intro hc hseen
    have hc' : s.consumer.pc.dropped = false := by
      by_contra hd
      exact absurd (hc.symm.trans (hgone (by simpa using hd))) Bool.false_ne_true
    rcases hseen with hseen | hseen
    · exact h.dropped hc' (.inl (hclosed.symm.trans hseen))
    · rcases hcached hseen with hold | hold | hone
      · exact h.dropped hc' (.inr hold)
      · exact h.dropped hc' (.inl hold)
      · show s.producer.pc.dropped = true
        by_contra hp
        exact h.strongCount_ne_one (by simpa using hp) hc' hone

theorem settled_of_reachable {C : State T → Action T → Prop} {s : State T}
    (hC : ∀ s a, C s a → a.explicitClose = false) (hs : (system T cap w).ReachableVia C s) :
    Settled s := by
  apply System.ReachableVia.invariant (I := Settled) _ _ hs
  · rintro s ⟨factory, b, -, rfl⟩
    refine ⟨⟨rfl, nofun⟩, ?_⟩
    rintro - (hclosed | hcached)
    · cases hclosed
    · cases hcached
  · exact fun s a s' c h hst => h.next (hC s a c) hst

/-! ## What a report means -/

/-- Where a report is made, everything taken is released. -/
theorem Consumer.Ok.taken_eq {sh : Shared T} {R : History T} {c : Consumer} (hok : c.Ok R)
    (hr : c.reportsDisconnected sh = true) : R.taken.length = R.released := by
  obtain ⟨n, w, cached, pc⟩ := c
  obtain ⟨-, hpc⟩ := hok
  cases pc with
  | take op count i => cases hr
  | _ => exact hpc

/-- Where a report is made, everything published is consumed exactly if the cursor is before the next
sequence. -/
theorem Inv.drained_iff {s : State T} (hi : Inv cap s)
    (hr : s.consumer.reportsDisconnected s.shared = true) :
    s.ring.Drained ↔ s.shared.producerCursor < s.consumer.nextSequence := by
  have hlen := hi.consumer.taken_eq hr
  rw [hi.consumer.next]
  constructor
  · intro h
    by_contra hle
    have hlt := h s.ring.released ((hi.coupled.published _).2 (not_lt.1 hle))
    omega
  · intro hlt n hn
    have hle := (hi.coupled.published n).1 hn
    omega

/-- A consumer about to report a disconnection has missed nothing. -/
def Seen (s : State T) : Prop :=
  s.consumer.reportsDisconnected s.shared = true →
    s.shared.producerCursor < s.consumer.nextSequence

/-- Where a report is made, and what it is made from. -/
theorem Consumer.reportsDisconnected_cases {sh : Shared T} {c : Consumer}
    (h : c.reportsDisconnected sh = true) :
    c.pc.dropped = false ∧ (sh.producerCursor < c.nextSequence ∨ ∃ op : RecvOp, op.blocking = false ∧
      (c.pc = .loadClosed op ∧ (sh.closed = true ∨ c.cachedDisconnected = true) ∨
        c.pc = .loadCount op ∧ sh.strongCount = 1)) := by
  obtain ⟨n, w, cached, pc⟩ := c
  cases pc with
  | loadClosed op =>
    simp only [reportsDisconnected, Bool.and_eq_true, Bool.not_eq_true', Bool.or_eq_true] at h
    exact ⟨rfl, .inr ⟨op, h.1, .inl ⟨rfl, h.2.symm⟩⟩⟩
  | loadCount op =>
    simp only [reportsDisconnected, Bool.and_eq_true, Bool.not_eq_true', decide_eq_true_eq] at h
    exact ⟨rfl, .inr ⟨op, h.1, .inr ⟨rfl, h.2⟩⟩⟩
  | finalCheck op => exact ⟨rfl, .inl (of_decide_eq_true h)⟩
  | _ => cases h

theorem Seen.next {s s' : State T} {a : Action T} (h : Seen s) (hset : Settled s)
    (ha : a.explicitClose = false) (hd : ¬ DropsUnseen s a) (hs : s.next a = some s') : Seen s' := by
  cases a with
  | producerCall call =>
    simp only [State.next, Option.map_eq_some_iff] at hs
    obtain ⟨r, hr, rfl⟩ := hs
    have hclose : call ≠ .close := by
      rintro rfl
      cases ha
    obtain ⟨hp, hcount, hcall⟩ := Producer.call_flags hr hclose
    intro hrep
    obtain ⟨hc, hlt | ⟨op, hop, ⟨hpc, hseen⟩ | ⟨-, hone⟩⟩⟩ := Consumer.reportsDisconnected_cases hrep
    · exact hlt
    · rcases hcall with ⟨rfl, -, hcursor⟩ | hclosed
      · show r.1.producerCursor < s.consumer.nextSequence
        rw [hcursor]
        by_contra hge
        exact hd ⟨not_lt.1 hge, op, hop, .inl ⟨rfl, hpc⟩⟩
      · exact absurd (hseen.imp_left hclosed.symm.trans) (hset.not_seen hp hc)
    · exact absurd (hcount.symm.trans hone) (hset.strongCount_ne_one hp hc)
  | producerStep =>
    simp only [State.next, Option.map_eq_some_iff] at hs
    obtain ⟨r, hr, rfl⟩ := hs
    intro hrep
    obtain ⟨hc, hlt | ⟨op, hop, hpc⟩⟩ := Consumer.reportsDisconnected_cases hrep
    · exact hlt
    obtain ⟨hclosed, ⟨hp, -, -, hcursor⟩ | ⟨hp, -, hcount⟩⟩ := Producer.step_handles hr
    · show r.1.producerCursor < s.consumer.nextSequence
      rw [hcursor]
      rcases hpc with ⟨hpc, hseen⟩ | ⟨hpc, -⟩
      · apply h
        have hseen' : s.shared.closed = true ∨ s.consumer.cachedDisconnected = true :=
          hseen.imp_left hclosed.symm.trans
        have hpc' : s.consumer.pc = .loadClosed op := hpc
        simp [Consumer.reportsDisconnected, hpc', hop, hseen'.symm]
      · by_contra hge
        exact hd ⟨not_lt.1 hge, op, hop, .inr ⟨rfl, hp, hpc⟩⟩
    · rcases hpc with ⟨-, hseen⟩ | ⟨-, hone⟩
      · exact absurd (hseen.imp_left hclosed.symm.trans) (hset.not_seen hp hc)
      · exact absurd (hcount.symm.trans hone) (hset.strongCount_ne_one hp hc)
  | consumerCall call =>
    simp only [State.next, Option.map_eq_some_iff] at hs
    obtain ⟨r, hr, rfl⟩ := hs
    have hclose : call ≠ .close := by
      rintro rfl
      cases ha
    obtain ⟨-, hrep, -⟩ := Consumer.call_flags hr hclose
    exact fun hrep' => absurd (hrep.symm.trans hrep') Bool.false_ne_true
  | consumerStep =>
    simp only [State.next, Option.map_eq_some_iff] at hs
    obtain ⟨r, hr, rfl⟩ := hs
    obtain ⟨-, -, hrep⟩ := Consumer.step_flags hr
    intro hrep'
    rcases hrep hrep' with hlt | ⟨hc, hclosed, hone⟩
    · exact hlt
    · -- the flag was not set, so the producer still had its handle
      have hp : s.producer.pc.dropped = false := by
        by_contra hd'
        rw [hset.handles.closed (by simpa using hd')] at hclosed
        cases hclosed
      exact absurd hone (hset.strongCount_ne_one hp hc)

theorem seen_of_reachable {s : State T}
    (hs : (system T cap w).ReachableVia (fun s a => a.explicitClose = false ∧ ¬ DropsUnseen s a) s) :
    Seen s := by
  induction hs with
  | init h =>
    obtain ⟨factory, b, -, rfl⟩ := h
    exact nofun
  | step a hr c h ih => exact ih.next (settled_of_reachable (fun _ _ c => c.1) hr) c.1 c.2 h

theorem Producer.call_drop {sh : Shared T} {R : History T} {P : Producer T}
    {r : Shared T × Producer T × History T} (h : P.call sh R .drop = some r) :
    r = ({ sh with closed := true }, { P with pc := .dropping }, R) := by
  obtain ⟨cached, next, capacity, claimed, disconnected, pc⟩ := P
  cases pc with
  | idle =>
    cases h
    rfl
  | _ => cases h

/-- A `drop` that takes effect unseen leads to a report with an event left. -/
theorem reports_of_dropsUnseen {s s' : State T} {a : Action T} (hh : Handles s) (hi : Inv cap s)
    (hs : s.next a = some s') (hd : DropsUnseen s a) :
    s'.consumer.reportsDisconnected s'.shared = true ∧ ¬ s'.ring.Drained := by
  have hi' := (hi.next hs).1
  obtain ⟨hle, op, hop, ⟨rfl, hpc⟩ | ⟨rfl, hp, hpc⟩⟩ := hd
  · simp only [State.next, Option.map_eq_some_iff] at hs
    obtain ⟨r, hr, rfl⟩ := hs
    obtain rfl := Producer.call_drop hr
    have hrep : s.consumer.reportsDisconnected { s.shared with closed := true } = true := by
      simp [Consumer.reportsDisconnected, hpc, hop]
    exact ⟨hrep, fun hdrained => absurd ((hi'.drained_iff hrep).1 hdrained) (not_lt.2 hle)⟩
  · simp only [State.next, Producer.step, hp, Option.map_some, Option.some.injEq] at hs
    subst hs
    have hcount : s.shared.strongCount = 2 := by
      rw [hh.count, hp, hpc]
      rfl
    have hrep : s.consumer.reportsDisconnected
        { s.shared with strongCount := s.shared.strongCount - 1 } = true := by
      simp [Consumer.reportsDisconnected, hpc, hop, hcount]
    exact ⟨hrep, fun hdrained => absurd ((hi'.drained_iff hrep).1 hdrained) (not_lt.2 hle)⟩

/-! ## The blocking receives -/

/-- The operation in progress, up to the point where it starts to take. -/
def ConsumerPc.receiving : ConsumerPc → Option RecvOp
  | .check op => some op
  | .loadClosed op => some op
  | .loadCount op => some op
  | .finalCheck op => some op
  | .waitFor op _ => some op
  | _ => none

/-- A blocking receive that returns without having taken anything returns `RecvError`: it has found
nothing in its final check. -/
theorem Consumer.step_recvError {sh : Shared T} {R : History T} {c : Consumer}
    {r : Shared T × Consumer × History T} {op : RecvOp} (hop : op.blocking = true)
    (hpc : c.pc.receiving = some op) (h : c.step sh R = some r) (hret : r.2.1.pc = .idle) :
    c.reportsDisconnected sh = true ∧ sh.producerCursor < c.nextSequence := by
  obtain ⟨n, w, cached, pc⟩ := c
  cases pc with
  | check op' =>
    cases hpc
    simp only [Consumer.step] at h
    split_ifs at h
    · cases h
      cases op with
      | recv | recvBatch len | recvAll => cases hret
      | tryRecv | peek | poll | tryRecvBatch len => cases hop
    · cases op with
      | recv | recvBatch len | recvAll =>
        cases h
        cases hret
      | tryRecv | peek | poll | tryRecvBatch len => cases hop
  | loadClosed op' =>
    cases hpc
    simp only [Consumer.step, Consumer.answered, hop] at h
    split_ifs at h <;> cases h <;> cases hret
  | loadCount op' =>
    cases hpc
    simp only [Consumer.step, Consumer.answered, hop] at h
    split_ifs at h <;> cases h <;> cases hret
  | finalCheck op' =>
    simp only [Consumer.step] at h
    split_ifs at h with hge <;> cases h
    · cases hret
    · exact ⟨decide_eq_true (not_le.1 hge), not_le.1 hge⟩
  | waitFor op' l =>
    simp only [Consumer.step] at h
    split at h <;> cases h <;> cases hret
  | _ => cases hpc

/-- What is published stays published, as it is. -/
theorem published_of_leads {t s : State T} (hi : Inv cap t) (hl : (system T cap w).Leads t s) {n : ℕ}
    (hn : t.ring.published n = true) :
    s.ring.published n = true ∧ s.ring.contents n = t.ring.contents n := by
  have hinv := hl.invariant (I := fun u => Inv cap u ∧ u.ring.published n = true ∧
    u.ring.contents n = t.ring.contents n) ⟨hi, hn, rfl⟩ ?_
  · exact hinv.2
  · rintro u a u' ⟨hiu, hpub, hcontents⟩ hst
    obtain ⟨hiu', o, hmove⟩ := hiu.next hst
    refine ⟨hiu', hmove.published_mono hpub, ?_⟩
    exact (hmove.published_fixed hiu.coupled.valid hpub).1.trans hcontents

/-- When `recv`, `recv_batch` or `recv_all` returns `RecvError`, every event published at any time before
has been consumed, in its place and as it was published, whoever closed the channel and when. -/
theorem consumed_of_recvError {t s s' : State T} (ht : (system T cap w).Reachable t)
    (hl : (system T cap w).Leads t s) {op : RecvOp} (hop : op.blocking = true)
    (hpc : s.consumer.pc.receiving = some op)
    (hs : (system T cap w).step s .consumerStep = some s') (hret : s'.consumer.pc = .idle) {n : ℕ}
    (hn : t.ring.published n = true) :
    n < s.ring.taken.length ∧ s.ring.taken[n]? = some (t.ring.contents n) := by
  have hi := inv_of_reachable (ht.leads hl)
  have hstep : s.next .consumerStep = some s' := hs
  simp only [State.next, Option.map_eq_some_iff] at hstep
  obtain ⟨r, hr, rfl⟩ := hstep
  obtain ⟨hrep, hlt⟩ := Consumer.step_recvError hop hpc hr hret
  obtain ⟨hpub, hcontents⟩ := published_of_leads (inv_of_reachable ht) hl hn
  have hlen : n < s.ring.taken.length := (hi.drained_iff hrep).2 hlt n hpub
  refine ⟨hlen, ?_⟩
  have htaken := List.getElem?_eq_getElem hlen
  rw [htaken, hi.coupled.valid.taken_contents n _ htaken, hcontents]

/-- An event is sent, the consumer closes the channel, receives the event, and asks again. -/
def recvAfterClose : List (Action T) :=
  [.consumerCall .close, .consumerCall (.start .recv), .consumerStep, .consumerStep, .consumerStep,
    .consumerCall (.start .recv), .consumerStep, .consumerStep]

theorem consumed_of_recvError_close : ∃ t s s' : State ℕ,
    (system ℕ 2 .busySpinWait).Reachable t ∧ t.shared.closed = false ∧
      t.ring.published 0 = true ∧ (system ℕ 2 .busySpinWait).run t recvAfterClose = some s ∧
      (system ℕ 2 .busySpinWait).step s .consumerStep = some s' ∧ s'.consumer.pc = .idle ∧
      s.ring.taken[0]? = some (t.ring.contents 0) := by
  obtain ⟨b, hb, t, ht, hopen, hpub, s, hs, s', hs', hpc, hret⟩ :
      ∃ b, RingBuffer.new 2 (none : Option ℕ) = some b ∧
      ∃ t, (system ℕ 2 .busySpinWait).run (State.initial b 2 .busySpinWait)
        [.producerCall (.start (.send 7)), .producerStep, .producerStep, .producerStep,
          .producerStep] = some t ∧ t.shared.closed = false ∧ t.ring.published 0 = true ∧
      ∃ s, (system ℕ 2 .busySpinWait).run t recvAfterClose = some s ∧
      ∃ s', (system ℕ 2 .busySpinWait).step s .consumerStep = some s' ∧
        s.consumer.pc.receiving = some .recv ∧ s'.consumer.pc = .idle :=
    ⟨_, rfl, _, rfl, rfl, rfl, _, rfl, _, rfl, rfl, rfl⟩
  have hreach : (system ℕ 2 .busySpinWait).Reachable t :=
    System.Reachable.run (.init ⟨none, b, hb, rfl⟩) ht
  exact ⟨t, s, s', hreach, hopen, hpub, hs, hs', hret,
    (consumed_of_recvError hreach (.run hs) rfl hpc hs' hret hpub).2⟩

end Land.Spsc
