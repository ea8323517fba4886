import Land.Spsc.Delivery

/-!
# A blocking receive when the producer goes away

`recv`, `recv_batch` and `recv_all` ask `is_disconnected` once and then wait on the cursor alone.  A
consumer that asked before the producer was dropped waits forever: `Stuck` states are reached, and
exactly by the release of the producer's handle under a waiting consumer (`ReleasesWaiting`).  The
load of the strong count is what makes this exact: a consumer that saw `closed` unset just before the
producer was dropped still notices that it is alone.
-/

namespace Land.Spsc

open Channel

variable {T : Type} {cap : ℕ} {w : WaitStrategy}

/-- The thread still has its handle. -/
def ProducerPc.alive : ProducerPc T → Bool
  | .absent => false
  | _ => true

/-- `drop` has closed the channel. -/
def ProducerPc.dropped : ProducerPc T → Bool
  | .absent => true
  | .dropping => true
  | _ => false

/-- The thread still has its handle. -/
def ConsumerPc.alive : ConsumerPc → Bool
  | .absent => false
  | _ => true

/-- The thread is inside `SequenceBarrier::wait_for`. -/
def ConsumerPc.inWaitFor : ConsumerPc → Bool
  | .waitFor _ _ => true
  | _ => false

/-- The thread is inside a receiving operation. -/
def ConsumerPc.inCall : ConsumerPc → Bool
  | .absent => false
  | .idle => false
  | .dropping => false
  | _ => true

/-- The consumer waits for a sequence that is not published. -/
def State.Waiting (s : State T) : Prop :=
  s.shared.producerCursor < s.consumer.nextSequence ∧ s.consumer.pc.inWaitFor = true

/-- The producer is gone, everything published is consumed, and the consumer is inside `wait_for` for
good: it is still there after any further steps. -/
def Stuck (cap : ℕ) (w : WaitStrategy) (s : State T) : Prop :=
  s.producer.pc = .absent ∧ s.shared.closed = true ∧
  s.shared.producerCursor < s.consumer.nextSequence ∧
  ∀ t, (system T cap w).Leads s t → t.consumer.pc.inWaitFor = true

/-- The producer's handle is released while the consumer waits. -/
def ReleasesWaiting (s : State T) (a : Action T) : Prop :=
  a = .producerStep ∧ s.producer.pc = .dropping ∧ s.Waiting

/-! ## The handles -/

/-- The strong count counts the handles, and a dropped producer has closed the channel. -/
structure Handles (s : State T) : Prop where
  count : s.shared.strongCount = s.producer.pc.alive.toNat + s.consumer.pc.alive.toNat
  closed : s.producer.pc.dropped = true → s.shared.closed = true

/-- What a step of the producer does to the handles: only the release in `drop` gives one up. -/
theorem Producer.step_handles {sh : Shared T} {R : History T} {P : Producer T}
    {r : Shared T × Producer T × History T} (h : P.step sh R = some r) :
    r.1.closed = sh.closed ∧
    (P.pc = .dropping ∧ r.2.1.pc = .absent ∧ r.1.strongCount = sh.strongCount - 1 ∧
        r.1.producerCursor = sh.producerCursor ∨
      P.pc.dropped = false ∧ r.2.1.pc.dropped = false ∧ r.1.strongCount = sh.strongCount) := by
  obtain ⟨cached, next, capacity, claimed, disconnected, pc⟩ := P
  cases pc with
  | absent => cases h
  | idle => cases h
  | holding start count => cases h
  | loadClosed op waiting =>
    simp only [Producer.step] at h
    split_ifs at h <;> cases h <;> exact ⟨rfl, Or.inr ⟨rfl, rfl, rfl⟩⟩
  | loadCount op waiting =>
    simp only [Producer.step, Producer.connected] at h
    split_ifs at h <;> cases h <;> exact ⟨rfl, Or.inr ⟨rfl, rfl, rfl⟩⟩
  | reload op =>
    simp only [Producer.step] at h
    split_ifs at h <;> cases h <;> exact ⟨rfl, Or.inr ⟨rfl, rfl, rfl⟩⟩
  | fill op => cases op <;> cases h <;> exact ⟨rfl, Or.inr ⟨rfl, rfl, rfl⟩⟩
  | publish =>
    cases h
    exact ⟨rfl, Or.inr ⟨rfl, rfl, rfl⟩⟩
  | dropping =>
    cases h
    exact ⟨rfl, Or.inl ⟨rfl, rfl, rfl, rfl⟩⟩

/-- A call leaves the producer its handle, and `drop` closes the channel. -/
theorem Producer.call_handles {sh : Shared T} {R : History T} {P : Producer T}
    {call : ProducerCall T} {r : Shared T × Producer T × History T}
    (h : P.call sh R call = some r) :
    P.pc.alive = true ∧ r.2.1.pc.alive = true ∧ r.1.strongCount = sh.strongCount ∧
      (r.2.1.pc.dropped = true → r.1.closed = true) := by
  obtain ⟨cached, next, capacity, claimed, disconnected, pc⟩ := P
  cases pc with
  | idle =>
    cases call with
    | drop =>
      cases h
      exact ⟨rfl, rfl, rfl, fun _ => rfl⟩
    | close =>
      cases h
      exact ⟨rfl, rfl, rfl, fun hd => absurd hd Bool.false_ne_true⟩
    | setSlot index v => cases h
    | publishBatch => cases h
    | _ =>
      simp only [Producer.call] at h
      split_ifs at h
      cases h
      exact ⟨rfl, rfl, rfl, fun hd => absurd hd Bool.false_ne_true⟩
  | holding start count =>
    cases call with
    | setSlot index v =>
      simp only [Producer.call] at h
      split_ifs at h
      cases h
      exact ⟨rfl, rfl, rfl, fun hd => absurd hd Bool.false_ne_true⟩
    | publishBatch =>
      cases h
      exact ⟨rfl, rfl, rfl, fun hd => absurd hd Bool.false_ne_true⟩
    | _ => cases h
  | _ => cases call <;> cases h

theorem Consumer.alive_received (c : Consumer) (op : RecvOp) (available : ℤ) :
    (c.received op available).pc.alive = true ∧ (c.received op available).pc.inWaitFor = false := by
  cases op <;> exact ⟨rfl, rfl⟩

theorem Consumer.alive_answered (c : Consumer) (op : RecvOp) (disconnected : Bool) :
    (c.answered op disconnected).pc.alive = true := by
  unfold Consumer.answered
  split_ifs <;> rfl

theorem Consumer.inWaitFor_answered_true (c : Consumer) (op : RecvOp) :
    (c.answered op true).pc.inWaitFor = false := by
  simp only [Consumer.answered, if_true]
  split_ifs <;> rfl

/-- What a step of the consumer does to the handles and the flags. -/
theorem Consumer.step_handles {sh : Shared T} {R : History T} {c : Consumer}
    {r : Shared T × Consumer × History T} (h : c.step sh R = some r) :
    r.1.closed = sh.closed ∧ r.1.producerCursor = sh.producerCursor ∧ c.pc.alive = true ∧
    (r.2.1.pc.alive = false ∧ r.1.strongCount = sh.strongCount - 1 ∨
      r.2.1.pc.alive = true ∧ r.1.strongCount = sh.strongCount) := by
  obtain ⟨n, w, cached, pc⟩ := c
  cases pc with
  | absent => cases h
  | idle => cases h
  | check op =>
    simp only [Consumer.step] at h
    split_ifs at h
    · cases h
      exact ⟨rfl, rfl, rfl, Or.inr ⟨(Consumer.alive_received _ op _).1, rfl⟩⟩
    · cases op <;> cases h <;> exact ⟨rfl, rfl, rfl, Or.inr ⟨rfl, rfl⟩⟩
  | loadClosed op =>
    simp only [Consumer.step] at h
    split_ifs at h <;> cases h
    · exact ⟨rfl, rfl, rfl, Or.inr ⟨Consumer.alive_answered _ op _, rfl⟩⟩
    · exact ⟨rfl, rfl, rfl, Or.inr ⟨Consumer.alive_answered _ op _, rfl⟩⟩
    · exact ⟨rfl, rfl, rfl, Or.inr ⟨rfl, rfl⟩⟩
  | loadCount op =>
    simp only [Consumer.step] at h
    split_ifs at h <;> cases h <;>
      exact ⟨rfl, rfl, rfl, Or.inr ⟨Consumer.alive_answered _ op _, rfl⟩⟩
  | finalCheck op =>
    simp only [Consumer.step] at h
    split_ifs at h <;> cases h <;> exact ⟨rfl, rfl, rfl, Or.inr ⟨rfl, rfl⟩⟩
  | waitFor op l =>
    simp only [Consumer.step] at h
    split at h <;> cases h <;> exact ⟨rfl, rfl, rfl, Or.inr ⟨rfl, rfl⟩⟩
  | take op count i =>
    simp only [Consumer.step] at h
    split_ifs at h <;> cases h <;> exact ⟨rfl, rfl, rfl, Or.inr ⟨rfl, rfl⟩⟩
  | dropping =>
    cases h
    exact ⟨rfl, rfl, rfl, Or.inl ⟨rfl, rfl⟩⟩

/-- `wait_for` is entered only by a consumer that has just seen another handle. -/
theorem Consumer.step_inWaitFor {sh : Shared T} {R : History T} {c : Consumer}
    {r : Shared T × Consumer × History T} (h : c.step sh R = some r)
    (hw : r.2.1.pc.inWaitFor = true) :
    sh.strongCount ≠ 1 ∨ c.pc.inWaitFor = true ∧ r.2.1.nextSequence = c.nextSequence := by
  obtain ⟨n, w, cached, pc⟩ := c
  cases pc with
  | loadCount op =>
    simp only [Consumer.step] at h
    split_ifs at h with hone
    · cases h
      rw [Consumer.inWaitFor_answered_true] at hw
      cases hw
    · exact Or.inl hone
  | waitFor op l =>
    simp only [Consumer.step] at h
    split at h <;> cases h
    · cases hw
    · exact Or.inr ⟨rfl, rfl⟩
  | absent => cases h
  | idle => cases h
  | check op =>
    simp only [Consumer.step] at h
    split_ifs at h
    · cases h
      rw [(Consumer.alive_received _ op _).2] at hw
      cases hw
    · cases op <;> cases h <;> cases hw
  | loadClosed op =>
    simp only [Consumer.step] at h
    split_ifs at h <;> cases h
    · rw [Consumer.inWaitFor_answered_true] at hw
      cases hw
    · rw [Consumer.inWaitFor_answered_true] at hw
      cases hw
    · cases hw
  | finalCheck op =>
    simp only [Consumer.step] at h
    split_ifs at h <;> cases h <;> cases hw
  | take op count i =>
    simp only [Consumer.step] at h
    split_ifs at h <;> cases h <;> cases hw
  | dropping =>
    cases h
    cases hw

theorem Consumer.call_handles {sh : Shared T} {c : Consumer} {call : ConsumerCall}
    {r : Shared T × Consumer} (h : c.call sh call = some r) :
    c.pc = .idle ∧ r.2.pc.alive = true ∧ r.2.pc.inWaitFor = false ∧
      r.1.strongCount = sh.strongCount ∧ (sh.closed = true → r.1.closed = true) := by
  obtain ⟨n, w, cached, pc⟩ := c
  cases pc with
  | idle =>
    cases call with
    | start op =>
      simp only [Consumer.call] at h
      split at h <;> cases h <;> exact ⟨rfl, rfl, rfl, rfl, id⟩
    | close =>
      cases h
      exact ⟨rfl, rfl, rfl, rfl, fun _ => rfl⟩
    | drop =>
      cases h
      exact ⟨rfl, rfl, rfl, rfl, fun _ => rfl⟩
  | _ => cases call <;> cases h

theorem ProducerPc.alive_of_dropped {pc : ProducerPc T} (h : pc.dropped = false) :
    pc.alive = true := by
  cases pc with
  | absent => cases h
  | _ => rfl

theorem Handles.next {s s' : State T} {a : Action T} (h : Handles s) (hs : s.next a = some s') :
    Handles s' := by
  obtain ⟨hcount, hclosed⟩ := h
  cases a with
  | producerCall call =>
    simp only [State.next, Option.map_eq_some_iff] at hs
    obtain ⟨r, hr, rfl⟩ := hs
    obtain ⟨ha, ha', hst, hd⟩ := Producer.call_handles hr
    refine ⟨?_, hd⟩
    show r.1.strongCount = r.2.1.pc.alive.toNat + s.consumer.pc.alive.toNat
    rw [hst, hcount, ha, ha']
  | producerStep =>
    simp only [State.next, Option.map_eq_some_iff] at hs
    obtain ⟨r, hr, rfl⟩ := hs
    obtain ⟨hcl, ⟨hd, habs, hst, -⟩ | ⟨ha, ha', hst⟩⟩ := Producer.step_handles hr
    · refine ⟨?_, fun _ => hcl.trans (hclosed (by rw [hd]; rfl))⟩
      show r.1.strongCount = r.2.1.pc.alive.toNat + s.consumer.pc.alive.toNat
      rw [hd] at hcount
      rw [hst, habs, hcount]
      show 1 + s.consumer.pc.alive.toNat - 1 = 0 + s.consumer.pc.alive.toNat
      omega
    · refine ⟨?_, fun hd => absurd (ha'.symm.trans hd) Bool.false_ne_true⟩
      show r.1.strongCount = r.2.1.pc.alive.toNat + s.consumer.pc.alive.toNat
      rw [hst, hcount, ProducerPc.alive_of_dropped ha, ProducerPc.alive_of_dropped ha']
  | consumerCall call =>
    simp only [State.next, Option.map_eq_some_iff] at hs
    obtain ⟨r, hr, rfl⟩ := hs
    obtain ⟨hidle, ha, -, hst, hcl⟩ := Consumer.call_handles hr
    refine ⟨?_, fun hd => hcl (hclosed hd)⟩
    show r.1.strongCount = s.producer.pc.alive.toNat + r.2.pc.alive.toNat
    rw [hst, hcount, hidle, ha]
    rfl
  | consumerStep =>
    simp only [State.next, Option.map_eq_some_iff] at hs
    obtain ⟨r, hr, rfl⟩ := hs
    obtain ⟨hcl, -, ha, ⟨ha', hst⟩ | ⟨ha', hst⟩⟩ := Consumer.step_handles hr
    · refine ⟨?_, fun hd => hcl.trans (hclosed hd)⟩
      show r.1.strongCount = s.producer.pc.alive.toNat + r.2.1.pc.alive.toNat
      rw [hst, hcount, ha, ha']
      exact Nat.add_sub_cancel _ 1
    · refine ⟨?_, fun hd => hcl.trans (hclosed hd)⟩
      show r.1.strongCount = s.producer.pc.alive.toNat + r.2.1.pc.alive.toNat
      rw [hst, hcount, ha, ha']

theorem handles_of_reachable {s : State T} (hs : (system T cap w).Reachable s) : Handles s := by
  refine System.Reachable.invariant ?_ (fun s a s' h hst => h.next hst) hs
  rintro s ⟨factory, b, -, rfl⟩
  exact ⟨rfl, nofun⟩

/-! ## Waiting for a producer that is gone -/

theorem Consumer.step_of_waiting {sh : Shared T} {R : History T} {c : Consumer}
    {r : Shared T × Consumer × History T} (hlt : sh.producerCursor < c.nextSequence)
    (hw : c.pc.inWaitFor = true) (h : c.step sh R = some r) :
    r.1.producerCursor = sh.producerCursor ∧ r.2.1.nextSequence = c.nextSequence ∧
      r.2.1.pc.inWaitFor = true := by
  obtain ⟨n, w, cached, pc⟩ := c
  cases pc with
  | waitFor op l =>
    simp only [Consumer.step] at h
    split at h
    · next hnone => exact absurd hnone (WaitStrategy.turn_ne_none hlt)
    · cases h
      exact ⟨rfl, rfl, rfl⟩
  | _ => cases hw

/-- Once the producer is gone, a waiting consumer waits on, whatever step is made. -/
theorem State.Waiting.next {s s' : State T} {a : Action T} (hw : s.Waiting)
    (habs : s.producer.pc = .absent) (hs : s.next a = some s') :
    s'.producer.pc = .absent ∧ s'.Waiting := by
  obtain ⟨hlt, hin⟩ := hw
  cases a with
  | producerCall call =>
    simp only [State.next, Option.map_eq_some_iff] at hs
    obtain ⟨r, hr, -⟩ := hs
    have ha := (Producer.call_handles hr).1
    rw [habs] at ha
    cases ha
  | producerStep =>
    simp only [State.next, Producer.step, habs] at hs
    cases hs
  | consumerCall call =>
    simp only [State.next, Option.map_eq_some_iff] at hs
    obtain ⟨r, hr, -⟩ := hs
    rw [(Consumer.call_handles hr).1] at hin
    cases hin
  | consumerStep =>
    simp only [State.next, Option.map_eq_some_iff] at hs
    obtain ⟨r, hr, rfl⟩ := hs
    obtain ⟨hcur, hnext, hin'⟩ := Consumer.step_of_waiting hlt hin hr
    refine ⟨habs, ?_, hin'⟩
    show r.1.producerCursor < r.2.1.nextSequence
    rw [hcur, hnext]
    exact hlt

theorem State.Waiting.stuck {s : State T} (hw : s.Waiting) (habs : s.producer.pc = .absent)
    (hclosed : s.shared.closed = true) : Stuck cap w s := by
  refine ⟨habs, hclosed, hw.1, fun t ht => ?_⟩
  have := ht.invariant (I := fun t => t.producer.pc = .absent ∧ t.Waiting) ⟨habs, hw⟩
    fun _ _ _ h hst => h.2.next h.1 hst
  exact this.2.2

theorem Stuck.waiting {s : State T} (h : Stuck cap w s) : s.Waiting :=
  ⟨h.2.2.1, h.2.2.2 s .refl⟩

/-- Only the release of the producer's handle makes a consumer wait for nobody. -/
theorem Handles.waiting_next {s s' : State T} {a : Action T} (h : Handles s)
    (hs : s.next a = some s') (habs : s'.producer.pc = .absent) (hw : s'.Waiting) :
    ReleasesWaiting s a ∨ s.producer.pc = .absent ∧ s.Waiting := by
  cases a with
  | producerCall call =>
    simp only [State.next, Option.map_eq_some_iff] at hs
    obtain ⟨r, hr, rfl⟩ := hs
    have ha : r.2.1.pc.alive = true := (Producer.call_handles hr).2.1
    rw [show r.2.1.pc = .absent from habs] at ha
    cases ha
  | producerStep =>
    simp only [State.next, Option.map_eq_some_iff] at hs
    obtain ⟨r, hr, rfl⟩ := hs
    obtain ⟨-, ⟨hd, -, -, hcur⟩ | ⟨-, hd, -⟩⟩ := Producer.step_handles hr
    · refine Or.inl ⟨rfl, hd, ?_, hw.2⟩
      rw [← hcur]
      exact hw.1
    · rw [show r.2.1.pc = .absent from habs] at hd
      cases hd
  | consumerCall call =>
    simp only [State.next, Option.map_eq_some_iff] at hs
    obtain ⟨r, hr, rfl⟩ := hs
    exact absurd ((Consumer.call_handles hr).2.2.1.symm.trans hw.2) Bool.false_ne_true
  | consumerStep =>
    simp only [State.next, Option.map_eq_some_iff] at hs
    obtain ⟨r, hr, rfl⟩ := hs
    have habs : s.producer.pc = .absent := habs
    obtain ⟨-, hcur, ha, -⟩ := Consumer.step_handles hr
    -- the consumer's is the only handle left
    have hone : s.shared.strongCount = 1 := by
      rw [h.count, habs, ha]
      rfl
    rcases Consumer.step_inWaitFor hr hw.2 with hne | ⟨hin, hnext⟩
    · exact absurd hone hne
    · refine Or.inr ⟨habs, ?_, hin⟩
      rw [← hcur, ← hnext]
      exact hw.1

/-! ## The return of a receive that finds nothing -/

/-- The consumer can return from its call without having taken anything. -/
def CanReturn (cap : ℕ) (w : WaitStrategy) (s : State T) : Prop :=
  ∃ t, (system T cap w).Leads s t ∧ t.consumer.pc = .idle ∧ t.ring.taken = s.ring.taken

theorem CanReturn.idle {s : State T} (h : s.consumer.pc = .idle) : CanReturn cap w s :=
  ⟨s, .refl, h, rfl⟩

/-- A step of the consumer that takes nothing. -/
theorem CanReturn.head {s : State T} {r : Shared T × Consumer × History T}
    (hs : s.consumer.step s.shared s.ring = some r) (ht : r.2.2.taken = s.ring.taken)
    (h : CanReturn cap w (s.setConsumer r)) : CanReturn cap w s := by
  obtain ⟨t, hl, hidle, htaken⟩ := h
  have hstep : (system T cap w).step s .consumerStep = some (s.setConsumer r) :=
    congrArg (Option.map s.setConsumer) hs
  exact ⟨t, hl.head hstep, hidle, htaken.trans ht⟩

theorem canReturn_finalCheck {s : State T} {op : RecvOp} (hpc : s.consumer.pc = .finalCheck op)
    (hlt : s.shared.producerCursor < s.consumer.nextSequence) : CanReturn cap w s := by
  have hstep : s.consumer.step s.shared s.ring =
      some (s.shared, { s.consumer with pc := .idle }, s.ring) := by
    simp only [Consumer.step, hpc]
    exact if_neg (not_le.2 hlt)
  exact .head hstep rfl (.idle rfl)

/-- `is_disconnected` answers yes. -/
theorem canReturn_answered {s : State T} (c : Consumer) (op : RecvOp)
    (hstep : s.consumer.step s.shared s.ring = some (s.shared, c.answered op true, s.ring))
    (hlt : s.shared.producerCursor < c.nextSequence) : CanReturn cap w s := by
  refine .head hstep rfl ?_
  simp only [Consumer.answered, if_true]
  split_ifs
  · exact canReturn_finalCheck rfl hlt
  · exact .idle rfl

theorem canReturn_loadClosed {s : State T} {op : RecvOp} (hpc : s.consumer.pc = .loadClosed op)
    (hclosed : s.shared.closed = true) (hlt : s.shared.producerCursor < s.consumer.nextSequence) :
    CanReturn cap w s := by
  cases hd : s.consumer.cachedDisconnected with
  | true =>
    refine canReturn_answered s.consumer op ?_ hlt
    simp [Consumer.step, hpc, hd]
  | false =>
    refine canReturn_answered { s.consumer with cachedDisconnected := true } op ?_ hlt
    simp [Consumer.step, hpc, hd, hclosed]

/-- With the producer gone and nothing left, a receive that is not inside `wait_for` returns. -/
theorem canReturn_of_absent {s : State T} (hi : Inv cap s) (hh : Handles s)
    (habs : s.producer.pc = .absent) (hlt : s.shared.producerCursor < s.consumer.nextSequence)
    (hcall : s.consumer.pc.inCall = true) (hw : s.consumer.pc.inWaitFor = false) :
    CanReturn cap w s := by
  have hclosed : s.shared.closed = true := hh.closed (by rw [habs]; rfl)
  cases hpc : s.consumer.pc with
  | absent => rw [hpc] at hcall; cases hcall
  | idle => rw [hpc] at hcall; cases hcall
  | dropping => rw [hpc] at hcall; cases hcall
  | waitFor op l => rw [hpc] at hw; cases hw
  | finalCheck op => exact canReturn_finalCheck hpc hlt
  | loadClosed op => exact canReturn_loadClosed hpc hclosed hlt
  | loadCount op =>
    have hone : s.shared.strongCount = 1 := by
      rw [hh.count, habs, hpc]
      rfl
    refine canReturn_answered { s.consumer with cachedDisconnected := true } op ?_ hlt
    simp [Consumer.step, hpc, hone]
  | check op =>
    have hnot : ¬ s.shared.producerCursor ≥ s.consumer.nextSequence := not_le.2 hlt
    have hstep : s.consumer.step s.shared s.ring =
          some (s.shared, { s.consumer with pc := .idle }, s.ring) ∨
        s.consumer.step s.shared s.ring =
          some (s.shared, { s.consumer with pc := .loadClosed op }, s.ring) := by
      cases op <;> simp [Consumer.step, hpc, hnot]
    rcases hstep with hstep | hstep
    · exact .head hstep rfl (.idle rfl)
    · exact .head hstep rfl (canReturn_loadClosed rfl hclosed hlt)
  | take op count i =>
    -- nothing is left to take, so the loop is over
    obtain ⟨hnext, hok⟩ := hi.consumer
    rw [hpc] at hok
    obtain ⟨-, hle, hpub⟩ := hok
    have hzero : ¬ i < count := by
      intro hlt'
      have := (hi.coupled.published s.ring.released).1 (hpub _ le_rfl (by omega))
      omega
    have hstep : s.consumer.step s.shared s.ring =
        some ({ s.shared with consumerCursor := s.consumer.nextSequence + count - 1 },
          { s.consumer with nextSequence := s.consumer.nextSequence + count, pc := .idle },
          s.ring.release (asUsize (s.consumer.nextSequence + count - 1 + 1))) := by
      simp only [Consumer.step, hpc, if_neg hzero]
    exact .head hstep rfl (.idle rfl)

/-! ## Disconnection -/

theorem not_waiting_of_reachableVia {s : State T}
    (hs : (system T cap w).ReachableVia (fun s a => ¬ ReleasesWaiting s a) s)
    (habs : s.producer.pc = .absent) : ¬ s.Waiting := by
  induction hs with
  | init h =>
    obtain ⟨factory, b, -, rfl⟩ := h
    cases habs
  | step a r c h ih =>
    intro hw
    rcases (handles_of_reachable r.reachable).waiting_next h habs hw with hr | ⟨habs', hw'⟩
    · exact c hr
    · exact ih habs' hw'

/-- A run in which the producer's handle is never released under a waiting consumer reaches no stuck
state, and a receive that finds the producer gone and nothing left can return; every such release
leads to a stuck state. -/
theorem stuck_iff_releasesWaiting (cap : ℕ) (w : WaitStrategy) :
    (∀ s, (system T cap w).ReachableVia (fun s a => ¬ ReleasesWaiting s a) s →
      ¬ Stuck cap w s ∧
      (s.producer.pc = .absent → s.shared.producerCursor < s.consumer.nextSequence →
        s.consumer.pc.inCall = true → CanReturn cap w s)) ∧
    (∀ s a s', (system T cap w).Reachable s → (system T cap w).step s a = some s' →
      ReleasesWaiting s a → Stuck cap w s') := by
  constructor
  · intro s hs
    have hnot := fun habs => not_waiting_of_reachableVia hs habs
    refine ⟨fun h => hnot h.1 h.waiting, fun habs hlt hcall => ?_⟩
    refine canReturn_of_absent (inv_of_reachable hs.reachable) (handles_of_reachable hs.reachable)
      habs hlt hcall ?_
    by_contra hw
    exact hnot habs ⟨hlt, by simpa using hw⟩
  · rintro s a s' hs hst ⟨rfl, hd, hlt, hin⟩
    have hclosed : s.shared.closed = true := (handles_of_reachable hs).closed (by rw [hd]; rfl)
    have hs' : s' = s.setProducer ({ s.shared with strongCount := s.shared.strongCount - 1 },
        { s.producer with pc := .absent }, s.ring) := by
      have hstep : s.next .producerStep = some s' := hst
      simp only [State.next, Producer.step, hd, Option.map_some, Option.some.injEq] at hstep
      exact hstep.symm
    subst hs'
    exact State.Waiting.stuck ⟨hlt, hin⟩ rfl hclosed

theorem stuck_iff_releasesWaiting_dropFirst : ∃ s : State ℕ, s.producer.pc = .absent ∧
    s.consumer.pc = .check .recv ∧ ¬ Stuck 64 .spinLoopHintWait s ∧
    CanReturn 64 .spinLoopHintWait s := by
  obtain ⟨b, hb⟩ : ∃ b, RingBuffer.new 64 (none : Option ℕ) = some b := ⟨_, rfl⟩
  have idle : ∀ {s : State ℕ} {a : Action ℕ}, s.consumer.pc = .idle → ¬ ReleasesWaiting s a := by
    rintro s a hidle ⟨-, -, -, hin⟩
    rw [hidle] at hin
    cases hin
  have h0 : (system ℕ 64 .spinLoopHintWait).ReachableVia (fun s a => ¬ ReleasesWaiting s a)
      (State.initial b 64 .spinLoopHintWait) := .init ⟨none, b, hb, rfl⟩
  have h1 := h0.step (.producerCall .drop) (idle rfl) rfl
  have h2 := h1.step .producerStep (idle rfl) rfl
  have h3 := h2.step (.consumerCall (.start .recv)) (idle rfl) rfl
  obtain ⟨hnot, hreturn⟩ := (stuck_iff_releasesWaiting 64 .spinLoopHintWait).1 _ h3
  exact ⟨_, rfl, rfl, hnot, hreturn rfl (show (-1 : ℤ) < 0 by decide) rfl⟩

/-- A receive that asks whether the channel is disconnected, waits, and then loses its producer. -/
def recvThenDrop : List (Action T) :=
  [.consumerCall (.start .recv), .consumerStep, .consumerStep, .consumerStep,
    .producerCall .drop, .producerStep]

theorem recvThenDrop_stuck : ∃ s : State ℕ, (system ℕ 64 .spinLoopHintWait).Reachable s ∧
    Stuck 64 .spinLoopHintWait s := by
  obtain ⟨b, hb, s, hrun, habs, hclosed, hlt, hin⟩ :
      ∃ b, RingBuffer.new 64 (none : Option ℕ) = some b ∧
      ∃ s, (system ℕ 64 .spinLoopHintWait).run (State.initial b 64 .spinLoopHintWait)
        recvThenDrop = some s ∧ s.producer.pc = .absent ∧ s.shared.closed = true ∧
        s.shared.producerCursor < s.consumer.nextSequence ∧ s.consumer.pc.inWaitFor = true :=
    ⟨_, rfl, _, rfl, rfl, rfl, by decide, rfl⟩
  exact ⟨s, System.Reachable.run (.init ⟨none, b, hb, rfl⟩) hrun,
    State.Waiting.stuck ⟨hlt, hin⟩ habs hclosed⟩

end Land.Spsc
