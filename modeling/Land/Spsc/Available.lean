import Land.Spsc.Queue

/-!
# What the handles report

`available_slots`, `pending` and `has_pending` look at the other side's cursor.  What they report is the queue at
that step, and it can only get better until the same handle acts: the consumer only makes room, and the producer
only adds events.  So a producer that has seen `n` free slots is not refused `n` slots by its next call, and a
consumer that has seen an event does not come back empty-handed.
-/

namespace Land.Spsc

open Channel

variable {T : Type} {cap : ℕ}

/-- `Producer::available_slots`. -/
def Producer.availableSlots (sh : Shared T) (P : Producer T) : ℕ :=
  let pending := P.nextSequence - sh.consumerCursor - 1
  if pending < 0 then asUsize P.capacity else asUsize P.capacity - asUsize pending

/-- `Consumer::pending`. -/
def Consumer.pending (sh : Shared T) (c : Consumer) : ℕ :=
  let diff := sh.producerCursor - c.nextSequence + 1
  if diff < 0 then 0 else asUsize diff

/-- `Consumer::has_pending`. -/
def Consumer.hasPending (sh : Shared T) (c : Consumer) : Bool :=
  decide (sh.producerCursor ≥ c.nextSequence)

/-- The slots of a batch that is out. -/
def ProducerPc.held : ProducerPc T → ℕ
  | .holding _ count => count
  | _ => 0

/-- The operation that looks for space. -/
def ProducerPc.seeks : ProducerPc T → Option (SendOp T)
  | .loadClosed op _ => some op
  | .loadCount op _ => some op
  | .reload op => some op
  | _ => none

def Action.isProducerCall : Action T → Bool
  | .producerCall _ => true
  | _ => false

def Action.isConsumerCall : Action T → Bool
  | .consumerCall _ => true
  | _ => false

/-! ## The reports -/

namespace Inv

variable {s s' : State T}

theorem nextSequence_eq (h : Inv cap s) :
    s.producer.nextSequence = s.shared.producerCursor + 1 + s.producer.pc.held := by
  obtain ⟨-, -, a, ha, hpc⟩ := h.producer
  cases hat : s.producer.pc with
  | holding start count =>
    rw [hat] at hpc
    obtain ⟨-, -, hnext, -⟩ := hpc
    rw [hnext, ha, Nat.cast_add]
    rfl
  | _ =>
    rw [hat] at hpc
    rw [hpc.1, ha]
    exact (add_zero _).symm

/-- The slots reported free are those of neither the queue nor a batch that is out. -/
theorem availableSlots_eq (h : Inv cap s) :
    s.producer.availableSlots s.shared = cap - (s.shared.queue.length + s.producer.pc.held) := by
  have hnext := h.nextSequence_eq
  have hlen := h.length_queue
  obtain ⟨hcap, -, -⟩ := h.producer
  simp only [Producer.availableSlots, asUsize, hcap]
  split_ifs <;> omega

theorem pending_eq (h : Inv cap s) : s.consumer.pending s.shared = s.shared.queue.length := by
  have hlen := h.length_queue
  have hcur := h.coupled.consumer
  have hnext := h.consumer.next
  simp only [Consumer.pending, asUsize]
  split_ifs <;> omega

theorem hasPending_iff (h : Inv cap s) :
    s.consumer.hasPending s.shared = true ↔ 0 < s.shared.queue.length := by
  have hlen := h.length_queue
  have hcur := h.coupled.consumer
  have hnext := h.consumer.next
  rw [Consumer.hasPending, decide_eq_true_eq]
  omega

/-! ## What the other thread can do to them -/

theorem cursors_mono (h : Inv cap s) {a : Action T} (hs : s.next a = some s') :
    s.shared.consumerCursor ≤ s'.shared.consumerCursor ∧
      s.shared.producerCursor ≤ s'.shared.producerCursor := by
  have hshows := shows_next h hs
  generalize s.observe a = es at hshows
  cases hshows with
  | nothing hp hc => exact ⟨hc.ge, hp.ge⟩
  | push k hb hp hc => exact ⟨hc.ge, by omega⟩
  | pop hb hp hc => exact ⟨by omega, hp.ge⟩
  | front hsame hlt => rw [hsame]; exact ⟨le_rfl, le_rfl⟩
  | full n hsame hlt => rw [hsame]; exact ⟨le_rfl, le_rfl⟩
  | empty hsame hle => rw [hsame]; exact ⟨le_rfl, le_rfl⟩

end Inv

/-- A step of the producer that is not a call goes on with the same operation, for the same slots. -/
theorem Producer.step_seeks {sh : Shared T} {R : History T} {P : Producer T}
    {r : Shared T × Producer T × History T} (hr : P.step sh R = some r) {op : SendOp T}
    (hop : r.2.1.pc.seeks = some op) : P.pc.seeks = some op ∧ r.2.1.wrapPoint op = P.wrapPoint op := by
  unfold Producer.step at hr
  cases hat : P.pc with
  | absent => rw [hat] at hr; cases hr
  | idle => rw [hat] at hr; cases hr
  | holding start count => rw [hat] at hr; cases hr
  | loadClosed op' waiting =>
    rw [hat] at hr
    simp only at hr
    split_ifs at hr <;> cases hr <;> cases hop
    exact ⟨rfl, rfl⟩
  | loadCount op' waiting =>
    rw [hat] at hr
    simp only [Producer.connected] at hr
    split_ifs at hr <;> cases hr <;> cases hop
    exact ⟨rfl, rfl⟩
  | reload op' =>
    rw [hat] at hr
    simp only at hr
    split_ifs at hr <;> cases hr <;> cases hop
    exact ⟨rfl, rfl⟩
  | fill op' => rw [hat] at hr; cases op' <;> cases hr <;> cases hop
  | publish => rw [hat] at hr; cases hr; cases hop
  | dropping => rw [hat] at hr; cases hr; cases hop

variable {s s' : State T} {w : WaitStrategy}

/-! ## The producer gets what it has seen -/

theorem full_mem_observe {a : Action T} {n : ℕ} (h : .full n ∈ s.observe a) : a = .producerStep ∧
    ∃ op, s.producer.pc = .reload op ∧ s.shared.consumerCursor < s.producer.wrapPoint op := by
  unfold State.observe at h
  grind

theorem empty_mem_observe {a : Action T} (h : .empty ∈ s.observe a) : a = .consumerStep ∧
    ((∃ op, s.consumer.pc = .check op) ∨ ∃ op, s.consumer.pc = .finalCheck op) ∧
      s.shared.producerCursor < s.consumer.nextSequence := by
  unfold State.observe at h
  grind

/-- The operation under way has the room it asks for. -/
def Roomy (cap : ℕ) (s : State T) : Prop :=
  Inv cap s ∧ ∀ op, s.producer.pc.seeks = some op → s.producer.wrapPoint op ≤ s.shared.consumerCursor

theorem Roomy.next {a : Action T} (h : Roomy cap s) (ha : a.isProducerCall = false)
    (hs : s.next a = some s') : Roomy cap s' := by
  obtain ⟨hinv, hroom⟩ := h
  have hmono := (hinv.cursors_mono hs).1
  refine ⟨(hinv.next hs).1, fun op hop => ?_⟩
  cases a with
  | producerCall call => cases ha
  | producerStep =>
    obtain ⟨r, hr, rfl⟩ := Option.map_eq_some_iff.1 hs
    obtain ⟨hseek, hwrap⟩ := Producer.step_seeks hr hop
    rw [State.setProducer, hwrap]
    exact (hroom op hseek).trans hmono
  | consumerCall call =>
    rw [(consumer_moves hinv rfl hs).1] at hop ⊢
    exact (hroom op hop).trans hmono
  | consumerStep =>
    rw [(consumer_moves hinv rfl hs).1] at hop ⊢
    exact (hroom op hop).trans hmono

/-- With room at hand no step says "full". -/
theorem Roomy.not_full {a : Action T} (h : Roomy cap s) (n : ℕ) : .full n ∉ s.observe a := by
  intro hmem
  obtain ⟨-, op, hpc, hlt⟩ := full_mem_observe hmem
  have hle := h.2 op (by rw [hpc]; rfl)
  exact absurd hlt (not_lt.2 hle)

theorem Inv.roomy_start {op : SendOp T} (h : Inv cap s)
    (hcount : op.count ≤ s.producer.availableSlots s.shared)
    (hs : s.next (.producerCall (.start op)) = some s') : Roomy cap s' := by
  have hinv' := (h.next hs).1
  obtain ⟨r, hr, rfl⟩ := Option.map_eq_some_iff.1 hs
  unfold Producer.call at hr
  cases hat : s.producer.pc with
  | idle =>
    rw [hat] at hr
    simp only at hr
    split_ifs at hr with hstart
    cases hr
    refine ⟨hinv', fun op' hop => ?_⟩
    cases hop
    have hnext := h.nextSequence_eq
    have hlen := h.length_queue
    have havail := h.availableSlots_eq
    obtain ⟨hcap, -, -⟩ := h.producer
    obtain ⟨-, hpos, -⟩ := hstart
    have hheld : s.producer.pc.held = 0 := by rw [hat]; rfl
    show s.producer.nextSequence + op.count - 1 - s.producer.capacity ≤ s.shared.consumerCursor
    omega
  | _ =>
    rw [hat] at hr
    cases hr

/-! ## The consumer finds what it has seen -/

/-- The points that a call reaches only when it found nothing. -/
def ConsumerPc.disappointed : ConsumerPc → Bool
  | .loadClosed _ => true
  | .loadCount _ => true
  | .finalCheck _ => true
  | .waitFor _ _ => true
  | _ => false

/-- An operation about to look finds something. -/
def Supplied (cap : ℕ) (s : State T) : Prop :=
  Inv cap s ∧ s.consumer.pc.disappointed = false ∧
    ∀ op, s.consumer.pc = .check op → s.consumer.nextSequence ≤ s.shared.producerCursor

theorem Consumer.disappointed_received (c : Consumer) (op : RecvOp) (available : ℤ) :
    (c.received op available).pc.disappointed = false ∧ ∀ op', (c.received op available).pc ≠ .check op' := by
  cases op <;> exact ⟨rfl, by rintro _ ⟨⟩⟩

theorem Supplied.consumerStep (h : Supplied cap s) (hs : s.next .consumerStep = some s') :
    Supplied cap s' := by
  obtain ⟨hinv, hpc, hcheck⟩ := h
  have hinv' := (hinv.next hs).1
  obtain ⟨r, hr, rfl⟩ := Option.map_eq_some_iff.1 hs
  refine ⟨hinv', ?_⟩
  unfold Consumer.step at hr
  cases hat : s.consumer.pc with
  | absent => rw [hat] at hr; cases hr
  | idle => rw [hat] at hr; cases hr
  | check op =>
    rw [hat] at hr
    simp only at hr
    rw [if_pos (hcheck op hat)] at hr
    cases hr
    obtain ⟨hdis, hne⟩ := Consumer.disappointed_received s.consumer op s.shared.producerCursor
    exact ⟨hdis, fun op' hop => absurd hop (hne op')⟩
  | take op count i =>
    rw [hat] at hr
    simp only at hr
    split_ifs at hr <;> cases hr <;> exact ⟨rfl, by rintro _ ⟨⟩⟩
  | dropping =>
    rw [hat] at hr
    cases hr
    exact ⟨rfl, by rintro _ ⟨⟩⟩
  | _ =>
    rw [hat] at hpc
    cases hpc

theorem Supplied.next {a : Action T} (h : Supplied cap s) (ha : a.isConsumerCall = false)
    (hs : s.next a = some s') : Supplied cap s' := by
  have hmono := (h.1.cursors_mono hs).2
  have hinv' := (h.1.next hs).1
  cases a with
  | consumerCall call => cases ha
  | consumerStep => exact h.consumerStep hs
  | producerCall call =>
    obtain ⟨r, hr, rfl⟩ := Option.map_eq_some_iff.1 hs
    exact ⟨hinv', h.2.1, fun op hop => (h.2.2 op hop).trans hmono⟩
  | producerStep =>
    obtain ⟨r, hr, rfl⟩ := Option.map_eq_some_iff.1 hs
    exact ⟨hinv', h.2.1, fun op hop => (h.2.2 op hop).trans hmono⟩

theorem Supplied.not_empty {a : Action T} (h : Supplied cap s) : .empty ∉ s.observe a := by
  intro hmem
  obtain ⟨-, hpc, hlt⟩ := empty_mem_observe hmem
  rcases hpc with ⟨op, hpc⟩ | ⟨op, hpc⟩
  · exact absurd hlt (not_lt.2 (h.2.2 op hpc))
  · have hdis := h.2.1
    rw [hpc] at hdis
    cases hdis

theorem Inv.supplied_start {op : RecvOp} (h : Inv cap s) (hpend : s.consumer.hasPending s.shared = true)
    (hs : s.next (.consumerCall (.start op)) = some s') : Supplied cap s' := by
  have hinv' := (h.next hs).1
  rw [Consumer.hasPending, decide_eq_true_eq] at hpend
  obtain ⟨r, hr, rfl⟩ := Option.map_eq_some_iff.1 hs
  unfold Consumer.call at hr
  cases hat : s.consumer.pc with
  | idle =>
    rw [hat] at hr
    simp only at hr
    split at hr <;> cases hr
    · exact ⟨hinv', by rw [State.setConsumer, hat]; rfl, fun _ _ => hpend⟩
    · exact ⟨hinv', by rw [State.setConsumer, hat]; rfl, fun _ _ => hpend⟩
    · exact ⟨hinv', rfl, fun _ _ => hpend⟩
  | _ =>
    rw [hat] at hr
    cases hr

/-- The reports are the queue, and they last: while the other thread runs on, the next call of the producer is
not refused slots that were reported free, and the next call of the consumer does not miss an event that was
reported. -/
theorem reports_last {s : State T} (hreach : (system T cap w).Reachable s) :
    (s.producer.availableSlots s.shared = cap - (s.shared.queue.length + s.producer.pc.held) ∧
      s.consumer.pending s.shared = s.shared.queue.length ∧
      (s.consumer.hasPending s.shared = true ↔ 0 < s.shared.queue.length)) ∧
    (∀ (op : SendOp T) (as : List (Action T)) (t : State T),
      op.count ≤ s.producer.availableSlots s.shared → (∀ a ∈ as, a.isProducerCall = false) →
      (system T cap w).run s (.producerCall (.start op) :: as) = some t →
      ∀ n, .full n ∉ (system T cap w).events State.observe s (.producerCall (.start op) :: as)) ∧
    (∀ (op : RecvOp) (as : List (Action T)) (t : State T),
      s.consumer.hasPending s.shared = true → (∀ a ∈ as, a.isConsumerCall = false) →
      (system T cap w).run s (.consumerCall (.start op) :: as) = some t →
      .empty ∉ (system T cap w).events State.observe s (.consumerCall (.start op) :: as)) := by
  have hinv := inv_of_reachable hreach
  refine ⟨⟨hinv.availableSlots_eq, hinv.pending_eq, hinv.hasPending_iff⟩, ?_, ?_⟩
  · intro op as t hcount has hrun n hmem
    obtain ⟨u, hu, hrun⟩ := Option.bind_eq_some_iff.1 hrun
    simp only [System.events, hu, Option.elim_some, List.mem_append] at hmem
    rcases hmem with hmem | hmem
    · cases (full_mem_observe hmem).1
    · refine (System.forall_events (J := Roomy cap) (P := fun e => e ≠ .full n) ?_
        (hinv.roomy_start hcount hu) has hrun).2 _ hmem rfl
      intro s a s' ha hJ hs
      exact ⟨hJ.next ha hs, fun e he heq => hJ.not_full n (heq ▸ he)⟩
  · intro op as t hpend has hrun hmem
    obtain ⟨u, hu, hrun⟩ := Option.bind_eq_some_iff.1 hrun
    simp only [System.events, hu, Option.elim_some, List.mem_append] at hmem
    rcases hmem with hmem | hmem
    · cases (empty_mem_observe hmem).1
    · refine (System.forall_events (J := Supplied cap) (P := fun e => e ≠ .empty) ?_
        (hinv.supplied_start hpend hu) has hrun).2 _ hmem rfl
      intro s a s' ha hJ hs
      exact ⟨hJ.next ha hs, fun e he heq => hJ.not_empty (heq ▸ he)⟩

/-- With one of two slots taken, one more is reported free, and `try_send` is not refused while the consumer
receives. -/
theorem reports_last_oneFree : ∃ s t : State ℕ, (system ℕ 2 .busySpinWait).Reachable s ∧
    s.shared.queue = [some 7] ∧ s.producer.availableSlots s.shared = 1 ∧
    (system ℕ 2 .busySpinWait).run s [.producerCall (.start (.trySend 8)), .consumerCall (.start .tryRecv),
      .producerStep, .consumerStep, .producerStep] = some t ∧
    .full 1 ∉ (system ℕ 2 .busySpinWait).events State.observe s [.producerCall (.start (.trySend 8)),
      .consumerCall (.start .tryRecv), .producerStep, .consumerStep, .producerStep] := by
  obtain ⟨b, hb, s, hrun, hq, havail, t, hrun'⟩ : ∃ b, RingBuffer.new 2 (none : Option ℕ) = some b ∧
      ∃ s, (system ℕ 2 .busySpinWait).run (State.initial b 2 .busySpinWait)
        (.producerCall (.start (.send 7)) :: List.replicate 4 .producerStep) = some s ∧
        s.shared.queue = [some 7] ∧ s.producer.availableSlots s.shared = 1 ∧
      ∃ t, (system ℕ 2 .busySpinWait).run s [.producerCall (.start (.trySend 8)),
        .consumerCall (.start .tryRecv), .producerStep, .consumerStep, .producerStep] = some t :=
    ⟨_, rfl, _, rfl, rfl, rfl, _, rfl⟩
  have hs : (system ℕ 2 .busySpinWait).Reachable s :=
    System.Reachable.run (.init ⟨none, b, hb, rfl⟩) hrun
  exact ⟨s, t, hs, hq, havail, hrun',
    (reports_last hs).2.1 (.trySend 8) _ t havail.ge (by decide) hrun' 1⟩

end Land.Spsc
