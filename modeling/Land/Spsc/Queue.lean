import Land.Lib.BoundedQueue
import Land.Spsc.Delivery

/-!
# The SPSC channel is a bounded queue

The events between the two cursors are the queue.  A publication pushes, the store of the consumer's cursor pops
what the call has read, and a refusal is observed at the load of the cursor that gave rise to it: the producer
says "full" only when there is no room at that step, and the consumer "empty" only when there is nothing at that
step.  So every run of the channel is, through `State.observe`, a run of the bounded queue.
-/

namespace Land.Spsc

open Channel

variable {T : Type} {cap : ℕ}

/-- The contents of the slots of `[start, start + k)`. -/
def Shared.cells (sh : Shared T) (start : ℤ) (k : ℕ) : List (Option T) :=
  (List.range k).map fun (i : ℕ) => sh.buffer.get (start + i)

/-- The events between the cursors, as they stand in the slots. -/
def Shared.queue (sh : Shared T) : List (Option T) :=
  sh.cells (sh.consumerCursor + 1) (asUsize (sh.producerCursor - sh.consumerCursor))

/-- What a step shows of the queue. -/
def State.observe (s : State T) : Action T → List (QueueEvent (Option T))
  | .producerStep =>
      match s.producer.pc with
      | .reload op =>
          if s.shared.consumerCursor ≥ s.producer.wrapPoint op then [] else [.full op.count]
      | .publish => [.push (s.shared.cells s.producer.nextSequence 1)]
      | _ => []
  | .producerCall call =>
      match s.producer.pc, call with
      | .idle, .publish => [.push (s.shared.cells s.producer.nextSequence 1)]
      | .holding start count, .publishBatch => [.push (s.shared.cells start count)]
      | _, _ => []
  | .consumerCall _ => []
  | .consumerStep =>
      match s.consumer.pc with
      | .check op =>
          if s.shared.producerCursor ≥ s.consumer.nextSequence then
            match op with
            | .peek => [.front (s.shared.buffer.get s.consumer.nextSequence)]
            | _ => []
          else [.empty]
      | .finalCheck _ =>
          if s.shared.producerCursor ≥ s.consumer.nextSequence then [] else [.empty]
      | .take _ count i =>
          if i < count then [] else [.pop (s.ring.taken.drop s.ring.released)]
      | _ => []

/-! ## The queue between the cursors -/

theorem Shared.cells_add (sh : Shared T) (start : ℤ) (m k : ℕ) :
    sh.cells start (m + k) = sh.cells start m ++ sh.cells (start + m) k := by
  simp only [cells, List.range_add, List.map_append, List.map_map]
  refine congrArg (_ ++ ·) (List.map_congr_left fun i _ => ?_)
  rw [Function.comp_apply, Nat.cast_add, add_assoc]

theorem Shared.length_cells (sh : Shared T) (start : ℤ) (k : ℕ) : (sh.cells start k).length = k := by
  rw [cells, List.length_map, List.length_range]

namespace Inv

variable {s s' : State T}

theorem cursor_le (h : Inv cap s) : s.shared.consumerCursor ≤ s.shared.producerCursor := by
  obtain ⟨-, -, a, ha, -⟩ := h.producer
  have htaken := h.taken_prefix.length_le
  have hrel := h.coupled.valid.released_le
  have hcur := h.coupled.consumer
  rw [State.published, List.length_map, List.length_range, ha, asUsize_natCast] at htaken
  omega

theorem length_queue (h : Inv cap s) :
    (s.shared.queue.length : ℤ) = s.shared.producerCursor - s.shared.consumerCursor := by
  have hle := h.cursor_le
  rw [Shared.queue, Shared.length_cells, asUsize]
  omega

/-- The queue is what is published and not released. -/
theorem queue_eq (h : Inv cap s) : s.shared.queue = s.published.drop s.ring.released := by
  have hcur := h.coupled.consumer
  have hle := h.cursor_le
  have hlen : asUsize (s.shared.producerCursor + 1) = s.ring.released +
      asUsize (s.shared.producerCursor - s.shared.consumerCursor) := by
    unfold asUsize
    omega
  rw [Shared.queue, Shared.cells, State.published, hlen, List.range_add, List.map_append,
    List.drop_left' (by rw [List.length_map, List.length_range]), List.map_map]
  refine List.map_congr_left fun i hi => ?_
  have hlt := List.mem_range.1 hi
  have hpub : s.ring.published (s.ring.released + i) = true := (h.published_iff _).2 (by omega)
  have hget : s.shared.consumerCursor + 1 + i = ((s.ring.released + i : ℕ) : ℤ) := by omega
  rw [hget, h.coupled.get_eq, h.coupled.valid.published_slot _ hpub (Nat.le_add_right _ _)]
  rfl

/-- As long as the cursors stay, so does the queue: nobody writes between them. -/
theorem queue_congr (h : Inv cap s) {a : Action T} (hs : s.next a = some s')
    (hp : s'.shared.producerCursor = s.shared.producerCursor)
    (hc : s'.shared.consumerCursor = s.shared.consumerCursor) : s'.shared.queue = s.shared.queue := by
  have h' := (h.next hs).1
  have hpub : s'.published = s.published := by
    refine ((h.published_prefix hs).eq_of_length ?_).symm
    rw [State.published, State.published, List.length_map, List.length_map, List.length_range,
      List.length_range, hp]
  have hrel : s'.ring.released = s.ring.released := by
    have h1 := h.coupled.consumer
    have h2 := h'.coupled.consumer
    omega
  rw [h.queue_eq, h'.queue_eq, hpub, hrel]

theorem queue_push (h : Inv cap s) {k : ℕ} (hb : s'.shared.buffer = s.shared.buffer)
    (hp : s'.shared.producerCursor = s.shared.producerCursor + k)
    (hc : s'.shared.consumerCursor = s.shared.consumerCursor) :
    s'.shared.queue = s.shared.queue ++ s.shared.cells (s.shared.producerCursor + 1) k := by
  have hle := h.cursor_le
  have hlen : asUsize (s'.shared.producerCursor - s'.shared.consumerCursor) =
      asUsize (s.shared.producerCursor - s.shared.consumerCursor) + k := by
    unfold asUsize
    omega
  have hstart : s.shared.consumerCursor + 1 +
      (asUsize (s.shared.producerCursor - s.shared.consumerCursor) : ℕ) =
      s.shared.producerCursor + 1 := by
    unfold asUsize
    omega
  have hcells : ∀ start n, s'.shared.cells start n = s.shared.cells start n := fun start n => by
    rw [Shared.cells, Shared.cells, hb]
  rw [Shared.queue, hlen, hcells, hc, Shared.cells_add, hstart]
  rfl

theorem queue_pop (h' : Inv cap s') {k : ℕ}
    (hb : s'.shared.buffer = s.shared.buffer)
    (hp : s'.shared.producerCursor = s.shared.producerCursor)
    (hc : s'.shared.consumerCursor = s.shared.consumerCursor + k) :
    s'.shared.queue = s.shared.queue.drop k := by
  have hle := h'.cursor_le
  have hlen : asUsize (s.shared.producerCursor - s.shared.consumerCursor) =
      k + asUsize (s'.shared.producerCursor - s'.shared.consumerCursor) := by
    unfold asUsize
    omega
  have hcells : ∀ start n, s'.shared.cells start n = s.shared.cells start n := fun start n => by
    rw [Shared.cells, Shared.cells, hb]
  have hstart : s'.shared.consumerCursor + 1 = s.shared.consumerCursor + 1 + k := by omega
  rw [Shared.queue, Shared.queue, hlen, Shared.cells_add, hcells, hstart]
  exact (List.drop_left' (Shared.length_cells _ _ _)).symm

/-- The values a call has read are at the front of the queue. -/
theorem read_prefix_queue (h : Inv cap s) : s.ring.taken.drop s.ring.released <+: s.shared.queue := by
  rw [h.queue_eq]
  exact h.taken_prefix.drop _

end Inv

/-! ## What a step shows -/

/-- What the events of a step say of the cursors and the slots. -/
inductive Shows (cap : ℕ) (s s' : State T) : List (QueueEvent (Option T)) → Prop
  | nothing (hp : s'.shared.producerCursor = s.shared.producerCursor)
      (hc : s'.shared.consumerCursor = s.shared.consumerCursor) : Shows cap s s' []
  | push (k : ℕ) (hb : s'.shared.buffer = s.shared.buffer)
      (hp : s'.shared.producerCursor = s.shared.producerCursor + k)
      (hc : s'.shared.consumerCursor = s.shared.consumerCursor) :
      Shows cap s s' [.push (s.shared.cells (s.shared.producerCursor + 1) k)]
  | pop (hb : s'.shared.buffer = s.shared.buffer)
      (hp : s'.shared.producerCursor = s.shared.producerCursor)
      (hc : s'.shared.consumerCursor =
        s.shared.consumerCursor + (s.ring.taken.drop s.ring.released).length) :
      Shows cap s s' [.pop (s.ring.taken.drop s.ring.released)]
  | front (hsame : s'.shared = s.shared) (hlt : s.shared.consumerCursor < s.shared.producerCursor) :
      Shows cap s s' [.front (s.shared.buffer.get (s.shared.consumerCursor + 1))]
  | full (n : ℕ) (hsame : s'.shared = s.shared)
      (hlt : s.shared.consumerCursor + cap < s.shared.producerCursor + n) :
      Shows cap s s' [.full n]
  | empty (hsame : s'.shared = s.shared) (hle : s.shared.producerCursor ≤ s.shared.consumerCursor) :
      Shows cap s s' [.empty]

variable {s s' : State T}

theorem Shows.same (h : s'.shared = s.shared) : Shows cap s s' [] :=
  .nothing (by rw [h]) (by rw [h])

/-- What a step shows is what happens to the queue. -/
theorem Shows.run (h : Inv cap s) {a : Action T} (hs : s.next a = some s')
    {es : List (QueueEvent (Option T))} (hshows : Shows cap s s' es) :
    (boundedQueue (Option T) cap).run s.shared.queue es = some s'.shared.queue := by
  have h' := (h.next hs).1
  have hlen := h.length_queue
  cases hshows with
  | nothing hp hc => exact congrArg some (h.queue_congr hs hp hc).symm
  | push k hb hp hc =>
    have hlen' := h'.length_queue
    have hroom := h'.published_length
    have hpush := h.queue_push hb hp hc
    have hle : s'.shared.queue.length ≤ cap := by
      rw [h'.queue_eq, List.length_drop]
      omega
    rw [System.run_singleton, hpush]
    refine BoundedQueue.step_push ?_
    rw [← List.length_append, ← hpush]
    exact hle
  | pop hb hp hc =>
    rw [System.run_singleton, h'.queue_pop hb hp hc]
    exact BoundedQueue.step_pop h.read_prefix_queue
  | front hsame hlt =>
    rw [System.run_singleton, hsame]
    refine BoundedQueue.step_front ?_
    have hpos : asUsize (s.shared.producerCursor - s.shared.consumerCursor) =
        1 + (asUsize (s.shared.producerCursor - s.shared.consumerCursor) - 1) := by
      unfold asUsize
      omega
    rw [Shared.queue, hpos, Shared.cells_add]
    exact congrArg (fun n => some (s.shared.buffer.get n)) (add_zero _)
  | full n hsame hlt =>
    rw [System.run_singleton, hsame]
    exact BoundedQueue.step_full (by omega)
  | empty hsame hle =>
    rw [System.run_singleton, hsame]
    exact BoundedQueue.step_empty (List.eq_nil_of_length_eq_zero (by omega))

theorem shows_producerStep {r : Shared T × Producer T × History T} (h : Inv cap s)
    (hr : s.producer.step s.shared s.ring = some r) :
    Shows cap s (s.setProducer r) (s.observe .producerStep) := by
  obtain ⟨hcap, -, a, ha, hpc⟩ := h.producer
  unfold Producer.step at hr
  unfold State.observe
  cases hat : s.producer.pc with
  | absent => rw [hat] at hr; cases hr
  | idle => rw [hat] at hr; cases hr
  | holding start count => rw [hat] at hr; cases hr
  | loadClosed op waiting =>
    rw [hat] at hr
    simp only at hr
    split_ifs at hr <;> cases hr <;> exact .same rfl
  | loadCount op waiting =>
    rw [hat] at hr
    simp only at hr
    split_ifs at hr <;> cases hr <;> exact .same rfl
  | reload op =>
    rw [hat] at hr hpc
    obtain ⟨hnext, -, -⟩ := hpc
    have hwrap : s.producer.wrapPoint op = a + op.count - 1 - cap := by
      rw [Producer.wrapPoint, hnext, hcap]
    simp only at hr ⊢
    -- the cursor just loaded does not enter `wrap_point`
    by_cases hspace : s.shared.consumerCursor ≥ s.producer.wrapPoint op
    · rw [if_pos (by exact hspace)] at hr
      rw [if_pos hspace]
      cases hr
      exact .same rfl
    · rw [if_neg (by exact hspace)] at hr
      rw [if_neg hspace]
      refine .full op.count ?_ (by omega)
      split_ifs at hr <;> cases hr <;> rfl
  | fill op =>
    rw [hat] at hr
    cases op <;> cases hr <;> exact .nothing rfl rfl
  | publish =>
    rw [hat] at hr hpc
    obtain ⟨hnext, -, -⟩ := hpc
    have hseq : s.producer.nextSequence = s.shared.producerCursor + 1 := by omega
    cases hr
    rw [hseq]
    exact .push 1 rfl rfl rfl
  | dropping =>
    rw [hat] at hr
    cases hr
    exact .nothing rfl rfl

theorem shows_producerCall {call : ProducerCall T} {r : Shared T × Producer T × History T}
    (h : Inv cap s) (hr : s.producer.call s.shared s.ring call = some r) :
    Shows cap s (s.setProducer r) (s.observe (.producerCall call)) := by
  obtain ⟨-, -, a, ha, hpc⟩ := h.producer
  unfold Producer.call at hr
  unfold State.observe
  cases hat : s.producer.pc with
  | idle =>
    rw [hat] at hr hpc
    obtain ⟨hnext, -⟩ := hpc
    cases call with
    | start op =>
      simp only at hr
      split_ifs at hr
      cases hr
      exact .same rfl
    | setClaimed v =>
      simp only at hr
      split_ifs at hr
      cases hr
      exact .nothing rfl rfl
    | publish =>
      simp only at hr
      split_ifs at hr
      cases hr
      have hseq : s.producer.nextSequence = s.shared.producerCursor + 1 := by omega
      simp only [hseq]
      exact .push 1 rfl rfl rfl
    | setSlot index v => cases hr
    | publishBatch => cases hr
    | close => cases hr; exact .nothing rfl rfl
    | drop => cases hr; exact .nothing rfl rfl
  | holding start count =>
    rw [hat] at hr hpc
    obtain ⟨hstart, -⟩ := hpc
    cases call with
    | setSlot index v =>
      simp only at hr
      split_ifs at hr
      cases hr
      exact .nothing rfl rfl
    | publishBatch =>
      cases hr
      have hseq : start = s.shared.producerCursor + 1 := by omega
      simp only [hseq]
      exact .push count rfl (by show _ + _ + _ - 1 = _; omega) rfl
    | _ => cases hr
  | _ =>
    rw [hat] at hr
    cases call <;> cases hr

theorem shows_consumerStep {r : Shared T × Consumer × History T} (h : Inv cap s)
    (hr : s.consumer.step s.shared s.ring = some r) :
    Shows cap s (s.setConsumer r) (s.observe .consumerStep) := by
  obtain ⟨hn, hpc⟩ := h.consumer
  have hcur := h.coupled.consumer
  have hnext : s.consumer.nextSequence = s.shared.consumerCursor + 1 := by omega
  unfold Consumer.step at hr
  unfold State.observe
  cases hat : s.consumer.pc with
  | absent => rw [hat] at hr; cases hr
  | idle => rw [hat] at hr; cases hr
  | check op =>
    rw [hat] at hr
    simp only at hr ⊢
    by_cases havail : s.shared.producerCursor ≥ s.consumer.nextSequence
    · rw [if_pos havail] at hr ⊢
      cases hr
      cases op with
      | peek =>
        rw [hnext]
        exact .front rfl (by omega)
      | _ => exact .same rfl
    · rw [if_neg havail] at hr ⊢
      refine .empty ?_ (by omega)
      cases op <;> cases hr <;> rfl
  | loadClosed op =>
    rw [hat] at hr
    simp only at hr
    split_ifs at hr <;> cases hr <;> exact .same rfl
  | loadCount op =>
    rw [hat] at hr
    simp only at hr
    split_ifs at hr <;> cases hr <;> exact .same rfl
  | finalCheck op =>
    rw [hat] at hr
    simp only at hr ⊢
    by_cases havail : s.shared.producerCursor ≥ s.consumer.nextSequence
    · rw [if_pos havail] at hr ⊢
      cases hr
      exact .same rfl
    · rw [if_neg havail] at hr ⊢
      cases hr
      exact .empty rfl (by omega)
  | waitFor op l =>
    rw [hat] at hr
    simp only at hr
    split at hr <;> cases hr <;> exact .same rfl
  | take op count i =>
    rw [hat] at hr hpc
    obtain ⟨hlen, hi, -⟩ := hpc
    simp only at hr ⊢
    by_cases hlt : i < count
    · rw [if_pos hlt] at hr ⊢
      cases hr
      exact .nothing rfl rfl
    · rw [if_neg hlt] at hr ⊢
      cases hr
      refine .pop rfl rfl ?_
      rw [List.length_drop]
      show s.consumer.nextSequence + count - 1 = _
      omega
  | dropping =>
    rw [hat] at hr
    cases hr
    exact .nothing rfl rfl

theorem shows_consumerCall {call : ConsumerCall} {r : Shared T × Consumer}
    (hr : s.consumer.call s.shared call = some r) :
    Shows cap s (s.setConsumer (r.1, r.2, s.ring)) (s.observe (.consumerCall call)) := by
  unfold Consumer.call at hr
  cases hat : s.consumer.pc with
  | idle =>
    rw [hat] at hr
    cases call with
    | start op =>
      simp only at hr
      split at hr <;> cases hr <;> exact .same rfl
    | close => cases hr; exact .nothing rfl rfl
    | drop => cases hr; exact .nothing rfl rfl
  | _ =>
    rw [hat] at hr
    cases call <;> cases hr

theorem shows_next {a : Action T} (h : Inv cap s) (hs : s.next a = some s') :
    Shows cap s s' (s.observe a) := by
  cases a with
  | producerCall call =>
    obtain ⟨r, hr, rfl⟩ := Option.map_eq_some_iff.1 hs
    exact shows_producerCall h hr
  | producerStep =>
    obtain ⟨r, hr, rfl⟩ := Option.map_eq_some_iff.1 hs
    exact shows_producerStep h hr
  | consumerCall call =>
    obtain ⟨r, hr, rfl⟩ := Option.map_eq_some_iff.1 hs
    exact shows_consumerCall hr
  | consumerStep =>
    obtain ⟨r, hr, rfl⟩ := Option.map_eq_some_iff.1 hs
    exact shows_consumerStep h hr

/-! ## The refinement -/

theorem refines_boundedQueue (T : Type) (cap : ℕ) (w : WaitStrategy) :
    (system T cap w).Refines (boundedQueue (Option T) cap) State.observe fun s => s.shared.queue where
  init := by
    rintro s ⟨factory, b, -, rfl⟩
    exact rfl
  step s a s' hreach hs := (shows_next (inv_of_reachable hreach) hs).run (inv_of_reachable hreach) hs

variable {w : WaitStrategy}

/-- The channel is linearizable: what any interleaving of the two threads shows, refusals included, is a run of
the bounded queue, which ends with the events between the cursors.  So the events pushed are those popped and
those still there, in order. -/
theorem run_boundedQueue {factory : Option T} {b : RingBuffer T} (hb : RingBuffer.new cap factory = some b)
    {as : List (Action T)} {s : State T}
    (hrun : (system T cap w).run (State.initial b cap w) as = some s) :
    let es := (system T cap w).events State.observe (State.initial b cap w) as
    (boundedQueue (Option T) cap).run [] es = some s.shared.queue ∧
      es.flatMap QueueEvent.pushes = es.flatMap QueueEvent.pops ++ s.shared.queue ∧
      s.shared.queue.length ≤ cap := by
  have hinit : (system T cap w).Reachable (State.initial b cap w) := .init ⟨factory, b, hb, rfl⟩
  have href := refines_boundedQueue T cap w
  have hq := href.run hinit hrun
  refine ⟨hq, ?_, BoundedQueue.length_le_of_reachable (href.reachable (hinit.run hrun))⟩
  exact BoundedQueue.append_flatMap_pushes hq

/-- With one slot: `try_send` of two events, then `try_recv` twice. -/
def sendTwiceRecvTwice (v v' : T) : List (Action T) :=
  List.flatten
    [.producerCall (.start (.trySend v)) :: List.replicate 4 .producerStep,
      .producerCall (.start (.trySend v')) :: List.replicate 3 .producerStep,
      .consumerCall (.start .tryRecv) :: List.replicate 3 .consumerStep,
      .consumerCall (.start .tryRecv) :: List.replicate 3 .consumerStep]

theorem run_boundedQueue_oneSlot : ∃ b, RingBuffer.new 1 (none : Option ℕ) = some b ∧
    (system ℕ 1 .busySpinWait).events State.observe (State.initial b 1 .busySpinWait)
      (sendTwiceRecvTwice 7 8) = [.push [some 7], .full 1, .pop [some 7], .empty] ∧
    (boundedQueue (Option ℕ) 1).run [] [.push [some 7], .full 1, .pop [some 7], .empty] = some [] := by
  obtain ⟨b, hb, s, hrun, hes, hq⟩ : ∃ b, RingBuffer.new 1 (none : Option ℕ) = some b ∧
      ∃ s, (system ℕ 1 .busySpinWait).run (State.initial b 1 .busySpinWait) (sendTwiceRecvTwice 7 8) = some s ∧
        (system ℕ 1 .busySpinWait).events State.observe (State.initial b 1 .busySpinWait)
          (sendTwiceRecvTwice 7 8) = [.push [some 7], .full 1, .pop [some 7], .empty] ∧
        s.shared.queue = [] := ⟨_, rfl, _, rfl, rfl, rfl⟩
  have h := (run_boundedQueue hb hrun).1
  rw [hes, hq] at h
  exact ⟨b, hb, hes, h⟩

/-! ## What a send pushes -/

/-- A move of the consumer's thread. -/
def Action.ofConsumer : Action T → Bool
  | .consumerCall _ => true
  | .consumerStep => true
  | _ => false

theorem consumer_moves {a : Action T} (h : Inv cap s) (ha : a.ofConsumer = true)
    (hs : s.next a = some s') :
    s'.producer = s.producer ∧ SeqRing.Step cap none s.ring s'.ring := by
  cases a with
  | producerCall call => cases ha
  | producerStep => cases ha
  | consumerCall call =>
    obtain ⟨r, hr, rfl⟩ := Option.map_eq_some_iff.1 hs
    exact ⟨rfl, (Consumer.call_moves h.coupled h.consumer hr).step⟩
  | consumerStep =>
    obtain ⟨r, hr, rfl⟩ := Option.map_eq_some_iff.1 hs
    exact ⟨rfl, (Consumer.step_moves h.coupled h.consumer hr).step⟩

theorem consumer_run {as : List (Action T)} (hreach : (system T cap w).Reachable s)
    (has : ∀ a ∈ as, a.ofConsumer = true) (hrun : (system T cap w).run s as = some s') :
    s'.producer = s.producer ∧ s'.ring.contents = s.ring.contents := by
  induction as generalizing s with
  | nil =>
    simp only [System.run, Option.some.injEq] at hrun
    rw [hrun]
    exact ⟨rfl, rfl⟩
  | cons a as ih =>
    obtain ⟨t, ht, hrun⟩ := Option.bind_eq_some_iff.1 hrun
    obtain ⟨hprod, hstep⟩ := consumer_moves (inv_of_reachable hreach) (has a List.mem_cons_self) ht
    obtain ⟨hprod', hcont⟩ := ih (hreach.step a ht) (fun b hb => has b (List.mem_cons_of_mem a hb)) hrun
    exact ⟨hprod'.trans hprod, hcont.trans hstep.contents_eq⟩

/-- Whatever the consumer does between the two steps of a send, what the second one pushes is the event. -/
theorem observe_publish_of_send (hreach : (system T cap w).Reachable s) {v : T}
    (hpc : s.producer.pc = .fill (.send v) ∨ s.producer.pc = .fill (.trySend v))
    (hs : s.next .producerStep = some s') {as : List (Action T)} (has : ∀ a ∈ as, a.ofConsumer = true)
    {t : State T} (hrun : (system T cap w).run s' as = some t) :
    t.observe .producerStep = [.push [some v]] := by
  have hreach' : (system T cap w).Reachable s' := hreach.step .producerStep hs
  have ht := inv_of_reachable (hreach'.run hrun)
  obtain ⟨hprod, hcont⟩ := consumer_run hreach' has hrun
  obtain ⟨-, -, a, -, hok⟩ := (inv_of_reachable hreach).producer
  obtain ⟨r, hr, rfl⟩ := Option.map_eq_some_iff.1 hs
  have hfill : r = ({ s.shared with buffer := s.shared.buffer.write s.producer.nextSequence v },
      { s.producer with pc := .publish },
      s.ring.write (asUsize s.producer.capacity) () (asUsize s.producer.nextSequence) (some v)) := by
    unfold Producer.step at hr
    rcases hpc with hpc | hpc <;> rw [hpc] at hr <;> exact (Option.some.inj hr).symm
  have hnext : s.producer.nextSequence = a := by
    rcases hpc with hpc | hpc <;> rw [hpc] at hok <;> exact hok.1
  subst hfill
  have hpub : t.producer.pc = .publish := by rw [hprod]; rfl
  have hseq : t.producer.nextSequence = a := by rw [hprod]; exact hnext
  -- the slot still holds what the history says of the sequence, and that is the event
  obtain ⟨-, -, a', -, hok'⟩ := ht.producer
  rw [hpub, hseq] at hok'
  obtain ⟨haa, -, -, hacq⟩ := hok'
  have hget : t.shared.buffer.get a = some v := by
    rw [ht.coupled.get_eq, Nat.cast_inj.1 haa, hacq.slot, hcont, ← Nat.cast_inj.1 haa]
    show Function.update s.ring.contents (asUsize s.producer.nextSequence) (some v) a = some v
    rw [hnext, asUsize_natCast]
    exact Function.update_self _ _ _
  unfold State.observe
  rw [hpub]
  simp only [Shared.cells, hseq, List.range_one, List.map_cons, List.map_nil, Nat.cast_zero, add_zero, hget]

/-- A `try_recv` comes between the write and the publication. -/
theorem observe_publish_of_send_between : ∃ t : State ℕ, (system ℕ 2 .busySpinWait).Reachable t ∧
    t.consumer.pc = .loadClosed .tryRecv ∧ t.observe .producerStep = [.push [some 7]] := by
  obtain ⟨b, hb, s, hrun, hpc, s', hs, t, hrun', hcons⟩ :
      ∃ b, RingBuffer.new 2 (none : Option ℕ) = some b ∧
      ∃ s, (system ℕ 2 .busySpinWait).run (State.initial b 2 .busySpinWait)
        (.producerCall (.start (.send 7)) :: List.replicate 2 .producerStep) = some s ∧
        s.producer.pc = .fill (.send 7) ∧
      ∃ s', s.next .producerStep = some s' ∧
      ∃ t, (system ℕ 2 .busySpinWait).run s' [.consumerCall (.start .tryRecv), .consumerStep] = some t ∧
        t.consumer.pc = .loadClosed .tryRecv := ⟨_, rfl, _, rfl, rfl, _, rfl, _, rfl, rfl⟩
  have hs₀ : (system ℕ 2 .busySpinWait).Reachable s :=
    System.Reachable.run (.init ⟨none, b, hb, rfl⟩) hrun
  refine ⟨t, (hs₀.step .producerStep hs).run hrun', hcons, ?_⟩
  exact observe_publish_of_send hs₀ (.inl hpc) hs (by decide) hrun'

end Land.Spsc
