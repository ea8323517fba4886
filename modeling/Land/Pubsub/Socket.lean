import Mathlib.Data.List.ReduceOption
import Land.Pubsub.Subscriber

/-!
# The socket as the writing side of a lossy feed

The invariant of the slot feed: what each thread has made of its handle of the channel at each of its points, and
that the slots between the cursors hold notifications.  Under it every step of `slot-ws` does to the feed what it
shows (`FeedInv.socketStep`): a notification is offered when it is read, and accepted or dropped by the steps of
`try_claim` and `publish`.
-/

namespace Land.Pubsub

open Channel
open Spsc (Inv)

variable {cap : ℕ} {f f' : Feed} {c c' : Spsc.State SlotInfo}

/-! ## The invariant -/

/-- The producer is in `try_claim`. -/
def inTryClaim : Spsc.ProducerPc SlotInfo → Bool
  | .loadClosed .tryClaim _ => true
  | .loadCount .tryClaim _ => true
  | .reload .tryClaim => true
  | .fill .tryClaim => true
  | _ => false

/-- What the socket has made of its handle at each point. -/
def SocketPc.Ok (c : Spsc.State SlotInfo) : SocketPc → Prop
  | .claiming _ => inTryClaim c.producer.pc = true ∨ c.producer.pc = .idle
  | .publish info => c.producer.pc = .idle ∧ c.producer.claimed = true ∧
      c.shared.buffer.get c.producer.nextSequence = some info
  | .dropping => c.producer.pc = .dropping
  | .ended => c.producer.pc = .absent
  | _ => c.producer.pc = .idle ∧ c.producer.claimed = false

/-- What the subscriber has made of its handle at each point. -/
def SubscriberPc.Ok (pc : Spsc.ConsumerPc) : SubscriberPc → Prop
  | .polling => pc = .idle ∨ pc = .check .poll ∨ ∃ count i, pc = .take .poll count i
  | .dropping => pc = .dropping
  | .ended => pc = .absent
  | _ => pc = .idle

/-- The socket has dropped its handle. -/
def SocketPc.gone : SocketPc → Bool
  | .dropping => true
  | .ended => true
  | _ => false

/-- The points at which the socket has no notification at hand. -/
def SocketPc.quiet : SocketPc → Bool
  | .claiming _ => false
  | .publish _ => false
  | .setLastSlot _ => false
  | .dropping => false
  | .ended => false
  | _ => true

/-- The producer finds, or has found, that the other handle is gone. -/
def Disconnected (c : Spsc.State SlotInfo) : Prop :=
  c.shared.closed = true ∨ c.producer.cachedDisconnected = true ∨ c.shared.strongCount = 1

/-- The invariant of the feed. -/
structure FeedInv (cap : ℕ) (f : Feed) : Prop where
  channel : Inv cap f.channel
  socket : f.socket.Ok f.channel
  subscriber : f.subscriber.Ok f.channel.consumer.pc
  cells : ∀ v ∈ f.channel.shared.queue, v.isSome = true
  disconnected : Disconnected f.channel → f.readerLeft = true ∨ f.socket.gone = true

/-- The invariant holds after a step, and the step does to the feed what it shows. -/
structure Refined (cap : ℕ) (f : Feed) (es : List (FeedEvent SlotInfo)) (f' : Feed) : Prop where
  inv : FeedInv cap f'
  run : (lossyFeed SlotInfo.slot 0 cap).run f.abs es = some f'.abs

theorem Refined.stutter (h : FeedInv cap f') (habs : f'.abs = f.abs) : Refined cap f [] f' :=
  ⟨h, congrArg some habs.symm⟩

theorem Refined.one (h : FeedInv cap f') {e : FeedEvent SlotInfo}
    (hstep : (lossyFeed SlotInfo.slot 0 cap).step f.abs e = some f'.abs) : Refined cap f [e] f' :=
  ⟨h, (System.run_singleton _ _ _).trans hstep⟩

theorem onChannel_eq_some {a : Spsc.Action SlotInfo} {k : Feed → Feed} (h : f.onChannel a k = some f') :
    ∃ c, f.channel.next a = some c ∧ f' = k (f.withChannel c) := by
  obtain ⟨c, hc, heq⟩ := Option.map_eq_some_iff.1 h
  exact ⟨c, hc, heq.symm⟩

theorem FeedInv.left_of_disconnected (h : FeedInv cap f) (hgone : f.socket.gone = false)
    (hd : Disconnected f.channel) : f.readerLeft = true := by
  refine (h.disconnected hd).resolve_right ?_
  rw [hgone]
  exact Bool.false_ne_true

/-! ## The queue -/

theorem run_queue (h : Inv cap c) {a : Spsc.Action SlotInfo} (hs : c.next a = some c') :
    (boundedQueue (Option SlotInfo) cap).run c.shared.queue (c.observe a) = some c'.shared.queue :=
  (Spsc.shows_next h hs).run h hs

theorem queue_eq_of_observe (h : Inv cap c) {a : Spsc.Action SlotInfo} (hs : c.next a = some c')
    (hobs : c.observe a = []) : c'.shared.queue = c.shared.queue := by
  have hrun := run_queue h hs
  rw [hobs] at hrun
  exact (Option.some.inj hrun).symm

/-- The events that the poll has handled are the first of the queue. -/
theorem length_read (h : Inv cap f.channel) :
    (f.channel.ring.taken.drop f.channel.ring.released).length = f.held := by
  obtain ⟨-, hpc⟩ := h.consumer
  rw [List.length_drop]
  unfold Feed.held
  cases hat : f.channel.consumer.pc with
  | take op count i =>
    rw [hat] at hpc
    obtain ⟨hlen, -⟩ := hpc
    rw [hlen, Nat.add_sub_cancel_left]
    rfl
  | _ =>
    rw [hat] at hpc
    rw [show f.channel.ring.taken.length = _ from hpc, Nat.sub_self]
    rfl

theorem held_le (h : Inv cap f.channel) : f.held ≤ f.channel.shared.queue.length := by
  rw [← length_read h]
  exact h.read_prefix_queue.length_le

theorem FeedInv.length_unread (h : FeedInv cap f) :
    f.unread.length + f.held = f.channel.shared.queue.length := by
  have hlen : f.unread.length = (f.channel.shared.queue.drop f.held).length := by
    refine List.reduceOption_length_eq_iff.2 fun v hv => ?_
    exact h.cells v (List.mem_of_mem_drop hv)
  have hle := held_le h.channel
  rw [hlen, List.length_drop]
  omega

theorem unread_congr (hq : f'.channel.shared.queue = f.channel.shared.queue) (hheld : f'.held = f.held) :
    f'.unread = f.unread := by
  unfold Feed.unread
  rw [hq, hheld]

/-! ## Steps without the channel -/

theorem SocketPc.ok_iff {pc : SocketPc} (hq : pc.quiet = true) :
    pc.Ok c ↔ c.producer.pc = .idle ∧ c.producer.claimed = false := by
  cases pc with
  | claiming info => cases hq
  | publish info => cases hq
  | setLastSlot info => cases hq
  | dropping => cases hq
  | ended => cases hq
  | _ => exact Iff.rfl

theorem SocketPc.gone_of_quiet {pc : SocketPc} (hq : pc.quiet = true) : pc.gone = false := by
  cases pc with
  | dropping => cases hq
  | ended => cases hq
  | _ => rfl

theorem waiting_of_quiet (hq : f.socket.quiet = true) : f.waiting = none ∧ f.unnoted = none := by
  unfold Feed.waiting Feed.unnoted
  cases hat : f.socket with
  | claiming info => rw [hat] at hq; cases hq
  | publish info => rw [hat] at hq; cases hq
  | setLastSlot info => rw [hat] at hq; cases hq
  | _ => exact ⟨rfl, rfl⟩

theorem abs_eq {w n : Option SlotInfo} (hw : f.waiting = w) (hn : f.unnoted = n) :
    f.abs = { f.abs with waiting := w, unnoted := n } := by
  subst hw hn
  rfl

theorem abs_of_quiet (hq : f.socket.quiet = true) :
    f.abs = { f.abs with waiting := none, unnoted := none } :=
  abs_eq (waiting_of_quiet hq).1 (waiting_of_quiet hq).2

/-- The socket goes from one point without a notification to another. -/
theorem FeedInv.quiet (h : FeedInv cap f) (hq : f.socket.quiet = true) (hq' : f'.socket.quiet = true)
    (hc : f'.channel = f.channel) (hsub : f'.subscriber = f.subscriber)
    (hlast : f'.pubsubState.lastSlot = f.pubsubState.lastSlot) (hstate : f'.state = f.state) :
    Refined cap f [] f' := by
  obtain ⟨hw, hn⟩ := waiting_of_quiet hq
  obtain ⟨hw', hn'⟩ := waiting_of_quiet hq'
  have hheld : f'.held = f.held := by
    unfold Feed.held
    rw [hc]
  have hunread := unread_congr (by rw [hc]) hheld
  have hleft : f'.readerLeft = f.readerLeft := by
    unfold Feed.readerLeft
    rw [hsub]
  refine .stutter ⟨hc ▸ h.channel, ?_, hsub ▸ hc ▸ h.subscriber, hc ▸ h.cells, fun hd => ?_⟩ ?_
  · rw [hc]
    exact (SocketPc.ok_iff hq').2 ((SocketPc.ok_iff hq).1 h.socket)
  · rw [hleft]
    exact .inl (h.left_of_disconnected (SocketPc.gone_of_quiet hq) (hc ▸ hd))
  · simp only [Feed.abs, hw, hn, hw', hn', hlast, hheld, hunread, hstate, hleft]

/-! ## What the calls of the producer do -/

theorem next_producerCall {call : Spsc.ProducerCall SlotInfo} (hs : c.next (.producerCall call) = some c') :
    ∃ r, c.producer.call c.shared c.ring call = some r ∧ c' = c.setProducer r := by
  obtain ⟨r, hr, heq⟩ := Option.map_eq_some_iff.1 hs
  exact ⟨r, hr, heq.symm⟩

theorem next_start (hidle : c.producer.pc = .idle) {op : Spsc.SendOp SlotInfo}
    (hs : c.next (.producerCall (.start op)) = some c') :
    c' = { c with producer := { c.producer with pc := .loadClosed op false } } := by
  obtain ⟨r, hr, rfl⟩ := next_producerCall hs
  simp only [Spsc.Producer.call, hidle] at hr
  split_ifs at hr
  cases hr
  rfl

theorem next_setClaimed (hidle : c.producer.pc = .idle) {v : SlotInfo}
    (hs : c.next (.producerCall (.setClaimed v)) = some c') :
    c'.producer = c.producer ∧ c'.consumer = c.consumer ∧
      c'.shared = { c.shared with buffer := c.shared.buffer.write c.producer.nextSequence v } := by
  obtain ⟨r, hr, rfl⟩ := next_producerCall hs
  simp only [Spsc.Producer.call, hidle] at hr
  split_ifs at hr
  cases hr
  exact ⟨rfl, rfl, rfl⟩

theorem next_publish (hidle : c.producer.pc = .idle) (hs : c.next (.producerCall .publish) = some c') :
    c'.producer.pc = .idle ∧ c'.producer.claimed = false ∧
      c'.producer.cachedDisconnected = c.producer.cachedDisconnected ∧ c'.consumer = c.consumer ∧
      c'.shared = { c.shared with producerCursor := c.producer.nextSequence } := by
  obtain ⟨r, hr, rfl⟩ := next_producerCall hs
  simp only [Spsc.Producer.call, hidle] at hr
  split_ifs at hr
  cases hr
  exact ⟨rfl, rfl, rfl, rfl, rfl⟩

theorem next_drop (hidle : c.producer.pc = .idle) (hs : c.next (.producerCall .drop) = some c') :
    c'.producer.pc = .dropping ∧ c'.consumer = c.consumer := by
  obtain ⟨r, hr, rfl⟩ := next_producerCall hs
  simp only [Spsc.Producer.call, hidle] at hr
  cases hr
  exact ⟨rfl, rfl⟩

theorem get_write (b : RingBuffer SlotInfo) (sequence : ℤ) (v : SlotInfo) :
    (b.write sequence v).get sequence = some v := by
  show ((Function.update b.slots (b.index sequence) (.live v)) (b.index sequence)).bits = some v
  rw [Function.update_self]
  rfl

/-! ## The steps of the socket -/

/-- The producer moves, the queue stays, and the socket comes to the point `pc`. -/
theorem FeedInv.socketMoves (h : FeedInv cap f) {a : Spsc.Action SlotInfo} (hc : f.channel.next a = some c)
    (hcons : c.consumer = f.channel.consumer) (hqueue : c.shared.queue = f.channel.shared.queue)
    (pc : SocketPc) (hok : pc.Ok c) (hd : Disconnected c → f.readerLeft = true ∨ pc.gone = true) :
    FeedInv cap ((f.withChannel c).setSocket pc) ∧
      ((f.withChannel c).setSocket pc).abs = { f.abs with
        waiting := ((f.withChannel c).setSocket pc).waiting
        unnoted := ((f.withChannel c).setSocket pc).unnoted } := by
  have hheld : ((f.withChannel c).setSocket pc).held = f.held :=
    congrArg (fun consumer : Spsc.Consumer => Feed.handled consumer.pc) hcons
  have hunread : ((f.withChannel c).setSocket pc).unread = f.unread := unread_congr hqueue hheld
  refine ⟨⟨(h.channel.next hc).1, hok, ?_, ?_, hd⟩, ?_⟩
  · show f.subscriber.Ok c.consumer.pc
    rw [hcons]
    exact h.subscriber
  · show ∀ v ∈ c.shared.queue, _
    rw [hqueue]
    exact h.cells
  · unfold Feed.abs
    rw [hheld, hunread]
    rfl

/-- The socket gives up its handle. -/
theorem FeedInv.drop (h : FeedInv cap f) (hq : f.socket.quiet = true)
    (hs : f.onChannel (.producerCall .drop) (·.setSocket .dropping) = some f') : Refined cap f [] f' := by
  obtain ⟨c, hc, rfl⟩ := onChannel_eq_some hs
  have hidle := ((SocketPc.ok_iff hq).1 h.socket).1
  obtain ⟨hpc, hcons⟩ := next_drop hidle hc
  have hqueue := queue_eq_of_observe h.channel hc (by simp only [Spsc.State.observe, hidle])
  obtain ⟨hinv, habs⟩ := h.socketMoves hc hcons hqueue .dropping hpc fun _ => .inr rfl
  exact .stutter hinv (habs.trans (abs_of_quiet hq).symm)

/-- A notification is read: `try_claim` begins. -/
theorem FeedInv.offer (h : FeedInv cap f) (hq : f.socket.quiet = true) {info : SlotInfo}
    (hs : f.onChannel (.producerCall (.start .tryClaim)) (·.setSocket (.claiming info)) = some f') :
    Refined cap f [.offered info] f' := by
  obtain ⟨c, hc, rfl⟩ := onChannel_eq_some hs
  have hidle := ((SocketPc.ok_iff hq).1 h.socket).1
  have hceq := next_start hidle hc
  obtain ⟨hw, hn⟩ := waiting_of_quiet hq
  have hqueue := queue_eq_of_observe h.channel hc (by simp only [Spsc.State.observe, hidle])
  obtain ⟨hinv, habs⟩ := h.socketMoves hc (by rw [hceq]) hqueue (.claiming info)
    (by rw [hceq]; exact .inl rfl) fun hd =>
      .inl (h.left_of_disconnected (SocketPc.gone_of_quiet hq) (by rw [hceq] at hd; exact hd))
  refine .one hinv ((LossyFeed.step_offered hw hn).trans (congrArg some (Eq.trans ?_ habs.symm)))
  rw [abs_of_quiet hq, hceq]
  rfl

theorem waiting_of_claiming {info : SlotInfo} (hat : f.socket = .claiming info)
    (h : inTryClaim f.channel.producer.pc = true ∨ f.channel.producer.claimed = true) :
    f.waiting = some info := by
  unfold Feed.waiting
  rw [hat]
  cases hpc : f.channel.producer.pc with
  | idle =>
    rw [hpc] at h
    exact if_pos (h.resolve_left Bool.false_ne_true)
  | _ => rfl

theorem waiting_of_refused {info : SlotInfo} (hat : f.socket = .claiming info)
    (hpc : f.channel.producer.pc = .idle) (hclaimed : f.channel.producer.claimed = false) :
    f.waiting = none := by
  unfold Feed.waiting
  rw [hat, hpc]
  simp only [hclaimed, Bool.false_eq_true, if_false]

/-- A step of `try_claim` leaves the channel as it is. -/
theorem FeedInv.claimMoves (h : FeedInv cap f) {info : SlotInfo} (hat : f.socket = .claiming info)
    {a : Spsc.Action SlotInfo} (hc : f.channel.next a = some c) (hsh : c.shared = f.channel.shared)
    (hcons : c.consumer = f.channel.consumer)
    (hok : inTryClaim c.producer.pc = true ∨ c.producer.pc = .idle)
    (hd : c.producer.cachedDisconnected = true → Disconnected f.channel) :
    FeedInv cap (f.withChannel c) ∧
      (f.withChannel c).abs = { f.abs with waiting := (f.withChannel c).waiting } := by
  refine h.socketMoves hc hcons (by rw [hsh]) f.socket (by rw [hat]; exact hok) fun hdisc => .inl ?_
  refine h.left_of_disconnected (by rw [hat]; rfl) ?_
  rcases hdisc with hclosed | hcached | hcount
  · exact .inl (hsh ▸ hclosed)
  · exact hd hcached
  · exact .inr (.inr (hsh ▸ hcount))

/-- A refusal because the other handle is gone. -/
theorem FeedInv.refuse (h : FeedInv cap f) {info : SlotInfo} (hat : f.socket = .claiming info)
    (hclaim : inTryClaim f.channel.producer.pc = true) (hd : Disconnected f.channel)
    {a : Spsc.Action SlotInfo} (hc : f.channel.next a = some c) (hsh : c.shared = f.channel.shared)
    (hcons : c.consumer = f.channel.consumer) (hpc : c.producer.pc = .idle)
    (hclaimed : c.producer.claimed = false) : Refined cap f [.refused info] (f.withChannel c) := by
  obtain ⟨hinv, habs⟩ := h.claimMoves hat hc hsh hcons (.inr hpc) fun _ => hd
  have hleft := h.left_of_disconnected (by rw [hat]; rfl) hd
  refine .one hinv ((LossyFeed.step_refused (waiting_of_claiming hat (.inl hclaim)) hleft).trans ?_)
  rw [habs, waiting_of_refused (f := f.withChannel c) hat hpc hclaimed]

/-- A refusal because there is no room. -/
theorem FeedInv.refuseFull (h : FeedInv cap f) {info : SlotInfo} (hat : f.socket = .claiming info)
    (hclaim : inTryClaim f.channel.producer.pc = true) (hroom : cap ≤ f.channel.shared.queue.length)
    {a : Spsc.Action SlotInfo} (hc : f.channel.next a = some c) (hsh : c.shared = f.channel.shared)
    (hcons : c.consumer = f.channel.consumer) (hpc : c.producer.pc = .idle)
    (hclaimed : c.producer.claimed = false)
    (hcached : c.producer.cachedDisconnected = f.channel.producer.cachedDisconnected) :
    Refined cap f [.full info] (f.withChannel c) := by
  obtain ⟨hinv, habs⟩ := h.claimMoves hat hc hsh hcons (.inr hpc) fun hd =>
    .inr (.inl (hcached.symm.trans hd))
  have hfull : cap ≤ f.abs.unread.length + f.abs.held := hroom.trans h.length_unread.ge
  refine .one hinv ((LossyFeed.step_full (waiting_of_claiming hat (.inl hclaim)) hfull).trans ?_)
  rw [habs, waiting_of_refused (f := f.withChannel c) hat hpc hclaimed]

/-- A step of `try_claim`. -/
theorem FeedInv.claim (h : FeedInv cap f) {info : SlotInfo} (hat : f.socket = .claiming info)
    (hclaim : inTryClaim f.channel.producer.pc = true) (hs : f.onChannel .producerStep id = some f') :
    Refined cap f (f.observeClaim info) f' := by
  obtain ⟨c, hc, rfl⟩ := onChannel_eq_some hs
  obtain ⟨r, hr, rfl⟩ := Option.map_eq_some_iff.1 hc
  obtain ⟨-, -, n, -, hok⟩ := h.channel.producer
  have hwaiting := waiting_of_claiming hat (.inl hclaim)
  -- a step that goes on, or claims the slot, has the same notification at hand
  have goOn (hcr : r.1 = f.channel.shared)
      (hp : inTryClaim r.2.1.pc = true ∨ r.2.1.pc = .idle ∧ r.2.1.claimed = true)
      (hd : r.2.1.cachedDisconnected = f.channel.producer.cachedDisconnected) :
      Refined cap f [] (f.withChannel (f.channel.setProducer r)) := by
    obtain ⟨hinv, habs⟩ := h.claimMoves hat hc hcr rfl (hp.imp_right And.left) fun hcached =>
      .inr (.inl (hd.symm.trans hcached))
    refine .stutter hinv (habs.trans ?_)
    rw [waiting_of_claiming (f := f.withChannel (f.channel.setProducer r)) hat (hp.imp_right And.right),
      ← hwaiting]
    rfl
  unfold Spsc.Producer.step at hr
  unfold Feed.observeClaim
  cases hpc : f.channel.producer.pc with
  | loadClosed op waiting =>
    rw [hpc] at hr hok hclaim
    obtain ⟨-, hclaimed, -⟩ := hok
    simp only at hr ⊢
    by_cases hcached : f.channel.producer.cachedDisconnected = true
    · rw [if_pos hcached] at hr
      rw [hcached, Bool.true_or, if_pos rfl]
      cases hr
      exact h.refuse hat (by rw [hpc]; exact hclaim) (.inr (.inl hcached)) hc rfl rfl rfl hclaimed
    · rw [if_neg hcached] at hr
      rw [Bool.eq_false_iff.2 hcached, Bool.false_or]
      by_cases hclosed : f.channel.shared.closed = true
      · rw [if_pos hclosed] at hr ⊢
        cases hr
        exact h.refuse hat (by rw [hpc]; exact hclaim) (.inl hclosed) hc rfl rfl rfl hclaimed
      · rw [if_neg hclosed] at hr ⊢
        cases hr
        refine goOn rfl (.inl ?_) rfl
        cases op <;> first | rfl | cases hclaim
  | loadCount op waiting =>
    rw [hpc] at hr hok hclaim
    obtain ⟨-, hclaimed, -⟩ := hok
    simp only at hr ⊢
    by_cases hcount : f.channel.shared.strongCount = 1
    · rw [if_pos hcount] at hr ⊢
      cases hr
      exact h.refuse hat (by rw [hpc]; exact hclaim) (.inr (.inr hcount)) hc rfl rfl rfl hclaimed
    · rw [if_neg hcount] at hr ⊢
      cases hr
      have hop : op = .tryClaim := by cases op <;> first | rfl | cases hclaim
      subst hop
      have hconn : inTryClaim (f.channel.producer.connected f.channel.ring .tryClaim waiting).1.pc = true ∧
          (f.channel.producer.connected f.channel.ring .tryClaim waiting).1.cachedDisconnected =
            f.channel.producer.cachedDisconnected := by
        unfold Spsc.Producer.connected
        split_ifs <;> exact ⟨rfl, rfl⟩
      exact goOn rfl (.inl hconn.1) hconn.2
  | reload op =>
    rw [hpc] at hr hok hclaim
    obtain ⟨-, hclaimed, -⟩ := hok
    have hop : op = .tryClaim := by cases op <;> first | rfl | cases hclaim
    subst hop
    simp only at hr ⊢
    by_cases hspace : f.channel.shared.consumerCursor ≥ f.channel.producer.wrapPoint .tryClaim
    · rw [if_pos (by exact hspace)] at hr
      rw [if_pos hspace]
      cases hr
      exact goOn rfl (.inl rfl) rfl
    · rw [if_neg (by exact hspace), if_neg (by exact Bool.false_ne_true)] at hr
      rw [if_neg hspace]
      cases hr
      have hobs : f.channel.observe .producerStep = [.full 1] := by
        simp only [Spsc.State.observe, hpc, if_neg hspace]
        rfl
      have hfull := run_queue h.channel hc
      rw [hobs, System.run_singleton] at hfull
      have hlt := (Option.ite_none_right_eq_some.1 hfull).1
      exact h.refuseFull hat (by rw [hpc]; exact hclaim) (Nat.le_of_lt_succ hlt) hc rfl rfl rfl hclaimed rfl
  | fill op =>
    rw [hpc] at hr hok hclaim
    cases op with
    | tryClaim =>
      cases hr
      exact goOn rfl (.inr ⟨rfl, rfl⟩) rfl
    | _ => cases hclaim
  | _ => rw [hpc] at hclaim; cases hclaim

/-- `try_claim` has returned an error: the notification is dropped already. -/
theorem FeedInv.dropUpdate (h : FeedInv cap f) {info : SlotInfo} (hat : f.socket = .claiming info)
    (hpc : f.channel.producer.pc = .idle) (hclaimed : f.channel.producer.claimed = false) :
    Refined cap f [] (f.setSocket .messages) := by
  have hinv : FeedInv cap (f.setSocket .messages) :=
    ⟨h.channel, ⟨hpc, hclaimed⟩, h.subscriber, h.cells, fun hd =>
      .inl (h.left_of_disconnected (by rw [hat]; rfl) hd)⟩
  have hn : f.unnoted = none := by
    unfold Feed.unnoted
    rw [hat]
  exact .stutter hinv (abs_eq (waiting_of_refused hat hpc hclaimed) hn).symm

/-- The claimed slot is filled. -/
theorem FeedInv.setClaimed (h : FeedInv cap f) {info : SlotInfo} (hat : f.socket = .claiming info)
    (hpc : f.channel.producer.pc = .idle) (hclaimed : f.channel.producer.claimed = true)
    (hs : f.onChannel (.producerCall (.setClaimed info)) (·.setSocket (.publish info)) = some f') :
    Refined cap f [] f' := by
  obtain ⟨c, hc, rfl⟩ := onChannel_eq_some hs
  obtain ⟨hprod, hcons, hsh⟩ := next_setClaimed hpc hc
  have hqueue := queue_eq_of_observe h.channel hc (by simp only [Spsc.State.observe, hpc])
  obtain ⟨hinv, habs⟩ := h.socketMoves hc hcons hqueue (.publish info)
    ⟨by rw [hprod, hpc], by rw [hprod, hclaimed], by rw [hprod, hsh]; exact get_write _ _ _⟩ fun hd =>
      .inl (h.left_of_disconnected (by rw [hat]; rfl) (by unfold Disconnected at hd ⊢; rwa [hprod, hsh] at hd))
  have hn : f.unnoted = none := by
    unfold Feed.unnoted
    rw [hat]
  exact .stutter hinv (habs.trans (abs_eq (waiting_of_claiming hat (.inr hclaimed)) hn).symm)

/-- The claimed slot is published. -/
theorem FeedInv.publish (h : FeedInv cap f) {info : SlotInfo} (hat : f.socket = .publish info)
    (hs : f.onChannel (.producerCall .publish) (·.setSocket (.setLastSlot info)) = some f') :
    Refined cap f [.accepted info] f' := by
  obtain ⟨c, hc, rfl⟩ := onChannel_eq_some hs
  have hok := h.socket
  rw [hat] at hok
  obtain ⟨hpc, hclaimed, hget⟩ := hok
  obtain ⟨hpc', hclaimed', hcached, hcons, hsh⟩ := next_publish hpc hc
  -- the channel pushes the notification
  have hrun := run_queue h.channel hc
  have hobs : f.channel.observe (.producerCall .publish) = [.push [some info]] := by
    simp only [Spsc.State.observe, hpc, Spsc.Shared.cells, List.range_one, List.map_cons, List.map_nil,
      Nat.cast_zero, add_zero, hget]
  rw [hobs, System.run_singleton] at hrun
  obtain ⟨hroom, hqueue⟩ := Option.ite_none_right_eq_some.1 hrun
  have hqueue := Option.some.inj hqueue
  rw [List.length_singleton] at hroom
  have hheld : ((f.withChannel c).setSocket (.setLastSlot info)).held = f.held :=
    congrArg (fun consumer : Spsc.Consumer => Feed.handled consumer.pc) hcons
  have hunread : ((f.withChannel c).setSocket (.setLastSlot info)).unread = f.unread ++ [info] := by
    unfold Feed.unread
    rw [hheld]
    show (c.shared.queue.drop f.held).reduceOption = _
    rw [← hqueue, List.drop_append_of_le_length (held_le h.channel), List.reduceOption_append,
      List.reduceOption_singleton]
    rfl
  have hinv : FeedInv cap ((f.withChannel c).setSocket (.setLastSlot info)) := by
    refine ⟨(h.channel.next hc).1, ⟨hpc', hclaimed'⟩, ?_, fun v hv => ?_, fun hd => ?_⟩
    · show f.subscriber.Ok c.consumer.pc
      rw [hcons]
      exact h.subscriber
    · have hv : v ∈ f.channel.shared.queue ++ [some info] := hqueue ▸ hv
      rcases List.mem_append.1 hv with hv | hv
      · exact h.cells v hv
      · rw [List.mem_singleton.1 hv]
        rfl
    · have hd : Disconnected c := hd
      unfold Disconnected at hd
      rw [hcached, hsh] at hd
      exact .inl (h.left_of_disconnected (by rw [hat]; rfl) hd)
  have hw : f.abs.waiting = some info := by
    show f.waiting = _
    unfold Feed.waiting
    rw [hat]
  have hn : f.abs.unnoted = none := by
    show f.unnoted = _
    unfold Feed.unnoted
    rw [hat]
  have hlt : f.abs.unread.length + f.abs.held < cap := by
    have hlen := h.length_unread
    show f.unread.length + f.held < cap
    omega
  refine .one hinv ((LossyFeed.step_accepted hw hn hlt).trans (congrArg some ?_))
  show _ = { f.abs with
    waiting := none, unnoted := some info
    unread := ((f.withChannel c).setSocket (.setLastSlot info)).unread
    held := ((f.withChannel c).setSocket (.setLastSlot info)).held }
  rw [hunread, hheld]
  rfl

theorem FeedInv.setLastSlot (h : FeedInv cap f) {info : SlotInfo} (hat : f.socket = .setLastSlot info) :
    Refined cap f [.noted info]
      { f with pubsubState := { f.pubsubState with lastSlot := info.slot }, socket := .messages } := by
  have hok := h.socket
  rw [hat] at hok
  have hinv : FeedInv cap
      { f with pubsubState := { f.pubsubState with lastSlot := info.slot }, socket := .messages } :=
    ⟨h.channel, hok, h.subscriber, h.cells, fun hd => .inl (h.left_of_disconnected (by rw [hat]; rfl) hd)⟩
  have hn : f.abs.unnoted = some info := by
    show f.unnoted = _
    unfold Feed.unnoted
    rw [hat]
  have hw : f.abs.waiting = none := by
    show f.waiting = _
    unfold Feed.waiting
    rw [hat]
  refine .one hinv ((LossyFeed.step_noted hn).trans (congrArg some ?_))
  exact congrArg (fun w => { f.abs with waiting := w, unnoted := none, noted := info.slot }) hw

/-- The handle of the socket is released. -/
theorem FeedInv.release (h : FeedInv cap f) (hat : f.socket = .dropping)
    (hs : f.onChannel .producerStep (·.setSocket .ended) = some f') : Refined cap f [] f' := by
  obtain ⟨c, hc, rfl⟩ := onChannel_eq_some hs
  have hpc : f.channel.producer.pc = .dropping := by
    have hok := h.socket
    rwa [hat] at hok
  have hqueue := queue_eq_of_observe h.channel hc (by simp only [Spsc.State.observe, hpc])
  have hmoves : c.producer.pc = .absent ∧ c.consumer = f.channel.consumer := by
    obtain ⟨r, hr, rfl⟩ := Option.map_eq_some_iff.1 hc
    simp only [Spsc.Producer.step, hpc] at hr
    cases hr
    exact ⟨rfl, rfl⟩
  obtain ⟨hinv, habs⟩ := h.socketMoves hc hmoves.2 hqueue .ended hmoves.1 fun _ => .inr rfl
  have hw : f.waiting = none ∧ f.unnoted = none := by
    unfold Feed.waiting Feed.unnoted
    rw [hat]
    exact ⟨rfl, rfl⟩
  exact .stutter hinv (habs.trans (abs_eq hw.1 hw.2).symm)

theorem FeedInv.handleFrame (h : FeedInv cap f) (hat : f.socket = .read) {rest : List UInt8} {mask : Mask}
    {frame : Except Failure Frame} (hframe : frame = (readFrame.run.run f.stream).1)
    (hs : Feed.handleFrame { f with stream := rest } mask frame = some f') :
    Refined cap f f.observeRead f' := by
  have hq : f.socket.quiet = true := by rw [hat]; rfl
  -- the stream is the socket's own
  have hstream : FeedInv cap { f with stream := rest } :=
    ⟨h.channel, h.socket, h.subscriber, h.cells, h.disconnected⟩
  unfold Feed.observeRead
  rw [← hframe]
  unfold Feed.handleFrame at hs
  match frame, hs with
  | .ok (.text text), hs =>
    cases hparse : parseSlotNotification text with
    | some info =>
      simp only [hparse] at hs ⊢
      obtain ⟨hinv, hrun⟩ := hstream.offer hq hs
      exact ⟨hinv, hrun⟩
    | none =>
      simp only [hparse, Option.some.injEq] at hs ⊢
      subst hs
      exact h.quiet hq rfl rfl rfl rfl rfl
  | .ok (.ping data), hs => cases hs; exact h.quiet hq rfl rfl rfl rfl rfl
  | .ok .close, hs => cases hs; exact h.quiet hq rfl rfl rfl rfl rfl
  | .ok (.pong _), hs => cases hs; exact h.quiet hq rfl rfl rfl rfl rfl
  | .error (.err _), hs => cases hs; exact h.quiet hq rfl rfl rfl rfl rfl
  | .error .capacityOverflow, hs =>
    obtain ⟨hinv, hrun⟩ := hstream.drop hq hs
    exact ⟨hinv, hrun⟩

/-- Every step of the socket. -/
theorem FeedInv.socketStep (h : FeedInv cap f) {network : Option (List UInt8)} {mask : Mask}
    (hs : f.socketStep network mask = some f') : Refined cap f (f.observe (.socket network mask)) f' := by
  unfold Feed.socketStep at hs
  unfold Feed.observe
  cases hat : f.socket with
  | loop =>
    rw [hat] at hs
    have hq : f.socket.quiet = true := by rw [hat]; rfl
    simp only at hs ⊢
    split_ifs at hs
    · cases hs
      exact h.quiet hq rfl rfl rfl rfl rfl
    · exact h.drop hq hs
  | connect =>
    rw [hat] at hs
    have hq : f.socket.quiet = true := by rw [hat]; rfl
    simp only at hs ⊢
    split at hs
    · cases hs
      exact h.quiet hq rfl rfl rfl rfl rfl
    · exact h.drop hq hs
    · cases hs
      exact h.quiet hq rfl rfl rfl rfl rfl
  | failed =>
    rw [hat] at hs
    cases hs
    exact h.quiet (by rw [hat]; rfl) rfl rfl rfl rfl rfl
  | connected =>
    rw [hat] at hs
    cases hs
    exact h.quiet (by rw [hat]; rfl) rfl rfl rfl rfl rfl
  | messages =>
    rw [hat] at hs
    cases hs
    refine h.quiet (by rw [hat]; rfl) ?_ rfl rfl rfl rfl
    show SocketPc.quiet (if f.pubsubRunning then .read else .disconnected) = true
    split_ifs <;> rfl
  | read =>
    rw [hat] at hs
    exact h.handleFrame hat rfl hs
  | claiming info =>
    rw [hat] at hs
    have hok := h.socket
    rw [hat] at hok
    rcases hok with hclaim | hpc
    · refine h.claim hat hclaim ?_
      simp only at hs
      split at hs
      · next hpc =>
        rw [hpc] at hclaim
        cases hclaim
      · exact hs
    · simp only [hpc] at hs
      have hnone : f.observeClaim info = [] := by
        unfold Feed.observeClaim
        rw [hpc]
      simp only [hnone]
      split_ifs at hs with hclaimed
      · exact h.setClaimed hat hpc hclaimed hs
      · cases hs
        exact h.dropUpdate hat hpc (Bool.eq_false_iff.2 hclaimed)
  | publish info =>
    rw [hat] at hs
    exact h.publish hat hs
  | setLastSlot info =>
    rw [hat] at hs
    cases hs
    exact h.setLastSlot hat
  | disconnected =>
    rw [hat] at hs
    cases hs
    exact h.quiet (by rw [hat]; rfl) rfl rfl rfl rfl rfl
  | dropping =>
    rw [hat] at hs
    exact h.release hat hs
  | ended =>
    rw [hat] at hs
    cases hs

end Land.Pubsub
