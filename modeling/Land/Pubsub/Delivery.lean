import Land.Pubsub.Socket
import Land.Pubsub.Stream

/-!
# What the slot feed delivers

Through `Feed.abs` the two threads and the channel are a lossy feed (`refines_lossyFeed`): `slot-ws` offers the
notifications that it reads, accepts or drops each, and notes the slot; `slot-subscriber` takes them in order and
shows the slot.  So what `SlotState` shows has been announced by the server, the announcements come through in their
order, and one is dropped only when the channel is full or the subscriber has gone.
-/

namespace Land.Pubsub

open Channel
open Spsc (Inv)

variable {cap : ℕ} {f f' : Feed} {c c' : Spsc.State SlotInfo}

/-! ## The subscriber and its handle -/

theorem SocketPc.Ok.congr {pc : SocketPc} (h : pc.Ok c) (hprod : c'.producer = c.producer)
    (hbuf : c'.shared.buffer = c.shared.buffer) : pc.Ok c' := by
  unfold SocketPc.Ok at h ⊢
  rwa [hprod, hbuf]

/-- The consumer moves, which leaves the slots and the producer alone. -/
theorem FeedInv.subscriberMoves (h : FeedInv cap f) (f' : Feed) {a : Spsc.Action SlotInfo}
    (hc : f.channel.next a = some f'.channel) (hprod : f'.channel.producer = f.channel.producer)
    (hbuf : f'.channel.shared.buffer = f.channel.shared.buffer) (hsocket : f'.socket = f.socket)
    (hpubsub : f'.pubsubState = f.pubsubState) (hok : f'.subscriber.Ok f'.channel.consumer.pc)
    (hqueue : f'.channel.shared.queue ⊆ f.channel.shared.queue)
    (hd : Disconnected f'.channel → Disconnected f.channel ∨ f'.readerLeft = true)
    (hleft : f.readerLeft = true → f'.readerLeft = true) :
    FeedInv cap f' ∧ ∀ {unread held shown readerLeft}, f'.unread = unread → f'.held = held →
      f'.state.slot = shown → f'.readerLeft = readerLeft →
        f'.abs = { f.abs with unread := unread, held := held, shown := shown, readerLeft := readerLeft } := by
  refine ⟨⟨(h.channel.next hc).1, ?_, hok, fun v hv => h.cells v (hqueue hv), fun hdisc => ?_⟩, ?_⟩
  · rw [hsocket]
    exact h.socket.congr hprod hbuf
  · rcases hd hdisc with hdisc | hleft'
    · rw [hsocket]
      exact (h.disconnected hdisc).imp_left hleft
    · exact .inl hleft'
  · have hwaiting : f'.waiting = f.waiting ∧ f'.unnoted = f.unnoted := by
      unfold Feed.waiting Feed.unnoted
      rw [hsocket, hprod]
      exact ⟨rfl, rfl⟩
    rintro _ _ _ _ rfl rfl rfl rfl
    unfold Feed.abs
    rw [hwaiting.1, hwaiting.2, hpubsub]

theorem disconnected_congr (hclosed : c'.shared.closed = c.shared.closed)
    (hcount : c'.shared.strongCount = c.shared.strongCount) (hprod : c'.producer = c.producer)
    (hd : Disconnected c') : Disconnected c := by
  unfold Disconnected at hd ⊢
  rwa [hclosed, hcount, hprod] at hd

/-- The consumer moves, and nothing is handled. -/
theorem FeedInv.subscriberQuiet (h : FeedInv cap f) {a : Spsc.Action SlotInfo}
    (hc : f.channel.next a = some f'.channel) (hprod : f'.channel.producer = f.channel.producer)
    (hsh : f'.channel.shared = f.channel.shared) (hsocket : f'.socket = f.socket)
    (hpubsub : f'.pubsubState = f.pubsubState) (hok : f'.subscriber.Ok f'.channel.consumer.pc)
    (hheld : f'.held = f.held) (hstate : f'.state = f.state) (hleft : f'.readerLeft = f.readerLeft) :
    Refined cap f [] f' := by
  obtain ⟨hinv, habs⟩ := h.subscriberMoves f' hc hprod (by rw [hsh]) hsocket hpubsub hok
    (by rw [hsh]; exact List.Subset.refl _)
    (fun hd => .inl (disconnected_congr (by rw [hsh]) (by rw [hsh]) hprod hd)) (fun hl => hleft.trans hl)
  exact .stutter hinv (habs (unread_congr (by rw [hsh]) hheld) hheld (by rw [hstate]) hleft)

theorem held_eq {pc : Spsc.ConsumerPc} (hpc : f.channel.consumer.pc = pc) : f.held = Feed.handled pc := by
  subst hpc
  rfl

/-- `poll` begins. -/
theorem FeedInv.poll (h : FeedInv cap f) (hat : f.subscriber = .loop)
    (hs : f.onChannel (.consumerCall (.start .poll)) (·.setSubscriber .polling) = some f') :
    Refined cap f [] f' := by
  obtain ⟨c, hc, rfl⟩ := onChannel_eq_some hs
  have hidle : f.channel.consumer.pc = .idle := by
    have hok := h.subscriber
    rwa [hat] at hok
  have hmoves : c.producer = f.channel.producer ∧ c.shared = f.channel.shared ∧
      c.consumer.pc = .check .poll := by
    obtain ⟨r, hr, rfl⟩ := Option.map_eq_some_iff.1 hc
    simp only [Spsc.Consumer.call, hidle] at hr
    cases hr
    exact ⟨rfl, rfl, rfl⟩
  obtain ⟨hprod, hsh, hpc⟩ := hmoves
  refine h.subscriberQuiet hc hprod hsh rfl rfl (.inr (.inl hpc)) ?_ rfl ?_
  · exact (congrArg Feed.handled hpc).trans (held_eq hidle).symm
  · unfold Feed.readerLeft
    rw [hat]
    rfl

/-- The subscriber gives up its handle. -/
theorem FeedInv.leave (h : FeedInv cap f) (hat : f.subscriber = .loop)
    (hs : f.onChannel (.consumerCall .drop) (·.setSubscriber .dropping) = some f') :
    Refined cap f [.left] f' := by
  obtain ⟨c, hc, rfl⟩ := onChannel_eq_some hs
  have hidle : f.channel.consumer.pc = .idle := by
    have hok := h.subscriber
    rwa [hat] at hok
  have hqueue := queue_eq_of_observe h.channel hc rfl
  have hmoves : c.producer = f.channel.producer ∧ c.shared.buffer = f.channel.shared.buffer ∧
      c.consumer.pc = .dropping := by
    obtain ⟨r, hr, rfl⟩ := Option.map_eq_some_iff.1 hc
    simp only [Spsc.Consumer.call, hidle] at hr
    cases hr
    exact ⟨rfl, rfl, rfl⟩
  obtain ⟨hprod, hbuf, hpc⟩ := hmoves
  obtain ⟨hinv, habs⟩ := h.subscriberMoves ((f.withChannel c).setSubscriber .dropping) hc hprod hbuf rfl
    rfl hpc (by rw [← hqueue]; exact List.Subset.refl _) (fun _ => .inr rfl) fun _ => rfl
  have hheld : ((f.withChannel c).setSubscriber .dropping).held = f.held :=
    (congrArg Feed.handled hpc).trans (held_eq hidle).symm
  exact .one hinv (congrArg some (habs (unread_congr hqueue hheld) hheld rfl rfl).symm)

/-- `poll` looks at the producer's cursor. -/
theorem FeedInv.check (h : FeedInv cap f) (hat : f.subscriber = .polling)
    (hpc : f.channel.consumer.pc = .check .poll) (hs : f.onChannel .consumerStep id = some f') :
    Refined cap f [] f' := by
  obtain ⟨c, hc, rfl⟩ := onChannel_eq_some hs
  have hmoves : c.producer = f.channel.producer ∧ c.shared = f.channel.shared ∧
      (c.consumer.pc = .idle ∨ ∃ count, c.consumer.pc = .take .poll count 0) := by
    obtain ⟨r, hr, rfl⟩ := Option.map_eq_some_iff.1 hc
    simp only [Spsc.Consumer.step, hpc] at hr
    split_ifs at hr
    · cases hr
      exact ⟨rfl, rfl, .inr ⟨_, rfl⟩⟩
    · cases hr
      exact ⟨rfl, rfl, .inl rfl⟩
  obtain ⟨hprod, hsh, hpc'⟩ := hmoves
  refine h.subscriberQuiet hc hprod hsh rfl rfl ?_ ?_ rfl rfl
  · show f.subscriber.Ok c.consumer.pc
    rw [hat]
    exact hpc'.imp_right fun htake => .inr (htake.imp fun _ hpc' => ⟨0, hpc'⟩)
  · rw [held_eq hpc]
    show Feed.handled c.consumer.pc = 0
    rcases hpc' with hpc' | ⟨count, hpc'⟩ <;> rw [hpc'] <;> rfl

/-- The handler of `poll` is called for an event. -/
theorem FeedInv.take (h : FeedInv cap f) (hat : f.subscriber = .polling) {count i : ℕ}
    (hpc : f.channel.consumer.pc = .take .poll count i) (hi : i < count) {info : SlotInfo}
    (hget : f.channel.shared.buffer.get (f.channel.consumer.nextSequence + i) = some info)
    (hs : f.onChannel .consumerStep (fun f => { f with state := { f.state with slot := info.slot } }) = some f') :
    Refined cap f [.taken info] f' := by
  obtain ⟨c, hc, heq⟩ := onChannel_eq_some hs
  have hmoves : c.producer = f.channel.producer ∧ c.shared = f.channel.shared ∧
      c.consumer.pc = .take .poll count (i + 1) ∧ c.ring.taken = f.channel.ring.taken ++ [some info] ∧
      c.ring.released = f.channel.ring.released := by
    obtain ⟨r, hr, rfl⟩ := Option.map_eq_some_iff.1 hc
    simp only [Spsc.Consumer.step, hpc, if_pos hi] at hr
    cases hr
    refine ⟨rfl, rfl, rfl, ?_, rfl⟩
    show f.channel.ring.taken ++ [f.channel.shared.buffer.get _] = _
    rw [hget]
  obtain ⟨hprod, hsh, hpc', htaken, hreleased⟩ := hmoves
  have hchannel : f'.channel = c := by rw [heq]; rfl
  have hheld : f.held = i := held_eq hpc
  have hheld' : f'.held = i + 1 := held_eq (by rw [hchannel, hpc'])
  -- the event is the first of the queue that was not handled
  have hunread : f.unread = info :: f'.unread := by
    have hprefix := ((h.channel.next hc).1).read_prefix_queue
    have hlen := length_read h.channel
    rw [htaken, hreleased, hsh, List.drop_append_of_le_length h.channel.coupled.valid.released_le] at hprefix
    obtain ⟨rest, hrest⟩ := hprefix
    rw [hheld] at hlen
    unfold Feed.unread
    rw [hheld', hheld, hchannel, hsh, ← hrest, List.append_assoc, List.drop_left' hlen, List.singleton_append,
      ← List.drop_drop, List.drop_left' hlen]
    rfl
  have hok : f'.subscriber.Ok f'.channel.consumer.pc := by
    have hsub : f'.subscriber = .polling := by rw [heq]; exact hat
    rw [hsub, hchannel]
    exact .inr (.inr ⟨count, i + 1, hpc'⟩)
  have hsame : f'.channel.shared = f.channel.shared := by rw [hchannel, hsh]
  have hprod' : f'.channel.producer = f.channel.producer := by rw [hchannel, hprod]
  have hleft : f'.readerLeft = f.readerLeft := by rw [heq]; rfl
  obtain ⟨hinv, habs⟩ := h.subscriberMoves f' (by rw [hchannel]; exact hc) hprod' (by rw [hsame])
    (by rw [heq]; rfl) (by rw [heq]; rfl) hok (by rw [hsame]; exact List.Subset.refl _)
    (fun hd => .inl (disconnected_congr (by rw [hsame]) (by rw [hsame]) hprod' hd)) fun hl => hleft.trans hl
  have habs := habs rfl (hheld'.trans (congrArg (· + 1) hheld.symm)) (by rw [heq]) hleft
  exact .one hinv ((LossyFeed.step_taken hunread).trans (congrArg some habs.symm))

/-- `poll` stores the consumer's cursor. -/
theorem FeedInv.finish (h : FeedInv cap f) (hat : f.subscriber = .polling) {count i : ℕ}
    (hpc : f.channel.consumer.pc = .take .poll count i) (hi : ¬ i < count)
    (hs : f.onChannel .consumerStep id = some f') : Refined cap f [.released] f' := by
  obtain ⟨c, hc, rfl⟩ := onChannel_eq_some hs
  -- the channel pops what was handled
  have hrun := run_queue h.channel hc
  have hobs : f.channel.observe .consumerStep =
      [.pop (f.channel.ring.taken.drop f.channel.ring.released)] := by
    simp only [Spsc.State.observe, hpc, if_neg hi]
  rw [hobs, System.run_singleton] at hrun
  obtain ⟨-, hqueue⟩ := Option.ite_none_right_eq_some.1 hrun
  rw [length_read h.channel] at hqueue
  have hqueue := Option.some.inj hqueue
  have hmoves : c.producer = f.channel.producer ∧ c.shared.buffer = f.channel.shared.buffer ∧
      c.shared.closed = f.channel.shared.closed ∧ c.shared.strongCount = f.channel.shared.strongCount ∧
      c.consumer.pc = .idle := by
    obtain ⟨r, hr, rfl⟩ := Option.map_eq_some_iff.1 hc
    simp only [Spsc.Consumer.step, hpc, if_neg hi] at hr
    cases hr
    exact ⟨rfl, rfl, rfl, rfl, rfl⟩
  obtain ⟨hprod, hbuf, hclosed, hcount, hpc'⟩ := hmoves
  obtain ⟨hinv, habs⟩ := h.subscriberMoves (f.withChannel c) hc hprod hbuf rfl rfl
    (by show f.subscriber.Ok c.consumer.pc; rw [hat]; exact .inl hpc')
    (by show c.shared.queue ⊆ _; rw [← hqueue]; exact List.drop_subset _ _)
    (fun hd => .inl (disconnected_congr hclosed hcount hprod hd)) fun hl => hl
  have hheld : (f.withChannel c).held = Feed.handled .idle := congrArg Feed.handled hpc'
  have hunread : (f.withChannel c).unread = f.unread := by
    unfold Feed.unread
    rw [hheld, hqueue]
    rfl
  exact .one hinv (congrArg some (habs hunread hheld rfl rfl).symm)

/-- The handle of the subscriber is released. -/
theorem FeedInv.subscriberRelease (h : FeedInv cap f) (hat : f.subscriber = .dropping)
    (hs : f.onChannel .consumerStep (·.setSubscriber .ended) = some f') : Refined cap f [] f' := by
  obtain ⟨c, hc, rfl⟩ := onChannel_eq_some hs
  have hpc : f.channel.consumer.pc = .dropping := by
    have hok := h.subscriber
    rwa [hat] at hok
  have hqueue := queue_eq_of_observe h.channel hc (by simp only [Spsc.State.observe, hpc])
  have hmoves : c.producer = f.channel.producer ∧ c.shared.buffer = f.channel.shared.buffer ∧
      c.consumer.pc = .absent := by
    obtain ⟨r, hr, rfl⟩ := Option.map_eq_some_iff.1 hc
    simp only [Spsc.Consumer.step, hpc] at hr
    cases hr
    exact ⟨rfl, rfl, rfl⟩
  obtain ⟨hprod, hbuf, hpc'⟩ := hmoves
  obtain ⟨hinv, habs⟩ := h.subscriberMoves ((f.withChannel c).setSubscriber .ended) hc hprod hbuf rfl
    rfl hpc' (by rw [← hqueue]; exact List.Subset.refl _) (fun _ => .inr rfl) fun _ => rfl
  have hheld : ((f.withChannel c).setSubscriber .ended).held = f.held :=
    (congrArg Feed.handled hpc').trans (held_eq hpc).symm
  have hleft : f.readerLeft = true := by
    unfold Feed.readerLeft
    rw [hat]
  exact .stutter hinv (habs (unread_congr hqueue hheld) hheld rfl hleft.symm)

/-- A step that has nothing to do with the channel. -/
theorem FeedInv.subscriberLocal (h : FeedInv cap f) (hidle : f.channel.consumer.pc = .idle)
    (hleft : f.readerLeft = false) {pc : SubscriberPc} (hpc : pc = .loop ∨ ∃ b, pc = .storeConnected b)
    {state : SlotState} (hslot : state.slot = f.state.slot) :
    Refined cap f [] { f with subscriber := pc, state := state } := by
  have hleft' : Feed.readerLeft { f with subscriber := pc, state := state } = f.readerLeft := by
    rw [hleft]
    rcases hpc with rfl | ⟨b, rfl⟩ <;> rfl
  refine .stutter ⟨h.channel, h.socket, ?_, h.cells, fun hd => ?_⟩ ?_
  · rcases hpc with rfl | ⟨b, rfl⟩ <;> exact hidle
  · rw [hleft']
    exact h.disconnected hd
  · unfold Feed.abs
    rw [hleft']
    show LossyFeed.mk _ _ _ _ _ state.slot _ = _
    rw [hslot]
    rfl

/-- Every step of the subscriber. -/
theorem FeedInv.subscriberStep (h : FeedInv cap f) (hs : f.subscriberStep = some f') :
    Refined cap f (f.observe .subscriber) f' := by
  unfold Feed.subscriberStep at hs
  unfold Feed.observe
  cases hat : f.subscriber with
  | loop =>
    rw [hat] at hs
    simp only at hs ⊢
    split_ifs at hs ⊢
    · exact h.poll hat hs
    · exact h.leave hat hs
  | polling =>
    rw [hat] at hs
    have hok := h.subscriber
    rw [hat] at hok
    rcases hok with hpc | hpc | ⟨count, i, hpc⟩
    · simp only [hpc] at hs ⊢
      cases hs
      refine h.subscriberLocal hpc ?_ (.inr ⟨_, rfl⟩) rfl
      unfold Feed.readerLeft
      rw [hat]
    · simp only [hpc] at hs ⊢
      exact h.check hat hpc hs
    · simp only [hpc] at hs ⊢
      by_cases hi : i < count
      · rw [if_pos hi] at hs ⊢
        obtain ⟨info, hget, hs⟩ := Option.bind_eq_some_iff.1 hs
        rw [hget]
        exact h.take hat hpc hi hget hs
      · rw [if_neg hi] at hs ⊢
        exact h.finish hat hpc hi hs
  | storeConnected connected =>
    rw [hat] at hs
    cases hs
    have hidle := h.subscriber
    rw [hat] at hidle
    refine h.subscriberLocal hidle ?_ (.inl rfl) rfl
    unfold Feed.readerLeft
    rw [hat]
  | dropping =>
    rw [hat] at hs
    exact h.subscriberRelease hat hs
  | ended =>
    rw [hat] at hs
    cases hs

/-! ## Every run -/

/-- Every action. -/
theorem FeedInv.next (h : FeedInv cap f) {a : FeedAction} (hs : f.next a = some f') :
    Refined cap f (f.observe a) f' := by
  cases a with
  | socket network mask => exact h.socketStep hs
  | subscriber => exact h.subscriberStep hs
  | stop =>
    cases hs
    exact .stutter ⟨h.channel, h.socket, h.subscriber, h.cells, h.disconnected⟩ rfl
  | stopPubsub =>
    cases hs
    exact .stutter ⟨h.channel, h.socket, h.subscriber, h.cells, h.disconnected⟩ rfl

end Land.Pubsub
