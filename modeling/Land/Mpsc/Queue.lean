import Land.Lib.TicketQueue
import Land.Mpsc.Delivery

/-!
# The MPSC channel is a ticket queue

A producer's claim draws tickets, its `fetch_xor`s place what is in the slots, and the store of the consumer's cursor
pops what the call has read.  A refusal is observed at the load that gave rise to it: "full" at the load of the
consumer's cursor, "empty" at the load of the word that shows the next sequence unpublished.  So every run of the
channel is, through `State.observe`, a run of the ticket queue, and the consumer gets the events of each producer in
the order in which that producer sent them.

`Producer.Shows` says once what a step of a producer can do to the tickets, and which of its own it has still to
place (`Producer.first`).
-/

namespace Land.Mpsc

open Channel

variable {T : Type} {cap : ℕ}

/-! ## What is observed -/

/-- The contents of the slots of `[start, start + k)`. -/
def Shared.cells (sh : Shared T) (start k : ℕ) : List (Option T) :=
  (List.range' start k).map fun (s : ℕ) => sh.buffer.get s

/-- What a step of producer `p` shows. -/
def Producer.observe (sh : Shared T) (p : ℕ) : Producer T → List (TicketEvent ℕ (Option T))
  | .claim what => [.reserve p what.count]
  | .trySpace what _ current =>
      if sh.consumerCursor < current + what.count - sh.capacity then [.full what.count] else []
  | .tryCas what _ current => if sh.claimCursor = current then [.reserve p what.count] else []
  | .publish sequence => [.place p (asUsize sequence) (sh.cells (asUsize sequence) 1)]
  | .flushing (f :: _) => [.place p f.first (sh.cells f.first f.len)]
  | _ => []

/-- What the end of a scan for `op` shows. -/
def Consumer.observeScan (T : Type) (c : Consumer) (op : Batch) (highest : ℤ) :
    List (TicketEvent ℕ (Option T)) :=
  if highest ≥ c.nextSequence then
    match op with
    | .pending => [.ready (asUsize (highest - c.nextSequence + 1))]
    | _ => []
  else [.empty]

/-- What a step of the consumer shows. -/
def Consumer.observe (sh : Shared T) (R : History T) (c : Consumer) : List (TicketEvent ℕ (Option T)) :=
  match c.pc with
  | .check op =>
      if sh.isPublished c.nextSequence then
        match op with
        | .peek => [.front (sh.buffer.get c.nextSequence)]
        | _ => []
      else [.empty]
  | .finalCheck => if sh.isPublished c.nextSequence then [] else [.empty]
  | .store => [.pop (R.taken.drop R.released)]
  | .scanStart op =>
      match Scan.start sh c.nextSequence with
      | .inl highest => c.observeScan T op highest
      | .inr _ => []
  | .scan op scan =>
      match scan.step sh with
      | .inl highest => c.observeScan T op highest
      | .inr _ => []
  | .batchRead _ count i => if i < count then [] else [.pop (R.taken.drop R.released)]
  | _ => []

/-- What an action shows. -/
def State.observe (s : State T) : Action T → List (TicketEvent ℕ (Option T))
  | .step p => (s.producers p).observe s.shared p
  | .consumerStep => s.consumer.observe s.shared s.ring
  | _ => []

/-! ## What a producer knows of its tickets -/

/-- The first sequence that the producer has claimed and not published. -/
def Producer.first : Producer T → Option ℕ
  | .awaitSpace what endSequence => some (asUsize (endSequence + 1 - what.count))
  | .recheck what endSequence => some (asUsize (endSequence + 1 - what.count))
  | .fill what endSequence => some (asUsize (endSequence + 1 - what.count))
  | .publish sequence => some (asUsize sequence)
  | .holding start _ => some (asUsize start)
  | .flushing (f :: _) => some f.first
  | _ => none

/-- The claim cursor that an attempt has loaded. -/
def Producer.loaded : Producer T → Option ℤ
  | .trySpace _ _ current => some current
  | .tryCas _ _ current => some current
  | _ => none

/-- A producer publishes in the order of its claims, and the cursor it has loaded is not ahead. -/
structure Producer.Orderly (R : History T) (p : ℕ) (pc : Producer T) : Prop where
  first : ∀ a ∈ pc.first, R.InOrder p a
  loaded : ∀ current ∈ pc.loaded, current < R.claims

/-- What a step of a producer does to the tickets. -/
inductive Producer.Shows (cap : ℕ) (R : History T) (p : ℕ) (pc : Producer T)
    (r : Shared T × Producer T × History T) : List (TicketEvent ℕ (Option T)) → Prop
  | nothing (hR : r.2.2.tickets = R.tickets) (hfirst : ∀ a ∈ r.2.1.first, a ∈ pc.first) : Shows cap R p pc r []
  | claim (k : ℕ) (hR : r.2.2 = R.claim p k) (hfirst : r.2.1.first = some R.claims) :
      Shows cap R p pc r [.reserve p k]
  | place (a k : ℕ) (ha : pc.first = some a) (h : ∀ s, a ≤ s → s < a + k → R.Acquired cap p s)
      (hR : r.2.2 = R.publish a k) (hfirst : ∀ b ∈ r.2.1.first, b = a + k) :
      Shows cap R p pc r [.place p a ((List.range' a k).map R.contents)]
  | full (n : ℕ) (hR : r.2.2 = R) (hlt : R.released + cap < R.claims + n) (hfirst : r.2.1.first = none) :
      Shows cap R p pc r [.full n]

section Producers

variable {sh : Shared T} {R R' : History T} {p : ℕ} {pc : Producer T} {r : Shared T × Producer T × History T}
  {es : List (TicketEvent ℕ (Option T))}

/-- What a step shows is what happens to the tickets. -/
theorem Producer.Shows.run (h : Shows cap R p pc r es) (hord : pc.Orderly R p) :
    (ticketQueue ℕ (Option T) cap).run R.tickets es = some r.2.2.tickets := by
  cases h with
  | nothing hR _ => exact congrArg some hR.symm
  | claim k hR _ =>
    rw [System.run_singleton, hR]
    exact SeqRing.step_claim p k
  | place a k ha hacq hR _ =>
    rw [System.run_singleton, hR]
    exact SeqRing.step_publish hacq (hord.first a ha)
  | full n hR hlt _ =>
    rw [System.run_singleton, hR]
    exact TicketQueue.step_full hlt

/-- A producer's own step keeps its tickets in order. -/
theorem Producer.Shows.inOrder (h : Shows cap R p pc r es) (hv : R.Valid cap)
    (hord : ∀ a ∈ pc.first, R.InOrder p a) : ∀ a ∈ r.2.1.first, r.2.2.InOrder p a := by
  intro a ha
  cases h with
  | nothing hR hfirst =>
    intro s hclaim hpub
    have hclaim' : R.claimant s = some p := (congrFun (congrArg TicketQueue.owner hR) s).symm.trans hclaim
    rw [← SeqRing.isSome_placed, hR, SeqRing.isSome_placed] at hpub
    exact hord a (hfirst a ha) s hclaim' hpub
  | claim k hR hfirst =>
    rw [hfirst, Option.mem_some_iff] at ha
    subst ha
    intro s _ hpub
    rw [hR] at hpub
    exact hv.published_lt s hpub
  | place b k hb _ hR hfirst =>
    obtain rfl := hfirst a ha
    intro s hclaim hpub
    rw [hR] at hclaim hpub
    simp only [SeqRing.publish, Bool.or_eq_true, decide_eq_true_eq] at hpub
    rcases hpub with hpub | hnew
    · exact Nat.lt_add_right k (hord b hb s hclaim hpub)
    · exact hnew.2
  | full n _ _ hfirst =>
    rw [hfirst] at ha
    cases ha

theorem Producer.Orderly.rely {o : Option ℕ} (hord : pc.Orderly R p) (h : SeqRing.Step cap o R R')
    (ho : o ≠ some p) : pc.Orderly R' p := by
  have hmono := h.claims_mono
  refine ⟨fun a ha => h.inOrder ho (hord.first a ha), fun current hcur => ?_⟩
  have := hord.loaded current hcur
  omega

/-- What a producer is about to place is in the slots. -/
theorem Coupled.cells_eq (hc : Coupled cap sh R) {a k : ℕ}
    (h : ∀ s, a ≤ s → s < a + k → R.Acquired cap p s) : sh.cells a k = (List.range' a k).map R.contents := by
  unfold Shared.cells
  refine List.map_congr_left fun s hs => ?_
  obtain ⟨i, hi, rfl⟩ := List.mem_range'.1 hs
  rw [hc.get_eq]
  exact (h _ (by omega) (by omega)).slot

theorem Producer.Shows.keeps {sh' : Shared T} {pc' : Producer T} (h : pc'.first = pc.first) :
    Shows cap R p pc (sh', pc', R) [] :=
  .nothing rfl fun _ ha => h ▸ ha

theorem Producer.Shows.ends {sh' : Shared T} {pc' : Producer T} (h : pc'.first = none) :
    Shows cap R p pc (sh', pc', R) [] :=
  .nothing rfl fun a ha => by
    rw [h] at ha
    cases ha

theorem Producer.step_shows (hc : Coupled cap sh R) (hp : pc.Ok cap R p) (hord : pc.Orderly R p)
    (h : Producer.step sh R p pc = some r) : Shows cap R p pc r (pc.observe sh p) := by
  have hclaim := hc.claim
  have hnew (k : ℕ) : some (asUsize (sh.claimCursor + k + 1 - k)) = some R.claims := by
    unfold asUsize
    congr 1
    omega
  cases pc with
  | absent => cases h
  | idle => cases h
  | holding start count => cases h
  | check blocking what =>
    simp only [Producer.step] at h
    split_ifs at h <;> cases h <;> exact .ends rfl
  | claim what =>
    cases h
    exact .claim what.count rfl (hnew what.count)
  | awaitSpace what e =>
    simp only [Producer.step] at h
    split_ifs at h <;> cases h <;> exact .keeps rfl
  | recheck what e =>
    simp only [Producer.step] at h
    split_ifs at h <;> cases h
    · exact .ends rfl
    · exact .keeps rfl
  | tryLoad what attempt =>
    cases h
    exact .ends rfl
  | trySpace what attempt current =>
    have hcur := hord.loaded current rfl
    simp only [Producer.step] at h
    simp only [Producer.observe]
    split_ifs at h ⊢ with hroom <;> cases h
    · refine .full what.count rfl ?_ rfl
      rw [hc.consumer, hc.bits.capacity_eq] at hroom
      omega
    · exact .ends rfl
  | tryCas what attempt current =>
    simp only [Producer.step] at h
    simp only [Producer.observe]
    split_ifs at h ⊢ with hcur <;> cases h
    · subst hcur
      exact .claim what.count rfl (hnew what.count)
    · exact .ends rfl
    · exact .ends rfl
  | fill what e =>
    obtain ⟨a, ha, hs⟩ := hp
    cases what with
    | event v =>
      cases h
      simp only [Payload.count, Nat.cast_add, Nat.cast_one] at ha
      obtain rfl : e = (a : ℤ) := by omega
      rw [asUsize_natCast]
      have hfirst : (Producer.publish (a : ℤ) : Producer T).first = (Producer.fill (.event v) a).first :=
        congrArg (fun e => some (asUsize e)) (add_sub_cancel_right (a : ℤ) 1).symm
      exact .nothing (SeqRing.tickets_write _ (hs a le_rfl (Nat.lt_succ_self a)).1) fun b hb => hfirst ▸ hb
    | batch n =>
      cases h
      have hstart : e - n + 1 = (a : ℤ) := by
        simp only [Payload.count, Nat.cast_add] at ha
        omega
      have hfirst : (Producer.holding (e - n + 1) n : Producer T).first =
          (Producer.fill (.batch n) e : Producer T).first :=
        congrArg (fun e => some (asUsize e)) (sub_add_eq_add_sub e (n : ℤ) 1)
      rw [hstart] at hfirst ⊢
      rw [asUsize_natCast]
      exact .nothing (SeqRing.tickets_acquire fun s h1 h2 => (hs s h1 h2).1) fun b hb => hfirst ▸ hb
  | publish sequence =>
    cases h
    obtain ⟨s, rfl, hs⟩ := hp
    have hrun : ∀ t, s ≤ t → t < s + 1 → R.Acquired cap p t := by
      intro t h1 h2
      obtain rfl : t = s := by omega
      exact hs
    simp only [Producer.observe, asUsize_natCast, hc.cells_eq hrun]
    exact .place s 1 (congrArg some (asUsize_natCast s)) hrun rfl fun b hb => by cases hb
  | flushing rest =>
    cases rest with
    | nil =>
      cases h
      exact .ends rfl
    | cons f rest =>
      cases h
      obtain ⟨a, b, ⟨rfl, -, hcov⟩, hs⟩ := hp
      have hle := hcov.le
      have hrun : ∀ s, f.first ≤ s → s < f.first + f.len → R.Acquired cap p s :=
        fun s h1 h2 => hs s h1 (by omega)
      simp only [Producer.observe, hc.cells_eq hrun]
      refine .place f.first f.len rfl hrun rfl fun c hc => ?_
      cases rest with
      | nil => cases hc
      | cons g rest => exact (Option.mem_some_iff.1 hc).symm.trans hcov.1
  | dropping =>
    simp only [Producer.step] at h
    split_ifs at h <;> cases h <;> exact .ends rfl
  | closing =>
    cases h
    exact .ends rfl

/-- A call shows nothing. -/
theorem Producer.call_shows {call : ProducerCall T} (hp : pc.Ok cap R p)
    (h : Producer.call sh R p pc call = some r) : Shows cap R p pc r [] := by
  unfold Producer.call at h
  split at h
  · cases h
    exact .ends rfl
  · cases h
    exact .ends rfl
  · split_ifs at h
    cases h
    exact .ends rfl
  · split_ifs at h
    cases h
    exact .ends rfl
  · cases h
    exact .ends rfl
  · cases h
    exact .ends rfl
  · next start count index v =>
    split_ifs at h with hi
    obtain ⟨a, rfl, hs⟩ := hp
    rw [asUsize_natCast_add] at h
    cases h
    exact .nothing (SeqRing.tickets_write _ (hs (a + index) (by omega) (by omega)).claimed) fun _ hb => hb
  · next start count =>
    cases h
    obtain ⟨a, rfl, hs⟩ := hp
    have hcov := covers_batchFlushes sh a count
    refine .nothing rfl fun b hb => ?_
    -- the first `fetch_xor` starts at the first slot of the batch
    cases hf : sh.batchFlushes a count with
    | nil =>
      rw [hf] at hb
      cases hb
    | cons f rest =>
      rw [hf] at hb hcov
      rw [← Option.mem_some_iff.1 hb, hcov.1]
      exact congrArg some (asUsize_natCast a)
  · cases h

/-- A cursor that a step has loaded is the one of that moment, or was loaded before. -/
theorem Producer.loaded_step (h : Producer.step sh R p pc = some r) :
    ∀ current ∈ r.2.1.loaded, current ∈ pc.loaded ∨ current = sh.claimCursor := by
  intro current hcur
  cases pc with
  | absent => cases h
  | idle => cases h
  | holding start count => cases h
  | check blocking what =>
    simp only [Producer.step] at h
    split_ifs at h <;> cases h <;> cases hcur
  | claim what => cases h; cases hcur
  | awaitSpace what e =>
    simp only [Producer.step] at h
    split_ifs at h <;> cases h <;> cases hcur
  | recheck what e =>
    simp only [Producer.step] at h
    split_ifs at h <;> cases h <;> cases hcur
  | tryLoad what attempt =>
    cases h
    exact .inr (Option.mem_some_iff.1 hcur).symm
  | trySpace what attempt loaded =>
    simp only [Producer.step] at h
    split_ifs at h <;> cases h
    · cases hcur
    · exact .inl hcur
  | tryCas what attempt loaded =>
    simp only [Producer.step] at h
    split_ifs at h <;> cases h <;> cases hcur
  | fill what e => cases what <;> cases h <;> cases hcur
  | publish sequence => cases h; cases hcur
  | flushing rest => cases rest <;> cases h <;> cases hcur
  | dropping =>
    simp only [Producer.step] at h
    split_ifs at h <;> cases h <;> cases hcur
  | closing => cases h; cases hcur

theorem Producer.loaded_call {call : ProducerCall T} (h : Producer.call sh R p pc call = some r) :
    r.2.1.loaded = none := by
  unfold Producer.call at h
  split at h
  · cases h; rfl
  · cases h; rfl
  · split_ifs at h; cases h; rfl
  · split_ifs at h; cases h; rfl
  · cases h; rfl
  · cases h; rfl
  · split_ifs at h; cases h; rfl
  · cases h; rfl
  · cases h

end Producers

/-! ## The consumer -/

section Consumer

variable {sh : Shared T} {R : History T} {c : Consumer}

theorem run_empty (h : R.published R.released = false) :
    (ticketQueue ℕ (Option T) cap).run R.tickets [.empty] = some R.tickets := by
  rw [System.run_singleton]
  exact TicketQueue.step_empty (SeqRing.placed_of_unpublished h)

theorem run_observeScan (hn : c.nextSequence = R.released) (op : Batch) {highest : ℤ}
    (hpub : ∀ t : ℕ, R.released ≤ t → (t : ℤ) ≤ highest → R.published t = true)
    (hnone : highest < R.released → R.published R.released = false) :
    (ticketQueue ℕ (Option T) cap).run R.tickets (c.observeScan T op highest) = some R.tickets := by
  unfold Consumer.observeScan
  rw [hn]
  split_ifs with hge
  · cases op with
    | pending =>
      rw [System.run_singleton]
      refine TicketQueue.step_ready fun t h1 h2 => ?_
      have h1 : R.released ≤ t := h1
      have h2 : t < R.released + asUsize (highest - R.released + 1) := h2
      unfold asUsize at h2
      rw [SeqRing.isSome_placed]
      exact hpub t h1 (by omega)
    | _ => rfl
  · exact run_empty (hnone (not_le.1 hge))

theorem run_pop (hv : R.Valid cap) {n : ℕ} (hn : R.taken.length = n) :
    (ticketQueue ℕ (Option T) cap).run R.tickets [.pop (R.taken.drop R.released)] =
      some (R.release n).tickets := by
  subst hn
  rw [System.run_singleton]
  exact SeqRing.step_release hv

/-- What a step of the consumer shows is what happens to the tickets. -/
theorem Consumer.step_run {r : Shared T × Consumer × History T} (hc : Coupled cap sh R) (hok : c.Ok sh R)
    (h : c.step sh R = some r) :
    (ticketQueue ℕ (Option T) cap).run R.tickets (c.observe sh R) = some r.2.2.tickets := by
  obtain ⟨hn, hpc⟩ := hok
  have hnext := hc.isPublished_next_iff hn
  have hunpublished (hp : ¬ sh.isPublished c.nextSequence = true) : R.published R.released = false := by
    rw [hnext] at hp
    exact Bool.eq_false_iff.2 hp
  unfold Consumer.step at h
  unfold Consumer.observe
  cases hat : c.pc with
  | check op =>
    rw [hat] at h
    simp only at h ⊢
    by_cases hp : sh.isPublished c.nextSequence = true
    · rw [if_pos hp] at h ⊢
      have hpub := hnext.1 hp
      cases op with
      | peek =>
        cases h
        rw [System.run_singleton]
        refine TicketQueue.step_front ?_
        rw [hn, hc.get_eq, hc.valid.published_slot _ hpub le_rfl]
        exact SeqRing.placed_of_published hpub
      | _ => cases h; rfl
    · rw [if_neg hp] at h ⊢
      cases h
      exact run_empty (hunpublished hp)
  | disconnected op =>
    rw [hat] at h
    cases op with
    | recv =>
      simp only at h
      split_ifs at h <;> cases h <;> rfl
    | _ => cases h; rfl
  | finalCheck =>
    rw [hat] at h
    simp only at h ⊢
    by_cases hp : sh.isPublished c.nextSequence = true
    · rw [if_pos hp] at h ⊢
      cases h
      rfl
    · rw [if_neg hp] at h ⊢
      cases h
      exact run_empty (hunpublished hp)
  | read => rw [hat] at h; cases h; rfl
  | store =>
    rw [hat] at h hpc
    cases h
    refine run_pop hc.valid ?_
    have hlen : R.taken.length = R.released + 1 := hpc
    rw [hn, hlen]
    unfold asUsize
    omega
  | scanStart op =>
    rw [hat] at h
    simp only at h ⊢
    cases hs : Scan.start sh c.nextSequence with
    | inl highest =>
      rw [hs] at h
      cases h
      unfold Scan.start at hs
      split_ifs at hs with hgt
      cases hs
      refine run_observeScan hn op (fun t h1 h2 => by omega) fun _ => ?_
      -- nothing is claimed from the next sequence on
      by_contra hp
      have hlt := hc.valid.published_lt _ (Bool.not_eq_false _ ▸ hp)
      have hclaim := hc.claim
      omega
    | inr scan =>
      rw [hs] at h
      cases h
      rfl
  | scan op scan =>
    rw [hat] at h hpc
    obtain ⟨-, q, hq, hscan, hpub⟩ := hpc
    simp only at h ⊢
    cases hs : scan.step sh with
    | inl highest =>
      rw [hs] at h
      cases h
      obtain ⟨m, rfl, hm, hend⟩ := (Scan.step_spec hc.bits hscan).1 highest hs
      refine run_observeScan hn op (fun t h1 h2 => hc.published_scan hpub hm t h1 (by omega)) fun hlt => ?_
      -- the scan has not passed the next sequence, so it has just found it unpublished
      obtain ⟨rfl, rfl⟩ : m = 0 ∧ q = R.released := by omega
      have hnot := hend.resolve_right fun h => absurd h.1 (lt_irrefl 0)
      by_contra hp
      exact hnot ((hc.parity _ le_rfl (Nat.lt_add_of_pos_right hc.bits.pos)).2 (Bool.not_eq_false _ ▸ hp))
    | inr scan' =>
      rw [hs] at h
      cases h
      rfl
  | batchDisconnected op =>
    rw [hat] at h
    cases op with
    | recvBatch len =>
      simp only at h
      split_ifs at h <;> cases h <;> rfl
    | _ => cases h; rfl
  | batchRead op count i =>
    rw [hat] at h hpc
    obtain ⟨hlen, hi, -⟩ := hpc
    simp only at h ⊢
    by_cases hlt : i < count
    · rw [if_pos hlt] at h ⊢
      cases h
      rfl
    · rw [if_neg hlt] at h ⊢
      cases h
      refine run_pop hc.valid ?_
      rw [hn, hlen]
      unfold asUsize
      omega
  | _ => rw [hat] at h; cases h

end Consumer

/-! ## The channel -/

/-- The invariant with the order of each producer's tickets. -/
structure Tidy (cap : ℕ) (s : State T) : Prop where
  inv : Inv cap s
  orderly : ∀ p, (s.producers p).Orderly s.ring p

variable {s s' : State T}

theorem Tidy.setProducer (h : Tidy cap s) {p : ℕ} {r : Shared T × Producer T × History T}
    (m : Producer.Moves cap s.ring p r) (hord : r.2.1.Orderly r.2.2 p) : Tidy cap (s.setProducer p r) := by
  refine ⟨h.inv.setProducer m, fun q => ?_⟩
  show (Function.update s.producers p r.2.1 q).Orderly r.2.2 q
  by_cases hq : q = p
  · subst hq
    rw [Function.update_self]
    exact hord
  · rw [Function.update_of_ne hq]
    exact (h.orderly q).rely m.step fun he => hq (Option.some.inj he).symm

/-- An action is a move of one producer, or of the consumer, which leaves the producers alone. -/
inductive State.Moved (cap : ℕ) (s s' : State T) : List (TicketEvent ℕ (Option T)) → Prop
  | producer (p : ℕ) {r : Shared T × Producer T × History T} {es : List (TicketEvent ℕ (Option T))}
      (m : Producer.Moves cap s.ring p r) (hshows : Producer.Shows cap s.ring p (s.producers p) r es)
      (hloaded : ∀ current ∈ r.2.1.loaded, current < r.2.2.claims) (heq : s' = s.setProducer p r) :
      Moved cap s s' es
  | consumer {es : List (TicketEvent ℕ (Option T))} (hinv : Inv cap s')
      (hstep : SeqRing.Step cap none s.ring s'.ring) (hproducers : s'.producers = s.producers)
      (hrun : (ticketQueue ℕ (Option T) cap).run s.ring.tickets es = some s'.ring.tickets) : Moved cap s s' es

theorem Tidy.moved (h : Tidy cap s) {a : Action T} (hs : s.next a = some s') : s.Moved cap s' (s.observe a) := by
  have hcoupled := h.inv.coupled
  cases a with
  | call p call =>
    obtain ⟨r, hr, rfl⟩ := Option.map_eq_some_iff.1 hs
    have hp := h.inv.producers p
    refine .producer p (Producer.call_moves hcoupled hp hr) (Producer.call_shows hp hr) (fun current hcur => ?_) rfl
    rw [Producer.loaded_call hr] at hcur
    cases hcur
  | step p =>
    obtain ⟨r, hr, rfl⟩ := Option.map_eq_some_iff.1 hs
    have hp := h.inv.producers p
    have m := Producer.step_moves hcoupled hp hr
    refine .producer p m (Producer.step_shows hcoupled hp (h.orderly p) hr) (fun current hcur => ?_) rfl
    have hmono := m.step.claims_mono
    have hclaim := hcoupled.claim
    rcases Producer.loaded_step hr current hcur with hold | rfl
    · have := (h.orderly p).loaded current hold
      omega
    · omega
  | clone p q =>
    simp only [State.next] at hs
    split at hs
    · cases hs
      have hflags := hcoupled.flags (s.shared.producerCount + 1) (s.shared.strongCount + 1) s.shared.closed
      have m : Producer.Moves cap s.ring q (_, .idle, s.ring) := .stay hflags trivial
      exact .producer q m (.ends rfl) (fun current hcur => by cases hcur) rfl
    · cases hs
  | consumerCall call =>
    obtain ⟨r, hr, rfl⟩ := Option.map_eq_some_iff.1 hs
    have m := Consumer.call_moves hcoupled h.inv.consumer hr
    exact .consumer (h.inv.setConsumer m) m.step rfl rfl
  | consumerStep =>
    obtain ⟨r, hr, rfl⟩ := Option.map_eq_some_iff.1 hs
    have m := Consumer.step_moves hcoupled h.inv.consumer hr
    exact .consumer (h.inv.setConsumer m) m.step rfl (Consumer.step_run hcoupled h.inv.consumer hr)

/-- An action keeps the order, and does to the tickets what it shows. -/
theorem Tidy.next (h : Tidy cap s) {a : Action T} (hs : s.next a = some s') :
    Tidy cap s' ∧ (ticketQueue ℕ (Option T) cap).run s.ring.tickets (s.observe a) = some s'.ring.tickets := by
  cases h.moved hs with
  | producer p m hshows hloaded heq =>
    subst heq
    exact ⟨h.setProducer m ⟨hshows.inOrder h.inv.coupled.valid (h.orderly p).first, hloaded⟩,
      hshows.run (h.orderly p)⟩
  | consumer hinv hstep hproducers hrun =>
    refine ⟨⟨hinv, fun q => ?_⟩, hrun⟩
    rw [hproducers]
    exact (h.orderly q).rely hstep (Option.some_ne_none q).symm

theorem tidy_initial (hcap : 64 ≤ cap) {factory : Option T} {sh : Shared T}
    (h : createShared cap factory = some sh) : Tidy cap (State.initial sh) := by
  refine ⟨inv_initial hcap h, fun p => ?_⟩
  show (Function.update (fun _ => Producer.absent) 0 Producer.idle p).Orderly _ p
  by_cases hp : p = 0
  · subst hp
    rw [Function.update_self]
    exact ⟨fun a ha => (by cases ha), fun current hcur => (by cases hcur)⟩
  · rw [Function.update_of_ne hp]
    exact ⟨fun a ha => (by cases ha), fun current hcur => (by cases hcur)⟩

theorem tidy_of_reachable (hcap : 64 ≤ cap) (hs : (system T cap).Reachable s) : Tidy cap s := by
  refine System.Reachable.invariant ?_ (fun s a s' h hst => (h.next hst).1) hs
  rintro s ⟨factory, sh, h, rfl⟩
  exact tidy_initial hcap h

theorem refines_ticketQueue (T : Type) (hcap : 64 ≤ cap) :
    (system T cap).Refines (ticketQueue ℕ (Option T) cap) State.observe fun s => s.ring.tickets where
  init := by
    rintro s ⟨factory, sh, -, rfl⟩
    rfl
  step s a s' hreach hs := ((tidy_of_reachable hcap hreach).next hs).2

/-- The channel is a ticket queue: what any interleaving of the producers and the consumer shows, refusals included,
is a run of the ticket queue between the two cursors.  So the events received are those on the first tickets, and of
each producer the first that it published, in its order. -/
theorem run_ticketQueue (hcap : 64 ≤ cap) {factory : Option T} {sh : Shared T}
    (hsh : createShared cap factory = some sh) {as : List (Action T)}
    (hrun : (system T cap).run (State.initial sh) as = some s) :
    let es := (system T cap).events State.observe (State.initial sh) as
    ∃ q, (ticketQueue ℕ (Option T) cap).run (TicketQueue.start ℕ (Option T)) es = some q ∧
      s.shared.claimCursor = q.reserved - 1 ∧ s.shared.consumerCursor = q.popped - 1 ∧
      (es.flatMap TicketEvent.pops).map some = (List.range q.popped).map q.placed ∧
      (∀ p, ((List.range q.popped).filter fun t => decide (q.owner t = some p)).map q.placed <+:
        (es.flatMap (TicketEvent.placedBy p)).map some) ∧
      ∀ t, (q.placed t).isSome = true → t < q.reserved ∧ t < q.popped + cap := by
  have hinit : (system T cap).Reachable (State.initial sh) := .init ⟨factory, sh, hsh, rfl⟩
  have hq := (refines_ticketQueue T hcap).run hinit hrun
  have hhistory := TicketQueue.history_of_run hq
  have hcoupled := (tidy_of_reachable hcap (hinit.run hrun)).inv.coupled
  exact ⟨s.ring.tickets, hq, hcoupled.claim, hcoupled.consumer, hhistory.pops, hhistory.popped_prefix,
    fun t ht => ⟨hhistory.reserved t ht, hhistory.room t ht⟩⟩

/-- Producer `0` claims the first sequence, producer `1` sends `w`, and `try_recv` finds nothing until producer `0`
has sent `v`. -/
def overtaken (v w : T) : List (Action T) :=
  List.flatten
    [[.clone 0 1, .call 0 (.send v), .step 0, .step 0, .call 1 (.send w)], List.replicate 5 (.step 1),
      [.consumerCall (.single .tryRecv), .consumerStep, .consumerStep], List.replicate 3 (.step 0),
      .consumerCall (.single .tryRecv) :: List.replicate 3 .consumerStep,
      .consumerCall (.single .tryRecv) :: List.replicate 3 .consumerStep]

theorem run_ticketQueue_overtaken : ∃ sh s, createShared 64 (none : Option ℕ) = some sh ∧
    (system ℕ 64).run (State.initial sh) (overtaken 7 8) = some s ∧
    (system ℕ 64).events State.observe (State.initial sh) (overtaken 7 8) =
      [.reserve 0 1, .reserve 1 1, .place 1 1 [some 8], .empty, .place 0 0 [some 7], .pop [some 7], .pop [some 8]] ∧
    ∃ q, (ticketQueue ℕ (Option ℕ) 64).run (TicketQueue.start ℕ (Option ℕ))
      ((system ℕ 64).events State.observe (State.initial sh) (overtaken 7 8)) = some q ∧
      s.shared.consumerCursor = q.popped - 1 := by
  have hall : (createShared 64 (none : Option ℕ)).map (fun sh =>
      (((system ℕ 64).run (State.initial sh) (overtaken 7 8)).isSome,
        (system ℕ 64).events State.observe (State.initial sh) (overtaken 7 8))) =
      some (true, [.reserve 0 1, .reserve 1 1, .place 1 1 [some 8], .empty, .place 0 0 [some 7], .pop [some 7],
        .pop [some 8]]) := by decide +kernel
  obtain ⟨sh, hsh, hpair⟩ := Option.map_eq_some_iff.1 hall
  obtain ⟨hsome, hevents⟩ := Prod.mk.inj hpair
  obtain ⟨s, hrun⟩ := Option.isSome_iff_exists.1 hsome
  obtain ⟨q, hq, -, hpopped, -⟩ := run_ticketQueue (by decide) hsh hrun
  exact ⟨sh, s, hsh, hrun, hevents, q, hq, hpopped⟩

end Land.Mpsc
