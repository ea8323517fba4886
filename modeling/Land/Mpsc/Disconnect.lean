import Land.Mpsc.Delivery

/-!
# Disconnection of the MPSC channel

A channel that nobody closes explicitly is closed by the last `Drop` of a producer.  Until then no
producer gives up a claim, so once `closed` is set every claimed sequence is published
(`Accounted.not_claimed`), and one look at the next sequence tells whether anything is left.  `recv` takes
that look after it has seen the flag.  The other receiving operations took it before, and report a
disconnection with events left exactly if the last producer stores the flag while they are between the
two (`DropsUnseen`).
-/

namespace Land.Mpsc

open Channel

variable {T : Type} {cap : ℕ}

/-- `close` of a producer or of the consumer. -/
def Action.explicitClose : Action T → Bool
  | .call _ .close => true
  | .consumerCall .close => true
  | _ => false

/-- The handle is counted in `producer_count`. -/
def Producer.counted : Producer T → Bool
  | .absent => false
  | .closing => false
  | _ => true

/-- The thread is to publish sequence `n`. -/
def Producer.Owes (n : ℕ) : Producer T → Prop
  | .awaitSpace what endSequence => endSequence - what.count < n ∧ n ≤ endSequence
  | .recheck what endSequence => endSequence - what.count < n ∧ n ≤ endSequence
  | .fill what endSequence => endSequence - what.count < n ∧ n ≤ endSequence
  | .publish sequence => sequence = n
  | .holding start count => start ≤ n ∧ n < start + count
  | .flushing rest => ∃ f ∈ rest, f.first ≤ n ∧ n < f.first + f.len
  | _ => False

/-- The operation has found the next sequence unpublished, and will believe the flag. -/
def ConsumerPc.checked : ConsumerPc → Bool
  | .disconnected .recv => false
  | .disconnected _ => true
  | .batchDisconnected _ => true
  | _ => false

/-- The next step returns `RecvError` or `TryRecvError::Disconnected`. -/
def Consumer.reportsDisconnected (sh : Shared T) (c : Consumer) : Bool :=
  match c.pc with
  | .finalCheck => !sh.isPublished c.nextSequence
  | pc => pc.checked && sh.closed

/-- The last producer sets the flag under an operation that has missed an event. -/
def DropsUnseen (s : State T) (a : Action T) : Prop :=
  ∃ p, a = .step p ∧ s.producers p = .closing ∧ s.consumer.pc.checked = true ∧
    s.shared.isPublished s.consumer.nextSequence = true

/-! ## The steps and the flags -/

section Flags

variable {sh : Shared T} {R : History T} {p : ℕ}

/-- What a step of a producer does to the flag and the count. -/
theorem Producer.step_flags {pc : Producer T} {r : Shared T × Producer T × History T}
    (h : Producer.step sh R p pc = some r) :
    (pc = .closing ∧ r = ({ sh with closed := true, strongCount := sh.strongCount - 1 }, .absent, R)) ∨
    (pc = .dropping ∧ r.2.2 = R ∧ r.1.closed = sh.closed ∧
      r.1.producerCount = sh.producerCount - 1 ∧
      r.2.1 = if sh.producerCount = 1 then .closing else .absent) ∨
    (pc.counted = true ∧ r.2.1.counted = true ∧ r.1.closed = sh.closed ∧
      r.1.producerCount = sh.producerCount) := by
  cases pc with
  | absent => cases h
  | idle => cases h
  | holding start count => cases h
  | closing =>
    cases h
    exact .inl ⟨rfl, rfl⟩
  | dropping =>
    simp only [Producer.step] at h
    split_ifs at h with hone <;> cases h
    · exact .inr (.inl ⟨rfl, rfl, rfl, rfl, (if_pos hone).symm⟩)
    · exact .inr (.inl ⟨rfl, rfl, rfl, rfl, (if_neg hone).symm⟩)
  | fill what e => cases what <;> cases h <;> exact .inr (.inr ⟨rfl, rfl, rfl, rfl⟩)
  | flushing rest => cases rest <;> cases h <;> exact .inr (.inr ⟨rfl, rfl, rfl, rfl⟩)
  | claim what | tryLoad what attempt | publish sequence =>
    cases h
    exact .inr (.inr ⟨rfl, rfl, rfl, rfl⟩)
  | _ =>
    simp only [Producer.step] at h
    split_ifs at h <;> cases h <;> exact .inr (.inr ⟨rfl, rfl, rfl, rfl⟩)

theorem Producer.call_flags {pc : Producer T} {call : ProducerCall T}
    {r : Shared T × Producer T × History T} (h : Producer.call sh R p pc call = some r)
    (hclose : call ≠ .close) :
    pc.counted = true ∧ r.2.1.counted = true ∧ r.1.closed = sh.closed ∧
      r.1.producerCount = sh.producerCount := by
  unfold Producer.call at h
  split at h
  · cases h
    exact ⟨rfl, rfl, rfl, rfl⟩
  · cases h
    exact ⟨rfl, rfl, rfl, rfl⟩
  · split_ifs at h
    cases h
    exact ⟨rfl, rfl, rfl, rfl⟩
  · split_ifs at h
    cases h
    exact ⟨rfl, rfl, rfl, rfl⟩
  · exact absurd rfl hclose
  · cases h
    exact ⟨rfl, rfl, rfl, rfl⟩
  · split_ifs at h
    cases h
    exact ⟨rfl, rfl, rfl, rfl⟩
  · cases h
    exact ⟨rfl, rfl, rfl, rfl⟩
  · cases h

theorem Consumer.afterScan_pc (c : Consumer) (op : Batch) (highest : ℤ) :
    (c.afterScan op highest).pc ≠ .absent ∧ (c.afterScan op highest).pc ≠ .finalCheck ∧
      ((c.afterScan op highest).pc.checked = true → highest < c.nextSequence) := by
  unfold Consumer.afterScan
  split_ifs with hge
  · cases op <;> exact ⟨nofun, nofun, nofun⟩
  · cases op <;> exact ⟨nofun, nofun, fun _ => not_le.1 hge⟩

/-- The consumer changes neither the flag nor the count; it goes to its final check when it has seen the
flag. -/
theorem Consumer.step_flags {c : Consumer} {r : Shared T × Consumer × History T}
    (h : c.step sh R = some r) :
    c.pc ≠ .absent ∧ r.2.1.pc ≠ .absent ∧ r.1.closed = sh.closed ∧
      r.1.producerCount = sh.producerCount ∧ (r.2.1.pc = .finalCheck → sh.closed = true) := by
  obtain ⟨n, pc⟩ := c
  cases pc with
  | absent => cases h
  | idle => cases h
  | check op =>
    simp only [Consumer.step] at h
    split_ifs at h
    · cases op <;> cases h <;> refine ⟨?_, ?_, rfl, rfl, ?_⟩ <;> rintro ⟨⟩
    · cases h
      refine ⟨?_, ?_, rfl, rfl, ?_⟩ <;> rintro ⟨⟩
  | disconnected op =>
    cases op with
    | recv =>
      simp only [Consumer.step] at h
      split_ifs at h with hclosed <;> cases h
      · refine ⟨?_, ?_, rfl, rfl, fun _ => hclosed⟩ <;> rintro ⟨⟩
      · refine ⟨?_, ?_, rfl, rfl, ?_⟩ <;> rintro ⟨⟩
    | tryRecv | peek =>
      cases h
      refine ⟨?_, ?_, rfl, rfl, ?_⟩ <;> rintro ⟨⟩
  | read | store =>
    cases h
    refine ⟨?_, ?_, rfl, rfl, ?_⟩ <;> rintro ⟨⟩
  | scanStart op | scan op _ =>
    simp only [Consumer.step] at h
    split at h <;> cases h
    · refine ⟨?_, (afterScan_pc _ op _).1, rfl, rfl, fun he => absurd he (afterScan_pc _ op _).2.1⟩
      rintro ⟨⟩
    · refine ⟨?_, ?_, rfl, rfl, ?_⟩ <;> rintro ⟨⟩
  | batchDisconnected op =>
    cases op with
    | recvBatch len =>
      simp only [Consumer.step] at h
      split_ifs at h <;> cases h <;> refine ⟨?_, ?_, rfl, rfl, ?_⟩ <;> rintro ⟨⟩
    | _ =>
      cases h
      refine ⟨?_, ?_, rfl, rfl, ?_⟩ <;> rintro ⟨⟩
  | finalCheck | batchRead op count i =>
    simp only [Consumer.step] at h
    split_ifs at h <;> cases h <;> refine ⟨?_, ?_, rfl, rfl, ?_⟩ <;> rintro ⟨⟩

/-- A call other than `close` and `drop` starts an operation. -/
theorem Consumer.call_flags {c : Consumer} {call : ConsumerCall} {r : Shared T × Consumer}
    (h : c.call sh call = some r) (hclose : call ≠ .close) :
    c.pc = .idle ∧ r.1.producerCount = sh.producerCount ∧ r.2.pc ≠ .finalCheck ∧
      r.2.pc.checked = false ∧ (r.2.pc = .absent ∨ r.1.closed = sh.closed) := by
  obtain ⟨n, pc⟩ := c
  cases pc with
  | idle =>
    cases call with
    | close => exact absurd rfl hclose
    | single op =>
      cases h
      refine ⟨rfl, rfl, ?_, rfl, .inr rfl⟩
      rintro ⟨⟩
    | batch op =>
      simp only [Consumer.call] at h
      split at h <;> cases h <;> refine ⟨rfl, rfl, ?_, rfl, .inr rfl⟩ <;> rintro ⟨⟩
    | drop =>
      cases h
      refine ⟨rfl, rfl, ?_, rfl, .inl rfl⟩
      rintro ⟨⟩
  | _ => cases call <;> cases h

end Flags

/-! ## Claims are not given up -/

section Owes

variable {sh : Shared T} {R : History T} {p : ℕ}

theorem Covers.exists_mem {words a b n : ℕ} {fs : List Flush} (h : Covers words a fs b) (ha : a ≤ n)
    (hb : n < b) : ∃ f ∈ fs, f.first ≤ n ∧ n < f.first + f.len := by
  induction fs generalizing a with
  | nil =>
    have hab : a = b := h
    omega
  | cons f fs ih =>
    obtain ⟨rfl, -, hrest⟩ := h
    rcases Nat.lt_or_ge n (f.first + f.len) with hlt | hge
    · exact ⟨f, List.mem_cons_self, ha, hlt⟩
    · obtain ⟨g, hg, hn⟩ := ih hrest hge
      exact ⟨g, List.mem_cons_of_mem _ hg, hn⟩

/-- The sequences of a new claim are the ones that the thread goes on with. -/
theorem Coupled.owes_claim (hc : Coupled cap sh R) {k n : ℕ} (h : (R.claim p k).Claimed p n) :
    sh.claimCursor + k - k < n ∧ (n : ℤ) ≤ sh.claimCursor + k ∨ R.Claimed p n := by
  rcases SeqRing.of_claimed_claim h with hnew | hold
  · rw [hc.claim]
    exact .inl ⟨by omega, by omega⟩
  · exact .inr hold

/-- A producer that does not see the channel closed owes all it has claimed after its step if it did
before. -/
theorem Producer.step_owes {pc : Producer T} {r : Shared T × Producer T × History T}
    (hc : Coupled cap sh R) (hopen : pc.counted = true → sh.isDisconnected = false)
    (howes : ∀ n, R.Claimed p n → pc.Owes n) (h : Producer.step sh R p pc = some r) (n : ℕ)
    (hn : r.2.2.Claimed p n) : r.2.1.Owes n := by
  cases pc with
  | absent => cases h
  | idle => cases h
  | holding start count => cases h
  | check blocking what =>
    simp only [Producer.step] at h
    split_ifs at h <;> cases h <;> exact (howes n hn).elim
  | claim what =>
    cases h
    exact (hc.owes_claim hn).resolve_right (howes n)
  | awaitSpace what e =>
    simp only [Producer.step] at h
    split_ifs at h <;> cases h <;> exact howes n hn
  | recheck what e =>
    simp only [Producer.step, hopen rfl] at h
    cases h
    exact howes n hn
  | tryLoad what attempt =>
    cases h
    exact (howes n hn).elim
  | trySpace what attempt current =>
    simp only [Producer.step] at h
    split_ifs at h <;> cases h <;> exact (howes n hn).elim
  | tryCas what attempt current =>
    simp only [Producer.step] at h
    split_ifs at h with hcur <;> cases h
    · subst hcur
      exact (hc.owes_claim hn).resolve_right (howes n)
    · exact (howes n hn).elim
    · exact (howes n hn).elim
  | fill what e =>
    have hrange := howes n
    cases what with
    | event v =>
      cases h
      obtain ⟨h1, h2⟩ := hrange hn
      simp only [Payload.count, Nat.cast_one] at h1
      show e = n
      omega
    | batch k =>
      cases h
      obtain ⟨h1, h2⟩ := hrange hn
      simp only [Payload.count] at h1
      exact ⟨show e - k + 1 ≤ n by omega, show (n : ℤ) < e - k + 1 + k by omega⟩
  | publish sequence =>
    cases h
    obtain ⟨hold, hout⟩ := SeqRing.of_claimed_publish hn
    obtain rfl : sequence = n := howes n hold
    rw [asUsize_natCast] at hout
    omega
  | flushing rest =>
    cases rest with
    | nil =>
      cases h
      obtain ⟨f, hf, -⟩ := howes n hn
      cases hf
    | cons f rest =>
      cases h
      obtain ⟨hold, hout⟩ := SeqRing.of_claimed_publish hn
      obtain ⟨g, hg, hin⟩ := howes n hold
      rcases List.mem_cons.1 hg with rfl | hg
      · exact absurd hin hout
      · exact ⟨g, hg, hin⟩
  | dropping =>
    simp only [Producer.step] at h
    split_ifs at h <;> cases h <;> exact (howes n hn).elim
  | closing =>
    cases h
    exact (howes n hn).elim

theorem Producer.call_owes {pc : Producer T} {call : ProducerCall T}
    {r : Shared T × Producer T × History T} (hp : pc.Ok cap R p)
    (howes : ∀ n, R.Claimed p n → pc.Owes n) (h : Producer.call sh R p pc call = some r) (n : ℕ)
    (hn : r.2.2.Claimed p n) : r.2.1.Owes n := by
  unfold Producer.call at h
  split at h
  · cases h
    exact (howes n hn).elim
  · cases h
    exact (howes n hn).elim
  · split_ifs at h
    cases h
    exact (howes n hn).elim
  · split_ifs at h
    cases h
    exact (howes n hn).elim
  · cases h
    exact (howes n hn).elim
  · cases h
    exact (howes n hn).elim
  · split_ifs at h
    cases h
    exact howes n hn
  · next start count =>
    cases h
    obtain ⟨a, rfl, -⟩ := hp
    obtain ⟨h1, h2⟩ := howes n hn
    exact (covers_batchFlushes sh a count).exists_mem (by omega) (by omega)
  · cases h

end Owes

/-! ## The handles -/

/-- `producer_count` counts the handles, the flag is set after the last of them or by the consumer's
`drop`, and what is claimed is owed as long as the consumer is there. -/
structure Accounted (s : State T) : Prop where
  count : ∃ F : Finset ℕ, (∀ p, p ∈ F ↔ (s.producers p).counted = true) ∧
    F.card = s.shared.producerCount
  closing : ∀ p, s.producers p = .closing → s.shared.producerCount = 0
  closed : s.shared.closed = true → s.shared.producerCount = 0 ∨ s.consumer.pc = .absent
  final : s.consumer.pc = .finalCheck → s.shared.closed = true
  owed : s.consumer.pc ≠ .absent → ∀ p n, s.ring.Claimed p n → (s.producers p).Owes n

namespace Accounted

variable {s : State T} {p : ℕ}

theorem producerCount_ne_zero (h : Accounted s) (hp : (s.producers p).counted = true) :
    s.shared.producerCount ≠ 0 := by
  obtain ⟨F, hF, hcard⟩ := h.count
  rw [← hcard]
  exact Finset.card_ne_zero_of_mem ((hF p).2 hp)

theorem not_closed (h : Accounted s) (hp : (s.producers p).counted = true)
    (hc : s.consumer.pc ≠ .absent) : s.shared.closed = false := by
  by_contra hclosed
  rcases h.closed (by simpa using hclosed) with hzero | habs
  · exact h.producerCount_ne_zero hp hzero
  · exact hc habs

theorem isDisconnected_eq_false (h : Accounted s) (hp : (s.producers p).counted = true)
    (hc : s.consumer.pc ≠ .absent) : s.shared.isDisconnected = false := by
  simp [Shared.isDisconnected, h.not_closed hp hc, h.producerCount_ne_zero hp]

/-- Once the flag is set, no claim is outstanding. -/
theorem not_claimed (h : Accounted s) (hclosed : s.shared.closed = true)
    (hc : s.consumer.pc ≠ .absent) (p n : ℕ) : ¬ s.ring.Claimed p n := by
  intro hn
  have howes := h.owed hc p n hn
  have hcounted : (s.producers p).counted = true := by
    cases hpc : s.producers p with
    | absent => rw [hpc] at howes; cases howes
    | closing => rw [hpc] at howes; cases howes
    | _ => rfl
  rw [h.not_closed hcounted hc] at hclosed
  cases hclosed

/-- A thread that keeps its handle moved. -/
theorem setProducer (h : Accounted s) {r : Shared T × Producer T × History T}
    (hp : (s.producers p).counted = true) (hp' : r.2.1.counted = true)
    (hclosed : r.1.closed = s.shared.closed)
    (hcount : r.1.producerCount = s.shared.producerCount)
    (howed : s.consumer.pc ≠ .absent → ∀ q n, r.2.2.Claimed q n →
      (Function.update s.producers p r.2.1 q).Owes n) : Accounted (s.setProducer p r) := by
  refine ⟨?_, ?_, ?_, ?_, howed⟩
  · obtain ⟨F, hF, hcard⟩ := h.count
    refine ⟨F, fun q => (hF q).trans ?_, hcard.trans hcount.symm⟩
    show (s.producers q).counted = true ↔ (Function.update s.producers p r.2.1 q).counted = true
    by_cases hq : q = p
    · subst hq
      rw [Function.update_self, hp, hp']
    · rw [Function.update_of_ne hq]
  · intro q hq
    have hq' : Function.update s.producers p r.2.1 q = .closing := hq
    show r.1.producerCount = 0
    rw [hcount]
    by_cases hqp : q = p
    · subst hqp
      rw [Function.update_self] at hq'
      rw [hq'] at hp'
      cases hp'
    · rw [Function.update_of_ne hqp] at hq'
      exact h.closing q hq'
  · intro hc
    show r.1.producerCount = 0 ∨ s.consumer.pc = .absent
    rw [hcount]
    exact h.closed (hclosed.symm.trans hc)
  · intro hf
    exact hclosed.trans (h.final hf)

theorem owed_update (h : Accounted s) {r : Shared T × Producer T × History T}
    (hothers : ∀ q n, q ≠ p → r.2.2.Claimed q n → s.ring.Claimed q n)
    (hown : ∀ n, r.2.2.Claimed p n → r.2.1.Owes n) (hc : s.consumer.pc ≠ .absent) (q n : ℕ)
    (hn : r.2.2.Claimed q n) : (Function.update s.producers p r.2.1 q).Owes n := by
  by_cases hq : q = p
  · subst hq
    rw [Function.update_self]
    exact hown n hn
  · rw [Function.update_of_ne hq]
    exact h.owed hc q n (hothers q n hq hn)

/-- A handle is uncounted; the last one is to set the flag. -/
theorem drop (h : Accounted s) {r : Shared T × Producer T × History T}
    (hp : s.producers p = .dropping) (hring : r.2.2 = s.ring)
    (hclosed : r.1.closed = s.shared.closed)
    (hcount : r.1.producerCount = s.shared.producerCount - 1)
    (hpc : r.2.1 = if s.shared.producerCount = 1 then .closing else .absent) :
    Accounted (s.setProducer p r) := by
  have hcounted : (s.producers p).counted = true := by rw [hp]; rfl
  have hpos := h.producerCount_ne_zero hcounted
  refine ⟨?_, ?_, ?_, ?_, ?_⟩
  · obtain ⟨F, hF, hcard⟩ := h.count
    refine ⟨F.erase p, fun q => ?_, ?_⟩
    · show q ∈ F.erase p ↔ (Function.update s.producers p r.2.1 q).counted = true
      by_cases hq : q = p
      · subst hq
        rw [Function.update_self, hpc]
        split_ifs <;> simp [Producer.counted]
      · rw [Function.update_of_ne hq, Finset.mem_erase, hF]
        exact and_iff_right hq
    · show (F.erase p).card = r.1.producerCount
      rw [Finset.card_erase_of_mem ((hF p).2 hcounted), hcard, hcount]
  · intro q hq
    have hq' : Function.update s.producers p r.2.1 q = .closing := hq
    show r.1.producerCount = 0
    by_cases hqp : q = p
    · subst hqp
      rw [Function.update_self, hpc] at hq'
      split_ifs at hq' with hone
      rw [hcount, hone]
    · rw [Function.update_of_ne hqp] at hq'
      exact absurd (h.closing q hq') hpos
  · intro hc
    refine .inr ?_
    exact (h.closed (hclosed.symm.trans hc)).resolve_left hpos
  · intro hf
    exact hclosed.trans (h.final hf)
  · intro hc q n hn
    apply h.owed_update (r := r) (fun q n _ hn => by rwa [hring] at hn) _ hc q n hn
    intro m hm
    rw [hring] at hm
    have howes := h.owed hc p m hm
    rw [hp] at howes
    cases howes

/-- The last producer sets the flag. -/
theorem close (h : Accounted s) (hp : s.producers p = .closing) (strong : ℕ) :
    Accounted (s.setProducer p
      ({ s.shared with closed := true, strongCount := strong }, .absent, s.ring)) := by
  have hzero := h.closing p hp
  refine ⟨?_, ?_, fun _ => .inl hzero, fun _ => rfl, ?_⟩
  · obtain ⟨F, hF, hcard⟩ := h.count
    refine ⟨F, fun q => (hF q).trans ?_, hcard⟩
    show (s.producers q).counted = true ↔ (Function.update s.producers p .absent q).counted = true
    by_cases hq : q = p
    · subst hq
      rw [Function.update_self, hp]
      rfl
    · rw [Function.update_of_ne hq]
  · exact fun _ _ => hzero
  · intro hc q n hn
    apply h.owed_update (fun _ _ _ hn => hn) _ hc q n hn
    intro m hm
    have howes := h.owed hc p m hm
    rw [hp] at howes
    cases howes

theorem clone (h : Accounted s) {q : ℕ} (hp : s.producers p = .idle) (hq : s.producers q = .absent)
    (strong : ℕ) :
    Accounted { s with
      shared := { s.shared with
        producerCount := s.shared.producerCount + 1
        strongCount := strong }
      producers := Function.update s.producers q .idle } := by
  have hcounted : (s.producers p).counted = true := by rw [hp]; rfl
  have hpos := h.producerCount_ne_zero hcounted
  refine ⟨?_, ?_, ?_, h.final, ?_⟩
  · obtain ⟨F, hF, hcard⟩ := h.count
    have hnew : q ∉ F := by
      rw [hF, hq]
      exact Bool.false_ne_true
    refine ⟨insert q F, fun t => ?_, ?_⟩
    · show t ∈ insert q F ↔ (Function.update s.producers q .idle t).counted = true
      by_cases ht : t = q
      · subst ht
        rw [Function.update_self]
        exact iff_of_true (Finset.mem_insert_self _ _) rfl
      · rw [Function.update_of_ne ht, Finset.mem_insert, hF]
        exact or_iff_right ht
    · show (insert q F).card = s.shared.producerCount + 1
      rw [Finset.card_insert_of_notMem hnew, hcard]
  · intro t ht
    have ht' : Function.update s.producers q .idle t = .closing := ht
    by_cases htq : t = q
    · subst htq
      rw [Function.update_self] at ht'
      cases ht'
    · rw [Function.update_of_ne htq] at ht'
      exact absurd (h.closing t ht') hpos
  · intro hc
    exact .inr ((h.closed hc).resolve_left hpos)
  · intro hc t n hn
    show (Function.update s.producers q .idle t).Owes n
    have howes := h.owed hc t n hn
    by_cases ht : t = q
    · subst ht
      rw [hq] at howes
      cases howes
    · rw [Function.update_of_ne ht]
      exact howes

/-- The consumer moved; if it is still there, the flag and the count are as they were. -/
theorem setConsumer (h : Accounted s) {r : Shared T × Consumer × History T}
    (hcount : r.1.producerCount = s.shared.producerCount)
    (hclosed : r.2.1.pc = .absent ∨ r.1.closed = s.shared.closed)
    (habs : s.consumer.pc ≠ .absent) (hfinal : r.2.1.pc = .finalCheck → r.1.closed = true)
    (hclaimed : ∀ p n, r.2.2.Claimed p n → s.ring.Claimed p n) :
    Accounted { s with shared := r.1, consumer := r.2.1, ring := r.2.2 } := by
  refine ⟨?_, ?_, ?_, hfinal, ?_⟩
  · rw [hcount]
    exact h.count
  · intro p hp
    exact hcount.trans (h.closing p hp)
  · intro hc
    rcases hclosed with hgone | hsame
    · exact .inr hgone
    · exact .inl (hcount.trans ((h.closed (hsame.symm.trans hc)).resolve_right habs))
  · exact fun _ p n hn => h.owed habs p n (hclaimed p n hn)

end Accounted

theorem Producer.Moves.of_claimed {R : History T} {p : ℕ} {r : Shared T × Producer T × History T}
    (m : Moves cap R p r) (q n : ℕ) (hq : q ≠ p) (hn : r.2.2.Claimed q n) : R.Claimed q n :=
  m.step.of_claimed (fun he => hq (Option.some.inj he).symm) hn

theorem Accounted.next {s s' : State T} {a : Action T} (h : Accounted s) (hi : Inv cap s)
    (ha : a.explicitClose = false) (hs : s.next a = some s') : Accounted s' := by
  cases a with
  | call p call =>
    simp only [State.next, Option.map_eq_some_iff] at hs
    obtain ⟨r, hr, rfl⟩ := hs
    have hclose : call ≠ .close := by
      rintro rfl
      cases ha
    obtain ⟨hp, hp', hclosed, hcount⟩ := Producer.call_flags hr hclose
    have hothers := (Producer.call_moves hi.coupled (hi.producers p) hr).of_claimed
    apply h.setProducer hp hp' hclosed hcount
    intro hc q n hn
    have hown := Producer.call_owes (hi.producers p) (h.owed hc p) hr
    exact h.owed_update hothers hown hc q n hn
  | step p =>
    simp only [State.next, Option.map_eq_some_iff] at hs
    obtain ⟨r, hr, rfl⟩ := hs
    have hothers := (Producer.step_moves hi.coupled (hi.producers p) hr).of_claimed
    rcases Producer.step_flags hr with ⟨hp, rfl⟩ | ⟨hp, hring, hclosed, hcount, hpc⟩ |
      ⟨hp, hp', hclosed, hcount⟩
    · exact h.close hp _
    · exact h.drop hp hring hclosed hcount hpc
    · apply h.setProducer hp hp' hclosed hcount
      intro hc q n hn
      have hown := Producer.step_owes hi.coupled (fun hp => h.isDisconnected_eq_false hp hc)
        (h.owed hc p) hr
      exact h.owed_update hothers hown hc q n hn
  | clone p q =>
    simp only [State.next] at hs
    split at hs
    · next hp hq =>
      cases hs
      exact h.clone hp hq _
    · cases hs
  | consumerCall call =>
    simp only [State.next, Option.map_eq_some_iff] at hs
    obtain ⟨r, hr, rfl⟩ := hs
    have hclose : call ≠ .close := by
      rintro rfl
      cases ha
    obtain ⟨hidle, hcount, hfinal, -, hclosed⟩ := Consumer.call_flags hr hclose
    have hpresent : s.consumer.pc ≠ .absent := by
      rw [hidle]
      rintro ⟨⟩
    exact h.setConsumer (r := (r.1, r.2, s.ring)) hcount hclosed hpresent
      (fun he => absurd he hfinal) fun _ _ hn => hn
  | consumerStep =>
    simp only [State.next, Option.map_eq_some_iff] at hs
    obtain ⟨r, hr, rfl⟩ := hs
    have m := Consumer.step_moves hi.coupled hi.consumer hr
    obtain ⟨habs, -, hclosed, hcount, hfinal⟩ := Consumer.step_flags hr
    have hclaimed (p n : ℕ) (hn : r.2.2.Claimed p n) : s.ring.Claimed p n :=
      m.step.of_claimed (Option.some_ne_none p).symm hn
    exact h.setConsumer hcount (.inr hclosed) habs (fun he => hclosed.trans (hfinal he)) hclaimed

theorem accounted_initial (sh : Shared T) (hcount : sh.producerCount = 1) (hclosed : sh.closed = false) :
    Accounted (State.initial sh) := by
  have hproducers (p : ℕ) : (State.initial sh).producers p = if p = 0 then .idle else .absent :=
    Function.update_apply (fun _ => Producer.absent) 0 .idle p
  refine ⟨⟨{0}, fun p => ?_, hcount.symm⟩, ?_, ?_, nofun, ?_⟩
  · rw [hproducers, Finset.mem_singleton]
    split_ifs with hp <;> simp [hp, Producer.counted]
  · intro p hp
    rw [hproducers] at hp
    split_ifs at hp
  · intro hc
    rw [show (State.initial sh).shared.closed = false from hclosed] at hc
    cases hc
  · rintro - p n ⟨hclaim, -⟩
    cases hclaim

theorem accounted_of_reachable (hcap : 64 ≤ cap) {C : State T → Action T → Prop} {s : State T}
    (hC : ∀ s a, C s a → a.explicitClose = false) (hs : (system T cap).ReachableVia C s) :
    Inv cap s ∧ Accounted s := by
  apply System.ReachableVia.invariant (I := fun s => Inv cap s ∧ Accounted s) _ _ hs
  · rintro s ⟨factory, sh, h, rfl⟩
    refine ⟨inv_initial hcap h, ?_⟩
    simp only [createShared, Option.map_eq_some_iff] at h
    obtain ⟨b, -, rfl⟩ := h
    exact accounted_initial _ rfl rfl
  · rintro s a s' c ⟨hi, h⟩ hst
    exact ⟨(hi.next hst).1, h.next hi (hC s a c) hst⟩

/-! ## What a report means -/

/-- An operation that goes on to the flag has just found the next sequence unpublished. -/
theorem Consumer.step_checked {sh : Shared T} {R : History T} {c : Consumer}
    {r : Shared T × Consumer × History T} (hc : Coupled cap sh R) (hok : c.Ok sh R)
    (h : c.step sh R = some r) (hch : r.2.1.pc.checked = true) :
    r.2.2 = R ∧ R.published R.released = false := by
  obtain ⟨n, pc⟩ := c
  obtain ⟨hn, hpc⟩ := hok
  dsimp only at hn hpc
  cases pc with
  | absent => cases h
  | idle => cases h
  | check op =>
    simp only [Consumer.step] at h
    split_ifs at h with hp
    · cases op <;> cases h <;> cases hch
    · cases h
      rw [hc.isPublished_next_iff hn, Bool.not_eq_true] at hp
      exact ⟨rfl, hp⟩
  | disconnected op =>
    cases op with
    | recv =>
      simp only [Consumer.step] at h
      split_ifs at h <;> cases h <;> cases hch
    | tryRecv | peek =>
      cases h
      cases hch
  | read | store =>
    cases h
    cases hch
  | scanStart op =>
    subst hn
    simp only [Consumer.step] at h
    cases hs : Scan.start sh (R.released : ℤ) with
    | inl highest =>
      rw [hs] at h
      cases h
      unfold Scan.start at hs
      split_ifs at hs with hclaim
      rw [hc.claim] at hclaim
      refine ⟨rfl, ?_⟩
      by_contra hp
      have hlt := hc.valid.published_lt R.released (by simpa using hp)
      omega
    | inr scan =>
      rw [hs] at h
      cases h
      cases hch
  | scan op scan =>
    obtain ⟨-, q, hq, hat, -⟩ := hpc
    simp only [Consumer.step] at h
    cases hs : scan.step sh with
    | inl highest =>
      rw [hs] at h
      cases h
      have hlt : highest < n := (Consumer.afterScan_pc _ op highest).2.2 hch
      obtain ⟨m, hm, -, hend⟩ := (Scan.step_spec hc.bits hat).1 highest hs
      obtain rfl : q = R.released := by omega
      obtain rfl : m = 0 := by omega
      have hnot : ¬ Parity.Published cap sh.bit R.released :=
        hend.elim id fun h => absurd h.1 (lt_irrefl 0)
      have hpos := hc.bits.pos
      rw [hc.parity _ le_rfl (by omega), Bool.not_eq_true] at hnot
      exact ⟨rfl, hnot⟩
    | inr scan' =>
      rw [hs] at h
      cases h
      cases hch
  | batchDisconnected op =>
    cases op with
    | recvBatch len =>
      simp only [Consumer.step] at h
      split_ifs at h <;> cases h <;> cases hch
    | _ =>
      cases h
      cases hch
  | finalCheck | batchRead op count i =>
    simp only [Consumer.step] at h
    split_ifs at h <;> cases h <;> cases hch

/-- Where a report is made, everything taken is released. -/
theorem Consumer.Ok.taken_eq {sh : Shared T} {R : History T} {c : Consumer} (hok : c.Ok sh R)
    (h : c.pc.checked = true ∨ c.pc = .finalCheck) : R.taken.length = R.released := by
  obtain ⟨n, pc⟩ := c
  obtain ⟨-, hpc⟩ := hok
  rcases h with h | rfl
  · cases pc with
    | disconnected op => exact hpc
    | batchDisconnected op => exact hpc
    | _ => cases h
  · exact hpc

theorem ConsumerPc.ne_absent_of_checked {pc : ConsumerPc} (h : pc.checked = true) : pc ≠ .absent := by
  rintro rfl
  cases h

/-- With the flag set, the channel is drained exactly if the next sequence is not published. -/
theorem Accounted.drained_iff {s : State T} (h : Accounted s) (hi : Inv cap s)
    (hclosed : s.shared.closed = true) (hc : s.consumer.pc ≠ .absent)
    (hlen : s.ring.taken.length = s.ring.released) :
    s.ring.Drained ↔ s.ring.published s.ring.released = false := by
  rw [← hlen]
  exact hi.coupled.valid.drained_iff (h.not_claimed hclosed hc)

/-- An operation that has found nothing and is about to see the flag has missed nothing. -/
def Seen (s : State T) : Prop :=
  s.consumer.pc.checked = true → s.shared.closed = true → s.ring.published s.ring.released = false

/-- A producer moved that was not the one to set the flag. -/
theorem Accounted.seen_setProducer {s : State T} {p : ℕ} {r : Shared T × Producer T × History T}
    (ha : Accounted s) (hp : (s.producers p).counted = true) (hclosed : r.1.closed = s.shared.closed) :
    Seen (s.setProducer p r) := by
  intro hch hc
  have hnot := ha.not_closed hp (ConsumerPc.ne_absent_of_checked hch)
  rw [show r.1.closed = true from hc, hnot] at hclosed
  cases hclosed

theorem Seen.next {s s' : State T} {a : Action T} (h : Seen s) (hi : Inv cap s) (ha : Accounted s)
    (hclose : a.explicitClose = false) (hd : ¬ DropsUnseen s a) (hs : s.next a = some s') :
    Seen s' := by
  cases a with
  | call p call =>
    simp only [State.next, Option.map_eq_some_iff] at hs
    obtain ⟨r, hr, rfl⟩ := hs
    have hne : call ≠ .close := by
      rintro rfl
      cases hclose
    obtain ⟨hp, -, hclosed, -⟩ := Producer.call_flags hr hne
    exact ha.seen_setProducer hp hclosed
  | step p =>
    simp only [State.next, Option.map_eq_some_iff] at hs
    obtain ⟨r, hr, rfl⟩ := hs
    rcases Producer.step_flags hr with ⟨hp, rfl⟩ | ⟨hp, -, hclosed, -, -⟩ | ⟨hp, -, hclosed, -⟩
    · -- the flag is set: the condition is on this step
      intro hch _
      show s.ring.published s.ring.released = false
      by_contra hpub
      have hnext := (hi.coupled.isPublished_next_iff hi.consumer.next).2 (by simpa using hpub)
      exact hd ⟨p, rfl, hp, hch, hnext⟩
    · exact ha.seen_setProducer (by rw [hp]; rfl) hclosed
    · exact ha.seen_setProducer hp hclosed
  | clone p q =>
    simp only [State.next] at hs
    split at hs
    · cases hs
      exact h
    · cases hs
  | consumerCall call =>
    simp only [State.next, Option.map_eq_some_iff] at hs
    obtain ⟨r, hr, rfl⟩ := hs
    have hne : call ≠ .close := by
      rintro rfl
      cases hclose
    obtain ⟨-, -, -, hch, -⟩ := Consumer.call_flags hr hne
    intro hch'
    exact absurd (hch.symm.trans hch') Bool.false_ne_true
  | consumerStep =>
    simp only [State.next, Option.map_eq_some_iff] at hs
    obtain ⟨r, hr, rfl⟩ := hs
    intro hch _
    obtain ⟨hring, hpub⟩ := Consumer.step_checked hi.coupled hi.consumer hr hch
    show r.2.2.published r.2.2.released = false
    rw [hring]
    exact hpub

/-- A report from the flag alone: it is right if the operation has seen everything. -/
theorem Accounted.drained {s : State T} (ha : Accounted s) (hi : Inv cap s)
    (hr : s.consumer.reportsDisconnected s.shared = true)
    (h : s.consumer.pc = .finalCheck ∨ Seen s) : s.ring.Drained := by
  by_cases hfinal : s.consumer.pc = .finalCheck
  · have hne : s.consumer.pc ≠ .absent := by rw [hfinal]; exact nofun
    apply (ha.drained_iff hi (ha.final hfinal) hne (hi.consumer.taken_eq (.inr hfinal))).2
    simp only [Consumer.reportsDisconnected, hfinal, Bool.not_eq_true'] at hr
    by_contra hpub
    rw [(hi.coupled.isPublished_next_iff hi.consumer.next).2 (by simpa using hpub)] at hr
    cases hr
  · have hboth : s.consumer.pc.checked = true ∧ s.shared.closed = true := by
      unfold Consumer.reportsDisconnected at hr
      split at hr
      · contradiction
      · simpa using hr
    have hne := ConsumerPc.ne_absent_of_checked hboth.1
    apply (ha.drained_iff hi hboth.2 hne (hi.consumer.taken_eq (.inl hboth.1))).2
    exact h.resolve_left hfinal hboth.1 hboth.2

theorem seen_of_reachable (hcap : 64 ≤ cap) {s : State T}
    (hs : (system T cap).ReachableVia (fun s a => a.explicitClose = false ∧ ¬ DropsUnseen s a) s) :
    Seen s := by
  induction hs with
  | init h =>
    obtain ⟨factory, sh, -, rfl⟩ := h
    exact nofun
  | step a hr c h ih =>
    obtain ⟨hi, ha⟩ := accounted_of_reachable hcap (fun _ _ c => c.1) hr
    exact ih.next hi ha c.1 c.2 h

/-- A step that sets the flag unseen leads to a report with an event left. -/
theorem reports_of_dropsUnseen {s s' : State T} {a : Action T} (hi : Inv cap s)
    (hs : s.next a = some s') (hd : DropsUnseen s a) :
    s'.consumer.reportsDisconnected s'.shared = true ∧ ¬ s'.ring.Drained := by
  obtain ⟨p, rfl, hp, hch, hpub⟩ := hd
  simp only [State.next, Option.map_eq_some_iff] at hs
  obtain ⟨r, hr, rfl⟩ := hs
  rw [hp] at hr
  cases hr
  constructor
  · show s.consumer.reportsDisconnected { s.shared with closed := true, strongCount := _ } = true
    unfold Consumer.reportsDisconnected
    split
    · next hfinal =>
      rw [hfinal] at hch
      cases hch
    · simp [hch]
  · intro hdrained
    have hlt := hdrained _ ((hi.coupled.isPublished_next_iff hi.consumer.next).1 hpub)
    have hlen : s.ring.taken.length = s.ring.released := hi.consumer.taken_eq (.inl hch)
    have hlt' : s.ring.released < s.ring.taken.length := hlt
    omega

end Land.Mpsc
