import Land.Spsc.Delivery

/-!
# Slots handed out for writing in place

`claim`, `try_claim` and the batches hand out references to whatever is in the slots.  A channel made with
a factory starts with a value in every slot, `poll` leaves it there, and the other receives move it out.
The record `moved` of what was moved out tells what a slot handed out on a later lap holds: it is live as
long as the event one lap before was only looked at, and moved out otherwise.
-/

namespace Land.Spsc

open Channel

variable {T : Type} {cap : ℕ} {w : WaitStrategy}

/-- The operations that hand out slots. -/
def SendOp.handsOut : SendOp T → Bool
  | send _ => false
  | trySend _ => false
  | _ => true

/-- The sequence whose event an action moves out of its slot. -/
def State.movesOut (s : State T) : Action T → Option ℕ
  | .consumerStep =>
      match s.consumer.pc with
      | .take .poll _ _ => none
      | .take _ count i => if i < count then some (asUsize (s.consumer.nextSequence + i)) else none
      | _ => none
  | _ => none

/-- The producer has a reference to the slot of sequence `q`. -/
def State.HandedOut (s : State T) (q : ℕ) : Prop :=
  match s.producer.pc with
  | .idle => s.producer.claimed = true ∧ s.producer.nextSequence = q
  | .holding start count => start ≤ q ∧ (q : ℤ) < start + count
  | _ => False

/-- A channel with the record of what was moved out. -/
structure Recorded (T : Type) where
  state : State T
  moved : ℕ → Bool

/-- One action; the channel does not look at the record. -/
def Recorded.next (r : Recorded T) (a : Action T) : Option (Recorded T) :=
  (r.state.next a).map fun s =>
    match r.state.movesOut a with
    | some n => ⟨s, Function.update r.moved n true⟩
    | none => ⟨s, r.moved⟩

/-- A channel made with `channel_with_factory`, and its record. -/
def recorded (T : Type) (cap : ℕ) (w : WaitStrategy) : System (Recorded T) (Action T) where
  init := fun r => ∃ v b, RingBuffer.new cap (some v) = some b ∧
    r = ⟨State.initial b cap w, fun _ => false⟩
  step := Recorded.next

/-- Slots are handed out, and the event one lap before in one of them was moved out. -/
def Recorded.reusesMoved (r : Recorded T) : Action T → Bool
  | .producerStep =>
      match r.state.producer.pc with
      | .fill op => op.handsOut && (List.range op.count).any fun i =>
          let q := asUsize r.state.producer.nextSequence + i
          let capacity := asUsize r.state.producer.capacity
          decide (capacity ≤ q) && r.moved (q - capacity)
      | _ => false
  | _ => false

/-! ## Cells -/

/-- The cells of a buffer whose first `L` events are taken and whose first `F` sequences are filled or
handed out: an event moved out is gone until its cell is filled again. -/
structure Gone (cap : ℕ) (b : RingBuffer T) (moved : ℕ → Bool) (L F : ℕ) : Prop where
  moved_lt : ∀ n, moved n = true → n < L
  gone : ∀ n, F ≤ n + cap → moved n = true → ¬ b.LiveAt (n % cap)

/-- Every other cell holds a value: those filled and not taken, those whose event was only looked at, and
those of the first lap. -/
structure Kept (cap : ℕ) (b : RingBuffer T) (moved : ℕ → Bool) (L F : ℕ) : Prop where
  filled : ∀ n, L ≤ n → n < F → b.LiveAt (n % cap)
  kept : ∀ n, n < L → F ≤ n + cap → moved n = false → b.LiveAt (n % cap)
  fresh : ∀ n, F ≤ n → n < cap → b.LiveAt (n % cap)

section Cells

variable {b : RingBuffer T} {moved : ℕ → Bool} {L F : ℕ}

/-- A write into a filled cell, or into the next one. -/
theorem Gone.write (h : Gone cap b moved L F) (hb : b.WellFormed cap) {q F' : ℕ} (v : T) (hq : L ≤ q)
    (hF : F ≤ F') (hF' : q < F') : Gone cap (b.write q v) moved L F' := by
  refine ⟨h.moved_lt, fun n hn hm => ?_⟩
  have hlt := h.moved_lt n hm
  rw [RingBuffer.liveAt_write_of_ne]
  · exact h.gone n (hF.trans hn) hm
  · rw [hb.index_eq, asUsize_natCast]
    intro hmod
    -- `n < q < n + cap`
    have heq := SeqRing.eq_of_mod_eq (a := n) le_rfl (by omega) (by omega) (by omega) hmod
    omega

theorem Kept.write (h : Kept cap b moved L F) (hb : b.WellFormed cap) {q F' : ℕ} (v : T)
    (hF : F' = F ∨ F' = F + 1 ∧ q = F) : Kept cap (b.write q v) moved L F' := by
  refine ⟨fun n h1 h2 => ?_, fun n h1 h2 h3 => ?_, fun n h1 h2 => ?_⟩
  · rcases Nat.lt_or_ge n F with hlt | hge
    · exact (h.filled n h1 hlt).write q v
    · obtain rfl : n = q := by omega
      have hlive := b.liveAt_write n v
      rwa [hb.index_eq, asUsize_natCast] at hlive
  · exact (h.kept n h1 (by omega) h3).write q v
  · exact (h.fresh n (by omega) h2).write q v

/-- The next `k` cells are handed out as they are. -/
theorem Gone.handOut (h : Gone cap b moved L F) (k : ℕ) : Gone cap b moved L (F + k) :=
  ⟨h.moved_lt, fun n hn hm => h.gone n (by omega) hm⟩

theorem Kept.handOut (h : Kept cap b moved L F) {k : ℕ} (hroom : F + k ≤ L + cap)
    (hmoved : ∀ q, F ≤ q → q < F + k → cap ≤ q → moved (q - cap) = false) :
    Kept cap b moved L (F + k) := by
  refine ⟨fun n h1 h2 => ?_, fun n h1 h2 h3 => h.kept n h1 (by omega) h3,
    fun n h1 h2 => h.fresh n (by omega) h2⟩
  rcases Nat.lt_or_ge n F with hlt | hge
  · exact h.filled n h1 hlt
  rcases Nat.lt_or_ge n cap with hfirst | hlap
  · exact h.fresh n hge hfirst
  · have hlive := h.kept (n - cap) (by omega) (by omega) (hmoved n hge h2 hlap)
    rwa [show (n - cap) % cap = n % cap by rw [← Nat.add_mod_right, Nat.sub_add_cancel hlap]] at hlive

/-- The next event is looked at. -/
theorem Gone.look (h : Gone cap b moved L F) : Gone cap b moved (L + 1) F :=
  ⟨fun n hm => Nat.lt_succ_of_lt (h.moved_lt n hm), h.gone⟩

theorem Kept.look (h : Kept cap b moved L F) (hL : L < F) : Kept cap b moved (L + 1) F := by
  refine ⟨fun n h1 h2 => h.filled n (by omega) h2, fun n h1 h2 h3 => ?_, h.fresh⟩
  rcases Nat.lt_or_ge n L with hlt | hge
  · exact h.kept n hlt h2 h3
  · exact h.filled n hge (by omega)

/-- The next event is moved out. -/
theorem Gone.moveOut (h : Gone cap b moved L F) (hb : b.WellFormed cap) (hL : L < F) :
    Gone cap (b.read L).2 (Function.update moved L true) (L + 1) F := by
  have hindex : b.index L = L % cap := by rw [hb.index_eq, asUsize_natCast]
  refine ⟨fun n hm => ?_, fun n hn hm => ?_⟩
  · by_cases hn : n = L
    · omega
    · rw [Function.update_of_ne hn] at hm
      exact Nat.lt_succ_of_lt (h.moved_lt n hm)
  · by_cases hnL : n = L
    · subst hnL
      rw [← hindex]
      exact b.not_liveAt_read n
    · rw [Function.update_of_ne hnL] at hm
      have hlt := h.moved_lt n hm
      rw [RingBuffer.liveAt_read_of_ne]
      · exact h.gone n hn hm
      · rw [hindex]
        intro hmod
        have heq := SeqRing.eq_of_mod_eq (a := n) le_rfl (by omega) (by omega) (by omega) hmod
        omega

theorem Kept.moveOut (h : Kept cap b moved L F) (hb : b.WellFormed cap) (hL : L < F)
    (hroom : F ≤ L + cap) : Kept cap (b.read L).2 (Function.update moved L true) (L + 1) F := by
  have hother {n : ℕ} (hlive : b.LiveAt (n % cap)) (hne : n % cap ≠ L % cap) :
      (b.read L).2.LiveAt (n % cap) := by
    apply (RingBuffer.liveAt_read_of_ne _).2 hlive
    rwa [hb.index_eq, asUsize_natCast]
  refine ⟨fun n h1 h2 => ?_, fun n h1 h2 h3 => ?_, fun n h1 h2 => ?_⟩
  · apply hother (h.filled n (by omega) h2)
    intro hmod
    have heq := SeqRing.eq_of_mod_eq (a := L) (by omega) (by omega) le_rfl (by omega) hmod
    omega
  · have hne : n ≠ L := by
      rintro rfl
      rw [Function.update_self] at h3
      cases h3
    rw [Function.update_of_ne hne] at h3
    apply hother (h.kept n (by omega) h2 h3)
    intro hmod
    have heq := SeqRing.eq_of_mod_eq (a := n) le_rfl (by omega) (by omega) (by omega) hmod
    omega
  · apply hother (h.fresh n h1 h2)
    intro hmod
    have heq := SeqRing.eq_of_mod_eq (a := L) (by omega) (by omega) le_rfl (by omega) hmod
    omega

/-- The moves of the cells; `handsOut k` says that `k` of them may be handed out. -/
inductive CellStep (handsOut : ℕ → Prop) (b : RingBuffer T) (moved : ℕ → Bool) (L F : ℕ) :
    RingBuffer T → (ℕ → Bool) → ℕ → ℕ → Prop
  | stay : CellStep handsOut b moved L F b moved L F
  | write {q F' : ℕ} (v : T) (hq : L ≤ q) (hF' : q < F') (hF : F' = F ∨ F' = F + 1 ∧ q = F) :
      CellStep handsOut b moved L F (b.write q v) moved L F'
  | handOut {k : ℕ} (hk : handsOut k) : CellStep handsOut b moved L F b moved L (F + k)
  | look (hL : L < F) : CellStep handsOut b moved L F b moved (L + 1) F
  | moveOut (hL : L < F) :
      CellStep handsOut b moved L F (b.read L).2 (Function.update moved L true) (L + 1) F

variable {handsOut : ℕ → Prop} {b' : RingBuffer T} {moved' : ℕ → Bool} {L' F' : ℕ}

theorem Gone.next (h : Gone cap b moved L F) (hb : b.WellFormed cap)
    (hs : CellStep handsOut b moved L F b' moved' L' F') : Gone cap b' moved' L' F' := by
  cases hs with
  | stay => exact h
  | write v hq hF' hF => exact h.write hb v hq (by omega) hF'
  | handOut hk => exact h.handOut _
  | look hL => exact h.look
  | moveOut hL => exact h.moveOut hb hL

theorem Kept.next (h : Kept cap b moved L F) (hb : b.WellFormed cap) (hroom : F ≤ L + cap)
    (hroom' : F' ≤ L' + cap)
    (hmoved : ∀ k, handsOut k → ∀ q, F ≤ q → q < F + k → cap ≤ q → moved (q - cap) = false)
    (hs : CellStep handsOut b moved L F b' moved' L' F') : Kept cap b' moved' L' F' := by
  cases hs with
  | stay => exact h
  | write v hq hF' hF => exact h.write hb v hF
  | handOut hk => exact h.handOut hroom' (hmoved _ hk)
  | look hL => exact h.look hL
  | moveOut hL => exact h.moveOut hb hL hroom

end Cells

/-! ## The steps and the cells -/

/-- The number of sequences filled or handed out: those claimed, up to the ones about to be filled. -/
def Producer.filled (P : Producer T) (R : History T) : ℕ :=
  match P.pc with
  | .fill _ => asUsize P.nextSequence
  | _ => R.claims

section Steps

variable {sh : Shared T} {R : History T}

theorem Producer.step_filled {P : Producer T} {r : Shared T × Producer T × History T}
    (hok : P.Ok cap sh R) (h : P.step sh R = some r) :
    (r.1.buffer = sh.buffer ∧ r.2.1.filled r.2.2 = P.filled R ∧
      ∀ op, P.pc = .fill op → op.handsOut = false) ∨
    (∃ op, P.pc = .fill op ∧ op.handsOut = true ∧ r.1.buffer = sh.buffer ∧
      r.2.1.filled r.2.2 = P.filled R + op.count) ∨
    (∃ op v, P.pc = .fill op ∧ op.handsOut = false ∧
      r.1.buffer = sh.buffer.write (P.filled R : ℤ) v ∧ r.2.1.filled r.2.2 = P.filled R + 1) := by
  obtain ⟨cached, next, capacity, claimed, disconnected, pc⟩ := P
  obtain ⟨-, -, a, -, hpc⟩ := hok
  dsimp only at hpc
  cases pc with
  | absent => cases h
  | idle => cases h
  | holding start count => cases h
  | loadClosed op waiting =>
    have hpc (op' : SendOp T) : ProducerPc.loadClosed op waiting = .fill op' → op'.handsOut = false := by
      rintro ⟨⟩
    simp only [Producer.step] at h
    split_ifs at h <;> cases h <;> exact .inl ⟨rfl, rfl, hpc⟩
  | loadCount op waiting =>
    obtain ⟨rfl, -, hclaims⟩ := hpc
    have hpc (op' : SendOp T) : ProducerPc.loadCount op waiting = .fill op' → op'.handsOut = false := by
      rintro ⟨⟩
    simp only [Producer.step, Producer.connected] at h
    split_ifs at h <;> cases h
    · exact .inl ⟨rfl, rfl, hpc⟩
    · exact .inl ⟨rfl, hclaims.symm, hpc⟩
    · exact .inl ⟨rfl, rfl, hpc⟩
  | reload op =>
    obtain ⟨rfl, -, hclaims⟩ := hpc
    have hpc (op' : SendOp T) : ProducerPc.reload op = .fill op' → op'.handsOut = false := by
      rintro ⟨⟩
    simp only [Producer.step] at h
    split_ifs at h <;> cases h
    · exact .inl ⟨rfl, hclaims.symm, hpc⟩
    · exact .inl ⟨rfl, rfl, hpc⟩
    · exact .inl ⟨rfl, rfl, hpc⟩
  | fill op =>
    obtain ⟨rfl, -, hclaims, -⟩ := hpc
    cases op with
    | send v | trySend v =>
      cases h
      exact .inr (.inr ⟨_, v, rfl, rfl, rfl, hclaims⟩)
    | claim | tryClaim | claimBatch n | tryClaimBatch n =>
      cases h
      exact .inr (.inl ⟨_, rfl, rfl, rfl, hclaims⟩)
  | publish | dropping =>
    cases h
    refine .inl ⟨rfl, rfl, ?_⟩
    rintro op ⟨⟩

/-- A call writes at most into a slot that the producer has a reference to. -/
theorem Producer.call_filled {P : Producer T} {call : ProducerCall T}
    {r : Shared T × Producer T × History T} (hok : P.Ok cap sh R) (h : P.call sh R call = some r) :
    r.2.1.filled r.2.2 = P.filled R ∧ (r.1.buffer = sh.buffer ∨
      ∃ (q : ℕ) (v : T), R.published q = false ∧ q < P.filled R ∧
        r.1.buffer = sh.buffer.write q v) := by
  obtain ⟨cached, next, capacity, claimed, disconnected, pc⟩ := P
  obtain ⟨-, -, a, -, hpc⟩ := hok
  dsimp only at hpc
  cases pc with
  | idle =>
    cases call with
    | setClaimed v =>
      simp only [Producer.call] at h
      split_ifs at h with hcl
      cases h
      obtain ⟨rfl, hheld⟩ := hpc
      rw [if_pos hcl] at hheld
      refine ⟨rfl, .inr ⟨a, v, hheld.2.claimed.2, ?_, rfl⟩⟩
      show a < R.claims
      omega
    | start op | publish =>
      simp only [Producer.call] at h
      split_ifs at h
      cases h
      exact ⟨rfl, .inl rfl⟩
    | setSlot index v => cases h
    | publishBatch => cases h
    | close | drop =>
      cases h
      exact ⟨rfl, .inl rfl⟩
  | holding start count =>
    obtain ⟨rfl, -, -, hclaims, hs⟩ := hpc
    cases call with
    | setSlot index v =>
      simp only [Producer.call] at h
      split_ifs at h with hindex
      cases h
      refine ⟨rfl, .inr ⟨a + index, v, (hs _ (by omega) (by omega)).claimed.2, ?_, ?_⟩⟩
      · show a + index < R.claims
        omega
      · rw [Nat.cast_add]
    | publishBatch =>
      cases h
      exact ⟨rfl, .inl rfl⟩
    | _ => cases h
  | _ => cases call <;> cases h

theorem Inv.filled_bounds {s : State T} (hi : Inv cap s) :
    s.ring.taken.length ≤ s.producer.filled s.ring ∧
      s.producer.filled s.ring ≤ s.ring.released + cap ∧
      ∀ n, s.ring.published n = true → n < s.producer.filled s.ring := by
  have hv := hi.coupled.valid
  obtain ⟨-, -, a, ha, hpc⟩ := hi.producer
  have hpublished (n : ℕ) : s.ring.published n = true ↔ n < a := by
    rw [hi.coupled.published n]
    omega
  have htaken : s.ring.taken.length ≤ a := by
    by_contra hlt
    have hlast := (hpublished _).1 (hv.taken_published a (by omega))
    omega
  have hroom : a ≤ s.ring.released + cap := by
    rcases Nat.eq_zero_or_pos a with rfl | hpos
    · exact Nat.zero_le _
    · have hlast := hv.published_room (a - 1) ((hpublished _).2 (by omega))
      omega
  -- every filled sequence is published or held
  have hbounds : a ≤ s.producer.filled s.ring ∧ s.producer.filled s.ring ≤ s.ring.released + cap := by
    unfold Producer.filled
    cases hp : s.producer.pc with
    | fill op =>
      rw [hp] at hpc
      show a ≤ asUsize s.producer.nextSequence ∧ asUsize s.producer.nextSequence ≤ _
      rw [hpc.1, asUsize_natCast]
      exact ⟨le_rfl, hroom⟩
    | publish =>
      rw [hp] at hpc
      obtain ⟨-, -, hclaims, hacq⟩ := hpc
      have hlast := hacq.room
      show a ≤ s.ring.claims ∧ s.ring.claims ≤ _
      exact ⟨by omega, by omega⟩
    | holding start count =>
      rw [hp] at hpc
      obtain ⟨-, -, -, hclaims, hacq⟩ := hpc
      show a ≤ s.ring.claims ∧ s.ring.claims ≤ _
      refine ⟨by omega, ?_⟩
      rcases Nat.eq_zero_or_pos count with rfl | hpos
      · omega
      · have hlast := (hacq (a + count - 1) (by omega) (by omega)).room
        omega
    | loadClosed op waiting | loadCount op waiting | reload op =>
      rw [hp] at hpc
      obtain ⟨-, -, hclaims⟩ := hpc
      show a ≤ s.ring.claims ∧ s.ring.claims ≤ _
      exact ⟨by omega, by omega⟩
    | idle | absent | dropping =>
      rw [hp] at hpc
      obtain ⟨-, hheld⟩ := hpc
      show a ≤ s.ring.claims ∧ s.ring.claims ≤ _
      split_ifs at hheld
      · have hlast := hheld.2.room
        exact ⟨by omega, by omega⟩
      · exact ⟨by omega, by omega⟩
  refine ⟨htaken.trans hbounds.1, hbounds.2, fun n hn => ?_⟩
  exact ((hpublished n).1 hn).trans_le hbounds.1

/-- The consumer leaves the cells alone, looks at the next event, or moves it out. -/
theorem State.consumerStep_cells {s s' : State T} (hok : s.consumer.Ok s.ring)
    (hs : s.next .consumerStep = some s') :
    s'.producer = s.producer ∧ s'.ring.claims = s.ring.claims ∧
      ((s'.shared.buffer = s.shared.buffer ∧ s'.ring.taken = s.ring.taken ∧
          s.movesOut .consumerStep = none) ∨
        s.ring.published s.ring.taken.length = true ∧
          s'.ring.taken.length = s.ring.taken.length + 1 ∧
          (s'.shared.buffer = s.shared.buffer ∧ s.movesOut .consumerStep = none ∨
            s'.shared.buffer = (s.shared.buffer.read (s.ring.taken.length : ℤ)).2 ∧
              s.movesOut .consumerStep = some s.ring.taken.length)) := by
  obtain ⟨sh, P, ⟨n, w, cached, pc⟩, R⟩ := s
  obtain ⟨hn, hpc⟩ := hok
  dsimp only at hn hpc
  simp only [State.next, Option.map_eq_some_iff] at hs
  obtain ⟨r, h, rfl⟩ := hs
  cases pc with
  | absent => cases h
  | idle => cases h
  | check op =>
    simp only [Consumer.step] at h
    split_ifs at h
    · cases h
      exact ⟨rfl, rfl, .inl ⟨rfl, rfl, rfl⟩⟩
    · cases op <;> cases h <;> exact ⟨rfl, rfl, .inl ⟨rfl, rfl, rfl⟩⟩
  | loadClosed op =>
    simp only [Consumer.step] at h
    split_ifs at h <;> cases h <;> exact ⟨rfl, rfl, .inl ⟨rfl, rfl, rfl⟩⟩
  | loadCount op | finalCheck op =>
    simp only [Consumer.step] at h
    split_ifs at h <;> cases h <;> exact ⟨rfl, rfl, .inl ⟨rfl, rfl, rfl⟩⟩
  | waitFor op l =>
    simp only [Consumer.step] at h
    split at h <;> cases h <;> exact ⟨rfl, rfl, .inl ⟨rfl, rfl, rfl⟩⟩
  | dropping =>
    cases h
    exact ⟨rfl, rfl, .inl ⟨rfl, rfl, rfl⟩⟩
  | take op count i =>
    obtain ⟨hlen, hi, hpub⟩ := hpc
    simp only [Consumer.step] at h
    split_ifs at h with hlt <;> cases h
    · have hnext : n + (i : ℤ) = (R.taken.length : ℤ) := by rw [hn, hlen, Nat.cast_add]
      have hpub' : R.published R.taken.length = true := by
        rw [hlen]
        exact hpub _ (by omega) (by omega)
      have htaken (v : Option T) : (R.taken ++ [v]).length = R.taken.length + 1 := by simp
      cases op with
      | poll => exact ⟨rfl, rfl, .inr ⟨hpub', htaken _, .inl ⟨rfl, rfl⟩⟩⟩
      | _ =>
        refine ⟨rfl, rfl, .inr ⟨hpub', htaken _, .inr ⟨?_, ?_⟩⟩⟩
        · exact congrArg (fun q => (sh.buffer.read q).2) hnext
        · simp only [State.movesOut, if_pos hlt, hnext, asUsize_natCast]
    · refine ⟨rfl, rfl, .inl ⟨rfl, rfl, ?_⟩⟩
      cases op with
      | poll => rfl
      | _ => exact if_neg hlt

theorem Consumer.call_buffer {c : Consumer} {call : ConsumerCall} {r : Shared T × Consumer}
    (h : c.call sh call = some r) : r.1.buffer = sh.buffer := by
  obtain ⟨n, w, cached, pc⟩ := c
  cases pc with
  | idle =>
    cases call with
    | start op =>
      simp only [Consumer.call] at h
      split at h <;> cases h <;> rfl
    | close | drop =>
      cases h
      rfl
  | _ => cases call <;> cases h

theorem Producer.filled_congr {P : Producer T} {R' : History T} (h : R'.claims = R.claims) :
    P.filled R' = P.filled R := by
  unfold Producer.filled
  split
  · rfl
  · exact h

end Steps

/-! ## Every run -/

/-- `Gone` for the cells of a channel. -/
def Recorded.Gone (cap : ℕ) (r : Recorded T) : Prop :=
  Spsc.Gone cap r.state.shared.buffer r.moved r.state.ring.taken.length
    (r.state.producer.filled r.state.ring)

/-- `Kept` for the cells of a channel. -/
def Recorded.Kept (cap : ℕ) (r : Recorded T) : Prop :=
  Spsc.Kept cap r.state.shared.buffer r.moved r.state.ring.taken.length
    (r.state.producer.filled r.state.ring)

/-- The action hands out `k` slots. -/
def Recorded.HandsOut (r : Recorded T) (a : Action T) (k : ℕ) : Prop :=
  a = .producerStep ∧ ∃ op, r.state.producer.pc = .fill op ∧ op.handsOut = true ∧ op.count = k

/-- Every action is one of the moves of the cells. -/
theorem Recorded.cellStep_of_next {r r' : Recorded T} {a : Action T} (hi : Inv cap r.state)
    (hs : r.next a = some r') :
    CellStep (r.HandsOut a) r.state.shared.buffer r.moved r.state.ring.taken.length
      (r.state.producer.filled r.state.ring) r'.state.shared.buffer r'.moved
      r'.state.ring.taken.length (r'.state.producer.filled r'.state.ring) := by
  obtain ⟨s, moved⟩ := r
  obtain ⟨s', hs', rfl⟩ := Option.map_eq_some_iff.1 hs
  dsimp only at hi hs'
  obtain ⟨htaken, hroom, hlt⟩ := hi.filled_bounds
  cases a with
  | producerCall call =>
    obtain ⟨x, hx, rfl⟩ := Option.map_eq_some_iff.1 hs'
    have hx' := (Producer.call_moves hi.coupled hi.producer hx).step.consumer_eq.1
    obtain ⟨hF, hbuf | ⟨q, v, hpub, hq, hbuf⟩⟩ := Producer.call_filled hi.producer hx
    · simp only [State.movesOut, State.setProducer, hF, hbuf, hx']
      exact .stay
    · simp only [State.movesOut, State.setProducer, hF, hbuf, hx']
      refine .write v ?_ hq (.inl rfl)
      by_contra hle
      rw [hi.coupled.valid.taken_published q (by omega)] at hpub
      cases hpub
  | producerStep =>
    obtain ⟨x, hx, rfl⟩ := Option.map_eq_some_iff.1 hs'
    have hx' := (Producer.step_moves hi.coupled hi.producer hx).step.consumer_eq.1
    obtain ⟨hbuf, hF, -⟩ | ⟨op, hop, hout, hbuf, hF⟩ | ⟨op, v, hop, hout, hbuf, hF⟩ :=
      Producer.step_filled hi.producer hx
    · simp only [State.movesOut, State.setProducer, hF, hbuf, hx']
      exact .stay
    · simp only [State.movesOut, State.setProducer, hF, hbuf, hx']
      exact .handOut ⟨rfl, op, hop, hout, rfl⟩
    · simp only [State.movesOut, State.setProducer, hF, hbuf, hx']
      exact .write v htaken (Nat.lt_succ_self _) (.inr ⟨rfl, rfl⟩)
  | consumerCall call =>
    obtain ⟨x, hx, rfl⟩ := Option.map_eq_some_iff.1 hs'
    simp only [State.movesOut, State.setConsumer, Consumer.call_buffer hx]
    exact .stay
  | consumerStep =>
    obtain ⟨hP, hclaims, hcells⟩ := State.consumerStep_cells hi.consumer hs'
    have hF : s'.producer.filled s'.ring = s.producer.filled s.ring := by
      rw [hP, Producer.filled_congr hclaims]
    obtain ⟨hbuf, htk, hmv⟩ | ⟨hpub, htk, ⟨hbuf, hmv⟩ | ⟨hbuf, hmv⟩⟩ := hcells
    · simp only [hmv, hF, hbuf, htk]
      exact .stay
    · simp only [hmv, hF, hbuf, htk]
      exact .look (hlt _ hpub)
    · simp only [hmv, hF, hbuf, htk]
      exact .moveOut (hlt _ hpub)

theorem Recorded.state_next {r r' : Recorded T} {a : Action T} (hs : r.next a = some r') :
    r.state.next a = some r'.state := by
  obtain ⟨s', hs', rfl⟩ := Option.map_eq_some_iff.1 hs
  rw [hs']
  cases r.state.movesOut a <;> rfl

/-- A slot handed out is filled and not taken. -/
theorem Inv.handedOut {s : State T} (hi : Inv cap s) {q : ℕ} (h : s.HandedOut q) :
    s.ring.taken.length ≤ q ∧ q < s.producer.filled s.ring := by
  have htaken (hq : s.ring.published q = false) : s.ring.taken.length ≤ q := by
    by_contra hlt
    rw [hi.coupled.valid.taken_published q (by omega)] at hq
    cases hq
  obtain ⟨-, -, a, -, hpc⟩ := hi.producer
  unfold State.HandedOut at h
  unfold Producer.filled
  cases hp : s.producer.pc with
  | idle =>
    rw [hp] at h hpc
    obtain ⟨hcl, hq⟩ := h
    obtain ⟨hnext, hheld⟩ := hpc
    rw [if_pos hcl] at hheld
    obtain rfl : q = a := by omega
    exact ⟨htaken hheld.2.claimed.2, hheld.1 ▸ Nat.lt_succ_self q⟩
  | holding start count =>
    rw [hp] at h hpc
    obtain ⟨rfl, -, -, hclaims, hacq⟩ := hpc
    dsimp only at h
    refine ⟨htaken (hacq q (by omega) (by omega)).claimed.2, ?_⟩
    show q < s.ring.claims
    omega
  | _ =>
    rw [hp] at h
    exact h.elim

/-- The slots handed out by a step. -/
theorem Recorded.handedOut_of_handsOut {r r' : Recorded T} {a : Action T} {k : ℕ}
    (hi : Inv cap r.state) (hs : r.next a = some r') (hk : r.HandsOut a k) {q : ℕ}
    (hq : r.state.producer.filled r.state.ring ≤ q)
    (hq' : q < r.state.producer.filled r.state.ring + k) :
    r'.state.HandedOut q ∧ r'.state.shared.buffer = r.state.shared.buffer := by
  obtain ⟨rfl, op, hop, hout, rfl⟩ := hk
  have hs' := state_next hs
  obtain ⟨s', moved'⟩ := r'
  obtain ⟨⟨sh, ⟨cached, next, capacity, claimed, disconnected, pc⟩, c, R⟩, moved⟩ := r
  dsimp only at hop hs' hi
  subst hop
  obtain ⟨-, -, n, -, hpc⟩ := hi.producer
  obtain ⟨rfl, -⟩ := hpc
  change n ≤ q at hq
  change q < n + op.count at hq'
  cases op with
  | send v => cases hout
  | trySend v => cases hout
  | claim | tryClaim =>
    cases hs'
    obtain rfl : q = n := by
      change q < n + 1 at hq'
      omega
    exact ⟨⟨rfl, rfl⟩, rfl⟩
  | claimBatch m | tryClaimBatch m =>
    cases hs'
    change q < n + m at hq'
    refine ⟨⟨Int.ofNat_le.2 hq, ?_⟩, rfl⟩
    show (q : ℤ) < (n : ℤ) + (m : ℤ)
    omega

theorem Recorded.reusesMoved_iff {r : Recorded T} (hi : Inv cap r.state) (a : Action T) :
    r.reusesMoved a = true ↔ ∃ k, r.HandsOut a k ∧
      ∃ q, r.state.producer.filled r.state.ring ≤ q ∧
        q < r.state.producer.filled r.state.ring + k ∧ cap ≤ q ∧ r.moved (q - cap) = true := by
  have hcap : asUsize r.state.producer.capacity = cap := by
    rw [hi.producer.capacity, asUsize_natCast]
  cases a with
  | producerStep =>
    cases hp : r.state.producer.pc with
    | fill op =>
      have hF : r.state.producer.filled r.state.ring = asUsize r.state.producer.nextSequence := by
        simp only [Producer.filled, hp]
      simp only [reusesMoved, hp, hcap, hF, HandsOut, Bool.and_eq_true, List.any_eq_true,
        List.mem_range, decide_eq_true_eq, true_and, ProducerPc.fill.injEq, exists_eq_left',
        and_assoc]
      constructor
      · rintro ⟨hout, i, hlt, hle, hm⟩
        exact ⟨_, hout, rfl, _, Nat.le_add_right _ _, Nat.add_lt_add_left hlt _, hle, hm⟩
      · rintro ⟨k, hout, rfl, q, hle, hlt, hcapq, hm⟩
        refine ⟨hout, q - asUsize r.state.producer.nextSequence, by omega, ?_⟩
        rw [Nat.add_sub_cancel' hle]
        exact ⟨hcapq, hm⟩
    | _ =>
      simp only [reusesMoved, hp, HandsOut, reduceCtorEq, false_and, and_false, exists_false,
        Bool.false_eq_true]
  | _ =>
    simp only [reusesMoved, HandsOut, reduceCtorEq, false_and, exists_false, Bool.false_eq_true]

theorem inv_of_recorded {r : Recorded T} (hr : (recorded T cap w).Reachable r) :
    Inv cap r.state ∧ r.Gone cap := by
  refine System.Reachable.invariant (I := fun r => Inv cap r.state ∧ r.Gone cap) ?_ ?_ hr
  · rintro r ⟨v, b, hb, rfl⟩
    refine ⟨inv_initial w hb, fun n hn => ?_, fun n _ hn => ?_⟩ <;> cases hn
  · rintro r a r' ⟨hi, hgone⟩ hs
    exact ⟨(hi.next (Recorded.state_next hs)).1,
      hgone.next hi.coupled.buffer (Recorded.cellStep_of_next hi hs)⟩

theorem kept_of_recorded {r : Recorded T}
    (hr : (recorded T cap w).ReachableVia (fun r a => r.reusesMoved a = false) r) :
    Inv cap r.state ∧ r.Kept cap := by
  refine System.ReachableVia.invariant (I := fun r => Inv cap r.state ∧ r.Kept cap) ?_ ?_ hr
  · rintro r ⟨v, b, hb, rfl⟩
    have hlive (j : ℕ) : b.LiveAt j := by
      unfold RingBuffer.new at hb
      split_ifs at hb
      cases hb
      exact ⟨v, rfl⟩
    exact ⟨inv_initial w hb, fun n _ _ => hlive _, fun n _ _ _ => hlive _, fun n _ _ => hlive _⟩
  · rintro r a r' hc ⟨hi, hkept⟩ hs
    have hi' := (hi.next (Recorded.state_next hs)).1
    have hroom {s : State T} (h : Inv cap s) :
        s.producer.filled s.ring ≤ s.ring.taken.length + cap :=
      h.filled_bounds.2.1.trans (Nat.add_le_add_right h.coupled.valid.released_le cap)
    refine ⟨hi', hkept.next hi.coupled.buffer (hroom hi) (hroom hi') ?_
      (Recorded.cellStep_of_next hi hs)⟩
    intro k hk q hq hq' hcap
    by_contra hm
    have hreuse := (Recorded.reusesMoved_iff hi a).2
      ⟨k, hk, q, hq, hq', hcap, Bool.eq_true_of_not_eq_false hm⟩
    rw [hc] at hreuse
    cases hreuse

/-- In a channel made with a factory the slots handed out hold values, in every run that hands out no slot
whose event one lap before was moved out; a step that does hands out a slot without a value. -/
theorem liveAt_of_handedOut (T : Type) (cap : ℕ) (w : WaitStrategy) :
    (∀ r, (recorded T cap w).ReachableVia (fun r a => r.reusesMoved a = false) r →
      ∀ q : ℕ, r.state.HandedOut q →
        r.state.shared.buffer.LiveAt (r.state.shared.buffer.index q)) ∧
    (∀ r a r', (recorded T cap w).Reachable r → (recorded T cap w).step r a = some r' →
      r.reusesMoved a = true →
        ∃ q : ℕ, r'.state.HandedOut q ∧
          ¬ r'.state.shared.buffer.LiveAt (r'.state.shared.buffer.index q)) := by
  constructor
  · intro r hr q hq
    obtain ⟨hi, hkept⟩ := kept_of_recorded hr
    obtain ⟨htaken, hfilled⟩ := hi.handedOut hq
    rw [hi.coupled.buffer.index_eq, asUsize_natCast]
    exact hkept.filled q htaken hfilled
  · intro r a r' hr hs hreuse
    obtain ⟨hi, hgone⟩ := inv_of_recorded hr
    obtain ⟨k, hk, q, hq, hq', hcap, hm⟩ := (Recorded.reusesMoved_iff hi a).1 hreuse
    obtain ⟨hout, hbuf⟩ := Recorded.handedOut_of_handsOut hi hs hk hq hq'
    refine ⟨q, hout, ?_⟩
    rw [hbuf, hi.coupled.buffer.index_eq, asUsize_natCast]
    have hdead := hgone.gone (q - cap) (by omega) hm
    rwa [show (q - cap) % cap = q % cap by rw [← Nat.add_mod_right, Nat.sub_add_cancel hcap]] at hdead

/-- An event claimed, published and received by `op`, and a claim of the same slot in a ring of one. -/
def claimAgain (op : RecvOp) : List (Action T) :=
  .producerCall (.start .claim) :: List.replicate 3 .producerStep ++
    .producerCall .publish ::
    .consumerCall (.start op) :: List.replicate 3 .consumerStep ++
    .producerCall (.start .claim) :: List.replicate 4 .producerStep

/-- After `poll` the slot is handed out with its value. -/
theorem liveAt_of_handedOut_poll : ∃ r : Recorded ℕ, r.state.HandedOut 1 ∧
    r.state.shared.buffer.LiveAt (r.state.shared.buffer.index (1 : ℕ)) := by
  obtain ⟨b, hb, r, hrun, hout⟩ : ∃ b, RingBuffer.new 1 (some (5 : ℕ)) = some b ∧
      ∃ r, (recorded ℕ 1 .busySpinWait).runVia (fun r a => !r.reusesMoved a)
        ⟨State.initial b 1 .busySpinWait, fun _ => false⟩ (claimAgain .poll) = some r ∧
        r.state.HandedOut 1 := ⟨_, rfl, _, rfl, rfl, rfl⟩
  have hr : (recorded ℕ 1 .busySpinWait).ReachableVia (fun r a => r.reusesMoved a = false) r :=
    System.ReachableVia.runVia (fun _ _ h => by simpa using h) (.init ⟨5, b, hb, rfl⟩) hrun
  exact ⟨r, hout, (liveAt_of_handedOut ℕ 1 .busySpinWait).1 r hr 1 hout⟩

/-- After `recv` it is handed out with its value moved out. -/
theorem not_liveAt_of_handedOut : ∃ b, RingBuffer.new 1 (some (5 : ℕ)) = some b ∧
    ∃ r, (recorded ℕ 1 .busySpinWait).run ⟨State.initial b 1 .busySpinWait, fun _ => false⟩
      (claimAgain .recv) = some r ∧ r.state.HandedOut 1 ∧
      r.state.shared.buffer.slots (r.state.shared.buffer.index 1) = .moved 5 :=
  ⟨_, rfl, _, rfl, ⟨rfl, rfl⟩, rfl⟩

end Land.Spsc
