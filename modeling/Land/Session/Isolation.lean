import Land.Session.Concurrent

/-!
# Isolation of the session cache

A `get` returns only bytes that some `insert` was called with for the same peer, in every interleaving
in which the address of a slot and its token do not come apart under a reader or a writer (`Apart`).
The address of a slot is stored before its token, so a `get` that meets a slot in between, or that found
its address before and reads the token after, returns the token of another peer.

The invariant has three parts: what a thread relies on where it stands, which threads may stand at one
slot together, and what holds of a slot that no thread is filling.
-/

namespace Land.Session

open Land.Quic (Bytes)

/-- What a thread does with a slot: it reads the token, writes a token to a slot that had the address, or
writes a token to a slot it has put the address into. -/
inductive Use where
  | read
  | update
  | claim
  deriving DecidableEq

/-- The use of an `insert` that writes. -/
def Use.ofWrite (claimed : Bool) : Use := if claimed then .claim else .update

theorem Use.ofWrite_ne_read (claimed : Bool) : ofWrite claimed ≠ .read := by
  cases claimed <;> simp [ofWrite]

/-- The token has the bytes of an `insert` for the peer. -/
def Of (inserted : List (Peer × Bytes)) (a : Peer) (token : SessionToken) : Prop :=
  (a, token.asSlice) ∈ inserted

namespace Pc

/-- The slot that a thread has chosen, the peer it is for, and what it does with it. -/
def use : Pc → Option (Place × Peer × Use)
  | readVersion a i | readData a i _ | readCheck a i _ _ => some ((a.shard, i), a, .read)
  | write _ claimed a _ i => some ((a.shard, i), a, .ofWrite claimed)
  | _ => none

/-- What the values that a thread holds satisfy. -/
def Local (m : Memory) (inserted : List (Peer × Bytes)) : Pc → Prop
  | readData a i v1 => v1 ≤ m.seq (a.shard, i)
  | readCheck a i v1 value =>
      v1 ≤ m.seq (a.shard, i) ∧ (m.seq (a.shard, i) = v1 → Of inserted a value)
  | validate a token | returned a (some token) | insertLoad a token _ | claim a token _
  | evict a token | replace a token _ => Of inserted a token
  | write stage _ a token i =>
      Of inserted a token ∧ (m.seq (a.shard, i) % 2 = if stage = .enter then 0 else 1) ∧
        (stage = .leave → m.token (a.shard, i) = token)
  | _ => True

/-- What a thread relies on. -/
structure Ok (m : Memory) (inserted : List (Peer × Bytes)) (pc : Pc) : Prop where
  addr : ∀ p a u, pc.use = some (p, a, u) → m.addr p = a.packed ∨ m.addr p = 0
  read : ∀ p a, pc.use = some (p, a, .read) → Of inserted a (m.token p)
  loc : pc.Local m inserted

variable {m m' : Memory} {inserted inserted' : List (Peer × Bytes)} {pc : Pc}

/-- A thread that has chosen no slot relies on its own values only. -/
theorem Ok.of_use_eq_none (huse : pc.use = none) (h : pc.Local m inserted) : pc.Ok m inserted where
  addr p a u hu := by simp [huse] at hu
  read p a hu := by simp [huse] at hu
  loc := h

/-- What others may do: versions grow, the address of the slot is kept or cleared, its token is replaced
by one of the same peer under a reader and is kept under a writer. -/
theorem Ok.frame (h : pc.Ok m inserted) (hins : inserted ⊆ inserted') (hseq : ∀ p, m.seq p ≤ m'.seq p)
    (haddr : ∀ p a u, pc.use = some (p, a, u) → m'.addr p = m.addr p ∨ m'.addr p = 0)
    (hread : ∀ p a, pc.use = some (p, a, .read) → m'.token p = m.token p ∨ Of inserted' a (m'.token p))
    (hwrite : ∀ p a u, pc.use = some (p, a, u) → u ≠ .read →
      m'.seq p = m.seq p ∧ m'.token p = m.token p) : pc.Ok m' inserted' where
  addr p a u hu := by
    rcases haddr p a u hu with heq | hzero
    · exact heq ▸ h.addr p a u hu
    · exact .inr hzero
  read p a hu := by
    rcases hread p a hu with heq | hof
    · exact heq ▸ hins (h.read p a hu)
    · exact hof
  loc := by
    have hl := h.loc
    cases pc with
    | readData a i v1 => exact le_trans hl (hseq _)
    | readCheck a i v1 value =>
      refine ⟨le_trans hl.1 (hseq _), fun hv => hins (hl.2 ?_)⟩
      exact le_antisymm (hv ▸ hseq _) hl.1
    | write stage claimed a token i =>
      obtain ⟨hs, ht⟩ := hwrite _ a _ rfl (Use.ofWrite_ne_read claimed)
      rw [Local, hs, ht]
      exact ⟨hins hl.1, hl.2⟩
    | validate | insertLoad | claim | evict | replace => exact hins hl
    | returned a result =>
      cases result with
      | none => trivial
      | some token => exact hins hl
    | _ => trivial

end Pc

/-- Two threads at one slot are there for one peer; one of them reads, and the other has not put the
address there. -/
def Compatible (pc pc' : Pc) : Prop :=
  ∀ p a a' u u', pc.use = some (p, a, u) → pc'.use = some (p, a', u') →
    a = a' ∧ ((u = .read ∧ u' ≠ .claim) ∨ (u' = .read ∧ u ≠ .claim))

theorem Compatible.symm {pc pc' : Pc} (h : Compatible pc pc') : Compatible pc' pc := by
  intro p a a' u u' hu hu'
  obtain ⟨ha, hc⟩ := h p a' a u' u hu' hu
  exact ⟨ha.symm, hc.symm⟩

namespace State

variable {T : Type}

/-- A thread has chosen the slot for a use with the property. -/
def At (s : State T) (P : Use → Prop) (p : Place) : Prop :=
  ∃ t a u, (s.pc t).use = some (p, a, u) ∧ P u

/-- An `insert` writes the token of the slot. -/
def Writing (s : State T) (p : Place) : Prop := s.At (· ≠ .read) p

/-- An `insert` has put its address into the slot and has not finished the token. -/
def Claiming (s : State T) (p : Place) : Prop := s.At (· = .claim) p

/-- A `get` has found its address in the slot and reads the token. -/
def Reading (s : State T) (p : Place) : Prop := s.At (· = .read) p

section Decidable

variable [Fintype T]

instance (s : State T) (P : Use → Prop) [DecidablePred P] (p : Place) : Decidable (s.At P p) :=
  decidable_of_iff (∃ t, ∃ x ∈ (s.pc t).use, x.1 = p ∧ P x.2.2)
    ⟨fun ⟨t, ⟨_, a, u⟩, hu, hp, hP⟩ => ⟨t, a, u, hp ▸ hu, hP⟩,
      fun ⟨t, a, u, hu, hP⟩ => ⟨t, (p, a, u), hu, rfl, hP⟩⟩

instance (s : State T) (p : Place) : Decidable (s.Writing p) := inferInstanceAs (Decidable (At ..))

instance (s : State T) (p : Place) : Decidable (s.Claiming p) := inferInstanceAs (Decidable (At ..))

instance (s : State T) (p : Place) : Decidable (s.Reading p) := inferInstanceAs (Decidable (At ..))

end Decidable

structure Inv (s : State T) : Prop where
  ok : ∀ t, (s.pc t).Ok s.mem s.inserted
  compatible : ∀ t t', t ≠ t' → Compatible (s.pc t) (s.pc t')
  settled : ∀ p a, s.mem.addr p = a.packed → ¬ s.Claiming p → Of s.inserted a (s.mem.token p)
  even : ∀ p, ¬ s.Writing p → s.mem.seq p % 2 = 0
  unspoiled : ∀ p, s.mem.spoiled p = false

theorem inv_initial : (initial : State T).Inv where
  ok _ := .of_use_eq_none rfl trivial
  compatible _ _ _ p a a' u u' hu := by simp [initial, Pc.use] at hu
  settled p a h := absurd h.symm a.packed_ne_zero
  even _ _ := rfl
  unspoiled _ := rfl

theorem Inv.cons_inserted {s : State T} (h : s.Inv) (x : Peer × Bytes) :
    ({ s with inserted := x :: s.inserted } : State T).Inv where
  ok t := (h.ok t).frame (List.subset_cons_self x _) (fun _ => le_rfl) (fun _ _ _ _ => .inl rfl)
    (fun _ _ _ => .inl rfl) fun _ _ _ _ _ => ⟨rfl, rfl⟩
  compatible := h.compatible
  settled p a hp hc := List.mem_cons_of_mem x (h.settled p a hp hc)
  even := h.even
  unspoiled := h.unspoiled

/-- The condition on each step: an `insert` chooses a slot only while no other one writes its token, it
changes the address only while no `get` reads the token either, a `get` does not choose a slot whose
token is still to be written, and during one copy the version moves fewer than `2 ^ 64` times. -/
def Apart (s : State T) : Action T → Prop
  | .access t _ _ =>
      match s.pc t with
      | .getLoad a i => s.mem.addr (a.shard, i) = a.packed → ¬ s.Claiming (a.shard, i)
      | .readCheck a i v1 _ => s.mem.seq (a.shard, i) < v1 + 2 ^ 64
      | .insertLoad a _ i => s.mem.addr (a.shard, i) = a.packed → ¬ s.Writing (a.shard, i)
      | .claim a _ i =>
          s.mem.addr (a.shard, i) = 0 → ¬ s.Writing (a.shard, i) ∧ ¬ s.Reading (a.shard, i)
      | .replace a _ i => ¬ s.Writing (a.shard, i) ∧ ¬ s.Reading (a.shard, i)
      | _ => True
  | _ => True

/-! ## Threads at one slot -/

section Writer

variable {s : State T} {t : T} {p : Place} {a : Peer} {u : Use}

/-- The other threads at the slot of a writer are readers for the same peer. -/
theorem Inv.reader_of_writer (h : s.Inv) {u' : Use} (hu : (s.pc t).use = some (p, a, u))
    (hw : u ≠ .read) {t' : T} (ht : t' ≠ t) {b : Peer} (hu' : (s.pc t').use = some (p, b, u')) :
    b = a ∧ u' = .read := by
  obtain ⟨hab, ⟨hr, -⟩ | ⟨hr, -⟩⟩ := h.compatible t t' ht.symm p a b u u' hu hu'
  · exact absurd hr hw
  · exact ⟨hab.symm, hr⟩

/-- The address of a writer's slot is the writer's, unless it has been cleared. -/
theorem Inv.eq_of_addr (h : s.Inv) (hold : (s.pc t).use = some (p, a, u)) {b : Peer}
    (hb : s.mem.addr p = b.packed) : a = b := by
  rcases (h.ok t).addr p a u hold with heq | hzero
  · exact Peer.packed_injective (heq.symm.trans hb)
  · exact absurd (hb.symm.trans hzero) b.packed_ne_zero

/-- A version step at the slot of a writer leaves what the other threads rely on. -/
theorem Inv.ok_increment (h : s.Inv) (hold : (s.pc t).use = some (p, a, u)) (hw : u ≠ .read)
    {spoiled : Place → Bool} {t' : T} (ht : t' ≠ t) :
    (s.pc t').Ok { s.mem.increment p with spoiled := spoiled } s.inserted := by
  refine (h.ok t').frame (fun _ => id) s.mem.le_increment_seq (fun _ _ _ _ => .inl rfl)
    (fun _ _ _ => .inl rfl) fun q b v hv hread => ⟨s.mem.increment_seq_of_ne ?_, rfl⟩
  rintro rfl
  exact hread (h.reader_of_writer hold hw ht hv).2

variable {token : SessionToken} {stage : Stage} {claimed : Bool} {i : Fin slotsPerShard}

theorem use_of_write (hpc : s.pc t = .write stage claimed a token i) :
    (s.pc t).use = some ((a.shard, i), a, .ofWrite claimed) :=
  hpc ▸ rfl

theorem Inv.local_write (h : s.Inv) (hpc : s.pc t = .write stage claimed a token i) :
    Of s.inserted a token ∧ (s.mem.seq (a.shard, i) % 2 = if stage = .enter then 0 else 1) ∧
      (stage = .leave → s.mem.token (a.shard, i) = token) := by
  have hloc := (h.ok t).loc
  rwa [hpc] at hloc

end Writer

/-! ## One thread goes on -/

section Set

variable [DecidableEq T] {s : State T} {t : T} {m : Memory} {pc : Pc} {p : Place} {a : Peer}

/-- A slot is chosen before the step if it is after, or if the thread that goes on had chosen it. -/
theorem not_at_of_set {P : Use → Prop} (h : ¬ (s.set t m pc).At P p)
    (hkeep : ∀ a u, (s.pc t).use = some (p, a, u) → P u → pc.use = some (p, a, u)) : ¬ s.At P p := by
  rintro ⟨t', a, u, hu, hP⟩
  refine h ⟨t', a, u, ?_, hP⟩
  by_cases ht : t' = t
  · subst ht
    rw [set_pc_self]
    exact hkeep a u hu hP
  · rwa [s.set_pc_of_ne ht]

theorem at_set {P : Use → Prop} {u : Use} (hu : pc.use = some (p, a, u)) (hP : P u) :
    (s.set t m pc).At P p :=
  ⟨t, a, u, by rwa [set_pc_self], hP⟩

/-- The parts of the invariant after a step of one thread. -/
theorem Inv.set (h : s.Inv) (hok : pc.Ok m s.inserted)
    (hothers : ∀ t' ≠ t, (s.pc t').Ok m s.inserted) (hcompat : ∀ t' ≠ t, Compatible pc (s.pc t'))
    (hsettled : ∀ p a, m.addr p = a.packed → ¬ (s.set t m pc).Claiming p →
      Of s.inserted a (m.token p))
    (heven : ∀ p, ¬ (s.set t m pc).Writing p → m.seq p % 2 = 0)
    (hspoiled : ∀ p, m.spoiled p = false) : (s.set t m pc).Inv where
  ok := (Function.forall_update_iff s.pc fun _ pc => pc.Ok m s.inserted).mpr ⟨hok, hothers⟩
  compatible t₁ t₂ hne := by
    by_cases h₁ : t₁ = t
    · subst h₁
      rw [set_pc_self, s.set_pc_of_ne hne.symm]
      exact hcompat t₂ hne.symm
    · rw [s.set_pc_of_ne h₁]
      by_cases h₂ : t₂ = t
      · subst h₂
        rw [set_pc_self]
        exact (hcompat t₁ hne).symm
      · rw [s.set_pc_of_ne h₂]
        exact h.compatible t₁ t₂ hne
  settled := hsettled
  even := heven
  unspoiled := hspoiled

/-- A step that leaves the slots as they are and chooses no slot; only a reader may leave one. -/
theorem Inv.move (h : s.Inv) (hsub : ∀ p a u, pc.use = some (p, a, u) → (s.pc t).use = some (p, a, u))
    (hkeep : ∀ p a u, (s.pc t).use = some (p, a, u) → u ≠ .read → pc.use = some (p, a, u))
    (hloc : pc.Local s.mem s.inserted) : (s.set t s.mem pc).Inv := by
  refine h.set ⟨?_, ?_, hloc⟩ (fun t' _ => h.ok t') ?_ ?_ ?_ h.unspoiled
  · exact fun p a u hu => (h.ok t).addr p a u (hsub p a u hu)
  · exact fun p a hu => (h.ok t).read p a (hsub p a _ hu)
  · exact fun t' ht' p a a' u u' hu => h.compatible t t' ht'.symm p a a' u u' (hsub p a u hu)
  · intro p a haddr hc
    refine h.settled p a haddr (not_at_of_set hc fun b u hu hP => hkeep p b u hu ?_)
    simp [hP]
  · exact fun p hw => h.even p (not_at_of_set hw fun b u hu hP => hkeep p b u hu hP)

/-- A thread without a slot chooses one that has the address of its peer. -/
theorem Inv.choose (h : s.Inv) {u : Use} (hold : (s.pc t).use = none)
    (huse : pc.use = some (p, a, u)) (haddr : s.mem.addr p = a.packed)
    (hfree : (u = .read ∧ ¬ s.Claiming p) ∨ (u = .update ∧ ¬ s.Writing p))
    (hloc : pc.Local s.mem s.inserted) : (s.set t s.mem pc).Inv := by
  have hnone (P : Use → Prop) (q : Place) (hq : ¬ (s.set t s.mem pc).At P q) : ¬ s.At P q :=
    not_at_of_set hq fun b u hu => by simp [hold] at hu
  refine h.set ⟨?_, ?_, hloc⟩ (fun t' _ => h.ok t') ?_ ?_ ?_ h.unspoiled
  · intro q b v hv
    obtain ⟨rfl, rfl, rfl⟩ : p = q ∧ a = b ∧ u = v := by simpa [huse] using hv
    exact .inl haddr
  · intro q b hv
    obtain ⟨rfl, rfl, rfl⟩ : p = q ∧ a = b ∧ u = .read := by simpa [huse] using hv
    rcases hfree with ⟨-, hc⟩ | ⟨hu, -⟩
    · exact h.settled p a haddr hc
    · cases hu
  · intro t' _ q b b' v v' hv hv'
    obtain ⟨rfl, rfl, rfl⟩ : p = q ∧ a = b ∧ u = v := by simpa [huse] using hv
    have hpeer : a = b' := by
      rcases (h.ok t').addr p b' v' hv' with heq | hzero
      · exact Peer.packed_injective (haddr.symm.trans heq)
      · exact absurd (haddr.symm.trans hzero) a.packed_ne_zero
    refine ⟨hpeer, ?_⟩
    rcases hfree with ⟨rfl, hc⟩ | ⟨rfl, hw⟩
    · exact .inl ⟨rfl, fun hv => hc ⟨t', b', v', hv', hv⟩⟩
    · refine .inr ⟨?_, by simp⟩
      by_contra hv
      exact hw ⟨t', b', v', hv', hv⟩
  · exact fun q b hq hc => h.settled q b hq (hnone _ q hc)
  · exact fun q hw => h.even q (hnone _ q hw)

/-- A thread puts its address into a slot that no other thread has chosen. -/
theorem Inv.claim (h : s.Inv) (hold : (s.pc t).use = none) (huse : pc.use = some (p, a, .claim))
    (hw : ¬ s.Writing p) (hr : ¬ s.Reading p)
    (hloc : pc.Local (s.mem.setAddr p a.packed) s.inserted) :
    (s.set t (s.mem.setAddr p a.packed) pc).Inv := by
  have hfree (t' : T) (b : Peer) (u : Use) : (s.pc t').use ≠ some (p, b, u) := by
    intro hu
    by_cases hread : u = .read
    · exact hr ⟨t', b, u, hu, hread⟩
    · exact hw ⟨t', b, u, hu, hread⟩
  have hnone (P : Use → Prop) (q : Place) (hq : ¬ (s.set t (s.mem.setAddr p a.packed) pc).At P q) :
      ¬ s.At P q :=
    not_at_of_set hq fun b u hu => by simp [hold] at hu
  refine h.set ⟨?_, ?_, hloc⟩ (fun t' _ => ?_) ?_ ?_ ?_ h.unspoiled
  · intro q b v hv
    obtain ⟨rfl, rfl, -⟩ : p = q ∧ a = b ∧ .claim = v := by simpa [huse] using hv
    exact .inl (s.mem.setAddr_addr_self _)
  · intro q b hv
    simp [huse] at hv
  · refine (h.ok t').frame (fun _ => id) (fun _ => le_rfl) (fun q b u hu => .inl ?_)
      (fun _ _ _ => .inl rfl) fun _ _ _ _ _ => ⟨rfl, rfl⟩
    refine s.mem.setAddr_addr_of_ne (fun hq => hfree t' b u ?_) _
    rwa [← hq]
  · intro t' _ q b b' v v' hv hv'
    obtain ⟨rfl, -, -⟩ : p = q ∧ a = b ∧ .claim = v := by simpa [huse] using hv
    exact absurd hv' (hfree t' b' v')
  · intro q b hq hc
    by_cases hqp : q = p
    · subst hqp
      exact (hc (at_set huse rfl)).elim
    · rw [s.mem.setAddr_addr_of_ne hqp] at hq
      exact h.settled q b hq (hnone _ q hc)
  · exact fun q hq => h.even q (hnone _ q hq)

/-- A thread clears the address of a slot. -/
theorem Inv.clear (h : s.Inv) (hold : (s.pc t).use = none) (p : Place) :
    (s.set t (s.mem.setAddr p 0) .idle).Inv := by
  have hnone (P : Use → Prop) (q : Place) (hq : ¬ (s.set t (s.mem.setAddr p 0) .idle).At P q) :
      ¬ s.At P q :=
    not_at_of_set hq fun b u hu => by simp [hold] at hu
  have haddr (q : Place) : (s.mem.setAddr p 0).addr q = s.mem.addr q ∨ (s.mem.setAddr p 0).addr q = 0 := by
    by_cases hqp : q = p
    · subst hqp
      exact .inr (s.mem.setAddr_addr_self 0)
    · exact .inl (s.mem.setAddr_addr_of_ne hqp 0)
  refine h.set (.of_use_eq_none rfl trivial) (fun t' _ => ?_) ?_ ?_ ?_ h.unspoiled
  · exact (h.ok t').frame (fun _ => id) (fun _ => le_rfl) (fun q _ _ _ => haddr q)
      (fun _ _ _ => .inl rfl) fun _ _ _ _ _ => ⟨rfl, rfl⟩
  · intro t' _ q b b' v v' hv
    cases hv
  · intro q b hq hc
    rcases haddr q with heq | hzero
    · exact h.settled q b (heq.symm.trans hq) (hnone _ q hc)
    · exact absurd (hq.symm.trans hzero) b.packed_ne_zero
  · exact fun q hq => h.even q (hnone _ q hq)

/-! ## The write of a token -/

/-- A slot other than the writer's is chosen before the step as after it. -/
theorem not_at_of_set_of_ne {P : Use → Prop} {q : Place} {u : Use}
    (hold : (s.pc t).use = some (p, a, u)) (hqp : q ≠ p) (h : ¬ (s.set t m pc).At P q) : ¬ s.At P q :=
  not_at_of_set h fun b v hv => by
    rw [hold] at hv
    simp only [Option.some.injEq, Prod.mk.injEq] at hv
    exact absurd hv.1.symm hqp

/-- A step of a writer that stays at its slot `p` and changes the token and the version of no other. -/
theorem Inv.write (h : s.Inv) {u : Use} (hold : (s.pc t).use = some (p, a, u)) (hw : u ≠ .read)
    (huse : pc.use = some (p, a, u)) (haddr : m.addr = s.mem.addr)
    (hseq : ∀ q ≠ p, m.seq q = s.mem.seq q) (htoken : ∀ q ≠ p, m.token q = s.mem.token q)
    (hof : m.token p = s.mem.token p ∨ Of s.inserted a (m.token p))
    (hothers : ∀ t' ≠ t, (s.pc t').Ok m s.inserted) (hloc : pc.Local m s.inserted)
    (hspoiled : ∀ p, m.spoiled p = false) : (s.set t m pc).Inv := by
  refine h.set ⟨?_, ?_, hloc⟩ hothers ?_ ?_ ?_ hspoiled
  · exact fun q b v hv => haddr ▸ (h.ok t).addr q b v (hold.trans (huse.symm.trans hv))
  · intro q b hv
    simp only [huse, Option.some.injEq, Prod.mk.injEq] at hv
    exact absurd hv.2.2 hw
  · intro t' ht q b b' v v' hv
    exact h.compatible t t' ht.symm q b b' v v' (hold.trans (huse.symm.trans hv))
  · intro q b hq hc
    rw [haddr] at hq
    have hc' : ¬ s.Claiming q := not_at_of_set hc fun c v hv _ => huse.trans (hold.symm.trans hv)
    by_cases hqp : q = p
    · subst hqp
      rcases hof with heq | hof
      · exact heq ▸ h.settled q b hq hc'
      · exact h.eq_of_addr hold hq ▸ hof
    · exact htoken q hqp ▸ h.settled q b hq hc'
  · intro q hq
    by_cases hqp : q = p
    · subst hqp
      exact (hq (at_set huse hw)).elim
    · exact hseq q hqp ▸ h.even q (not_at_of_set_of_ne hold hqp hq)

variable {token : SessionToken} {claimed : Bool} {i : Fin slotsPerShard}

theorem Inv.beginWrite (h : s.Inv) (hpc : s.pc t = .write .enter claimed a token i) :
    (s.set t (s.mem.beginWrite (a.shard, i)) (.write .store claimed a token i)).Inv := by
  have hold := use_of_write hpc
  have hw := Use.ofWrite_ne_read claimed
  obtain ⟨hof, heven, -⟩ := h.local_write hpc
  rw [if_pos rfl] at heven
  refine h.write hold hw rfl rfl (fun q hq => s.mem.increment_seq_of_ne hq)
    (fun _ _ => rfl) (.inl rfl) (fun t' ht => h.ok_increment hold hw ht) ?_ ?_
  · refine ⟨hof, ?_, by simp⟩
    have hseq : (s.mem.beginWrite (a.shard, i)).seq (a.shard, i) = s.mem.seq (a.shard, i) + 1 :=
      s.mem.increment_seq_self
    simp only [hseq, reduceCtorEq, if_false]
    omega
  · intro q
    by_cases hq : q = (a.shard, i)
    · subst hq
      simp [Memory.beginWrite, h.unspoiled, heven]
    · exact (Function.update_of_ne hq ..).trans (h.unspoiled q)

theorem Inv.storeToken (h : s.Inv) (hpc : s.pc t = .write .store claimed a token i) :
    (s.set t (s.mem.setToken (a.shard, i) token) (.write .leave claimed a token i)).Inv := by
  have hold := use_of_write hpc
  have hw := Use.ofWrite_ne_read claimed
  obtain ⟨hof, hodd, -⟩ := h.local_write hpc
  have hof' : Of s.inserted a ((s.mem.setToken (a.shard, i) token).token (a.shard, i)) := by
    rwa [Memory.setToken_token_self]
  refine h.write hold hw rfl rfl (fun _ _ => rfl)
    (fun q hq => s.mem.setToken_token_of_ne hq token) (.inr hof') (fun t' ht => ?_)
    ⟨hof, hodd, fun _ => s.mem.setToken_token_self token⟩ h.unspoiled
  -- a reader at the slot is there for the same peer
  refine (h.ok t').frame (fun _ => id) (fun _ => le_rfl) (fun _ _ _ _ => .inl rfl)
    (fun q b hu => ?_) fun q b v hv hread => ⟨rfl, s.mem.setToken_token_of_ne ?_ token⟩
  · by_cases hq : q = (a.shard, i)
    · subst hq
      obtain ⟨rfl, -⟩ := h.reader_of_writer hold hw ht hu
      exact .inr hof'
    · exact .inl (s.mem.setToken_token_of_ne hq token)
  · rintro rfl
    exact hread (h.reader_of_writer hold hw ht hv).2

theorem Inv.endWrite (h : s.Inv) (hpc : s.pc t = .write .leave claimed a token i) :
    (s.set t (s.mem.increment (a.shard, i)) .idle).Inv := by
  have hold := use_of_write hpc
  have hw := Use.ofWrite_ne_read claimed
  obtain ⟨hof, hodd, htoken⟩ := h.local_write hpc
  refine h.set (.of_use_eq_none rfl trivial) (fun t' ht => h.ok_increment hold hw ht)
    ?_ ?_ ?_ h.unspoiled
  · intro t' _ q b b' v v' hv
    cases hv
  · intro q b hq hc
    by_cases hqp : q = (a.shard, i)
    · subst hqp
      obtain rfl := h.eq_of_addr hold hq
      exact (htoken rfl).symm ▸ hof
    · exact h.settled q b hq (not_at_of_set_of_ne hold hqp hc)
  · intro q hq
    by_cases hqp : q = (a.shard, i)
    · subst hqp
      simp only [reduceCtorEq, if_false] at hodd
      rw [Memory.increment_seq_self]
      omega
    · rw [s.mem.increment_seq_of_ne hqp]
      exact h.even q (not_at_of_set_of_ne hold hqp hq)

/-! ## Every step -/

/-- A thread without a slot goes on without one. -/
theorem Inv.pass (h : s.Inv) (hold : (s.pc t).use = none) (huse : pc.use = none)
    (hloc : pc.Local s.mem s.inserted) : (s.set t s.mem pc).Inv :=
  h.move (fun p a u hu => by simp [huse] at hu) (fun p a u hu => by simp [hold] at hu) hloc

/-- A thread stays at its slot, if it has one. -/
theorem Inv.stay (h : s.Inv) (huse : pc.use = (s.pc t).use) (hloc : pc.Local s.mem s.inserted) :
    (s.set t s.mem pc).Inv :=
  h.move (fun _ _ _ hu => huse ▸ hu) (fun _ _ _ hu _ => huse ▸ hu) hloc

theorem Inv.getLoad (h : s.Inv) {i : Fin slotsPerShard} (hpc : s.pc t = .getLoad a i)
    (hc : s.mem.addr (a.shard, i) = a.packed → ¬ s.Claiming (a.shard, i)) :
    (s.set t s.mem (if s.mem.addr (a.shard, i) = a.packed then .readVersion a i
      else .getScan a (nextSlot i))).Inv := by
  have hold : (s.pc t).use = none := hpc ▸ rfl
  split_ifs with haddr
  · exact h.choose hold rfl haddr (.inl ⟨rfl, hc haddr⟩) trivial
  · cases nextSlot i <;> exact h.pass hold rfl trivial

theorem Inv.readVersion (h : s.Inv) {i : Fin slotsPerShard} (hpc : s.pc t = .readVersion a i) :
    (s.set t s.mem (if s.mem.seq (a.shard, i) % 2 = 1 then .readVersion a i
      else .readData a i (s.mem.seq (a.shard, i)))).Inv := by
  split_ifs
  · exact h.stay (hpc ▸ rfl) trivial
  · exact h.stay (hpc ▸ rfl) le_rfl

theorem Inv.readData (h : s.Inv) {i : Fin slotsPerShard} {v1 : ℕ} (hpc : s.pc t = .readData a i v1)
    (torn : SessionToken) :
    (s.set t s.mem (.readCheck a i v1 (s.mem.copy (a.shard, i) v1 torn))).Inv := by
  have hle : v1 ≤ s.mem.seq (a.shard, i) := by
    have hloc := (h.ok t).loc
    rwa [hpc] at hloc
  refine h.stay (hpc ▸ rfl) ⟨hle, fun hv => ?_⟩
  rw [Memory.copy, if_pos ⟨hv, h.unspoiled _⟩]
  exact (h.ok t).read _ a (hpc ▸ rfl)

theorem Inv.readCheck (h : s.Inv) {i : Fin slotsPerShard} {v1 : ℕ} {value : SessionToken}
    (hpc : s.pc t = .readCheck a i v1 value) (hc : s.mem.seq (a.shard, i) < v1 + 2 ^ 64) :
    (s.set t s.mem (if v1 % 2 ^ 64 = s.mem.seq (a.shard, i) % 2 ^ 64 then .validate a value
      else .readVersion a i)).Inv := by
  obtain ⟨hle, hof⟩ : v1 ≤ s.mem.seq (a.shard, i) ∧
      (s.mem.seq (a.shard, i) = v1 → Of s.inserted a value) := by
    have hloc := (h.ok t).loc
    rwa [hpc] at hloc
  split_ifs with hv
  · -- the version has not gone once around
    have heq : s.mem.seq (a.shard, i) = v1 := by omega
    refine h.move (fun _ _ _ hu => by cases hu) (fun p b u hu hread => ?_) (hof heq)
    rw [hpc] at hu
    simp only [Pc.use, Option.some.injEq, Prod.mk.injEq] at hu
    exact absurd hu.2.2.symm hread
  · exact h.stay (hpc ▸ rfl) trivial

variable {i : Fin slotsPerShard}

theorem Inv.insertScan (h : s.Inv) (hold : (s.pc t).use = none) (hof : Of s.inserted a token)
    (next : Option (Fin slotsPerShard)) : (s.set t s.mem (.insertScan a token next)).Inv := by
  cases next <;> exact h.pass hold rfl hof

theorem Inv.insertLoad (h : s.Inv) (hpc : s.pc t = .insertLoad a token i)
    (hof : Of s.inserted a token)
    (hc : s.mem.addr (a.shard, i) = a.packed → ¬ s.Writing (a.shard, i)) :
    (s.set t s.mem (if s.mem.addr (a.shard, i) = a.packed then .write .enter false a token i
      else if s.mem.addr (a.shard, i) = 0 then .claim a token i
      else .insertScan a token (nextSlot i))).Inv := by
  have hold : (s.pc t).use = none := hpc ▸ rfl
  split_ifs with haddr
  · exact h.choose hold rfl haddr (.inr ⟨rfl, hc haddr⟩) ⟨hof, h.even _ (hc haddr), by simp⟩
  · exact h.pass hold rfl hof
  · exact h.insertScan hold hof _

/-- A slot is claimed or replaced. -/
theorem Inv.putAddr (h : s.Inv) (hold : (s.pc t).use = none) (hof : Of s.inserted a token)
    (hc : ¬ s.Writing (a.shard, i) ∧ ¬ s.Reading (a.shard, i)) :
    (s.set t (s.mem.setAddr (a.shard, i) a.packed) (.write .enter true a token i)).Inv :=
  h.claim hold rfl hc.1 hc.2 ⟨hof, h.even _ hc.1, by simp⟩

theorem Inv.evict (h : s.Inv) (hpc : s.pc t = .evict a token) (hof : Of s.inserted a token) (n : ℕ) :
    (s.set t { s.mem with evictCounter := n } (.replace a token i)).Inv := by
  have hok (t' : T) : (s.pc t').Ok { s.mem with evictCounter := n } s.inserted :=
    (h.ok t').frame (fun _ => id) (fun _ => le_rfl) (fun _ _ _ _ => .inl rfl)
      (fun _ _ _ => .inl rfl) fun _ _ _ _ _ => ⟨rfl, rfl⟩
  have h' : (s.set t s.mem (.replace a token i)).Inv := h.pass (hpc ▸ rfl) rfl hof
  exact h.set (.of_use_eq_none rfl hof) (fun t' _ => hok t')
    (fun _ _ _ _ _ _ _ hv => by cases hv) h'.settled h'.even h.unspoiled

variable {s' : State T}

theorem Inv.access (h : s.Inv) {torn : SessionToken} {nowNs : ℕ}
    (hc : s.Apart (.access t torn nowNs)) (hs : s.next (.access t torn nowNs) = some s') : s'.Inv := by
  simp only [next, Option.map_eq_some_iff] at hs
  obtain ⟨⟨m, pc⟩, hacc, rfl⟩ := hs
  have hloc := (h.ok t).loc
  simp only [Apart] at hc
  cases hpc : s.pc t with
  | idle | returned =>
    rw [hpc] at hacc
    cases hacc
  | getLoad a i =>
    rw [hpc] at hacc hc
    cases hacc
    exact h.getLoad hpc hc
  | readVersion a i =>
    rw [hpc] at hacc
    cases hacc
    exact h.readVersion hpc
  | readData a i v1 =>
    rw [hpc] at hacc
    cases hacc
    exact h.readData hpc torn
  | readCheck a i v1 value =>
    rw [hpc] at hacc hc
    cases hacc
    exact h.readCheck hpc hc
  | validate a token =>
    rw [hpc] at hacc hloc
    cases hacc
    refine h.pass (hpc ▸ rfl) rfl ?_
    split_ifs
    · exact hloc
    · trivial
  | insertLoad a token i =>
    rw [hpc] at hacc hc hloc
    cases hacc
    exact h.insertLoad hpc hloc hc
  | claim a token i =>
    rw [hpc] at hacc hc hloc
    simp only [Pc.access] at hacc
    split_ifs at hacc with haddr <;> cases hacc
    · exact h.putAddr (hpc ▸ rfl) hloc (hc haddr)
    · exact h.insertScan (hpc ▸ rfl) hloc _
  | evict a token =>
    rw [hpc] at hacc hloc
    cases hacc
    exact h.evict hpc hloc _
  | replace a token i =>
    rw [hpc] at hacc hc hloc
    cases hacc
    exact h.putAddr (hpc ▸ rfl) hloc hc
  | write stage claimed a token i =>
    rw [hpc] at hacc
    cases stage with
    | enter =>
      cases hacc
      exact h.beginWrite hpc
    | store =>
      cases hacc
      exact h.storeToken hpc
    | leave =>
      cases hacc
      exact h.endWrite hpc
  | invalidateLoad a i =>
    rw [hpc] at hacc
    cases hacc
    split_ifs
    · exact h.pass (hpc ▸ rfl) rfl trivial
    · cases nextSlot i <;> exact h.pass (hpc ▸ rfl) rfl trivial
  | clear a i =>
    rw [hpc] at hacc
    cases hacc
    exact h.clear (hpc ▸ rfl) _

theorem use_of_ready {pc : Pc} (h : pc.ready = true) : pc.use = none := by
  cases pc <;> first | rfl | cases h

theorem Inv.start (h : s.Inv) (hs : s.start t pc = some s') (huse : pc.use = none)
    (hloc : pc.Local s.mem s.inserted) : s'.Inv := by
  simp only [State.start, Option.ite_none_right_eq_some, Option.some.injEq] at hs
  obtain ⟨hready, rfl⟩ := hs
  exact h.pass (use_of_ready hready) huse hloc

theorem Inv.next (h : s.Inv) {act : Action T} (hc : s.Apart act) (hs : s.next act = some s') :
    s'.Inv := by
  cases act with
  | get t a => exact h.start hs rfl trivial
  | insert t a tokenData nowNs =>
    simp only [State.next] at hs
    split_ifs at hs
    · exact h.start hs rfl trivial
    · refine (h.cons_inserted (a, tokenData)).start hs rfl ?_
      simp [Pc.Local, Of]
  | invalidate t a => exact h.start hs rfl trivial
  | access t torn nowNs => exact h.access hc hs

theorem inv_of_apart (h : (concurrent T).ReachableVia Apart s) : s.Inv :=
  h.invariant (I := Inv) (by rintro _ rfl; exact inv_initial) fun _ _ _ hc hi hs => hi.next hc hs

/-- In every interleaving whose steps keep address and token of a slot together, the bytes that `get`
returns for a peer are those of an `insert` for this peer. -/
theorem inserted_of_returned_of_apart (h : (concurrent T).ReachableVia Apart s) {token : SessionToken}
    (hpc : s.pc t = .returned a (some token)) : (a, token.asSlice) ∈ s.inserted := by
  have hloc := ((inv_of_apart h).ok t).loc
  rwa [hpc] at hloc

end Set

/-- An access that neither copies a token nor reads the clock. -/
def plain (t : Fin 2) : Action (Fin 2) := .access t .empty 0

/-- A `get` after an `insert` that has ended. -/
theorem inserted_of_returned_of_apart_one : ∃ s, (concurrent (Fin 2)).run .initial
      (.insert 0 .first [1] 10 :: List.replicate 5 (plain 0) ++
        .get 1 .first :: List.replicate 4 (plain 1) ++ [.access 1 .empty 20]) = some s ∧
    s.pc 1 = .returned .first (some (.ofData [1] 10)) ∧ (.first, [1]) ∈ s.inserted := by
  have hinsert : (concurrent (Fin 2)).ReachableVia Apart _ :=
    .step (.insert 0 .first [1] 10) (.init rfl) trivial rfl
  have hload := hinsert.step (plain 0) (fun h => absurd h (by decide)) rfl
  have hclaim := hload.step (plain 0) (fun _ => by decide) rfl
  have henter := hclaim.step (plain 0) trivial rfl
  have hstore := henter.step (plain 0) trivial rfl
  have hleave := hstore.step (plain 0) trivial rfl
  have hget := hleave.step (.get 1 .first) (by trivial) rfl
  have hfound := hget.step (plain 1) (fun _ => by decide) rfl
  have hversion := hfound.step (plain 1) trivial rfl
  have hdata := hversion.step (plain 1) trivial rfl
  have hcheck := hdata.step (plain 1) (show (2 : ℕ) < 2 + 2 ^ 64 by decide) rfl
  have hreturn := hcheck.step (.access 1 .empty 20) (by trivial) rfl
  exact ⟨_, rfl, rfl, inserted_of_returned_of_apart hreturn
    (show State.pc _ 1 = .returned .first (some (.ofData [1] 10)) from rfl)⟩

/-- A thread inserts a token for the second peer, invalidates it, and has just put the address of the
first peer into the slot: another thread then gets the token of the second peer for the first. -/
theorem returned_other_peer : ∃ s, (concurrent (Fin 2)).run .initial
      (.insert 0 .second [2] 10 :: List.replicate 5 (plain 0) ++
        .invalidate 0 .second :: List.replicate 2 (plain 0) ++
        .insert 0 .first [1] 20 :: List.replicate 2 (plain 0) ++
        .get 1 .first :: List.replicate 4 (plain 1) ++ [.access 1 .empty 30]) = some s ∧
    s.pc 1 = .returned .first (some (.ofData [2] 10)) ∧ (.first, [2]) ∉ s.inserted :=
  ⟨_, rfl, rfl, by decide⟩

end State

end Land.Session
