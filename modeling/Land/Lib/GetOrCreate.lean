import Land.Lib.Transition

/-!
# Get or create

Maps from keys to shared objects, in shards.  A call looks its key up under the read lock of the shard; if the key is
not there it takes the write lock and looks again before it makes a new object.  A section under a lock is one step,
and other calls come in between.  With the object in hand a call works on it, in steps that are interleaved with those
of all other calls.

What is done with one object is a `Program`.  An invariant of an object and of the calls that work on it
(`Program.Invariant`) is proved for the object alone and then holds for the object of every key
(`inv_of_reachable`): all calls for a key get the same object, and no other call does.
-/

namespace Land

/-- What calls do with an object: how it is made, where a call with an argument of type `ω` starts, and the steps of
a call.  `ε` and `α` are what the environment puts in. -/
structure Program (O L ω ε α : Type) where
  fresh : ε → O
  start : ω → L
  step : ω → α → O → L → Option (O × L)

/-- A relation between an object and the calls that work on it, kept by all that can happen to them. -/
structure Program.Invariant {O L ω ε α : Type} (P : Program O L ω ε α) (I : O → Multiset (ω × L) → Prop) :
    Prop where
  fresh : ∀ e, I (P.fresh e) 0
  start : ∀ o ls w, I o ls → I o ((w, P.start w) ::ₘ ls)
  step : ∀ w a o l ls o' l', I o ((w, l) ::ₘ ls) → P.step w a o l = some (o', l') → I o' ((w, l') ::ₘ ls)

namespace GetOrCreate

variable {κ σ O L ω ε α : Type} [DecidableEq κ] [DecidableEq σ] {shard : κ → σ}

/-! ## Maps in shards -/

section Sharded

variable {β γ : Type} {l l' : List (κ × β)} {shards shards' : σ → List (κ × β)} {k : κ}

omit [DecidableEq σ]

theorem isSome_lookup : (l.lookup k).isSome = true ↔ k ∈ l.map Prod.fst := by
  rw [← not_iff_not, Bool.not_eq_true, Option.isSome_eq_false_iff, Option.isNone_iff_eq_none,
    List.lookup_eq_none_iff, List.mem_map]
  simp only [bne_iff_ne, ne_eq, not_exists, not_and]
  exact forall₂_congr fun e _ => not_congr eq_comm

theorem lookup_eq_some_iff_mem (hl : (l.map Prod.fst).Nodup) {b : β} : l.lookup k = some b ↔ (k, b) ∈ l := by
  rw [List.lookup_eq_some_iff]
  constructor
  · rintro ⟨l₁, l₂, rfl, -⟩
    exact List.mem_append_right _ List.mem_cons_self
  · intro hin
    obtain ⟨l₁, l₂, rfl⟩ := List.append_of_mem hin
    refine ⟨l₁, l₂, rfl, fun p hp => ?_⟩
    rw [List.map_append, List.map_cons, List.nodup_append] at hl
    have hne := hl.2.2 _ (List.mem_map_of_mem hp) k List.mem_cons_self
    exact bne_iff_ne.2 hne.symm

theorem lookup_mapValues (f : β → γ) (l : List (κ × β)) (k : κ) :
    (l.map (Prod.map id f)).lookup k = (l.lookup k).map f := by
  induction l with
  | nil => rfl
  | cons e l ih =>
    rw [List.map_cons, List.lookup_cons, List.lookup_cons, Prod.map_fst, id, ih]
    cases k == e.1 <;> rfl

variable (shard) in
/-- Every key has one entry, in its shard. -/
structure Sharded (shards : σ → List (κ × β)) : Prop where
  home : ∀ i, ∀ e ∈ shards i, shard e.1 = i
  nodup : ∀ i, ((shards i).map Prod.fst).Nodup

namespace Sharded

section

omit [DecidableEq κ]

theorem empty : Sharded shard fun _ => ([] : List (κ × β)) where
  home i e he := by cases he
  nodup i := List.nodup_nil

theorem mapValues (f : β → γ) (hs : Sharded shard shards) :
    Sharded shard fun i => (shards i).map (Prod.map id f) where
  home i e he := by
    obtain ⟨e', he', rfl⟩ := List.mem_map.1 he
    exact hs.home i e' he'
  nodup i := by
    rw [List.map_map]
    exact hs.nodup i

theorem update [DecidableEq σ] (hs : Sharded shard shards) {i : σ} (hhome : ∀ e ∈ l, shard e.1 = i)
    (hnodup : (l.map Prod.fst).Nodup) : Sharded shard (Function.update shards i l) := by
  refine ⟨fun j e he => ?_, fun j => ?_⟩
  · rcases eq_or_ne j i with rfl | hne
    · rw [Function.update_self] at he
      exact hhome e he
    · rw [Function.update_of_ne hne] at he
      exact hs.home j e he
  · rcases eq_or_ne j i with rfl | hne
    · rw [Function.update_self]
      exact hnodup
    · rw [Function.update_of_ne hne]
      exact hs.nodup j

end

/-- Two maps with the same lookups have the same entries in every shard. -/
theorem perm (hs : Sharded shard shards) (hs' : Sharded shard shards')
    (heq : ∀ k, (shards (shard k)).lookup k = (shards' (shard k)).lookup k) (i : σ) :
    (shards i).Perm (shards' i) := by
  refine (List.perm_ext_iff_of_nodup (hs.nodup i).of_map (hs'.nodup i).of_map).2 ?_
  rintro ⟨k, b⟩
  rw [← lookup_eq_some_iff_mem (hs.nodup i), ← lookup_eq_some_iff_mem (hs'.nodup i)]
  constructor
  · intro h
    obtain rfl := hs.home i _ ((lookup_eq_some_iff_mem (hs.nodup i)).1 h)
    rw [← heq, h]
  · intro h
    obtain rfl := hs'.home i _ ((lookup_eq_some_iff_mem (hs'.nodup i)).1 h)
    rw [heq, h]

/-- The keys of all shards are those with an entry, each once. -/
theorem keys (hs : Sharded shard shards) {is : List σ} (his : is.Nodup) (hall : ∀ i, i ∈ is) :
    (is.flatMap fun i => (shards i).map Prod.fst).Nodup ∧
      ∀ k, k ∈ (is.flatMap fun i => (shards i).map Prod.fst) ↔ ((shards (shard k)).lookup k).isSome = true := by
  have hhome {i : σ} {k : κ} (hk : k ∈ (shards i).map Prod.fst) : shard k = i := by
    obtain ⟨e, he, rfl⟩ := List.mem_map.1 hk
    exact hs.home i e he
  refine ⟨List.nodup_flatMap.2 ⟨fun i _ => hs.nodup i, his.imp fun hne k hi hj => ?_⟩, fun k => ?_⟩
  · exact hne ((hhome hi).symm.trans (hhome hj))
  · rw [List.mem_flatMap, isSome_lookup]
    constructor
    · rintro ⟨i, -, hk⟩
      exact (hhome hk).symm ▸ hk
    · exact fun hk => ⟨shard k, hall _, hk⟩

end Sharded

end Sharded

/-! ## The objects -/

/-- The maps of all shards.  An object is known by its number, in the order in which the objects were made. -/
structure Maps (κ σ : Type) where
  shards : σ → List (κ × ℕ)
  made : ℕ

namespace Maps

variable {m : Maps κ σ} {k k' : κ} {h : ℕ}

/-- No object. -/
def new : Maps κ σ := ⟨fun _ => [], 0⟩

variable (shard) in
/-- The object of a key. -/
def find (m : Maps κ σ) (k : κ) : Option ℕ := (m.shards (shard k)).lookup k

variable (shard) in
/-- A new object for a key. -/
def insert (m : Maps κ σ) (k : κ) : Maps κ σ :=
  ⟨Function.update m.shards (shard k) ((k, m.made) :: m.shards (shard k)), m.made + 1⟩

theorem find_insert (m : Maps κ σ) (k k' : κ) :
    (m.insert shard k).find shard k' = if k' = k then some m.made else m.find shard k' := by
  simp only [find, insert]
  by_cases hshard : shard k' = shard k
  · rw [hshard, Function.update_self, List.lookup_cons]
    by_cases hk : k' = k
    · rw [if_pos hk, beq_iff_eq.2 hk]
    · rw [if_neg hk, beq_false_of_ne hk]
  · have hk : k' ≠ k := fun h => hshard (h ▸ rfl)
    rw [Function.update_of_ne hshard, if_neg hk]

variable (shard) in
/-- Every key has its own object. -/
structure Ok (m : Maps κ σ) : Prop where
  lt : ∀ k h, m.find shard k = some h → h < m.made
  inj : ∀ k k' h, m.find shard k = some h → m.find shard k' = some h → k = k'
  sharded : Sharded shard m.shards

omit [DecidableEq σ] in
theorem ok_new : (new : Maps κ σ).Ok shard where
  lt k h hk := by cases hk
  inj k k' h hk := by cases hk
  sharded := .empty

theorem Ok.insert (hm : m.Ok shard) (hk : m.find shard k = none) : (m.insert shard k).Ok shard := by
  have hcases (k' : κ) (h : ℕ) (hf : (m.insert shard k).find shard k' = some h) :
      k' = k ∧ h = m.made ∨ m.find shard k' = some h := by
    rw [find_insert] at hf
    split_ifs at hf with heq
    · exact .inl ⟨heq, (Option.some.inj hf).symm⟩
    · exact .inr hf
  refine ⟨fun k' h hf => ?_, fun k₁ k₂ h hf₁ hf₂ => ?_, hm.sharded.update (fun e he => ?_) ?_⟩
  · show h < m.made + 1
    rcases hcases k' h hf with ⟨-, rfl⟩ | hold
    · exact Nat.lt_succ_self _
    · exact (hm.lt k' h hold).trans (Nat.lt_succ_self _)
  · -- the number of the new object is above all others
    rcases hcases k₁ h hf₁ with ⟨rfl, rfl⟩ | hold₁ <;> rcases hcases k₂ _ hf₂ with ⟨rfl, hh⟩ | hold₂
    · rfl
    · exact absurd (hm.lt k₂ _ hold₂) (lt_irrefl _)
    · exact absurd (hm.lt k₁ _ hold₁) (hh ▸ lt_irrefl _)
    · exact hm.inj k₁ k₂ h hold₁ hold₂
  · rcases List.mem_cons.1 he with rfl | he
    · rfl
    · exact hm.sharded.home _ e he
  · rw [List.map_cons, List.nodup_cons, ← isSome_lookup]
    refine ⟨?_, hm.sharded.nodup _⟩
    show ¬ (m.find shard k).isSome = true
    rw [hk]
    exact Bool.false_ne_true

end Maps

/-! ## The calls -/

/-- Where a call is: before its lookup, before its second one, or at work on an object. -/
inductive Phase (L : Type) where
  | look
  | create
  | use (h : ℕ) (l : L)
  deriving DecidableEq

/-- A call with its key and its argument. -/
structure Call (κ ω L : Type) where
  key : κ
  arg : ω
  phase : Phase L

/-- The call is at work on the object. -/
def Call.at? (h : ℕ) (c : Call κ ω L) : Option (ω × L) :=
  match c.phase with
  | .use h' l => if h' = h then some (c.arg, l) else none
  | .look | .create => none

/-- The maps, the objects by their numbers, and all calls that have begun. -/
structure State (κ σ O ω L : Type) where
  maps : Maps κ σ
  heap : ℕ → O
  calls : List (Call κ ω L)

inductive Action (κ ω ε α : Type) where
  | call (k : κ) (w : ω)
  | lock (i : ℕ) (e : ε)
  | step (i : ℕ) (a : α)

/-- The key and the argument with which a call begins. -/
def Action.call? : Action κ ω ε α → Option (κ × ω)
  | .call k w => some (k, w)
  | .lock _ _ | .step _ _ => none

section Program

variable (P : Program O L ω ε α) (shard)

/-- A section under a lock. -/
def State.lock (s : State κ σ O ω L) (e : ε) (c : Call κ ω L) : Option (Maps κ σ × (ℕ → O) × Phase L) :=
  match c.phase, s.maps.find shard c.key with
  | .look, some h | .create, some h => some (s.maps, s.heap, .use h (P.start c.arg))
  | .look, none => some (s.maps, s.heap, .create)
  | .create, none => some (s.maps.insert shard c.key, Function.update s.heap s.maps.made (P.fresh e),
      .use s.maps.made (P.start c.arg))
  | .use _ _, _ => none

/-- A step of a call at work. -/
def State.work (s : State κ σ O ω L) (a : α) (c : Call κ ω L) : Option (Maps κ σ × (ℕ → O) × Phase L) :=
  match c.phase with
  | .use h l => (P.step c.arg a (s.heap h) l).map fun r => (s.maps, Function.update s.heap h r.1, .use h r.2)
  | .look | .create => none

/-- A step of the `i`-th call. -/
def State.turn (s : State κ σ O ω L) (i : ℕ) (f : Call κ ω L → Option (Maps κ σ × (ℕ → O) × Phase L)) :
    Option (State κ σ O ω L) :=
  s.calls[i]?.bind fun c => (f c).map fun r => ⟨r.1, r.2.1, s.calls.set i { c with phase := r.2.2 }⟩

def State.next (s : State κ σ O ω L) : Action κ ω ε α → Option (State κ σ O ω L)
  | .call k w => some { s with calls := s.calls ++ [⟨k, w, .look⟩] }
  | .lock i e => s.turn i (s.lock shard P e)
  | .step i a => s.turn i (s.work P a)

/-- Empty maps; what stands under a number before its object is made is arbitrary. -/
def system : System (State κ σ O ω L) (Action κ ω ε α) where
  init s := s.maps = .new ∧ s.calls = []
  step s a := s.next shard P a

end Program

/-- The calls at work on an object. -/
def State.users (s : State κ σ O ω L) (h : ℕ) : Multiset (ω × L) := (s.calls.filterMap (Call.at? h) : List (ω × L))

variable {P : Program O L ω ε α} {s s' : State κ σ O ω L}

/-- What a section under a lock or a step of a call at work does to the maps, the objects and the call. -/
inductive Turned (P : Program O L ω ε α) (shard : κ → σ) (s s' : State κ σ O ω L) (c c' : Call κ ω L) : Prop where
  | found (h : ℕ) (hphase : c.phase = .look ∨ c.phase = .create) (hfind : s.maps.find shard c.key = some h)
      (hmaps : s'.maps = s.maps) (hheap : s'.heap = s.heap) (hphase' : c'.phase = .use h (P.start c.arg))
  | missed (hphase : c.phase = .look) (hmaps : s'.maps = s.maps) (hheap : s'.heap = s.heap)
      (hphase' : c'.phase = .create)
  | made (e : ε) (hphase : c.phase = .create) (hfind : s.maps.find shard c.key = none)
      (hmaps : s'.maps = s.maps.insert shard c.key)
      (hheap : s'.heap = Function.update s.heap s.maps.made (P.fresh e))
      (hphase' : c'.phase = .use s.maps.made (P.start c.arg))
  | worked (a : α) (h : ℕ) (l : L) (o' : O) (l' : L) (hphase : c.phase = .use h l)
      (hstep : P.step c.arg a (s.heap h) l = some (o', l')) (hmaps : s'.maps = s.maps)
      (hheap : s'.heap = Function.update s.heap h o') (hphase' : c'.phase = .use h l')

omit [DecidableEq κ] [DecidableEq σ] in
theorem turn_cases {i : ℕ}{f : Call κ ω L → Option (Maps κ σ × (ℕ → O) × Phase L)}
    (hs : s.turn i f = some s') : ∃ c c' rest, s.calls.Perm (c :: rest) ∧ s'.calls.Perm (c' :: rest) ∧
      c'.key = c.key ∧ c'.arg = c.arg ∧ f c = some (s'.maps, s'.heap, c'.phase) := by
  obtain ⟨c, hc, hs⟩ := Option.bind_eq_some_iff.1 hs
  obtain ⟨⟨maps, heap, phase⟩, hf, rfl⟩ := Option.map_eq_some_iff.1 hs
  obtain ⟨hlt, rfl⟩ := List.getElem?_eq_some_iff.1 hc
  exact ⟨_, _, s.calls.eraseIdx i, (List.getElem_cons_eraseIdx_perm hlt).symm,
    List.set_perm_cons_eraseIdx hlt _, rfl, rfl, hf⟩

/-- What a step can do. -/
theorem next_cases {b : Action κ ω ε α} (hs : s.next shard P b = some s') :
    (∃ k w, b = .call k w ∧ s' = { s with calls := s.calls ++ [⟨k, w, .look⟩] }) ∨
    b.call? = none ∧ ∃ c c' rest,s.calls.Perm (c :: rest) ∧ s'.calls.Perm (c' :: rest) ∧
      c'.key = c.key ∧ c'.arg = c.arg ∧ Turned P shard s s' c c' := by
  cases b with
  | call k w =>
    cases hs
    exact .inl ⟨k, w, rfl, rfl⟩
  | lock i e =>
    obtain ⟨c, c', rest, hcalls, hcalls', hkey, harg, hf⟩ := turn_cases hs
    refine .inr ⟨rfl, c,c', rest, hcalls, hcalls', hkey, harg, ?_⟩
    unfold State.lock at hf
    split at hf
    · next h hphase hfind =>
      obtain ⟨hmaps, hheap, hphase'⟩ : _ ∧ _ ∧ _ := by simpa using hf
      exact .found h (.inl hphase) hfind hmaps.symm hheap.symm hphase'.symm
    · next h hphase hfind =>
      obtain ⟨hmaps, hheap, hphase'⟩ : _ ∧ _ ∧ _ := by simpa using hf
      exact .found h (.inr hphase) hfind hmaps.symm hheap.symm hphase'.symm
    · next hphase hfind =>
      obtain ⟨hmaps, hheap, hphase'⟩ : _ ∧ _ ∧ _ := by simpa using hf
      exact .missed hphase hmaps.symm hheap.symm hphase'.symm
    · next hphase hfind =>
      obtain ⟨hmaps, hheap, hphase'⟩ : _ ∧ _ ∧ _ := by simpa using hf
      exact .made e hphase hfind hmaps.symm hheap.symm hphase'.symm
    · cases hf
  | step i a =>
    obtain ⟨c, c', rest, hcalls, hcalls', hkey, harg, hf⟩ := turn_cases hs
    refine .inr ⟨rfl, c,c', rest, hcalls, hcalls', hkey, harg, ?_⟩
    unfold State.work at hf
    split at hf
    · next h l hphase =>
      obtain ⟨⟨o', l'⟩, hstep, heq⟩ := Option.map_eq_some_iff.1 hf
      obtain ⟨hmaps, hheap, hphase'⟩ : _ ∧ _ ∧ _ := by simpa using heq
      exact .worked a h l o' l' hphase hstep hmaps.symm hheap.symm hphase'.symm
    · cases hf
    · cases hf

/-! ## One object for each key -/

section Users

omit [DecidableEq κ] [DecidableEq σ]

variable {c : Call κ ω L} {rest : List (Call κ ω L)} {h h' : ℕ} {l : L}

theorem Call.at?_use (hphase : c.phase = .use h l) : c.at? h = some (c.arg, l) := by
  simp only [at?, hphase, if_true]

theorem Call.at?_of_ne (hphase : c.phase = .use h l) (hne : h' ≠ h) : c.at? h' = none := by
  simp only [at?, hphase, if_neg hne.symm]

theorem Call.at?_of_searching (hphase : c.phase = .look ∨ c.phase = .create) : c.at? h = none := by
  rcases hphase with hphase | hphase <;> simp only [at?, hphase]

theorem users_elsewhere (hcalls : s.calls.Perm (c :: rest)) (hat : c.at? h = none) :
    s.users h = (rest.filterMap (Call.at? h) : List (ω × L)) := by
  rw [State.users, Multiset.coe_eq_coe]
  refine (hcalls.filterMap _).trans ?_
  rw [List.filterMap_cons_none hat]

theorem users_use (hcalls : s.calls.Perm (c :: rest)) (hphase : c.phase = .use h l) :
    s.users h = (c.arg, l) ::ₘ (rest.filterMap (Call.at? h) : List (ω × L)) := by
  rw [State.users, Multiset.cons_coe, Multiset.coe_eq_coe]
  refine (hcalls.filterMap _).trans ?_
  rw [List.filterMap_cons_some (Call.at?_use hphase)]

end Users

/-- A call at work has the object of its key.  Every object and the calls at work on it are as the program keeps them,
and the call that made it is one of them. -/
structure Inv (shard : κ → σ) (I : O → Multiset (ω × L) → Prop) (s : State κ σ O ω L) : Prop where
  maps : s.maps.Ok shard
  calls : ∀ c ∈ s.calls, ∀ h l, c.phase = .use h l → s.maps.find shard c.key = some h
  objects : ∀ k h, s.maps.find shard k = some h → I (s.heap h) (s.users h) ∧ s.users h ≠ 0

namespace Inv

variable {I : O → Multiset (ω × L) → Prop}

omit [DecidableEq σ] in
/-- No call is at work on an object that is not made yet. -/
theorem users_made (hi : Inv shard I s) : s.users s.maps.made = 0 := by
  rw [State.users, Multiset.coe_eq_zero, List.filterMap_eq_nil_iff]
  intro c hc
  cases hphase : c.phase with
  | look => exact Call.at?_of_searching (.inl hphase)
  | create => exact Call.at?_of_searching (.inr hphase)
  | use h l =>
    have hlt := hi.maps.lt c.key h (hi.calls c hc h l hphase)
    exact Call.at?_of_ne hphase hlt.ne'

variable {c c' : Call κ ω L} {rest : List (Call κ ω L)}

omit [DecidableEq σ] in
/-- The calls have the objects of their keys after a step, if the entries of the maps stay and the call that took
the step has the object of its own key. -/
theorem calls_turned (hi : Inv shard I s) (hcalls : s.calls.Perm (c :: rest)) (hcalls' : s'.calls.Perm (c' :: rest))
    (hkeep : ∀ k h, s.maps.find shard k = some h → s'.maps.find shard k = some h)
    (hown : ∀ h l, c'.phase = .use h l → s'.maps.find shard c'.key = some h) :
    ∀ d ∈ s'.calls, ∀ h l, d.phase = .use h l → s'.maps.find shard d.key = some h := by
  intro d hd h l hphase
  rcases List.mem_cons.1 (hcalls'.mem_iff.1 hd) with rfl | hd
  · exact hown h l hphase
  · exact hkeep _ _ (hi.calls d (hcalls.mem_iff.2 (List.mem_cons_of_mem _ hd)) h l hphase)

theorem turned (hP : P.Invariant I) (hi : Inv shard I s) (hcalls : s.calls.Perm (c :: rest))
    (hcalls' : s'.calls.Perm (c' :: rest)) (hkey : c'.key = c.key) (harg : c'.arg = c.arg)
    (ht : Turned P shard s s' c c') : Inv shard I s' := by
  have hc : c ∈ s.calls := hcalls.mem_iff.2 List.mem_cons_self
  cases ht with
  | found h hphase hfind hmaps hheap hphase' =>
    refine ⟨hmaps ▸ hi.maps, hi.calls_turned hcalls hcalls' (fun k h hk => hmaps ▸ hk) ?_, fun k h₁ hk => ?_⟩
    · intro h₁ l₁ hl₁
      obtain ⟨rfl, -⟩ := Phase.use.inj (hphase'.symm.trans hl₁)
      rw [hmaps, hkey, hfind]
    · rw [hmaps] at hk
      rw [hheap]
      have hold := hi.objects k h₁ hk
      rw [users_elsewhere hcalls (Call.at?_of_searching hphase)] at hold
      rcases eq_or_ne h₁ h with rfl | hne
      · rw [users_use hcalls' hphase', harg]
        exact ⟨hP.start _ _ _ hold.1, Multiset.cons_ne_zero⟩
      · rw [users_elsewhere hcalls' (Call.at?_of_ne hphase' hne)]
        exact hold
  | missed hphase hmaps hheap hphase' =>
    refine ⟨hmaps ▸ hi.maps, hi.calls_turned hcalls hcalls' (fun k h hk => hmaps ▸ hk) ?_, fun k h₁ hk => ?_⟩
    · intro h₁ l₁ hl₁
      cases hphase'.symm.trans hl₁
    · rw [hmaps] at hk
      have hold := hi.objects k h₁ hk
      rw [users_elsewhere hcalls (Call.at?_of_searching (.inl hphase))] at hold
      rw [hheap, users_elsewhere hcalls' (Call.at?_of_searching (.inr hphase'))]
      exact hold
  | made e hphase hfind hmaps hheap hphase' =>
    have hat {h : ℕ} : c.at? h = none := Call.at?_of_searching (.inr hphase)
    refine ⟨hmaps ▸ hi.maps.insert hfind, hi.calls_turned hcalls hcalls' (fun k h hk => ?_) ?_, fun k h₁ hk => ?_⟩
    · -- the key of the new entry had none before
      rw [hmaps, Maps.find_insert, if_neg, hk]
      rintro rfl
      cases hfind.symm.trans hk
    · intro h₁ l₁ hl₁
      obtain ⟨rfl, -⟩ := Phase.use.inj (hphase'.symm.trans hl₁)
      rw [hmaps, hkey, Maps.find_insert, if_pos rfl]
    · rw [hmaps, Maps.find_insert] at hk
      rw [hheap]
      split_ifs at hk with heq
      · obtain rfl := Option.some.inj hk
        rw [Function.update_self, users_use hcalls' hphase', ← users_elsewhere hcalls hat, hi.users_made, harg]
        exact ⟨hP.start _ _ _ (hP.fresh e), Multiset.cons_ne_zero⟩
      · have hne : h₁ ≠ s.maps.made := (hi.maps.lt k h₁ hk).ne
        rw [Function.update_of_ne hne, users_elsewhere hcalls' (Call.at?_of_ne hphase' hne),
          ← users_elsewhere hcalls hat]
        exact hi.objects k h₁ hk
  | worked a h l o' l' hphase hstep hmaps hheap hphase' =>
    refine ⟨hmaps ▸ hi.maps, hi.calls_turned hcalls hcalls' (fun k h hk => hmaps ▸ hk) ?_, fun k h₁ hk => ?_⟩
    · intro h₁ l₁ hl₁
      obtain ⟨rfl, -⟩ := Phase.use.inj (hphase'.symm.trans hl₁)
      rw [hmaps, hkey]
      exact hi.calls c hc h l hphase
    · rw [hmaps] at hk
      rw [hheap]
      have hold := hi.objects k h₁ hk
      rcases eq_or_ne h₁ h with rfl | hne
      · rw [users_use hcalls hphase] at hold
        rw [Function.update_self, users_use hcalls' hphase', harg]
        exact ⟨hP.step _ a _ _ _ _ _ hold.1 hstep, Multiset.cons_ne_zero⟩
      · rw [users_elsewhere hcalls (Call.at?_of_ne hphase hne)] at hold
        rw [Function.update_of_ne hne, users_elsewhere hcalls' (Call.at?_of_ne hphase' hne)]
        exact hold

theorem next (hP : P.Invariant I) (hi : Inv shard I s) {b : Action κ ω ε α} (hs : s.next shard P b = some s') :
    Inv shard I s' := by
  obtain ⟨k, w, -, rfl⟩ | ⟨-, c, c', rest, hcalls, hcalls', hkey, harg, ht⟩ := next_cases hs
  · refine ⟨hi.maps, fun c hc h l hphase => ?_, fun k h hk => ?_⟩
    · rcases List.mem_append.1 hc with hc | hc
      · exact hi.calls c hc h l hphase
      · rw [List.mem_singleton.1 hc] at hphase
        cases hphase
    · rw [State.users, List.filterMap_append]
      exact (List.append_nil (s.calls.filterMap (Call.at? h))).symm ▸ hi.objects k h hk
  · exact hi.turned hP hcalls hcalls' hkey harg ht

end Inv

/-- In every state, one object for each key, and the invariant for each. -/
theorem inv_of_reachable {I : O → Multiset (ω × L) → Prop} (hP : P.Invariant I)
    (hs : (system shard P).Reachable s) : Inv shard I s := by
  refine System.Reachable.invariant ?_ (fun s b s' hi hstep => hi.next hP hstep) hs
  rintro s ⟨hmaps, hcalls⟩
  refine ⟨hmaps ▸ Maps.ok_new, ?_, fun k h hk => ?_⟩
  · rw [hcalls]
    exact fun c hc => by cases hc
  · rw [hmaps] at hk
    cases hk

/-! ## Whole runs -/

/-- The key and the argument of a call. -/
def Call.request (c : Call κ ω L) : κ × ω := (c.key, c.arg)

theorem request_next {b : Action κ ω ε α} (hs : s.next shard P b = some s') :
    (s'.calls.map Call.request).Perm (s.calls.map Call.request ++ b.call?.toList) := by
  obtain ⟨k, w, rfl, rfl⟩ | ⟨hnone, c, c', rest, hcalls, hcalls', hkey, harg, -⟩ := next_cases hs
  · rw [List.map_append]
    exact .refl _
  · have hsame : c'.request = c.request := Prod.ext hkey harg
    rw [hnone, Option.toList_none, List.append_nil]
    refine (hcalls'.map _).trans ?_
    rw [List.map_cons, hsame, ← List.map_cons]
    exact (hcalls.map _).symm

/-- The calls are those that have begun in the run. -/
theorem request_run {as : List (Action κ ω ε α)} (hrun : (system shard P).run s as = some s') :
    (s'.calls.map Call.request).Perm (s.calls.map Call.request ++ as.filterMap Action.call?) := by
  induction as generalizing s with
  | nil =>
    cases hrun
    rw [List.filterMap_nil, List.append_nil]
  | cons b as ih =>
    obtain ⟨s₁, hs, hrun⟩ := Option.bind_eq_some_iff.1 hrun
    refine (ih hrun).trans (((request_next hs).append_right _).trans ?_)
    rw [List.append_assoc, List.filterMap_cons]
    cases b.call? <;> exact .refl _

/-- All calls have found or made their object. -/
def State.Settled (s : State κ σ O ω L) : Prop := ∀ c ∈ s.calls, ∃ h l, c.phase = .use h l

/-- The arguments of the calls for a key. -/
def argsFor (k : κ) (requests : List (κ × ω)) : List ω := requests.filterMap fun r => if r.1 = k then some r.2 else none

section Settled

omit [DecidableEq σ]

variable {I : O → Multiset (ω × L) → Prop} (hi : Inv shard I s) (hsettled : s.Settled)

include hi hsettled

/-- The calls at work on the object of a key are the calls for the key. -/
theorem Inv.args_users {k : κ} {h : ℕ} (hk : s.maps.find shard k = some h) :
    (s.users h).map Prod.fst = (argsFor k (s.calls.map Call.request) : List ω) := by
  rw [State.users, Multiset.map_coe, argsFor, List.map_filterMap, List.filterMap_map]
  congr 1
  refine List.filterMap_congr fun c hc => ?_
  obtain ⟨h', l, hphase⟩ := hsettled c hc
  have hfind := hi.calls c hc h' l hphase
  show (c.at? h).map Prod.fst = if c.key = k then some c.arg else none
  by_cases hkey : c.key = k
  · rw [hkey, hk] at hfind
    obtain rfl := Option.some.inj hfind
    rw [if_pos hkey, Call.at?_use hphase]
    rfl
  · have hne : h ≠ h' := by
      rintro rfl
      exact hkey (hi.maps.inj _ _ _ hfind hk)
    rw [if_neg hkey, Call.at?_of_ne hphase hne]
    rfl

/-- There is an object for a key exactly if there was a call for it. -/
theorem Inv.find_eq_none_iff (k : κ) :
    s.maps.find shard k = none ↔ argsFor k (s.calls.map Call.request) = [] := by
  constructor
  · intro hnone
    rw [argsFor, List.filterMap_eq_nil_iff]
    intro r hr
    obtain ⟨c, hc, rfl⟩ := List.mem_map.1 hr
    obtain ⟨h, l, hphase⟩ := hsettled c hc
    refine if_neg fun hkey => ?_
    rw [← hkey] at hnone
    cases hnone.symm.trans (hi.calls c hc h l hphase)
  · intro hargs
    by_contra hsome
    obtain ⟨h, hk⟩ := Option.ne_none_iff_exists'.1 hsome
    have husers := hi.args_users hsettled hk
    rw [hargs, Multiset.coe_nil, Multiset.map_eq_zero] at husers
    exact (hi.objects k h hk).2 husers

end Settled

end GetOrCreate

end Land
