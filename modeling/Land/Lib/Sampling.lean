import Land.Lib.Versioned

/-!
# A client of a versioned memory

A client reads a memory behind a version counter again and again and computes with what its reads
return; a read that does not succeed is made again.  Each read is consistent by itself, but writes may
come between two reads.  `Client.invariant` is the rule for what a client computes: when a read returns,
it returns what its program computes on the contents after all writes completed so far.
-/

namespace Land.Versioned

/-- What a client does: `K` are its states, and `X` what comes with a step from elsewhere. -/
structure Client (Q R K X : Type) where
  /-- the read it waits for -/
  ask : K → Option Q
  /-- a step while it waits for no read -/
  call : K → X → Option K
  /-- the read has returned -/
  resume : K → X → R → K

/-- The memory with its writer, and the client, its only reader. -/
structure Joint (A W C Q R K : Type) where
  shared : State A W C Q R Unit
  control : K

/-- What happens next. -/
inductive ClientAction (C X : Type) where
  | write (c : C)
  | writerStep
  | client (x : X)

section

variable {A W C Q R K X ι : Type} [DecidableEq A]

/-- What the next step of a reader returns. -/
def Reader.result (s : State A W C Q R ι) (r : Reader A W Q R) : Option R :=
  match r.pc with
  | .copying _ v1 _ (.done value) => if s.version = v1 then some value else none
  | _ => none

/-- The read a reader makes. -/
def ReaderPc.query : ReaderPc A W Q R → Option Q
  | idle => none
  | loadFirst q => some q
  | copying q _ _ _ => some q

namespace Client

variable (P : Protocol A W C Q R) (cl : Client Q R K X)

/-- A step of the client that waits for the read `q`: it begins the read, or goes on with it. -/
def read (M : ℕ) (q : Q) (s : Joint A W C Q R K) (x : X) : Option (Joint A W C Q R K) :=
  match (s.shared.readers ()).pc with
  | .idle => (P.next M s.shared (.read () q)).map fun t => { s with shared := t }
  | _ =>
      (P.next M s.shared (.readerStep ())).map fun t =>
        ⟨t, match (s.shared.readers ()).result s.shared with
          | some value => cl.resume s.control x value
          | none => s.control⟩

/-- One action. -/
def next (M : ℕ) (s : Joint A W C Q R K) : ClientAction C X → Option (Joint A W C Q R K)
  | .write c => (P.next M s.shared (.write c)).map fun t => { s with shared := t }
  | .writerStep => (P.next M s.shared .writerStep).map fun t => { s with shared := t }
  | .client x =>
      match cl.ask s.control with
      | none => (cl.call s.control x).map fun k => { s with control := k }
      | some q => cl.read P M q s x

/-- The memory, its writer and the client, under any interleaving. -/
def system (M : ℕ) (k₀ : K) : System (Joint A W C Q R K) (ClientAction C X) where
  init := fun s => s = ⟨P.start, k₀⟩
  step := cl.next P M

end Client

/-- At the second load of a read fewer than `n` writes have begun since its first. -/
def Joint.fewWrites (n : ℕ) (s : Joint A W C Q R K) : ClientAction C X → Bool
  | .client _ => s.shared.fewWrites n (.readerStep ())
  | _ => true

/-- If a read of the client returns, it returns what `D` permits. -/
def Joint.Meets (D : K → R → Prop) (s : Joint A W C Q R K) : ClientAction C X → Prop
  | .client _ => ∀ value ∈ (s.shared.readers ()).result s.shared, D s.control value
  | _ => True

instance {D : K → R → Prop} [∀ k value, Decidable (D k value)] (s : Joint A W C Q R K)
    (a : ClientAction C X) : Decidable (s.Meets D a) :=
  match a with
  | .client _ => inferInstanceAs (Decidable (∀ value ∈ (s.shared.readers ()).result s.shared, _))
  | .write _ => isTrue trivial
  | .writerStep => isTrue trivial

omit [DecidableEq A] in
theorem Joint.meets_true (s : Joint A W C Q R K) (a : ClientAction C X) :
    s.Meets (fun _ _ => True) a := by
  cases a with
  | client x => exact fun _ _ => trivial
  | write c => trivial
  | writerStep => trivial

/-! ## What a step changes -/

variable {P : Protocol A W C Q R} {cl : Client Q R K X} {M : ℕ} {s s' : State A W C Q R ι}

omit [DecidableEq A] in
theorem Protocol.call_frame {c : C} (h : P.call c s = some s') :
    s'.readers = s.readers ∧ s'.completed = s.completed := by
  unfold Protocol.call at h
  split at h
  · cases h
    split_ifs <;> exact ⟨rfl, rfl⟩
  · cases h

theorem Protocol.writerStep_frame (h : P.writerStep M s = some s') :
    s'.readers = s.readers ∧
      (s'.completed = s.completed ∨ ∃ c, s'.completed = s.completed ++ [c]) := by
  unfold Protocol.writerStep at h
  split at h <;> cases h
  · exact ⟨rfl, .inl rfl⟩
  · exact ⟨rfl, .inl rfl⟩
  · exact ⟨rfl, .inl rfl⟩
  · exact ⟨rfl, .inl rfl⟩
  · exact ⟨rfl, .inr ⟨_, rfl⟩⟩

omit [DecidableEq A] in
/-- A reader that goes on makes the same read, unless it has returned. -/
theorem Protocol.query_readerStep {r r' : Reader A W Q R} (h : P.readerStep s r = some r') :
    r'.pc.query = none ∨ r'.pc.query = r.pc.query ∧ r.result s = none := by
  unfold Protocol.readerStep at h
  unfold Reader.result
  split at h <;> cases h
  · next hpc =>
    rw [hpc]
    dsimp only
    split_ifs
    · exact .inl rfl
    · exact .inr ⟨rfl, rfl⟩
  · next hpc =>
    rw [hpc]
    exact .inr ⟨rfl, rfl⟩
  · next hpc =>
    left
    split_ifs <;> rfl

/-- What a read returns. -/
theorem Inv.result {n : ℕ} (hM : M = 2 * n) (h : Inv P M s) {i : ι} {value : R}
    (hfew : s.fewWrites n (.readerStep i : Action C Q ι) = true)
    (hv : (s.readers i).result s = some value) :
    ∃ q, (s.readers i).pc.query = some q ∧ value = (P.program q).eval (P.contents s.completed) := by
  unfold Reader.result at hv
  split at hv
  · next q v1 start value' hpc =>
    split_ifs at hv with hversion
    cases hv
    simp only [State.fewWrites, hpc, decide_eq_true_eq] at hfew
    refine ⟨q, by rw [hpc]; rfl, ?_⟩
    exact ((h.readers i).value_eq h hpc hversion (by omega)).2
  · cases hv

/-! ## The rule -/

/-- What holds of the memory and of the client in every state. -/
structure Joint.Ok (P : Protocol A W C Q R) (cl : Client Q R K X) (M : ℕ) (J : List C → K → Prop)
    (s : Joint A W C Q R K) : Prop where
  inv : Inv P M s.shared
  query : ∀ q, (s.shared.readers ()).pc.query = some q → cl.ask s.control = some q
  control : J s.shared.completed s.control

variable {n : ℕ} {J : List C → K → Prop} {D : K → R → Prop} {t t' : Joint A W C Q R K}

theorem Joint.Ok.read (hM : M = 2 * n)
    (hresume : ∀ cs k x q, J cs k → cl.ask k = some q → D k ((P.program q).eval (P.contents cs)) →
      J cs (cl.resume k x ((P.program q).eval (P.contents cs))))
    (h : t.Ok P cl M J) {q : Q} {x : X} (hask : cl.ask t.control = some q)
    (hfew : t.shared.fewWrites n (.readerStep ()) = true)
    (hmeets : ∀ value ∈ (t.shared.readers ()).result t.shared, D t.control value)
    (hs : cl.read P M q t x = some t') : t'.Ok P cl M J := by
  unfold Client.read at hs
  split at hs
  · next hidle =>
    obtain ⟨s', hnext, rfl⟩ := Option.map_eq_some_iff.1 hs
    have hinv := h.inv.next hM rfl hnext
    simp only [Protocol.next, hidle, Option.some.injEq] at hnext
    subst hnext
    refine ⟨hinv, fun q' hq' => ?_, h.control⟩
    cases hq'
    exact hask
  · obtain ⟨s', hnext, rfl⟩ := Option.map_eq_some_iff.1 hs
    have hinv := h.inv.next hM hfew hnext
    obtain ⟨r, hr, rfl⟩ := Option.map_eq_some_iff.1 hnext
    have hreader : (t.shared.setReader () r).readers () = r := by
      simp only [State.setReader, Function.update_self]
    cases hresult : (t.shared.readers ()).result t.shared with
    | none =>
      refine ⟨hinv, fun q' hq' => ?_, h.control⟩
      rw [hreader] at hq'
      obtain hquery | ⟨hquery, -⟩ := Protocol.query_readerStep hr
      · cases hquery.symm.trans hq'
      · exact h.query q' (hquery.symm.trans hq')
    | some value =>
      obtain ⟨q', hq', rfl⟩ := h.inv.result hM hfew hresult
      obtain rfl : q' = q := Option.some.inj ((h.query q' hq').symm.trans hask)
      refine ⟨hinv, fun q'' hq'' => ?_, ?_⟩
      · -- the reader is idle again
        rw [hreader] at hq''
        obtain hquery | ⟨-, hnone⟩ := Protocol.query_readerStep hr
        · cases hquery.symm.trans hq''
        · cases hnone.symm.trans hresult
      · exact hresume _ _ x _ h.control hask (hmeets _ hresult)

/-- What holds of the client at first, and is kept by the writes, by the steps of the client between its
reads and by what its reads return, holds in every state; the reads may be restricted. -/
theorem Client.invariant {k₀ : K} (hM : M = 2 * n) (hinit : J [] k₀)
    (hwrite : ∀ cs c k, J cs k → J (cs ++ [c]) k)
    (hcall : ∀ cs k x k', J cs k → cl.call k x = some k' → J cs k')
    (hresume : ∀ cs k x q, J cs k → cl.ask k = some q → D k ((P.program q).eval (P.contents cs)) →
      J cs (cl.resume k x ((P.program q).eval (P.contents cs))))
    (ht : (cl.system P M k₀).ReachableVia (fun s a => s.fewWrites n a = true ∧ s.Meets D a) t) :
    J t.shared.completed t.control := by
  have hok : t.Ok P cl M J := by
    refine ht.invariant (I := Joint.Ok P cl M J) ?_ fun t a t' hcond h hs => ?_
    · rintro _ rfl
      exact ⟨inv_start, nofun, hinit⟩
    · cases a with
      | write c =>
        obtain ⟨s', hnext, rfl⟩ := Option.map_eq_some_iff.1 hs
        obtain ⟨hreaders, hcompleted⟩ := Protocol.call_frame hnext
        refine ⟨h.inv.next hM rfl hnext, ?_, ?_⟩
        · rw [hreaders]
          exact h.query
        · rw [hcompleted]
          exact h.control
      | writerStep =>
        obtain ⟨s', hnext, rfl⟩ := Option.map_eq_some_iff.1 hs
        obtain ⟨hreaders, hcompleted⟩ := Protocol.writerStep_frame hnext
        refine ⟨h.inv.next hM rfl hnext, ?_, ?_⟩
        · rw [hreaders]
          exact h.query
        · obtain hsame | ⟨c, hmore⟩ := hcompleted
          · rw [hsame]
            exact h.control
          · rw [hmore]
            exact hwrite _ c _ h.control
      | client x =>
        have hs : cl.next P M t (.client x) = some t' := hs
        simp only [Client.next] at hs
        split at hs
        · next hask =>
          obtain ⟨k', hk', rfl⟩ := Option.map_eq_some_iff.1 hs
          refine ⟨h.inv, fun q hq => ?_, hcall _ _ x _ h.control hk'⟩
          cases hask.symm.trans (h.query q hq)
        · next q hask => exact h.read hM hresume hask hcond.1 hcond.2 hs
  exact hok.control

end

end Land.Versioned
