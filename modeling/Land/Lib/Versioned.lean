import Land.Lib.Transition

/-!
# Memory behind a version counter

One writer stores into a memory word by word, between two increments of a version counter; any number of
readers load words without a lock, between two loads of the counter, and keep what they computed if the
counter was even and did not change.

A read is a program of loads (`Prog`), each of which may depend on the words loaded before.  What a
successful read computed is what its program computes on the contents after some prefix of the completed
writes, and these prefixes do not get shorter from one successful read of a reader to the next
(`exists_stamps`), as long as the counter does not come round during one read.
-/

namespace Land.Versioned

/-- A program that loads words of a memory. -/
inductive Prog (A W R : Type) where
  | done (r : R)
  | load (a : A) (next : W → Prog A W R)

namespace Prog

variable {A W R S : Type}

/-- What a program computes on a memory. -/
def eval (m : A → W) : Prog A W R → R
  | done r => r
  | load a next => (next (m a)).eval m

/-- The program followed by a function. -/
def map (f : R → S) : Prog A W R → Prog A W S
  | done r => done (f r)
  | load a next => load a fun w => (next w).map f

@[simp] theorem eval_map (f : R → S) (m : A → W) (p : Prog A W R) :
    (p.map f).eval m = f (p.eval m) := by
  induction p with
  | done r => rfl
  | load a next ih => exact ih (m a)

/-- Copy the words of `as` over `copy`, one after the other, and go on with the copy. -/
def copy [DecidableEq A] (copied : A → W) (f : (A → W) → R) : List A → Prog A W R
  | [] => done (f copied)
  | a :: as => load a fun w => copy (Function.update copied a w) f as

theorem eval_copy [DecidableEq A] (copied : A → W) (f : (A → W) → R) (as : List A) (m : A → W) :
    (copy copied f as).eval m = f fun a => if a ∈ as then m a else copied a := by
  induction as generalizing copied with
  | nil => simp [copy, eval]
  | cons b as ih =>
    simp only [copy, eval, ih]
    congr 1
    funext a
    by_cases hb : a = b
    · simp [hb]
    · simp [hb]

end Prog

/-- The words a memory starts with, the stores of a write and the program of a read. -/
structure Protocol (A W C Q R : Type) where
  initial : A → W
  /-- the write returns before it touches the version -/
  skips : C → Bool
  stores : C → (A → W) → List (A × W)
  program : Q → Prog A W R

/-- Where the writer is: it increments the version, stores, and increments the version again. -/
inductive WriterPc (A W C : Type) where
  | idle
  | loadBegin (c : C)
  | storeBegin (c : C) (v : ℕ)
  | writing (c : C) (rest : List (A × W))
  | storeEnd (c : C) (v : ℕ)

/-- Where a reader is; `start` is the number of writes begun when it loaded the version `v1`. -/
inductive ReaderPc (A W Q R : Type) where
  | idle
  | loadFirst (q : Q)
  | copying (q : Q) (v1 start : ℕ) (rest : Prog A W R)

/-- A reader, what its reads returned, and for each of them the number of writes begun at its first
load. -/
structure Reader (A W Q R : Type) where
  pc : ReaderPc A W Q R
  returned : List (Q × R)
  stamps : List ℕ

/-- The counter, the memory and the parties. -/
structure State (A W C Q R ι : Type) where
  version : ℕ
  memory : A → W
  writer : WriterPc A W C
  completed : List C
  readers : ι → Reader A W Q R

/-- What happens next. -/
inductive Action (C Q ι : Type) where
  | write (c : C)
  | writerStep
  | read (i : ι) (q : Q)
  | readerStep (i : ι)

section

variable {A W C Q R ι : Type} [DecidableEq A]

/-- One store. -/
def store (m : A → W) (p : A × W) : A → W := Function.update m p.1 p.2

/-- Stores whose value depends on the address only. -/
theorem foldl_store_map (f : A → W) (as : List A) (m : A → W) :
    (as.map fun a => (a, f a)).foldl store m = fun a => if a ∈ as then f a else m a := by
  induction as generalizing m with
  | nil => simp
  | cons b as ih =>
    rw [List.map_cons, List.foldl_cons, ih]
    funext a
    by_cases hb : a = b
    · simp [store, hb]
    · simp [store, hb]

namespace Protocol

variable (P : Protocol A W C Q R)

/-- The memory after a write. -/
def write (m : A → W) (c : C) : A → W := (P.stores c m).foldl store m

/-- The memory after some writes. -/
def contents (cs : List C) : A → W := cs.foldl P.write P.initial

/-- The writer is called. -/
def call (c : C) (s : State A W C Q R ι) : Option (State A W C Q R ι) :=
  match s.writer with
  | .idle => some (if P.skips c then s else { s with writer := .loadBegin c })
  | _ => none

/-- A step of the writer; the version is counted modulo `M`. -/
def writerStep (M : ℕ) (s : State A W C Q R ι) : Option (State A W C Q R ι) :=
  match s.writer with
  | .idle => none
  | .loadBegin c => some { s with writer := .storeBegin c s.version }
  | .storeBegin c v =>
      some { s with version := (v + 1) % M, writer := .writing c (P.stores c s.memory) }
  | .writing c (p :: rest) => some { s with memory := store s.memory p, writer := .writing c rest }
  | .writing c [] => some { s with writer := .storeEnd c s.version }
  | .storeEnd c v =>
      some { s with version := (v + 1) % M, writer := .idle, completed := s.completed ++ [c] }

end Protocol

/-- The write has incremented the version once. -/
def WriterPc.busy : WriterPc A W C → Bool
  | writing _ _ => true
  | storeEnd _ _ => true
  | _ => false

namespace State

/-- How many writes have begun. -/
def begun (s : State A W C Q R ι) : ℕ := s.completed.length + s.writer.busy.toNat

/-- The state after reader `i` moved. -/
def setReader [DecidableEq ι] (s : State A W C Q R ι) (i : ι) (r : Reader A W Q R) :
    State A W C Q R ι :=
  { s with readers := Function.update s.readers i r }

end State

namespace Protocol

variable (P : Protocol A W C Q R)

/-- A step of a reader. -/
def readerStep (s : State A W C Q R ι) (r : Reader A W Q R) : Option (Reader A W Q R) :=
  match r.pc with
  | .idle => none
  | .loadFirst q =>
      some { r with
        pc := if s.version % 2 = 1 then .idle else .copying q s.version s.begun (P.program q) }
  | .copying q v1 start (.load a next) => some { r with pc := .copying q v1 start (next (s.memory a)) }
  | .copying q v1 start (.done value) =>
      some (if s.version = v1 then
        { pc := .idle, returned := r.returned ++ [(q, value)], stamps := r.stamps ++ [start] }
      else { r with pc := .idle })

/-- One action. -/
def next [DecidableEq ι] (M : ℕ) (s : State A W C Q R ι) :
    Action C Q ι → Option (State A W C Q R ι)
  | .write c => P.call c s
  | .writerStep => P.writerStep M s
  | .read i q =>
      match (s.readers i).pc with
      | .idle => some (s.setReader i { s.readers i with pc := .loadFirst q })
      | _ => none
  | .readerStep i => (P.readerStep s (s.readers i)).map (s.setReader i)

/-- Nothing has been written or read. -/
def start : State A W C Q R ι where
  version := 0
  memory := P.initial
  writer := .idle
  completed := []
  readers := fun _ => { pc := .idle, returned := [], stamps := [] }

/-- The protocol under any interleaving of the writer and the readers. -/
def system (M : ℕ) (ι : Type) [DecidableEq ι] : System (State A W C Q R ι) (Action C Q ι) where
  init := fun s => s = P.start
  step := P.next M

end Protocol

/-- At the second load of a read fewer than `n` writes have begun since its first. -/
def State.fewWrites (n : ℕ) (s : State A W C Q R ι) : Action C Q ι → Bool
  | .readerStep i =>
      match (s.readers i).pc with
      | .copying _ _ start (.done _) => decide (s.begun - start < n)
      | _ => true
  | _ => true

/-! ## Invariant -/

variable (P : Protocol A W C Q R)

/-- What is in the memory at each point of the writer. -/
def WriterPc.Ok (version : ℕ) (memory : A → W) (completed : List C) : WriterPc A W C → Prop
  | idle => memory = P.contents completed
  | loadBegin _ => memory = P.contents completed
  | storeBegin _ v => v = version ∧ memory = P.contents completed
  | writing c rest => rest.foldl store memory = P.contents (completed ++ [c])
  | storeEnd c v => v = version ∧ memory = P.contents (completed ++ [c])

/-- A reader whose first load saw no write begin since computes what its program does on the memory. -/
def ReaderPc.Ok (M : ℕ) (s : State A W C Q R ι) (stamps : List ℕ) : ReaderPc A W Q R → Prop
  | copying q v1 start rest =>
      v1 = 2 * start % M ∧ start ≤ s.completed.length ∧ (∀ k ∈ stamps, k ≤ start) ∧
        (s.begun = start → rest.eval s.memory = (P.program q).eval s.memory)
  | _ => True

/-- Each result is that of the program on the contents at its stamp. -/
structure Reader.Ok (M : ℕ) (s : State A W C Q R ι) (r : Reader A W Q R) : Prop where
  logged : List.Forall₂
    (fun k p => p.2 = (P.program p.1).eval (P.contents (s.completed.take k))) r.stamps r.returned
  sorted : r.stamps.Pairwise (· ≤ ·)
  stamps_le : ∀ k ∈ r.stamps, k ≤ s.completed.length
  pc : r.pc.Ok P M s r.stamps

/-- The invariant of every run. -/
structure Inv (M : ℕ) (s : State A W C Q R ι) : Prop where
  version : s.version = (2 * s.completed.length + s.writer.busy.toNat) % M
  writer : s.writer.Ok P s.version s.memory s.completed
  readers : ∀ i, (s.readers i).Ok P M s

variable {P} {M : ℕ} {s s' : State A W C Q R ι}

theorem Protocol.contents_append (cs : List C) (c : C) :
    P.contents (cs ++ [c]) = P.write (P.contents cs) c := by
  simp [Protocol.contents]

theorem inv_start : Inv P M (P.start : State A W C Q R ι) := by
  refine ⟨?_, rfl, fun i => ⟨.nil, List.Pairwise.nil, nofun, trivial⟩⟩
  show 0 = 0 % M
  rw [Nat.zero_mod]

/-- A reader is not affected by the writer, unless a write begins that it will notice. -/
theorem Reader.Ok.frame {r : Reader A W Q R} (h : r.Ok P M s) (hc : s.completed <+: s'.completed)
    (hm : s'.begun ≤ s.completed.length → s'.begun = s.begun ∧ s'.memory = s.memory) :
    r.Ok P M s' := by
  obtain ⟨cs, hcs⟩ := hc
  have htake {k : ℕ} (hk : k ≤ s.completed.length) : s'.completed.take k = s.completed.take k := by
    rw [← hcs, List.take_append_of_le_length hk]
  have hlen : s.completed.length ≤ s'.completed.length := by
    rw [← hcs, List.length_append]
    exact Nat.le_add_right _ _
  refine ⟨?_, h.sorted, fun k hk => (h.stamps_le k hk).trans hlen, ?_⟩
  · refine (List.forall₂_iff_get.2 ⟨h.logged.length_eq, fun i h1 h2 => ?_⟩)
    rw [htake (h.stamps_le _ (List.get_mem _ _))]
    exact h.logged.get h1 h2
  · have hpc := h.pc
    cases hp : r.pc with
    | copying q v1 start rest =>
      rw [hp] at hpc
      obtain ⟨hv, hstart, hstamps, heval⟩ := hpc
      refine ⟨hv, hstart.trans hlen, hstamps, fun hbegun => ?_⟩
      obtain ⟨hb, hmem⟩ := hm (hbegun ▸ hstart)
      rw [hmem]
      exact heval (hb ▸ hbegun)
    | _ => trivial

/-- The counter after an increment. -/
theorem add_one_mod {v n : ℕ} (h : v = n % M) : (v + 1) % M = (n + 1) % M := by
  rw [h, Nat.mod_add_mod]

theorem Inv.call {c : C} (h : Inv P M s) (hs : P.call c s = some s') : Inv P M s' := by
  unfold Protocol.call at hs
  cases hw : s.writer with
  | idle =>
    simp only [hw, Option.some.injEq] at hs
    subst hs
    split_ifs
    · exact h
    · have hversion := h.version
      have hwriter := h.writer
      rw [hw] at hversion hwriter
      refine ⟨hversion, hwriter, fun i => (h.readers i).frame List.prefix_rfl fun _ => ⟨?_, rfl⟩⟩
      simp only [State.begun, hw]
      rfl
  | _ =>
    simp only [hw] at hs
    cases hs

theorem Inv.writerStep (h : Inv P M s) (hs : P.writerStep M s = some s') : Inv P M s' := by
  obtain ⟨version, memory, writer, completed, readers⟩ := s
  obtain ⟨hversion, hwriter, hreaders⟩ := h
  -- once a write has begun a reader that started before is not to succeed
  have noticed {memory' : A → W} {writer' : WriterPc A W C} {version' : ℕ}
      (hbusy : writer'.busy = true) (i : ι) :
      (readers i).Ok P M ⟨version', memory', writer', completed, readers⟩ := by
    refine (hreaders i).frame List.prefix_rfl fun hlt => ?_
    simp only [State.begun, hbusy] at hlt
    exact absurd hlt (Nat.not_succ_le_self _)
  cases writer with
  | idle => cases hs
  | loadBegin c =>
    cases hs
    exact ⟨hversion, ⟨rfl, hwriter⟩, fun i => (hreaders i).frame List.prefix_rfl fun _ => ⟨rfl, rfl⟩⟩
  | storeBegin c v =>
    cases hs
    obtain ⟨rfl, hmem⟩ := hwriter
    refine ⟨add_one_mod hversion, ?_, noticed rfl⟩
    show (P.stores c memory).foldl store memory = _
    rw [Protocol.contents_append, ← hmem]
    rfl
  | writing c rest =>
    cases rest with
    | nil =>
      cases hs
      exact ⟨hversion, ⟨rfl, hwriter⟩, noticed rfl⟩
    | cons p rest =>
      cases hs
      exact ⟨hversion, hwriter, noticed rfl⟩
  | storeEnd c v =>
    cases hs
    obtain ⟨rfl, hmem⟩ := hwriter
    have hlen : (completed ++ [c]).length = completed.length + 1 := by simp
    refine ⟨?_, hmem, fun i => (hreaders i).frame (List.prefix_append _ _) fun hlt => ?_⟩
    · rw [add_one_mod hversion]
      show (2 * completed.length + 1 + 1) % M = (2 * (completed ++ [c]).length + 0) % M
      rw [hlen]
      rfl
    · change (completed ++ [c]).length ≤ completed.length at hlt
      omega

theorem WriterPc.Ok.memory_eq {w : WriterPc A W C} {version : ℕ} {memory : A → W} {completed : List C}
    (h : w.Ok P version memory completed) (hbusy : w.busy = false) :
    memory = P.contents completed := by
  cases w with
  | idle => exact h
  | loadBegin c => exact h
  | storeBegin c v => exact h.2
  | writing c rest => cases hbusy
  | storeEnd c v => cases hbusy

/-- An even version means that no write has begun and not ended. -/
theorem Inv.not_busy (hM : 2 ∣ M) (h : Inv P M s) (heven : s.version % 2 ≠ 1) :
    s.writer.busy = false := by
  rw [h.version, Nat.mod_mod_of_dvd _ hM] at heven
  cases hb : s.writer.busy with
  | false => rfl
  | true =>
    rw [hb] at heven
    exact absurd (Nat.mul_add_mod 2 s.completed.length 1) heven

/-- The version comes back to a value only if no write has begun since. -/
theorem Inv.begun_eq {start : ℕ} (h : Inv P M s) (hv : s.version = 2 * start % M)
    (hstart : start ≤ s.completed.length) (hfew : 2 * (s.begun - start) < M) :
    s.completed.length = start ∧ s.writer.busy = false := by
  rw [h.version] at hv
  unfold State.begun at hfew
  have hdvd : M ∣ 2 * s.completed.length + s.writer.busy.toNat - 2 * start :=
    (Nat.modEq_iff_dvd' (by omega)).1 hv.symm
  have hzero := Nat.eq_zero_of_dvd_of_lt hdvd (by omega)
  refine ⟨by omega, ?_⟩
  cases hb : s.writer.busy with
  | false => rfl
  | true =>
    rw [hb] at hzero
    change 2 * s.completed.length + 1 - 2 * start = 0 at hzero
    omega

/-- A read that succeeds computed what its program does on the contents after all completed writes. -/
theorem Reader.Ok.value_eq (h : Inv P M s) {r : Reader A W Q R} (hr : r.Ok P M s) {q : Q}
    {v1 start : ℕ} {value : R} (hpc : r.pc = .copying q v1 start (.done value)) (hv : s.version = v1)
    (hfew : 2 * (s.begun - start) < M) :
    s.completed.length = start ∧ value = (P.program q).eval (P.contents s.completed) := by
  have hok := hr.pc
  rw [hpc] at hok
  obtain ⟨rfl, hstart, -, heval⟩ := hok
  obtain ⟨hlen, hbusy⟩ := h.begun_eq hv hstart hfew
  refine ⟨hlen, ?_⟩
  rw [← h.writer.memory_eq hbusy]
  refine heval ?_
  rw [State.begun, hbusy, hlen]
  rfl

theorem Reader.Ok.step (hM : 2 ∣ M) (h : Inv P M s) {r r' : Reader A W Q R} (hr : r.Ok P M s)
    (hfew : ∀ q v1 start value, r.pc = .copying q v1 start (.done value) →
      2 * (s.begun - start) < M)
    (hs : P.readerStep s r = some r') : r'.Ok P M s := by
  have hvalue : ∀ q v1 start value, r.pc = .copying q v1 start (.done value) → s.version = v1 →
      s.completed.length = start ∧ value = (P.program q).eval (P.contents s.completed) :=
    fun q v1 start value hpc hv => hr.value_eq h hpc hv (hfew q v1 start value hpc)
  obtain ⟨pc, returned, stamps⟩ := r
  obtain ⟨hlogged, hsorted, hle, hpc⟩ := hr
  cases pc with
  | idle => cases hs
  | loadFirst q =>
    cases hs
    refine ⟨hlogged, hsorted, hle, ?_⟩
    dsimp only
    split_ifs with hodd
    · trivial
    · have hbusy := h.not_busy hM hodd
      have hbegun : s.begun = s.completed.length := by
        rw [State.begun, hbusy]
        rfl
      refine ⟨?_, hbegun.le, fun k hk => hbegun ▸ hle k hk, fun _ => rfl⟩
      rw [h.version, hbegun, hbusy]
      rfl
  | copying q v1 start rest =>
    obtain ⟨rfl, hstart, hstamps, heval⟩ := hpc
    cases rest with
    | load a next =>
      cases hs
      exact ⟨hlogged, hsorted, hle, rfl, hstart, hstamps, heval⟩
    | done value =>
      cases hs
      split_ifs with hv
      · obtain ⟨hlen, hvalue⟩ := hvalue q _ start value rfl hv
        refine ⟨?_, ?_, ?_, trivial⟩
        · refine List.rel_append hlogged (.cons ?_ .nil)
          rw [← hlen, List.take_length]
          exact hvalue
        · rw [List.pairwise_append]
          refine ⟨hsorted, List.pairwise_singleton _ _, fun k hk k' hk' => ?_⟩
          rw [List.mem_singleton.1 hk']
          exact hstamps k hk
        · intro k hk
          rcases List.mem_append.1 hk with hk | hk
          · exact hle k hk
          · rw [List.mem_singleton.1 hk]
            exact hstart
      · exact ⟨hlogged, hsorted, hle, trivial⟩

variable [DecidableEq ι]

theorem Inv.setReader (h : Inv P M s) (i : ι) {r : Reader A W Q R} (hr : r.Ok P M s) :
    Inv P M (s.setReader i r) := by
  refine ⟨h.version, h.writer, fun j => ?_⟩
  have hok : (Function.update s.readers i r j).Ok P M s := by
    by_cases hj : j = i
    · rw [hj, Function.update_self]
      exact hr
    · rw [Function.update_of_ne hj]
      exact h.readers j
  exact hok.frame List.prefix_rfl fun _ => ⟨rfl, rfl⟩

theorem Inv.next {n : ℕ} (hM : M = 2 * n) (h : Inv P M s) {a : Action C Q ι}
    (hfew : s.fewWrites n a = true) (hs : P.next M s a = some s') : Inv P M s' := by
  cases a with
  | write c => exact h.call hs
  | writerStep => exact h.writerStep hs
  | read i q =>
    simp only [Protocol.next] at hs
    split at hs
    · cases hs
      have hr := h.readers i
      exact h.setReader i ⟨hr.logged, hr.sorted, hr.stamps_le, trivial⟩
    · cases hs
  | readerStep i =>
    obtain ⟨r, hr, rfl⟩ := Option.map_eq_some_iff.1 hs
    refine h.setReader i ((h.readers i).step ⟨n, hM⟩ h ?_ hr)
    intro q v1 start value hpc
    simp only [State.fewWrites, hpc, decide_eq_true_eq] at hfew
    omega

/-- Every result of a reader is that of its program on the contents after some of the completed writes,
and later results are not on contents of earlier writes. -/
theorem exists_stamps {n : ℕ} (hM : M = 2 * n)
    (hs : (P.system M ι).ReachableVia (fun s a => s.fewWrites n a = true) s) (i : ι) :
    ∃ ks : List ℕ, ks.Pairwise (· ≤ ·) ∧ (∀ k ∈ ks, k ≤ s.completed.length) ∧
      List.Forall₂ (fun k p => p.2 = (P.program p.1).eval (P.contents (s.completed.take k))) ks
        (s.readers i).returned := by
  have h : Inv P M s := by
    refine System.ReachableVia.invariant (I := Inv P M) ?_ ?_ hs
    · rintro s rfl
      exact inv_start
    · exact fun s a s' hfew h hst => h.next hM hfew hst
  exact ⟨_, (h.readers i).sorted, (h.readers i).stamps_le, (h.readers i).logged⟩

end

end Land.Versioned
