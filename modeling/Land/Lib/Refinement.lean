import Land.Lib.Transition

/-!
# Refinement

A system refines a more abstract one when every step that it takes from a reachable state carries out, on
the abstract state, the events that the step shows.  A step that shows nothing leaves the abstract state
alone, and one that shows several events is several abstract steps.

The abstract system is itself a `System`, whose actions are the events.  Then the events of a whole run are a
run of the abstract system, and an invariant of the abstract system holds of every state reached.
-/

namespace Land.System

universe u v w x

variable {σ : Type u} {ι : Type v} {τ : Type w} {ε : Type x}

/-- The events of a run: those that each step shows at the state in which it is taken. -/
def events (S : System σ ι) (observe : σ → ι → List ε) (s : σ) : List ι → List ε
  | [] => []
  | a :: as => observe s a ++ (S.step s a).elim [] fun s' => events S observe s' as

/-- Each step of `S` is what it shows, seen through `abs`. -/
structure Refines (S : System σ ι) (A : System τ ε) (observe : σ → ι → List ε) (abs : σ → τ) :
    Prop where
  init : ∀ s, S.init s → A.init (abs s)
  step : ∀ s a s', S.Reachable s → S.step s a = some s' → A.run (abs s) (observe s a) = some (abs s')

theorem run_append (A : System τ ε) (t : τ) (es fs : List ε) :
    A.run t (es ++ fs) = (A.run t es).bind fun t' => A.run t' fs := by
  induction es generalizing t with
  | nil => rfl
  | cons e es ih =>
    simp only [List.cons_append, run]
    cases A.step t e with
    | none => rfl
    | some t' => exact ih t'

theorem run_singleton (A : System τ ε) (t : τ) (e : ε) : A.run t [e] = A.step t e := by
  simp only [run]
  cases A.step t e <;> rfl

variable {S : System σ ι} {A : System τ ε} {observe : σ → ι → List ε} {abs : σ → τ}

/-- A relation between the events so far and the state, along a run. -/
theorem run_history {P : List ε → τ → Prop} {t t' : τ} (hinit : P [] t)
    (hstep : ∀ es t e t', P es t → A.step t e = some t' → P (es ++ [e]) t') {es : List ε}
    (hrun : A.run t es = some t') : P es t' := by
  induction es using List.reverseRecOn generalizing t' with
  | nil =>
    simp only [System.run, Option.some.injEq] at hrun
    exact hrun ▸ hinit
  | append_singleton es e ih =>
    rw [run_append] at hrun
    obtain ⟨t₁, ht, hrun⟩ := Option.bind_eq_some_iff.1 hrun
    rw [run_singleton] at hrun
    exact hstep es t₁ e t' (ih ht) hrun

/-- A store that every step fills at the end and empties from the front: over a run, what was there and what
goes in is what comes out and what is there. -/
theorem conserved {α : Type} (store : τ → List α) {into out : ε → List α}
    (hstep : ∀ t e t', A.step t e = some t' → store t ++ into e = out e ++ store t') {t t' : τ} {es : List ε}
    (hrun : A.run t es = some t') : store t ++ es.flatMap into = es.flatMap out ++ store t' := by
  induction es generalizing t with
  | nil =>
    simp only [System.run, Option.some.injEq] at hrun
    rw [hrun]
    exact List.append_nil _
  | cons e es ih =>
    obtain ⟨t₁, ht, hrun⟩ := Option.bind_eq_some_iff.1 hrun
    rw [List.flatMap_cons, List.flatMap_cons, ← List.append_assoc, hstep t e t₁ ht, List.append_assoc,
      List.append_assoc, ih hrun]

/-- The events of a run are a run of the abstract system. -/
theorem Refines.run (h : S.Refines A observe abs) {s s' : σ} (hs : S.Reachable s) {as : List ι}
    (hrun : S.run s as = some s') : A.run (abs s) (S.events observe s as) = some (abs s') := by
  induction as generalizing s with
  | nil =>
    simp only [System.run, Option.some.injEq] at hrun
    rw [hrun]
    rfl
  | cons a as ih =>
    obtain ⟨t, ht, hrun⟩ := Option.bind_eq_some_iff.1 hrun
    simp only [events, ht, Option.elim_some, run_append, h.step s a t hs ht, Option.bind_some]
    exact ih (hs.step a ht) hrun

/-- What every step of a kind keeps and shows, a run of such steps keeps and shows. -/
theorem forall_events {C : ι → Prop} {J : σ → Prop} {P : ε → Prop}
    (hstep : ∀ s a s', C a → J s → S.step s a = some s' → J s' ∧ ∀ e ∈ observe s a, P e) {s s' : σ}
    (hs : J s) {as : List ι} (has : ∀ a ∈ as, C a) (hrun : S.run s as = some s') :
    J s' ∧ ∀ e ∈ S.events observe s as, P e := by
  induction as generalizing s with
  | nil =>
    simp only [System.run, Option.some.injEq] at hrun
    exact ⟨hrun ▸ hs, fun e he => absurd he List.not_mem_nil⟩
  | cons a as ih =>
    obtain ⟨t, ht, hrun⟩ := Option.bind_eq_some_iff.1 hrun
    obtain ⟨hJ, hP⟩ := hstep s a t (has a List.mem_cons_self) hs ht
    obtain ⟨hJ', hP'⟩ := ih hJ (fun b hb => has b (List.mem_cons_of_mem a hb)) hrun
    refine ⟨hJ', fun e he => ?_⟩
    simp only [events, ht, Option.elim_some, List.mem_append] at he
    exact he.elim (hP e) (hP' e)

theorem Refines.reachable (h : S.Refines A observe abs) {s : σ} (hs : S.Reachable s) :
    A.Reachable (abs s) := by
  unfold Reachable at hs
  induction hs with
  | init hinit => exact .init (h.init _ hinit)
  | step a hr _ hstep ih => exact Reachable.run ih (h.step _ a _ hr hstep)

end Land.System
