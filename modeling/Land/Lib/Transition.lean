import Mathlib.Tactic

/-!
# Transition systems

A `System` has initial states and a partial step function: `step s a` is the state after the action
`a`, and `none` when `a` is not enabled in `s`.  An interleaving of several parties is a list of
actions, each naming the party that moves.

`ReachableVia C` are the states reached by runs all of whose steps are taken at a state and with an
action that meet `C`; `Reachable` puts no condition on the steps.  An invariant is proved once, by
`ReachableVia.invariant`, from its initial and its step lemma.
-/

namespace Land

universe u v

/-- Initial states and labelled partial steps. -/
structure System (σ : Type u) (ι : Type v) where
  init : σ → Prop
  step : σ → ι → Option σ

namespace System

variable {σ : Type u} {ι : Type v} (S : System σ ι)

/-- The states reached by runs whose every step meets `C` at the state it is taken in. -/
inductive ReachableVia (C : σ → ι → Prop) : σ → Prop
  | init {s : σ} (h : S.init s) : ReachableVia C s
  | step {s s' : σ} (a : ι) (r : ReachableVia C s) (c : C s a) (h : S.step s a = some s') :
      ReachableVia C s'

/-- The states reached by some run. -/
def Reachable (s : σ) : Prop := S.ReachableVia (fun _ _ => True) s

/-- The states that some run from `s` ends in. -/
inductive Leads (s : σ) : σ → Prop
  | refl : Leads s s
  | step {t t' : σ} (a : ι) (r : Leads s t) (h : S.step t a = some t') : Leads s t'

/-- The state after a list of actions, if all of them are enabled in turn. -/
def run (s : σ) : List ι → Option σ
  | [] => some s
  | a :: as => (S.step s a).bind fun s' => run s' as

/-- The same, if each of them also meets `c`. -/
def runVia (c : σ → ι → Bool) (s : σ) : List ι → Option σ
  | [] => some s
  | a :: as => if c s a then (S.step s a).bind fun s' => runVia c s' as else none

variable {S}

theorem ReachableVia.runVia {C : σ → ι → Prop} {c : σ → ι → Bool} (hc : ∀ s a, c s a = true → C s a)
    {s s' : σ} (hs : S.ReachableVia C s) {as : List ι} (h : S.runVia c s as = some s') :
    S.ReachableVia C s' := by
  induction as generalizing s with
  | nil =>
    simp only [System.runVia, Option.some.injEq] at h
    exact h ▸ hs
  | cons a as ih =>
    simp only [System.runVia] at h
    split_ifs at h with ha
    obtain ⟨t, ht, h⟩ := Option.bind_eq_some_iff.1 h
    exact ih (.step a hs (hc s a ha) ht) h

theorem run_of_runVia {c : σ → ι → Bool} {s s' : σ} {as : List ι} (h : S.runVia c s as = some s') :
    S.run s as = some s' := by
  induction as generalizing s with
  | nil => exact h
  | cons a as ih =>
    simp only [System.runVia] at h
    split_ifs at h
    obtain ⟨t, ht, h⟩ := Option.bind_eq_some_iff.1 h
    exact Option.bind_eq_some_iff.2 ⟨t, ht, ih h⟩

theorem ReachableVia.mono {C C' : σ → ι → Prop} (hC : ∀ s a, C s a → C' s a) {s : σ}
    (h : S.ReachableVia C s) : S.ReachableVia C' s := by
  induction h with
  | init h => exact .init h
  | step a _ c h ih => exact .step a ih (hC _ _ c) h

theorem ReachableVia.reachable {C : σ → ι → Prop} {s : σ} (h : S.ReachableVia C s) :
    S.Reachable s :=
  h.mono fun _ _ _ => trivial

theorem Reachable.step {s s' : σ} (hs : S.Reachable s) (a : ι) (h : S.step s a = some s') :
    S.Reachable s' :=
  ReachableVia.step a hs trivial h

/-- A property that holds initially and that every permitted step keeps holds in every state
reached. -/
theorem ReachableVia.invariant {C : σ → ι → Prop} {I : σ → Prop} (hinit : ∀ s, S.init s → I s)
    (hstep : ∀ s a s', C s a → I s → S.step s a = some s' → I s') {s : σ}
    (h : S.ReachableVia C s) : I s := by
  induction h with
  | init h => exact hinit _ h
  | step a _ c h ih => exact hstep _ a _ c ih h

theorem Reachable.invariant {I : σ → Prop} (hinit : ∀ s, S.init s → I s)
    (hstep : ∀ s a s', I s → S.step s a = some s' → I s') {s : σ} (h : S.Reachable s) : I s :=
  ReachableVia.invariant hinit (fun s a s' _ => hstep s a s') h

theorem Leads.invariant {I : σ → Prop} {s t : σ} (hs : I s)
    (hstep : ∀ s a s', I s → S.step s a = some s' → I s') (h : S.Leads s t) : I t := by
  induction h with
  | refl => exact hs
  | step a _ h ih => exact hstep _ a _ ih h

theorem Leads.trans {s t u : σ} (h : S.Leads s t) (h' : S.Leads t u) : S.Leads s u :=
  h'.invariant h fun _ a _ hl hst => .step a hl hst

theorem Leads.head {s s' t : σ} {a : ι} (h : S.step s a = some s') (r : S.Leads s' t) :
    S.Leads s t := by
  induction r with
  | refl => exact .step a .refl h
  | step b _ hb ih => exact .step b ih hb

theorem Leads.run {s t : σ} {as : List ι} (h : S.run s as = some t) : S.Leads s t := by
  induction as generalizing s with
  | nil =>
    simp only [System.run, Option.some.injEq] at h
    exact h ▸ .refl
  | cons a as ih =>
    simp only [System.run, Option.bind_eq_some_iff] at h
    obtain ⟨s', hs', h⟩ := h
    exact .head hs' (ih h)

theorem Reachable.leads {s t : σ} (hs : S.Reachable s) (h : S.Leads s t) : S.Reachable t :=
  h.invariant hs fun _ a _ hr hst => hr.step a hst

theorem Reachable.run {s s' : σ} (hs : S.Reachable s) {as : List ι} (h : S.run s as = some s') :
    S.Reachable s' :=
  hs.leads (.run h)

end System

end Land
