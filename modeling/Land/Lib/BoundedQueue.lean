import Land.Lib.Refinement

/-!
# The bounded queue

The abstract queue with room for `cap` values: values are pushed at the back, several at a time, and popped
from the front.  A refusal is an event as well: `full n` says that there is no room for `n` values, `empty` that
there is none to pop.  An implementation that refines this system is linearizable: each call takes effect, or is
refused, at one step of its own.
-/

namespace Land

/-- What can be observed of a queue. -/
inductive QueueEvent (α : Type) where
  | push (vs : List α)
  | pop (vs : List α)
  /-- the value at the front is looked at -/
  | front (v : α)
  | full (n : ℕ)
  | empty

namespace QueueEvent

variable {α : Type}

/-- The values that go in. -/
def pushes : QueueEvent α → List α
  | push vs => vs
  | _ => []

/-- The values that come out. -/
def pops : QueueEvent α → List α
  | pop vs => vs
  | _ => []

end QueueEvent

open scoped Classical in
/-- A queue with room for `cap` values. -/
noncomputable def boundedQueue (α : Type) (cap : ℕ) : System (List α) (QueueEvent α) where
  init q := q = []
  step q
    | .push vs => if q.length + vs.length ≤ cap then some (q ++ vs) else none
    | .pop vs => if vs <+: q then some (q.drop vs.length) else none
    | .front v => if q.head? = some v then some q else none
    | .full n => if cap < q.length + n then some q else none
    | .empty => if q = [] then some q else none

namespace BoundedQueue

variable {α : Type} {cap : ℕ} {q : List α}

theorem step_push {vs : List α} (h : q.length + vs.length ≤ cap) :
    (boundedQueue α cap).step q (.push vs) = some (q ++ vs) :=
  if_pos h

theorem step_pop {vs : List α} (h : vs <+: q) :
    (boundedQueue α cap).step q (.pop vs) = some (q.drop vs.length) :=
  if_pos h

theorem step_front {v : α} (h : q.head? = some v) : (boundedQueue α cap).step q (.front v) = some q :=
  if_pos h

theorem step_full {n : ℕ} (h : cap < q.length + n) : (boundedQueue α cap).step q (.full n) = some q :=
  if_pos h

theorem step_empty (h : q = []) : (boundedQueue α cap).step q .empty = some q :=
  if_pos h

/-- What was there and what goes in is what comes out and what is there. -/
theorem append_pushes {q' : List α} {e : QueueEvent α} (h : (boundedQueue α cap).step q e = some q') :
    q ++ e.pushes = e.pops ++ q' := by
  cases e with
  | push vs => exact Option.some.inj (Option.ite_none_right_eq_some.1 h).2
  | pop vs =>
    obtain ⟨⟨rest, rfl⟩, heq⟩ := Option.ite_none_right_eq_some.1 h
    rw [List.drop_left] at heq
    rw [← Option.some.inj heq]
    exact List.append_nil _
  | _ =>
    rw [← Option.some.inj (Option.ite_none_right_eq_some.1 h).2]
    exact List.append_nil _

/-- First in, first out, over a run. -/
theorem append_flatMap_pushes {q' : List α} {es : List (QueueEvent α)}
    (hrun : (boundedQueue α cap).run q es = some q') :
    q ++ es.flatMap QueueEvent.pushes = es.flatMap QueueEvent.pops ++ q' :=
  System.conserved id (fun _ _ _ h => append_pushes h) hrun

theorem length_le {q' : List α} {e : QueueEvent α} (h : q.length ≤ cap)
    (hs : (boundedQueue α cap).step q e = some q') : q'.length ≤ cap := by
  have happ := congrArg List.length (append_pushes hs)
  rw [List.length_append, List.length_append] at happ
  cases e with
  | push vs =>
    have hroom := (Option.ite_none_right_eq_some.1 hs).1
    simp only [QueueEvent.pushes, QueueEvent.pops, List.length_nil] at happ
    omega
  | _ =>
    simp only [QueueEvent.pushes, List.length_nil] at happ
    omega

theorem length_le_of_reachable (hq : (boundedQueue α cap).Reachable q) : q.length ≤ cap := by
  refine hq.invariant (I := fun q => q.length ≤ cap) (fun q h => ?_) fun _ _ _ h hs => length_le h hs
  rw [show q = [] from h]
  exact Nat.zero_le _

end BoundedQueue

end Land
