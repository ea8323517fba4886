import Land.Lib.Refinement

/-!
# A lossy feed

One side is offered values one after the other and passes each on through a queue with room for `cap`; a value
for which there is no room is dropped, and so is every value once the reader has left.  The writer notes the
value it passed on last.  The reader takes the values in order and shows the last one; the room of what it has
taken is released later.

Whatever the two sides do, the values taken are the first of those accepted, and these are among those offered, in
their order.  When nothing is on its way, the writer's note and what the reader shows agree.
-/

namespace Land

inductive FeedEvent (α : Type) where
  | offered (v : α)
  | accepted (v : α)
  /-- dropped: there is no room -/
  | full (v : α)
  /-- dropped: the reader has left -/
  | refused (v : α)
  | noted (v : α)
  | taken (v : α)
  | released
  | left

/-- The two sides and the queue between them. -/
structure LossyFeed (α β : Type) where
  /-- offered, and neither accepted nor dropped -/
  waiting : Option α
  /-- accepted, and not noted -/
  unnoted : Option α
  noted : β
  unread : List α
  /-- how many are taken and not released -/
  held : ℕ
  shown : β
  readerLeft : Bool

namespace FeedEvent

variable {α : Type}

@[simp] def offers : FeedEvent α → List α
  | offered v => [v]
  | _ => []

/-- The values that the writer is done with. -/
@[simp] def handles : FeedEvent α → List α
  | accepted v => [v]
  | full v => [v]
  | refused v => [v]
  | _ => []

@[simp] def accepts : FeedEvent α → List α
  | accepted v => [v]
  | _ => []

@[simp] def drops : FeedEvent α → List α
  | full v => [v]
  | refused v => [v]
  | _ => []

@[simp] def notes : FeedEvent α → List α
  | noted v => [v]
  | _ => []

@[simp] def takes : FeedEvent α → List α
  | taken v => [v]
  | _ => []

end FeedEvent

open scoped Classical in
/-- A lossy feed with room for `cap` values; of a value, `value v` is noted and shown. -/
noncomputable def lossyFeed {α β : Type} (value : α → β) (start : β) (cap : ℕ) :
    System (LossyFeed α β) (FeedEvent α) where
  init s := s = ⟨none, none, start, [], 0, start, false⟩
  step s
    | .offered v =>
        if s.waiting = none ∧ s.unnoted = none then some { s with waiting := some v } else none
    | .accepted v =>
        if s.waiting = some v ∧ s.unnoted = none ∧ s.unread.length + s.held < cap then
          some { s with waiting := none, unnoted := some v, unread := s.unread ++ [v] }
        else none
    | .full v =>
        if s.waiting = some v ∧ cap ≤ s.unread.length + s.held then some { s with waiting := none } else none
    | .refused v =>
        if s.waiting = some v ∧ s.readerLeft = true then some { s with waiting := none } else none
    | .noted v =>
        if s.unnoted = some v then some { s with unnoted := none, noted := value v } else none
    | .taken v =>
        if s.unread.head? = some v then
          some { s with unread := s.unread.tail, held := s.held + 1, shown := value v }
        else none
    | .released => some { s with held := 0 }
    | .left => some { s with readerLeft := true }

namespace LossyFeed

variable {α β : Type} {value : α → β} {start : β} {cap : ℕ} {s s' : LossyFeed α β}

/-! ## One event -/

section Enabled

variable {v : α}

theorem step_offered (hw : s.waiting = none) (hn : s.unnoted = none) :
    (lossyFeed value start cap).step s (.offered v) = some { s with waiting := some v } :=
  if_pos ⟨hw, hn⟩

theorem step_accepted (hw : s.waiting = some v) (hn : s.unnoted = none)
    (hroom : s.unread.length + s.held < cap) :
    (lossyFeed value start cap).step s (.accepted v) =
      some { s with waiting := none, unnoted := some v, unread := s.unread ++ [v] } :=
  if_pos ⟨hw, hn, hroom⟩

theorem step_full (hw : s.waiting = some v) (hroom : cap ≤ s.unread.length + s.held) :
    (lossyFeed value start cap).step s (.full v) = some { s with waiting := none } :=
  if_pos ⟨hw, hroom⟩

theorem step_refused (hw : s.waiting = some v) (hleft : s.readerLeft = true) :
    (lossyFeed value start cap).step s (.refused v) = some { s with waiting := none } :=
  if_pos ⟨hw, hleft⟩

theorem step_noted (hn : s.unnoted = some v) :
    (lossyFeed value start cap).step s (.noted v) = some { s with unnoted := none, noted := value v } :=
  if_pos hn

theorem step_taken {rest : List α} (hu : s.unread = v :: rest) :
    (lossyFeed value start cap).step s (.taken v) =
      some { s with unread := rest, held := s.held + 1, shown := value v } := by
  refine (if_pos (by rw [hu]; rfl)).trans ?_
  rw [hu]
  rfl

end Enabled

section Step

variable {e : FeedEvent α} (h : (lossyFeed value start cap).step s e = some s')

include h

/-- What one event does to the stores of the feed. -/
theorem step_stores :
    s.waiting.toList ++ e.offers = e.handles ++ s'.waiting.toList ∧
    s.unnoted.toList ++ e.accepts = e.notes ++ s'.unnoted.toList ∧
    s.unread ++ e.accepts = e.takes ++ s'.unread := by
  cases e with
  | offered v =>
    obtain ⟨⟨hw, -⟩, heq⟩ := Option.ite_none_right_eq_some.1 h
    cases heq
    simp [hw]
  | accepted v =>
    obtain ⟨⟨hw, hn, -⟩, heq⟩ := Option.ite_none_right_eq_some.1 h
    cases heq
    simp [hw, hn]
  | full v =>
    obtain ⟨⟨hw, -⟩, heq⟩ := Option.ite_none_right_eq_some.1 h
    cases heq
    simp [hw]
  | refused v =>
    obtain ⟨⟨hw, -⟩, heq⟩ := Option.ite_none_right_eq_some.1 h
    cases heq
    simp [hw]
  | noted v =>
    obtain ⟨hn, heq⟩ := Option.ite_none_right_eq_some.1 h
    cases heq
    simp [hn]
  | taken v =>
    obtain ⟨hhead, heq⟩ := Option.ite_none_right_eq_some.1 h
    cases heq
    obtain ⟨tail, htail⟩ := List.head?_eq_some_iff.1 hhead
    simp [htail]
  | released =>
    cases h
    exact ⟨List.append_nil _, List.append_nil _, List.append_nil _⟩
  | left =>
    cases h
    exact ⟨List.append_nil _, List.append_nil _, List.append_nil _⟩

/-- What is noted and what is shown. -/
theorem step_values :
    s'.noted = e.notes.getLast?.elim s.noted value ∧ s'.shown = e.takes.getLast?.elim s.shown value := by
  cases e with
  | released => cases h; exact ⟨rfl, rfl⟩
  | left => cases h; exact ⟨rfl, rfl⟩
  | _ =>
    obtain ⟨-, heq⟩ := Option.ite_none_right_eq_some.1 h
    cases heq
    exact ⟨rfl, rfl⟩

theorem step_room (hroom : s.unread.length + s.held ≤ cap) : s'.unread.length + s'.held ≤ cap := by
  cases e with
  | accepted v =>
    obtain ⟨⟨-, -, hlt⟩, heq⟩ := Option.ite_none_right_eq_some.1 h
    cases heq
    show (s.unread ++ [v]).length + s.held ≤ cap
    rw [List.length_append, List.length_singleton]
    omega
  | taken v =>
    obtain ⟨hhead, heq⟩ := Option.ite_none_right_eq_some.1 h
    cases heq
    obtain ⟨tail, htail⟩ := List.head?_eq_some_iff.1 hhead
    rw [htail, List.length_cons] at hroom
    rw [htail, List.tail_cons]
    show tail.length + (s.held + 1) ≤ cap
    omega
  | released =>
    cases h
    show s.unread.length + 0 ≤ cap
    omega
  | left => cases h; exact hroom
  | _ =>
    obtain ⟨-, heq⟩ := Option.ite_none_right_eq_some.1 h
    cases heq
    exact hroom

end Step

/-! ## A run -/

theorem getLast?_elim_append (l l' : List α) (b : β) :
    (l ++ l').getLast?.elim b value = l'.getLast?.elim (l.getLast?.elim b value) value := by
  rw [List.getLast?_append]
  cases l'.getLast? <;> rfl

section Run

variable {es : List (FeedEvent α)} (hrun : (lossyFeed value start cap).run s es = some s')

include hrun

theorem run_values : s'.noted = (es.flatMap FeedEvent.notes).getLast?.elim s.noted value ∧
    s'.shown = (es.flatMap FeedEvent.takes).getLast?.elim s.shown value := by
  induction es generalizing s with
  | nil =>
    simp only [System.run, Option.some.injEq] at hrun
    rw [hrun]
    exact ⟨rfl, rfl⟩
  | cons e es ih =>
    obtain ⟨t, ht, hrun⟩ := Option.bind_eq_some_iff.1 hrun
    obtain ⟨hnoted, hshown⟩ := step_values ht
    obtain ⟨ihn, ihs⟩ := ih hrun
    rw [List.flatMap_cons, List.flatMap_cons, getLast?_elim_append, getLast?_elim_append, ← hnoted, ← hshown]
    exact ⟨ihn, ihs⟩

theorem run_room (hroom : s.unread.length + s.held ≤ cap) : s'.unread.length + s'.held ≤ cap := by
  induction es generalizing s with
  | nil =>
    simp only [System.run, Option.some.injEq] at hrun
    rwa [← hrun]
  | cons e es ih =>
    obtain ⟨t, ht, hrun⟩ := Option.bind_eq_some_iff.1 hrun
    exact ih hrun (step_room ht hroom)

end Run

/-- What is accepted is among what the writer is done with, and is all of it if nothing was dropped. -/
theorem accepts_sublist_handles (es : List (FeedEvent α)) :
    (es.flatMap FeedEvent.accepts).Sublist (es.flatMap FeedEvent.handles) ∧
      (es.flatMap FeedEvent.drops = [] →
        es.flatMap FeedEvent.accepts = es.flatMap FeedEvent.handles) := by
  induction es with
  | nil => exact ⟨List.Sublist.refl _, fun _ => rfl⟩
  | cons e es ih =>
    obtain ⟨hsub, hall⟩ := ih
    have hone : e.accepts.Sublist e.handles ∧ (e.drops = [] → e.accepts = e.handles) := by
      cases e <;> simp
    simp only [List.flatMap_cons]
    refine ⟨hone.1.append hsub, fun hdrops => ?_⟩
    obtain ⟨hfirst, hrest⟩ := List.append_eq_nil_iff.1 hdrops
    rw [hone.2 hfirst, hall hrest]

/-- The whole run, from the start. -/
structure Delivered (value : α → β) (start : β) (cap : ℕ) (es : List (FeedEvent α)) (s : LossyFeed α β) :
    Prop where
  /-- each value offered is handled once, in order, except for the one at hand -/
  offered : es.flatMap FeedEvent.offers = es.flatMap FeedEvent.handles ++ s.waiting.toList
  accepted : (es.flatMap FeedEvent.accepts).Sublist (es.flatMap FeedEvent.handles)
  /-- the values taken are the first of those accepted -/
  taken : es.flatMap FeedEvent.accepts = es.flatMap FeedEvent.takes ++ s.unread
  shown : s.shown = (es.flatMap FeedEvent.takes).getLast?.elim start value
  room : s.unread.length + s.held ≤ cap
  /-- when nothing is on its way, both sides have the same value -/
  agreed : s.unnoted = none → s.unread = [] → s.noted = s.shown
  /-- without a drop nothing is lost -/
  lossless : es.flatMap FeedEvent.drops = [] →
    es.flatMap FeedEvent.offers = es.flatMap FeedEvent.takes ++ s.unread ++ s.waiting.toList

theorem delivered {es : List (FeedEvent α)} (hinit : (lossyFeed value start cap).init s)
    (hrun : (lossyFeed value start cap).run s es = some s') : Delivered value start cap es s' := by
  obtain rfl : s = ⟨none, none, start, [], 0, start, false⟩ := hinit
  have hoffered := System.conserved (fun s : LossyFeed α β => s.waiting.toList)
    (fun _ _ _ h => (step_stores h).1) hrun
  have hnotes := System.conserved (fun s : LossyFeed α β => s.unnoted.toList)
    (fun _ _ _ h => (step_stores h).2.1) hrun
  have htaken := System.conserved LossyFeed.unread (fun _ _ _ h => (step_stores h).2.2) hrun
  obtain ⟨hnoted, hshown⟩ := run_values hrun
  obtain ⟨hsub, hall⟩ := accepts_sublist_handles es
  simp only [Option.toList_none, List.nil_append] at hoffered hnotes htaken
  refine ⟨hoffered, hsub, htaken, hshown, run_room hrun (Nat.zero_le _), fun hn hu => ?_, fun hdrops => ?_⟩
  · rw [hn, Option.toList_none, List.append_nil] at hnotes
    rw [hu, List.append_nil] at htaken
    rw [hnoted, hshown, ← hnotes, htaken]
  · rw [hoffered, ← hall hdrops, htaken]

end LossyFeed

end Land
