import Land.Lib.Refinement
import Land.Lib.SequencedRing

/-!
# Ticket queues

A queue with several writers.  A writer draws the next tickets, and places a value on each of them in its own time;
the reader takes the values in the order of the tickets, and stops at a ticket without a value.  Nobody places more
than `cap` tickets ahead of the reader.  So values can be there that the reader does not get at yet, and "empty"
means that there is none at the next ticket.

`TicketQueue.History` is what the events of a run say of the state: the values popped are those of the first
tickets, and for each writer they are the first ones that it placed.

A `SeqRing` is a ticket queue whose values are in a ring of cells: `SeqRing.tickets`, and one lemma for each of its
moves.
-/

namespace Land

/-- What happens to a ticket queue. -/
inductive TicketEvent (ι α : Type) where
  /-- the next `k` tickets are the writer's -/
  | reserve (i : ι) (k : ℕ)
  /-- the writer places values on the tickets from `first` on -/
  | place (i : ι) (first : ℕ) (vs : List α)
  | pop (vs : List α)
  /-- the next value is seen -/
  | front (v : α)
  /-- the next `n` tickets are seen to have values -/
  | ready (n : ℕ)
  /-- `n` more tickets would be too many -/
  | full (n : ℕ)
  | empty
  deriving DecidableEq

namespace TicketEvent

variable {ι α : Type}

def pops : TicketEvent ι α → List α
  | pop vs => vs
  | _ => []

/-- What one writer places. -/
def placedBy [DecidableEq ι] (i : ι) : TicketEvent ι α → List α
  | place j _ vs => if j = i then vs else []
  | _ => []

end TicketEvent

/-- A ticket queue. -/
structure TicketQueue (ι α : Type) where
  reserved : ℕ
  owner : ℕ → Option ι
  placed : ℕ → Option α
  popped : ℕ

namespace TicketQueue

variable {ι α : Type}

def start (ι α : Type) : TicketQueue ι α := ⟨0, fun _ => none, fun _ => none, 0⟩

def reserve (q : TicketQueue ι α) (i : ι) (k : ℕ) : TicketQueue ι α :=
  { q with
    reserved := q.reserved + k
    owner := fun t => if q.reserved ≤ t ∧ t < q.reserved + k then some i else q.owner t }

def place (q : TicketQueue ι α) (first : ℕ) (vs : List α) : TicketQueue ι α :=
  { q with placed := fun t => if first ≤ t ∧ t < first + vs.length then vs[t - first]? else q.placed t }

/-- The writer may place `k` values from `first` on: it owns the tickets, they have no values, they are not too far
ahead, and it has placed nothing behind them. -/
structure MayPlace (q : TicketQueue ι α) (cap : ℕ) (i : ι) (first k : ℕ) : Prop where
  owner : ∀ t, first ≤ t → t < first + k → q.owner t = some i
  free : ∀ t, first ≤ t → t < first + k → q.placed t = none
  room : ∀ t, first ≤ t → t < first + k → t < q.popped + cap
  inOrder : ∀ t, q.owner t = some i → (q.placed t).isSome = true → t < first

end TicketQueue

open scoped Classical in
/-- Ticket queues on which nobody places more than `cap` tickets ahead. -/
noncomputable def ticketQueue (ι α : Type) (cap : ℕ) : System (TicketQueue ι α) (TicketEvent ι α) where
  init q := q = TicketQueue.start ι α
  step q
    | .reserve i k => some (q.reserve i k)
    | .place i first vs => if q.MayPlace cap i first vs.length then some (q.place first vs) else none
    | .pop vs =>
        if vs.map some = (List.range' q.popped vs.length).map q.placed then
          some { q with popped := q.popped + vs.length }
        else none
    | .front v => if q.placed q.popped = some v then some q else none
    | .ready n => if ∀ t, q.popped ≤ t → t < q.popped + n → (q.placed t).isSome = true then some q else none
    | .full n => if q.popped + cap < q.reserved + n then some q else none
    | .empty => if q.placed q.popped = none then some q else none

namespace TicketQueue

variable {ι α : Type} {cap : ℕ} {q q' : TicketQueue ι α}

theorem step_place {i : ι} {first : ℕ} {vs : List α} (h : q.MayPlace cap i first vs.length) :
    (ticketQueue ι α cap).step q (.place i first vs) = some (q.place first vs) :=
  if_pos h

theorem step_pop {vs : List α} (h : vs.map some = (List.range' q.popped vs.length).map q.placed) :
    (ticketQueue ι α cap).step q (.pop vs) = some { q with popped := q.popped + vs.length } :=
  if_pos h

theorem step_front {v : α} (h : q.placed q.popped = some v) :
    (ticketQueue ι α cap).step q (.front v) = some q :=
  if_pos h

theorem step_ready {n : ℕ} (h : ∀ t, q.popped ≤ t → t < q.popped + n → (q.placed t).isSome = true) :
    (ticketQueue ι α cap).step q (.ready n) = some q :=
  if_pos h

theorem step_full {n : ℕ} (h : q.popped + cap < q.reserved + n) :
    (ticketQueue ι α cap).step q (.full n) = some q :=
  if_pos h

theorem step_empty (h : q.placed q.popped = none) : (ticketQueue ι α cap).step q .empty = some q :=
  if_pos h

/-! ## Placing values -/

section Place

variable {i : ι} {first t : ℕ} {vs : List α}

theorem placed_place_of_mem (h1 : first ≤ t) (h2 : t < first + vs.length) :
    (q.place first vs).placed t = vs[t - first]? :=
  if_pos ⟨h1, h2⟩

theorem placed_place_of_not_mem (h : ¬ (first ≤ t ∧ t < first + vs.length)) :
    (q.place first vs).placed t = q.placed t :=
  if_neg h

theorem isSome_placed_place :
    ((q.place first vs).placed t).isSome = true ↔
      first ≤ t ∧ t < first + vs.length ∨
        ¬ (first ≤ t ∧ t < first + vs.length) ∧ (q.placed t).isSome = true := by
  by_cases ht : first ≤ t ∧ t < first + vs.length
  · rw [placed_place_of_mem ht.1 ht.2, List.getElem?_eq_getElem (by omega)]
    exact ⟨fun _ => .inl ht, fun _ => rfl⟩
  · rw [placed_place_of_not_mem ht]
    exact ⟨fun h => .inr ⟨ht, h⟩, fun h => (h.resolve_left ht).2⟩

/-- Tickets with values keep them. -/
theorem MayPlace.placed_place (h : q.MayPlace cap i first vs.length) (ht : (q.placed t).isSome = true) :
    (q.place first vs).placed t = q.placed t := by
  refine placed_place_of_not_mem fun hmem => ?_
  rw [h.free t hmem.1 hmem.2] at ht
  cases ht

theorem map_placed_place (q : TicketQueue ι α) (first : ℕ) (vs : List α) :
    (List.range' first vs.length).map (q.place first vs).placed = vs.map some := by
  refine List.ext_getElem? fun n => ?_
  rw [List.getElem?_map, List.getElem?_map]
  rcases Nat.lt_or_ge n vs.length with hlt | hge
  · rw [List.getElem?_range' hlt, one_mul, Option.map_some, placed_place_of_mem (by omega) (by omega),
      Nat.add_sub_cancel_left, List.getElem?_eq_getElem hlt]
    rfl
  · rw [List.getElem?_eq_none hge, List.getElem?_eq_none (by rw [List.length_range']; exact hge)]
    rfl

end Place

/-! ## The tickets of a writer -/

section Owned

variable [DecidableEq ι] {i : ι} {n k : ℕ}

/-- The tickets of a writer below `n` that have values. -/
def owned (q : TicketQueue ι α) (i : ι) (n : ℕ) : List ℕ :=
  (List.range n).filter fun t => decide (q.owner t = some i) && (q.placed t).isSome

theorem owned_congr (h : ∀ t, t < n → (q'.owner t = some i ∧ (q'.placed t).isSome = true ↔
      q.owner t = some i ∧ (q.placed t).isSome = true)) : q'.owned i n = q.owned i n := by
  refine List.filter_congr fun t ht => ?_
  rw [Bool.eq_iff_iff, Bool.and_eq_true, Bool.and_eq_true, decide_eq_true_eq, decide_eq_true_eq]
  exact h t (List.mem_range.1 ht)

theorem owned_add_of_none (h : ∀ t, n ≤ t → ¬ (q.owner t = some i ∧ (q.placed t).isSome = true)) :
    q.owned i (n + k) = q.owned i n := by
  have hnone : ((List.range k).map (n + ·)).filter
      (fun t => decide (q.owner t = some i) && (q.placed t).isSome) = [] := by
    rw [List.filter_eq_nil_iff]
    intro t ht
    obtain ⟨j, -, rfl⟩ := List.mem_map.1 ht
    rw [Bool.and_eq_true, decide_eq_true_eq]
    exact h _ (Nat.le_add_right n j)
  rw [owned, List.range_add, List.filter_append, hnone, List.append_nil]
  rfl

theorem owned_add_of_all
    (h : ∀ t, n ≤ t → t < n + k → q.owner t = some i ∧ (q.placed t).isSome = true) :
    q.owned i (n + k) = q.owned i n ++ List.range' n k := by
  have hall : ((List.range k).map (n + ·)).filter
      (fun t => decide (q.owner t = some i) && (q.placed t).isSome) = (List.range k).map (n + ·) := by
    rw [List.filter_eq_self]
    intro t ht
    obtain ⟨j, hj, rfl⟩ := List.mem_map.1 ht
    rw [Bool.and_eq_true, decide_eq_true_eq]
    exact h _ (Nat.le_add_right n j) (Nat.add_lt_add_left (List.mem_range.1 hj) n)
  rw [owned, List.range_add, List.filter_append, hall, List.range'_eq_map_range]
  rfl

variable {first : ℕ} {vs : List α}

theorem owned_place_of_ne (h : q.MayPlace cap i first vs.length) {j : ι} (hij : i ≠ j) :
    (q.place first vs).owned j n = q.owned j n := by
  refine owned_congr fun t _ => and_congr_right fun howner => ?_
  rw [isSome_placed_place]
  by_cases ht : first ≤ t ∧ t < first + vs.length
  · exact absurd (Option.some.inj ((h.owner t ht.1 ht.2).symm.trans howner)) hij
  · exact ⟨fun h => (h.resolve_left ht).2, fun h => .inr ⟨ht, h⟩⟩

/-- The new tickets are behind all those on which the writer has placed values. -/
theorem owned_place_self (h : q.MayPlace cap i first vs.length)
    (hn : ∀ t, first ≤ t → t < first + vs.length → t < n) :
    (q.place first vs).owned i n = q.owned i n ++ List.range' first vs.length := by
  rcases Nat.eq_zero_or_pos vs.length with hzero | hpos
  · rw [hzero, List.range'_zero, List.append_nil]
    refine owned_congr fun t _ => and_congr_right fun _ => ?_
    rw [placed_place_of_not_mem (by omega)]
  · have hlast := hn (first + vs.length - 1) (by omega) (by omega)
    obtain ⟨m, rfl⟩ : ∃ m, n = first + vs.length + m := Nat.exists_eq_add_of_le (by omega)
    have hbefore : (q.place first vs).owned i first = q.owned i (first + vs.length + m) := by
      rw [add_assoc, owned_add_of_none fun t ht hplaced => absurd (h.inOrder t hplaced.1 hplaced.2) (not_lt.2 ht)]
      refine owned_congr fun t ht => and_congr_right fun _ => ?_
      rw [placed_place_of_not_mem (by omega)]
    have hafter : ∀ t, first + vs.length ≤ t →
        ¬ ((q.place first vs).owner t = some i ∧ ((q.place first vs).placed t).isSome = true) := by
      rintro t ht ⟨howner, hsome⟩
      rw [placed_place_of_not_mem (by omega)] at hsome
      have := h.inOrder t howner hsome
      omega
    have hnew : ∀ t, first ≤ t → t < first + vs.length →
        (q.place first vs).owner t = some i ∧ ((q.place first vs).placed t).isSome = true :=
      fun t h1 h2 => ⟨h.owner t h1 h2, isSome_placed_place.2 (.inl ⟨h1, h2⟩)⟩
    rw [owned_add_of_none hafter, owned_add_of_all hnew, hbefore]

end Owned

/-! ## What the events of a run say -/

section History

variable [DecidableEq ι] {es : List (TicketEvent ι α)}

/-- The state is what the events have made it. -/
structure History (cap : ℕ) (es : List (TicketEvent ι α)) (q : TicketQueue ι α) : Prop where
  /-- the values popped are those of the first tickets -/
  pops : (es.flatMap TicketEvent.pops).map some = (List.range q.popped).map q.placed
  /-- the values that a writer placed, in order, are those on its tickets -/
  places : ∀ i, (es.flatMap (TicketEvent.placedBy i)).map some = (q.owned i q.reserved).map q.placed
  owner : ∀ t, (q.owner t).isSome = true ↔ t < q.reserved
  reserved : ∀ t, (q.placed t).isSome = true → t < q.reserved
  room : ∀ t, (q.placed t).isSome = true → t < q.popped + cap

theorem history_start : History cap [] (start ι α) where
  pops := rfl
  places _ := rfl
  owner t := by simp [start]
  reserved t h := by cases h
  room t h := by cases h

theorem History.placed_of_popped (h : History cap es q) {t : ℕ} (ht : t < q.popped) :
    (q.placed t).isSome = true := by
  have hmem : q.placed t ∈ (es.flatMap TicketEvent.pops).map some := by
    rw [h.pops]
    exact List.mem_map.2 ⟨t, List.mem_range.2 ht, rfl⟩
  obtain ⟨v, -, hv⟩ := List.mem_map.1 hmem
  rw [← hv]
  rfl

theorem History.popped_le (h : History cap es q) : q.popped ≤ q.reserved := by
  by_contra hlt
  exact absurd (h.reserved q.reserved (h.placed_of_popped (not_le.1 hlt))) (lt_irrefl _)

/-- An event that changes nothing. -/
theorem History.same (h : History cap es q) {e : TicketEvent ι α} (hpops : e.pops = [])
    (hplaces : ∀ i, e.placedBy i = []) : History cap (es ++ [e]) q where
  pops := by
    rw [List.flatMap_append, List.flatMap_singleton, hpops, List.append_nil]
    exact h.pops
  places i := by
    rw [List.flatMap_append, List.flatMap_singleton, hplaces, List.append_nil]
    exact h.places i
  owner := h.owner
  reserved := h.reserved
  room := h.room

theorem History.reserve (h : History cap es q) (i : ι) (k : ℕ) :
    History cap (es ++ [.reserve i k]) (q.reserve i k) := by
  have hsame : History cap (es ++ [.reserve i k]) q := h.same rfl fun _ => rfl
  refine ⟨hsame.pops, fun j => ?_, fun t => ?_, fun t ht => Nat.lt_add_right k (h.reserved t ht), h.room⟩
  · -- the new tickets have no values
    have hnone : ∀ t, q.reserved ≤ t → ¬ ((q.reserve i k).owner t = some j ∧ (q.placed t).isSome = true) :=
      fun t ht hplaced => absurd (h.reserved t hplaced.2) (not_lt.2 ht)
    have hold : (q.reserve i k).owned j q.reserved = q.owned j q.reserved := by
      refine owned_congr fun t ht => and_congr_left fun _ => ?_
      show (if q.reserved ≤ t ∧ t < q.reserved + k then some i else q.owner t) = some j ↔ _
      rw [if_neg (by omega)]
    rw [hsame.places j]
    exact congrArg (List.map q.placed) ((owned_add_of_none hnone).trans hold).symm
  · have howner := h.owner t
    show ((if q.reserved ≤ t ∧ t < q.reserved + k then some i else q.owner t).isSome = true ↔
      t < q.reserved + k)
    split_ifs with hnew
    · exact ⟨fun _ => hnew.2, fun _ => rfl⟩
    · rw [howner]
      omega

theorem History.place (h : History cap es q) {i : ι} {first : ℕ} {vs : List α}
    (hmay : q.MayPlace cap i first vs.length) : History cap (es ++ [.place i first vs]) (q.place first vs) := by
  have hlt {t : ℕ} (ht : first ≤ t ∧ t < first + vs.length) : t < q.reserved :=
    (h.owner t).1 (by rw [hmay.owner t ht.1 ht.2]; rfl)
  refine ⟨?_, fun j => ?_, h.owner, fun t ht => ?_, fun t ht => ?_⟩
  · -- what is popped has its value already
    rw [List.flatMap_append, List.flatMap_singleton]
    refine (congrArg (List.map some) (List.append_nil _)).trans (h.pops.trans (List.map_congr_left ?_))
    intro t ht
    exact (hmay.placed_place (h.placed_of_popped (List.mem_range.1 ht))).symm
  · have hold : (q.owned j q.reserved).map (q.place first vs).placed = (q.owned j q.reserved).map q.placed := by
      refine List.map_congr_left fun t ht => hmay.placed_place ?_
      exact (Bool.and_eq_true_iff.1 (List.mem_filter.1 ht).2).2
    rw [List.flatMap_append, List.flatMap_singleton, List.map_append, h.places j]
    show _ ++ List.map some (if i = j then vs else []) =
      ((q.place first vs).owned j q.reserved).map (q.place first vs).placed
    by_cases hij : i = j
    · subst hij
      rw [if_pos rfl, owned_place_self hmay fun t h1 h2 => hlt ⟨h1, h2⟩, List.map_append, hold, map_placed_place]
    · rw [if_neg hij, owned_place_of_ne hmay hij, hold]
      exact List.append_nil _
  · rcases isSome_placed_place.1 ht with hat | ⟨-, hsome⟩
    · exact hlt hat
    · exact h.reserved t hsome
  · rcases isSome_placed_place.1 ht with hat | ⟨-, hsome⟩
    · exact hmay.room t hat.1 hat.2
    · exact h.room t hsome

theorem History.pop (h : History cap es q) {vs : List α}
    (hvs : vs.map some = (List.range' q.popped vs.length).map q.placed) :
    History cap (es ++ [.pop vs]) { q with popped := q.popped + vs.length } where
  pops := by
    rw [List.flatMap_append, List.flatMap_singleton, List.map_append, h.pops, List.range_add, List.map_append]
    refine congrArg (_ ++ ·) ?_
    rw [← List.range'_eq_map_range]
    exact hvs
  places i := by
    rw [List.flatMap_append, List.flatMap_singleton]
    exact (congrArg (List.map some) (List.append_nil _)).trans (h.places i)
  owner := h.owner
  reserved := h.reserved
  room t ht := by
    have := h.room t ht
    show t < q.popped + vs.length + cap
    omega

theorem History.step (h : History cap es q) {e : TicketEvent ι α}
    (hs : (ticketQueue ι α cap).step q e = some q') : History cap (es ++ [e]) q' := by
  cases e with
  | reserve i k =>
    cases hs
    exact h.reserve i k
  | place i first vs =>
    obtain ⟨hmay, heq⟩ := Option.ite_none_right_eq_some.1 hs
    cases heq
    exact h.place hmay
  | pop vs =>
    obtain ⟨hvs, heq⟩ := Option.ite_none_right_eq_some.1 hs
    cases heq
    exact h.pop hvs
  | _ =>
    obtain ⟨-, heq⟩ := Option.ite_none_right_eq_some.1 hs
    cases heq
    exact h.same rfl fun _ => rfl

/-- Every run has its history. -/
theorem history_of_run (hrun : (ticketQueue ι α cap).run (start ι α) es = some q) : History cap es q :=
  System.run_history (P := History cap) history_start (fun _ _ _ _ h hs => h.step hs) hrun

/-- For each writer, what is popped of it are the first values that it placed, in order. -/
theorem History.popped_prefix (h : History cap es q) (i : ι) :
    ((List.range q.popped).filter fun t => decide (q.owner t = some i)).map q.placed <+:
      (es.flatMap (TicketEvent.placedBy i)).map some := by
  have hfilter : ((List.range q.popped).filter fun t => decide (q.owner t = some i)) = q.owned i q.popped := by
    refine List.filter_congr fun t ht => ?_
    rw [h.placed_of_popped (List.mem_range.1 ht), Bool.and_true]
  obtain ⟨m, hm⟩ := Nat.exists_eq_add_of_le h.popped_le
  rw [h.places i, hfilter, hm, owned, owned, List.range_add, List.filter_append, List.map_append]
  exact List.prefix_append _ _

end History

end TicketQueue

/-! ## A ring of cells is a ticket queue -/

namespace SeqRing

variable {ι α : Type} {cap : ℕ} {R : SeqRing ι α}

/-- The tickets are the sequences, and their values what is published. -/
def tickets (R : SeqRing ι α) : TicketQueue ι α where
  reserved := R.claims
  owner := R.claimant
  placed s := if R.published s then some (R.contents s) else none
  popped := R.released

theorem placed_of_published {s : ℕ} (h : R.published s = true) : R.tickets.placed s = some (R.contents s) :=
  if_pos h

theorem placed_of_unpublished {s : ℕ} (h : R.published s = false) : R.tickets.placed s = none := by
  show (if R.published s then some (R.contents s) else none) = none
  rw [h, if_neg Bool.false_ne_true]

theorem isSome_placed (s : ℕ) : (R.tickets.placed s).isSome = R.published s := by
  cases h : R.published s with
  | true => rw [placed_of_published h]; rfl
  | false => rw [placed_of_unpublished h]; rfl

theorem step_claim (i : ι) (k : ℕ) :
    (ticketQueue ι α cap).step R.tickets (.reserve i k) = some (R.claim i k).tickets := rfl

/-- What is not published may change. -/
theorem tickets_congr {R' : SeqRing ι α} (hclaims : R'.claims = R.claims) (hclaimant : R'.claimant = R.claimant)
    (hpublished : R'.published = R.published) (hreleased : R'.released = R.released)
    (hcontents : ∀ s, R.published s = true → R'.contents s = R.contents s) : R'.tickets = R.tickets := by
  unfold tickets
  rw [hclaims, hclaimant, hpublished, hreleased]
  congr 1
  funext s
  split_ifs with h
  · rw [hcontents s h]
  · rfl

theorem tickets_acquire {i : ι} {a k : ℕ} (h : ∀ s, a ≤ s → s < a + k → R.Claimed i s) :
    (R.acquire cap i a k).tickets = R.tickets := by
  refine tickets_congr rfl rfl rfl rfl fun s hs => if_neg ?_
  rintro ⟨h1, h2⟩
  rw [(h s h1 h2).2] at hs
  cases hs

theorem tickets_write {i : ι} {s : ℕ} (v : α) (h : R.Claimed i s) : (R.write cap i s v).tickets = R.tickets := by
  refine tickets_congr rfl rfl rfl rfl fun t ht => Function.update_of_ne ?_ _ _
  rintro rfl
  rw [h.2] at ht
  cases ht

/-- The producer has published nothing from `a` on. -/
def InOrder (R : SeqRing ι α) (i : ι) (a : ℕ) : Prop :=
  ∀ s, R.claimant s = some i → R.published s = true → s < a

/-- The others do not publish for the producer. -/
theorem Step.inOrder {R' : SeqRing ι α} {o : Option ι} (h : Step cap o R R') {i : ι} (ho : o ≠ some i) {a : ℕ}
    (hord : R.InOrder i a) : R'.InOrder i a := by
  intro s hclaim hpub
  cases h with
  | claim j k =>
    simp only [SeqRing.claim] at hclaim
    split_ifs at hclaim
    · exact absurd hclaim ho
    · exact hord s hclaim hpub
  | publish j b k h =>
    simp only [SeqRing.publish, Bool.or_eq_true, decide_eq_true_eq] at hpub
    rcases hpub with hpub | hnew
    · exact hord s hclaim hpub
    · exact absurd ((h s hnew.1 hnew.2).claimed.1.symm.trans hclaim) ho
  | _ => exact hord s hclaim hpub

theorem step_publish {i : ι} {a k : ℕ} (h : ∀ s, a ≤ s → s < a + k → R.Acquired cap i s) (hord : R.InOrder i a) :
    (ticketQueue ι α cap).step R.tickets (.place i a ((List.range' a k).map R.contents)) =
      some (R.publish a k).tickets := by
  have hlen : ((List.range' a k).map R.contents).length = k := by rw [List.length_map, List.length_range']
  have hmay : R.tickets.MayPlace cap i a ((List.range' a k).map R.contents).length := by
    rw [hlen]
    refine ⟨fun t h1 h2 => (h t h1 h2).claimed.1, fun t h1 h2 => placed_of_unpublished (h t h1 h2).claimed.2,
      fun t h1 h2 => (h t h1 h2).room, fun t howner hsome => hord t howner ?_⟩
    rwa [isSome_placed] at hsome
  rw [TicketQueue.step_place hmay, TicketQueue.place, hlen]
  unfold tickets
  congr 2
  funext t
  show _ = if (R.published t || decide (a ≤ t ∧ t < a + k)) then some (R.contents t) else none
  by_cases ht : a ≤ t ∧ t < a + k
  · rw [if_pos ht, decide_eq_true ht, Bool.or_true, if_pos rfl, List.getElem?_map,
      List.getElem?_range' (by omega), one_mul, Nat.add_sub_cancel' ht.1]
    rfl
  · rw [if_neg ht, decide_eq_false ht, Bool.or_false]

theorem Valid.drop_taken (hv : R.Valid cap) : R.taken.drop R.released =
    (List.range' R.released (R.taken.length - R.released)).map R.contents := by
  obtain ⟨m, hm⟩ := Nat.exists_eq_add_of_le hv.released_le
  have hall := hv.taken_eq
  rw [hm, List.range_add, List.map_append] at hall
  rw [hm, Nat.add_sub_cancel_left, List.range'_eq_map_range]
  nth_rewrite 1 [hall]
  exact List.drop_left' (by rw [List.length_map, List.length_range])

/-- Everything that was taken is released. -/
theorem step_release (hv : R.Valid cap) :
    (ticketQueue ι α cap).step R.tickets (.pop (R.taken.drop R.released)) =
      some (R.release R.taken.length).tickets := by
  have hle := hv.released_le
  have hlen : (R.taken.drop R.released).length = R.taken.length - R.released := List.length_drop
  have hvalues : (R.taken.drop R.released).map some =
      (List.range' R.released (R.taken.drop R.released).length).map R.tickets.placed := by
    rw [hlen, hv.drop_taken, List.map_map]
    refine List.map_congr_left fun t ht => ?_
    obtain ⟨k, hk, rfl⟩ := List.mem_range'.1 ht
    exact (placed_of_published (hv.taken_published _ (by omega))).symm
  have hpop : R.tickets.popped + (R.taken.drop R.released).length = R.taken.length := by
    rw [hlen]
    exact Nat.add_sub_cancel' hle
  rw [TicketQueue.step_pop hvalues, hpop]
  rfl

end SeqRing

end Land
