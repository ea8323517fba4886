import Land.Quic.Pool

/-!
# Eviction

`evict_and_allocate` takes the first failed or dead slot, and otherwise the slot that has been idle longest,
ready or not.  So a working connection is lost to one that is still connecting whenever it has been idle for
longer.
-/

namespace Land.Quic.ConnectionPool

variable (p : ConnectionPool)

/-- The slot `i` was active before the slot `j`, or at the same time and is in front of it. -/
def Older (i j : SlotIdx) : Prop :=
  (p.slots i).lastActivity < (p.slots j).lastActivity ∨
    (p.slots i).lastActivity = (p.slots j).lastActivity ∧ i < j

instance (i j : SlotIdx) : Decidable (p.Older i j) := inferInstanceAs (Decidable (_ ∨ _ ∧ _))

/-- The slot that a new connection should replace: a failed or dead one if there is one, otherwise the least
recently active one that is not ready, and a ready one only if all are. -/
structure SparesReady (idx : SlotIdx) : Prop where
  down : (∃ j, (p.slots j).state.Down) → (p.slots idx).state.Down
  notReady : (∀ j, ¬ (p.slots j).state.Down) → (∃ j, (p.slots j).state ≠ .ready) →
    (p.slots idx).state ≠ .ready ∧
      ∀ j, (p.slots j).state ≠ .ready → (p.slots idx).lastActivity ≤ (p.slots j).lastActivity
  ready : (∀ j, (p.slots j).state = .ready) → ∀ j, (p.slots idx).lastActivity ≤ (p.slots j).lastActivity

/-- The slots of the pool are in use. -/
def Full : Prop := ∀ idx, (p.slots idx).occupied = true

variable {p}

/-! ### The scan -/

theorem down_oldest (hfull : p.Full) {l : List SlotIdx} (h : ∃ j ∈ l, (p.slots j).state.Down) (i : SlotIdx)
    (time : ℕ) : (p.slots (p.oldest l i time)).state.Down := by
  induction l generalizing i time with
  | nil =>
    obtain ⟨j, hj, -⟩ := h
    cases hj
  | cons k l ih =>
    simp only [oldest, hfull k, if_true]
    split_ifs with hdown
    · exact hdown
    all_goals
      obtain ⟨j, hj, hjdown⟩ := h
      refine ih ⟨j, (List.mem_cons.1 hj).resolve_left ?_, hjdown⟩ _ _
      rintro rfl
      exact hdown hjdown

/-- Without a failed or dead slot, the scan of slots in order keeps the one it begins with, or takes one that
is older than all others. -/
theorem oldest_of_not_down (hfull : p.Full) (hdown : ∀ j, ¬ (p.slots j).state.Down) {l : List SlotIdx}
    (hl : l.Pairwise (· < ·)) (i : SlotIdx) (time : ℕ) :
    p.oldest l i time = i ∧ (∀ j ∈ l, time ≤ (p.slots j).lastActivity) ∨
      (p.slots (p.oldest l i time)).lastActivity < time ∧
        ∀ j ∈ l, j ≠ p.oldest l i time → p.Older (p.oldest l i time) j := by
  induction l generalizing i time with
  | nil => exact .inl ⟨rfl, by simp⟩
  | cons k l ih =>
    obtain ⟨hk, hl⟩ := List.pairwise_cons.1 hl
    simp only [oldest, hfull k, hdown k, if_true, if_false]
    split_ifs with hlt
    · right
      rcases ih hl k (p.slots k).lastActivity with ⟨heq, hle⟩ | ⟨htime, holder⟩
      · rw [heq]
        refine ⟨hlt, fun j hj hne => ?_⟩
        have hj := (List.mem_cons.1 hj).resolve_left hne
        rcases (hle j hj).lt_or_eq with h | h
        · exact .inl h
        · exact .inr ⟨h, hk j hj⟩
      · refine ⟨htime.trans hlt, fun j hj hne => ?_⟩
        rcases List.mem_cons.1 hj with rfl | hj
        · exact .inl htime
        · exact holder j hj hne
    · rcases ih hl i time with ⟨heq, hle⟩ | ⟨htime, holder⟩
      · refine .inl ⟨heq, fun j hj => ?_⟩
        rcases List.mem_cons.1 hj with rfl | hj
        · exact Nat.not_lt.1 hlt
        · exact hle j hj
      · refine .inr ⟨htime, fun j hj hne => ?_⟩
        rcases List.mem_cons.1 hj with rfl | hj
        · exact .inl (htime.trans_le (Nat.not_lt.1 hlt))
        · exact holder j hj hne

/-! ### The slot that is replaced -/

theorem Older.lastActivity_le {i j : SlotIdx} (h : p.Older i j) :
    (p.slots i).lastActivity ≤ (p.slots j).lastActivity := by
  rcases h with h | ⟨h, -⟩
  · exact h.le
  · exact h.le

theorem Older.asymm {i j : SlotIdx} (h : p.Older i j) : ¬ p.Older j i := by
  rintro (h' | ⟨h', hlt'⟩)
  · exact Nat.not_lt.2 h.lastActivity_le h'
  · rcases h with h | ⟨-, hlt⟩
    · exact h.ne' h'
    · exact lt_asymm hlt hlt'

section Evict

variable (hfull : p.Full) (addr : SocketAddr) (now : ℕ)

include hfull

theorem down_evicted (h : ∃ j, (p.slots j).state.Down) :
    (p.slots (p.evictAndAllocate addr now).2).state.Down := by
  obtain ⟨j, hj⟩ := h
  exact down_oldest hfull ⟨j, List.mem_finRange j, hj⟩ _ _

theorem older_evicted (hdown : ∀ j, ¬ (p.slots j).state.Down) (htime : ∀ j, (p.slots j).lastActivity < 2 ^ 64)
    {j : SlotIdx} (hne : j ≠ (p.evictAndAllocate addr now).2) : p.Older (p.evictAndAllocate addr now).2 j := by
  rcases oldest_of_not_down hfull hdown (List.pairwise_lt_finRange maxPoolSize) 0 (2 ^ 64 - 1) with
    ⟨heq, hle⟩ | ⟨-, holder⟩
  · -- every slot has the largest time there is
    have hmax (j : SlotIdx) : (p.slots j).lastActivity = 2 ^ 64 - 1 :=
      Nat.le_antisymm (Nat.le_sub_one_of_lt (htime j)) (hle j (List.mem_finRange j))
    have hzero : (p.evictAndAllocate addr now).2 = 0 := heq
    rw [hzero] at hne ⊢
    exact .inr ⟨(hmax 0).trans (hmax j).symm, Fin.pos_iff_ne_zero.2 hne⟩
  · exact holder j (List.mem_finRange j) hne

/-- A full pool spares its ready connections if a failed or dead slot is there, if all are ready, or if some
slot that is not ready is older than all ready ones.  Every other slot is left as it was. -/
theorem sparesReady_iff (htime : ∀ j, (p.slots j).lastActivity < 2 ^ 64) :
    (p.evictAndAllocate addr now).1 =
      p.update (p.evictAndAllocate addr now).2 (fun slot => slot.allocate addr now) ∧
    (∀ j, j ≠ (p.evictAndAllocate addr now).2 → (p.evictAndAllocate addr now).1.slots j = p.slots j) ∧
    (p.SparesReady (p.evictAndAllocate addr now).2 ↔
      (∃ j, (p.slots j).state.Down) ∨ (∀ j, (p.slots j).state = .ready) ∨
      ∃ i, (p.slots i).state ≠ .ready ∧ ∀ j, (p.slots j).state = .ready → p.Older i j) := by
  refine ⟨rfl, fun j hj => slots_update_of_ne (fun slot => slot.allocate addr now) hj, ?_⟩
  by_cases hdown : ∃ j, (p.slots j).state.Down
  · refine iff_of_true ⟨fun _ => down_evicted hfull addr now hdown, fun h => ?_, fun h => ?_⟩ (.inl hdown)
    · obtain ⟨j, hj⟩ := hdown
      exact absurd hj (h j)
    · obtain ⟨j, hj⟩ := hdown
      rw [h j] at hj
      exact absurd hj (by decide)
  · have hdown' := not_exists.1 hdown
    have holder (j : SlotIdx) := older_evicted hfull addr now hdown' htime (j := j)
    have hleast (j : SlotIdx) :
        (p.slots (p.evictAndAllocate addr now).2).lastActivity ≤ (p.slots j).lastActivity := by
      by_cases hj : j = (p.evictAndAllocate addr now).2
      · rw [hj]
      · exact (holder j hj).lastActivity_le
    constructor
    · intro hspares
      refine .inr (or_iff_not_imp_left.2 fun hready => ?_)
      obtain ⟨hidx, -⟩ := hspares.notReady hdown' (not_forall.1 hready)
      refine ⟨_, hidx, fun j hj => holder j ?_⟩
      rintro rfl
      exact hidx hj
    · intro hcond
      refine ⟨fun h => absurd h hdown, fun _ hready => ⟨?_, fun j _ => hleast j⟩, fun _ => hleast⟩
      rcases hcond with h | h | ⟨i, hi, hready'⟩
      · exact absurd h hdown
      · obtain ⟨j, hj⟩ := hready
        exact absurd (h j) hj
      · -- a ready slot would be older than `i`, which is older than it
        intro hidx
        have hne : i ≠ (p.evictAndAllocate addr now).2 := by
          rintro rfl
          exact hi hidx
        exact (holder i hne).asymm (hready' _ hidx)

end Evict

/-- A full pool: the first slot is ready and has been idle longer than the others, which are in the given
state. -/
def busyPool (state : ConnectionState) : ConnectionPool where
  slots idx := { ConnectionSlot.default with
    occupied := true
    state := if idx.val = 0 then .ready else state
    lastActivity := if idx.val = 0 then 1 else 2 }
  dirty _ := false
  replaced := []

/-- A dead slot is taken. -/
theorem sparesReady_iff_dead :
    (busyPool .dead).SparesReady ((busyPool .dead).evictAndAllocate (.v4 1 1) 3).2 := by
  have htime (j : SlotIdx) : ((busyPool .dead).slots j).lastActivity < 2 ^ 64 := by
    simp only [busyPool]
    split_ifs <;> decide
  refine (sparesReady_iff (fun _ => rfl) (.v4 1 1) 3 htime).2.2.2 (.inl ⟨1, ?_⟩)
  decide

/-- A ready connection is lost, with 127 slots still connecting. -/
theorem not_sparesReady_connecting :
    ¬ (busyPool .connecting).SparesReady ((busyPool .connecting).evictAndAllocate (.v4 1 1) 3).2 := by
  have hidx : ((busyPool .connecting).evictAndAllocate (.v4 1 1) 3).2 = 0 := by decide +kernel
  rw [hidx]
  intro hspares
  refine (hspares.notReady (fun j => ?_) ⟨1, by decide⟩).1 rfl
  simp only [busyPool]
  split_ifs <;> decide

end Land.Quic.ConnectionPool
