import Land.Leader.Buffer

/-!
# The cached leader schedule

The lookups of `leader/src/schedule_fetcher.rs`.  `refresh` pushes one entry per slot of the epoch, so
a cached schedule carries that its array has this length; no lookup indexes past its end.
-/

namespace Land.Leader

/-- `EpochSchedule`. -/
structure EpochSchedule where
  epoch : ℕ
  epochStartSlot : ℕ
  slotsInEpoch : ℕ
  leaders : List LeaderEntry
  length_leaders : leaders.length = slotsInEpoch

namespace EpochSchedule

/-- The end of the epoch, `epoch_start_slot + slots_in_epoch`. -/
def maxSlot (c : EpochSchedule) : ℕ := u64 (c.epochStartSlot + c.slotsInEpoch)

theorem index_lt (c : EpochSchedule) {slot : ℕ} (h : slot < c.maxSlot) (h' : c.epochStartSlot ≤ slot) :
    slot - c.epochStartSlot < c.leaders.length := by
  have : c.maxSlot ≤ c.epochStartSlot + c.slotsInEpoch := Nat.mod_le _ _
  have := c.length_leaders
  omega

/-- `get_leader_at_slot`. -/
def getLeaderAtSlot (c : EpochSchedule) (slot : ℕ) : Option LeaderEntry :=
  if h : c.epochStartSlot ≤ slot ∧ slot < c.maxSlot then
    some (c.leaders.get ⟨slot - c.epochStartSlot, c.index_lt h.2 h.1⟩)
  else none

/-- The loop of `get_next_leaders_into` from `slot` on: the buffer, and the number of entries
written. -/
def nextLeadersInto (c : EpochSchedule) : ℕ → List LeaderEntry → List LeaderEntry × ℕ
  | _, [] => ([], 0)
  | slot, entry :: rest =>
      if hmax : slot < c.maxSlot then
        let r := c.nextLeadersInto (u64 (slot + slotsPerLeader)) rest
        if hstart : c.epochStartSlot ≤ slot then
          (c.leaders.get ⟨slot - c.epochStartSlot, c.index_lt hmax hstart⟩ :: r.1, r.2 + 1)
        else (entry :: r.1, r.2)
      else (entry :: rest, 0)

theorem getLeaderAtSlot_of_mem (c : EpochSchedule) {slot : ℕ}
    (h : c.epochStartSlot ≤ slot ∧ slot < c.maxSlot) :
    c.getLeaderAtSlot slot = c.leaders[slot - c.epochStartSlot]? := by
  rw [getLeaderAtSlot, dif_pos h]
  exact (List.getElem?_eq_getElem (c.index_lt h.2 h.1)).symm

theorem getLeaderAtSlot_of_maxSlot_le (c : EpochSchedule) {slot : ℕ} (h : c.maxSlot ≤ slot) :
    c.getLeaderAtSlot slot = none :=
  dif_neg fun h' => absurd h'.2 (not_lt.2 h)

theorem getLeaderAtSlot_of_lt (c : EpochSchedule) {slot : ℕ} (h : slot < c.epochStartSlot) :
    c.getLeaderAtSlot slot = none :=
  dif_neg fun h' => absurd h'.1 (not_le.2 h)

/-- The loop writes the leader of each slot that is in the epoch, and leaves the other entries. -/
theorem getElem?_nextLeadersInto (c : EpochSchedule) (buffer : List LeaderEntry) (slot i : ℕ)
    (hfit : slot + slotsPerLeader * buffer.length < 2 ^ 64) :
    (c.nextLeadersInto slot buffer).1[i]? = buffer[i]?.map fun e =>
      (c.getLeaderAtSlot (slot + i * slotsPerLeader)).getD e := by
  induction buffer generalizing slot i with
  | nil => rfl
  | cons entry rest ih =>
    simp only [List.length_cons, slotsPerLeader] at hfit
    unfold nextLeadersInto
    split_ifs with hmax hstart
    · cases i with
      | zero =>
        simp only [List.getElem?_cons_zero, Option.map_some, Nat.zero_mul, Nat.add_zero]
        rw [getLeaderAtSlot, dif_pos ⟨hstart, hmax⟩, Option.getD_some]
      | succ i =>
        rw [u64_of_lt (by simp only [slotsPerLeader]; omega), List.getElem?_cons_succ,
          List.getElem?_cons_succ, ih _ _ (by simp only [slotsPerLeader]; omega),
          Nat.add_one_mul, Nat.add_right_comm, Nat.add_assoc]
    · cases i with
      | zero =>
        simp only [List.getElem?_cons_zero, Option.map_some, Nat.zero_mul, Nat.add_zero]
        rw [c.getLeaderAtSlot_of_lt (not_le.1 hstart), Option.getD_none]
      | succ i =>
        rw [u64_of_lt (by simp only [slotsPerLeader]; omega), List.getElem?_cons_succ,
          List.getElem?_cons_succ, ih _ _ (by simp only [slotsPerLeader]; omega),
          Nat.add_one_mul, Nat.add_right_comm, Nat.add_assoc]
    · -- past the end of the epoch the loop stops, and no later slot has a leader
      have hnone : c.getLeaderAtSlot (slot + i * slotsPerLeader) = none :=
        c.getLeaderAtSlot_of_maxSlot_le (le_trans (not_lt.1 hmax) (Nat.le_add_right _ _))
      rw [hnone]
      exact Option.map_id'.symm

theorem length_nextLeadersInto (c : EpochSchedule) (slot : ℕ) (buffer : List LeaderEntry) :
    (c.nextLeadersInto slot buffer).1.length = buffer.length := by
  induction buffer generalizing slot with
  | nil => rfl
  | cons entry rest ih =>
    unfold nextLeadersInto
    split_ifs
    · exact congrArg (· + 1) (ih _)
    · exact congrArg (· + 1) (ih _)
    · rfl

end EpochSchedule

/-- `get_next_leaders_into`, for what the cache holds. -/
def getNextLeadersInto (cache : Option EpochSchedule) (startSlot : ℕ) (buffer : List LeaderEntry) :
    List LeaderEntry × ℕ :=
  match cache with
  | none => (buffer, 0)
  | some c => c.nextLeadersInto (LeaderBuffer.baseSlot startSlot) buffer

/-- The entry that the schedule has for the leader who starts at `slot`. -/
def scheduledEntry (cache : Option EpochSchedule) (slot : ℕ) : LeaderEntry :=
  ((cache.bind fun c => c.getLeaderAtSlot slot).getD .empty).setStartSlot slot

theorem length_getNextLeadersInto (cache : Option EpochSchedule) (startSlot : ℕ)
    (buffer : List LeaderEntry) :
    (getNextLeadersInto cache startSlot buffer).1.length = buffer.length := by
  cases cache with
  | none => rfl
  | some c => exact c.length_nextLeadersInto _ _

/-- Into empty entries go the scheduled leaders, one per leader window. -/
theorem getNextLeadersInto_replicate (cache : Option EpochSchedule) {startSlot n i : ℕ}
    (hi : i < n) (hfit : LeaderBuffer.baseSlot startSlot + slotsPerLeader * n < 2 ^ 64)
    {e : LeaderEntry}
    (he : (getNextLeadersInto cache startSlot (List.replicate n .empty)).1[i]? = some e) :
    e.setStartSlot (LeaderBuffer.baseSlot startSlot + i * slotsPerLeader) =
      scheduledEntry cache (LeaderBuffer.baseSlot startSlot + i * slotsPerLeader) := by
  cases cache with
  | none =>
    simp only [getNextLeadersInto, List.getElem?_replicate, if_pos hi, Option.some.injEq] at he
    rw [← he]
    rfl
  | some c =>
    rw [getNextLeadersInto, c.getElem?_nextLeadersInto _ _ _ (by rwa [List.length_replicate]),
      List.getElem?_replicate, if_pos hi, Option.map_some, Option.some.injEq] at he
    rw [← he]
    rfl

end Land.Leader
