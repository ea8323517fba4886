import Land.Lib.Transition
import Land.Leader.Tracker

/-!
# Startup of the tracker

`LeaderTracker::start` fills the buffer for one reading of the slot, and the tracker thread takes its
loop variables from a later reading of its own.  Between the accesses of either the subscriber may store
a larger slot.  The schedule is fixed; the timeouts of `start`, which only make it return an error, and
`running`, which only ends the loops, are left out.
-/

namespace Land.Leader

/-- Where `start` and the tracker thread are.  The thread counts the slot changes it has processed. -/
inductive Phase where
  | waiting
  | loading
  | populating (initialSlot : ℕ)
  | spawned (initialSlot : ℕ) (buffer : LeaderBuffer)
  | tracking (initialSlot firstSlot changes : ℕ) (t : Tracker)

/-- `SlotState` and the two threads. -/
structure Startup where
  slotState : ℕ
  phase : Phase

/-- The subscriber stores a slot, or the tracker makes an access. -/
inductive StartupAction where
  | advance (slot : ℕ)
  | access

namespace Startup

def initial : Startup := ⟨0, .waiting⟩

/-- The next access, with the computation that follows it. -/
def phaseAfter (cache : Option EpochSchedule) (slot : ℕ) : Phase → Phase
  | .waiting => if slot = 0 then .waiting else .loading
  | .loading => .populating slot
  | .populating initialSlot => .spawned initialSlot (updateBufferFromSchedule .new cache initialSlot)
  | .spawned initialSlot buffer =>
      if slot > 0 then .tracking initialSlot slot 0 ⟨buffer, slot, slot / slotsPerLeader⟩
      else .spawned initialSlot buffer
  | .tracking initialSlot firstSlot changes t =>
      .tracking initialSlot firstSlot (if slot ≠ t.lastSlot then changes + 1 else changes)
        (t.turn cache slot)

/-- Slots only increase. -/
def system (cache : Option EpochSchedule) : System Startup StartupAction where
  init s := s = initial
  step s
    | .advance slot => if s.slotState < slot then some { s with slotState := slot } else none
    | .access => some { s with phase := phaseAfter cache s.slotState s.phase }

end Startup

/-! ## The first slot change -/

/-- The buffer is what a rebuild for `slot` makes, and its entries start at the windows from `slot` on. -/
def Shows (cache : Option EpochSchedule) (b : LeaderBuffer) (slot : ℕ) : Prop :=
  Rebuilt cache b slot ∧ ∀ i : Fin leaderBufferSize,
    (b.entries i).startSlot = LeaderBuffer.baseSlot slot + i * slotsPerLeader

theorem Tracked.shows {cache : Option EpochSchedule} {b : LeaderBuffer} {slot : ℕ}
    (h : Tracked cache b slot) (hfit : Fits slot) : Shows cache b slot := by
  refine ⟨h.rebuilt hfit, fun i => ?_⟩
  rw [h.2 i]
  rfl

namespace Tracker

variable {cache : Option EpochSchedule} {initial first slot : ℕ}

/-- The tracker as it enters its main loop. -/
def handedOver (cache : Option EpochSchedule) (initial first : ℕ) : Tracker :=
  ⟨updateBufferFromSchedule .new cache initial, first, first / slotsPerLeader⟩

/-- A turn that passes leaders or stays in a window does not depend on the current slot of the buffer. -/
theorem turn_setCurrentSlot (b : LeaderBuffer) (hlt : first < slot) :
    turn cache ⟨b.setCurrentSlot first, first, first / slotsPerLeader⟩ slot =
      turn cache ⟨b, first, first / slotsPerLeader⟩ slot := by
  have hle : first / slotsPerLeader ≤ slot / slotsPerLeader := Nat.div_le_div_right hlt.le
  by_cases hidx : slot / slotsPerLeader = first / slotsPerLeader
  · rw [turn_of_same hidx hlt.ne', turn_of_same hidx hlt.ne']
    rfl
  · by_cases hmany : leaderBufferSize ≤ slot / slotsPerLeader - first / slotsPerLeader
    · rw [turn_of_many hidx hlt.ne' hmany, turn_of_many hidx hlt.ne' hmany]
      rfl
    · have hcount : slot / slotsPerLeader - first / slotsPerLeader ≠ 0 := by omega
      rw [turn_of_few hidx hlt.ne' (not_le.1 hmany), turn_of_few hidx hlt.ne' (not_le.1 hmany)]
      simp only [fifoShiftBuffer, LeaderBuffer.shiftMultiple, if_neg hcount]
      rfl

/-- If both readings are of one leader, the first change is processed right. -/
theorem shows_turn_of_eq (heq : first / slotsPerLeader = initial / slotsPerLeader)
    (hle : initial ≤ first) (hlt : first < slot) (hfit : Fits slot) :
    Shows cache ((handedOver cache initial first).turn cache slot).buffer slot := by
  have hinitial : Fits initial := by
    unfold Fits at hfit ⊢
    omega
  obtain ⟨-, hentries⟩ := tracked_updateBufferFromSchedule .new cache hinitial
  have htracked : Tracked cache
      ((updateBufferFromSchedule .new cache initial).setCurrentSlot first) first := by
    refine ⟨rfl, fun i => ?_⟩
    rw [LeaderBuffer.baseSlot, heq]
    exact hentries i
  rw [handedOver, ← turn_setCurrentSlot _ hlt]
  apply Tracked.shows _ hfit
  exact (tracked_turn_iff htracked rfl hfit).2 (Nat.div_le_div_right hlt.le)

/-- A change by at least ten leaders rebuilds the buffer. -/
theorem shows_turn_of_many
    (hmany : first / slotsPerLeader + leaderBufferSize ≤ slot / slotsPerLeader) (hfit : Fits slot) :
    Shows cache ((handedOver cache initial first).turn cache slot).buffer slot := by
  have hpos : 0 < leaderBufferSize := by decide
  have hslot : slot ≠ first := by
    rintro rfl
    omega
  have hidx : slot / slotsPerLeader ≠ first / slotsPerLeader := by omega
  have hpassed : leaderBufferSize ≤ slot / slotsPerLeader - first / slotsPerLeader := by omega
  rw [handedOver, turn_of_many hidx hslot hpassed]
  exact (tracked_updateBufferFromSchedule _ cache hfit).shows hfit

/-- Otherwise the first entry is one of the rebuild for the first reading, moved by the leaders passed
since the second. -/
theorem startSlot_turn (cache : Option EpochSchedule) (hle : initial ≤ first) (hlt : first < slot)
    (hfew : slot / slotsPerLeader < first / slotsPerLeader + leaderBufferSize) (hfit : Fits slot) :
    (((handedOver cache initial first).turn cache slot).buffer.entries ⟨0, by decide⟩).startSlot =
      LeaderBuffer.baseSlot initial +
        (slot / slotsPerLeader - first / slotsPerLeader) * slotsPerLeader := by
  have hinitial : Fits initial := by
    unfold Fits at hfit ⊢
    omega
  obtain ⟨-, hentries⟩ := tracked_updateBufferFromSchedule .new cache hinitial
  have hle' : first / slotsPerLeader ≤ slot / slotsPerLeader := Nat.div_le_div_right hlt.le
  by_cases hidx : slot / slotsPerLeader = first / slotsPerLeader
  · rw [handedOver, turn_of_same hidx hlt.ne', hidx, Nat.sub_self, Nat.zero_mul]
    exact congrArg LeaderEntry.startSlot (hentries _)
  · have hcount : 0 < slot / slotsPerLeader - first / slotsPerLeader := by omega
    have hold : 0 + (slot / slotsPerLeader - first / slotsPerLeader) < leaderBufferSize := by omega
    rw [handedOver, turn_of_few hidx hlt.ne' (lt_of_le_of_lt (Nat.zero_add _).ge hold)]
    refine (congrArg LeaderEntry.startSlot (fifoShiftBuffer_old _ cache slot hcount hold)).trans ?_
    refine (congrArg LeaderEntry.startSlot (hentries _)).trans ?_
    simp only [scheduledEntry, LeaderEntry.setStartSlot, Nat.zero_add]

/-- The first change is processed right exactly if the two readings are of one leader or the change
rebuilds the buffer. -/
theorem shows_turn_iff (cache : Option EpochSchedule) (hle : initial ≤ first) (hlt : first < slot)
    (hfit : Fits slot) :
    Shows cache ((handedOver cache initial first).turn cache slot).buffer slot ↔
      first / slotsPerLeader = initial / slotsPerLeader ∨
        first / slotsPerLeader + leaderBufferSize ≤ slot / slotsPerLeader := by
  constructor
  · intro h
    by_contra hcond
    obtain ⟨hne, hfew⟩ := not_or.1 hcond
    have hstart := startSlot_turn cache hle hlt (not_le.1 hfew) hfit
    rw [h.2 ⟨0, by decide⟩] at hstart
    have hle' : first / slotsPerLeader ≤ slot / slotsPerLeader := Nat.div_le_div_right hlt.le
    simp only [LeaderBuffer.baseSlot, slotsPerLeader] at *
    omega
  · rintro (heq | hmany)
    · exact shows_turn_of_eq heq hle hlt hfit
    · exact shows_turn_of_many hmany hfit

end Tracker

/-! ## Every interleaving -/

namespace Phase

/-- What the readings of the slot so far say about the phase, when the slot is now `slot`. -/
def Ok (cache : Option EpochSchedule) (slot : ℕ) : Phase → Prop
  | waiting | loading => True
  | populating initialSlot => initialSlot ≤ slot
  | spawned initialSlot buffer =>
      initialSlot ≤ slot ∧ buffer = updateBufferFromSchedule .new cache initialSlot
  | tracking initialSlot firstSlot changes t =>
      initialSlot ≤ firstSlot ∧ t.lastSlot ≤ slot ∧
      t.lastLeaderIdx = t.lastSlot / slotsPerLeader ∧
      (changes = 0 → t = Tracker.handedOver cache initialSlot firstSlot) ∧
      (changes = 1 → firstSlot < t.lastSlot ∧
        t = (Tracker.handedOver cache initialSlot firstSlot).turn cache t.lastSlot)

variable {cache : Option EpochSchedule} {slot : ℕ}

/-- A larger slot leaves the phase as it is. -/
theorem Ok.mono {phase : Phase} {slot' : ℕ} (h : phase.Ok cache slot) (hle : slot ≤ slot') :
    phase.Ok cache slot' := by
  cases phase with
  | waiting | loading => trivial
  | populating initialSlot => exact le_trans h hle
  | spawned initialSlot buffer => exact ⟨le_trans h.1 hle, h.2⟩
  | tracking initialSlot firstSlot changes t => exact ⟨h.1, le_trans h.2.1 hle, h.2.2⟩

/-- A turn of the main loop. -/
theorem Ok.turn {initialSlot firstSlot changes : ℕ} {t : Tracker}
    (h : (tracking initialSlot firstSlot changes t).Ok cache slot) :
    (Startup.phaseAfter cache slot (tracking initialSlot firstSlot changes t)).Ok cache slot := by
  obtain ⟨hle, hlast, hvar, hzero, hone⟩ := h
  simp only [Startup.phaseAfter]
  by_cases hslot : slot = t.lastSlot
  · have hturn : t.turn cache slot = t := by
      rw [Tracker.turn, if_neg (not_not.2 hslot)]
    rw [hturn, if_neg (not_not.2 hslot)]
    exact ⟨hle, hlast, hvar, hzero, hone⟩
  · obtain ⟨hlast', hvar'⟩ := Tracker.turn_vars cache hvar slot
    rw [if_pos hslot]
    refine ⟨hle, hlast'.le, hvar'.trans (by rw [hlast']), by omega, fun hchanges => ?_⟩
    -- the first change is a turn of the tracker as it was handed over
    have ht := hzero (by omega)
    rw [hlast', ← ht]
    refine ⟨lt_of_le_of_ne ?_ fun heq => hslot (heq.symm.trans ?_), rfl⟩
    · rw [ht] at hlast
      exact hlast
    · rw [ht]
      rfl

theorem Ok.phaseAfter {phase : Phase} (h : phase.Ok cache slot) :
    (Startup.phaseAfter cache slot phase).Ok cache slot := by
  cases phase with
  | waiting =>
    simp only [Startup.phaseAfter]
    split_ifs <;> trivial
  | loading => exact le_rfl
  | populating initialSlot => exact ⟨h, rfl⟩
  | spawned initialSlot buffer =>
    obtain ⟨hle, rfl⟩ := h
    simp only [Startup.phaseAfter]
    split_ifs
    · exact ⟨hle, le_rfl, rfl, fun _ => rfl, fun h => absurd h zero_ne_one⟩
    · exact ⟨hle, rfl⟩
  | tracking initialSlot firstSlot changes t => exact h.turn

end Phase

namespace Startup

variable {cache : Option EpochSchedule}

theorem ok_of_reachable {s : Startup} (h : (system cache).Reachable s) :
    s.phase.Ok cache s.slotState := by
  apply System.Reachable.invariant (I := fun s => s.phase.Ok cache s.slotState) _ _ h
  · rintro _ rfl
    trivial
  · intro s act s' hok hs
    cases act with
    | advance slot =>
      simp only [system, Option.ite_none_right_eq_some, Option.some.injEq] at hs
      obtain ⟨hlt, rfl⟩ := hs
      exact hok.mono hlt.le
    | access =>
      obtain rfl : _ = s' := Option.some.inj hs
      exact hok.phaseAfter

/-- Once the tracker thread has processed its first slot change, the buffer is the rebuild for that slot
exactly if the thread's first reading had the leader of the slot that `start` filled the buffer for, or
the change was one of at least ten leaders. -/
theorem shows_first_change_iff {s : Startup} (h : (system cache).Reachable s)
    {initialSlot firstSlot : ℕ} {t : Tracker} (hphase : s.phase = .tracking initialSlot firstSlot 1 t)
    (hfit : Fits t.lastSlot) :
    Shows cache t.buffer t.lastSlot ↔
      firstSlot / slotsPerLeader = initialSlot / slotsPerLeader ∨
        firstSlot / slotsPerLeader + leaderBufferSize ≤ t.lastSlot / slotsPerLeader := by
  have hok := ok_of_reachable h
  rw [hphase] at hok
  obtain ⟨hle, -, -, -, hone⟩ := hok
  obtain ⟨hlt, ht⟩ := hone rfl
  have hiff := Tracker.shows_turn_iff cache hle hlt hfit
  rwa [← ht] at hiff

/-- Both readings are of slot 8; the first change is to slot 13. -/
theorem shows_first_change_iff_eight : ∃ t, (system (some sampleSchedule)).run initial
      [.advance 8, .access, .access, .access, .access, .advance 13, .access] =
        some ⟨13, .tracking 8 8 1 t⟩ ∧ Shows (some sampleSchedule) t.buffer 13 := by
  have hrun : (system (some sampleSchedule)).run initial
      [.advance 8, .access, .access, .access, .access, .advance 13, .access] = some _ := rfl
  have hreach : (system (some sampleSchedule)).Reachable _ :=
    System.Reachable.run (.init rfl) hrun
  refine ⟨_, hrun, (shows_first_change_iff hreach rfl ?_).2 (.inl rfl)⟩
  exact (show (13 : ℕ) + leaderBufferSize * slotsPerLeader < 2 ^ 64 by decide)

/-- `start` fills the buffer for slot 8, the thread reads slot 12 first and processes slot 16: the first
entry is that of slot 12. -/
theorem not_shows_first_change : ∃ t, (system (some sampleSchedule)).run initial
      [.advance 8, .access, .access, .access, .advance 12, .access, .advance 16, .access] =
        some ⟨16, .tracking 8 12 1 t⟩ ∧
      (t.buffer.entries ⟨0, by decide⟩).startSlot = 12 ∧ ¬ Shows (some sampleSchedule) t.buffer 16 := by
  refine ⟨_, rfl, rfl, fun h => ?_⟩
  exact absurd (h.2 ⟨0, by decide⟩) (by decide)

end Startup

end Land.Leader
