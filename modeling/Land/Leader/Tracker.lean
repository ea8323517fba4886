import Land.Leader.Schedule

/-!
# The leader tracker

The main loop of `LeaderTracker::busy_spin_loop` (`leader/src/tracker.rs`) over a fixed cached
schedule.  A turn either keeps the entries, shifts them, or rebuilds them, by the difference of the
leader indices; that difference saturates at zero, so a slot of an earlier leader changes nothing but
the loop variables.  `Tracked` says what the buffer is for, and a run keeps it exactly as long as the
leader index does not go down.
-/

namespace Land.Leader

/-- `update_buffer_from_schedule`. -/
def updateBufferFromSchedule (b : LeaderBuffer) (cache : Option EpochSchedule) (currentSlot : ℕ) :
    LeaderBuffer :=
  b.update currentSlot
    (getNextLeadersInto cache currentSlot (List.replicate leaderBufferSize .empty)).1

/-- `fifo_shift_buffer`. -/
def fifoShiftBuffer (b : LeaderBuffer) (cache : Option EpochSchedule)
    (currentSlot leadersPassed : ℕ) : LeaderBuffer :=
  let lookaheadSlot :=
    u64 ((currentSlot / slotsPerLeader + (leaderBufferSize - leadersPassed)) * slotsPerLeader)
  let count := min leadersPassed leaderBufferSize
  b.shiftMultiple leadersPassed
    (getNextLeadersInto cache lookaheadSlot (List.replicate count .empty)).1 currentSlot

/-- The buffer and the variables of the loop. -/
structure Tracker where
  buffer : LeaderBuffer
  lastSlot : ℕ
  lastLeaderIdx : ℕ

namespace Tracker

/-- The main loop is entered after a full rebuild for the slot the loop starts with. -/
def start (b : LeaderBuffer) (cache : Option EpochSchedule) (slot : ℕ) : Tracker where
  buffer := updateBufferFromSchedule b cache slot
  lastSlot := slot
  lastLeaderIdx := slot / slotsPerLeader

/-- A turn of the main loop that reads `currentSlot`. -/
def turn (cache : Option EpochSchedule) (t : Tracker) (currentSlot : ℕ) : Tracker :=
  if currentSlot ≠ t.lastSlot then
    let currentLeaderIdx := currentSlot / slotsPerLeader
    if currentLeaderIdx ≠ t.lastLeaderIdx then
      -- `saturating_sub`
      let leadersPassed := currentLeaderIdx - t.lastLeaderIdx
      if leadersPassed ≥ leaderBufferSize then
        ⟨updateBufferFromSchedule t.buffer cache currentSlot, currentSlot, currentLeaderIdx⟩
      else ⟨fifoShiftBuffer t.buffer cache currentSlot leadersPassed, currentSlot, currentLeaderIdx⟩
    else ⟨t.buffer.setCurrentSlot currentSlot, currentSlot, t.lastLeaderIdx⟩
  else t

/-- The loop after it has read the given slots. -/
def run (cache : Option EpochSchedule) (t : Tracker) (slots : List ℕ) : Tracker :=
  slots.foldl (turn cache) t

end Tracker

/-- The buffer shows `slot`: position `i` has the leader who starts `i` windows after the one of
`slot`, with its start slot. -/
def Tracked (cache : Option EpochSchedule) (b : LeaderBuffer) (slot : ℕ) : Prop :=
  b.currentSlot = slot ∧ ∀ i : Fin leaderBufferSize,
    b.entries i = scheduledEntry cache (LeaderBuffer.baseSlot slot + i * slotsPerLeader)

/-- The windows in the buffer of `slot` fit in a `u64`. -/
def Fits (slot : ℕ) : Prop := slot + leaderBufferSize * slotsPerLeader < 2 ^ 64

theorem Fits.baseSlot {slot : ℕ} (h : Fits slot) :
    LeaderBuffer.baseSlot slot + slotsPerLeader * leaderBufferSize < 2 ^ 64 := by
  have := Nat.div_mul_le_self slot slotsPerLeader
  simp only [Fits, LeaderBuffer.baseSlot, leaderBufferSize, slotsPerLeader] at *
  omega

/-! ## Rebuilding and shifting -/

/-- A rebuild shows its slot, whatever the buffer held. -/
theorem tracked_updateBufferFromSchedule (b : LeaderBuffer) (cache : Option EpochSchedule)
    {slot : ℕ} (h : Fits slot) : Tracked cache (updateBufferFromSchedule b cache slot) slot := by
  refine ⟨rfl, fun i => ?_⟩
  have hbase := h.baseSlot
  have hi := i.isLt
  obtain ⟨e, he, heq⟩ := LeaderBuffer.replaceAll_apply b.bumpVersion.entries slot
    (length_getNextLeadersInto cache slot (List.replicate leaderBufferSize .empty)) i
  refine heq.trans ?_
  rw [u64_of_lt (by simp only [leaderBufferSize, slotsPerLeader] at *; omega)]
  exact getNextLeadersInto_replicate cache hi hbase he

theorem baseSlot_mul (n : ℕ) : LeaderBuffer.baseSlot (n * slotsPerLeader) = n * slotsPerLeader := by
  rw [LeaderBuffer.baseSlot, Nat.mul_div_cancel _ (by decide)]

section Shift

variable {b : LeaderBuffer} {cache : Option EpochSchedule} {slot k : ℕ} {i : Fin leaderBufferSize}

/-- A shift by fewer than ten leaders. -/
theorem fifoShiftBuffer_eq (b : LeaderBuffer) (cache : Option EpochSchedule) (slot : ℕ) (hpos : 0 < k)
    (hlt : k < leaderBufferSize) :
    (fifoShiftBuffer b cache slot k).currentSlot = slot ∧
      (fifoShiftBuffer b cache slot k).entries = LeaderBuffer.shifted b.entries k
        (getNextLeadersInto cache
          (u64 ((slot / slotsPerLeader + (leaderBufferSize - k)) * slotsPerLeader))
          (List.replicate k .empty)).1 slot := by
  have hmin : min k leaderBufferSize = k := min_eq_left hlt.le
  simp only [fifoShiftBuffer, hmin, LeaderBuffer.shiftMultiple, if_neg hpos.ne', if_neg (not_le.2 hlt)]
  exact ⟨rfl, rfl⟩

/-- A shift keeps what was there before at the front. -/
theorem fifoShiftBuffer_old (b : LeaderBuffer) (cache : Option EpochSchedule) (slot : ℕ) (hpos : 0 < k)
    (h : i.val + k < leaderBufferSize) :
    (fifoShiftBuffer b cache slot k).entries i = b.entries ⟨i.val + k, h⟩ := by
  rw [(fifoShiftBuffer_eq b cache slot hpos (by omega)).2]
  exact LeaderBuffer.shifted_old _ _ h

/-- A shift fills up with scheduled leaders at the end. -/
theorem fifoShiftBuffer_new (b : LeaderBuffer) (cache : Option EpochSchedule) (hpos : 0 < k)
    (hlt : k < leaderBufferSize) (hfit : Fits slot) (h : leaderBufferSize ≤ i.val + k) :
    (fifoShiftBuffer b cache slot k).entries i =
      scheduledEntry cache (LeaderBuffer.baseSlot slot + i * slotsPerLeader) := by
  have hbase := hfit.baseSlot
  have hi := i.isLt
  have hlook : u64 ((slot / slotsPerLeader + (leaderBufferSize - k)) * slotsPerLeader) =
      (slot / slotsPerLeader + (leaderBufferSize - k)) * slotsPerLeader := by
    apply u64_of_lt
    simp only [LeaderBuffer.baseSlot, leaderBufferSize, slotsPerLeader] at *
    omega
  rw [(fifoShiftBuffer_eq b cache slot hpos hlt).2, hlook]
  obtain ⟨e, he, heq⟩ := LeaderBuffer.shifted_new b.entries slot
    ((length_getNextLeadersInto cache _ _).trans List.length_replicate) hlt.le h
  rw [heq, u64_of_lt (by simp only [leaderBufferSize, slotsPerLeader] at *; omega)]
  -- position `i` is `i - (10 - k)` windows after the first new one
  have hslot : LeaderBuffer.baseSlot slot + i * slotsPerLeader =
      LeaderBuffer.baseSlot ((slot / slotsPerLeader + (leaderBufferSize - k)) * slotsPerLeader) +
        (i.val - (leaderBufferSize - k)) * slotsPerLeader := by
    rw [baseSlot_mul]
    simp only [LeaderBuffer.baseSlot, leaderBufferSize, slotsPerLeader] at *
    omega
  rw [hslot]
  apply getNextLeadersInto_replicate cache (by omega) _ he
  rw [baseSlot_mul]
  simp only [LeaderBuffer.baseSlot, leaderBufferSize, slotsPerLeader] at *
  omega

/-- A shift by the number of leaders passed shows the new slot. -/
theorem Tracked.fifoShiftBuffer {last : ℕ} (h : Tracked cache b last)
    (hk : slot / slotsPerLeader = last / slotsPerLeader + k) (hpos : 0 < k)
    (hlt : k < leaderBufferSize) (hfit : Fits slot) :
    Tracked cache (Leader.fifoShiftBuffer b cache slot k) slot := by
  refine ⟨(fifoShiftBuffer_eq b cache slot hpos hlt).1, fun i => ?_⟩
  rcases Nat.lt_or_ge (i.val + k) leaderBufferSize with hold | hnew
  · rw [fifoShiftBuffer_old b cache slot hpos hold, h.2]
    congr 1
    simp only [LeaderBuffer.baseSlot, slotsPerLeader] at *
    omega
  · exact fifoShiftBuffer_new b cache hpos hlt hfit hnew

end Shift

/-- The buffer is what a full rebuild for `slot` makes. -/
def Rebuilt (cache : Option EpochSchedule) (b : LeaderBuffer) (slot : ℕ) : Prop :=
  b.currentSlot = slot ∧ b.entries = (updateBufferFromSchedule b cache slot).entries

theorem Tracked.rebuilt {cache : Option EpochSchedule} {b : LeaderBuffer} {slot : ℕ}
    (h : Tracked cache b slot) (hfit : Fits slot) : Rebuilt cache b slot :=
  ⟨h.1, funext fun i => (h.2 i).trans ((tracked_updateBufferFromSchedule b cache hfit).2 i).symm⟩

theorem Rebuilt.tracked {cache : Option EpochSchedule} {b : LeaderBuffer} {slot : ℕ}
    (h : Rebuilt cache b slot) (hfit : Fits slot) : Tracked cache b slot :=
  ⟨h.1, fun i => (congrFun h.2 i).trans ((tracked_updateBufferFromSchedule b cache hfit).2 i)⟩

/-! ## Turns of the loop -/

namespace Tracker

variable {cache : Option EpochSchedule}

/-! A turn by what it reads. -/

section Branches

variable {t : Tracker} {slot : ℕ}

theorem turn_of_many (hidx : slot / slotsPerLeader ≠ t.lastLeaderIdx)
    (hslot : slot ≠ t.lastSlot)
    (hmany : leaderBufferSize ≤ slot / slotsPerLeader - t.lastLeaderIdx) :
    t.turn cache slot =
      ⟨updateBufferFromSchedule t.buffer cache slot, slot, slot / slotsPerLeader⟩ := by
  simp only [turn]
  rw [if_pos hslot, if_pos hidx, if_pos hmany]

theorem turn_of_few (hidx : slot / slotsPerLeader ≠ t.lastLeaderIdx) (hslot : slot ≠ t.lastSlot)
    (hfew : slot / slotsPerLeader - t.lastLeaderIdx < leaderBufferSize) :
    t.turn cache slot = ⟨Leader.fifoShiftBuffer t.buffer cache slot
      (slot / slotsPerLeader - t.lastLeaderIdx), slot, slot / slotsPerLeader⟩ := by
  simp only [turn]
  rw [if_pos hslot, if_pos hidx, if_neg (not_le.2 hfew)]

theorem turn_of_same (hidx : slot / slotsPerLeader = t.lastLeaderIdx) (hslot : slot ≠ t.lastSlot) :
    t.turn cache slot = ⟨t.buffer.setCurrentSlot slot, slot, t.lastLeaderIdx⟩ := by
  simp only [turn]
  rw [if_pos hslot, if_neg (not_not.2 hidx)]

end Branches

/-- The loop variables belong to the slot read last. -/
theorem turn_vars (cache : Option EpochSchedule) {t : Tracker}
    (h : t.lastLeaderIdx = t.lastSlot / slotsPerLeader) (slot : ℕ) :
    (t.turn cache slot).lastSlot = slot ∧
      (t.turn cache slot).lastLeaderIdx = slot / slotsPerLeader := by
  simp only [turn]
  split_ifs with hslot hidx hmany
  · exact ⟨rfl, rfl⟩
  · exact ⟨rfl, rfl⟩
  · exact ⟨rfl, (not_not.1 hidx).symm⟩
  · rw [not_not.1 hslot]
    exact ⟨rfl, h⟩

/-- From a buffer that shows the last slot, a turn shows the slot it reads unless the leader index
goes down. -/
theorem tracked_turn_iff {t : Tracker} (h : Tracked cache t.buffer t.lastSlot)
    (hvar : t.lastLeaderIdx = t.lastSlot / slotsPerLeader) {slot : ℕ} (hfit : Fits slot) :
    Tracked cache (t.turn cache slot).buffer slot ↔
      t.lastSlot / slotsPerLeader ≤ slot / slotsPerLeader := by
  simp only [turn, hvar]
  split_ifs with hslot hidx hmany
  · have hle : t.lastSlot / slotsPerLeader ≤ slot / slotsPerLeader := by
      by_contra hlt
      rw [Nat.sub_eq_zero_of_le (not_le.1 hlt).le] at hmany
      exact absurd hmany (by decide)
    exact iff_of_true (tracked_updateBufferFromSchedule _ _ hfit) hle
  · rcases Nat.lt_or_ge (slot / slotsPerLeader) (t.lastSlot / slotsPerLeader) with hlt | hge
    · -- the difference saturates, and `shift_multiple` returns at once
      refine iff_of_false (fun h' => hslot ?_) (not_le.2 hlt)
      rw [Nat.sub_eq_zero_of_le hlt.le] at h'
      exact h'.1.symm.trans h.1
    · refine iff_of_true (h.fifoShiftBuffer ?_ ?_ (not_le.1 hmany) hfit) hge <;> omega
  · rw [not_not] at hidx
    refine iff_of_true ⟨rfl, fun i => ?_⟩ hidx.ge
    rw [LeaderBuffer.baseSlot, hidx]
    exact h.2 i
  · rw [not_not.1 hslot]
    exact iff_of_true h le_rfl

/-- Along a run the buffer shows every slot read exactly if the leader index never goes down. -/
theorem tracked_run_iff {t : Tracker} (h : Tracked cache t.buffer t.lastSlot)
    (hvar : t.lastLeaderIdx = t.lastSlot / slotsPerLeader) {slots : List ℕ}
    (hfit : ∀ s ∈ slots, Fits s) :
    (∀ p, p <+: slots → Tracked cache (t.run cache p).buffer (t.run cache p).lastSlot) ↔
      List.IsChain (fun a b => a / slotsPerLeader ≤ b / slotsPerLeader) (t.lastSlot :: slots) := by
  induction slots generalizing t with
  | nil =>
    refine iff_of_true (fun p hp => ?_) (List.isChain_singleton _)
    rw [List.prefix_nil.1 hp]
    exact h
  | cons slot slots ih =>
    obtain ⟨hlast, hvar'⟩ := turn_vars cache hvar slot
    have hturn := tracked_turn_iff h hvar (hfit slot List.mem_cons_self)
    have ih' := fun h' : Tracked cache (t.turn cache slot).buffer slot =>
      ih (t := t.turn cache slot) (by rwa [hlast]) (by rw [hlast, hvar'])
        fun s hs => hfit s (List.mem_cons_of_mem _ hs)
    rw [hlast] at ih'
    rw [List.isChain_cons_cons]
    constructor
    · intro hall
      have h' : Tracked cache (t.turn cache slot).buffer slot := by
        have := hall [slot] (List.prefix_append [slot] slots)
        rwa [show t.run cache [slot] = t.turn cache slot from rfl, hlast] at this
      refine ⟨hturn.1 h', (ih' h').1 fun p hp => ?_⟩
      exact hall (slot :: p) (List.cons_prefix_cons.2 ⟨rfl, hp⟩)
    · rintro ⟨hle, hchain⟩ p hp
      have h' := hturn.2 hle
      cases p with
      | nil => exact h
      | cons s p =>
        obtain ⟨rfl, hp'⟩ := List.cons_prefix_cons.1 hp
        exact (ih' h').2 hchain p hp'

theorem lastSlot_run {t : Tracker} (hvar : t.lastLeaderIdx = t.lastSlot / slotsPerLeader)
    (slots : List ℕ) : (t.run cache slots).lastSlot = slots.getLastD t.lastSlot := by
  induction slots generalizing t with
  | nil => rfl
  | cons slot slots ih =>
    obtain ⟨hlast, hvar'⟩ := turn_vars cache hvar slot
    have hrun := ih (t := t.turn cache slot) (by rw [hlast, hvar'])
    rw [hlast] at hrun
    rw [List.getLastD_cons]
    exact hrun

end Tracker

/-- Entered after a rebuild, the loop leaves the buffer as a rebuild for each slot read would make it,
that is with the scheduled leaders of that slot, exactly if no slot has a lower leader index than the
one before it. -/
theorem rebuilt_iff_leaderIdx_mono (b : LeaderBuffer) (cache : Option EpochSchedule) {slot : ℕ}
    (h : Fits slot) {slots : List ℕ} (hs : ∀ s ∈ slots, Fits s) :
    (∀ p, p <+: slots →
      Rebuilt cache ((Tracker.start b cache slot).run cache p).buffer (p.getLastD slot) ∧
      Tracked cache ((Tracker.start b cache slot).run cache p).buffer (p.getLastD slot)) ↔
    List.IsChain (fun a b => a / slotsPerLeader ≤ b / slotsPerLeader) (slot :: slots) := by
  have hstart : Tracked cache (Tracker.start b cache slot).buffer slot :=
    tracked_updateBufferFromSchedule b cache h
  have hlast : ∀ p, ((Tracker.start b cache slot).run cache p).lastSlot = p.getLastD slot :=
    fun p => Tracker.lastSlot_run rfl p
  have hfit : ∀ p, p <+: slots → Fits (p.getLastD slot) := by
    intro p hp
    rcases List.eq_nil_or_concat p with rfl | ⟨q, s, rfl⟩
    · exact h
    · rw [List.concat_eq_append, List.getLastD_concat]
      exact hs s (hp.subset (by simp))
  refine Iff.trans ?_ (Tracker.tracked_run_iff hstart rfl hs)
  constructor
  · intro hall p hp
    rw [hlast]
    exact (hall p hp).2
  · intro hall p hp
    have htracked := hall p hp
    rw [hlast] at htracked
    exact ⟨htracked.rebuilt (hfit p hp), htracked⟩

/-- An epoch of 64 slots with sixteen leaders. -/
def sampleSchedule : EpochSchedule where
  epoch := 0
  epochStartSlot := 0
  slotsInEpoch := 64
  leaders := (List.range 64).map fun slot =>
    { LeaderEntry.empty with pubkey := BitVec.ofNat 256 (slot / 4 + 1), tpuQuicPort := 8000 }
  length_leaders := by simp

theorem rebuilt_iff_leaderIdx_mono_forward :
    Tracked (some sampleSchedule)
      ((Tracker.start .new (some sampleSchedule) 8).run (some sampleSchedule) [9, 13, 12, 60]).buffer
      60 := by
  have hfit : ∀ s ∈ [9, 13, 12, 60], Fits s := by
    simp [Fits, leaderBufferSize, slotsPerLeader]
  have hchain : List.IsChain (fun a b => a / slotsPerLeader ≤ b / slotsPerLeader)
      [8, 9, 13, 12, 60] := by simp [slotsPerLeader]
  have hstart : Fits 8 := by simp [Fits, leaderBufferSize, slotsPerLeader]
  exact ((rebuilt_iff_leaderIdx_mono .new (some sampleSchedule) hstart hfit).2 hchain _
    List.prefix_rfl).2

/-- After slot 8, slot 3 leaves the buffer at slot 8; slot 7 then shifts it, and the first entry is
that of slot 12 instead of slot 4. -/
theorem not_tracked_backward :
    ¬ Tracked (some sampleSchedule)
      ((Tracker.start .new (some sampleSchedule) 8).run (some sampleSchedule) [3]).buffer 3 ∧
    ((Tracker.start .new (some sampleSchedule) 8).run (some sampleSchedule) [3]).buffer.currentSlot
      = 8 ∧
    (((Tracker.start .new (some sampleSchedule) 8).run
      (some sampleSchedule) [3, 7]).buffer.entries ⟨0, by decide⟩).startSlot = 12 := by
  refine ⟨fun h => ?_, rfl, rfl⟩
  exact absurd h.1 (by decide)

/-! ## Shifting or rebuilding -/

/-- For a slot whose leader index is ahead by `k`, the loop shifts the buffer if `k` is less than ten and
rebuilds it otherwise; from a rebuilt buffer both leave the entries and the slot of a rebuild.  A shift by
ten or more is an update, and `shift_and_append` is a shift by one. -/
theorem incremental_eq_rebuild :
    (∀ (cache : Option EpochSchedule) (b b' : LeaderBuffer) (s t k : ℕ), Fits s → Fits t →
      Rebuilt cache b s → t / slotsPerLeader = s / slotsPerLeader + k → 1 ≤ k →
      (Tracker.turn cache ⟨b, s, s / slotsPerLeader⟩ t).buffer =
        (if k < leaderBufferSize then fifoShiftBuffer b cache t k
          else updateBufferFromSchedule b cache t) ∧
      (Tracker.turn cache ⟨b, s, s / slotsPerLeader⟩ t).buffer.entries =
        (updateBufferFromSchedule b' cache t).entries ∧
      (Tracker.turn cache ⟨b, s, s / slotsPerLeader⟩ t).buffer.currentSlot =
        (updateBufferFromSchedule b' cache t).currentSlot) ∧
    (∀ (b : LeaderBuffer) (count : ℕ) (newLeaders : List LeaderEntry) (newSlot : ℕ),
      leaderBufferSize ≤ count →
      b.shiftMultiple count newLeaders newSlot = b.update newSlot newLeaders) ∧
    ∀ (b : LeaderBuffer) (newLeader : LeaderEntry) (newSlot : ℕ),
      b.shiftAndAppend newLeader newSlot = b.shiftMultiple 1 [newLeader] newSlot := by
  refine ⟨fun cache b b' s t k hs ht hb hidx hk => ?_, fun b count newLeaders newSlot h =>
    b.shiftMultiple_of_le h newLeaders newSlot, LeaderBuffer.shiftAndAppend_eq⟩
  have hahead : s / slotsPerLeader ≤ t / slotsPerLeader := by omega
  have hpassed : t / slotsPerLeader - s / slotsPerLeader = k := by omega
  have hne : t / slotsPerLeader ≠ s / slotsPerLeader := by omega
  have hslot : t ≠ s := by
    rintro rfl
    exact hne rfl
  have htracked := (Tracker.tracked_turn_iff (t := ⟨b, s, s / slotsPerLeader⟩) (hb.tracked hs) rfl ht).2
    hahead
  have hrebuilt := tracked_updateBufferFromSchedule b' cache ht
  refine ⟨?_, funext fun i => (htracked.2 i).trans (hrebuilt.2 i).symm, htracked.1⟩
  split_ifs with hfew
  · rw [Tracker.turn_of_few hne hslot (by simpa only [hpassed] using hfew)]
    simp only [hpassed]
  · rw [Tracker.turn_of_many hne hslot (by simpa only [hpassed] using not_lt.1 hfew)]

/-- Three leaders on, near the end of the epoch. -/
theorem incremental_eq_rebuild_three :
    (Tracker.turn (some sampleSchedule)
      ⟨updateBufferFromSchedule .new (some sampleSchedule) 33, 33, 8⟩ 44).buffer.entries =
        (updateBufferFromSchedule .new (some sampleSchedule) 44).entries := by
  have hfit : Fits 33 ∧ Fits 44 := by simp [Fits, leaderBufferSize, slotsPerLeader]
  have hb : Rebuilt (some sampleSchedule) (updateBufferFromSchedule .new (some sampleSchedule) 33) 33 :=
    (tracked_updateBufferFromSchedule _ _ hfit.1).rebuilt hfit.1
  exact (incremental_eq_rebuild.1 _ _ .new 33 44 3 hfit.1 hfit.2 hb rfl (by decide)).2.1

end Land.Leader
