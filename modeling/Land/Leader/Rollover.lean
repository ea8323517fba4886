import Land.Leader.Refresh
import Land.Leader.Tracker

/-!
# The tracker across an epoch boundary

The main loop of the tracker with a cache that `refresh` swaps between two turns; a turn loads the cache
once.  Positions past the end of the old epoch are filled with empty entries, and a shift looks up only
the positions it appends, so what the buffer shows of the new epoch depends on where in its window the
swap falls.
-/

namespace Land.Leader

/-- The tracker and the schedule it reads. -/
structure Tracking where
  cache : Option EpochSchedule
  tracker : Tracker

/-- A turn that reads a slot, or a refresh with the answers it gets. -/
inductive Event where
  | slot (slot : ℕ)
  | refresh (rpc : Rpc)

namespace Tracking

/-- A failed refresh keeps the cache. -/
def after (s : Tracking) : Event → Tracking
  | .slot slot => { s with tracker := s.tracker.turn s.cache slot }
  | .refresh rpc =>
      match refresh s.cache rpc with
      | .ok cache => { s with cache := cache }
      | .error _ => s

def run (s : Tracking) (events : List Event) : Tracking := events.foldl after s

theorem run_append (s : Tracking) (events events' : List Event) :
    s.run (events ++ events') = (s.run events).run events' :=
  List.foldl_append

/-- Between two refreshes the tracker runs over one schedule. -/
theorem run_slots (s : Tracking) (slots : List ℕ) :
    s.run (slots.map .slot) = { s with tracker := s.tracker.run s.cache slots } := by
  induction slots generalizing s with
  | nil => rfl
  | cons slot slots ih => exact ih _

end Tracking

/-- The entries name the same leader with the same addresses. -/
def LeaderEntry.SameLeader (e e' : LeaderEntry) : Prop := e.setStartSlot 0 = e'.setStartSlot 0

instance (e e' : LeaderEntry) : Decidable (e.SameLeader e') := inferInstanceAs (Decidable (_ = _))

/-- Every position of the buffer whose window is in the epoch has the leader of its slot. -/
def Current (c : EpochSchedule) (b : LeaderBuffer) (slot : ℕ) : Prop :=
  ∀ (i : Fin leaderBufferSize) (e : LeaderEntry),
    c.getLeaderAtSlot (LeaderBuffer.baseSlot slot + i * slotsPerLeader) = some e →
      (b.entries i).SameLeader e

theorem sameLeader_scheduledEntry {c : EpochSchedule} {slot : ℕ} {e : LeaderEntry}
    (h : c.getLeaderAtSlot slot = some e) : (scheduledEntry (some c) slot).SameLeader e := by
  simp [scheduledEntry, h, LeaderEntry.SameLeader, LeaderEntry.setStartSlot]

/-- Past the end of its epoch a schedule has no leader. -/
theorem sameLeader_scheduledEntry_iff {c : EpochSchedule} {slot : ℕ} {e : LeaderEntry}
    (h : c.maxSlot ≤ slot) :
    (scheduledEntry (some c) slot).SameLeader e ↔ LeaderEntry.SameLeader .empty e := by
  simp [scheduledEntry, c.getLeaderAtSlot_of_maxSlot_le h, LeaderEntry.SameLeader,
    LeaderEntry.setStartSlot]

theorem EpochSchedule.epochStartSlot_le {c : EpochSchedule} {slot : ℕ} {e : LeaderEntry}
    (h : c.getLeaderAtSlot slot = some e) : c.epochStartSlot ≤ slot := by
  by_contra hlt
  rw [c.getLeaderAtSlot_of_lt (not_le.1 hlt)] at h
  cases h

/-! ## The next leader change -/

namespace Tracker

variable {old new : EpochSchedule} {t : Tracker} {last slot : ℕ}

/-- What the leader change from the leader of `last` to that of `slot` needs: it passes ten leaders, or
the windows it keeps that are in the new epoch have no leader there. -/
def Passes (new : EpochSchedule) (last slot : ℕ) : Prop :=
  last / slotsPerLeader + leaderBufferSize ≤ slot / slotsPerLeader ∨
    ∀ i : Fin leaderBufferSize,
      i.val + (slot / slotsPerLeader - last / slotsPerLeader) < leaderBufferSize →
      ∀ e, new.getLeaderAtSlot (LeaderBuffer.baseSlot slot + i * slotsPerLeader) = some e →
        LeaderEntry.SameLeader .empty e

/-- A leader change with the new schedule, in a buffer that shows the old one. -/
theorem current_turn_iff
    (hentries : ∀ i : Fin leaderBufferSize, t.buffer.entries i =
      scheduledEntry (some old) (LeaderBuffer.baseSlot last + i * slotsPerLeader))
    (hvar : t.lastLeaderIdx = last / slotsPerLeader) (hslot : slot ≠ t.lastSlot)
    (hlt : last / slotsPerLeader < slot / slotsPerLeader) (hfit : Fits slot)
    (hnext : old.maxSlot ≤ new.epochStartSlot) :
    Current new (t.turn (some new) slot).buffer slot ↔ Passes new last slot := by
  have hidx : slot / slotsPerLeader ≠ t.lastLeaderIdx := by omega
  by_cases hmany : last / slotsPerLeader + leaderBufferSize ≤ slot / slotsPerLeader
  · rw [turn_of_many hidx hslot (by omega)]
    apply iff_of_true _ (.inl hmany)
    intro i e he
    rw [(tracked_updateBufferFromSchedule _ (some new) hfit).2 i]
    exact sameLeader_scheduledEntry he
  · have hpos : 0 < slot / slotsPerLeader - last / slotsPerLeader := by omega
    have hfew : slot / slotsPerLeader - last / slotsPerLeader < leaderBufferSize := by omega
    rw [turn_of_few hidx hslot (by omega), hvar]
    -- a kept entry of the new epoch was looked up in the old one
    have hold (i : Fin leaderBufferSize)
        (hi : i.val + (slot / slotsPerLeader - last / slotsPerLeader) < leaderBufferSize)
        (e : LeaderEntry)
        (he : new.getLeaderAtSlot (LeaderBuffer.baseSlot slot + i * slotsPerLeader) = some e) :
        ((fifoShiftBuffer t.buffer (some new) slot
          (slot / slotsPerLeader - last / slotsPerLeader)).entries i).SameLeader e ↔
            LeaderEntry.SameLeader .empty e := by
      have hwindow : LeaderBuffer.baseSlot last +
          (i.val + (slot / slotsPerLeader - last / slotsPerLeader)) * slotsPerLeader =
            LeaderBuffer.baseSlot slot + i * slotsPerLeader := by
        simp only [LeaderBuffer.baseSlot, slotsPerLeader] at *
        omega
      rw [fifoShiftBuffer_old t.buffer (some new) slot hpos hi, hentries, hwindow]
      apply sameLeader_scheduledEntry_iff
      exact hnext.trans (EpochSchedule.epochStartSlot_le he)
    constructor
    · intro h
      exact .inr fun i hi e he => (hold i hi e he).1 (h i e he)
    · intro h i e he
      rcases Nat.lt_or_ge (i.val + (slot / slotsPerLeader - last / slotsPerLeader)) leaderBufferSize
        with hi | hi
      · exact (hold i hi e he).2 (h.resolve_left hmany i hi e he)
      · rw [fifoShiftBuffer_new t.buffer (some new) hpos hfew hfit hi]
        exact sameLeader_scheduledEntry he

/-- Slots of one leader change neither the entries nor the leader index. -/
theorem run_of_same (cache : Option EpochSchedule) {slots : List ℕ}
    (h : ∀ slot ∈ slots, slot / slotsPerLeader = t.lastLeaderIdx) :
    (t.run cache slots).buffer.entries = t.buffer.entries ∧
      (t.run cache slots).lastLeaderIdx = t.lastLeaderIdx := by
  induction slots generalizing t with
  | nil => exact ⟨rfl, rfl⟩
  | cons slot slots ih =>
    have hslot := h slot List.mem_cons_self
    have hturn : (t.turn cache slot).buffer.entries = t.buffer.entries ∧
        (t.turn cache slot).lastLeaderIdx = t.lastLeaderIdx := by
      by_cases heq : slot = t.lastSlot
      · rw [turn, if_neg (not_not.2 heq)]
        exact ⟨rfl, rfl⟩
      · rw [turn_of_same hslot heq]
        exact ⟨rfl, rfl⟩
    obtain ⟨hentries, hidx⟩ := ih (t := t.turn cache slot) fun s hs =>
      (h s (List.mem_cons_of_mem _ hs)).trans hturn.2.symm
    exact ⟨hentries.trans hturn.1, hidx.trans hturn.2⟩

theorem run_vars (cache : Option EpochSchedule)
    (h : t.lastLeaderIdx = t.lastSlot / slotsPerLeader) (slots : List ℕ) :
    (t.run cache slots).lastLeaderIdx = (t.run cache slots).lastSlot / slotsPerLeader := by
  induction slots generalizing t with
  | nil => exact h
  | cons slot slots ih =>
    obtain ⟨hlast, hidx⟩ := turn_vars cache h slot
    exact ih (hidx.trans (by rw [hlast]))

/-- Over an increasing run the tracker shows the slot it read last. -/
theorem tracked_run_of_increasing (b : LeaderBuffer) (cache : Option EpochSchedule) {slot₀ : ℕ}
    {slots : List ℕ} (hincr : (slot₀ :: slots).Pairwise (· < ·))
    (hfit : ∀ s ∈ slot₀ :: slots, Fits s) :
    Tracked cache ((start b cache slot₀).run cache slots).buffer (slots.getLastD slot₀) := by
  have hstart : Tracked cache (start b cache slot₀).buffer slot₀ :=
    tracked_updateBufferFromSchedule b cache (hfit slot₀ List.mem_cons_self)
  have hchain : List.IsChain (fun a b => a / slotsPerLeader ≤ b / slotsPerLeader)
      (slot₀ :: slots) :=
    (hincr.imp fun hlt => Nat.div_le_div_right hlt.le).isChain
  have htracked := (tracked_run_iff hstart rfl fun s hs => hfit s (List.mem_cons_of_mem _ hs)).2
    hchain slots List.prefix_rfl
  rwa [lastSlot_run rfl] at htracked

/-- The condition holds if the new schedule comes before the buffer reaches the new epoch. -/
theorem passes_of_lt (hlt : last / slotsPerLeader < slot / slotsPerLeader)
    (h : LeaderBuffer.baseSlot last + (leaderBufferSize - 1) * slotsPerLeader < new.epochStartSlot) :
    Passes new last slot := by
  refine .inr fun i hi e he => ?_
  have hle := EpochSchedule.epochStartSlot_le he
  simp only [LeaderBuffer.baseSlot, leaderBufferSize, slotsPerLeader] at *
  omega

end Tracker

/-- After a refresh has installed the schedule of a later epoch somewhere in an increasing run of slots,
the next leader change leaves every position of the new epoch with its leader exactly if it passes ten
leaders or keeps no window that has a leader in the new epoch. -/
theorem current_after_rollover_iff (b : LeaderBuffer) {old new : EpochSchedule} {rpc : Rpc}
    (hinstall : refresh (some old) rpc = .ok (some new)) (hnext : old.maxSlot ≤ new.epochStartSlot)
    {slot₀ slot : ℕ} {before between : List ℕ}
    (hincr : (slot₀ :: (before ++ between ++ [slot])).Pairwise (· < ·))
    (hsame : ∀ s ∈ between, s / slotsPerLeader = before.getLastD slot₀ / slotsPerLeader)
    (hchange : slot / slotsPerLeader ≠ before.getLastD slot₀ / slotsPerLeader) (hfit : Fits slot) :
    Current new (Tracking.run ⟨some old, .start b (some old) slot₀⟩
        (before.map .slot ++ .refresh rpc :: (between ++ [slot]).map .slot)).tracker.buffer slot ↔
      Tracker.Passes new (before.getLastD slot₀) slot := by
  have hlt : ∀ s ∈ slot₀ :: before, s < slot := by
    intro s hs
    have happend : slot₀ :: (before ++ between ++ [slot]) = (slot₀ :: before) ++ (between ++ [slot]) := by
      simp
    rw [happend, List.pairwise_append] at hincr
    exact hincr.2.2 s hs slot (by simp)
  have hfits : ∀ s ∈ slot₀ :: before, Fits s := by
    intro s hs
    have hs' := hlt s hs
    unfold Fits at hfit ⊢
    omega
  have hbefore : (slot₀ :: before).Pairwise (· < ·) := by
    apply List.Pairwise.sublist _ hincr
    simp
  have hstart : (Tracker.start b (some old) slot₀).lastLeaderIdx =
      (Tracker.start b (some old) slot₀).lastSlot / slotsPerLeader := rfl
  set t₁ := (Tracker.start b (some old) slot₀).run (some old) before with ht₁
  have htracked : Tracked (some old) t₁.buffer (before.getLastD slot₀) :=
    Tracker.tracked_run_of_increasing b (some old) hbefore hfits
  have hvar₁ : t₁.lastLeaderIdx = before.getLastD slot₀ / slotsPerLeader := by
    rw [ht₁, Tracker.run_vars (some old) hstart before, Tracker.lastSlot_run hstart]
    rfl
  set t₂ := t₁.run (some new) between with ht₂
  obtain ⟨hentries, hidx⟩ := Tracker.run_of_same (some new) fun s hs => (hsame s hs).trans hvar₁.symm
  have hslot : slot ≠ t₂.lastSlot := by
    intro heq
    have hvar₂ := Tracker.run_vars (some new) (Tracker.run_vars (some old) hstart before) between
    rw [← ht₁, ← ht₂, ← heq, hidx, hvar₁] at hvar₂
    exact hchange hvar₂.symm
  have hrun : (Tracking.run ⟨some old, .start b (some old) slot₀⟩
      (before.map .slot ++ .refresh rpc :: (between ++ [slot]).map .slot)).tracker =
        t₂.turn (some new) slot := by
    rw [Tracking.run_append, Tracking.run_slots]
    show (Tracking.run (Tracking.after ⟨some old, t₁⟩ (.refresh rpc)) _).tracker = _
    simp only [Tracking.after, hinstall, Tracking.run_slots]
    exact List.foldl_append
  have hlast : before.getLastD slot₀ < slot := by
    apply hlt
    rcases List.eq_nil_or_concat before with rfl | ⟨q, s, rfl⟩
    · simp
    · simp
  rw [hrun]
  apply Tracker.current_turn_iff _ (hidx.trans hvar₁) hslot _ hfit hnext
  · intro i
    rw [hentries]
    exact htracked.2 i
  · exact lt_of_le_of_ne (Nat.div_le_div_right hlast.le) hchange.symm

/-- Answers for the epoch after that of `sampleSchedule`, of eight slots with one leader. -/
def sampleRpc : Rpc where
  getEpochInfo := some ⟨1, 64, 0, 8⟩
  getLeaderSchedule := some (some [(some 99, [0, 1, 2, 3, 4, 5, 6, 7])])
  getClusterNodes := some [⟨some 99, some (.v4 0x0A000001 9000), some (.v4 0x0A000001 9001)⟩]

/-- The schedule that these answers install. -/
def sampleNext : EpochSchedule where
  epoch := 1
  epochStartSlot := 64
  slotsInEpoch := 8
  leaders := List.replicate 8 (.new 99 (.v4 0x0A000001 9000) (.v4 0x0A000001 9001))
  length_leaders := by simp

/-- The refresh comes at slot 9, before the buffer reaches the new epoch. -/
theorem current_after_rollover_iff_nine : Current sampleNext
    (Tracking.run ⟨some sampleSchedule, .start .new (some sampleSchedule) 8⟩
      [.slot 9, .refresh sampleRpc, .slot 11, .slot 40]).tracker.buffer 40 := by
  have hincr : (8 :: ([9] ++ [11] ++ [40])).Pairwise (· < ·) := by decide
  have hsame : ∀ s ∈ [11], s / slotsPerLeader = [9].getLastD 8 / slotsPerLeader := by decide
  have hfit : Fits 40 := by simp [Fits, leaderBufferSize, slotsPerLeader]
  apply (current_after_rollover_iff .new (rfl : refresh (some sampleSchedule) sampleRpc =
    .ok (some sampleNext)) (by decide) hincr hsame (by decide) hfit).2
  exact Tracker.passes_of_lt (by decide) (by decide)

/-- At slot 64 the task finds the slot outside the cache and installs the new schedule; the change to
slot 68 keeps the empty entry that the old one gave. -/
theorem not_current_after_rollover :
    refreshTask (some sampleSchedule) 64 sampleRpc = some sampleNext ∧
      sampleNext.getLeaderAtSlot 68 =
        some (.new 99 (.v4 0x0A000001 9000) (.v4 0x0A000001 9001)) ∧
      ((Tracking.run ⟨some sampleSchedule, .start .new (some sampleSchedule) 60⟩
        [.slot 64, .refresh sampleRpc, .slot 68]).tracker.buffer.entries ⟨0, by decide⟩).pubkey = 0 ∧
      ¬ Current sampleNext (Tracking.run ⟨some sampleSchedule, .start .new (some sampleSchedule) 60⟩
        [.slot 64, .refresh sampleRpc, .slot 68]).tracker.buffer 68 := by
  refine ⟨rfl, rfl, rfl, fun h => ?_⟩
  exact absurd (h ⟨0, by decide⟩ _ rfl) (by decide)

end Land.Leader
