import Mathlib.Tactic

/-!
# The leader buffer

`LeaderEntry` and `LeaderBuffer` of `leader/src/leader_entry.rs` and `leader/src/leader_buffer.rs`, as
the single writer sees them: a write is one update of the record, with the two version increments
around it.  `u64` arithmetic wraps.
-/

namespace Land.Leader

/-- `LEADER_BUFFER_SIZE`. -/
def leaderBufferSize : ℕ := 10

/-- `SLOTS_PER_LEADER`. -/
def slotsPerLeader : ℕ := 4

/-- The value of a `u64` computation. -/
def u64 (n : ℕ) : ℕ := n % 2 ^ 64

theorem u64_of_lt {n : ℕ} (h : n < 2 ^ 64) : u64 n = n := Nat.mod_eq_of_lt h

/-- `LeaderEntry`, without its padding. -/
structure LeaderEntry where
  pubkey : BitVec 256
  tpuQuicIp : BitVec 32
  tpuQuicPort : BitVec 16
  tpuQuicFwdIp : BitVec 32
  tpuQuicFwdPort : BitVec 16
  startSlot : ℕ
  deriving Repr, DecidableEq

namespace LeaderEntry

/-- `LeaderEntry::EMPTY`. -/
def empty : LeaderEntry where
  pubkey := 0
  tpuQuicIp := 0
  tpuQuicPort := 0
  tpuQuicFwdIp := 0
  tpuQuicFwdPort := 0
  startSlot := 0

/-- `set_start_slot`. -/
def setStartSlot (e : LeaderEntry) (slot : ℕ) : LeaderEntry := { e with startSlot := slot }

end LeaderEntry

/-- The array of entries. -/
abbrev Entries := Fin leaderBufferSize → LeaderEntry

namespace Entries

/-- `entries[start..start + src.len()].copy_from_slice(src)`. -/
def copyFromSlice (entries : Entries) (start : ℕ) (src : List LeaderEntry) : Entries := fun i =>
  if start ≤ i then src[i.val - start]?.getD (entries i) else entries i

/-- `entries.copy_within(count..LEADER_BUFFER_SIZE, 0)`. -/
def copyWithin (entries : Entries) (count : ℕ) : Entries := fun i =>
  if h : i.val + count < leaderBufferSize then entries ⟨i.val + count, h⟩ else entries i

/-- The loop that clears the entries from position `start` on. -/
def clear (entries : Entries) (start : ℕ) : Entries := fun i =>
  if start ≤ i then .empty else entries i

/-- The loop that sets `start_slot` from position `start` on. -/
def setStartSlots (entries : Entries) (start baseSlot : ℕ) : Entries := fun i =>
  if start ≤ i then (entries i).setStartSlot (u64 (baseSlot + i * slotsPerLeader)) else entries i

end Entries

/-- `LeaderBuffer`. -/
structure LeaderBuffer where
  version : ℕ
  entries : Entries
  currentSlot : ℕ

namespace LeaderBuffer

/-- `LeaderBuffer::new`. -/
def new : LeaderBuffer where
  version := 0
  entries := fun _ => .empty
  currentSlot := 0

/-- `begin_write` and `end_write`. -/
def bumpVersion (b : LeaderBuffer) : LeaderBuffer := { b with version := u64 (b.version + 1) }

/-- `set_current_slot`. -/
def setCurrentSlot (b : LeaderBuffer) (slot : ℕ) : LeaderBuffer := { b with currentSlot := slot }

/-- The slot at which the leader of `slot` starts. -/
def baseSlot (slot : ℕ) : ℕ := slot / slotsPerLeader * slotsPerLeader

/-- The replacement of all entries, in `update` and in `shift_multiple`. -/
def replaceAll (entries : Entries) (newEntries : List LeaderEntry) (newSlot : ℕ) : Entries :=
  let copyLen := min newEntries.length leaderBufferSize
  (((entries.copyFromSlice 0 (newEntries.take copyLen)).clear copyLen).setStartSlots 0
    (baseSlot newSlot))

/-- `update`. -/
def update (b : LeaderBuffer) (newSlot : ℕ) (newEntries : List LeaderEntry) : LeaderBuffer :=
  let b := b.bumpVersion
  { b with entries := replaceAll b.entries newEntries newSlot, currentSlot := newSlot }.bumpVersion

/-- `shift_and_append`. -/
def shiftAndAppend (b : LeaderBuffer) (newLeader : LeaderEntry) (newSlot : ℕ) : LeaderBuffer :=
  let newLeader := newLeader.setStartSlot
    (u64 (baseSlot newSlot + (leaderBufferSize - 1) * slotsPerLeader))
  let b := b.bumpVersion
  { b with
    entries := (b.entries.copyWithin 1).copyFromSlice (leaderBufferSize - 1) [newLeader]
    currentSlot := newSlot }.bumpVersion

/-- The entries after a shift by `count < LEADER_BUFFER_SIZE` positions. -/
def shifted (entries : Entries) (count : ℕ) (newLeaders : List LeaderEntry) (newSlot : ℕ) :
    Entries :=
  let startPos := leaderBufferSize - count
  let newCount := min newLeaders.length count
  (((entries.copyWithin count).copyFromSlice startPos (newLeaders.take newCount)).clear
    (startPos + newCount)).setStartSlots startPos (baseSlot newSlot)

/-- `shift_multiple`. -/
def shiftMultiple (b : LeaderBuffer) (count : ℕ) (newLeaders : List LeaderEntry) (newSlot : ℕ) :
    LeaderBuffer :=
  if count = 0 then b
  else
    let b := b.bumpVersion
    let entries :=
      if count ≥ leaderBufferSize then replaceAll b.entries newLeaders newSlot
      else shifted b.entries count newLeaders newSlot
    { b with entries := entries, currentSlot := newSlot }.bumpVersion

/-! ## The entries after a write -/

/-- A full replacement by ten entries. -/
theorem replaceAll_apply (entries : Entries) {newEntries : List LeaderEntry} (newSlot : ℕ)
    (hlen : newEntries.length = leaderBufferSize) (i : Fin leaderBufferSize) :
    ∃ e, newEntries[i.val]? = some e ∧ replaceAll entries newEntries newSlot i =
      e.setStartSlot (u64 (baseSlot newSlot + i * slotsPerLeader)) := by
  have hi : i.val < newEntries.length := by
    rw [hlen]
    exact i.isLt
  refine ⟨newEntries[i.val], List.getElem?_eq_getElem hi, ?_⟩
  simp only [replaceAll, Entries.setStartSlots, Entries.clear, Entries.copyFromSlice, hlen,
    Nat.min_self, Nat.zero_le, if_true, Nat.sub_zero, if_neg (not_le.2 i.isLt)]
  rw [List.take_of_length_le (le_of_eq hlen), List.getElem?_eq_getElem hi, Option.getD_some]

/-- A shift keeps the old entries at their new positions. -/
theorem shifted_old (entries : Entries) {count : ℕ} {newLeaders : List LeaderEntry} (newSlot : ℕ)
    {i : Fin leaderBufferSize} (h : i.val + count < leaderBufferSize) :
    shifted entries count newLeaders newSlot i = entries ⟨i.val + count, h⟩ := by
  have hpos : ¬ leaderBufferSize - count ≤ i.val := by omega
  have hclear : ¬ leaderBufferSize - count + min newLeaders.length count ≤ i.val := by omega
  simp only [shifted, Entries.setStartSlots, Entries.clear, Entries.copyFromSlice, if_neg hpos,
    if_neg hclear, Entries.copyWithin, dif_pos h]

/-- A shift puts the new entries at the end. -/
theorem shifted_new (entries : Entries) {count : ℕ} {newLeaders : List LeaderEntry} (newSlot : ℕ)
    (hlen : newLeaders.length = count) {i : Fin leaderBufferSize} (hcount : count ≤ leaderBufferSize)
    (h : leaderBufferSize ≤ i.val + count) :
    ∃ e, newLeaders[i.val - (leaderBufferSize - count)]? = some e ∧
      shifted entries count newLeaders newSlot i =
        e.setStartSlot (u64 (baseSlot newSlot + i * slotsPerLeader)) := by
  have hi := i.isLt
  have hlt : i.val - (leaderBufferSize - count) < newLeaders.length := by omega
  have hpos : leaderBufferSize - count ≤ i.val := by omega
  have hclear : ¬ leaderBufferSize - count + count ≤ i.val := by omega
  refine ⟨newLeaders[i.val - (leaderBufferSize - count)], List.getElem?_eq_getElem hlt, ?_⟩
  simp only [shifted, Entries.setStartSlots, Entries.clear, Entries.copyFromSlice, hlen,
    Nat.min_self, if_pos hpos, if_neg hclear]
  rw [List.take_of_length_le (le_of_eq hlen), List.getElem?_eq_getElem hlt, Option.getD_some]

/-! ## The three writes compared -/

/-- A shift by the whole buffer or more is a full replacement. -/
theorem shiftMultiple_of_le (b : LeaderBuffer) {count : ℕ} (h : leaderBufferSize ≤ count)
    (newLeaders : List LeaderEntry) (newSlot : ℕ) :
    b.shiftMultiple count newLeaders newSlot = b.update newSlot newLeaders := by
  have hpos : count ≠ 0 := (lt_of_lt_of_le (by decide) h).ne'
  simp only [shiftMultiple, if_neg hpos, if_pos h]
  rfl

/-- The entries of a shift by one, at the end and before it. -/
theorem shifted_one (entries : Entries) (newLeader : LeaderEntry) (newSlot : ℕ) :
    shifted entries 1 [newLeader] newSlot =
      (entries.copyWithin 1).copyFromSlice (leaderBufferSize - 1)
        [newLeader.setStartSlot (u64 (baseSlot newSlot + (leaderBufferSize - 1) * slotsPerLeader))] := by
  funext i
  by_cases h : i.val + 1 < leaderBufferSize
  · have hpos : ¬ leaderBufferSize - 1 ≤ i.val := by omega
    rw [shifted_old entries newSlot h, Entries.copyFromSlice, if_neg hpos, Entries.copyWithin, dif_pos h]
  · have hlast : i.val = leaderBufferSize - 1 := by
      have := i.isLt
      omega
    obtain ⟨e, he, heq⟩ : ∃ e, [newLeader][i.val - (leaderBufferSize - 1)]? = some e ∧
        shifted entries 1 [newLeader] newSlot i =
          e.setStartSlot (u64 (baseSlot newSlot + i * slotsPerLeader)) :=
      shifted_new entries newSlot (show [newLeader].length = 1 from rfl) (by decide) (not_lt.1 h)
    rw [hlast, Nat.sub_self, List.getElem?_cons_zero, Option.some.injEq] at he
    rw [heq, Entries.copyFromSlice, if_pos hlast.ge, hlast, Nat.sub_self, List.getElem?_cons_zero, he]
    rfl

/-- `shift_and_append` is a shift by one. -/
theorem shiftAndAppend_eq (b : LeaderBuffer) (newLeader : LeaderEntry) (newSlot : ℕ) :
    b.shiftAndAppend newLeader newSlot = b.shiftMultiple 1 [newLeader] newSlot := by
  have hfew : ¬ 1 ≥ leaderBufferSize := by decide
  simp only [shiftAndAppend, shiftMultiple, if_neg one_ne_zero, if_neg hfew, shifted_one]

end LeaderBuffer

end Land.Leader
