import Land.Lib.Versioned
import Land.Leader.Buffer

/-!
# The words of the leader buffer

The entries of a `LeaderBuffer` as they are in memory: the public key in four words and every other field
in a word of its own, and the stores of `update`, `shift_and_append` and `shift_multiple`
(`leader/src/leader_buffer.rs`) in their order.  Executing the stores gives the entries of the functions
of `Land.Leader.Buffer`.
-/

namespace Land.Leader

open Versioned

/-- The words of a `LeaderEntry`, without its padding. -/
inductive EntryWord where
  | pubkey (i : Fin 4)
  | tpuQuicIp
  | tpuQuicPort
  | tpuQuicFwdIp
  | tpuQuicFwdPort
  | startSlot
  deriving Repr, DecidableEq

namespace EntryWord

/-- All words, in the order of the fields. -/
def all : List EntryWord :=
  [pubkey 0, pubkey 1, pubkey 2, pubkey 3, tpuQuicIp, tpuQuicPort, tpuQuicFwdIp, tpuQuicFwdPort,
    startSlot]

theorem mem_all (w : EntryWord) : w ∈ all := by
  cases w with
  | pubkey i => fin_cases i <;> decide
  | _ => decide

end EntryWord

namespace LeaderEntry

/-- The word of an entry. -/
def word (e : LeaderEntry) : EntryWord → BitVec 64
  | .pubkey i => e.pubkey.extractLsb' (64 * i) 64
  | .tpuQuicIp => e.tpuQuicIp.setWidth 64
  | .tpuQuicPort => e.tpuQuicPort.setWidth 64
  | .tpuQuicFwdIp => e.tpuQuicFwdIp.setWidth 64
  | .tpuQuicFwdPort => e.tpuQuicFwdPort.setWidth 64
  | .startSlot => BitVec.ofNat 64 e.startSlot

/-- The entry with given words. -/
def ofWords (w : EntryWord → BitVec 64) : LeaderEntry where
  pubkey := w (.pubkey 3) ++ w (.pubkey 2) ++ w (.pubkey 1) ++ w (.pubkey 0)
  tpuQuicIp := (w .tpuQuicIp).setWidth 32
  tpuQuicPort := (w .tpuQuicPort).setWidth 16
  tpuQuicFwdIp := (w .tpuQuicFwdIp).setWidth 32
  tpuQuicFwdPort := (w .tpuQuicFwdPort).setWidth 16
  startSlot := (w .startSlot).toNat

theorem pubkey_words (x : BitVec 256) :
    x.extractLsb' 192 64 ++ x.extractLsb' 128 64 ++ x.extractLsb' 64 64 ++ x.extractLsb' 0 64 = x := by
  have h1 : x.extractLsb' 192 64 ++ x.extractLsb' 128 64 = x.extractLsb' 128 128 :=
    BitVec.extractLsb'_append_extractLsb'_eq_extractLsb' rfl
  have h2 : x.extractLsb' 128 128 ++ x.extractLsb' 64 64 = x.extractLsb' 64 192 :=
    BitVec.extractLsb'_append_extractLsb'_eq_extractLsb' rfl
  have h3 : x.extractLsb' 64 192 ++ x.extractLsb' 0 64 = x.extractLsb' 0 256 :=
    BitVec.extractLsb'_append_extractLsb'_eq_extractLsb' rfl
  rw [h1, h2, h3]
  exact BitVec.extractLsb'_eq_self

/-- An entry whose start slot is set after its other words are stored. -/
theorem ofWords_of_startSlot {w : EntryWord → BitVec 64} (e : LeaderEntry) (slot : ℕ)
    (hw : ∀ x, x ≠ .startSlot → w x = e.word x) (hslot : w .startSlot = BitVec.ofNat 64 slot) :
    ofWords w = e.setStartSlot (u64 slot) := by
  have hpubkey (i : Fin 4) : w (.pubkey i) = e.pubkey.extractLsb' (64 * i) 64 := hw _ nofun
  have hquicIp : w .tpuQuicIp = e.tpuQuicIp.setWidth 64 := hw _ nofun
  have hquicPort : w .tpuQuicPort = e.tpuQuicPort.setWidth 64 := hw _ nofun
  have hfwdIp : w .tpuQuicFwdIp = e.tpuQuicFwdIp.setWidth 64 := hw _ nofun
  have hfwdPort : w .tpuQuicFwdPort = e.tpuQuicFwdPort.setWidth 64 := hw _ nofun
  rw [ofWords, hpubkey 3, hpubkey 2, hpubkey 1, hpubkey 0, hquicIp, hquicPort, hfwdIp, hfwdPort, hslot,
    BitVec.setWidth_setWidth_of_le _ (by decide), BitVec.setWidth_setWidth_of_le _ (by decide),
    BitVec.setWidth_setWidth_of_le _ (by decide), BitVec.setWidth_setWidth_of_le _ (by decide),
    BitVec.toNat_ofNat]
  exact congrArg (fun p => LeaderEntry.mk p _ _ _ _ _) (pubkey_words e.pubkey)

theorem ofWords_word {e : LeaderEntry} (h : e.startSlot < 2 ^ 64) : ofWords e.word = e := by
  have hw := ofWords_of_startSlot (w := e.word) e e.startSlot (fun _ _ => rfl) rfl
  rw [hw, u64_of_lt h]
  rfl

end LeaderEntry

/-- The words of a `LeaderBuffer`. -/
inductive Address where
  | entry (position : ℕ) (word : EntryWord)
  | currentSlot
  deriving Repr, DecidableEq

/-- The entries in a memory. -/
def entriesOf (m : Address → BitVec 64) : Entries := fun i => .ofWords fun w => m (.entry i w)

/-! ## Stores -/

/-- Store the entries at `count` positions from `start` on, word by word. -/
def storeEntries (start count : ℕ) (f : ℕ → EntryWord → BitVec 64) : List (Address × BitVec 64) :=
  (List.range' start count).flatMap fun i => EntryWord.all.map fun w => (.entry i w, f i w)

/-- `entries[start..start + src.len()].copy_from_slice(src)`. -/
def copyFromSliceStores (start : ℕ) (src : List LeaderEntry) : List (Address × BitVec 64) :=
  storeEntries start src.length fun i w => (src[i - start]?.getD .empty).word w

/-- `entries.copy_within(count..LEADER_BUFFER_SIZE, 0)`, in a memory `m`. -/
def copyWithinStores (count : ℕ) (m : Address → BitVec 64) : List (Address × BitVec 64) :=
  storeEntries 0 (leaderBufferSize - count) fun i w => m (.entry (i + count) w)

/-- The loop that clears the entries from position `start` on. -/
def clearStores (start : ℕ) : List (Address × BitVec 64) :=
  storeEntries start (leaderBufferSize - start) fun _ w => LeaderEntry.empty.word w

/-- The loop that sets `start_slot` from position `start` on. -/
def setStartSlotStores (start baseSlot : ℕ) : List (Address × BitVec 64) :=
  (List.range' start (leaderBufferSize - start)).map fun i =>
    (.entry i .startSlot, BitVec.ofNat 64 (baseSlot + i * slotsPerLeader))

/-- `current_slot.store(slot)`. -/
def currentSlotStore (slot : ℕ) : List (Address × BitVec 64) := [(.currentSlot, BitVec.ofNat 64 slot)]

/-- The stores that replace all entries, in `update` and in `shift_multiple`. -/
def replaceAllStores (newEntries : List LeaderEntry) (newSlot : ℕ) : List (Address × BitVec 64) :=
  let copyLen := min newEntries.length leaderBufferSize
  copyFromSliceStores 0 (newEntries.take copyLen) ++ clearStores copyLen ++
    setStartSlotStores 0 (LeaderBuffer.baseSlot newSlot)

/-- The stores of a shift by `count < LEADER_BUFFER_SIZE` positions. -/
def shiftedStores (count : ℕ) (newLeaders : List LeaderEntry) (newSlot : ℕ) (m : Address → BitVec 64) :
    List (Address × BitVec 64) :=
  let startPos := leaderBufferSize - count
  let newCount := min newLeaders.length count
  copyWithinStores count m ++ copyFromSliceStores startPos (newLeaders.take newCount) ++
    clearStores (startPos + newCount) ++ setStartSlotStores startPos (LeaderBuffer.baseSlot newSlot)

/-- The calls of the writer. -/
inductive WriteCall where
  | update (newSlot : ℕ) (newEntries : List LeaderEntry)
  | shiftAndAppend (newLeader : LeaderEntry) (newSlot : ℕ)
  | shiftMultiple (count : ℕ) (newLeaders : List LeaderEntry) (newSlot : ℕ)
  deriving DecidableEq

namespace WriteCall

/-- The call returns at once. -/
def skips : WriteCall → Bool
  | shiftMultiple count _ _ => count == 0
  | _ => false

/-- The stores of a call between `begin_write` and `end_write`. -/
def stores (m : Address → BitVec 64) : WriteCall → List (Address × BitVec 64)
  | update newSlot newEntries => replaceAllStores newEntries newSlot ++ currentSlotStore newSlot
  | shiftAndAppend newLeader newSlot =>
      let newLeader := newLeader.setStartSlot
        (u64 (LeaderBuffer.baseSlot newSlot + (leaderBufferSize - 1) * slotsPerLeader))
      copyWithinStores 1 m ++ copyFromSliceStores (leaderBufferSize - 1) [newLeader] ++
        currentSlotStore newSlot
  | shiftMultiple count newLeaders newSlot =>
      if count = 0 then []
      else
        (if count ≥ leaderBufferSize then replaceAllStores newLeaders newSlot
          else shiftedStores count newLeaders newSlot m) ++ currentSlotStore newSlot

/-- The call on the buffer as a whole. -/
def apply (b : LeaderBuffer) : WriteCall → LeaderBuffer
  | update newSlot newEntries => b.update newSlot newEntries
  | shiftAndAppend newLeader newSlot => b.shiftAndAppend newLeader newSlot
  | shiftMultiple count newLeaders newSlot => b.shiftMultiple count newLeaders newSlot

end WriteCall

/-! ## The entries after the stores -/

theorem foldl_storeEntries (start count : ℕ) (f : ℕ → EntryWord → BitVec 64) (m : Address → BitVec 64)
    (i : ℕ) (w : EntryWord) :
    (storeEntries start count f).foldl store m (.entry i w) =
      if start ≤ i ∧ i < start + count then f i w else m (.entry i w) := by
  let g : Address → BitVec 64
    | .entry i w => f i w
    | .currentSlot => 0
  have hstores : storeEntries start count f =
      ((List.range' start count).flatMap fun i => EntryWord.all.map (Address.entry i)).map
        fun a => (a, g a) := by
    simp [storeEntries, List.map_flatMap, Function.comp_def, g]
  rw [hstores, foldl_store_map]
  simp [EntryWord.mem_all, List.mem_range'_1, g]

theorem foldl_setStartSlotStores (start baseSlot : ℕ) (m : Address → BitVec 64) (i : ℕ)
    (w : EntryWord) :
    (setStartSlotStores start baseSlot).foldl store m (.entry i w) =
      if w = .startSlot ∧ start ≤ i ∧ i < leaderBufferSize then
        BitVec.ofNat 64 (baseSlot + i * slotsPerLeader)
      else m (.entry i w) := by
  let g : Address → BitVec 64
    | .entry i _ => BitVec.ofNat 64 (baseSlot + i * slotsPerLeader)
    | .currentSlot => 0
  have hstores : setStartSlotStores start baseSlot =
      ((List.range' start (leaderBufferSize - start)).map fun i => Address.entry i .startSlot).map
        fun a => (a, g a) := by
    simp [setStartSlotStores, Function.comp_def, g]
  have hmem : Address.entry i w ∈ (List.range' start (leaderBufferSize - start)).map
      (fun i => Address.entry i .startSlot) ↔
        w = .startSlot ∧ start ≤ i ∧ i < leaderBufferSize := by
    simp only [List.mem_map, Address.entry.injEq, List.mem_range'_1]
    constructor
    · rintro ⟨j, hj, rfl, rfl⟩
      exact ⟨rfl, by omega⟩
    · rintro ⟨rfl, hi⟩
      exact ⟨i, by omega, rfl, rfl⟩
  rw [hstores, foldl_store_map]
  simp only [hmem, g]

theorem foldl_currentSlotStore (slot : ℕ) (m : Address → BitVec 64) (i : ℕ) (w : EntryWord) :
    (currentSlotStore slot).foldl store m (.entry i w) = m (.entry i w) := by
  have hne : Address.entry i w ≠ .currentSlot := nofun
  exact Function.update_of_ne hne (BitVec.ofNat 64 slot) m

/-- New entries are copied to `start`, the rest is cleared from `stop` on, and the start slots are set. -/
theorem ofWords_new (m : Address → BitVec 64) (entries : Entries) {start stop : ℕ} (baseSlot : ℕ)
    {src : List LeaderEntry} (hstop : start + src.length = stop) {i : Fin leaderBufferSize}
    (hi : start ≤ i) :
    LeaderEntry.ofWords (fun w => (copyFromSliceStores start src ++ clearStores stop ++
        setStartSlotStores start baseSlot).foldl store m (.entry i w)) =
      (((entries.copyFromSlice start src).clear stop).setStartSlots start baseSlot) i := by
  subst hstop
  have hlt := i.isLt
  simp only [Entries.setStartSlots, if_pos hi, Entries.clear, Entries.copyFromSlice]
  refine LeaderEntry.ofWords_of_startSlot _ _ (fun w hw => ?_) ?_
  · rw [List.foldl_append, List.foldl_append, foldl_setStartSlotStores, if_neg fun h => hw h.1,
      clearStores, foldl_storeEntries, copyFromSliceStores, foldl_storeEntries]
    by_cases hcopied : start + src.length ≤ i
    · rw [if_pos hcopied, if_pos ⟨hcopied, by omega⟩]
    · have hsrc : i.val - start < src.length := by omega
      rw [if_neg hcopied, if_neg fun h => hcopied h.1, if_pos ⟨hi, not_le.1 hcopied⟩,
        List.getElem?_eq_getElem hsrc]
      rfl
  · rw [List.foldl_append, foldl_setStartSlotStores, if_pos ⟨rfl, hi, hlt⟩]

/-- They do not touch the positions before `start`. -/
theorem foldl_new_of_lt (m : Address → BitVec 64) {start stop : ℕ} (baseSlot : ℕ)
    {src : List LeaderEntry} (hstop : start ≤ stop) {i : ℕ} (hi : i < start) (w : EntryWord) :
    (copyFromSliceStores start src ++ clearStores stop ++ setStartSlotStores start baseSlot).foldl
      store m (.entry i w) = m (.entry i w) := by
  rw [List.foldl_append, List.foldl_append, foldl_setStartSlotStores, if_neg (by omega), clearStores,
    foldl_storeEntries, if_neg (by omega), copyFromSliceStores, foldl_storeEntries, if_neg (by omega)]

theorem foldl_copyWithinStores (m : Address → BitVec 64) {count i : ℕ}
    (h : i + count < leaderBufferSize) (w : EntryWord) :
    (copyWithinStores count m).foldl store m (.entry i w) = m (.entry (i + count) w) := by
  rw [copyWithinStores, foldl_storeEntries, if_pos ⟨Nat.zero_le i, by omega⟩]

theorem entriesOf_replaceAll (m : Address → BitVec 64) (newEntries : List LeaderEntry)
    (newSlot : ℕ) :
    entriesOf ((replaceAllStores newEntries newSlot).foldl store m) =
      LeaderBuffer.replaceAll (entriesOf m) newEntries newSlot := by
  funext i
  exact ofWords_new m (entriesOf m) _ (by simp) (Nat.zero_le i)

theorem entriesOf_shifted (m : Address → BitVec 64) {count : ℕ} (newLeaders : List LeaderEntry)
    (newSlot : ℕ) :
    entriesOf ((shiftedStores count newLeaders newSlot m).foldl store m) =
      LeaderBuffer.shifted (entriesOf m) count newLeaders newSlot := by
  funext i
  simp only [entriesOf, shiftedStores, List.append_assoc]
  rw [List.foldl_append]
  by_cases h : i.val + count < leaderBufferSize
  · rw [LeaderBuffer.shifted_old _ _ h]
    refine congrArg LeaderEntry.ofWords (funext fun w => ?_)
    rw [← List.append_assoc, foldl_new_of_lt _ _ (Nat.le_add_right _ _) (by omega),
      foldl_copyWithinStores m h]
  · rw [← List.append_assoc]
    exact ofWords_new _ _ _ (by simp) (by omega)

theorem entriesOf_shiftAndAppend (m : Address → BitVec 64) {newLeader : LeaderEntry}
    (hslot : newLeader.startSlot < 2 ^ 64) :
    entriesOf ((copyWithinStores 1 m ++ copyFromSliceStores (leaderBufferSize - 1)
        [newLeader]).foldl store m) =
      ((entriesOf m).copyWithin 1).copyFromSlice (leaderBufferSize - 1) [newLeader] := by
  funext i
  have hi := i.isLt
  simp only [entriesOf, Entries.copyFromSlice, Entries.copyWithin]
  by_cases h : i.val + 1 < leaderBufferSize
  · rw [if_neg (by omega), dif_pos h]
    refine congrArg LeaderEntry.ofWords (funext fun w => ?_)
    rw [List.foldl_append, copyFromSliceStores, foldl_storeEntries, if_neg (by omega),
      foldl_copyWithinStores m h]
  · have hlast : i.val - (leaderBufferSize - 1) = 0 := by omega
    rw [if_pos (by omega), hlast]
    refine Eq.trans (congrArg LeaderEntry.ofWords (funext fun w => ?_)) (LeaderEntry.ofWords_word hslot)
    rw [List.foldl_append, copyFromSliceStores, foldl_storeEntries, hlast,
      if_pos ⟨by omega, by simp; omega⟩]
    rfl

/-- The stores of a call make the entries of the call. -/
theorem entriesOf_stores (m : Address → BitVec 64) {b : LeaderBuffer} (hb : entriesOf m = b.entries)
    (c : WriteCall) : entriesOf ((c.stores m).foldl store m) = (c.apply b).entries := by
  have hslot (stores : List (Address × BitVec 64)) (slot : ℕ) :
      entriesOf ((stores ++ currentSlotStore slot).foldl store m) =
        entriesOf (stores.foldl store m) := by
    funext i
    refine congrArg LeaderEntry.ofWords (funext fun w => ?_)
    rw [List.foldl_append, foldl_currentSlotStore]
  cases c with
  | update newSlot newEntries =>
    rw [WriteCall.stores, hslot, entriesOf_replaceAll, hb]
    rfl
  | shiftAndAppend newLeader newSlot =>
    simp only [WriteCall.stores]
    rw [hslot, entriesOf_shiftAndAppend m (Nat.mod_lt _ (Nat.two_pow_pos 64)), hb]
    rfl
  | shiftMultiple count newLeaders newSlot =>
    simp only [WriteCall.stores, WriteCall.apply, LeaderBuffer.shiftMultiple]
    split_ifs with hzero hfull
    · exact hb
    · rw [hslot, entriesOf_replaceAll, hb]
      rfl
    · rw [hslot, entriesOf_shifted, hb]
      rfl

end Land.Leader
