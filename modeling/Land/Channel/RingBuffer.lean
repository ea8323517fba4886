import Mathlib.Tactic

/-!
# Ring buffer storage

The slots of a channel (`channel/src/ringbuffer.rs`) and the sequence cursors
(`cpu/src/cursor.rs`).  Sequences are mathematical integers: a cursor starts at `-1` and moves up by
one per event, so it does not reach `2 ^ 63` and `as usize` keeps the value of every sequence that is
used as an index.  The memory of a slot distinguishes what was never written, a value, and a value
moved out by `read`, whose bytes are still there.
-/

namespace Land.Channel

/-- `INITIAL_CURSOR_VALUE`. -/
def initialCursorValue : ℤ := -1

/-- `sequence as usize`. -/
def asUsize (sequence : ℤ) : ℕ := sequence.toNat

@[simp] theorem asUsize_natCast (n : ℕ) : asUsize (n : ℤ) = n := rfl

@[simp] theorem asUsize_natCast_add (n k : ℕ) : asUsize ((n : ℤ) + (k : ℤ)) = n + k := by
  unfold asUsize
  omega

/-- The memory of one slot. -/
inductive Slot (T : Type) where
  | uninit
  | live (v : T)
  | moved (v : T)
  deriving Repr, DecidableEq

namespace Slot

variable {T : Type}

/-- What reading the memory gives; `none` for memory that was never written. -/
def bits : Slot T → Option T
  | uninit => none
  | live v => some v
  | moved v => some v

/-- The slot after its value was moved out. -/
def moveOut : Slot T → Slot T
  | live v => moved v
  | s => s

@[simp] theorem bits_live (v : T) : (live v).bits = some v := rfl

@[simp] theorem bits_moveOut (s : Slot T) : s.moveOut.bits = s.bits := by cases s <;> rfl

end Slot

/-- `is_power_of_two`. -/
def isPowerOfTwo (n : ℕ) : Bool := n != 0 && (n &&& (n - 1)) == 0

theorem isPowerOfTwo_iff (n : ℕ) : isPowerOfTwo n = true ↔ ∃ k, n = 2 ^ k := by
  rw [← Nat.isPowerOfTwo, ← Nat.ne_zero_and_sub_one_eq_zero_iff_isPowerOfTwo]
  simp [isPowerOfTwo]

theorem pos_of_isPowerOfTwo {n : ℕ} (h : isPowerOfTwo n = true) : 0 < n := by
  obtain ⟨k, rfl⟩ := (isPowerOfTwo_iff n).1 h
  exact Nat.two_pow_pos k

/-- `RingBuffer<T>`. -/
structure RingBuffer (T : Type) where
  slots : ℕ → Slot T
  mask : ℕ
  capacity : ℕ

namespace RingBuffer

variable {T : Type}

/-- `RingBuffer::new` and `RingBuffer::with_factory`: the slots are uninitialised, or each holds a
value made by `factory`.  `none` is the panic on a capacity that is not a power of two. -/
def new (capacity : ℕ) (factory : Option T) : Option (RingBuffer T) :=
  if isPowerOfTwo capacity then
    some {
      slots := fun _ => match factory with
        | none => .uninit
        | some v => .live v
      mask := capacity - 1
      capacity := capacity }
  else none

/-- `index`: the slot of a sequence. -/
def index (b : RingBuffer T) (sequence : ℤ) : ℕ := asUsize sequence &&& b.mask

/-- `write`: overwrite the slot of a sequence. -/
def write (b : RingBuffer T) (sequence : ℤ) (event : T) : RingBuffer T :=
  { b with slots := Function.update b.slots (b.index sequence) (.live event) }

/-- `get`: what is in the slot of a sequence. -/
def get (b : RingBuffer T) (sequence : ℤ) : Option T := (b.slots (b.index sequence)).bits

/-- `read`: what is in the slot of a sequence, and the buffer after the value is moved out. -/
def read (b : RingBuffer T) (sequence : ℤ) : Option T × RingBuffer T :=
  (b.get sequence,
    { b with
      slots := Function.update b.slots (b.index sequence) (b.slots (b.index sequence)).moveOut })

/-- A buffer made by `new` for the capacity `cap`. -/
structure WellFormed (b : RingBuffer T) (cap : ℕ) : Prop where
  capacity_eq : b.capacity = cap
  mask_eq : b.mask = cap - 1
  isPowerOfTwo : isPowerOfTwo cap = true

theorem wellFormed_new {cap : ℕ} {factory : Option T} {b : RingBuffer T}
    (h : new cap factory = some b) : b.WellFormed cap := by
  unfold new at h
  split_ifs at h with hp
  cases h
  exact ⟨rfl, rfl, hp⟩

/-- The mask reduces a sequence modulo the capacity. -/
theorem WellFormed.index_eq {b : RingBuffer T} {cap : ℕ} (h : b.WellFormed cap) (sequence : ℤ) :
    b.index sequence = asUsize sequence % cap := by
  obtain ⟨k, rfl⟩ := (isPowerOfTwo_iff cap).1 h.isPowerOfTwo
  rw [index, h.mask_eq, Nat.and_two_pow_sub_one_eq_mod]

theorem WellFormed.write {b : RingBuffer T} {cap : ℕ} (h : b.WellFormed cap) (sequence : ℤ)
    (event : T) : (b.write sequence event).WellFormed cap :=
  ⟨h.capacity_eq, h.mask_eq, h.isPowerOfTwo⟩

theorem WellFormed.read {b : RingBuffer T} {cap : ℕ} (h : b.WellFormed cap) (sequence : ℤ) :
    (b.read sequence).2.WellFormed cap :=
  ⟨h.capacity_eq, h.mask_eq, h.isPowerOfTwo⟩

/-- Moving a value out leaves the bytes of every slot. -/
theorem read_bits (b : RingBuffer T) (sequence : ℤ) (j : ℕ) :
    ((b.read sequence).2.slots j).bits = (b.slots j).bits := by
  simp only [read, Function.update_apply]
  split_ifs with h
  · rw [h, Slot.bits_moveOut]
  · rfl

theorem write_bits (b : RingBuffer T) (sequence : ℤ) (event : T) :
    (fun j => ((b.write sequence event).slots j).bits) =
      Function.update (fun j => (b.slots j).bits) (b.index sequence) (some event) := by
  funext j
  simp only [write, Function.update_apply]
  split_ifs <;> rfl

/-- The slot holds a value. -/
def LiveAt (b : RingBuffer T) (j : ℕ) : Prop := ∃ v, b.slots j = .live v

theorem liveAt_write (b : RingBuffer T) (sequence : ℤ) (event : T) :
    (b.write sequence event).LiveAt (b.index sequence) :=
  ⟨event, Function.update_self _ _ _⟩

theorem liveAt_write_of_ne {b : RingBuffer T} {j : ℕ} {sequence : ℤ} (hj : j ≠ b.index sequence)
    (event : T) : (b.write sequence event).LiveAt j ↔ b.LiveAt j := by
  simp only [LiveAt, write, Function.update_of_ne hj]

theorem LiveAt.write {b : RingBuffer T} {j : ℕ} (h : b.LiveAt j) (sequence : ℤ) (event : T) :
    (b.write sequence event).LiveAt j := by
  by_cases hj : j = b.index sequence
  · rw [hj]
    exact b.liveAt_write sequence event
  · exact (liveAt_write_of_ne hj event).2 h

theorem liveAt_read_of_ne {b : RingBuffer T} {j : ℕ} {sequence : ℤ} (hj : j ≠ b.index sequence) :
    (b.read sequence).2.LiveAt j ↔ b.LiveAt j := by
  simp only [LiveAt, read, Function.update_of_ne hj]

/-- What was moved out is not there any more. -/
theorem not_liveAt_read (b : RingBuffer T) (sequence : ℤ) :
    ¬ (b.read sequence).2.LiveAt (b.index sequence) := by
  rintro ⟨v, hv⟩
  simp only [read, Function.update_self] at hv
  cases hs : b.slots (b.index sequence) <;> rw [hs] at hv <;> cases hv

end RingBuffer

end Land.Channel
