import Land.Lib.Transition
import Land.Session.Cache

/-!
# Concurrent calls of the session cache

The calls of `SessionTokenCache` with each atomic access of a slot and each version step of its `SeqLock`
as one step, for any number of threads.  The accesses are sequentially consistent.

The copy of a token is not atomic.  A copy during which the version of the `SeqLock` moved may be a mix
of several writes: it is any value, which the access names.  Two writes of one token that overlap are
outside the contract of `SeqLock::write`: they spoil the slot, and from then on every copy made of it may
be any value.
-/

namespace Land.Session

open Land.Quic (Bytes)

local instance slotsPerShard_neZero : NeZero slotsPerShard := ⟨by decide⟩

/-- The address, the version and the token of each slot, and the eviction counter.  The version counts
all steps; the code compares it modulo `2 ^ 64`.  `spoiled` is history. -/
structure Memory where
  addr : Place → BitVec 64
  seq : Place → ℕ
  token : Place → SessionToken
  evictCounter : ℕ
  spoiled : Place → Bool

namespace Memory

def new : Memory := ⟨fun _ => 0, fun _ => 0, fun _ => .empty, 0, fun _ => false⟩

/-- The cache in the memory. -/
def cache (m : Memory) : SessionTokenCache :=
  ⟨fun place => ⟨m.addr place, m.seq place, m.token place⟩, m.evictCounter⟩

/-- A store to the address of a slot, or a successful exchange. -/
def setAddr (m : Memory) (place : Place) (addr : BitVec 64) : Memory :=
  { m with addr := Function.update m.addr place addr }

/-- `version.increment`. -/
def increment (m : Memory) (place : Place) : Memory :=
  { m with seq := Function.update m.seq place (m.seq place + 1) }

/-- The first version step of a write, which overlaps another write if the version is odd. -/
def beginWrite (m : Memory) (place : Place) : Memory :=
  { m.increment place with
    spoiled := Function.update m.spoiled place (m.spoiled place || m.seq place % 2 == 1) }

/-- The store of a token. -/
def setToken (m : Memory) (place : Place) (token : SessionToken) : Memory :=
  { m with token := Function.update m.token place token }

/-- What a copy gives whose `try_read` saw the version `v1`. -/
def copy (m : Memory) (place : Place) (v1 : ℕ) (torn : SessionToken) : SessionToken :=
  if m.seq place = v1 ∧ m.spoiled place = false then m.token place else torn

section Access

variable (m : Memory) {p q : Place}

@[simp] theorem setAddr_addr_self (addr : BitVec 64) : (m.setAddr p addr).addr p = addr :=
  Function.update_self ..

theorem setAddr_addr_of_ne (h : q ≠ p) (addr : BitVec 64) :
    (m.setAddr p addr).addr q = m.addr q :=
  Function.update_of_ne h ..

@[simp] theorem increment_seq_self : (m.increment p).seq p = m.seq p + 1 := Function.update_self ..

theorem increment_seq_of_ne (h : q ≠ p) : (m.increment p).seq q = m.seq q :=
  Function.update_of_ne h ..

theorem le_increment_seq (q : Place) : m.seq q ≤ (m.increment p).seq q := by
  by_cases h : q = p
  · subst h
    simp
  · rw [m.increment_seq_of_ne h]

@[simp] theorem setToken_token_self (token : SessionToken) : (m.setToken p token).token p = token :=
  Function.update_self ..

theorem setToken_token_of_ne (h : q ≠ p) (token : SessionToken) :
    (m.setToken p token).token q = m.token q :=
  Function.update_of_ne h ..

end Access

end Memory

/-! ## The calls -/

/-- The steps of `SeqLock::write`. -/
inductive Stage where
  | enter
  | store
  | leave
  deriving DecidableEq

/-- What a thread does next.  An `insert` that writes a token remembers whether it has put its address
into the slot or found it there. -/
inductive Pc where
  | idle
  | getLoad (a : Peer) (i : Fin slotsPerShard)
  | readVersion (a : Peer) (i : Fin slotsPerShard)
  | readData (a : Peer) (i : Fin slotsPerShard) (v1 : ℕ)
  | readCheck (a : Peer) (i : Fin slotsPerShard) (v1 : ℕ) (value : SessionToken)
  | validate (a : Peer) (token : SessionToken)
  | returned (a : Peer) (result : Option SessionToken)
  | insertLoad (a : Peer) (token : SessionToken) (i : Fin slotsPerShard)
  | claim (a : Peer) (token : SessionToken) (i : Fin slotsPerShard)
  | evict (a : Peer) (token : SessionToken)
  | replace (a : Peer) (token : SessionToken) (i : Fin slotsPerShard)
  | write (stage : Stage) (claimed : Bool) (a : Peer) (token : SessionToken) (i : Fin slotsPerShard)
  | invalidateLoad (a : Peer) (i : Fin slotsPerShard)
  | clear (a : Peer) (i : Fin slotsPerShard)

/-- The next slot of the shard. -/
def nextSlot (i : Fin slotsPerShard) : Option (Fin slotsPerShard) :=
  if h : i.val + 1 < slotsPerShard then some ⟨i.val + 1, h⟩ else none

namespace Pc

/-- The loop of `get` at a slot or after the last one. -/
def getScan (a : Peer) : Option (Fin slotsPerShard) → Pc
  | some i => getLoad a i
  | none => returned a none

/-- The loop of `insert` at a slot or after the last one. -/
def insertScan (a : Peer) (token : SessionToken) : Option (Fin slotsPerShard) → Pc
  | some i => insertLoad a token i
  | none => evict a token

/-- The loop of `invalidate` at a slot or after the last one. -/
def invalidateScan (a : Peer) : Option (Fin slotsPerShard) → Pc
  | some i => invalidateLoad a i
  | none => idle

/-- One access of a call.  `torn` is what a copy gives that is not the token of the slot, `nowNs` the time
that `get` reads. -/
def access (m : Memory) (torn : SessionToken) (nowNs : ℕ) : Pc → Option (Memory × Pc)
  | idle | returned _ _ => none
  | getLoad a i =>
      some (m, if m.addr (a.shard, i) = a.packed then readVersion a i else getScan a (nextSlot i))
  | readVersion a i =>
      let v1 := m.seq (a.shard, i)
      some (m, if v1 % 2 = 1 then readVersion a i else readData a i v1)
  | readData a i v1 => some (m, readCheck a i v1 (m.copy (a.shard, i) v1 torn))
  | readCheck a i v1 value =>
      some (m, if v1 % 2 ^ 64 = m.seq (a.shard, i) % 2 ^ 64 then validate a value else readVersion a i)
  | validate a token => some (m, returned a (if token.isValid nowNs then some token else none))
  | insertLoad a token i =>
      some (m,
        if m.addr (a.shard, i) = a.packed then write .enter false a token i
        else if m.addr (a.shard, i) = 0 then claim a token i
        else insertScan a token (nextSlot i))
  | claim a token i =>
      if m.addr (a.shard, i) = 0 then
        some (m.setAddr (a.shard, i) a.packed, write .enter true a token i)
      else some (m, insertScan a token (nextSlot i))
  | evict a token =>
      some ({ m with evictCounter := m.evictCounter + 1 },
        replace a token (Fin.ofNat slotsPerShard m.evictCounter))
  | replace a token i => some (m.setAddr (a.shard, i) a.packed, write .enter true a token i)
  | write .enter claimed a token i =>
      some (m.beginWrite (a.shard, i), write .store claimed a token i)
  | write .store claimed a token i =>
      some (m.setToken (a.shard, i) token, write .leave claimed a token i)
  | write .leave _ a _ i => some (m.increment (a.shard, i), idle)
  | invalidateLoad a i =>
      some (m, if m.addr (a.shard, i) = a.packed then clear a i else invalidateScan a (nextSlot i))
  | clear a i => some (m.setAddr (a.shard, i) 0, idle)

/-- The thread is between two calls. -/
def ready : Pc → Bool
  | idle | returned _ _ => true
  | _ => false

end Pc

/-! ## Threads -/

/-- The memory, the threads, and as history the tokens of all `insert` calls made so far. -/
structure State (T : Type) where
  mem : Memory
  pc : T → Pc
  inserted : List (Peer × Bytes)

/-- A thread starts a call or makes an access. -/
inductive Action (T : Type) where
  | get (t : T) (a : Peer)
  | insert (t : T) (a : Peer) (tokenData : Bytes) (nowNs : ℕ)
  | invalidate (t : T) (a : Peer)
  | access (t : T) (torn : SessionToken) (nowNs : ℕ)

namespace State

variable {T : Type} [DecidableEq T]

def initial : State T := ⟨.new, fun _ => .idle, []⟩

/-- A thread goes on with `pc` in the memory `m`. -/
def set (s : State T) (t : T) (m : Memory) (pc : Pc) : State T :=
  { s with mem := m, pc := Function.update s.pc t pc }

theorem set_pc_self (s : State T) (t : T) (m : Memory) (pc : Pc) : (s.set t m pc).pc t = pc :=
  Function.update_self ..

theorem set_pc_of_ne (s : State T) {t t' : T} (h : t' ≠ t) (m : Memory) (pc : Pc) :
    (s.set t m pc).pc t' = s.pc t' :=
  Function.update_of_ne h ..

/-- A thread that is ready goes on with `pc`. -/
def start (s : State T) (t : T) (pc : Pc) : Option (State T) :=
  if (s.pc t).ready then some (s.set t s.mem pc) else none

def next (s : State T) : Action T → Option (State T)
  | .get t a => s.start t (.getLoad a 0)
  | .insert t a tokenData nowNs =>
      if tokenData.length > maxTokenSize then s.start t .idle
      else
        { s with inserted := (a, tokenData) :: s.inserted }.start t
          (.insertLoad a (.ofData tokenData nowNs) 0)
  | .invalidate t a => s.start t (.invalidateLoad a 0)
  | .access t torn nowNs =>
      ((s.pc t).access s.mem torn nowNs).map fun r => s.set t r.1 r.2

end State

/-- All interleavings of the calls of the threads. -/
def concurrent (T : Type) [DecidableEq T] : System (State T) (Action T) where
  init s := s = State.initial
  step s act := s.next act

end Land.Session
