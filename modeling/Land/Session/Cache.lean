import Land.Quic.Pool

/-!
# The session token cache

`SessionTokenCache` of `quic/src/session_cache.rs`: 64 shards of two slots, each with a packed address
(`0` for an empty slot) and a token behind a `SeqLock`.  Here every call is one step; the accesses of
calls that overlap are the subject of `Land.Session.Concurrent`.  The version counter of a slot is left
out, as nothing reads it.

The peers are the IPv4 addresses other than `0.0.0.0:0`: those that the packing keeps apart from each
other and from an empty slot.
-/

namespace Land.Session

open Land.Quic (Bytes SocketAddr)

/-- `SHARDS`. -/
abbrev shards : ℕ := 64

/-- `SLOTS_PER_SHARD`. -/
abbrev slotsPerShard : ℕ := 2

/-- `SESSION_TTL_NS`. -/
def sessionTtlNs : ℕ := 3600000000000

/-- The size of the buffer of a token. -/
def maxTokenSize : ℕ := 1024

/-- `pack_addr`. -/
def packAddr : SocketAddr → BitVec 64
  | .v4 ip port => (ip.setWidth 64 <<< 16) ||| port.setWidth 64
  | .v6 ip port _ _ =>
      let hash : BitVec 64 := (SocketAddr.segments ip).foldl
        (fun hash seg => (hash ^^^ seg.setWidth 64) * 1099511628211) 2166136261
      ((hash ^^^ port.setWidth 64) * 1099511628211) &&& 0xFFFFFFFFFFFF

/-- `shard_for`. -/
def shardFor (addr : SocketAddr) : Fin shards := Fin.ofNat shards (packAddr addr).toNat

/-! ## Peers -/

/-- An IPv4 address other than `0.0.0.0:0`. -/
structure Peer where
  ip : BitVec 32
  port : BitVec 16
  ne_zero : ¬ (ip = 0 ∧ port = 0)
  deriving DecidableEq

namespace Peer

def addr (a : Peer) : SocketAddr := .v4 a.ip a.port

/-- The packed address. -/
def packed (a : Peer) : BitVec 64 := packAddr a.addr

theorem toNat_packed (a : Peer) : a.packed.toNat = a.ip.toNat * 2 ^ 16 + a.port.toNat := by
  have hip : a.ip.toNat < 2 ^ 32 := a.ip.isLt
  have hport : a.port.toNat < 2 ^ 16 := a.port.isLt
  have hshift : (a.ip.setWidth 64 <<< 16).toNat = a.ip.toNat * 2 ^ 16 := by
    rw [BitVec.toNat_shiftLeft, BitVec.toNat_setWidth, Nat.mod_eq_of_lt (by omega), Nat.shiftLeft_eq,
      Nat.mod_eq_of_lt (by omega)]
  have hlow : (a.port.setWidth 64).toNat = a.port.toNat := by
    rw [BitVec.toNat_setWidth, Nat.mod_eq_of_lt (by omega)]
  show ((a.ip.setWidth 64 <<< 16) ||| a.port.setWidth 64).toNat = _
  rw [BitVec.toNat_or, hshift, hlow, ← Nat.shiftLeft_eq, ← Nat.shiftLeft_add_eq_or_of_lt hport]

theorem packed_injective {a b : Peer} (h : a.packed = b.packed) : a = b := by
  have hnat := congrArg BitVec.toNat h
  rw [toNat_packed, toNat_packed] at hnat
  have hip : a.ip = b.ip := BitVec.eq_of_toNat_eq (by omega)
  have hport : a.port = b.port := BitVec.eq_of_toNat_eq (by omega)
  cases a
  cases b
  cases hip
  cases hport
  rfl

theorem packed_ne_zero (a : Peer) : a.packed ≠ 0 := by
  intro h
  have hnat := congrArg BitVec.toNat h
  rw [toNat_packed] at hnat
  have hzero : (0 : BitVec 64).toNat = 0 := rfl
  have hip : a.ip = 0 := BitVec.eq_of_toNat_eq (by show a.ip.toNat = 0; omega)
  have hport : a.port = 0 := BitVec.eq_of_toNat_eq (by show a.port.toNat = 0; omega)
  exact a.ne_zero ⟨hip, hport⟩

/-- The shard of a peer. -/
def shard (a : Peer) : Fin shards := shardFor a.addr

/-- Two peers of one shard. -/
def first : Peer := ⟨0x7F000001, 8001, by decide⟩

def second : Peer := ⟨0x7F000001, 8065, by decide⟩

end Peer

/-! ## Tokens and slots -/

/-- `SessionToken`. -/
structure SessionToken where
  data : Bytes
  len : ℕ
  timestampNs : ℕ

namespace SessionToken

/-- `empty`. -/
def empty : SessionToken := ⟨List.replicate maxTokenSize 0, 0, 0⟩

/-- The token that `insert` makes. -/
def ofData (tokenData : Bytes) (nowNs : ℕ) : SessionToken where
  data := tokenData ++ empty.data.drop tokenData.length
  len := tokenData.length
  timestampNs := nowNs

/-- `is_valid`. -/
def isValid (token : SessionToken) (nowNs : ℕ) : Bool :=
  token.len > 0 ∧ nowNs - token.timestampNs < sessionTtlNs

/-- `as_slice`. -/
def asSlice (token : SessionToken) : Bytes := token.data.take token.len

@[simp] theorem asSlice_ofData (tokenData : Bytes) (nowNs : ℕ) :
    (ofData tokenData nowNs).asSlice = tokenData :=
  List.take_left

end SessionToken

/-- `AtomicSlot`: the address, and the version and the data of the token's `SeqLock`. -/
structure AtomicSlot where
  addr : BitVec 64
  seq : ℕ
  token : SessionToken

/-- `AtomicSlot::new`. -/
def AtomicSlot.new : AtomicSlot := ⟨0, 0, .empty⟩

/-- A slot of a shard. -/
abbrev Place := Fin shards × Fin slotsPerShard

/-- `SessionTokenCache`. -/
@[ext]
structure SessionTokenCache where
  slots : Place → AtomicSlot
  evictCounter : ℕ

namespace SessionTokenCache

/-- `new`. -/
def new : SessionTokenCache := ⟨fun _ => .new, 0⟩

/-- The first slot of the shard that has the address. -/
def slotOf (c : SessionTokenCache) (addr : SocketAddr) : Option (Fin slotsPerShard) :=
  Fin.find? fun i => (c.slots (shardFor addr, i)).addr == packAddr addr

/-- `get`. -/
def get (c : SessionTokenCache) (addr : SocketAddr) (nowNs : ℕ) : Option SessionToken :=
  match c.slotOf addr with
  | some i =>
      let token := (c.slots (shardFor addr, i)).token
      if token.isValid nowNs then some token else none
  | none => none

/-- A slot gets an address and a token. -/
def put (c : SessionTokenCache) (place : Place) (addr : BitVec 64) (token : SessionToken) :
    SessionTokenCache :=
  { c with slots := Function.update c.slots place ⟨addr, (c.slots place).seq + 2, token⟩ }

theorem put_slots_self (c : SessionTokenCache) (place : Place) (addr : BitVec 64)
    (token : SessionToken) :
    (c.put place addr token).slots place = ⟨addr, (c.slots place).seq + 2, token⟩ :=
  Function.update_self ..

theorem put_slots_of_ne (c : SessionTokenCache) {place place' : Place} (h : place' ≠ place)
    (addr : BitVec 64) (token : SessionToken) :
    (c.put place addr token).slots place' = c.slots place' :=
  Function.update_of_ne h ..

/-- `insert`. -/
def insert (c : SessionTokenCache) (addr : SocketAddr) (tokenData : Bytes) (nowNs : ℕ) :
    SessionTokenCache × Except String Unit :=
  if tokenData.length > maxTokenSize then (c, .error "Session token exceeds maximum size")
  else
    let shard := shardFor addr
    let token := SessionToken.ofData tokenData nowNs
    -- update the slot of the address or claim an empty one, whichever comes first
    match Fin.find? fun i =>
        (c.slots (shard, i)).addr == packAddr addr || (c.slots (shard, i)).addr == 0 with
    | some i => (c.put (shard, i) (packAddr addr) token, .ok ())
    | none =>
        let evictSlotIdx := Fin.ofNat slotsPerShard c.evictCounter
        ({ c.put (shard, evictSlotIdx) (packAddr addr) token with
           evictCounter := c.evictCounter + 1 }, .ok ())

/-- `invalidate`. -/
def invalidate (c : SessionTokenCache) (addr : SocketAddr) : SessionTokenCache :=
  match c.slotOf addr with
  | some i =>
      let place := (shardFor addr, i)
      { c with slots := Function.update c.slots place { c.slots place with addr := 0 } }
  | none => c

/-! ## What the calls do to the slots -/

variable (c : SessionTokenCache) (a : Peer)

theorem get_eq_some {nowNs : ℕ} {token : SessionToken} (h : c.get a.addr nowNs = some token) :
    ∃ i, (c.slots (a.shard, i)).addr = a.packed ∧ token = (c.slots (a.shard, i)).token := by
  simp only [get] at h
  split at h
  · rename_i i hi
    have haddr := (Fin.find?_eq_some_iff.mp hi).1
    simp only [Option.ite_none_right_eq_some, Option.some.injEq] at h
    exact ⟨i, eq_of_beq haddr, h.2.symm⟩
  · cases h

/-- The slot has the address of the peer or none. -/
def Free (i : Fin slotsPerShard) : Prop :=
  (c.slots (a.shard, i)).addr = a.packed ∨ (c.slots (a.shard, i)).addr = 0

instance (i : Fin slotsPerShard) : Decidable (c.Free a i) := inferInstanceAs (Decidable (_ ∨ _))

/-- The test of the loop of `insert`. -/
theorem free_iff (i : Fin slotsPerShard) : ((c.slots (shardFor a.addr, i)).addr == packAddr a.addr ||
    (c.slots (shardFor a.addr, i)).addr == 0) = true ↔ c.Free a i := by
  rw [Bool.or_eq_true, beq_iff_eq, beq_iff_eq]
  rfl

/-- An `insert` puts the token into one slot of the shard, the first one that has the address or none if
there is such a slot. -/
theorem insert_spec {tokenData : Bytes} (hlen : tokenData.length ≤ maxTokenSize) (nowNs : ℕ) :
    ∃ i, (c.insert a.addr tokenData nowNs).1.slots =
        (c.put (a.shard, i) a.packed (.ofData tokenData nowNs)).slots ∧
      ∀ j, c.Free a j → i ≤ j ∧ c.Free a i := by
  simp only [insert, if_neg (Nat.not_lt.mpr hlen)]
  split
  · rename_i i hi
    obtain ⟨hsome, hbefore⟩ := Fin.find?_eq_some_iff.mp hi
    refine ⟨i, rfl, fun j hj => ⟨not_lt.mp fun hji => ?_, (c.free_iff a i).mp hsome⟩⟩
    exact Bool.eq_false_iff.mp (hbefore j hji) ((c.free_iff a j).mpr hj)
  · rename_i hnone
    refine ⟨Fin.ofNat slotsPerShard c.evictCounter, rfl, fun j hj => ?_⟩
    exact absurd ((c.free_iff a j).mpr hj) (Bool.eq_false_iff.mp (Fin.find?_eq_none_iff.mp hnone j))

/-- After an `invalidate`, the first slot that had the address is empty and the others are as before. -/
theorem invalidate_spec (place : Place) :
    ((c.invalidate a.addr).slots place = c.slots place ∧
      (place.1 = a.shard → (c.slots place).addr = a.packed →
        ∃ i ≠ place.2, (c.slots (a.shard, i)).addr = a.packed)) ∨
      ((c.invalidate a.addr).slots place).addr = 0 := by
  simp only [invalidate]
  split
  · rename_i i hi
    by_cases hp : place = (a.shard, i)
    · right
      subst hp
      show (Function.update c.slots (a.shard, i) _ (a.shard, i)).addr = 0
      rw [Function.update_self]
    · left
      refine ⟨Function.update_of_ne hp .., fun hshard _ => ⟨i, fun h => hp ?_, ?_⟩⟩
      · exact Prod.ext hshard h.symm
      · exact eq_of_beq (Fin.find?_eq_some_iff.mp hi).1
  · rename_i hnone
    refine .inl ⟨rfl, fun hshard haddr => ?_⟩
    have := Fin.find?_eq_none_iff.mp hnone place.2
    rw [beq_eq_false_iff_ne] at this
    refine absurd ?_ this
    rw [show (shardFor a.addr, place.2) = place from Prod.ext hshard.symm rfl]
    exact haddr

end SessionTokenCache

end Land.Session
