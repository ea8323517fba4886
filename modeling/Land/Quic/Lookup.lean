import Land.Quic.NoLoss

/-!
# Looking up an address

`find` of `quic/src/pool.rs` with its two scans.  Both compare addresses packed into 128 bits.  The packing
tells IPv4 addresses apart.  An IPv6 address is combined with its port by XOR, may be packed like an IPv4
address if its first 80 bits are zero, and is packed without flow information and scope.  So a scan may
end at the slot of another peer.
-/

namespace Land.Quic

namespace SocketAddr

/-- The packing of IPv4 addresses as a number. -/
theorem toNat_toU128_v4 (ip : BitVec 32) (port : BitVec 16) :
    (v4 ip port).toU128.toNat = ip.toNat * 2 ^ 16 + port.toNat := by
  have hip := ip.isLt
  have hport := port.isLt
  have hmod : (ip.toNat % 2 ^ 128) <<< 16 % 2 ^ 128 = ip.toNat <<< 16 := by
    rw [Nat.shiftLeft_eq, Nat.shiftLeft_eq]
    omega
  simp only [toU128, BitVec.toNat_or, BitVec.toNat_shiftLeft, BitVec.toNat_setWidth]
  rw [hmod, Nat.mod_eq_of_lt (hport.trans (by decide)), ← Nat.shiftLeft_add_eq_or_of_lt hport,
    Nat.shiftLeft_eq]

theorem toU128_v4_inj {ip ip' : BitVec 32} {port port' : BitVec 16}
    (h : (v4 ip port).toU128 = (v4 ip' port').toU128) : v4 ip port = v4 ip' port' := by
  have hnat := congrArg BitVec.toNat h
  rw [toNat_toU128_v4, toNat_toU128_v4] at hnat
  have hport := port.isLt
  have hport' := port'.isLt
  have hip : ip = ip' := BitVec.eq_of_toNat_eq (by omega)
  have hports : port = port' := BitVec.eq_of_toNat_eq (by omega)
  rw [hip, hports]

/-- An IPv4 address. -/
def IsV4 : SocketAddr → Prop
  | v4 _ _ => True
  | v6 _ _ _ _ => False

theorem IsV4.toU128_inj {a b : SocketAddr} (ha : a.IsV4) (hb : b.IsV4) (h : a.toU128 = b.toU128) :
    a = b := by
  cases a with
  | v6 => exact ha.elim
  | v4 ip port =>
    cases b with
    | v6 => exact hb.elim
    | v4 ip' port' => exact toU128_v4_inj h

end SocketAddr

namespace ConnectionPool

/-- The comparison that both scans make at a slot. -/
def hit (p : ConnectionPool) (target : BitVec 128) (idx : SlotIdx) : Bool :=
  (p.slots idx).occupied && (p.slots idx).addr.toU128 == target

/-- The slots that `find_simd_avx2` looks at in one round. -/
def chunk (chunkStart : ℕ) : List SlotIdx :=
  (List.range (min 4 (maxPoolSize - chunkStart))).filterMap fun i =>
    if h : chunkStart + i < maxPoolSize then some ⟨chunkStart + i, h⟩ else none

/-- An occupied slot has the address. -/
def Holds (p : ConnectionPool) (addr : SocketAddr) (idx : SlotIdx) : Prop :=
  (p.slots idx).occupied = true ∧ (p.slots idx).addr = addr

/-- The result of a lookup is the lowest slot that has the address, or nothing if there is none. -/
def Exact (p : ConnectionPool) (addr : SocketAddr) (result : Option SlotIdx) : Prop :=
  (∀ idx, result = some idx → p.Holds addr idx ∧ ∀ j < idx, ¬ p.Holds addr j) ∧
    (result = none → ∀ j, ¬ p.Holds addr j)

/-- The lowest occupied slot whose address is packed like `addr`, if there is one, has this address. -/
def Unambiguous (p : ConnectionPool) (addr : SocketAddr) : Prop :=
  ∀ idx, p.hit addr.toU128 idx = true → (∀ j < idx, p.hit addr.toU128 j = false) →
    (p.slots idx).addr = addr

variable {p : ConnectionPool} {idx : SlotIdx} {addr : SocketAddr}

theorem hit_iff {target : BitVec 128} :
    p.hit target idx = true ↔ (p.slots idx).occupied = true ∧ (p.slots idx).addr.toU128 = target := by
  rw [hit, Bool.and_eq_true, beq_iff_eq]

theorem Holds.hit (h : p.Holds addr idx) : p.hit addr.toU128 idx = true :=
  hit_iff.2 ⟨h.1, congrArg SocketAddr.toU128 h.2⟩

/-- A scan ends at the first hit. -/
theorem find_eq_some_iff :
    p.find addr = some idx ↔ p.hit addr.toU128 idx = true ∧ ∀ j < idx, p.hit addr.toU128 j = false := by
  show (List.finRange maxPoolSize).find? (p.hit addr.toU128) = some idx ↔ _
  rw [← Fin.find?_eq_find?_finRange]
  exact Fin.find?_eq_some_iff

/-- Among IPv4 peers every lookup is exact. -/
theorem unambiguous_of_isV4 (hpool : ∀ idx, (p.slots idx).occupied = true → (p.slots idx).addr.IsV4)
    (haddr : addr.IsV4) : p.Unambiguous addr := by
  intro idx hhit _
  obtain ⟨hocc, hkey⟩ := hit_iff.1 hhit
  exact (hpool idx hocc).toU128_inj haddr hkey

end ConnectionPool

end Land.Quic
