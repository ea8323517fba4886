import Land.Leader.Refresh
import Land.Quic.Fanout

/-!
# Advertised addresses

A leader entry keeps four bytes and a port of each of its two addresses.  An address that is IPv4, or IPv4
mapped into IPv6, survives that; any other becomes `0.0.0.0` with the port that it had, and the entry counts as
valid by the port alone.  So a transaction can go to an address that no validator has advertised.
-/

namespace Land

open Quic

namespace Quic.SocketAddr

/-- `port`. -/
def port : SocketAddr → BitVec 16
  | v4 _ port => port
  | v6 _ port _ _ => port

/-- The endpoint that an address denotes: a mapped address counts as its IPv4 address. -/
def endpoint : SocketAddr → SocketAddr
  | v4 ip port => v4 ip port
  | v6 ip port flowinfo scopeId =>
      match toIpv4Mapped ip with
      | some ip => v4 ip port
      | none => v6 ip port flowinfo scopeId

/-- The address is IPv4 or IPv4 mapped into IPv6. -/
def isIpv4 : SocketAddr → Bool
  | v4 _ _ => true
  | v6 ip _ _ _ => (toIpv4Mapped ip).isSome

end Quic.SocketAddr

namespace Leader

/-- `LeaderLookup` for a `LeaderBuffer`. -/
def LeaderBuffer.lookup (b : LeaderBuffer) : LeaderLookup where
  isValid index := if h : index < leaderBufferSize then (b.entries ⟨index, h⟩).isValid else false
  getLeader index := if h : index < leaderBufferSize then (b.entries ⟨index, h⟩).getLeader else none

namespace LeaderEntry

theorem extractIpv4_port (addr : SocketAddr) : (extractIpv4 addr).2 = addr.port := by
  cases addr <;> rfl

/-- What is extracted denotes the address exactly if the address is IPv4. -/
theorem extractIpv4_eq_endpoint_iff (addr : SocketAddr) :
    SocketAddr.v4 (extractIpv4 addr).1 (extractIpv4 addr).2 = addr.endpoint ↔ addr.isIpv4 = true := by
  cases addr with
  | v4 ip port => exact iff_of_true rfl rfl
  | v6 ip port flowinfo scopeId =>
    simp only [extractIpv4, SocketAddr.endpoint, SocketAddr.isIpv4]
    cases SocketAddr.toIpv4Mapped ip with
    | some ip => exact iff_of_true rfl rfl
    | none => exact iff_of_false (by rintro ⟨⟩) (by rintro ⟨⟩)

theorem isValid_new (pubkey : Pubkey) (a b : SocketAddr) :
    (new pubkey a b).isValid = true ↔ a.port ≠ 0 := by
  rw [isValid, bne_iff_ne]
  simp only [new, extractIpv4_port]

/-- A valid entry gives back the addresses that it was made of. -/
def Survives (pubkey : Pubkey) (a b : SocketAddr) : Prop :=
  (new pubkey a b).isValid = true →
    (new pubkey a b).tpuQuic = a.endpoint ∧ (new pubkey a b).tpuQuicFwd = b.endpoint

/-- The addresses of an entry survive unless it is valid and one of them is not IPv4.  A buffer with the entry
offers what the entry gives back, if that is valid. -/
theorem survives_iff (pubkey : Pubkey) (a b : SocketAddr) :
    (Survives pubkey a b ↔ (a.port ≠ 0 → a.isIpv4 = true ∧ b.isIpv4 = true)) ∧
    ∀ (buffer : LeaderBuffer) (i : Fin leaderBufferSize) (slot : ℕ),
      { buffer with
        entries := Function.update buffer.entries i ((new pubkey a b).setStartSlot slot) }.lookup.getLeader i =
      if (new pubkey a b).isValid then some ((new pubkey a b).tpuQuic, (new pubkey a b).tpuQuicFwd)
      else none := by
  constructor
  · rw [Survives, isValid_new]
    apply imp_congr_right
    intro _
    exact and_congr (extractIpv4_eq_endpoint_iff a) (extractIpv4_eq_endpoint_iff b)
  · intro buffer i slot
    simp only [LeaderBuffer.lookup, dif_pos i.isLt, Function.update_self]
    rfl

/-- A leader at an address that is IPv6 only, and at an IPv4 address for what is forwarded. -/
theorem not_survives_ipv6 : ¬ Survives 1 (.v6 (0x20010db8#128 <<< 96 ||| 1) 8000 0 0) (.v4 0x0a000001 8001) := by
  intro h
  exact absurd (h (by decide)).1 (by decide)

end LeaderEntry

/-- A fanout over a buffer whose entries are made of IPv4 addresses goes to addresses that these were made
of. -/
theorem sent_to_advertised {b : LeaderBuffer} {made : Fin leaderBufferSize → Pubkey × SocketAddr × SocketAddr}
    (hmade : ∀ i, ∃ slot, b.entries i =
      (LeaderEntry.new (made i).1 (made i).2.1 (made i).2.2).setStartSlot slot)
    (hipv4 : ∀ i, (made i).2.1.isIpv4 = true ∧ (made i).2.2.isIpv4 = true) {a : Answers}
    (hpoll : ∀ k, a.poll k = .ok ()) (tpuPort : TpuPort) (count : ℕ) :
    ∃ s, sendFanout a b.lookup tpuPort count = .ok s ∧
      ∀ e ∈ s.attempts, ∃ i : Fin leaderBufferSize, i.val = e.index ∧
        (e.addr = (made i).2.1.endpoint ∨ e.addr = (made i).2.2.endpoint) := by
  obtain ⟨s, hs, -, -, -, haddr⟩ := Fanout.sendFanout_spec hpoll b.lookup tpuPort count
  refine ⟨s, hs, fun e he => ?_⟩
  have hmem := haddr e he
  -- the address is one of the two that the buffer offers for the index
  obtain ⟨main, fwd, hleader, hport⟩ : ∃ main fwd, b.lookup.getLeader e.index = some (main, fwd) ∧
      (e.addr = main ∨ e.addr = fwd) := by
    simp only [LeaderLookup.addrs, LeaderLookup.getLeaderAddrs] at hmem
    cases hleader : b.lookup.getLeader e.index with
    | none =>
      rw [hleader] at hmem
      cases hmem
    | some pair =>
      rw [hleader] at hmem
      refine ⟨pair.1, pair.2, rfl, ?_⟩
      cases tpuPort with
      | main => exact .inl (List.mem_singleton.1 hmem)
      | forward => exact .inr (List.mem_singleton.1 hmem)
      | both => simpa using hmem
  simp only [LeaderBuffer.lookup] at hleader
  split_ifs at hleader with hlt
  refine ⟨⟨e.index, hlt⟩, rfl, ?_⟩
  obtain ⟨slot, hentry⟩ := hmade ⟨e.index, hlt⟩
  obtain ⟨hmain, hfwd⟩ := hipv4 ⟨e.index, hlt⟩
  rw [← LeaderEntry.extractIpv4_eq_endpoint_iff] at hmain hfwd
  rw [hentry, LeaderEntry.getLeader] at hleader
  split_ifs at hleader
  obtain ⟨rfl, rfl⟩ := Prod.mk.inj (Option.some.inj hleader)
  rw [← hmain, ← hfwd]
  exact hport

end Leader

end Land
