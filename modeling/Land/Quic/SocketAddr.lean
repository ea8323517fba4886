import Mathlib.Tactic

/-!
# Socket addresses

`std::net::SocketAddr` as the pool, the session cache and the leader entries read it.
-/

namespace Land.Quic

/-- `SocketAddr`. -/
inductive SocketAddr where
  | v4 (ip : BitVec 32) (port : BitVec 16)
  | v6 (ip : BitVec 128) (port : BitVec 16) (flowinfo scopeId : BitVec 32)
  deriving Repr, DecidableEq

namespace SocketAddr

/-- `Ipv6Addr::segments`. -/
def segments (ip : BitVec 128) : List (BitVec 16) :=
  (List.range 8).map fun i => ip.extractLsb' ((7 - i) * 16) 16

/-- `Ipv6Addr::to_ipv4_mapped`. -/
def toIpv4Mapped (ip : BitVec 128) : Option (BitVec 32) :=
  if ip >>> 32 = 0xFFFF then some (ip.setWidth 32) else none

end SocketAddr

end Land.Quic
