import Land.Lib.Sampling
import Land.Leader.Snapshot
import Land.Quic.Endpoint

/-!
# Adaptive prewarming

`TransactionSender::prewarm_adaptive` (`quic/src/sender.rs`) with a `LeaderBuffer` as its leaders, while
the tracker writes to the buffer.  For each position it calls `is_valid`, `get_leader` and
`get_leader_slots`, each a read of its own.  The address comes from the second read and the start slot
from the third; when the tracker writes between the two they can belong to different entries.
-/

namespace Land

open Leader Versioned

/-! ## `LeaderLookup` -/

namespace Leader.LeaderEntry

open Quic (SocketAddr)

/-- `tpu_quic`. -/
def tpuQuic (e : LeaderEntry) : SocketAddr := .v4 e.tpuQuicIp e.tpuQuicPort

/-- `tpu_quic_fwd`. -/
def tpuQuicFwd (e : LeaderEntry) : SocketAddr := .v4 e.tpuQuicFwdIp e.tpuQuicFwdPort

/-- `is_valid`. -/
def isValid (e : LeaderEntry) : Bool := e.tpuQuicPort != 0

/-- `end_slot`. -/
def endSlot (e : LeaderEntry) : ℕ := u64 (e.startSlot + 3)

/-- `get_leader`, of the entry read. -/
def getLeader (e : LeaderEntry) : Option (SocketAddr × SocketAddr) :=
  if e.isValid then some (e.tpuQuic, e.tpuQuicFwd) else none

/-- `get_leader_slots`, of the entry read. -/
def getLeaderSlots (e : LeaderEntry) : ℕ × ℕ := (e.startSlot, e.endSlot)

end Leader.LeaderEntry

namespace Quic

/-- `TpuPort`. -/
inductive TpuPort where
  | main
  | forward
  | both
  deriving DecidableEq

/-- The address that is connected to. -/
def TpuPort.select : TpuPort → SocketAddr × SocketAddr → SocketAddr
  | main, addrs => addrs.1
  | forward, addrs => addrs.2
  | both, addrs => addrs.1

/-- The address that `prewarm_adaptive` selects from an entry. -/
def TpuPort.addr (port : TpuPort) (e : LeaderEntry) : SocketAddr := port.select (e.tpuQuic, e.tpuQuicFwd)

/-! ## `prewarm_adaptive` -/

/-- One iteration that came to the decision: the entries that `get_leader` and `get_leader_slots` read. -/
structure Decision where
  index : Fin leaderBufferSize
  leader : LeaderEntry
  slots : LeaderEntry
  deriving DecidableEq

namespace Decision

/-- The address used in the decision. -/
def addr (port : TpuPort) (d : Decision) : SocketAddr := port.addr d.leader

/-- The start slot used in the decision. -/
def startSlot (d : Decision) : ℕ := d.slots.getLeaderSlots.1

/-- The address and the start slot are those of the entry. -/
def Matches (port : TpuPort) (d : Decision) (e : LeaderEntry) : Prop :=
  d.addr port = port.addr e ∧ d.startSlot = e.startSlot

instance (port : TpuPort) (d : Decision) (e : LeaderEntry) : Decidable (d.Matches port e) :=
  inferInstanceAs (Decidable (_ ∧ _))

/-- They are those of one entry at the position, after some of the writes. -/
def FromOneEntry (port : TpuPort) (calls : List WriteCall) (d : Decision) : Prop :=
  ∃ k ≤ calls.length, d.Matches port ((bufferAfter (calls.take k)).entries d.index)

/-- The two reads agree on the address or on the start slot. -/
def Agrees (port : TpuPort) (d : Decision) : Prop :=
  port.addr d.slots = port.addr d.leader ∨ d.slots.startSlot = d.leader.startSlot

end Decision

/-- What `prewarm_adaptive` reads of the sender's configuration. -/
structure PrewarmConfig where
  tpuPort : TpuPort
  lookahead : Option ℕ

/-- Where the sender is in `prewarm_adaptive`: before the read of the named function. -/
inductive PrewarmPc where
  | idle
  | currentSolanaSlot
  | isValid (current : ℕ) (i : Fin leaderBufferSize)
  | getLeader (current : ℕ) (i : Fin leaderBufferSize)
  /-- with the entry that `get_leader` read -/
  | getLeaderSlots (current : ℕ) (i : Fin leaderBufferSize) (leader : LeaderEntry)

/-- The top of the loop; `is_valid` is false from the end of the buffer on. -/
def PrewarmConfig.top (config : PrewarmConfig) (current i : ℕ) : PrewarmPc :=
  if h : i < config.lookahead.getD 10 ∧ i < leaderBufferSize then .isValid current ⟨i, h.2⟩ else .idle

/-- `TransactionSender`, and the iterations that came to the decision. -/
structure Sender where
  pc : PrewarmPc
  endpoint : ConnectionPool
  decisions : List Decision

/-- What comes with a step of the sender: outside of `prewarm_adaptive` another call of the endpoint, if
any, and at the decision what the timing statistics and `connect` give. -/
structure PrewarmInput where
  call : Option Call
  calculateLookaheadSolanaSlots : SocketAddr → ℕ
  connect : Connect

/-- `connection_state`. -/
def ConnectionPool.connectionState (p : ConnectionPool) (addr : SocketAddr) : Option ConnectionState :=
  (p.find addr).map fun idx => (p.slots idx).state

namespace Sender

variable (config : PrewarmConfig)

/-- The end of an iteration: connect now, or not. -/
def decide (s : Sender) (x : PrewarmInput) (current : ℕ) (d : Decision) : Sender :=
  let addr := d.addr config.tpuPort
  let connectAt := d.startSlot - x.calculateLookaheadSolanaSlots addr
  { pc := config.top current (d.index + 1)
    endpoint :=
      if current ≥ connectAt ∧ current < d.startSlot ∧ (s.endpoint.connectionState addr).isNone then
        (s.endpoint.connect addr false x.connect).1
      else s.endpoint
    decisions := s.decisions ++ [d] }

/-- A read has returned an entry. -/
def resume (s : Sender) (x : PrewarmInput) (e : LeaderEntry) : Sender :=
  match s.pc with
  | .idle => s
  | .currentSolanaSlot =>
      let current := e.getLeaderSlots.1
      { s with pc := if current = 0 then .idle else config.top current 0 }
  | .isValid current i =>
      { s with pc := if e.isValid then .getLeader current i else config.top current (i + 1) }
  | .getLeader current i =>
      { s with
        pc := match e.getLeader with
          | some _ => .getLeaderSlots current i e
          | none => config.top current (i + 1) }
  | .getLeaderSlots current i leader => s.decide config x current ⟨i, leader, e⟩

/-- The position that is read. -/
def position (s : Sender) : Option (Fin leaderBufferSize) :=
  match s.pc with
  | .idle => none
  | .currentSolanaSlot => some ⟨0, by decide⟩
  | .isValid _ i => some i
  | .getLeader _ i => some i
  | .getLeaderSlots _ i _ => some i

/-- Nothing has been called. -/
def new : Sender := ⟨.idle, .new, []⟩

end Sender

/-- The sender as a client of the buffer. -/
def prewarmAdaptive (config : PrewarmConfig) : Client ReadCall Value Sender PrewarmInput where
  ask := fun s => s.position.map .tryRead
  call := fun s x =>
    match s.pc with
    | .idle =>
        match x.call with
        | some call => some { s with endpoint := s.endpoint.after call }
        | none => some { s with pc := .currentSolanaSlot }
    | _ => none
  resume := fun s x value =>
    match value with
    | .entry e => s.resume config x e
    | .entries _ => s

/-- The sender and the tracker. -/
abbrev prewarmSystem (config : PrewarmConfig) :
    System (Joint Address (BitVec 64) WriteCall ReadCall Value Sender)
      (ClientAction WriteCall PrewarmInput) :=
  (prewarmAdaptive config).system leaderBuffer (2 ^ 64) Sender.new

/-- When `get_leader_slots` returns, the entry agrees with the one that `get_leader` read. -/
def AgreesOn (port : TpuPort) (s : Sender) (value : Value) : Prop :=
  match s.pc, value with
  | .getLeaderSlots _ i leader, .entry e => Decision.Agrees port ⟨i, leader, e⟩
  | _, _ => True

instance (port : TpuPort) (d : Decision) : Decidable (d.Agrees port) := inferInstanceAs (Decidable (_ ∨ _))

instance (port : TpuPort) (s : Sender) (value : Value) : Decidable (AgreesOn port s value) :=
  match s, value with
  | ⟨.getLeaderSlots _ i leader, _, _⟩, .entry e =>
      inferInstanceAs (Decidable (Decision.Agrees port ⟨i, leader, e⟩))
  | ⟨.getLeaderSlots _ _ _, _, _⟩, .entries _ => isTrue trivial
  | ⟨.idle, _, _⟩, _ => isTrue trivial
  | ⟨.currentSolanaSlot, _, _⟩, _ => isTrue trivial
  | ⟨.isValid _ _, _, _⟩, _ => isTrue trivial
  | ⟨.getLeader _ _, _, _⟩, _ => isTrue trivial

/-! ## What the reads return -/

variable {calls : List WriteCall} {d : Decision} {port : TpuPort}

namespace Decision

/-- The entry of `get_leader_slots` is that of `get_leader` or of a later version. -/
def ReadFrom (calls : List WriteCall) (d : Decision) : Prop :=
  ∃ k₁ k₂, k₁ ≤ k₂ ∧ k₂ ≤ calls.length ∧ d.leader = (bufferAfter (calls.take k₁)).entries d.index ∧
    d.slots = (bufferAfter (calls.take k₂)).entries d.index

theorem ReadFrom.append (h : d.ReadFrom calls) (c : WriteCall) : d.ReadFrom (calls ++ [c]) := by
  obtain ⟨k₁, k₂, hle, hlen, hleader, hslots⟩ := h
  refine ⟨k₁, k₂, hle, ?_, ?_, ?_⟩
  · rw [List.length_append]
    exact Nat.le_add_right_of_le hlen
  · rw [List.take_append_of_le_length (hle.trans hlen)]
    exact hleader
  · rw [List.take_append_of_le_length hlen]
    exact hslots

/-- The pair is that of one of the two entries it was read from exactly when they agree. -/
theorem matches_iff_agrees : d.Matches port d.leader ∨ d.Matches port d.slots ↔ d.Agrees port := by
  constructor
  · rintro (⟨-, hslot⟩ | ⟨haddr, -⟩)
    · exact .inr hslot
    · exact .inl haddr.symm
  · rintro (haddr | hslot)
    · exact .inr ⟨haddr.symm, rfl⟩
    · exact .inl ⟨rfl, hslot⟩

theorem ReadFrom.fromOneEntry (h : d.ReadFrom calls) (hagrees : d.Agrees port) :
    d.FromOneEntry port calls := by
  obtain ⟨k₁, k₂, hle, hlen, hleader, hslots⟩ := h
  rcases matches_iff_agrees.2 hagrees with hmatches | hmatches
  · refine ⟨k₁, hle.trans hlen, ?_⟩
    rwa [← hleader]
  · refine ⟨k₂, hlen, ?_⟩
    rwa [← hslots]

end Decision

theorem PrewarmConfig.top_ne (config : PrewarmConfig) (current i current' : ℕ)
    (i' : Fin leaderBufferSize) (leader : LeaderEntry) :
    config.top current i ≠ .getLeaderSlots current' i' leader := by
  unfold PrewarmConfig.top
  split_ifs <;> exact nofun

/-- What holds of the sender: the entry it keeps was at the position, and so were those of the
decisions. -/
structure Sender.Reads (E : Decision → Prop) (calls : List WriteCall) (s : Sender) : Prop where
  leader : ∀ current i leader, s.pc = .getLeaderSlots current i leader →
    ∃ k ≤ calls.length, leader = (bufferAfter (calls.take k)).entries i
  decisions : ∀ d ∈ s.decisions, E d ∧ d.ReadFrom calls

namespace Sender

variable {E : Decision → Prop} {s : Sender}

theorem Reads.write (h : s.Reads E calls) (c : WriteCall) : s.Reads E (calls ++ [c]) := by
  refine ⟨fun current i leader hpc => ?_, fun d hd => ?_⟩
  · obtain ⟨k, hk, hleader⟩ := h.leader current i leader hpc
    refine ⟨k, ?_, ?_⟩
    · rw [List.length_append]
      exact Nat.le_add_right_of_le hk
    · rw [List.take_append_of_le_length hk]
      exact hleader
  · obtain ⟨hE, hread⟩ := h.decisions d hd
    exact ⟨hE, hread.append c⟩

/-- The sender moves to a point where it keeps no entry. -/
theorem Reads.setPc (h : s.Reads E calls) {pc : PrewarmPc}
    (hpc : ∀ current i leader, pc ≠ .getLeaderSlots current i leader) :
    Reads E calls { s with pc := pc } :=
  ⟨fun current i leader heq => absurd heq (hpc current i leader), h.decisions⟩

/-- A read returns the entry at its position after all writes so far. -/
theorem Reads.resume {config : PrewarmConfig} (h : s.Reads E calls) {i : Fin leaderBufferSize}
    (hi : s.position = some i) (x : PrewarmInput)
    (hE : ∀ current leader, s.pc = .getLeaderSlots current i leader →
      E ⟨i, leader, (bufferAfter calls).entries i⟩) :
    (s.resume config x ((bufferAfter calls).entries i)).Reads E calls := by
  have htop := config.top_ne
  unfold position at hi
  unfold Sender.resume
  cases hpc : s.pc with
  | idle =>
    rw [hpc] at hi
    cases hi
  | currentSolanaSlot =>
    refine h.setPc fun current i' leader => ?_
    split_ifs
    · exact nofun
    · exact htop _ _ _ _ _
  | isValid current j =>
    refine h.setPc fun current' i' leader => ?_
    split_ifs
    · exact nofun
    · exact htop _ _ _ _ _
  | getLeader current j =>
    rw [hpc] at hi
    cases hi
    refine ⟨fun current' i' leader heq => ?_, h.decisions⟩
    dsimp only at heq
    split at heq
    · cases heq
      exact ⟨calls.length, le_rfl, by rw [List.take_length]⟩
    · exact absurd heq (htop _ _ _ _ _)
  | getLeaderSlots current j leader =>
    rw [hpc] at hi
    cases hi
    refine ⟨fun current' i' leader' heq => absurd heq (htop _ _ _ _ _), fun d hd => ?_⟩
    rcases List.mem_append.1 hd with hd | hd
    · exact h.decisions d hd
    · obtain rfl := List.mem_singleton.1 hd
      obtain ⟨k, hk, hleader⟩ := h.leader current i leader hpc
      exact ⟨hE current leader hpc, k, calls.length, hk, le_rfl, hleader, by rw [List.take_length]⟩

end Sender

/-- In every state the decisions were made on entries that were read, if the reads are as `E` asks. -/
theorem reads_of_reachable (config : PrewarmConfig) {E : Decision → Prop} {D : Sender → Value → Prop}
    (hE : ∀ s current i leader e, s.pc = .getLeaderSlots current i leader → D s (.entry e) →
      E ⟨i, leader, e⟩)
    {t : Joint Address (BitVec 64) WriteCall ReadCall Value Sender}
    (ht : (prewarmSystem config).ReachableVia
      (fun s a => s.fewWrites (2 ^ 63) a = true ∧ s.Meets D a) t) :
    t.control.Reads E t.shared.completed := by
  refine Client.invariant (J := Sender.Reads E) (n := 2 ^ 63) (by decide) ?_ ?_ ?_ ?_ ht
  · exact ⟨nofun, nofun⟩
  · exact fun cs c s h => h.write c
  · intro cs s x s' h hcall
    simp only [prewarmAdaptive] at hcall
    split at hcall
    · split at hcall
      · cases hcall
        exact ⟨h.leader, h.decisions⟩
      · cases hcall
        exact h.setPc nofun
    · cases hcall
  · intro cs s x q h hask hD
    obtain ⟨i, hi, rfl⟩ := Option.map_eq_some_iff.1 hask
    rw [leaderBuffer_eval, entriesOf_contents] at hD ⊢
    exact h.resume hi x fun current leader hpc => hE s current i leader _ hpc hD

/-- In every run the address and the start slot of a decision were read from the entry at its position in
one version and in the same or a later one, and they are those of one of the two entries exactly when
these agree on the address or on the start slot.  In every run in which the reads agree, they are those of
one entry of one version. -/
theorem fromOneEntry_of_agrees (config : PrewarmConfig) :
    (∀ t, (prewarmSystem config).ReachableVia (fun s a => s.fewWrites (2 ^ 63) a = true) t →
      ∀ d ∈ t.control.decisions, ∃ k₁ k₂, k₁ ≤ k₂ ∧ k₂ ≤ t.shared.completed.length ∧
        d.leader = (bufferAfter (t.shared.completed.take k₁)).entries d.index ∧
        d.slots = (bufferAfter (t.shared.completed.take k₂)).entries d.index ∧
        (d.Matches config.tpuPort d.leader ∨ d.Matches config.tpuPort d.slots ↔
          d.Agrees config.tpuPort)) ∧
    ∀ t, (prewarmSystem config).ReachableVia
        (fun s a => s.fewWrites (2 ^ 63) a = true ∧ s.Meets (AgreesOn config.tpuPort) a) t →
      ∀ d ∈ t.control.decisions, d.FromOneEntry config.tpuPort t.shared.completed := by
  constructor
  · intro t ht d hd
    have hreads : t.control.Reads (fun _ => True) t.shared.completed := by
      exact reads_of_reachable config (fun _ _ _ _ _ _ _ => trivial)
        (ht.mono fun s a hfew => ⟨hfew, s.meets_true a⟩)
    obtain ⟨-, k₁, k₂, hle, hlen, hleader, hslots⟩ := hreads.decisions d hd
    exact ⟨k₁, k₂, hle, hlen, hleader, hslots, Decision.matches_iff_agrees⟩
  · intro t ht d hd
    have hreads : t.control.Reads (Decision.Agrees config.tpuPort) t.shared.completed := by
      refine reads_of_reachable config (fun s current i leader e hpc hD => ?_) ht
      simpa only [AgreesOn, hpc] using hD
    obtain ⟨hagrees, hread⟩ := hreads.decisions d hd
    exact hread.fromOneEntry hagrees

/-! ## Two runs -/

/-- A leader with its addresses. -/
def sampleLeader (n : ℕ) : LeaderEntry := ⟨.ofNat 256 n, .ofNat 32 n, 8001, .ofNat 32 n, 8002, 0⟩

/-- Four slots of lookahead, and a connection that stays in the handshake. -/
def sampleInput : PrewarmInput where
  call := none
  calculateLookaheadSolanaSlots := fun _ => 4
  connect :=
    ⟨true, false, ⟨.ok 1, false, none, false, fun _ _ => ⟨false, true, false, .done⟩, .ok 0, 1⟩, [], 1⟩

/-- A buffer with two leaders, and `prewarm_adaptive` up to its second read at position 0. -/
def sampleReads : List (ClientAction WriteCall PrewarmInput) :=
  .write (.update 100 [sampleLeader 1, sampleLeader 2]) :: List.replicate 105 .writerStep ++
    List.replicate 37 (.client sampleInput)

/-- The tracker moves to the next leader. -/
def sampleShift : List (ClientAction WriteCall PrewarmInput) :=
  .write (.shiftMultiple 1 [sampleLeader 3] 104) :: List.replicate 96 .writerStep

/-- The read of the start slot. -/
def sampleRest : List (ClientAction WriteCall PrewarmInput) := List.replicate 12 (.client sampleInput)

/-- Nothing is written between the reads. -/
theorem fromOneEntry_of_agrees_undisturbed :
    ∃ t, (prewarmSystem ⟨.main, some 1⟩).ReachableVia
        (fun s a => s.fewWrites (2 ^ 63) a = true ∧ s.Meets (AgreesOn .main) a) t ∧
      t.control.decisions.length = 1 ∧
      ∀ d ∈ t.control.decisions, d.FromOneEntry .main t.shared.completed := by
  have hmap : ((prewarmSystem ⟨.main, some 1⟩).runVia
      (fun s a => s.fewWrites (2 ^ 63) a && decide (s.Meets (AgreesOn .main) a))
      ⟨leaderBuffer.start, Sender.new⟩ (sampleReads ++ sampleRest)).map
        (fun t => t.control.decisions.length) = some 1 := by decide +kernel
  obtain ⟨t, hrun, hlen⟩ := Option.map_eq_some_iff.1 hmap
  have ht := System.ReachableVia.runVia (C := fun s a => s.fewWrites (2 ^ 63) a = true ∧
    s.Meets (AgreesOn .main) a) (fun s a h => by simpa using h) (.init rfl) hrun
  exact ⟨t, ht, hlen, (fromOneEntry_of_agrees ⟨.main, some 1⟩).2 t ht⟩

/-- The address of the first leader and the start slot of the second. -/
def sampleDecision : Decision :=
  ⟨⟨0, by decide⟩, (sampleLeader 1).setStartSlot 100, (sampleLeader 2).setStartSlot 104⟩

/-- The tracker moves on between the reads: the sender connects to the leader that is just over, as if it
started at the slot of the next one. -/
theorem decision_torn :
    ∃ t, (prewarmSystem ⟨.main, some 1⟩).ReachableVia (fun s a => s.fewWrites (2 ^ 63) a = true) t ∧
      ∃ d ∈ t.control.decisions, ¬ d.FromOneEntry .main t.shared.completed ∧
        t.control.endpoint.connectionState (d.addr .main) = some .connecting := by
  have hmap : ((prewarmSystem ⟨.main, some 1⟩).runVia (fun s a => s.fewWrites (2 ^ 63) a)
      ⟨leaderBuffer.start, Sender.new⟩ (sampleReads ++ sampleShift ++ sampleRest)).map
        (fun t => (t.shared.completed, t.control.decisions,
          t.control.endpoint.connectionState (sampleDecision.addr .main))) =
      some ([.update 100 [sampleLeader 1, sampleLeader 2], .shiftMultiple 1 [sampleLeader 3] 104],
        [sampleDecision], some .connecting) := by decide +kernel
  obtain ⟨t, hrun, heq⟩ := Option.map_eq_some_iff.1 hmap
  simp only [Prod.mk.injEq] at heq
  obtain ⟨hcompleted, hdecisions, hstate⟩ := heq
  have hmem : sampleDecision ∈ t.control.decisions := by
    rw [hdecisions]
    exact List.mem_singleton_self _
  refine ⟨t, System.ReachableVia.runVia (fun _ _ h => h) (.init rfl) hrun, sampleDecision, hmem, ?_,
    hstate⟩
  rw [hcompleted]
  rintro ⟨k, hk, hmatches⟩
  have hnone : ∀ k ≤ 2, ¬ sampleDecision.Matches .main
      ((bufferAfter (List.take k [.update 100 [sampleLeader 1, sampleLeader 2],
        .shiftMultiple 1 [sampleLeader 3] 104])).entries sampleDecision.index) := by decide +kernel
  exact hnone k hk hmatches

end Quic

end Land
