import Land.Quic.Prewarm

/-!
# The fanout

`send_fanout` of `quic/src/sender.rs` sends a transaction to the first ten leaders and, if all of them turn
out dead, to four backup leaders.  The lookup, `poll` and `send` of the endpoint are asked from outside:
`send_fanout` calls each method of the lookup once for an index, and `Answers` holds what the endpoint says to
each call.

The counter for dead connections counts addresses and is compared with the number of leaders.  With both ports
of each leader, ten dead addresses are enough to fall back, whatever the other ten say.
-/

namespace Land.Quic

/-- `LeaderLookup`, as `send_fanout` uses it. -/
structure LeaderLookup where
  isValid : ℕ → Bool
  getLeader : ℕ → Option (SocketAddr × SocketAddr)

/-- `get_leader_addrs`. -/
def LeaderLookup.getLeaderAddrs (leaders : LeaderLookup) (index : ℕ) (tpuPort : TpuPort) :
    Except Error (List SocketAddr) :=
  match leaders.getLeader index with
  | none => .error .notFound
  | some (main, fwd) =>
      .ok (match tpuPort with
        | .main => [main]
        | .forward => [fwd]
        | .both => [main, fwd])

/-- What `endpoint.send` returns. -/
abbrev Outcome := Except Error SendStatus

/-- `SendResult`. -/
structure SendResult where
  sent : ℕ
  earlyData : ℕ
  queued : ℕ
  queueFull : ℕ
  dead : ℕ
  errors : ℕ
  deriving Repr, DecidableEq

namespace SendResult

/-- `SendResult::default`. -/
def default : SendResult := ⟨0, 0, 0, 0, 0, 0⟩

/-- The counter that an outcome increments. -/
def count (r : SendResult) : Outcome → SendResult
  | .ok .sent => { r with sent := r.sent + 1 }
  | .ok .sentEarlyData => { r with earlyData := r.earlyData + 1 }
  | .ok (.queued _) => { r with queued := r.queued + 1 }
  | .ok .queueFull => { r with queueFull := r.queueFull + 1 }
  | .ok (.dead _) => { r with dead := r.dead + 1 }
  | .error _ => { r with errors := r.errors + 1 }

/-- All counters together. -/
def total (r : SendResult) : ℕ := r.sent + r.earlyData + r.queued + r.queueFull + r.dead + r.errors

theorem total_count (r : SendResult) (outcome : Outcome) : (r.count outcome).total = r.total + 1 := by
  rcases outcome with err | _ | position | _ | _ | retries
  all_goals
    simp only [total, count]
    omega

end SendResult

/-- `Ok(SendStatus::Dead { .. })`. -/
def Outcome.isDead : Outcome → Bool
  | .ok (.dead _) => true
  | _ => false

/-- What the endpoint answers to each call of `poll` and of `send`, counted from zero. -/
structure Answers where
  poll : ℕ → Except Error Unit
  send : ℕ → Outcome

/-- A call of `endpoint.send` for a leader index. -/
structure Attempt where
  index : ℕ
  addr : SocketAddr
  outcome : Outcome

/-- The variables of `send_fanout`, with the calls that it has made: how often it has polled, the indices it
has asked the lookup for, and its sends. -/
structure Fanout where
  result : SendResult
  deadCount : ℕ
  polls : ℕ
  consulted : List ℕ
  attempts : List Attempt

namespace Fanout

/-- Before the first call. -/
def start : Fanout := ⟨.default, 0, 0, [], []⟩

/-- `self.endpoint.poll()?`. -/
def poll (a : Answers) (s : Fanout) : Except Error Fanout :=
  (a.poll s.polls).map fun _ => { s with polls := s.polls + 1 }

/-- A send.  Only the primary loop counts the dead connections. -/
def send (a : Answers) (primary : Bool) (i : ℕ) (s : Fanout) (addr : SocketAddr) : Fanout :=
  let outcome := a.send s.attempts.length
  { s with
    result := s.result.count outcome
    deadCount := if primary && outcome.isDead then s.deadCount + 1 else s.deadCount
    attempts := s.attempts ++ [⟨i, addr, outcome⟩] }

/-- The poll at the start of an index, which the primary loop makes for each but the first. -/
def pollBefore (a : Answers) (primary : Bool) (i : ℕ) (s : Fanout) : Except Error Fanout :=
  if primary && 0 < i then s.poll a else .ok s

/-- The loop over the leader indices, which stops at an index that is not valid and skips one without
addresses. -/
def loop (a : Answers) (leaders : LeaderLookup) (tpuPort : TpuPort) (primary : Bool) :
    List ℕ → Fanout → Except Error Fanout
  | [], s => .ok s
  | i :: rest, s => do
      let s ← s.pollBefore a primary i
      let s := { s with consulted := s.consulted ++ [i] }
      if leaders.isValid i then
        match leaders.getLeaderAddrs i tpuPort with
        | .ok addrs => loop a leaders tpuPort primary rest (addrs.foldl (send a primary i) s)
        | .error _ => loop a leaders tpuPort primary rest s
      else .ok s

end Fanout

/-- `send_fanout`, where `tpuPort` is the port of the options or the default. -/
def sendFanout (a : Answers) (leaders : LeaderLookup) (tpuPort : TpuPort) (count : ℕ) : Except Error Fanout := do
  let s ← Fanout.start.poll a
  let primaryFanout := min count 10
  let s ← s.loop a leaders tpuPort true (List.range primaryFanout)
  if primaryFanout ≤ s.deadCount ∧ primaryFanout = 10 then s.loop a leaders tpuPort false [10, 11, 12, 13]
  else .ok s

/-! ### What a loop does -/

namespace Answers

/-- The attempts for some addresses, from the `n`-th answer on. -/
def attempts (a : Answers) : ℕ → List (ℕ × SocketAddr) → List Attempt
  | _, [] => []
  | n, (i, addr) :: targets => ⟨i, addr, a.send n⟩ :: a.attempts (n + 1) targets

theorem attempts_append (a : Answers) (n : ℕ) (targets targets' : List (ℕ × SocketAddr)) :
    a.attempts n (targets ++ targets') = a.attempts n targets ++ a.attempts (n + targets.length) targets' := by
  induction targets generalizing n with
  | nil => rfl
  | cons target targets ih =>
    rw [List.cons_append, attempts, attempts, ih, List.cons_append, List.length_cons, Nat.add_right_comm,
      Nat.add_assoc]

@[simp] theorem length_attempts (a : Answers) (n : ℕ) (targets : List (ℕ × SocketAddr)) :
    (a.attempts n targets).length = targets.length := by
  induction targets generalizing n with
  | nil => rfl
  | cons target targets ih => rw [attempts, List.length_cons, ih, List.length_cons]

theorem map_outcome_attempts (a : Answers) (n : ℕ) (targets : List (ℕ × SocketAddr)) :
    (a.attempts n targets).map Attempt.outcome = (List.range' n targets.length).map a.send := by
  induction targets generalizing n with
  | nil => rfl
  | cons target targets ih => rw [attempts, List.map_cons, ih, List.length_cons, List.range'_succ, List.map_cons]

theorem map_target_attempts (a : Answers) (n : ℕ) (targets : List (ℕ × SocketAddr)) :
    (a.attempts n targets).map (fun e => (e.index, e.addr)) = targets := by
  induction targets generalizing n with
  | nil => rfl
  | cons target targets ih => rw [attempts, List.map_cons, ih]

theorem mem_target_of_mem_attempts {a : Answers} {n : ℕ} {targets : List (ℕ × SocketAddr)} {e : Attempt}
    (he : e ∈ a.attempts n targets) : (e.index, e.addr) ∈ targets := by
  rw [← a.map_target_attempts n targets]
  exact List.mem_map_of_mem he

end Answers

namespace LeaderLookup

/-- The addresses of a leader, none if the lookup fails. -/
def addrs (leaders : LeaderLookup) (tpuPort : TpuPort) (i : ℕ) : List SocketAddr :=
  match leaders.getLeaderAddrs i tpuPort with
  | .ok addrs => addrs
  | .error _ => []

/-- The addresses that a loop over some indices sends to. -/
def targets (leaders : LeaderLookup) (tpuPort : TpuPort) (indices : List ℕ) : List (ℕ × SocketAddr) :=
  (indices.takeWhile leaders.isValid).flatMap fun i => (leaders.addrs tpuPort i).map (i, ·)

theorem mem_addrs_of_mem_targets {leaders : LeaderLookup} {tpuPort : TpuPort} {indices : List ℕ} {i : ℕ}
    {addr : SocketAddr} (h : (i, addr) ∈ leaders.targets tpuPort indices) : addr ∈ leaders.addrs tpuPort i := by
  obtain ⟨j, -, hj⟩ := List.mem_flatMap.1 h
  obtain ⟨addr', haddr, heq⟩ := List.mem_map.1 hj
  cases heq
  exact haddr

end LeaderLookup

namespace Fanout

/-- From `s` to `s'` the sends to `targets` are made and counted. -/
structure Sends (a : Answers) (primary : Bool) (targets : List (ℕ × SocketAddr)) (s s' : Fanout) : Prop where
  attempts : s'.attempts = s.attempts ++ a.attempts s.attempts.length targets
  deadCount : s'.deadCount = s.deadCount +
    (a.attempts s.attempts.length targets).countP fun e => primary && e.outcome.isDead
  total : s'.result.total = s.result.total + targets.length

namespace Sends

variable {a : Answers} {primary : Bool} {targets targets' : List (ℕ × SocketAddr)} {s t u : Fanout}

theorem refl (s : Fanout) : Sends a primary [] s s :=
  ⟨(List.append_nil _).symm, rfl, rfl⟩

theorem trans (h : Sends a primary targets s t) (h' : Sends a primary targets' t u) :
    Sends a primary (targets ++ targets') s u := by
  have hlen : t.attempts.length = s.attempts.length + targets.length := by
    rw [h.attempts, List.length_append, Answers.length_attempts]
  constructor
  · rw [h'.attempts, hlen, h.attempts, Answers.attempts_append, List.append_assoc]
  · rw [h'.deadCount, hlen, h.deadCount, Answers.attempts_append, List.countP_append, Nat.add_assoc]
  · rw [h'.total, h.total, List.length_append, Nat.add_assoc]

end Sends

theorem sends_send (a : Answers) (primary : Bool) (i : ℕ) (s : Fanout) (addr : SocketAddr) :
    Sends a primary [(i, addr)] s (s.send a primary i addr) := by
  constructor
  · rfl
  · simp only [send, Answers.attempts, List.countP_cons, List.countP_nil]
    split_ifs <;> rfl
  · exact SendResult.total_count _ _

theorem sends_foldl (a : Answers) (primary : Bool) (i : ℕ) (addrs : List SocketAddr) (s : Fanout) :
    Sends a primary (addrs.map (i, ·)) s (addrs.foldl (send a primary i) s) ∧
      (addrs.foldl (send a primary i) s).consulted = s.consulted := by
  induction addrs generalizing s with
  | nil => exact ⟨.refl s, rfl⟩
  | cons addr addrs ih =>
    obtain ⟨hsends, hconsulted⟩ := ih (s.send a primary i addr)
    exact ⟨(sends_send a primary i s addr).trans hsends, hconsulted⟩

/-- A loop makes the sends to its targets, and asks for its first index at least. -/
theorem loop_spec {a : Answers} (hpoll : ∀ k, a.poll k = .ok ()) (leaders : LeaderLookup) (tpuPort : TpuPort)
    (primary : Bool) (indices : List ℕ) (s : Fanout) :
    ∃ s', s.loop a leaders tpuPort primary indices = .ok s' ∧
      Sends a primary (leaders.targets tpuPort indices) s s' ∧
      ∃ k, s'.consulted = s.consulted ++ indices.take (k + 1) := by
  induction indices generalizing s with
  | nil => exact ⟨s, rfl, .refl s, 0, (List.append_nil _).symm⟩
  | cons i rest ih =>
    obtain ⟨polls, hstart⟩ : ∃ polls, s.pollBefore a primary i = .ok { s with polls := polls } := by
      unfold pollBefore
      split_ifs
      · exact ⟨s.polls + 1, by rw [poll, hpoll]; rfl⟩
      · exact ⟨s.polls, rfl⟩
    rw [loop, hstart]
    simp only [bind, Except.bind]
    cases hvalid : leaders.isValid i with
    | false =>
      refine ⟨_, rfl, ?_, 0, rfl⟩
      rw [LeaderLookup.targets, List.takeWhile_cons_of_neg (by simp [hvalid])]
      exact ⟨(List.append_nil _).symm, rfl, rfl⟩
    | true =>
      have htargets : leaders.targets tpuPort (i :: rest) =
          (leaders.addrs tpuPort i).map (i, ·) ++ leaders.targets tpuPort rest := by
        rw [LeaderLookup.targets, List.takeWhile_cons_of_pos hvalid, List.flatMap_cons]
        rfl
      rw [htargets, LeaderLookup.addrs, if_pos rfl]
      cases leaders.getLeaderAddrs i tpuPort with
      | error err =>
        obtain ⟨s', hloop, hsends, k, hk⟩ := ih { s with polls := polls, consulted := s.consulted ++ [i] }
        exact ⟨s', hloop, ⟨hsends.attempts, hsends.deadCount, hsends.total⟩, k + 1, by simp [hk]⟩
      | ok addrs =>
        obtain ⟨hfold, hconsulted⟩ :=
          sends_foldl a primary i addrs { s with polls := polls, consulted := s.consulted ++ [i] }
        obtain ⟨s', hloop, hsends, k, hk⟩ := ih
          (addrs.foldl (send a primary i) { s with polls := polls, consulted := s.consulted ++ [i] })
        have hall := hfold.trans hsends
        exact ⟨s', hloop, ⟨hall.attempts, hall.deadCount, hall.total⟩, k + 1, by simp [hk, hconsulted]⟩

end Fanout

/-! ### The backup leaders -/

/-- How many addresses of a leader are sent to. -/
def TpuPort.width : TpuPort → ℕ
  | .main => 1
  | .forward => 1
  | .both => 2

theorem TpuPort.width_pos (tpuPort : TpuPort) : 0 < tpuPort.width := by
  cases tpuPort <;> decide

namespace LeaderLookup

variable (leaders : LeaderLookup) (tpuPort : TpuPort)

/-- The leaders among some indices that a loop reaches and finds. -/
def reached (indices : List ℕ) : List ℕ :=
  (indices.takeWhile leaders.isValid).filter fun i => (leaders.getLeader i).isSome

theorem reached_sublist (indices : List ℕ) : (leaders.reached indices).Sublist indices :=
  List.filter_sublist.trans (List.takeWhile_sublist _)

theorem length_addrs (i : ℕ) :
    (leaders.addrs tpuPort i).length = if (leaders.getLeader i).isSome then tpuPort.width else 0 := by
  unfold addrs getLeaderAddrs
  cases leaders.getLeader i with
  | none => rfl
  | some pair => cases tpuPort <;> rfl

theorem length_targets (indices : List ℕ) :
    (leaders.targets tpuPort indices).length = tpuPort.width * (leaders.reached indices).length := by
  unfold targets reached
  induction indices.takeWhile leaders.isValid with
  | nil => rfl
  | cons i l ih =>
    rw [List.flatMap_cons, List.length_append, List.length_map, length_addrs, ih, List.filter_cons]
    split_ifs
    · rw [List.length_cons, Nat.mul_succ, Nat.add_comm]
    · exact Nat.zero_add _

theorem mem_map_fst_targets {i : ℕ} {indices : List ℕ} :
    i ∈ (leaders.targets tpuPort indices).map Prod.fst ↔ i ∈ leaders.reached indices := by
  have hne (i : ℕ) : leaders.addrs tpuPort i ≠ [] ↔ (leaders.getLeader i).isSome := by
    rw [← List.length_pos_iff, length_addrs]
    split_ifs with h
    · exact iff_of_true tpuPort.width_pos h
    · exact iff_of_false (Nat.lt_irrefl 0) h
  simp only [targets, reached, List.map_flatMap, List.mem_flatMap, List.mem_filter, List.map_map]
  constructor
  · rintro ⟨j, hj, hi⟩
    obtain ⟨addr, haddr, rfl⟩ := List.mem_map.1 hi
    exact ⟨hj, (hne j).1 (List.ne_nil_of_mem haddr)⟩
  · rintro ⟨hi, hsome⟩
    obtain ⟨addr, haddr⟩ := List.exists_mem_of_ne_nil _ ((hne i).2 hsome)
    exact ⟨i, hi, List.mem_map.2 ⟨addr, haddr, rfl⟩⟩

end LeaderLookup

/-- How many of the first `n` answers to `send` are `Dead`. -/
def Answers.dead (a : Answers) (n : ℕ) : ℕ := (List.range n).countP fun k => (a.send k).isDead

theorem Answers.countP_attempts (a : Answers) (targets : List (ℕ × SocketAddr)) :
    (a.attempts 0 targets).countP (fun e => e.outcome.isDead) = a.dead targets.length := by
  have h := List.countP_map (p := Outcome.isDead) (f := Attempt.outcome) (l := a.attempts 0 targets)
  rw [map_outcome_attempts, ← List.range_eq_range', List.countP_map] at h
  exact h.symm

namespace Fanout

/-- Sends were made for all ten primary indices, and every one of them returned `Dead`. -/
def AllDead (attempts : List Attempt) : Prop :=
  (∀ i < 10, ∃ e ∈ attempts, e.index = i) ∧ ∀ e ∈ attempts, e.index < 10 → e.outcome.isDead = true

/-- The backup leaders are asked for exactly if all primary connections are dead. -/
def FiresAsIntended (s : Fanout) : Prop := 10 ∈ s.consulted ↔ AllDead s.attempts

theorem allDead_append {attempts backup : List Attempt} (h : ∀ e ∈ backup, 10 ≤ e.index) :
    AllDead (attempts ++ backup) ↔ AllDead attempts := by
  have hback {e : Attempt} (he : e ∈ backup) : ¬ e.index < 10 := Nat.not_lt.2 (h e he)
  constructor
  · rintro ⟨hall, hdead⟩
    refine ⟨fun i hi => ?_, fun e he => hdead e (List.mem_append_left _ he)⟩
    obtain ⟨e, he, rfl⟩ := hall i hi
    exact ⟨e, (List.mem_append.1 he).resolve_right fun he => hback he hi, rfl⟩
  · rintro ⟨hall, hdead⟩
    refine ⟨fun i hi => ?_, fun e he hlt => ?_⟩
    · obtain ⟨e, he, hi⟩ := hall i hi
      exact ⟨e, List.mem_append_left _ he, hi⟩
    · exact hdead e ((List.mem_append.1 he).resolve_right fun he => hback he hlt) hlt

theorem mem_index_attempts {a : Answers} {n : ℕ} {targets : List (ℕ × SocketAddr)} {i : ℕ} :
    (∃ e ∈ a.attempts n targets, e.index = i) ↔ i ∈ targets.map Prod.fst := by
  conv_rhs => rw [← a.map_target_attempts n targets, List.map_map]
  exact List.mem_map.symm

/-- The sends to the first ten leaders return `Dead` throughout if as many of them do as there can be. -/
theorem allDead_attempts_iff (a : Answers) (leaders : LeaderLookup) (tpuPort : TpuPort) {n : ℕ} (hn : n ≤ 10) :
    AllDead (a.attempts 0 (leaders.targets tpuPort (List.range n))) ↔
      a.dead (leaders.targets tpuPort (List.range n)).length = 10 * tpuPort.width := by
  have hsub := leaders.reached_sublist (List.range n)
  have hreached : (leaders.reached (List.range n)).length ≤ 10 := by
    have hle := hsub.length_le
    rw [List.length_range] at hle
    exact hle.trans hn
  have hlen := leaders.length_targets tpuPort (List.range n)
  have hindex {e : Attempt} (he : e ∈ a.attempts 0 (leaders.targets tpuPort (List.range n))) :
      e.index < 10 := by
    have hmem := (leaders.mem_map_fst_targets tpuPort).1 (mem_index_attempts.1 ⟨e, he, rfl⟩)
    exact (List.mem_range.1 (hsub.subset hmem)).trans_le hn
  rw [← a.countP_attempts]
  constructor
  · rintro ⟨hall, hdead⟩
    have hten : 10 ≤ (leaders.reached (List.range n)).length := by
      have hsubset : List.range 10 ⊆ leaders.reached (List.range n) := by
        intro i hi
        exact (leaders.mem_map_fst_targets tpuPort).1 (mem_index_attempts.1 (hall i (List.mem_range.1 hi)))
      simpa using (List.nodup_range.subperm hsubset).length_le
    rw [List.countP_eq_length.2 fun e he => hdead e he (hindex he), a.length_attempts, hlen,
      Nat.le_antisymm hreached hten, Nat.mul_comm]
  · intro hdead
    have hcount := List.countP_le_length (p := fun e => e.outcome.isDead)
      (l := a.attempts 0 (leaders.targets tpuPort (List.range n)))
    rw [a.length_attempts, hlen] at hcount
    have hten : (leaders.reached (List.range n)).length = 10 := by
      refine Nat.le_antisymm hreached ?_
      rw [hdead, Nat.mul_comm] at hcount
      exact Nat.le_of_mul_le_mul_left hcount tpuPort.width_pos
    have hrange : leaders.reached (List.range n) = List.range n := by
      apply hsub.eq_of_length_le
      rw [hten, List.length_range]
      exact hn
    obtain rfl : n = 10 := by
      rw [hrange, List.length_range] at hten
      exact hten
    refine ⟨fun i hi => ?_, fun e he _ => ?_⟩
    · rw [mem_index_attempts, leaders.mem_map_fst_targets, hrange]
      exact List.mem_range.2 hi
    · have hall : (a.attempts 0 (leaders.targets tpuPort (List.range 10))).countP
          (fun e => e.outcome.isDead) = (a.attempts 0 (leaders.targets tpuPort (List.range 10))).length := by
        rw [hdead, a.length_attempts, hlen, hten, Nat.mul_comm]
      exact List.countP_eq_length.1 hall e he

/-- What `send_fanout` has done when it returns. -/
theorem sendFanout_spec {a : Answers} (hpoll : ∀ k, a.poll k = .ok ()) (leaders : LeaderLookup)
    (tpuPort : TpuPort) (count : ℕ) :
    ∃ s, sendFanout a leaders tpuPort count = .ok s ∧ s.result.total = s.attempts.length ∧
      (10 ∈ s.consulted ↔
        10 ≤ count ∧ 10 ≤ a.dead (leaders.targets tpuPort (List.range (min count 10))).length) ∧
      (AllDead s.attempts ↔ AllDead (a.attempts 0 (leaders.targets tpuPort (List.range (min count 10))))) ∧
      ∀ e ∈ s.attempts, e.addr ∈ leaders.addrs tpuPort e.index := by
  have hstart : start.poll a = .ok { start with polls := 1 } := by
    rw [poll, hpoll]
    rfl
  obtain ⟨s, hloop, hsends, k, hk⟩ :=
    loop_spec hpoll leaders tpuPort true (List.range (min count 10)) { start with polls := 1 }
  have hattempts : s.attempts = a.attempts 0 (leaders.targets tpuPort (List.range (min count 10))) :=
    hsends.attempts
  have htotal : s.result.total = s.attempts.length := by
    rw [hsends.total, hattempts, a.length_attempts]
    exact Nat.zero_add _
  have hdead : s.deadCount = a.dead (leaders.targets tpuPort (List.range (min count 10))).length := by
    rw [hsends.deadCount, ← a.countP_attempts]
    exact Nat.zero_add _
  have hprimary : 10 ∉ s.consulted := by
    rw [hk]
    intro hmem
    have hlt := List.mem_range.1 (List.mem_of_mem_take (List.nil_append _ ▸ hmem))
    omega
  have haddr (e : Attempt) (he : e ∈ s.attempts) : e.addr ∈ leaders.addrs tpuPort e.index := by
    rw [hattempts] at he
    exact LeaderLookup.mem_addrs_of_mem_targets (Answers.mem_target_of_mem_attempts he)
  simp only [sendFanout, hstart, hloop, bind, Except.bind]
  rw [← hdead, ← hattempts]
  split_ifs with hfires
  · obtain ⟨s', hloop', hsends', k', hk'⟩ := loop_spec hpoll leaders tpuPort false [10, 11, 12, 13] s
    refine ⟨s', hloop', ?_, iff_of_true ?_ (by omega), ?_, fun e he => ?_⟩
    · rw [hsends'.total, hsends'.attempts, htotal, List.length_append, a.length_attempts]
    · rw [hk', List.take_succ_cons]
      simp
    · rw [hsends'.attempts]
      apply allDead_append
      intro e he
      have hmem := (leaders.mem_map_fst_targets tpuPort).1 (mem_index_attempts.1 ⟨e, he, rfl⟩)
      have hbackup := (leaders.reached_sublist _).subset hmem
      simp only [List.mem_cons, List.not_mem_nil, or_false] at hbackup
      omega
    · rw [hsends'.attempts] at he
      rcases List.mem_append.1 he with he | he
      · exact haddr e he
      · exact LeaderLookup.mem_addrs_of_mem_targets (Answers.mem_target_of_mem_attempts he)
  · exact ⟨s, rfl, htotal, iff_of_false hprimary (by omega), Iff.rfl, haddr⟩

/-- The counters add up to the number of sends.  The fallback is as intended unless both ports are used and of
the answers for the first ten leaders at least ten are `Dead`, but not twenty. -/
theorem firesAsIntended_iff {a : Answers} (hpoll : ∀ k, a.poll k = .ok ()) (leaders : LeaderLookup)
    (tpuPort : TpuPort) (count : ℕ) :
    ∃ s, sendFanout a leaders tpuPort count = .ok s ∧ s.result.total = s.attempts.length ∧
      (s.FiresAsIntended ↔ (tpuPort = .both → 10 ≤ count →
        a.dead (2 * (leaders.reached (List.range 10)).length) < 10 ∨
        a.dead (2 * (leaders.reached (List.range 10)).length) = 20)) := by
  obtain ⟨s, hs, htotal, hfires, halldead, -⟩ := sendFanout_spec hpoll leaders tpuPort count
  refine ⟨s, hs, htotal, ?_⟩
  have hdead : a.dead (leaders.targets tpuPort (List.range (min count 10))).length ≤
      tpuPort.width * min count 10 := by
    have hle := (leaders.reached_sublist (List.range (min count 10))).length_le
    rw [List.length_range] at hle
    refine List.countP_le_length.trans ?_
    rw [List.length_range, leaders.length_targets]
    exact Nat.mul_le_mul_left _ hle
  rw [FiresAsIntended, hfires, halldead, allDead_attempts_iff a leaders tpuPort (Nat.min_le_right _ _)]
  rcases Nat.lt_or_ge count 10 with hlt | hge
  · -- the tenth leader is not sent to
    have hne : tpuPort.width * min count 10 < 10 * tpuPort.width := by
      rw [Nat.mul_comm]
      exact Nat.mul_lt_mul_of_pos_right (by omega) tpuPort.width_pos
    exact iff_of_true (iff_of_false (by omega) (by omega)) (by omega)
  · rw [Nat.min_eq_right hge] at hdead ⊢
    cases tpuPort with
    | main | forward =>
      simp only [TpuPort.width] at hdead ⊢
      exact iff_of_true (by omega) (by rintro ⟨⟩)
    | both =>
      rw [leaders.length_targets] at hdead ⊢
      simp only [TpuPort.width, true_implies] at hdead ⊢
      omega

/-- Ten leaders with an address for each port. -/
def tenLeaders : LeaderLookup where
  isValid i := i < 10
  getLeader i := if i < 10 then some (.v4 0 (BitVec.ofNat 16 i), .v4 1 (BitVec.ofNat 16 i)) else none

/-- The first ten sends find a dead connection. -/
def tenDead : Answers where
  poll _ := .ok ()
  send k := if k < 10 then .ok (.dead 3) else .ok .sent

theorem firesAsIntended_iff_main : ∃ s, sendFanout tenDead tenLeaders .main 10 = .ok s ∧
    s.result.total = s.attempts.length ∧ s.FiresAsIntended := by
  obtain ⟨s, hs, htotal, hiff⟩ := firesAsIntended_iff (a := tenDead) (fun _ => rfl) tenLeaders .main 10
  exact ⟨s, hs, htotal, hiff.2 (by rintro ⟨⟩)⟩

/-- With both ports, the fallback fires when five of ten leaders are dead. -/
theorem not_firesAsIntended_both :
    ∃ s, sendFanout tenDead tenLeaders .both 10 = .ok s ∧ ¬ s.FiresAsIntended := by
  have hrun : (sendFanout tenDead tenLeaders .both 10).toOption.map (fun s =>
      (s.consulted.contains 10, s.attempts.any fun e => e.index < 10 && !e.outcome.isDead)) =
        some (true, true) := by decide +kernel
  cases hs : sendFanout tenDead tenLeaders .both 10 with
  | error err =>
    rw [hs] at hrun
    cases hrun
  | ok s =>
    rw [hs] at hrun
    obtain ⟨hconsulted, halive⟩ := Prod.mk.inj (Option.some.inj hrun)
    obtain ⟨e, he, hindex⟩ := List.any_eq_true.1 halive
    rw [Bool.and_eq_true, decide_eq_true_iff, Bool.not_eq_true'] at hindex
    refine ⟨s, rfl, fun hfires => ?_⟩
    have hdead := (hfires.1 (List.contains_iff_mem.1 hconsulted)).2 e he hindex.1
    exact Bool.false_ne_true (hindex.2.symm.trans hdead)

end Fanout

end Land.Quic
