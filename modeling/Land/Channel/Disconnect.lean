import Land.Mpsc.Disconnect
import Land.Spsc.Report

/-!
# Premature disconnection

In a channel that is closed only by dropping its last producer, a receive should report the
disconnection when everything sent has been consumed.  Of the receiving operations of both channels only
the blocking ones that look again after they have seen the flag keep to that in every run.
-/

namespace Land.Channel

variable {T : Type}

/-- In runs without `close`, a report of `recv` comes with everything consumed, and so does every report
if no `drop` takes effect unseen; a `drop` that does leads to a report with an event left. -/
theorem drained_of_reports (T : Type) :
    (∀ cap, 64 ≤ cap →
      (∀ s, (Mpsc.system T cap).ReachableVia (fun s a => a.explicitClose = false ∧
          ¬ Mpsc.DropsUnseen s a) s →
        s.consumer.reportsDisconnected s.shared = true → s.ring.Drained) ∧
      (∀ s, (Mpsc.system T cap).ReachableVia (fun _ a => a.explicitClose = false) s →
        s.consumer.pc = .finalCheck → s.consumer.reportsDisconnected s.shared = true →
          s.ring.Drained) ∧
      (∀ s a s', (Mpsc.system T cap).ReachableVia (fun _ a => a.explicitClose = false) s →
        (Mpsc.system T cap).step s a = some s' → Mpsc.DropsUnseen s a →
          s'.consumer.reportsDisconnected s'.shared = true ∧ ¬ s'.ring.Drained)) ∧
    (∀ cap w,
      (∀ s, (Spsc.system T cap w).ReachableVia (fun s a => a.explicitClose = false ∧
          ¬ Spsc.DropsUnseen s a) s →
        s.consumer.reportsDisconnected s.shared = true → s.ring.Drained) ∧
      (∀ s a s', (Spsc.system T cap w).ReachableVia (fun _ a => a.explicitClose = false) s →
        (Spsc.system T cap w).step s a = some s' → Spsc.DropsUnseen s a →
          s'.consumer.reportsDisconnected s'.shared = true ∧ ¬ s'.ring.Drained)) := by
  refine ⟨fun cap hcap => ⟨?_, ?_, ?_⟩, fun cap w => ⟨?_, ?_⟩⟩
  · intro s hs hr
    obtain ⟨hi, ha⟩ := Mpsc.accounted_of_reachable hcap (fun _ _ c => c.1) hs
    exact ha.drained hi hr (.inr (Mpsc.seen_of_reachable hcap hs))
  · intro s hs hfinal hr
    obtain ⟨hi, ha⟩ := Mpsc.accounted_of_reachable hcap (fun _ _ c => c) hs
    exact ha.drained hi hr (.inl hfinal)
  · intro s a s' hs hst hd
    exact Mpsc.reports_of_dropsUnseen (Mpsc.inv_of_reachable hcap hs.reachable) hst hd
  · intro s hs hr
    have hi := Spsc.inv_of_reachable hs.reachable
    exact (hi.drained_iff hr).2 (Spsc.seen_of_reachable hs hr)
  · intro s a s' hs hst hd
    exact Spsc.reports_of_dropsUnseen (Spsc.handles_of_reachable hs.reachable)
      (Spsc.inv_of_reachable hs.reachable) hst hd

/-- `try_recv` after the only producer was dropped reports the disconnection. -/
theorem drained_of_reports_dropFirst : ∃ s : Mpsc.State ℕ,
    s.consumer.pc = .disconnected .tryRecv ∧ s.consumer.reportsDisconnected s.shared = true ∧
      s.ring.Drained := by
  obtain ⟨sh, hsh⟩ : ∃ sh, Mpsc.createShared 64 (none : Option ℕ) = some sh := ⟨_, rfl⟩
  have idle : ∀ {s : Mpsc.State ℕ} {a : Mpsc.Action ℕ}, s.consumer.pc.checked = false →
      ¬ Mpsc.DropsUnseen s a := by
    rintro s a hch ⟨-, -, -, hch', -⟩
    rw [hch] at hch'
    cases hch'
  have h₀ : (Mpsc.system ℕ 64).ReachableVia (fun s a => a.explicitClose = false ∧
      ¬ Mpsc.DropsUnseen s a) (Mpsc.State.initial sh) := .init ⟨none, sh, hsh, rfl⟩
  cases hsh
  have h₁ := h₀.step (.call 0 .drop) ⟨rfl, idle rfl⟩ rfl
  have h₂ := h₁.step (.step 0) ⟨rfl, idle rfl⟩ rfl
  have h₃ := h₂.step (.step 0) ⟨rfl, idle rfl⟩ rfl
  have h₄ := h₃.step (.consumerCall (.single .tryRecv)) ⟨rfl, idle rfl⟩ rfl
  have h₅ := h₄.step .consumerStep ⟨rfl, idle rfl⟩ rfl
  exact ⟨_, rfl, rfl, ((drained_of_reports ℕ).1 64 le_rfl).1 _ h₅ rfl⟩

/-- The call looks for an event; then producer `0` sends one and is dropped. -/
def mpscMissed (call : Mpsc.ConsumerCall) (v : T) : List (Mpsc.Action T) :=
  [.consumerCall call, .consumerStep,
    .call 0 (.send v), .step 0, .step 0, .step 0, .step 0, .step 0,
    .call 0 .drop, .step 0, .step 0]

/-- The call looks for an event; then the producer sends one and is dropped. -/
def spscMissed (op : Spsc.RecvOp) (v : T) : List (Spsc.Action T) :=
  [.consumerCall (.start op), .consumerStep,
    .producerCall (.start (.send v)), .producerStep, .producerStep, .producerStep, .producerStep,
    .producerCall .drop]

/-- Seven of the eight operations then report a disconnection with the event left. -/
theorem not_drained_of_reports :
    (∀ call ∈ [.single .tryRecv, .single .peek, .batch (.recvBatch 1), .batch (.tryRecvBatch 1)],
      ∃ sh, Mpsc.createShared 64 (none : Option ℕ) = some sh ∧
      ∃ s, (Mpsc.system ℕ 64).run (.initial sh) (mpscMissed call 7) = some s ∧
        s.consumer.reportsDisconnected s.shared = true ∧ s.ring.published 0 = true ∧
        s.ring.taken = []) ∧
    (∀ op ∈ [.tryRecv, .peek, .tryRecvBatch 1],
      ∃ b, RingBuffer.new 64 (none : Option ℕ) = some b ∧
      ∃ s, (Spsc.system ℕ 64 .busySpinWait).run (.initial b 64 .busySpinWait) (spscMissed op 7) =
          some s ∧
        s.consumer.reportsDisconnected s.shared = true ∧ s.ring.published 0 = true ∧
        s.ring.taken = []) := by
  constructor
  · intro call hcall
    fin_cases hcall <;> exact ⟨_, rfl, _, rfl, rfl, rfl, rfl⟩
  · intro op hop
    fin_cases hop <;> exact ⟨_, rfl, _, rfl, rfl, rfl, rfl⟩

end Land.Channel
