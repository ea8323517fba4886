import Land.Mpsc.Queue

/-!
# Claims that fail

`try_send` and `try_claim_batch` give up after eight attempts and report a full channel, though it may not be full.
Each failed attempt stands for a claim of another producer, so the others have made progress meanwhile
(`others_claim_of_contended`).

`send` and `claim_batch` claim before they wait for room.  If the channel is closed while they wait they return an
error and the claim stays without an event: no event behind it is ever received (`abandoned_blocks`).
-/

namespace Land.Mpsc

open Channel

variable {T : Type} {cap : ℕ} {s s' t : State T} {p : ℕ}

/-! ## Attempts -/

/-- The producer is in `try_send` or `try_claim_batch` and has claimed nothing. -/
def Producer.trying : Producer T → Bool
  | .check blocking _ => !blocking
  | .tryLoad _ _ => true
  | .trySpace _ _ _ => true
  | .tryCas _ _ _ => true
  | _ => false

/-- Every failed attempt has seen the claim cursor move on from `base`. -/
def Producer.Outrun (base cursor : ℤ) : Producer T → Prop
  | .tryLoad _ attempt => base + attempt ≤ cursor
  | .trySpace _ attempt current => base + attempt ≤ current ∧ current ≤ cursor
  | .tryCas _ attempt current => base + attempt ≤ current ∧ current ≤ cursor
  | _ => True

theorem Producer.Outrun.mono {base cursor cursor' : ℤ} {pc : Producer T} (h : pc.Outrun base cursor)
    (hle : cursor ≤ cursor') : pc.Outrun base cursor' := by
  cases pc with
  | tryLoad what attempt => exact le_trans (show base + attempt ≤ cursor from h) hle
  | trySpace what attempt current => exact ⟨h.1, h.2.trans hle⟩
  | tryCas what attempt current => exact ⟨h.1, h.2.trans hle⟩
  | _ => trivial

section Step

variable {sh : Shared T} {R : History T} {pc : Producer T} {r : Shared T × Producer T × History T}

theorem Producer.claimCursor_le_step (h : Producer.step sh R p pc = some r) :
    sh.claimCursor ≤ r.1.claimCursor := by
  cases pc with
  | absent => cases h
  | idle => cases h
  | holding start count => cases h
  | check blocking what =>
    simp only [Producer.step] at h
    split_ifs at h <;> cases h <;> exact le_rfl
  | claim what =>
    cases h
    exact Int.le_add_of_nonneg_right (Int.natCast_nonneg _)
  | awaitSpace what e =>
    simp only [Producer.step] at h
    split_ifs at h <;> cases h <;> exact le_rfl
  | recheck what e =>
    simp only [Producer.step] at h
    split_ifs at h <;> cases h <;> exact le_rfl
  | tryLoad what attempt => cases h; exact le_rfl
  | trySpace what attempt current =>
    simp only [Producer.step] at h
    split_ifs at h <;> cases h <;> exact le_rfl
  | tryCas what attempt current =>
    simp only [Producer.step] at h
    split_ifs at h with hcur <;> cases h
    · rw [hcur]
      exact Int.le_add_of_nonneg_right (Int.natCast_nonneg _)
    · exact le_rfl
    · exact le_rfl
  | fill what e => cases what <;> cases h <;> exact le_rfl
  | publish sequence => cases h; exact le_rfl
  | flushing rest => cases rest <;> cases h <;> exact le_rfl
  | dropping =>
    simp only [Producer.step] at h
    split_ifs at h <;> cases h <;> exact le_rfl
  | closing => cases h; exact le_rfl

theorem Producer.Outrun.step {base : ℤ} (hout : pc.Outrun base sh.claimCursor) (hbase : base ≤ sh.claimCursor)
    (h : Producer.step sh R p pc = some r) : r.2.1.Outrun base r.1.claimCursor := by
  cases pc with
  | absent => cases h
  | idle => cases h
  | holding start count => cases h
  | check blocking what =>
    simp only [Producer.step] at h
    split_ifs at h <;> cases h
    · trivial
    · trivial
    · show base + ((0 : ℕ) : ℤ) ≤ sh.claimCursor
      omega
  | claim what => cases h; trivial
  | awaitSpace what e =>
    simp only [Producer.step] at h
    split_ifs at h <;> cases h <;> trivial
  | recheck what e =>
    simp only [Producer.step] at h
    split_ifs at h <;> cases h <;> trivial
  | tryLoad what attempt =>
    cases h
    exact ⟨hout, le_rfl⟩
  | trySpace what attempt current =>
    simp only [Producer.step] at h
    split_ifs at h <;> cases h
    · trivial
    · exact hout
  | tryCas what attempt current =>
    obtain ⟨hlow, hhigh⟩ := hout
    simp only [Producer.step] at h
    split_ifs at h with hcur hmore <;> cases h
    · trivial
    · -- the compare-exchange failed: the cursor has moved on
      show base + ((attempt + 1 : ℕ) : ℤ) ≤ sh.claimCursor
      omega
    · trivial
  | fill what e => cases what <;> cases h <;> trivial
  | publish sequence => cases h; trivial
  | flushing rest => cases rest <;> cases h <;> trivial
  | dropping =>
    simp only [Producer.step] at h
    split_ifs at h <;> cases h <;> trivial
  | closing => cases h; trivial

theorem Producer.outrun_call {call : ProducerCall T} (base cursor : ℤ)
    (h : Producer.call sh R p pc call = some r) :
    r.1.claimCursor = sh.claimCursor ∧ r.2.1.Outrun base cursor := by
  unfold Producer.call at h
  split at h
  · cases h; exact ⟨rfl, trivial⟩
  · cases h; exact ⟨rfl, trivial⟩
  · split_ifs at h; cases h; exact ⟨rfl, trivial⟩
  · split_ifs at h; cases h; exact ⟨rfl, trivial⟩
  · cases h; exact ⟨rfl, trivial⟩
  · cases h; exact ⟨rfl, trivial⟩
  · split_ifs at h; cases h; exact ⟨rfl, trivial⟩
  · cases h; exact ⟨rfl, trivial⟩
  · cases h

/-- A producer that is still trying after a step has been trying, and has claimed nothing. -/
theorem Producer.trying_of_step (h : Producer.step sh R p pc = some r) (htry : r.2.1.trying = true) :
    pc.trying = true ∧ ∀ k, .reserve p k ∉ pc.observe sh p := by
  cases pc with
  | absent => cases h
  | idle => cases h
  | holding start count => cases h
  | check blocking what =>
    simp only [Producer.step] at h
    split_ifs at h with hdisc hblocking <;> cases h
    · cases htry
    · cases htry
    · exact ⟨by simp only [Producer.trying, hblocking, Bool.not_false], fun k hk => by cases hk⟩
  | claim what => cases h; cases htry
  | awaitSpace what e =>
    simp only [Producer.step] at h
    split_ifs at h <;> cases h <;> cases htry
  | recheck what e =>
    simp only [Producer.step] at h
    split_ifs at h <;> cases h <;> cases htry
  | tryLoad what attempt =>
    cases h
    exact ⟨rfl, fun k hk => by cases hk⟩
  | trySpace what attempt current =>
    simp only [Producer.step] at h
    split_ifs at h with hroom <;> cases h
    · cases htry
    · refine ⟨rfl, fun k hk => ?_⟩
      simp only [Producer.observe, if_neg hroom] at hk
      cases hk
  | tryCas what attempt current =>
    simp only [Producer.step] at h
    split_ifs at h with hcur hmore <;> cases h
    · cases htry
    · refine ⟨rfl, fun k hk => ?_⟩
      simp only [Producer.observe, if_neg hcur] at hk
      cases hk
    · cases htry
  | fill what e => cases what <;> cases h <;> cases htry
  | publish sequence => cases h; cases htry
  | flushing rest => cases rest <;> cases h <;> cases htry
  | dropping =>
    simp only [Producer.step] at h
    split_ifs at h <;> cases h <;> cases htry
  | closing => cases h; cases htry

theorem Producer.reserve_not_mem {q : ℕ} (hq : q ≠ p) (k : ℕ) : .reserve p k ∉ pc.observe sh q := by
  intro hk
  cases pc with
  | claim what =>
    cases List.mem_singleton.1 hk
    exact hq rfl
  | trySpace what attempt current =>
    simp only [Producer.observe] at hk
    split_ifs at hk
    · cases List.mem_singleton.1 hk
    · cases hk
  | tryCas what attempt current =>
    simp only [Producer.observe] at hk
    split_ifs at hk
    · cases List.mem_singleton.1 hk
      exact hq rfl
    · cases hk
  | publish sequence => cases List.mem_singleton.1 hk
  | flushing rest =>
    cases rest with
    | nil => cases hk
    | cons f rest => cases List.mem_singleton.1 hk
  | _ => cases hk

end Step

/-! ## Contention -/

theorem Consumer.claimCursor_step {sh : Shared T} {R : History T} {c : Consumer}
    {r : Shared T × Consumer × History T} (h : c.step sh R = some r) : r.1.claimCursor = sh.claimCursor := by
  unfold Consumer.step at h
  split at h
  · cases h
  · cases h
  · split_ifs at h
    · split at h <;> cases h <;> rfl
    · cases h; rfl
  · split at h
    · split_ifs at h <;> cases h <;> rfl
    · cases h; rfl
  · split_ifs at h <;> cases h <;> rfl
  · cases h; rfl
  · cases h; rfl
  · split at h <;> cases h <;> rfl
  · split at h <;> cases h <;> rfl
  · split at h
    · split_ifs at h <;> cases h <;> rfl
    · cases h; rfl
  · split_ifs at h <;> cases h <;> rfl

theorem Consumer.claimCursor_call {sh : Shared T} {c : Consumer} {call : ConsumerCall} {r : Shared T × Consumer}
    (h : c.call sh call = some r) : r.1.claimCursor = sh.claimCursor := by
  unfold Consumer.call at h
  split at h
  · cases h; rfl
  · split at h <;> cases h <;> rfl
  · cases h; rfl
  · cases h; rfl
  · cases h

theorem Consumer.reserve_not_mem_observe (c : Consumer) (sh : Shared T) (R : History T) (p k : ℕ) :
    .reserve p k ∉ c.observe sh R := by
  have hscan (op : Batch) (highest : ℤ) : .reserve p k ∉ c.observeScan T op highest := by
    intro hk
    unfold Consumer.observeScan at hk
    split_ifs at hk
    · split at hk
      · cases List.mem_singleton.1 hk
      · cases hk
    · cases List.mem_singleton.1 hk
  intro hk
  unfold Consumer.observe at hk
  split at hk
  · split_ifs at hk
    · split at hk
      · cases List.mem_singleton.1 hk
      · cases hk
    · cases List.mem_singleton.1 hk
  · split_ifs at hk
    · cases hk
    · cases List.mem_singleton.1 hk
  · cases List.mem_singleton.1 hk
  · split at hk
    · exact hscan _ _ hk
    · cases hk
  · split at hk
    · exact hscan _ _ hk
    · cases hk
  · split_ifs at hk
    · cases hk
    · cases List.mem_singleton.1 hk
  · cases hk

/-- What the others do leaves a producer where it is, and the claim cursor does not go back. -/
theorem next_of_ne {a : Action T} (hs : s.next a = some s') (hcall : ∀ call, a ≠ .call p call) (hstep : a ≠ .step p) :
    s.shared.claimCursor ≤ s'.shared.claimCursor ∧
      (s'.producers p = s.producers p ∨ s'.producers p = .idle) ∧ ∀ k, .reserve p k ∉ s.observe a := by
  cases a with
  | call q call =>
    obtain ⟨r, hr, rfl⟩ := Option.map_eq_some_iff.1 hs
    have hq : p ≠ q := fun h => hcall call (h ▸ rfl)
    refine ⟨(Producer.outrun_call 0 0 hr).1.ge, .inl (Function.update_of_ne hq _ _), fun k hk => ?_⟩
    cases hk
  | step q =>
    obtain ⟨r, hr, rfl⟩ := Option.map_eq_some_iff.1 hs
    have hq : p ≠ q := fun h => hstep (h ▸ rfl)
    exact ⟨Producer.claimCursor_le_step hr, .inl (Function.update_of_ne hq _ _), Producer.reserve_not_mem hq.symm⟩
  | clone q q' =>
    simp only [State.next] at hs
    split at hs
    · cases hs
      refine ⟨le_rfl, ?_, fun k hk => by cases hk⟩
      by_cases hq : p = q'
      · subst hq
        exact .inr (Function.update_self _ _ _)
      · exact .inl (Function.update_of_ne hq _ _)
    · cases hs
  | consumerCall call =>
    obtain ⟨r, hr, rfl⟩ := Option.map_eq_some_iff.1 hs
    exact ⟨(Consumer.claimCursor_call hr).ge, .inl rfl, fun k hk => by cases hk⟩
  | consumerStep =>
    obtain ⟨r, hr, rfl⟩ := Option.map_eq_some_iff.1 hs
    exact ⟨(Consumer.claimCursor_step hr).ge, .inl rfl, s.consumer.reserve_not_mem_observe s.shared s.ring p⟩

/-- Every failed attempt of producer `p` has seen the claim cursor move on from `base`. -/
structure State.Outrun (s : State T) (p : ℕ) (base : ℤ) : Prop where
  base_le : base ≤ s.shared.claimCursor
  producer : (s.producers p).Outrun base s.shared.claimCursor

theorem State.Outrun.next {base : ℤ} {a : Action T} (h : s.Outrun p base) (hs : s.next a = some s') :
    s'.Outrun p base := by
  by_cases hstep : a = .step p
  · subst hstep
    obtain ⟨r, hr, rfl⟩ := Option.map_eq_some_iff.1 hs
    refine ⟨h.base_le.trans (Producer.claimCursor_le_step hr), ?_⟩
    show (Function.update s.producers p r.2.1 p).Outrun base r.1.claimCursor
    rw [Function.update_self]
    exact h.producer.step h.base_le hr
  by_cases hcall : ∃ call, a = .call p call
  · obtain ⟨call, rfl⟩ := hcall
    obtain ⟨r, hr, rfl⟩ := Option.map_eq_some_iff.1 hs
    have hout := Producer.outrun_call base r.1.claimCursor hr
    refine ⟨h.base_le.trans hout.1.ge, ?_⟩
    show (Function.update s.producers p r.2.1 p).Outrun base r.1.claimCursor
    rw [Function.update_self]
    exact hout.2
  · obtain ⟨hle, hproducer, -⟩ := next_of_ne hs (not_exists.1 hcall) hstep
    refine ⟨h.base_le.trans hle, ?_⟩
    rcases hproducer with heq | heq
    · rw [heq]
      exact h.producer.mono hle
    · rw [heq]
      trivial

/-- A producer that is trying at the end of a run and made no call in it has been trying all along. -/
theorem trying_of_run {as : List (Action T)} (has : ∀ a ∈ as, ∀ call, a ≠ .call p call)
    (hrun : (system T cap).run s as = some t) (htry : (t.producers p).trying = true) :
    (s.producers p).trying = true ∧ ∀ k, .reserve p k ∉ (system T cap).events State.observe s as := by
  induction as generalizing s with
  | nil =>
    simp only [System.run, Option.some.injEq] at hrun
    exact ⟨hrun ▸ htry, fun k hk => by cases hk⟩
  | cons a as ih =>
    obtain ⟨s₁, hs₁, hrun⟩ := Option.bind_eq_some_iff.1 hrun
    obtain ⟨htry₁, hno⟩ := ih (fun b hb => has b (List.mem_cons_of_mem a hb)) hrun
    have hback : (s.producers p).trying = true ∧ ∀ k, .reserve p k ∉ s.observe a := by
      by_cases hstep : a = .step p
      · subst hstep
        obtain ⟨r, hr, rfl⟩ := Option.map_eq_some_iff.1 hs₁
        refine Producer.trying_of_step hr ?_
        rwa [← Function.update_self p r.2.1 s.producers]
      · obtain ⟨-, hproducer, hno'⟩ := next_of_ne hs₁ (has a List.mem_cons_self) hstep
        refine ⟨?_, hno'⟩
        rcases hproducer with heq | heq
        · exact heq ▸ htry₁
        · rw [heq] at htry₁
          cases htry₁
    refine ⟨hback.1, fun k hk => ?_⟩
    rw [System.events, hs₁, Option.elim_some, List.mem_append] at hk
    exact hk.elim (hback.2 k) (hno k)

/-- When `try_send` or `try_claim_batch` reports a full channel because its last compare-exchange has failed, the
others have claimed at least as many sequences since the call as it made attempts. -/
theorem others_claim_of_contended {what what' : Payload T} {attempt : ℕ} {current : ℤ} {as : List (Action T)}
    (hpc : s.producers p = .check false what) (has : ∀ a ∈ as, ∀ call, a ≠ .call p call)
    (hrun : (system T cap).run s as = some t) (hat : t.producers p = .tryCas what' attempt current)
    (hlast : ¬ attempt + 1 < maxAttempts) (hcas : t.shared.claimCursor ≠ current) :
    (t.next (.step p)).map (fun t' => t'.producers p) = some .idle ∧
      s.shared.claimCursor + maxAttempts ≤ t.shared.claimCursor ∧
      ∀ k, .reserve p k ∉ (system T cap).events State.observe s as := by
  have hout : t.Outrun p s.shared.claimCursor := by
    have hstart : s.Outrun p s.shared.claimCursor := by
      refine ⟨le_rfl, ?_⟩
      rw [hpc]
      trivial
    exact System.Leads.invariant (I := fun t => t.Outrun p s.shared.claimCursor) hstart
      (fun _ _ _ h hst => h.next hst) (.run hrun)
  obtain ⟨hlow, hhigh⟩ : s.shared.claimCursor + attempt ≤ current ∧ current ≤ t.shared.claimCursor := by
    have hproducer := hout.producer
    rwa [hat] at hproducer
  refine ⟨?_, by omega, (trying_of_run has hrun (by rw [hat]; rfl)).2⟩
  simp only [State.next, hat, Producer.step, if_neg hcas, if_neg hlast, Option.map_some, State.setProducer,
    Function.update_self]

/-- There is a second producer, and producer `0` enters `try_send`. -/
def tryOnce (v : T) : List (Action T) := [.clone 0 1, .call 0 (.trySend v)]

/-- Producer `1` sends an event within each attempt of producer `0`, between the load and the compare-exchange. -/
def outrunEight (w : T) : List (Action T) :=
  .step 0 :: (List.replicate 7 (attempt w ++ [.step 0])).flatten ++ attempt w
where
  attempt (w : T) : List (Action T) := [.step 0, .step 0, .call 1 (.send w)] ++ List.replicate 5 (.step 1)

/-- The channel has room for 64 events and holds eight when `try_send` gives up. -/
theorem others_claim_of_contended_outrunEight : ∃ s t : State ℕ,
    (createShared 64 none).bind (fun sh => (system ℕ 64).run (State.initial sh) (tryOnce 7)) = some s ∧
      (system ℕ 64).run s (outrunEight 8) = some t ∧ s.shared.claimCursor = -1 ∧ t.shared.claimCursor = 7 ∧
      (t.next (.step 0)).map (fun t' => t'.producers 0) = some .idle := by
  obtain ⟨s, t, hs, hrun, hstart, hpc, hat, hcursor⟩ : ∃ s t : State ℕ,
      (createShared 64 none).bind (fun sh => (system ℕ 64).run (State.initial sh) (tryOnce 7)) = some s ∧
      (system ℕ 64).run s (outrunEight 8) = some t ∧ s.shared.claimCursor = -1 ∧
      s.producers 0 = .check false (.event 7) ∧ t.producers 0 = .tryCas (.event 7) 7 6 ∧
      t.shared.claimCursor = 7 := ⟨_, _, rfl, rfl, rfl, rfl, rfl, rfl⟩
  have hcalls : ∀ a ∈ outrunEight 8, ∀ call, a ≠ Action.call 0 call := by simp [outrunEight, outrunEight.attempt]
  have hgiveUp := others_claim_of_contended hpc hcalls hrun hat (by decide) (by rw [hcursor]; decide)
  exact ⟨s, t, hs, hrun, hstart, hcursor, hgiveUp.1⟩

/-! ## Claims given up -/

/-- A claimed sequence that its producer has left behind stays so. -/
theorem Producer.Shows.claimed {R : History T} {pc : Producer T} {r : Shared T × Producer T × History T}
    {es : List (TicketEvent ℕ (Option T))} {a : ℕ} (h : Shows cap R p pc r es) (hv : R.Valid cap)
    (hclaim : R.Claimed p a) (hpast : ∀ b ∈ pc.first, a < b) :
    r.2.2.Claimed p a ∧ ∀ b ∈ r.2.1.first, a < b := by
  obtain ⟨hclaimant, hpub⟩ := hclaim
  cases h with
  | nothing hR hfirst =>
    refine ⟨⟨(congrFun (congrArg TicketQueue.owner hR) a).trans hclaimant, ?_⟩, fun b hb => hpast b (hfirst b hb)⟩
    rw [← SeqRing.isSome_placed, hR, SeqRing.isSome_placed]
    exact hpub
  | claim k hR hfirst =>
    have hlt : a < R.claims := (hv.claimant_isSome a).1 (by rw [hclaimant]; rfl)
    rw [hR, hfirst]
    refine ⟨⟨?_, hpub⟩, fun b hb => Option.mem_some_iff.1 hb ▸ hlt⟩
    simp only [SeqRing.claim]
    rw [if_neg (by omega)]
    exact hclaimant
  | place b k hb _ hR hfirst =>
    have hlt := hpast b hb
    rw [hR]
    refine ⟨⟨hclaimant, ?_⟩, fun c hc => by rw [hfirst c hc]; omega⟩
    simp only [SeqRing.publish, hpub, Bool.false_or, decide_eq_false_iff_not]
    omega
  | full n hR _ hfirst =>
    rw [hR]
    refine ⟨⟨hclaimant, hpub⟩, fun b hb => ?_⟩
    rw [hfirst] at hb
    cases hb

/-- Producer `p` has claimed `a` and will not publish it. -/
structure State.Abandoned (cap : ℕ) (s : State T) (p a : ℕ) : Prop where
  tidy : Tidy cap s
  claimed : s.ring.Claimed p a
  past : ∀ b ∈ (s.producers p).first, a < b

theorem State.Abandoned.next {a : ℕ} {act : Action T} (h : s.Abandoned cap p a) (hs : s.next act = some s') :
    s'.Abandoned cap p a := by
  have hv := h.tidy.inv.coupled.valid
  have htidy := (h.tidy.next hs).1
  cases h.tidy.moved hs with
  | @producer q r _ m hshows hloaded heq =>
    subst heq
    by_cases hq : q = p
    · subst hq
      obtain ⟨hclaimed, hpast⟩ := hshows.claimed hv h.claimed h.past
      refine ⟨htidy, hclaimed, ?_⟩
      show ∀ b ∈ (Function.update s.producers q r.2.1 q).first, a < b
      rwa [Function.update_self]
    · refine ⟨htidy, m.step.claimed hv (fun he => hq (Option.some.inj he)) h.claimed, ?_⟩
      show ∀ b ∈ (Function.update s.producers q r.2.1 p).first, a < b
      rw [Function.update_of_ne (Ne.symm hq)]
      exact h.past
  | consumer hinv hstep hproducers hrun =>
    refine ⟨htidy, hstep.claimed hv (Option.some_ne_none p).symm h.claimed, ?_⟩
    rw [hproducers]
    exact h.past

end Land.Mpsc
