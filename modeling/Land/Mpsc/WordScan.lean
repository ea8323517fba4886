import Land.Mpsc.Delivery

/-!
# The word scan finds the highest published sequence

`highest_published` looks at one word of the bitmap in each turn of its loop.  Run to its end in any
reachable state, from the consumer's next sequence, it returns what looking at the sequences one by one
with `is_published` up to the claim cursor would return.

The scan never compares its result with the claim cursor.  It needs not: a sequence that is not claimed is
not published, and where the claims are more than a lap ahead the first sequence of the next lap shares its
bit with the first one of the scan and is expected to have the other parity.
-/

namespace Land.Mpsc

variable {T : Type} {cap : ℕ}

/-- The loop of `highest_published`, for at most `fuel` turns. -/
def Scan.loop (sh : Shared T) : ℕ → Scan → Option ℤ
  | 0, _ => none
  | fuel + 1, c =>
      match c.step sh with
      | .inl highest => some highest
      | .inr c => Scan.loop sh fuel c

/-- `highest_published(from)`, with at most `fuel` turns of its loop. -/
def Shared.highestPublished (sh : Shared T) (fuel : ℕ) (origin : ℤ) : Option ℤ :=
  match Scan.start sh origin with
  | .inl highest => some highest
  | .inr c => Scan.loop sh fuel c

/-- Every sequence from `origin` to `h` is claimed and published. -/
def Shared.Contiguous (sh : Shared T) (origin h : ℤ) : Prop :=
  origin ≤ h ∧ h ≤ sh.claimCursor ∧ ∀ q, origin ≤ q → q ≤ h → sh.isPublished q = true

/-- What a scan of the single bits finds: the highest such sequence, or the one before `origin`. -/
def Shared.IsHighest (sh : Shared T) (origin h : ℤ) : Prop :=
  IsGreatest {h | sh.Contiguous origin h} h ∨ {h | sh.Contiguous origin h} = ∅ ∧ h = origin - 1

variable {sh : Shared T} {R : History T}

theorem Shared.IsHighest.unique {origin h h' : ℤ} (hh : sh.IsHighest origin h)
    (hh' : sh.IsHighest origin h') : h = h' := by
  rcases hh with hh | ⟨hempty, rfl⟩ <;> rcases hh' with hh' | ⟨hempty', rfl⟩
  · exact hh.unique hh'
  · exact absurd hempty' (Set.nonempty_iff_ne_empty.1 hh.nonempty)
  · exact absurd hempty (Set.nonempty_iff_ne_empty.1 hh'.nonempty)
  · rfl

/-- A run of published bits that starts at the next sequence ends before the claims and the window do. -/
theorem Coupled.published_run_le (hc : Coupled cap sh R) {m : ℕ} (hm : R.released ≤ m)
    (hpub : ∀ t, R.released ≤ t → t < m → Parity.Published cap sh.bit t) :
    m ≤ R.claims ∧ m ≤ R.released + cap := by
  have hall : ∀ t, R.released ≤ t → t < m → R.published t = true := by
    obtain ⟨k, rfl⟩ := Nat.exists_eq_add_of_le hm
    exact hc.published_scan (fun t h1 h2 => absurd h2 (not_lt.2 h1)) hpub
  rcases hm.eq_or_lt with rfl | hlt
  · exact ⟨hc.valid.released_le_claims, Nat.le_add_right _ _⟩
  · have hlast := hall (m - 1) (by omega) (by omega)
    have hclaims := hc.valid.published_lt _ hlast
    have hroom := hc.valid.published_room _ hlast
    omega

/-- Where such a run ends, at the claims or at a bit that is not published, a scan of the single bits ends
too. -/
theorem Coupled.isHighest_of_run (hc : Coupled cap sh R) {m : ℕ} (hm : R.released ≤ m)
    (hpub : ∀ t, R.released ≤ t → t < m → Parity.Published cap sh.bit t)
    (hend : ¬ Parity.Published cap sh.bit m ∨ R.claims ≤ m) :
    sh.IsHighest R.released ((m : ℤ) - 1) := by
  have hclaim := hc.claim
  have hle := (hc.published_run_le hm hpub).1
  -- nothing beyond the run is contiguous
  have hbound {h : ℤ} (hcon : sh.Contiguous R.released h) : h ≤ (m : ℤ) - 1 := by
    obtain ⟨hlo, hhi, hbits⟩ := hcon
    by_contra hgt
    rcases hend with hnot | hclaims
    · exact hnot ((isPublished_iff hc.bits m).1 (hbits m (by omega) (by omega)))
    · omega
  rcases hm.eq_or_lt with rfl | hlt
  · refine .inr ⟨?_, rfl⟩
    apply Set.eq_empty_of_forall_notMem
    intro h hcon
    have := hbound hcon
    have := hcon.1
    omega
  · refine .inl ⟨⟨by omega, by omega, fun q hlo hhi => ?_⟩, fun h hcon => hbound hcon⟩
    obtain ⟨n, rfl⟩ := Int.eq_ofNat_of_zero_le (by omega : 0 ≤ q)
    exact (isPublished_iff hc.bits n).2 (hpub n (by omega) (by omega))

/-- The loop from a sequence up to which everything is published.  Each turn moves at least one sequence
towards the end of the window. -/
theorem Coupled.isHighest_loop (hc : Coupled cap sh R) {fuel q : ℕ} {c : Scan} (hat : c.At sh q)
    (hclaim : c.claim = sh.claimCursor) (hq : R.released ≤ q)
    (hpub : ∀ t, R.released ≤ t → t < q → Parity.Published cap sh.bit t)
    (hfuel : R.released + cap - q < fuel) :
    ∃ h, Scan.loop sh fuel c = some h ∧ sh.IsHighest R.released h := by
  induction fuel generalizing q c with
  | zero => omega
  | succ fuel ih =>
    obtain ⟨hend, hgo⟩ := Scan.step_spec hc.bits hat
    have hextend {n : ℕ} (hn : ∀ t, q ≤ t → t < q + n → Parity.Published cap sh.bit t) :
        ∀ t, R.released ≤ t → t < q + n → Parity.Published cap sh.bit t := by
      intro t h1 h2
      rcases Nat.lt_or_ge t q with hlt | hge
      · exact hpub t h1 hlt
      · exact hn t hge h2
    unfold Scan.loop
    cases hstep : c.step sh with
    | inl highest =>
      obtain ⟨n, rfl, hn, hstop⟩ := hend highest hstep
      refine ⟨_, rfl, hc.isHighest_of_run (by omega) (hextend hn) ?_⟩
      refine hstop.imp_right fun hpast => ?_
      have := hc.claim
      omega
    | inr c' =>
      obtain ⟨n, hat', hn, hpos, hsame⟩ := hgo c' hstep
      have hroom := (hc.published_run_le (by omega) (hextend hn)).2
      exact ih hat' (hsame.trans hclaim) (by omega) (hextend hn) (by omega)

theorem Coupled.isHighest_highestPublished (hc : Coupled cap sh R) {fuel : ℕ} (hfuel : cap < fuel) :
    ∃ h, sh.highestPublished fuel R.released = some h ∧ sh.IsHighest R.released h := by
  unfold Shared.highestPublished
  cases hstart : Scan.start sh (R.released : ℤ) with
  | inl highest =>
    -- nothing is claimed yet
    unfold Scan.start at hstart
    split_ifs at hstart with hnone
    cases hstart
    rw [hc.claim] at hnone
    exact ⟨_, rfl, hc.isHighest_of_run le_rfl (fun t h1 h2 => absurd h2 (not_lt.2 h1)) (.inr (by omega))⟩
  | inr c =>
    have hclaim : c.claim = sh.claimCursor := by
      unfold Scan.start at hstart
      split_ifs at hstart
      cases hstart
      rfl
    exact hc.isHighest_loop (Scan.at_start hstart) hclaim le_rfl
      (fun t h1 h2 => absurd h2 (not_lt.2 h1)) (by omega)

/-- In every reachable state `highest_published`, from the consumer's next sequence, returns what a scan of
the single bits up to the claim cursor finds. -/
theorem isHighest_of_reachable (hcap : 64 ≤ cap) {s : State T} (hs : (system T cap).Reachable s) :
    ∃ h, s.shared.IsHighest s.consumer.nextSequence h ∧
      ∀ fuel, cap < fuel → s.shared.highestPublished fuel s.consumer.nextSequence = some h := by
  have hi := inv_of_reachable hcap hs
  rw [hi.consumer.next]
  obtain ⟨h, -, hhighest⟩ := hi.coupled.isHighest_highestPublished (Nat.lt_succ_self cap)
  refine ⟨h, hhighest, fun fuel hfuel => ?_⟩
  obtain ⟨h', hresult, hhighest'⟩ := hi.coupled.isHighest_highestPublished hfuel
  rw [hresult, hhighest'.unique hhighest]

/-- Producer `0` sends two events, and producer `1` claims a sequence between them. -/
def sendAroundClaim : List (Action ℕ) :=
  [.clone 0 1, .call 0 (.send 7), .step 0, .step 0, .step 0, .step 0, .step 0,
    .call 1 (.send 8), .step 1, .step 1,
    .call 0 (.send 9), .step 0, .step 0, .step 0, .step 0, .step 0]

/-- The scan stops before the sequence that is not published. -/
theorem isHighest_of_reachable_gap : ∃ s : State ℕ, (system ℕ 64).Reachable s ∧
    s.shared.claimCursor = 2 ∧ s.shared.isPublished 2 = true ∧
    s.shared.highestPublished 65 s.consumer.nextSequence = some 0 ∧
    s.shared.IsHighest s.consumer.nextSequence 0 := by
  obtain ⟨sh, hsh⟩ : ∃ sh, createShared 64 (none : Option ℕ) = some sh := ⟨_, rfl⟩
  have hfinal : (((createShared 64 (none : Option ℕ)).bind fun sh =>
      (system ℕ 64).run (State.initial sh) sendAroundClaim).map fun s => (s.shared.claimCursor,
        s.shared.isPublished 2, s.shared.highestPublished 65 s.consumer.nextSequence)) =
      some (2, true, some 0) := by decide +kernel
  rw [hsh, Option.bind_some, Option.map_eq_some_iff] at hfinal
  obtain ⟨s, hrun, hfinal⟩ := hfinal
  simp only [Prod.mk.injEq] at hfinal
  obtain ⟨hclaim, hpub, hresult⟩ := hfinal
  have hs : (system ℕ 64).Reachable s := System.Reachable.run (.init ⟨none, sh, hsh, rfl⟩) hrun
  obtain ⟨h, hhighest, hfuel⟩ := isHighest_of_reachable (by decide) hs
  obtain rfl : h = 0 := Option.some.inj ((hfuel 65 (by decide)).symm.trans hresult)
  exact ⟨s, hs, hclaim, hpub, hresult, hhighest⟩

end Land.Mpsc
