import Land.Lib.Transition
import Land.Session.Cache

/-!
# The session cache as a bounded map

The cache against the map it stands for, over every sequence of calls: `latest` is the token of the last
`insert` for a peer with no `invalidate` after it.  What `get` returns is that token as long as no
`insert` finds an empty slot before the slot of its own address; one that does leaves the address in two
slots.
-/

namespace Land.Session

open Land.Quic (Bytes)

/-- A call with the time it reads. -/
inductive Call where
  | get (a : Peer) (nowNs : ℕ)
  | insert (a : Peer) (tokenData : Bytes) (nowNs : ℕ)
  | invalidate (a : Peer)

/-- The token that the calls, the last one first, leave for a peer. -/
def latest : List Call → Peer → Option Bytes
  | [], _ => none
  | .get _ _ :: calls, a => latest calls a
  | .insert b tokenData _ :: calls, a =>
      if b = a ∧ tokenData.length ≤ maxTokenSize then some tokenData else latest calls a
  | .invalidate b :: calls, a => if b = a then none else latest calls a

namespace SessionTokenCache

/-- The cache after a call. -/
def after (c : SessionTokenCache) : Call → SessionTokenCache
  | .get _ _ => c
  | .insert a tokenData nowNs => (c.insert a.addr tokenData nowNs).1
  | .invalidate a => c.invalidate a.addr

/-- No peer has two slots of its shard. -/
def Unique (c : SessionTokenCache) : Prop :=
  ∀ (a : Peer) (i j : Fin slotsPerShard), (c.slots (a.shard, i)).addr = a.packed →
    (c.slots (a.shard, j)).addr = a.packed → i = j

/-- An empty slot stands before a slot of the peer. -/
def Gap (c : SessionTokenCache) (a : Peer) : Prop :=
  ∃ i j : Fin slotsPerShard, i < j ∧ (c.slots (a.shard, i)).addr = 0 ∧
    (c.slots (a.shard, j)).addr = a.packed

instance (c : SessionTokenCache) (a : Peer) : Decidable (c.Gap a) :=
  inferInstanceAs (Decidable (∃ _ _ : Fin slotsPerShard, _))

/-- Every slot with the address of a peer is in the peer's shard and has the token of the map. -/
def Below (c : SessionTokenCache) (m : Peer → Option Bytes) : Prop :=
  ∀ (place : Place) (a : Peer), (c.slots place).addr = a.packed →
    place.1 = a.shard ∧ m a = some (c.slots place).token.asSlice

variable {c : SessionTokenCache} {a : Peer} {m : Peer → Option Bytes}

theorem Below.get (h : c.Below m) {nowNs : ℕ} {token : SessionToken}
    (hget : c.get a.addr nowNs = some token) : m a = some token.asSlice := by
  obtain ⟨i, haddr, rfl⟩ := c.get_eq_some a hget
  exact (h _ a haddr).2

/-! ## One call -/

/-- Without a gap, no other slot has the address when an `insert` puts it into a slot. -/
theorem eq_of_free_first (hu : c.Unique) (hg : ¬ c.Gap a) {i j : Fin slotsPerShard}
    (hfirst : ∀ j, c.Free a j → i ≤ j ∧ c.Free a i) (hj : (c.slots (a.shard, j)).addr = a.packed) :
    j = i := by
  obtain ⟨hle, hi | hi⟩ := hfirst j (.inl hj)
  · exact hu a j i hj hi
  · by_contra hne
    exact hg ⟨i, j, lt_of_le_of_ne hle (Ne.symm hne), hi, hj⟩

theorem slots_insert_eq {tokenData : Bytes} {nowNs : ℕ} (hlen : ¬ tokenData.length ≤ maxTokenSize) :
    (c.insert a.addr tokenData nowNs).1 = c := by
  simp only [insert, if_pos (not_le.mp hlen)]

theorem Below.insert (h : c.Below m) (hu : c.Unique) (hg : ¬ c.Gap a) {tokenData : Bytes}
    (hlen : tokenData.length ≤ maxTokenSize) (nowNs : ℕ) :
    (c.insert a.addr tokenData nowNs).1.Below (Function.update m a (some tokenData)) := by
  obtain ⟨i, hslots, hfirst⟩ := c.insert_spec a hlen nowNs
  intro place b haddr
  rw [hslots] at haddr ⊢
  by_cases hp : place = (a.shard, i)
  · subst hp
    rw [put_slots_self] at haddr ⊢
    obtain rfl : b = a := Peer.packed_injective haddr.symm
    exact ⟨rfl, by simp⟩
  · rw [c.put_slots_of_ne hp] at haddr ⊢
    obtain ⟨hshard, hm⟩ := h place b haddr
    refine ⟨hshard, ?_⟩
    rw [Function.update_of_ne, hm]
    rintro rfl
    have hplace : place = (b.shard, place.2) := Prod.ext hshard rfl
    rw [hplace] at haddr
    exact hp (hplace.trans (Prod.ext rfl (eq_of_free_first hu hg hfirst haddr)))

theorem Unique.insert (hu : c.Unique) (hg : ¬ c.Gap a) {tokenData : Bytes}
    (hlen : tokenData.length ≤ maxTokenSize) (nowNs : ℕ) :
    (c.insert a.addr tokenData nowNs).1.Unique := by
  obtain ⟨i, hslots, hfirst⟩ := c.insert_spec a hlen nowNs
  -- a slot that has an address after the call has it before, or is the one of the call
  have hold (b : Peer) (j : Fin slotsPerShard)
      (hj : ((c.put (a.shard, i) a.packed (.ofData tokenData nowNs)).slots (b.shard, j)).addr =
        b.packed) : (b = a ∧ j = i) ∨ (c.slots (b.shard, j)).addr = b.packed := by
    by_cases hp : (b.shard, j) = (a.shard, i)
    · rw [hp, put_slots_self] at hj
      exact .inl ⟨Peer.packed_injective hj.symm, (Prod.ext_iff.mp hp).2⟩
    · rw [c.put_slots_of_ne hp] at hj
      exact .inr hj
  intro b j k hj hk
  rw [hslots] at hj hk
  rcases hold b j hj with ⟨rfl, rfl⟩ | hj' <;> rcases hold b k hk with ⟨hb, hk'⟩ | hk'
  · exact hk'.symm
  · exact (eq_of_free_first hu hg hfirst hk').symm
  · subst hb hk'
    exact eq_of_free_first hu hg hfirst hj'
  · exact hu b j k hj' hk'

/-- An `insert` at a gap gives its address a second slot. -/
theorem Gap.not_unique_insert (hg : c.Gap a) {tokenData : Bytes}
    (hlen : tokenData.length ≤ maxTokenSize) (nowNs : ℕ) :
    ¬ (c.insert a.addr tokenData nowNs).1.Unique := by
  obtain ⟨k, j, hkj, hk, hj⟩ := hg
  obtain ⟨i, hslots, hfirst⟩ := c.insert_spec a hlen nowNs
  have hij : i < j := lt_of_le_of_lt (hfirst k (.inr hk)).1 hkj
  have hp : (a.shard, j) ≠ (a.shard, i) := fun h => hij.ne' (Prod.ext_iff.mp h).2
  intro hu
  refine hij.ne (hu a i j ?_ ?_) <;> rw [hslots]
  · rw [put_slots_self]
  · rw [c.put_slots_of_ne hp, hj]

theorem Below.invalidate (h : c.Below m) (hu : c.Unique) :
    (c.invalidate a.addr).Below (Function.update m a none) := by
  intro place b haddr
  rcases c.invalidate_spec a place with ⟨heq, hother⟩ | hzero
  · rw [heq] at haddr ⊢
    obtain ⟨hshard, hm⟩ := h place b haddr
    refine ⟨hshard, ?_⟩
    rw [Function.update_of_ne, hm]
    rintro rfl
    obtain ⟨i, hne, hi⟩ := hother hshard haddr
    rw [show place = (b.shard, place.2) from Prod.ext hshard rfl] at haddr
    exact hne (hu b i place.2 hi haddr)
  · exact absurd (haddr.symm.trans hzero) b.packed_ne_zero

theorem Unique.invalidate (hu : c.Unique) : (c.invalidate a.addr).Unique := by
  have hold (b : Peer) (j : Fin slotsPerShard)
      (hj : ((c.invalidate a.addr).slots (b.shard, j)).addr = b.packed) :
      (c.slots (b.shard, j)).addr = b.packed := by
    rcases c.invalidate_spec a (b.shard, j) with ⟨heq, -⟩ | hzero
    · rwa [heq] at hj
    · exact absurd (hj.symm.trans hzero) b.packed_ne_zero
  exact fun b j k hj hk => hu b j k (hold b j hj) (hold b k hk)

end SessionTokenCache

/-! ## Every sequence of calls -/

/-- The cache and the calls made so far, the last one first. -/
structure History where
  cache : SessionTokenCache
  calls : List Call

namespace History

def initial : History := ⟨.new, []⟩

/-- Any call may be the next. -/
def system : System History Call where
  init s := s = initial
  step s call := some ⟨s.cache.after call, call :: s.calls⟩

/-- An `insert` is not made at a gap. -/
def NoGap (s : History) : Call → Prop
  | .insert a tokenData _ => tokenData.length ≤ maxTokenSize → ¬ s.cache.Gap a
  | _ => True

/-- The cache is below the map of the calls, and no peer has two slots. -/
def Ok (s : History) : Prop := s.cache.Unique ∧ s.cache.Below (latest s.calls)

theorem ok_initial : initial.Ok := by
  refine ⟨fun a i j h => ?_, fun place a h => ?_⟩ <;> exact absurd h.symm a.packed_ne_zero

theorem latest_insert (calls : List Call) (a : Peer) {tokenData : Bytes}
    (hlen : tokenData.length ≤ maxTokenSize) (nowNs : ℕ) :
    latest (.insert a tokenData nowNs :: calls) =
      Function.update (latest calls) a (some tokenData) := by
  funext b
  by_cases hb : a = b
  · subst hb
    simp [latest, hlen]
  · simp [latest, hb, Function.update_of_ne (Ne.symm hb)]

theorem latest_invalidate (calls : List Call) (a : Peer) :
    latest (.invalidate a :: calls) = Function.update (latest calls) a none := by
  funext b
  by_cases hb : a = b
  · subst hb
    simp [latest]
  · simp [latest, hb, Function.update_of_ne (Ne.symm hb)]

theorem Ok.after {s s' : History} {call : Call} (h : s.Ok) (hc : s.NoGap call)
    (hs : system.step s call = some s') : s'.Ok := by
  obtain ⟨hu, hb⟩ := h
  obtain rfl : _ = s' := Option.some.inj hs
  cases call with
  | get a nowNs => exact ⟨hu, hb⟩
  | insert a tokenData nowNs =>
    by_cases hlen : tokenData.length ≤ maxTokenSize
    · refine ⟨hu.insert (hc hlen) hlen nowNs, ?_⟩
      rw [latest_insert _ _ hlen]
      exact hb.insert hu (hc hlen) hlen nowNs
    · have hlatest : latest (.insert a tokenData nowNs :: s.calls) = latest s.calls := by
        funext b
        simp [latest, hlen]
      simp only [Ok, SessionTokenCache.after, SessionTokenCache.slots_insert_eq hlen, hlatest]
      exact ⟨hu, hb⟩
  | invalidate a =>
    refine ⟨hu.invalidate, ?_⟩
    rw [latest_invalidate]
    exact hb.invalidate hu

theorem ok_of_noGap {s : History} (h : system.ReachableVia NoGap s) : s.Ok :=
  h.invariant (I := Ok) (by rintro _ rfl; exact ok_initial) fun _ _ _ hc hi hs => hi.after hc hs

/-- A call that is not an `insert` at a gap is what keeps the slots of a shard apart. -/
theorem unique_iff_noGap {s s' : History} {call : Call} (hu : s.cache.Unique)
    (hs : system.step s call = some s') : s'.cache.Unique ↔ s.NoGap call := by
  obtain rfl : _ = s' := Option.some.inj hs
  cases call with
  | get a nowNs => exact iff_of_true hu trivial
  | insert a tokenData nowNs =>
    refine ⟨fun h hlen hg => hg.not_unique_insert hlen nowNs h, fun hc => ?_⟩
    by_cases hlen : tokenData.length ≤ maxTokenSize
    · exact hu.insert (hc hlen) hlen nowNs
    · simpa only [SessionTokenCache.after, SessionTokenCache.slots_insert_eq hlen] using hu
  | invalidate a => exact iff_of_true hu.invalidate trivial

/-- In every sequence of calls without an `insert` at a gap, no peer has two slots and `get` returns
nothing but the token of the last `insert` that no `invalidate` follows; and a next call keeps the slots
apart exactly if it is not an `insert` at a gap. -/
theorem latest_of_get_of_noGap {s : History} (h : system.ReachableVia NoGap s) :
    (s.cache.Unique ∧ ∀ (a : Peer) (nowNs : ℕ) (token : SessionToken),
      s.cache.get a.addr nowNs = some token → latest s.calls a = some token.asSlice) ∧
    ∀ (call : Call) (s' : History), system.step s call = some s' →
      (s'.cache.Unique ↔ s.NoGap call) := by
  obtain ⟨hu, hb⟩ := ok_of_noGap h
  exact ⟨⟨hu, fun _ _ _ hget => hb.get hget⟩, fun _ _ hs => unique_iff_noGap hu hs⟩

/-- Both peers get a token, the second one a newer one. -/
theorem latest_of_get_of_noGap_two : ∃ s, system.run initial
      [.insert .first [1] 10, .insert .second [2] 20, .insert .second [3] 30] = some s ∧
    s.cache.get Peer.second.addr 40 = some (.ofData [3] 30) ∧
    latest s.calls .second = some [3] := by
  have hr : system.ReachableVia NoGap _ :=
    .step (.insert .second [3] 30)
      (.step (.insert .second [2] 20)
        (.step (.insert .first [1] 10) (.init rfl) (fun _ => by decide) rfl)
        (fun _ => by decide) rfl)
      (fun _ => by decide) rfl
  exact ⟨_, rfl, rfl, (latest_of_get_of_noGap hr).1.2 .second 40 (.ofData [3] 30) rfl⟩

/-- The first peer is invalidated and the second inserted once more: it then has two slots, and after
its own invalidation `get` returns the older token. -/
theorem not_unique_after_invalidate : ∃ s, system.run initial
      [.insert .first [1] 10, .insert .second [2] 20, .invalidate .first,
        .insert .second [3] 30] = some s ∧ ¬ s.cache.Unique ∧
    ∃ s', system.step s (.invalidate .second) = some s' ∧
      s'.cache.get Peer.second.addr 40 = some (.ofData [2] 20) ∧ latest s'.calls .second = none := by
  refine ⟨_, rfl, fun hu => ?_, _, rfl, rfl, rfl⟩
  exact absurd (hu .second 0 1 (by decide) (by decide)) (by decide)

end History

end Land.Session
