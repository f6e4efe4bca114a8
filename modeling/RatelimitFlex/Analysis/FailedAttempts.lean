import RatelimitFlex.Analysis.ComposedRollback
import RatelimitFlex.Analysis.ComposedSteps
import RatelimitFlex.Analysis.DraftNeutrality
import RatelimitFlex.Analysis.KeyPlaces

/-!
# What `first-available` leaves on the layers it tried in vain

A layer that blocks has been charged, and mode `first-available` does not roll it back.
Only a token bucket that had nothing to refill is as it was: it takes no tokens when it
blocks.  In every other cell a later operation shows the attempt.  The bucket's key is put at
the end of the map all the same, which later evictions show, unless it was there
(`MemoryStore.KeepsPlace`).
-/

set_option autoImplicit false

namespace RatelimitFlex

open Library RecencyOrder

/-- A blocked increment leaves this cell as it is. -/
def Cell.KeepsRefused (now : ℤ) : Cell → Prop
  | .bucket o e => ∃ b ∈ e, now < b.lastRefill + o.interval
  | _ => False

section Refused

variable {κ : Type} {now : ℤ} {inc : RateLimitIncrementOptions}

/-- The cell an increment leaves. -/
def Cell.attempted (now : ℤ) (inc : RateLimitIncrementOptions) (x : Cell) : Cell :=
  ((x.clearWall now).increment now inc).1

/-- A bucket that blocks is refilled and no more. -/
theorem attempted_bucket {o : TokenBucketOptions} {e : Option BucketEntry}
    (hblocked : ((Cell.bucket o e).increment now inc).2.isBlocked = true) :
    (Cell.bucket o e).attempted now inc =
      .bucket o (some ((startBucket o now e).refill o now)) := by
  have hlt := lt_cost_of_isBlocked hblocked
  simp only [Cell.attempted, Cell.clearWall, Cell.increment, Bucket.request_of_lt o hlt]

/-- A refused attempt that is kept off changes nothing. -/
theorem attempted_kept {x : Cell}
    (hblocked : ((x.clearWall now).increment now inc).2.isBlocked = true)
    (h : x.KeepsRefused now) : x.attempted now inc = x := by
  cases x with
  | sliding o e => exact h.elim
  | fixed o e => exact h.elim
  | bucket o e =>
    obtain ⟨b, rfl, hopen⟩ := h
    rw [attempted_bucket hblocked, startBucket, Option.getD_some, Bucket.refill_of_lt hopen]

/-- A read tells a charged sliding window from the one before. -/
theorem attempted_sliding_toldApart (key : κ) (o : WindowOptions) (e : Option SlidingKeyState) :
    Cell.ToldApart key now ((Cell.sliding o e).attempted now inc) (.sliding o e) := by
  have hc := inc.one_le_sanitizedCost
  apply toldApart_of_snapshot le_rfl
  apply snapshot_sliding_ne
  have hheld : heldStamps o now (some ⟨liveStamps o now (stampsOf (unexpired now e)) ++
      List.replicate inc.sanitizedCost now, none⟩) =
      heldStamps o now e ++ List.replicate inc.sanitizedCost now := by
    rw [heldStamps_some, if_neg (by simp [SlidingKeyState.wallPassed]), liveStamps_append,
      liveStamps_liveStamps o le_rfl, liveStamps_replicate_now]
    rfl
  rw [hheld, List.length_append, List.length_replicate]
  omega

/-- A read tells a charged fixed window from the one before. -/
theorem attempted_fixed_toldApart (key : κ) (o : WindowOptions) (e : Option FixedEntry) :
    Cell.ToldApart key now ((Cell.fixed o e).attempted now inc) (.fixed o e) := by
  have hW := o.windowMs_pos
  have hc := inc.one_le_sanitizedCost
  apply toldApart_of_snapshot le_rfl
  simp only [Cell.attempted, Cell.clearWall, Cell.increment]
  cases e with
  | none =>
    have hopen : ¬ now + (o.windowMs : ℤ) ≤ now := by omega
    simp [fixedAfterIncrement, Cell.snapshot, hopen]
  | some s =>
    by_cases hend : s.resetTime ≤ now
    · have hopen : ¬ now + (o.windowMs : ℤ) ≤ now := by omega
      simp [fixedAfterIncrement, Cell.snapshot, hend, hopen]
    · simp only [fixedAfterIncrement, if_neg hend, Cell.snapshot, Option.bind_some]
      intro heq
      have := congrArg RateLimitResult.totalHits (Option.some.inj heq)
      simp only [RateLimitResult.totalHits_ofUsage] at this
      omega

/-- Any other is told apart. -/
theorem attempted_toldApart {x : Cell} (key : κ)
    (hblocked : ((x.clearWall now).increment now inc).2.isBlocked = true)
    (h : ¬ x.KeepsRefused now) : Cell.ToldApart key now (x.attempted now inc) x := by
  cases x with
  | sliding o e => exact attempted_sliding_toldApart key o e
  | fixed o e => exact attempted_fixed_toldApart key o e
  | bucket o e =>
    rw [attempted_bucket hblocked]
    cases e with
    | none =>
      apply toldApart_of_isPresent
      simp [Cell.isPresent]
    | some b =>
      have hpassed : b.lastRefill + o.interval ≤ now := by
        by_contra hopen
        exact h ⟨b, rfl, not_le.mp hopen⟩
      rw [startBucket, Option.getD_some]
      by_cases hfull : o.bucketSize ≤ (b.refill o now).tokens
      · obtain ⟨t, ht, hne⟩ := refilled_bucket_noticed hpassed hfull
        exact toldApart_of_snapshot ht hne
      · exact refilled_bucket_toldApart key hpassed (not_le.mp hfull)

end Refused

/-! ## A bucket that blocks, and its place -/

namespace MemoryStore

variable {κ : Type} [DecidableEq κ] {s : MemoryStore κ} {key k : κ} {now : ℤ}
  {inc : RateLimitIncrementOptions}

/-- No operation shows that the key was put at the end: it is the last one used, or the next new
key drives out all others anyway, or none. -/
def KeepsPlace (key : κ) (s : MemoryStore κ) : Prop :=
  s.maxKeys ≤ 1 ∨ later key s.keys = []

/-- A bucket that keeps a refused increment is there, and nothing else is to be known of it. -/
theorem mem_keys_of_keepsRefused (h : (s.cell key).KeepsRefused now) :
    key ∈ s.keys ∧ s.SlidingFits := by
  cases s with
  | sliding o t => exact h.elim
  | fixed o t => exact h.elim
  | bucket o t =>
    obtain ⟨b, hb, -⟩ := h
    refine ⟨?_, fun o' ho => by cases ho⟩
    rw [mem_keys]
    exact Option.isSome_iff_exists.mpr ⟨b, hb⟩

/-- A refused increment that the bucket keeps leaves all cells as they are. -/
theorem sameCells_refused (h : (s.cell key).KeepsRefused now)
    (hblocked : (((s.cell key).clearWall now).increment now inc).2.isBlocked = true) :
    SameCells s (s.increment now key inc).1 := by
  obtain ⟨hkey, hfits⟩ := mem_keys_of_keepsRefused h
  refine
    { blank := blank_increment now key inc
      maxKeys := maxKeys_increment now key inc s
      fits := hfits
      fits' := hfits.step ⟨now, .increment key inc⟩
      cells := fun k => ?_ }
  by_cases hk : k = key
  · subst hk
    rw [cell_increment_own]
    exact attempted_kept hblocked h
  rcases Nat.eq_zero_or_pos s.maxKeys with hzero | hm
  · exact cell_increment_unbounded hzero now key inc hk
  · rw [cell_increment_other hm hfits now inc hk]
    split
    · rfl
    · next hmem =>
      exact (cell_of_notMem fun hin => hmem ((mem_touch_of_mem hkey hk).mpr hin)).symm

/-- When its key was the last one used, the store is as it was. -/
theorem increment_refused_newest (h : (s.cell key).KeepsRefused now)
    (hblocked : (((s.cell key).clearWall now).increment now inc).2.isBlocked = true)
    (hlast : later key s.keys = []) : (s.increment now key inc).1 = s := by
  cases s with
  | sliding o t => exact h.elim
  | fixed o t => exact h.elim
  | bucket o t =>
    obtain ⟨b, hb, hopen⟩ := h
    have hlookup : t.state.lookup key = some b := hb
    have hrefill : b.refill o now = b := Bucket.refill_of_lt hopen
    have hcell : (MemoryStore.bucket o t).cell key = .bucket o (some b) :=
      congrArg (Cell.bucket o) hlookup
    rw [hcell] at hblocked
    have hlt : b.tokens < (inc.sanitizedCost : ℤ) := by
      have hlt := lt_cost_of_isBlocked hblocked
      rwa [startBucket, Option.getD_some, hrefill] at hlt
    have hrefused : (incrementTokenBucket o now key inc.sanitizedCost t).1 = t := by
      simp only [incrementTokenBucket, hlookup, refillBucketStateForNow_eq, hrefill,
        if_neg (not_le.mpr hlt)]
      exact KeyTable.put_dropForLru_self hlookup (.inr hlast)
    exact congrArg (MemoryStore.bucket o) hrefused

/-- **What the place says.**  Of a bucket that keeps a refused increment all later operations are
answered alike exactly when the key keeps its place. -/
theorem outputs_refused_iff [Infinite κ] (h : (s.cell key).KeepsRefused now)
    (hblocked : (((s.cell key).clearWall now).increment now inc).2.isBlocked = true) :
    (∀ is, OrderedFrom Timed.time now is → outputs MemoryStore.step is
      (s.increment now key inc).1 = outputs MemoryStore.step is s) ↔ s.KeepsPlace key := by
  obtain ⟨hkey, hfits⟩ := mem_keys_of_keepsRefused h
  constructor
  · intro hsame
    refine or_iff_not_imp_left.mpr fun hmany => ?_
    have hm : 1 ≤ s.maxKeys := by omega
    have hkeeps := keepsSame_of_outputs hm hfits (hfits.step ⟨now, .increment key inc⟩)
      (maxKeys_increment now key inc s) hsame
    have hkeys : (s.step ⟨now, .increment key inc⟩).1.keys = touch s.maxKeys key s.keys :=
      keys_increment hm hfits now key inc
    rw [hkeys] at hkeeps
    rcases hkeeps.of_touch s.nodup_keys hm hkey with hlast | hone | ⟨hfalse, -⟩
    · exact hlast
    · exact absurd hone.le hmany
    · exact hfalse.elim
  · rintro (hone | hlast) is -
    · exact (sameCells_refused h hblocked).outputs hone is
    · rw [increment_refused_newest h hblocked hlast]

end MemoryStore

namespace Composition

variable {κ : Type} [DecidableEq κ]

/-- The layers before number `i` that were asked and blocked leave no trace: all later
operations on them, evictions included, are answered as they would be without the increment. -/
def FailedUnnoticed (c : Composition κ) (key : κ) (options : RateLimitIncrementOptions) (i : ℕ)
    (st st' : ComposedState (StoreBank κ) κ) : Prop :=
  ∀ j spec, j < i → c.specs[j]? = some spec →
    blocks (c.answer key options st.inner j spec) = true →
    ∀ is, OrderedFrom Timed.time st.inner.now is →
      outputs MemoryStore.step is (st'.inner.stores j) =
        outputs MemoryStore.step is (st.inner.stores j)

/-- Until layer `i` wins every layer that answers is charged. -/
theorem stores_before_winner {c : Composition κ} {key : κ} {options : RateLimitIncrementOptions}
    {st st' : ComposedState (StoreBank κ) κ} {r : RateLimitResult}
    (hmode : c.mode = .firstAvailable) (hinc : c.store.increment key options st = (.ok r, st'))
    {i j : ℕ} (hwon : c.grants (.ok r) = some [i]) (hj : j < i) {spec : LayerSpec κ}
    (hspec : c.specs[j]? = some spec)
    (hblocked : blocks (c.answer key options st.inner j spec) = true) :
    st'.inner.stores j = ((st.inner.stores j).increment st.inner.now (c.targetKey key j spec)
      (spec.incrementOptions options)).1 := by
  have hstep := stepped_increment c key options st
  rw [hinc] at hstep
  have hgrants := hstep.grants
  rw [hwon] at hgrants
  simp only [grantedFrame, pushedFrame, winner, hmode, Option.map_map] at hgrants
  obtain ⟨w, hfirst, hw⟩ := Option.map_eq_some_iff.mp hgrants.symm
  obtain rfl : w = i := by simpa using hw
  -- no layer before the winner allows
  have hnone : ((c.answers key options st.inner).take j).any allows = false := by
    obtain ⟨hlen, _, hbefore⟩ := List.findIdx?_eq_some_iff_getElem.mp hfirst
    rw [List.any_eq_false]
    intro a ha
    obtain ⟨n, hn, rfl⟩ := List.mem_take_iff_getElem.mp ha
    exact hbefore n (by omega)
  have hnot : isRejected (c.answer key options st.inner j spec) = false := by
    cases hanswer : c.answer key options st.inner j spec with
    | error e => simp [hanswer, blocks] at hblocked
    | ok r => rfl
  have hstore := hstep.stores j spec hspec
  simp only [effect, getElem?_answers, hspec, Option.map_some, Option.all_some, hnot, hmode,
    hnone, Bool.false_eq_true, if_false, LayerEffect.apply] at hstore
  exact hstore

/-- **When `first-available` leaves no trace.**  In every state, an increment that layer `i` wins
leaves every layer that blocked before it such that all later operations, evictions included, are
answered as without the increment, if and only if each of these layers is a token bucket that is
there and was refilled less than an interval ago, and whose key keeps its place: the layer has a
`maxKeys` of at most one (zero is none), or no other of its keys was used after this one.
SOURCE: src/composition/ComposedStore.ts:602-662, src/stores/memory-store.ts:795-960 -/
theorem firstAvailable_failed_unnoticed_iff [Infinite κ] (c : Composition κ) (key : κ)
    (options : RateLimitIncrementOptions) (st st' : ComposedState (StoreBank κ) κ)
    (r : RateLimitResult) (hmode : c.mode = .firstAvailable)
    (hinc : c.store.increment key options st = (.ok r, st')) (i : ℕ)
    (hwon : c.grants (.ok r) = some [i]) :
    c.FailedUnnoticed key options i st st' ↔
      ∀ j spec, j < i → c.specs[j]? = some spec →
        blocks (c.answer key options st.inner j spec) = true →
        ((st.inner.stores j).cell (c.targetKey key j spec)).KeepsRefused st.inner.now ∧
          (st.inner.stores j).KeepsPlace (c.targetKey key j spec) := by
  apply forall_congr'
  intro j
  apply forall_congr'
  intro spec
  apply forall_congr'
  intro hj
  apply forall_congr'
  intro hspec
  apply forall_congr'
  intro hblocked
  set now := st.inner.now
  set m := st.inner.stores j
  set k₀ := c.targetKey key j spec
  set inc := spec.incrementOptions options
  have hstore : st'.inner.stores j = (m.increment now k₀ inc).1 :=
    stores_before_winner hmode hinc hwon hj hspec hblocked
  have hrefused : (((m.cell k₀).clearWall now).increment now inc).2.isBlocked = true := by
    rw [← MemoryStore.increment_snd_cleared]
    cases hfail : st.inner.failing j with
    | some e => simp [answer, hfail, blocks] at hblocked
    | none => simpa only [answer, hfail, blocks] using hblocked
  rw [hstore]
  constructor
  · intro hsame
    have hkept : (m.cell k₀).KeepsRefused now := by
      by_contra hnot
      obtain ⟨is, hord, hkey, hne⟩ := attempted_toldApart k₀ hrefused hnot
      have hout := hsame is hord
      rw [(outputs_observesOn hkey).2, (outputs_observesOn hkey).2,
        MemoryStore.cell_increment_own] at hout
      exact hne hout
    exact ⟨hkept, (MemoryStore.outputs_refused_iff hkept hrefused).mp hsame⟩
  · rintro ⟨hkept, hplace⟩
    exact (MemoryStore.outputs_refused_iff hkept hrefused).mpr hplace

end Composition

/-! ## Two layers -/

/-- The two labels differ. -/
theorem first_second_nodup : ["first", "second"].Nodup := by decide

/-- Two layers, the first that allows wins. -/
def firstOfTwo : Composition ℕ where
  mode := .firstAvailable
  specs := [{ label := "first" }, { label := "second" }]
  specs_ne := List.cons_ne_nil _ _
  labels_nodup := first_second_nodup
  overflow_two := nofun

/-- A first layer after one operation at `0`, and a fixed window of ten a second, read at
`500`. -/
def triedState (first : MemoryStore ℕ) (op : StoreOp ℕ) : ComposedState (StoreBank ℕ) ℕ where
  inner :=
    { stores := fun j =>
        if j = 0 then (MemoryStore.step ⟨0, op⟩ first).1
        else (MemoryStore.step ⟨0, .increment 7 {}⟩ (.fixed tenASecond (KeyTable.new 0))).1
      now := 500 }

/-- Its layers are stores that operations have made. -/
theorem reachable_triedState {first : MemoryStore ℕ} (op : StoreOp ℕ) (hnew : first.IsNew) (j : ℕ) :
    ReachableByOperations 500 ((triedState first op).inner.stores j) := by
  by_cases hj : j = 0
  · simp only [triedState, hj, if_true]
    exact ⟨first, 0, [⟨0, op⟩], hnew, ⟨le_rfl, trivial⟩, show (0 : ℤ) ≤ 500 by decide, rfl⟩
  · simp only [triedState, hj, if_false]
    exact ⟨.fixed tenASecond (KeyTable.new 0), 0, [⟨0, .increment 7 {}⟩], ⟨0, rfl⟩,
      ⟨le_rfl, trivial⟩, show (0 : ℤ) ≤ 500 by decide, rfl⟩

/-- A bucket without tokens is as it was when it has blocked, and so are its keys. -/
theorem firstAvailable_failed_unnoticed_iff_bucket :
    firstOfTwo.FailedUnnoticed 7 {} 1
      (triedState (.bucket fiveAtMost (KeyTable.new 2)) (.increment 7 { cost := some 5 }))
      (firstOfTwo.store.increment 7 {} (triedState (.bucket fiveAtMost (KeyTable.new 2))
        (.increment 7 { cost := some 5 }))).2 := by
  refine (Composition.firstAvailable_failed_unnoticed_iff firstOfTwo 7 {} _ _
    { totalHits := 2, remaining := 8, resetTime := 1000, isBlocked := false
      mode := some "first-available", decidingLayer := some "second"
      layers := some [("first", ⟨5, 0, 1000, true, true, none⟩),
        ("second", ⟨2, 8, 1000, false, true, none⟩)] }
    rfl (Prod.ext (by decide +kernel) rfl) 1 (by decide +kernel)).mpr ?_
  intro j spec hj hspec _
  obtain rfl : j = 0 := by omega
  obtain rfl := Option.some.inj hspec
  exact ⟨⟨⟨0, 0⟩, rfl, by decide⟩, .inr (by decide +kernel)⟩

/-- A window that is used up keeps the hit of an attempt that the second layer won. -/
theorem firstAvailable_failed_noticed :
    ¬ ∀ (c : Composition ℕ) (key : ℕ) (st st' : ComposedState (StoreBank ℕ) ℕ)
      (r : RateLimitResult) (i : ℕ), c.mode = .firstAvailable →
      c.store.increment key {} st = (.ok r, st') → c.grants (.ok r) = some [i] →
      (∀ j, ReachableByOperations st.inner.now (st.inner.stores j)) →
      c.FailedUnnoticed key {} i st st' := by
  intro h
  have hunnoticed := h firstOfTwo 7
    (triedState (.fixed oneASecond (KeyTable.new 0)) (.increment 7 {})) _
    { totalHits := 2, remaining := 8, resetTime := 1000, isBlocked := false
      mode := some "first-available", decidingLayer := some "second"
      layers := some [("first", ⟨2, 0, 1000, true, true, none⟩),
        ("second", ⟨2, 8, 1000, false, true, none⟩)] }
    1 rfl (Prod.ext (by decide +kernel) rfl) (by decide +kernel)
    (reachable_triedState (.increment 7 {}) ⟨0, rfl⟩)
    0 { label := "first" } (by decide) rfl (by decide +kernel) [⟨500, .get 7⟩]
    ⟨by decide +kernel, trivial⟩
  revert hunnoticed
  decide +kernel

end RatelimitFlex
