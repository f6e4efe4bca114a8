import RatelimitFlex.Analysis.GroupedRollback
import RatelimitFlex.Program.ComposedBank

/-!
# When a composed increment that blocks leaves no trace in the layers that allowed it

In mode `all` a layer that let the request pass is undone by removing its newest units.
`Cell.RestoresProbe` says when the cell of the key is then the very cell it was; in any
other cell a few reads, decrements and deletes of the key bring the difference to light.
-/

set_option autoImplicit false

namespace RatelimitFlex

open Library

/-! ## The cell of the key -/

/-- A probe that is undone from the end leaves the cell as it was.  Sliding window: the key
is absent, or has stamps, all of them live, and no wall expiry.  Fixed window: it is
absent, or the running slice has hits.  Token bucket: the key has one, and no interval is
credited to it. -/
def Cell.RestoresProbe (now : ℤ) : Cell → Prop
  | .sliding o e => ∀ s ∈ e, s.stamps ≠ [] ∧ s.wallExpiresAt = none ∧
      liveStamps o now s.stamps = s.stamps
  | .fixed _ e => ∀ s ∈ e, now < s.resetTime ∧ 0 < s.count
  | .bucket o e => ∃ b ∈ e, now < b.lastRefill + o.interval

section Probed

variable {κ : Type} {now : ℤ} {inc : RateLimitIncrementOptions} {dec : RateLimitDecrementOptions}

/-- A probe that is restored leaves the cell as it was. -/
theorem probed_restored {x : Cell} (hcost : dec.sanitizedCost = inc.sanitizedCost)
    (hnewest : dec.removeNewest = true) (hlegal : x.Legal now)
    (hallowed : ((x.clearWall now).increment now inc).2.isBlocked = false)
    (h : x.RestoresProbe now) : x.probed now inc dec = x := by
  cases x with
  | sliding o e =>
    rw [probed_sliding_newest hcost hnewest]
    cases e with
    | none => rfl
    | some s =>
      obtain ⟨stamps, wall⟩ := s
      obtain ⟨hne, rfl, hlive⟩ := h _ rfl
      have hheld : heldStamps o now (some ⟨stamps, none⟩) = stamps := by
        rw [heldStamps_some]
        simpa [SlidingKeyState.wallPassed] using hlive
      rw [hheld, if_neg hne]
  | fixed o e =>
    rw [probed_fixed hcost hlegal]
    cases e with
    | none => rfl
    | some s =>
      obtain ⟨hrun, hpos⟩ := h s rfl
      simp [Option.filter, hrun, hpos]
  | bucket o e =>
    obtain ⟨b, ⟨⟩, hopen⟩ := h
    rw [probed_bucket_allowed hcost hlegal hallowed, startBucket, Option.getD_some,
      Bucket.refill_of_lt hopen]

/-! ### Bringing the difference to light -/

/-- Some run on `key` that puts no key into the map answers differently in the two cells. -/
def Cell.ToldApart (key : κ) (t : ℤ) (x y : Cell) : Prop :=
  ∃ is : List (Timed (StoreOp κ)), OrderedFrom Timed.time t is ∧
    (∀ i ∈ is, i.op.ObservesOn key) ∧ outputs Cell.step is x ≠ outputs Cell.step is y

/-- Cells that show different things are told apart. -/
theorem toldApart_of_snapshot {key : κ} {t : ℤ} {x y : Cell} (ht : now ≤ t)
    (h : (x.clearWall t).snapshot t ≠ (y.clearWall t).snapshot t) :
    Cell.ToldApart key now x y := by
  refine ⟨[⟨t, .get key⟩], ⟨ht, trivial⟩, ?_, ?_⟩
  · intro i hi
    rw [List.mem_singleton.mp hi]
    rfl
  · simpa [Cell.step] using h

/-- So are a cell with an entry and one without. -/
theorem toldApart_of_isPresent {key : κ} {x y : Cell} (h : x.isPresent ≠ y.isPresent) :
    Cell.ToldApart key now x y := by
  refine ⟨[⟨now, .delete key⟩], ⟨le_rfl, trivial⟩, ?_, ?_⟩
  · intro i hi
    rw [List.mem_singleton.mp hi]
    rfl
  · simpa [Cell.step] using h

/-- A probe of a sliding window that is not restored is noticed. -/
theorem probed_sliding_toldApart (key : κ) (hcost : dec.sanitizedCost = inc.sanitizedCost)
    (hnewest : dec.removeNewest = true) {o : WindowOptions} {e : Option SlidingKeyState}
    (hlegal : (Cell.sliding o e).Legal now) (h : ¬ (Cell.sliding o e).RestoresProbe now) :
    Cell.ToldApart key now ((Cell.sliding o e).probed now inc dec) (.sliding o e) := by
  simp only [Cell.RestoresProbe, not_forall] at h
  obtain ⟨s, ⟨⟩, h⟩ := h
  rw [probed_sliding_newest hcost hnewest]
  by_cases hnil : heldStamps o now (some s) = []
  · -- nothing counted: the entry is gone
    rw [if_pos hnil]
    exact toldApart_of_isPresent (by simp [Cell.isPresent])
  rw [if_neg hnil]
  have hpassed : ¬ s.wallPassed now = true := by
    intro hw
    rw [heldStamps_some, if_pos hw] at hnil
    exact hnil rfl
  have hheld : heldStamps o now (some s) = liveStamps o now s.stamps := by
    rw [heldStamps_some, if_neg hpassed]
  obtain ⟨stamps, wall⟩ := s
  cases wall with
  | some w =>
    -- the wall expiry is gone: the old entry goes with it, the new one does not
    have hw : now < w := by
      simpa [SlidingKeyState.wallPassed] using hpassed
    refine ⟨[⟨w, .get key⟩, ⟨w, .delete key⟩], ⟨hw.le, le_rfl, trivial⟩, ?_, ?_⟩
    · intro i hi
      rcases List.mem_cons.mp hi with rfl | hi
      · rfl
      · rw [List.mem_singleton.mp hi]
        rfl
    · intro heq
      have := (List.cons.inj (List.cons.inj heq).2).1
      simp [Cell.step, Cell.clearWall, Cell.isPresent, unexpired, Option.filter] at this
  | none =>
    -- a dead stamp is gone: a decrement of one takes it from the old entry only
    replace hheld : heldStamps o now (some ⟨stamps, none⟩) = liveStamps o now stamps := hheld
    have hdead : liveStamps o now stamps ≠ stamps := by
      intro hlive
      apply h
      refine ⟨?_, rfl, hlive⟩
      intro hs
      replace hs : stamps = [] := hs
      rw [hheld, hs] at hnil
      exact hnil rfl
    obtain ⟨d, hd⟩ := @liveStamps_suffix o now _ (hlegal _ rfl).1
    cases d with
    | nil => exact absurd hd hdead
    | cons x d =>
      replace hd : x :: d ++ liveStamps o now stamps = stamps := hd
      have hx : liveStamps o now (x :: d) = [] := by
        apply liveStamps_prefix_nil (l := liveStamps o now stamps)
        rw [hd]
        exact liveStamps_liveStamps o le_rfl _
      rw [hheld] at hnil ⊢
      refine ⟨[⟨now, .decrement key {}⟩, ⟨now, .get key⟩], ⟨le_rfl, le_rfl, trivial⟩, ?_, ?_⟩
      · intro i hi
        rcases List.mem_cons.mp hi with rfl | hi
        · rfl
        · rw [List.mem_singleton.mp hi]
          rfl
      · intro heq
        have hsnap := StoreReply.snapshot.inj (List.cons.inj (List.cons.inj heq).2).1
        have hone : ({} : RateLimitDecrementOptions).sanitizedCost = 1 := rfl
        have hnone : ∀ l : List ℤ,
            (⟨l, none⟩ : SlidingKeyState).wallPassed now = false := fun _ => rfl
        revert hsnap
        apply Ne.symm
        apply snapshot_sliding_ne
        rw [heldStamps_slidingAfterDecrement List.drop_nil,
          heldStamps_slidingAfterDecrement List.drop_nil, hnone, hnone, hone]
        have hold : liveStamps o now (stamps.drop 1) = liveStamps o now stamps := by
          have hxd := List.filter_eq_nil_iff.mp hx
          conv_lhs => rw [← hd]
          rw [List.cons_append, List.drop_succ_cons, List.drop_zero, liveStamps_append,
            liveStamps_eq_nil_of_sublist (List.sublist_cons_self x d) hx, List.nil_append]
          exact liveStamps_liveStamps o le_rfl _
        simp only [Bool.false_eq_true, if_false]
        rw [hold]
        have hshort : (liveStamps o now ((liveStamps o now stamps).drop 1)).length ≤
            ((liveStamps o now stamps).drop 1).length := List.length_filter_le _ _
        have hpos := List.length_pos_of_ne_nil hnil
        rw [List.length_drop] at hshort
        omega

/-- Decrements of one fill a bucket up. -/
theorem final_decrements (o : TokenBucketOptions) (key : κ) (n : ℕ) (b : BucketEntry)
    (hn : b.tokens + n ≤ o.bucketSize) :
    final Cell.step (List.replicate n (⟨now, .decrement key {}⟩ : Timed (StoreOp κ)))
        (.bucket o (some b)) = .bucket o (some ⟨b.tokens + n, b.lastRefill⟩) := by
  induction n generalizing b with
  | zero => simp
  | succ n ih =>
    have hone : (({} : RateLimitDecrementOptions).sanitizedCost : ℤ) = 1 := rfl
    push_cast at hn
    rw [List.replicate_succ, final_cons]
    simp only [Cell.step, Cell.decrement, Option.map_some, hone]
    rw [min_eq_right (by omega), ih ⟨b.tokens + 1, b.lastRefill⟩ (by simp only; omega)]
    push_cast
    congr 3
    omega

/-- A bucket that a probe has refilled in part can be filled up by fewer decrements. -/
theorem refilled_bucket_toldApart (key : κ) {o : TokenBucketOptions} {b : BucketEntry}
    (hpassed : b.lastRefill + o.interval ≤ now)
    (hpart : (b.refill o now).tokens < o.bucketSize) :
    Cell.ToldApart key now (.bucket o (some (b.refill o now))) (.bucket o (some b)) := by
  have hI := o.interval_pos
  have hR := o.tokensPerInterval_pos
  have hopen := Bucket.lt_lastRefill_refill o now b
  have hmore : b.tokens < (b.refill o now).tokens := by
    have htok := Bucket.refill_of_le (p := o) hpassed
    have hone : 1 ≤ (now - b.lastRefill) / o.interval :=
      Int.le_ediv_of_mul_le (by omega) (by linarith)
    have hgain := mul_le_mul_of_nonneg_right hone (show 0 ≤ o.tokensPerInterval by omega)
    rw [htok] at hpart ⊢
    simp only at hpart ⊢
    omega
  obtain ⟨n, hn⟩ : ∃ n : ℕ, (b.refill o now).tokens + n = o.bucketSize :=
    ⟨(o.bucketSize - (b.refill o now).tokens).toNat, by omega⟩
  set t := (b.refill o now).lastRefill + 10 * o.interval + 1
  refine ⟨List.replicate n ⟨now, .decrement key {}⟩ ++ [⟨t, .get key⟩], ?_, ?_, ?_⟩
  · have hend : ∀ n : ℕ, OrderedFrom Timed.time now
        (List.replicate n (⟨now, .decrement key {}⟩ : Timed (StoreOp κ))) := by
      intro n
      induction n with
      | zero => trivial
      | succ n ih => exact ⟨le_rfl, ih⟩
    refine orderedFrom_append.mpr ⟨hend n, ?_, trivial⟩
    apply lastClock_le (by simp only [t]; omega)
    intro i hi
    rw [List.eq_of_mem_replicate hi]
    simp only [t]
    omega
  · intro i hi
    rcases List.mem_append.mp hi with hi | hi
    · rw [List.eq_of_mem_replicate hi]
      rfl
    · rw [List.mem_singleton.mp hi]
      rfl
  · rw [outputs_append, outputs_append, final_decrements o key n _ hn.le,
      final_decrements o key n b (by omega)]
    intro heq
    have hget := StoreReply.snapshot.inj (List.cons.inj (List.append_inj' heq rfl).2).1
    have hnew := (@snapshot_bucket_eq_none t o
      ⟨(b.refill o now).tokens + n, (b.refill o now).lastRefill⟩).mpr ⟨hn.ge, by simp only [t]; omega⟩
    have hold := (snapshot_bucket_eq_none o _).mp (hget.symm.trans hnew)
    simp only at hold
    omega

/-- In any other cell the undone probe shows. -/
theorem probed_toldApart {x : Cell} (key : κ) (hcost : dec.sanitizedCost = inc.sanitizedCost)
    (hnewest : dec.removeNewest = true) (hlegal : x.Legal now)
    (hallowed : ((x.clearWall now).increment now inc).2.isBlocked = false)
    (h : ¬ x.RestoresProbe now) : Cell.ToldApart key now (x.probed now inc dec) x := by
  cases x with
  | sliding o e => exact probed_sliding_toldApart key hcost hnewest hlegal h
  | fixed o e =>
    simp only [Cell.RestoresProbe, not_forall] at h
    obtain ⟨s, ⟨⟩, h⟩ := h
    rw [probed_fixed hcost hlegal]
    apply toldApart_of_isPresent
    simp [Option.filter, h, Cell.isPresent]
  | bucket o e =>
    have hbucket := probed_bucket_allowed hcost hlegal hallowed
    cases e with
    | none =>
      apply toldApart_of_isPresent
      rw [hbucket]
      simp [Cell.isPresent]
    | some b =>
      have hpassed : b.lastRefill + o.interval ≤ now := by
        by_contra hopen
        exact h ⟨b, rfl, not_le.mp hopen⟩
      rw [hbucket, startBucket, Option.getD_some]
      by_cases hfull : o.bucketSize ≤ (b.refill o now).tokens
      · obtain ⟨t, ht, hne⟩ := refilled_bucket_noticed hpassed hfull
        exact toldApart_of_snapshot ht hne
      · exact refilled_bucket_toldApart key hpassed (not_le.mp hfull)

end Probed

/-! ## The composed increment -/

section Composed

variable {κ : Type} [DecidableEq κ]

/-- Mode `all` with rollback: after a blocked increment every store whose layer allowed it
is charged and rolled back. -/
theorem stores_incrementAll_blocked {c : Composition κ} {key : κ}
    {options : RateLimitIncrementOptions} {st st' : ComposedState (StoreBank κ) κ}
    {r : RateLimitResult} (hmode : c.mode = .all) (hroll : c.rollbackOnBlock = true)
    (hinc : c.store.increment key options st = (.ok r, st')) (hblocked : r.isBlocked = true)
    {j : ℕ} {spec : LayerSpec κ} (hspec : c.specs[j]? = some spec) :
    st'.inner.stores j = layerRolledBack key options st.inner j spec
      (layerCharged key options st.inner j spec (st.inner.stores j)) := by
  have hlayers : c.store.layers = layersFrom 0 c.specs := rfl
  have hm : c.store.mode = .all := hmode
  have hr : c.store.rollbackOnBlock = true := hroll
  simp only [ComposedStore.increment, hm, ComposedStore.incrementAll, hlayers,
    incrementLayers_bank, rollbackAllowed_bank, hr, if_true] at hinc
  split at hinc
  · obtain ⟨-, rfl⟩ := Prod.mk.inj hinc
    have hroll := StoreBank.stores_mapStores (layerRolledBack key options st.inner) 0 c.specs
      (StoreBank.mapStores (layerCharged key options st.inner) 0 c.specs st.inner) j
    have hcharge := StoreBank.stores_mapStores (layerCharged key options st.inner) 0 c.specs
      st.inner j
    simp only [Nat.zero_add, hspec] at hroll hcharge
    rw [hroll, hcharge]
  · obtain ⟨hres, -⟩ := Prod.mk.inj hinc
    rw [← Except.ok.inj hres] at hblocked
    simp [ComposedStore.allowedAll] at hblocked

/-- **When mode `all` rolls back without a trace.**  A composed increment that blocks
leaves the store of a layer that allowed it such that no later operations tell it from the
store before, if and only if the cell of the layer's key restores the probe.  The store is
reachable and nothing of this reaches `maxKeys`.
SOURCE: src/composition/ComposedStore.ts:307-321, 404-496, src/stores/memory-store.ts:795-969 -/
theorem composed_rollback_unnoticed_iff (c : Composition κ) (key : κ)
    (options : RateLimitIncrementOptions) (st st' : ComposedState (StoreBank κ) κ)
    (r : RateLimitResult) (hmode : c.mode = .all) (hroll : c.rollbackOnBlock = true)
    (hinc : c.store.increment key options st = (.ok r, st')) (hblocked : r.isBlocked = true)
    (j : ℕ) (spec : LayerSpec κ) (hspec : c.specs[j]? = some spec)
    (hallowed : allows (layerAnswer key options st.inner j spec) = true)
    (hreach : Reachable st.inner.now (st.inner.stores j))
    (hfits : (st.inner.stores j).Fits (spec.storageKey key)) :
    Indistinguishable Timed.time MemoryStore.StepFits MemoryStore.step st.inner.now
        (st'.inner.stores j) (st.inner.stores j) ↔
      ((st.inner.stores j).cell (spec.storageKey key)).RestoresProbe st.inner.now := by
  set now := st.inner.now
  set m := st.inner.stores j
  set inc := spec.incrementOptions options
  set dec := spec.rollbackOptions options
  have hstore := stores_incrementAll_blocked hmode hroll hinc hblocked hspec
  have hanswer : ((m.increment now (spec.storageKey key) inc).2.isBlocked = false) ∧
      st.inner.failing j = none := by
    cases hfail : st.inner.failing j with
    | some e => simp [layerAnswer, hfail, allows] at hallowed
    | none =>
      simp only [layerAnswer, hfail, allows, Bool.not_eq_true'] at hallowed
      exact ⟨hallowed, rfl⟩
  have hundone : st'.inner.stores j =
      (m.increment now (spec.storageKey key) inc).1.decrement (spec.storageKey key) dec := by
    rw [hstore, layerRolledBack, if_pos hallowed, layerCharged, hanswer.2]
  have hcell : ∀ k, (st'.inner.stores j).cell k =
      if k = spec.storageKey key then (m.cell (spec.storageKey key)).probed now inc dec
      else m.cell k := by
    intro k
    rw [hundone, MemoryStore.cell_decrement, MemoryStore.cell_increment_fits hfits,
      MemoryStore.cell_increment_fits hfits, if_pos rfl]
    split <;> rfl
  have hcost : dec.sanitizedCost = inc.sanitizedCost := sanitizedCost_matchingDecrementOptions inc
  have hlegal := hreach.legal (spec.storageKey key)
  have hallow := hanswer.1
  rw [MemoryStore.increment_snd_cleared] at hallow
  constructor
  · intro hind
    by_contra hnot
    obtain ⟨is, hord, hkey, hne⟩ :=
      probed_toldApart (spec.storageKey key) hcost rfl hlegal hallow hnot
    apply not_indistinguishable_of_observesOn hord hkey _ hind
    rw [hcell, if_pos rfl]
    exact hne
  · intro hrestored
    apply indistinguishable_of_cells
    intro k
    rw [hcell]
    split
    · next hk => rw [hk, probed_restored hcost rfl hlegal hallow hrestored]
    · rfl

end Composed

/-! ## Two layers -/

/-- The two labels differ. -/
theorem lenient_strict_nodup : ["lenient", "strict"].Nodup := by decide

/-- A composition of all layers is no overflow. -/
theorem two_of_all_eq_overflow : CompositionMode.all = .overflow → 2 = 2 := fun _ => rfl

/-- Two layers that must both allow. -/
def bothLayers : Composition ℕ where
  mode := .all
  specs := [{ label := "lenient" }, { label := "strict" }]
  specs_ne := List.cons_ne_nil _ _
  labels_nodup := lenient_strict_nodup
  overflow_two := two_of_all_eq_overflow

/-- A lenient layer after one operation at `0`, and a strict one that is used up, read at
`500`. -/
def bothLayersState (lenient : MemoryStore ℕ) (op : StoreOp ℕ) :
    ComposedState (StoreBank ℕ) ℕ where
  inner :=
    { stores := fun j =>
        if j = 0 then (MemoryStore.step ⟨0, op⟩ lenient).1
        else (MemoryStore.step ⟨0, .increment 7 {}⟩ (.fixed oneASecond (KeyTable.new 0))).1
      now := 500 }

/-- A blocked increment, as two results of one function. -/
theorem bothLayers_blocks (lenient : MemoryStore ℕ) (op : StoreOp ℕ)
    (h : (bothLayers.store.increment 7 {} (bothLayersState lenient op)).1.toOption.map
      RateLimitResult.isBlocked = some true) :
    ∃ r, bothLayers.store.increment 7 {} (bothLayersState lenient op) =
      (.ok r, (bothLayers.store.increment 7 {} (bothLayersState lenient op)).2) ∧
        r.isBlocked = true := by
  cases hinc : (bothLayers.store.increment 7 {} (bothLayersState lenient op)).1 with
  | error e => simp [hinc, Except.toOption] at h
  | ok r =>
    refine ⟨r, Prod.ext hinc rfl, ?_⟩
    simpa [hinc, Except.toOption] using h

/-- A new store after one operation can be reached. -/
theorem reachable_operation {s : MemoryStore ℕ} (op : StoreOp ℕ) (hnew : s.IsNew)
    (hfits : ∀ k, s.Fits k) : Reachable 500 (MemoryStore.step ⟨0, op⟩ s).1 :=
  ⟨s, 0, [⟨0, op⟩], hnew, ⟨le_rfl, trivial⟩, ⟨fun k _ => hfits k, trivial⟩,
    show (0 : ℤ) ≤ 500 by decide, rfl⟩

/-- A fixed window with a hit gets its count back. -/
theorem composed_rollback_unnoticed_iff_fixed :
    Indistinguishable Timed.time MemoryStore.StepFits MemoryStore.step 500
      ((bothLayers.store.increment 7 {} (bothLayersState (.fixed tenASecond (KeyTable.new 0))
        (.increment 7 {}))).2.inner.stores 0)
      ((bothLayersState (.fixed tenASecond (KeyTable.new 0)) (.increment 7 {})).inner.stores 0) := by
  obtain ⟨r, hinc, hblocked⟩ := bothLayers_blocks (.fixed tenASecond (KeyTable.new 0))
    (.increment 7 {}) (by decide +kernel)
  apply (composed_rollback_unnoticed_iff bothLayers 7 {} _ _ r rfl rfl hinc hblocked 0
    { label := "lenient" } rfl (by decide +kernel)
    (reachable_operation _ ⟨0, rfl⟩ fun _ => Or.inl rfl) (Or.inl rfl)).mpr
  rintro _ ⟨⟩
  exact ⟨by decide, by decide⟩

/-- A hit that `set` lets expire at `600` counts on after the rollback, which has dropped
the expiry: an increment at `700` finds it. -/
theorem composed_rollback_noticed :
    ¬ ∀ (c : Composition ℕ) (key : ℕ) (options : RateLimitIncrementOptions)
      (st st' : ComposedState (StoreBank ℕ) ℕ) (r : RateLimitResult), c.mode = .all →
      c.rollbackOnBlock = true → c.store.increment key options st = (.ok r, st') →
      r.isBlocked = true → ∀ (j : ℕ) (spec : LayerSpec ℕ), c.specs[j]? = some spec →
      allows (layerAnswer key options st.inner j spec) = true →
      Reachable st.inner.now (st.inner.stores j) →
      (st.inner.stores j).Fits (spec.storageKey key) →
      Indistinguishable Timed.time MemoryStore.StepFits MemoryStore.step st.inner.now
        (st'.inner.stores j) (st.inner.stores j) := by
  intro h
  obtain ⟨r, hinc, hblocked⟩ := bothLayers_blocks (.sliding tenASecond (KeyTable.new 0))
    (.set 7 1 (some 600)) (by decide +kernel)
  have hind := h bothLayers 7 {} _ _ r rfl rfl hinc hblocked 0 { label := "lenient" } rfl
    (by decide +kernel) (reachable_operation _ ⟨0, rfl⟩ fun _ => Or.inl rfl) (Or.inl rfl)
  have hroom : ∀ s : MemoryStore ℕ, s.Fits 7 →
      Guarded MemoryStore.StepFits MemoryStore.step [⟨700, .increment 7 {}⟩] s := by
    intro s hs
    refine ⟨?_, trivial⟩
    rintro _ ⟨⟩
    exact hs
  have hout := hind [⟨700, .increment 7 {}⟩] ⟨by decide, trivial⟩ (hroom _ (Or.inl rfl))
    (hroom _ (Or.inl rfl))
  revert hout
  decide +kernel

end RatelimitFlex
