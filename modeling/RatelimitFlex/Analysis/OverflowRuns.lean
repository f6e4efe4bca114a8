import RatelimitFlex.Analysis.ComposedUndo
import RatelimitFlex.Analysis.MemorySliding
import RatelimitFlex.Model.OverflowLogs

/-!
# Overflow over two sliding windows is the pair of logs

A composed store in mode `overflow` over two new sliding-window stores answers a run of
increments, on any keys, as the two logs do: `overflow_refines_logs`.  The bound on what it
allows within one primary window is the logs' own.
-/

set_option autoImplicit false

namespace RatelimitFlex

open Library

variable {κ : Type} [DecidableEq κ]

/-- An increment of some key. -/
structure KeyedCall (κ : Type) where
  key : κ
  options : RateLimitIncrementOptions

/-! ## One window -/

section Window

variable {o : WindowOptions} {t now : ℤ} {m : MemoryStore κ} {L : SlidingLog κ} {key : κ}

/-- A store that refines a log does so later. -/
theorem RefinesLog.mono (h : RefinesLog o t m L) (ht : t ≤ now) : RefinesLog o now m L := by
  obtain ⟨tbl, rfl, hm⟩ := h
  exact ⟨tbl, rfl, fun k => (hm k).mono ht⟩

/-- An increment with room is answered from the log, and recorded there. -/
theorem RefinesLog.increment (h : RefinesLog o t m L) (ht : t ≤ now) (hroom : m.HasRoom key)
    (options : RateLimitIncrementOptions) :
    (m.increment now key options).2 = SlidingLog.answer o (o.cap options.maxRequests) now
        (L key ++ [⟨now, options.sanitizedCost⟩]) ∧
      RefinesLog o now (m.increment now key options).1
        (Function.update L key (L key ++ [⟨now, options.sanitizedCost⟩])) := by
  obtain ⟨hout, hnext⟩ := sliding_step t m L ⟨now, .increment key options⟩ h ht ⟨rfl, hroom⟩
  exact ⟨StoreReply.result.inj hout, hnext⟩

end Window

namespace Composition

variable (c : Composition κ)

/-- One call. -/
def keyedStep (i : Timed (KeyedCall κ)) (st : ComposedState (StoreBank κ) κ) :
    ComposedState (StoreBank κ) κ × Except StoreError RateLimitResult :=
  c.callStep i.op.key ⟨i.time, { options := i.op.options }⟩ st

/-- The hit a call stands for, over these layers and windows. -/
def overflowHit (p b : LayerSpec κ) (o o' : WindowOptions) (i : Timed (KeyedCall κ)) :
    Timed (OverflowHit κ) where
  time := i.time
  op :=
    { key := i.op.key
      primaryKey := c.targetKey i.op.key 0 p
      burstKey := c.targetKey i.op.key 1 b
      cost := i.op.options.sanitizedCost
      primaryCap := o.cap (p.incrementOptions i.op.options).maxRequests
      burstCap := o'.cap (b.incrementOptions i.op.options).maxRequests }

/-- One call on the logs, and whether it is admitted. -/
def admits (p b : LayerSpec κ) (o o' : WindowOptions) (i : Timed (KeyedCall κ))
    (L : OverflowLogs κ) : OverflowLogs κ × Bool :=
  let r := OverflowLogs.step o o' (c.overflowHit p b o o' i) L
  (r.1, r.2.isSome)

/-- Neither store reaches its `maxKeys`. -/
def BothHaveRoom (p b : LayerSpec κ) (i : Timed (KeyedCall κ))
    (st : ComposedState (StoreBank κ) κ) : Prop :=
  (st.inner.stores 0).HasRoom (c.targetKey i.op.key 0 p) ∧
    (st.inner.stores 1).HasRoom (c.targetKey i.op.key 1 b)

instance (p b : LayerSpec κ) (i : Timed (KeyedCall κ)) (st : ComposedState (StoreBank κ) κ) :
    Decidable (c.BothHaveRoom p b i st) := inferInstanceAs (Decidable (_ ∧ _))

/-- The stores answer, and each is its log. -/
structure RefinesLogs (o o' : WindowOptions) (t : ℤ) (st : ComposedState (StoreBank κ) κ)
    (L : OverflowLogs κ) : Prop where
  answering : ∀ j, st.inner.failing j = none
  primary : RefinesLog o t (st.inner.stores 0) L.primary
  burst : RefinesLog o' t (st.inner.stores 1) L.burst

variable {c} {p b : LayerSpec κ} {o o' : WindowOptions}

/-- One increment is one step of the logs. -/
theorem RefinesLogs.step (hmode : c.mode = .overflow) (hspecs : c.specs = [p, b]) {t : ℤ}
    {st : ComposedState (StoreBank κ) κ} {L : OverflowLogs κ} {i : Timed (KeyedCall κ)}
    (h : RefinesLogs o o' t st L) (ht : t ≤ i.time) (hroom : c.BothHaveRoom p b i st) :
    allows (c.keyedStep i st).2 =
        (OverflowLogs.step o o' (c.overflowHit p b o o' i) L).2.isSome ∧
      RefinesLogs o o' i.time (c.keyedStep i st).1
        (OverflowLogs.step o o' (c.overflowHit p b o o' i) L).1 := by
  obtain ⟨now, key, options⟩ := i
  have hstep := stepped_increment c key options
    { st with inner := bankAt ⟨now, { options := options }⟩ st }
  have hp : c.specs[0]? = some p := by rw [hspecs]; rfl
  have hb : c.specs[1]? = some b := by rw [hspecs]; rfl
  obtain ⟨hpans, hpnext⟩ := h.primary.increment ht hroom.1 (p.incrementOptions options)
  obtain ⟨hbans, hbnext⟩ := h.burst.increment ht hroom.2 (b.incrementOptions options)
  have hallows : allows (c.keyedStep ⟨now, key, options⟩ st).2 =
      (c.grantedFrame key options (bankAt ⟨now, { options := options }⟩ st)).isSome := by
    rw [← isSome_grants (c := c)]
    exact congrArg Option.isSome hstep.grants
  -- what the two layers answer
  have h0 : (c.answers key options (bankAt ⟨now, { options := options }⟩ st))[0]? =
      some (.ok (SlidingLog.answer o (o.cap (p.incrementOptions options).maxRequests) now
        (L.primary (c.targetKey key 0 p) ++ [⟨now, options.sanitizedCost⟩]))) := by
    rw [getElem?_answers, hp, Option.map_some, answer]
    simp only [bankAt, h.answering 0]
    exact congrArg (some ∘ Except.ok) hpans
  have h1 : (c.answers key options (bankAt ⟨now, { options := options }⟩ st))[1]? =
      some (.ok (SlidingLog.answer o' (o'.cap (b.incrementOptions options).maxRequests) now
        (L.burst (c.targetKey key 1 b) ++ [⟨now, options.sanitizedCost⟩]))) := by
    rw [getElem?_answers, hb, Option.map_some, answer]
    simp only [bankAt, h.answering 1]
    exact congrArg (some ∘ Except.ok) hbans
  have heffect0 : c.effect key options (bankAt ⟨now, { options := options }⟩ st) 0 = .charged := by
    simp [effect, h0, isRejected, hmode]
  have hstore0 : (c.keyedStep ⟨now, key, options⟩ st).1.inner.stores 0 =
      ((st.inner.stores 0).increment now (c.targetKey key 0 p) (p.incrementOptions options)).1 := by
    have hstores := hstep.stores 0 p hp
    rw [heffect0] at hstores
    exact hstores
  have hfailing : ∀ j, (c.keyedStep ⟨now, key, options⟩ st).1.inner.failing j = none := by
    intro j
    have hsame : (c.keyedStep ⟨now, key, options⟩ st).1.inner.failing = st.inner.failing :=
      hstep.failing
    rw [hsame]
    exact h.answering j
  rw [hallows]
  simp only [grantedFrame, pushedFrame, hmode, h0, h1, Option.any_some, allows, blocks,
    SlidingLog.answer]
  by_cases hfits : SlidingLog.liveCost o now (L.primary (c.targetKey key 0 p) ++
      [⟨now, options.sanitizedCost⟩]) ≤ o.cap (p.incrementOptions options).maxRequests
  · obtain ⟨hburst, hroute⟩ := @OverflowLogs.step_of_fits _ _ o o'
      (c.overflowHit p b o o' ⟨now, key, options⟩) L hfits
    have heffect1 : c.effect key options (bankAt ⟨now, { options := options }⟩ st) 1 =
        .untouched := by
      simp [effect, h0, h1, isRejected, hmode, blocks, SlidingLog.answer, not_lt.mpr hfits]
    have hstore1 : (c.keyedStep ⟨now, key, options⟩ st).1.inner.stores 1 = st.inner.stores 1 := by
      have hstores := hstep.stores 1 b hb
      rw [heffect1] at hstores
      exact hstores
    refine ⟨?_, hfailing, ?_, ?_⟩
    · rw [hroute]
      simp [not_lt.mpr hfits]
    · rw [hstore0, OverflowLogs.primary_step]
      exact hpnext
    · rw [hstore1, hburst]
      exact h.burst.mono ht
  · obtain ⟨hburst, hroute⟩ := @OverflowLogs.step_of_over _ _ o o'
      (c.overflowHit p b o o' ⟨now, key, options⟩) L hfits
    have heffect1 : c.effect key options (bankAt ⟨now, { options := options }⟩ st) 1 =
        .charged := by
      simp [effect, h0, h1, isRejected, hmode, blocks, SlidingLog.answer, not_le.mp hfits]
    have hstore1 : (c.keyedStep ⟨now, key, options⟩ st).1.inner.stores 1 =
        ((st.inner.stores 1).increment now (c.targetKey key 1 b) (b.incrementOptions options)).1 := by
      have hstores := hstep.stores 1 b hb
      rw [heffect1] at hstores
      exact hstores
    refine ⟨?_, hfailing, ?_, ?_⟩
    · by_cases hroom' : SlidingLog.liveCost o' now (L.burst (c.targetKey key 1 b) ++
          [⟨now, options.sanitizedCost⟩]) ≤ o'.cap (b.incrementOptions options).maxRequests
      · rw [hroute.trans (if_pos hroom')]
        simp [not_le.mp hfits, not_lt.mpr hroom']
      · rw [hroute.trans (if_neg hroom')]
        simp [not_le.mp hfits, not_le.mp hroom']
    · rw [hstore0, OverflowLogs.primary_step]
      exact hpnext
    · rw [hstore1, hburst]
      exact hbnext

/-! ## Runs -/

/-- **Overflow over two sliding windows.**  Over new stores whose `maxKeys` is not reached, a
run of increments of any cost on any keys is allowed as the two logs admit it: a hit that
fits the primary log, and one that does not but fits the burst log.  Of the hits of one key
under constant caps, those allowed within one primary window cost at most both caps
together.
SOURCE: src/composition/ComposedStore.ts:526-600, src/stores/memory-store.ts:795-826 -/
theorem overflow_refines_logs (c : Composition κ) (hmode : c.mode = .overflow)
    (p b : LayerSpec κ) (hspecs : c.specs = [p, b]) (o o' : WindowOptions)
    (hW : o.windowMs ≤ o'.windowMs) (maxKeys maxKeys' : ℕ)
    (st : ComposedState (StoreBank κ) κ)
    (hprimary : st.inner.stores 0 = .sliding o (KeyTable.new maxKeys))
    (hburst : st.inner.stores 1 = .sliding o' (KeyTable.new maxKeys'))
    (hanswering : ∀ j, st.inner.failing j = none) (t₀ : ℤ) (is : List (Timed (KeyedCall κ)))
    (hord : OrderedFrom Timed.time t₀ is)
    (hroom : Guarded (c.BothHaveRoom p b) c.keyedStep is st) :
    (outputs c.keyedStep is st).map allows =
        (outputs (OverflowLogs.step o o') (is.map (c.overflowHit p b o o')) {}).map
          Option.isSome ∧
      ∀ (k : κ) (P B : ℕ), (∀ i ∈ is, i.op.key = k →
          o.cap (p.incrementOptions i.op.options).maxRequests = P ∧
          o'.cap (b.incrementOptions i.op.options).maxRequests = B) →
        ∀ t : ℤ, Hit.windowCost (t - o.windowMs) t (Hit.admitted (OverflowLogs.charges k
          (is.map (c.overflowHit p b o o')) ((outputs c.keyedStep is st).map allows))) ≤
          P + B := by
  have hstart : RefinesLogs o o' t₀ st {} :=
    { answering := hanswering
      primary := hprimary ▸ refinesLog_new o maxKeys t₀
      burst := hburst ▸ refinesLog_new o' maxKeys' t₀ }
  have hstep : ∀ t st L (i : Timed (KeyedCall κ)), RefinesLogs o o' t st L → t ≤ i.time →
      c.BothHaveRoom p b i st →
      allows (c.keyedStep i st).2 = (c.admits p b o o' i L).2 ∧
        RefinesLogs o o' i.time (c.keyedStep i st).1 (c.admits p b o o' i L).1 :=
    fun t st L i h ht hg => h.step hmode hspecs ht hg
  have hsim := (outputs_eq_of_simulation allows hstep hstart hord hroom).1
  have hout : (outputs c.keyedStep is st).map allows =
      (outputs (OverflowLogs.step o o') (is.map (c.overflowHit p b o o')) {}).map
        Option.isSome := by
    have hview : ∀ (i : Timed (KeyedCall κ)) (L : OverflowLogs κ), c.admits p b o o' i L =
        (id (OverflowLogs.step o o' (c.overflowHit p b o o' i) L).1,
          (OverflowLogs.step o o' (c.overflowHit p b o o' i) L).2.isSome) := fun _ _ => rfl
    rw [outputs_map, hsim]
    exact (run_view _ id Option.isSome hview is {}).1
  refine ⟨hout, fun k P B hcaps t => ?_⟩
  rw [hout]
  have hord' : OrderedFrom Timed.time t₀ (is.map (c.overflowHit p b o o')) :=
    orderedFrom_map _ (fun i => rfl) hord
  have hkey : ∀ q ∈ is.map (c.overflowHit p b o o'), q.op.key = k →
      (q.op.primaryKey = c.targetKey k 0 p ∧ q.op.primaryCap = P) ∧
        q.op.burstKey = c.targetKey k 1 b ∧ q.op.burstCap = B := by
    intro q hq hk
    obtain ⟨i, hi, rfl⟩ := List.mem_map.mp hq
    obtain ⟨hP, hB⟩ := hcaps i hi hk
    subst hk
    exact ⟨⟨rfl, hP⟩, rfl, hB⟩
  exact OverflowLogs.admitted_le hW hord' hkey t

end Composition

/-! ## A second and two seconds -/

/-- New sliding windows, one hit in a second and two in two seconds. -/
def oneThenTwo : ComposedState (StoreBank ℕ) ℕ where
  inner :=
    { stores := fun j =>
        if j = 0 then .sliding oneASecond (KeyTable.new 0)
        else .sliding twoInTwoSeconds (KeyTable.new 0)
      now := 0 }

/-- Four hits of one key, and one of another. -/
def fourAndOne : List (Timed (KeyedCall ℕ)) :=
  [⟨0, 7, {}⟩, ⟨100, 7, {}⟩, ⟨150, 8, {}⟩, ⟨200, 7, {}⟩, ⟨300, 7, {}⟩]

/-- Three of the four hits are allowed, the first by the primary window. -/
theorem overflow_refines_logs_fourAndOne :
    (outputs (firstAndSecond .overflow).keyedStep fourAndOne oneThenTwo).map allows =
        [true, true, true, true, false] ∧
      ∀ t : ℤ, Hit.windowCost (t - 1000) t (Hit.admitted (OverflowLogs.charges 7
        (fourAndOne.map ((firstAndSecond .overflow).overflowHit { label := "first" }
          { label := "second" } oneASecond twoInTwoSeconds))
        ((outputs (firstAndSecond .overflow).keyedStep fourAndOne oneThenTwo).map allows))) ≤ 3 := by
  have h := Composition.overflow_refines_logs (firstAndSecond .overflow) rfl { label := "first" }
    { label := "second" } rfl oneASecond twoInTwoSeconds (by decide) 0 0 oneThenTwo rfl rfl
    (fun _ => rfl) 0 fourAndOne (by decide) (by decide +kernel)
  refine ⟨h.1.trans (by decide +kernel), ?_⟩
  exact h.2 7 1 2 (by decide +kernel)

end RatelimitFlex
