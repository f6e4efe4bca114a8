import RatelimitFlex.Analysis.CellCounts
import RatelimitFlex.Program.ComposedBank

/-!
# What one composed increment does, layer by layer

Over a bank, every layer's store is left alone, charged, or charged and rolled back; which
of these follows from what the layers answer in the state before (`Composition.effect`).
`stores_increment` and `bookkeeping_increment` are the increment of all four modes, store by
store and in the composed store's own memory.
-/

set_option autoImplicit false

namespace RatelimitFlex

variable {κ : Type} [DecidableEq κ]

/-! ## The layers of a composition -/

namespace Composition

variable (c : Composition κ) (key : κ) (options : RateLimitIncrementOptions) (s : StoreBank κ)

/-- The key layer `j` stores `key` under; the burst layer of `overflow` has its own. -/
def targetKey (j : ℕ) (spec : LayerSpec κ) : κ :=
  if c.mode = .overflow ∧ j = 1 then (spec.keyTransform.getD c.burstKey) key
  else spec.storageKey key

/-- What layer `j` answers when it is asked. -/
def answer (j : ℕ) (spec : LayerSpec κ) : Except StoreError RateLimitResult :=
  match s.failing j with
  | some e => .error e
  | none => .ok ((s.stores j).increment s.now (c.targetKey key j spec)
      (spec.incrementOptions options)).2

/-- What all layers answer when they are asked. -/
def answers : List (Except StoreError RateLimitResult) :=
  c.specs.zipIdx.map fun p => c.answer key options s p.2 p.1

/-- The layer that wins `first-available` or a race, and whether it allows; `none` when no
layer allows, or none answers in time. -/
def winner : Option (ℕ × Bool) :=
  match c.mode with
  | .firstAvailable => ((c.answers key options s).findIdx? allows).map fun j => (j, true)
  | .race => (s.firstSettled.bind
      (ComposedStore.raceWinner (c.answers key options s))).map fun w => (w.1, !w.2.isBlocked)
  | _ => none

end Composition

/-- What an increment does to the store of one layer. -/
inductive LayerEffect where
  | untouched
  | charged
  | restored
  deriving DecidableEq

/-- The store after that. -/
def LayerEffect.apply (now : ℤ) (key : κ) (inc : RateLimitIncrementOptions)
    (dec : RateLimitDecrementOptions) (m : MemoryStore κ) : LayerEffect → MemoryStore κ
  | .untouched => m
  | .charged => (m.increment now key inc).1
  | .restored => (m.increment now key inc).1.decrement key dec

namespace Composition

variable (c : Composition κ) (key : κ) (options : RateLimitIncrementOptions) (s : StoreBank κ)

/-- What an increment does to layer `j`. -/
def effect (j : ℕ) : LayerEffect :=
  let answers := c.answers key options s
  if answers[j]?.all isRejected then .untouched
  else match c.mode with
    | .all =>
      if c.rollbackOnBlock && isRefused answers && answers[j]?.any allows then .restored
      else .charged
    | .overflow => if j = 0 ∨ answers[0]?.any blocks then .charged else .untouched
    | .firstAvailable => if (answers.take j).any allows then .untouched else .charged
    | .race =>
      match s.firstSettled.bind (ComposedStore.raceWinner answers) with
      | none => .charged
      | some w => if j ≠ w.1 ∧ answers[j]?.any allows then .restored else .charged

/-- The frame an increment pushes. -/
def pushedFrame : Option (List ℕ) :=
  let answers := c.answers key options s
  match c.mode with
  | .all => if isRefused answers then none else some (List.range c.specs.length)
  | .overflow =>
    if answers[0]?.any allows then some [0]
    else if answers[0]?.any blocks && answers[1]?.any allows then some [1]
    else none
  | _ => (c.winner key options s).map fun w => [w.1]

/-- The layers that grant an increment, read off its answer: all of them in mode `all`, else
the one it names.  A blocked increment is granted by none. -/
def grants (r : Except StoreError RateLimitResult) : Option (List ℕ) :=
  match r with
  | .error _ => none
  | .ok r =>
    if r.isBlocked then none
    else match c.mode with
      | .all => some (List.range c.specs.length)
      | _ => some [c.specs.findIdx fun spec => decide (some spec.label = r.decidingLayer)]

/-- The layers that grant an increment, from what the layers answer. -/
def grantedFrame : Option (List ℕ) :=
  match c.mode with
  | .race => ((c.winner key options s).filter fun w => w.2).map fun w => [w.1]
  | _ => c.pushedFrame key options s

/-- What is known of an increment: each layer's store, the frames and the winner of the key,
and the layers that grant it. -/
structure Stepped (st : ComposedState (StoreBank κ) κ)
    (r : Except StoreError RateLimitResult × ComposedState (StoreBank κ) κ) : Prop where
  stores : ∀ j spec, c.specs[j]? = some spec → r.2.inner.stores j =
    (c.effect key options st.inner j).apply st.inner.now (c.targetKey key j spec)
      (spec.incrementOptions options) (spec.rollbackOptions options) (st.inner.stores j)
  now : r.2.inner.now = st.inner.now
  failing : r.2.inner.failing = st.inner.failing
  stack : r.2.decrementStacks key =
    (c.pushedFrame key options st.inner).toList ++ st.decrementStacks key
  winner : r.2.firstAvailableWinner key =
    if c.mode = .firstAvailable then
      ((c.winner key options st.inner).map Prod.fst).or (st.firstAvailableWinner key)
    else st.firstAvailableWinner key
  grants : c.grants r.1 = c.grantedFrame key options st.inner

variable {c key options s}

/-- The answer of a layer. -/
theorem getElem?_answers (j : ℕ) :
    (c.answers key options s)[j]? = c.specs[j]?.map (c.answer key options s j) := by
  rw [answers, List.getElem?_map, List.getElem?_zipIdx]
  cases c.specs[j]? with
  | none => rfl
  | some spec => simp

omit [DecidableEq κ] in
/-- Outside of overflow a layer counts under its own key. -/
theorem targetKey_of_ne (h : c.mode ≠ .overflow) (j : ℕ) (spec : LayerSpec κ) :
    c.targetKey key j spec = spec.storageKey key := by
  simp [targetKey, h]

/-- It answers from its store. -/
theorem answer_eq (h : c.mode ≠ .overflow) (j : ℕ) (spec : LayerSpec κ) :
    c.answer key options s j spec = layerAnswer key options s j spec := by
  cases hfail : s.failing j with
  | some e => simp only [answer, layerAnswer, hfail]
  | none => simp only [answer, layerAnswer, hfail, targetKey_of_ne h]

/-- So do all of them. -/
theorem answers_eq (h : c.mode ≠ .overflow) :
    c.answers key options s = answersFrom key options s 0 c.specs := by
  apply List.ext_getElem?
  intro j
  rw [getElem?_answers, getElem?_answersFrom]
  congr 1
  funext spec
  rw [answer_eq h, Nat.zero_add]

/-- A layer that rejects is left alone, any other one that is asked is charged. -/
theorem layerCharged_eq (h : c.mode ≠ .overflow) {j : ℕ} {spec : LayerSpec κ} (m : MemoryStore κ) :
    layerCharged key options s j spec m =
      if isRejected (c.answer key options s j spec) then m
      else (m.increment s.now (c.targetKey key j spec) (spec.incrementOptions options)).1 := by
  simp only [layerCharged, answer, targetKey_of_ne h]
  cases s.failing j <;> rfl

/-- A layer that answers and allows gets its increment back. -/
theorem layerRolledBack_eq (h : c.mode ≠ .overflow) {j : ℕ} {spec : LayerSpec κ}
    (m : MemoryStore κ) :
    layerRolledBack key options s j spec m =
      if allows (c.answer key options s j spec) then
        m.decrement (c.targetKey key j spec) (spec.rollbackOptions options)
      else m := by
  rw [layerRolledBack, answer_eq h, targetKey_of_ne h]

/-- A rejected increment was not allowed. -/
theorem allows_of_isRejected {r : Except StoreError RateLimitResult} (h : isRejected r = true) :
    allows r = false := by
  cases r with
  | error e => rfl
  | ok r => simp [isRejected] at h

/-! ## Mode `all` -/

/-- An increment in all layers is a composed step. -/
theorem stepped_all (hmode : c.mode = .all) (st : ComposedState (StoreBank κ) κ) :
    c.Stepped key options st (c.store.increment key options st) := by
  have hne : c.mode ≠ .overflow := by simp [hmode]
  have hm : c.store.mode = .all := hmode
  have hroll : c.store.rollbackOnBlock = c.rollbackOnBlock := rfl
  have hlayers : c.store.layers = layersFrom 0 c.specs := rfl
  have hcharged := StoreBank.stores_mapStores (layerCharged key options st.inner) 0 c.specs st.inner
  have hrolled := StoreBank.stores_mapStores (layerRolledBack key options st.inner) 0 c.specs
    (StoreBank.mapStores (layerCharged key options st.inner) 0 c.specs st.inner)
  simp only [Nat.zero_add] at hcharged hrolled
  simp only [ComposedStore.increment, hm, ComposedStore.incrementAll, hlayers,
    incrementLayers_bank, rollbackAllowed_bank, hroll]
  rw [← answers_eq hne, show ((c.answers key options st.inner).any isRejected ||
    (c.answers key options st.inner).any blocks) = isRefused (c.answers key options st.inner)
    from rfl]
  cases hrefused : isRefused (c.answers key options st.inner) with
  | true =>
    simp only [if_true]
    refine ⟨?_, ?_, ?_, ?_, ?_, ?_⟩
    · intro j spec hspec
      specialize hcharged j
      specialize hrolled j
      simp only [hspec] at hcharged hrolled
      simp only [effect, getElem?_answers, hspec, Option.map_some, Option.all_some,
        Option.any_some, hmode, hrefused, Bool.and_true]
      cases hon : c.rollbackOnBlock with
      | true =>
        simp only [if_true, Bool.true_and]
        rw [hrolled, hcharged, layerCharged_eq hne, layerRolledBack_eq hne]
        cases hrej : isRejected (c.answer key options st.inner j spec) with
        | true => simp [allows_of_isRejected hrej, LayerEffect.apply]
        | false =>
          cases hallow : allows (c.answer key options st.inner j spec) <;>
            simp [LayerEffect.apply]
      | false =>
        simp only [Bool.false_eq_true, if_false, Bool.false_and]
        rw [hcharged, layerCharged_eq hne]
        cases hrej : isRejected (c.answer key options st.inner j spec) <;>
          simp [LayerEffect.apply]
    · simp only
      split <;> simp
    · simp only
      split <;> simp
    · simp [pushedFrame, hmode, hrefused]
    · simp [hmode]
    · simp [grants, grantedFrame, pushedFrame, hmode, hrefused, ComposedStore.blockedAll]
  | false =>
    simp only [Bool.false_eq_true, if_false]
    refine ⟨?_, ?_, ?_, ?_, ?_, ?_⟩
    · intro j spec hspec
      specialize hcharged j
      simp only [hspec] at hcharged
      simp only [effect, getElem?_answers, hspec, Option.map_some, Option.all_some, hmode,
        hrefused, Bool.and_false, Bool.false_and]
      refine hcharged.trans ?_
      rw [layerCharged_eq hne]
      cases hrej : isRejected (c.answer key options st.inner j spec) <;> simp [LayerEffect.apply]
    · simp [ComposedStore.pushFrame]
    · simp [ComposedStore.pushFrame]
    · simp [pushedFrame, hmode, hrefused, ComposedStore.pushFrame, length_layersFrom]
    · simp [hmode, ComposedStore.pushFrame]
    · simp [grants, grantedFrame, pushedFrame, hmode, hrefused, ComposedStore.allowedAll]

/-! ## The winner's label -/

omit [DecidableEq κ] in
/-- A layer is found by its label. -/
theorem findIdx_label {w : ℕ} {spec : LayerSpec κ} (hspec : c.specs[w]? = some spec) :
    (c.specs.findIdx fun sp => decide (sp.label = spec.label)) = w := by
  obtain ⟨hw, rfl⟩ := List.getElem?_eq_some_iff.mp hspec
  rw [List.findIdx_eq hw]
  refine ⟨by simp, fun j hj => ?_⟩
  have hlabels := List.nodup_iff_injective_get.mp c.labels_nodup
  rw [decide_eq_false_iff_not]
  intro heq
  have : (⟨j, by simp; omega⟩ : Fin (c.specs.map LayerSpec.label).length) = ⟨w, by simpa using hw⟩ :=
    hlabels (by simpa using heq)
  simp only [Fin.mk.injEq] at this
  omega

/-! ## Mode `race` -/

/-- The rollback of all layers but one. -/
theorem rollbackAllowed_eraseIdx_bank (s₀ : StoreBank κ) (n w : ℕ) (specs : List (LayerSpec κ))
    (s : StoreBank κ) :
    ComposedStore.rollbackAllowed key options
        (((layersFrom n specs).zip (answersFrom key options s₀ n specs)).eraseIdx w) s =
      StoreBank.mapStores (fun j spec m =>
        if j = n + w then m else layerRolledBack key options s₀ j spec m) n specs s := by
  induction specs generalizing n w s with
  | nil => rfl
  | cons spec rest ih =>
    cases w with
    | zero =>
      simp only [layersFrom, answersFrom, List.zip_cons_cons, List.eraseIdx_cons_zero,
        rollbackAllowed_bank, StoreBank.mapStores, Nat.add_zero, if_true, StoreBank.put_stores_self]
      apply StoreBank.mapStores_congr
      intro j hj spec m
      rw [if_neg (by omega)]
    | succ w =>
      simp only [layersFrom, answersFrom, List.zip_cons_cons, List.eraseIdx_cons_succ,
        ComposedStore.rollbackAllowed, ih, StoreBank.mapStores]
      rw [if_neg (show ¬ n = n + (w + 1) by omega), show n + 1 + w = n + (w + 1) by omega]
      congr 1
      rw [layerRolledBack]
      split
      · rfl
      · rw [StoreBank.put_stores_self]

/-- So is a race. -/
theorem stepped_race (hmode : c.mode = .race) (st : ComposedState (StoreBank κ) κ) :
    c.Stepped key options st (c.store.increment key options st) := by
  have hne : c.mode ≠ .overflow := by simp [hmode]
  have hm : c.store.mode = .race := hmode
  have hlayers : c.store.layers = layersFrom 0 c.specs := rfl
  have hfirst : c.store.settledFirst = StoreBank.firstSettled := rfl
  have hcharged := StoreBank.stores_mapStores (layerCharged key options st.inner) 0 c.specs st.inner
  simp only [Nat.zero_add] at hcharged
  simp only [ComposedStore.increment, hm, ComposedStore.incrementRace, hlayers, hfirst,
    incrementLayers_bank]
  -- without a winner every layer that answers is charged
  have hall : st.inner.firstSettled.bind
      (ComposedStore.raceWinner (c.answers key options st.inner)) = none →
      ∀ j spec, c.specs[j]? = some spec →
        (StoreBank.mapStores (layerCharged key options st.inner) 0 c.specs st.inner).stores j =
          (c.effect key options st.inner j).apply st.inner.now (c.targetKey key j spec)
            (spec.incrementOptions options) (spec.rollbackOptions options)
            (st.inner.stores j) := by
    intro hnone j spec hspec
    specialize hcharged j
    simp only [hspec] at hcharged
    rw [hcharged, layerCharged_eq hne]
    simp only [effect, getElem?_answers, hspec, Option.map_some, Option.all_some, hmode, hnone]
    cases hrej : isRejected (c.answer key options st.inner j spec) <;> simp [LayerEffect.apply]
  cases hf : st.inner.firstSettled with
  | none =>
    simp only
    have hwin : c.winner key options st.inner = none := by simp [winner, hmode, hf]
    refine ⟨hall (by simp [hf]), by simp, by simp, ?_, ?_, ?_⟩
    · simp [pushedFrame, hmode, hwin]
    · simp [hmode]
    · simp [grants, grantedFrame, hmode, hwin]
  | some first =>
    simp only
    rw [← answers_eq hne]
    cases hw : ComposedStore.raceWinner (c.answers key options st.inner) first with
    | none =>
      simp only
      have hwin : c.winner key options st.inner = none := by simp [winner, hmode, hf, hw]
      refine ⟨hall (by simp [hf, hw]), by simp, by simp, ?_, ?_, ?_⟩
      · simp [pushedFrame, hmode, hwin]
      · simp [hmode]
      · simp [grants, grantedFrame, hmode, hwin]
    | some p =>
      obtain ⟨w, r⟩ := p
      simp only
      have hwin : c.winner key options st.inner = some (w, !r.isBlocked) := by
        simp [winner, hmode, hf, hw]
      have hanswer := raceWinner_eq_some hw
      obtain ⟨spec, hspec, hr⟩ : ∃ spec, c.specs[w]? = some spec ∧
          c.answer key options st.inner w spec = .ok r := by
        rw [getElem?_answers] at hanswer
        exact Option.map_eq_some_iff.mp hanswer
      have hlabel : ((layersFrom 0 c.specs)[w]?.map CompositionLayer.label).getD
          c.store.primary.label = spec.label := by
        rw [getElem?_layersFrom, hspec]
        rfl
      rw [answers_eq hne, rollbackAllowed_eraseIdx_bank, hlabel]
      refine ⟨?_, by simp [ComposedStore.pushFrame], by simp [ComposedStore.pushFrame], ?_, ?_, ?_⟩
      · intro j spec' hspec'
        have hrolled := StoreBank.stores_mapStores (fun j spec m =>
            if j = 0 + w then m else layerRolledBack key options st.inner j spec m) 0 c.specs
          (StoreBank.mapStores (layerCharged key options st.inner) 0 c.specs st.inner) j
        specialize hcharged j
        simp only [Nat.zero_add, hspec'] at hcharged hrolled
        simp only [ComposedStore.pushFrame, Nat.zero_add]
        rw [hrolled, hcharged, layerCharged_eq hne, layerRolledBack_eq hne]
        simp only [effect, getElem?_answers, hspec', Option.map_some, Option.all_some, hmode,
          Option.any_some, hf, Option.bind_some, hw]
        by_cases hj : j = w
        · subst hj
          cases hrej : isRejected (c.answer key options st.inner j spec') <;>
            simp [LayerEffect.apply]
        · cases hrej : isRejected (c.answer key options st.inner j spec') with
          | true => simp [allows_of_isRejected hrej, LayerEffect.apply]
          | false =>
            cases hallow : allows (c.answer key options st.inner j spec') <;>
              simp [LayerEffect.apply, hj]
      · simp [pushedFrame, hmode, hwin, ComposedStore.pushFrame]
      · simp [hmode, ComposedStore.pushFrame]
      · cases hb : r.isBlocked with
        | true => simp [grants, grantedFrame, hmode, hwin, hb, Option.filter]
        | false => simp [grants, grantedFrame, hmode, hwin, hb, Option.filter, findIdx_label hspec]

/-! ## Mode `first-available` -/

/-- What the loop from layer `n` on leaves: the layers up to the first one that allows are
asked, that one wins, and the others are left alone. -/
structure Tries (key : κ) (options : RateLimitIncrementOptions) (n : ℕ)
    (specs : List (LayerSpec κ)) (s : StoreBank κ)
    (won : Option (ℕ × CompositionLayer (StoreBank κ) κ × RateLimitResult)) (s' : StoreBank κ) :
    Prop where
  now : s'.now = s.now
  failing : s'.failing = s.failing
  before : ∀ j, j < n → s'.stores j = s.stores j
  stores : ∀ j spec, specs[j]? = some spec → s'.stores (n + j) =
    if ((answersFrom key options s n specs).take j).any allows then s.stores (n + j)
    else layerCharged key options s (n + j) spec (s.stores (n + j))
  winner : won.map Prod.fst =
    ((answersFrom key options s n specs).findIdx? allows).map fun i => n + i
  label : ∀ w ∈ won, w.2.2.isBlocked = false ∧
    ∃ j spec, w.1 = n + j ∧ specs[j]? = some spec ∧ w.2.1.label = spec.label

/-- A layer that refuses hands on to the next. -/
theorem tries_cons {n : ℕ} {spec : LayerSpec κ} {rest : List (LayerSpec κ)} {s s' : StoreBank κ}
    {won : Option (ℕ × CompositionLayer (StoreBank κ) κ × RateLimitResult)}
    (hnot : allows (layerAnswer key options s n spec) = false)
    (h : Tries key options (n + 1) rest
      (s.put n (layerCharged key options s n spec (s.stores n))) won s') :
    Tries key options n (spec :: rest) s won s' where
  now := h.now
  failing := h.failing
  before := by
    intro j hj
    rw [h.before j (by omega), StoreBank.stores_put_of_ne (by omega)]
  stores := by
    intro j spec' hspec'
    cases j with
    | zero =>
      obtain rfl : spec = spec' := by simpa using hspec'
      rw [Nat.add_zero, h.before n (by omega), StoreBank.stores_put_self]
      simp
    | succ j =>
      have hrest := h.stores j spec' (by simpa using hspec')
      rw [answersFrom_put (by omega), StoreBank.stores_put_of_ne (by omega)] at hrest
      rw [show n + (j + 1) = n + 1 + j by omega, hrest]
      simp only [answersFrom, List.take_succ_cons, List.any_cons, hnot, Bool.false_or]
      rfl
  winner := by
    rw [h.winner, answersFrom_put (by omega), answersFrom, List.findIdx?_cons, hnot]
    simp only [Bool.false_eq_true, if_false, Option.map_map]
    congr 1
    funext i
    simp only [Function.comp_apply]
    omega
  label := by
    intro w hw
    obtain ⟨hblocked, j, spec', hj, hspec', hlabel⟩ := h.label w hw
    exact ⟨hblocked, j + 1, spec', by omega, by simpa using hspec', hlabel⟩

/-- The layers are tried in their order until one allows. -/
theorem tries_tryLayers (c : Composition κ) (n : ℕ) (specs : List (LayerSpec κ))
    (tried : ComposedStore.Tried) (s : StoreBank κ) :
    Tries key options n specs s
      (c.store.tryLayers key options n (layersFrom n specs) tried s).1.1
      (c.store.tryLayers key options n (layersFrom n specs) tried s).2 := by
  induction specs generalizing n tried s with
  | nil =>
    exact
      { now := rfl
        failing := rfl
        before := fun _ _ => rfl
        stores := by simp
        winner := by simp [layersFrom, ComposedStore.tryLayers, answersFrom]
        label := by simp [layersFrom, ComposedStore.tryLayers] }
  | cons spec rest ih =>
    have hinc := @increment_bankStore _ _ key options s n spec
    simp only [LayerSpec.storageKey, LayerSpec.incrementOptions] at hinc
    simp only [layersFrom, ComposedStore.tryLayers, CompositionLayer.layerKey, mergeIncOpts, hinc]
    cases hanswer : layerAnswer key options s n spec with
    | error e =>
      simp only
      exact tries_cons (by rw [hanswer]; rfl) (ih (n + 1) _ _)
    | ok r =>
      simp only
      cases hb : r.isBlocked with
      | true =>
        simp only [Bool.not_true, Bool.false_eq_true, if_false]
        exact tries_cons (by rw [hanswer, allows, hb]; rfl) (ih (n + 1) _ _)
      | false =>
        have hallow : allows (layerAnswer key options s n spec) = true := by
          rw [hanswer, allows, hb]
          rfl
        simp only [Bool.not_false, if_true]
        refine ⟨rfl, rfl, fun j hj => StoreBank.stores_put_of_ne (by omega) _ _, ?_, ?_, ?_⟩
        · intro j spec' hspec'
          cases j with
          | zero =>
            obtain rfl : spec = spec' := by simpa using hspec'
            rw [Nat.add_zero, StoreBank.stores_put_self]
            simp
          | succ j =>
            rw [StoreBank.stores_put_of_ne (by omega)]
            simp [answersFrom, hallow]
        · simp [answersFrom, List.findIdx?_cons, hallow]
        · rintro _ ⟨⟩
          exact ⟨hb, 0, spec, rfl, rfl, rfl⟩

/-- The first available layer is a composed step. -/
theorem stepped_firstAvailable (hmode : c.mode = .firstAvailable)
    (st : ComposedState (StoreBank κ) κ) :
    c.Stepped key options st (c.store.increment key options st) := by
  have hne : c.mode ≠ .overflow := by simp [hmode]
  have hm : c.store.mode = .firstAvailable := hmode
  have hlayers : c.store.layers = layersFrom 0 c.specs := rfl
  have htries := @tries_tryLayers _ _ key options c 0 c.specs
    ⟨[], c.store.primary.label, none⟩ st.inner
  simp only [ComposedStore.increment, hm, ComposedStore.incrementFirstAvailable, hlayers]
  generalize c.store.tryLayers key options 0 (layersFrom 0 c.specs)
    ⟨[], c.store.primary.label, none⟩ st.inner = out at htries ⊢
  obtain ⟨⟨won, tried⟩, inner⟩ := out
  simp only at htries ⊢
  have hwin : won.map Prod.fst = (c.winner key options st.inner).map Prod.fst := by
    rw [htries.winner, ← answers_eq hne]
    simp only [winner, hmode, Option.map_map, Nat.zero_add]
    rfl
  have hstores : ∀ j spec, c.specs[j]? = some spec → inner.stores j =
      (c.effect key options st.inner j).apply st.inner.now (c.targetKey key j spec)
        (spec.incrementOptions options) (spec.rollbackOptions options) (st.inner.stores j) := by
    intro j spec hspec
    have hj := htries.stores j spec hspec
    simp only [Nat.zero_add] at hj
    rw [hj, layerCharged_eq hne, ← answers_eq hne]
    simp only [effect, getElem?_answers, hspec, Option.map_some, Option.all_some, hmode]
    cases isRejected (c.answer key options st.inner j spec) <;>
      cases ((c.answers key options st.inner).take j).any allows <;> simp [LayerEffect.apply]
  cases won with
  | none =>
    have hnone : c.winner key options st.inner = none := by
      simpa using hwin.symm
    refine ⟨hstores, htries.now, htries.failing, ?_, ?_, ?_⟩
    · simp [pushedFrame, hmode, hnone]
    · simp [hnone]
    · simp [grants, grantedFrame, pushedFrame, hmode, hnone]
  | some w =>
    obtain ⟨i, layer, r⟩ := w
    obtain ⟨hblocked, j, spec, hij, hspec, hlabel⟩ := htries.label _ rfl
    simp only [Nat.zero_add] at hij hblocked hlabel
    subst hij
    obtain ⟨⟨w, ok⟩, hsome, hw⟩ := Option.map_eq_some_iff.mp hwin.symm
    simp only at hw
    subst hw
    refine ⟨hstores, htries.now, htries.failing, ?_, ?_, ?_⟩
    · simp [pushedFrame, hmode, hsome, ComposedStore.pushFrame]
    · simp [hmode, hsome, ComposedStore.pushFrame]
    · simp [grants, grantedFrame, pushedFrame, hmode, hsome, hblocked, hlabel,
        findIdx_label hspec]

/-! ## Mode `overflow` -/

/-- A layer's store once it has been asked under its own key. -/
def charged (c : Composition κ) (key : κ) (options : RateLimitIncrementOptions) (s : StoreBank κ)
    (j : ℕ) (spec : LayerSpec κ) : MemoryStore κ :=
  if isRejected (c.answer key options s j spec) then s.stores j
  else ((s.stores j).increment s.now (c.targetKey key j spec) (spec.incrementOptions options)).1

/-- A layer's store is asked under the key of the layer. -/
theorem increment_bankStore_target (s : StoreBank κ) (j : ℕ) (spec : LayerSpec κ) :
    (bankStore j).increment (c.targetKey key j spec) (spec.incrementOptions options) s =
      (c.answer key options s j spec, s.put j (c.charged key options s j spec)) := by
  cases hfail : s.failing j with
  | some e =>
    simp only [bankStore, answer, charged, hfail, isRejected, if_true, StoreBank.put_stores_self]
  | none => simp [bankStore, answer, charged, hfail, isRejected]

/-- Another layer's store does not change its answer. -/
theorem answer_put {s : StoreBank κ} {j k : ℕ} (h : j ≠ k) (m : MemoryStore κ)
    (spec : LayerSpec κ) :
    c.answer key options (s.put k m) j spec = c.answer key options s j spec := by
  simp only [answer, StoreBank.failing_put, StoreBank.now_put, StoreBank.stores_put_of_ne h]

/-- Nor what it is charged. -/
theorem charged_put {s : StoreBank κ} {j k : ℕ} (h : j ≠ k) (m : MemoryStore κ)
    (spec : LayerSpec κ) :
    c.charged key options (s.put k m) j spec = c.charged key options s j spec := by
  simp only [charged, answer_put h, StoreBank.now_put, StoreBank.stores_put_of_ne h]

/-- What sweeping an expired route leaves alone. -/
theorem sweepOverflowRoute_frame (st : ComposedState (StoreBank κ) κ) :
    (c.store.sweepOverflowRouteIfExpired key st).inner = st.inner ∧
      (c.store.sweepOverflowRouteIfExpired key st).decrementStacks = st.decrementStacks ∧
      (c.store.sweepOverflowRouteIfExpired key st).firstAvailableWinner =
        st.firstAvailableWinner := by
  unfold ComposedStore.sweepOverflowRouteIfExpired
  split
  · split <;> exact ⟨rfl, rfl, rfl⟩
  · exact ⟨rfl, rfl, rfl⟩

section TwoLayers

variable {p b : LayerSpec κ}

/-- The first of two layers. -/
theorem primary_of_two (hspecs : c.specs = [p, b]) :
    c.store.primary = ⟨p.label, bankStore 0, p.keyTransform, p.maxRequests⟩ := by
  apply (List.head_eq_iff_head?_eq_some _).mpr
  show (layersFrom 0 c.specs).head? = _
  rw [hspecs]
  rfl

/-- The second of two layers. -/
theorem burst_of_two (hspecs : c.specs = [p, b]) :
    c.store.burst = ⟨b.label, bankStore 1, b.keyTransform, b.maxRequests⟩ := by
  apply (List.getLast_eq_iff_getLast?_eq_some _).mpr
  show (layersFrom 0 c.specs).getLast? = _
  rw [hspecs]
  rfl

/-- The key of the first. -/
theorem primaryKey_of_two (hspecs : c.specs = [p, b]) :
    c.store.primary.layerKey key = c.targetKey key 0 p := by
  rw [primary_of_two hspecs, targetKey, if_neg (by simp)]
  rfl

/-- The key of the second. -/
theorem burstKey_of_two (hmode : c.mode = .overflow) (hspecs : c.specs = [p, b]) :
    c.store.overflowBurstKey key = c.targetKey key 1 b := by
  rw [ComposedStore.overflowBurstKey, burst_of_two hspecs, targetKey, if_pos ⟨hmode, rfl⟩]
  rfl

end TwoLayers

/-- An overflow is a composed step. -/
theorem stepped_overflow (hmode : c.mode = .overflow) (st : ComposedState (StoreBank κ) κ) :
    c.Stepped key options st (c.store.increment key options st) := by
  obtain ⟨p, b, hspecs⟩ := List.length_eq_two.mp (c.overflow_two hmode)
  have hm : c.store.mode = .overflow := hmode
  have hprimary := primary_of_two hspecs
  have hburst := burst_of_two hspecs
  have hlayerKey : c.store.primary.layerKey key = c.targetKey key 0 p := primaryKey_of_two hspecs
  have hburstKey : c.store.overflowBurstKey key = c.targetKey key 1 b :=
    burstKey_of_two hmode hspecs
  have hpOpts : mergeIncOpts c.store.primary options = p.incrementOptions options := by
    rw [hprimary]
    rfl
  have hbOpts : mergeIncOpts c.store.burst options = b.incrementOptions options := by
    rw [hburst]
    rfl
  obtain ⟨hinner, hstack, hwinner⟩ := @sweepOverflowRoute_frame _ _ c key st
  have hp : c.specs[0]? = some p := by rw [hspecs]; rfl
  have hb : c.specs[1]? = some b := by rw [hspecs]; rfl
  have htwo : ∀ {j spec}, c.specs[j]? = some spec → j = 0 ∧ spec = p ∨ j = 1 ∧ spec = b := by
    intro j spec hspec
    rw [hspecs] at hspec
    match j, hspec with
    | 0, hspec => exact Or.inl ⟨rfl, (Option.some.inj hspec).symm⟩
    | 1, hspec => exact Or.inr ⟨rfl, (Option.some.inj hspec).symm⟩
  have hans0 : (c.answers key options st.inner)[0]? = some (c.answer key options st.inner 0 p) := by
    rw [getElem?_answers, hp, Option.map_some]
  have hans1 : (c.answers key options st.inner)[1]? = some (c.answer key options st.inner 1 b) := by
    rw [getElem?_answers, hb, Option.map_some]
  have hnone : c.winner key options st.inner = none := by simp [winner, hmode]
  have hfind : c.specs.findIdx (fun sp => decide (sp.label = b.label)) = 1 := findIdx_label hb
  have hfind0 : c.specs.findIdx (fun sp => decide (sp.label = p.label)) = 0 := findIdx_label hp
  have hstore0 : c.charged key options st.inner 0 p =
      (c.effect key options st.inner 0).apply st.inner.now (c.targetKey key 0 p)
        (p.incrementOptions options) (p.rollbackOptions options) (st.inner.stores 0) := by
    simp only [charged, effect, hans0, Option.all_some, hmode, true_or, if_true]
    cases isRejected (c.answer key options st.inner 0 p) <;> simp [LayerEffect.apply]
  have heffect1 : c.effect key options st.inner 1 =
      if isRejected (c.answer key options st.inner 1 b) then .untouched
      else if blocks (c.answer key options st.inner 0 p) then .charged else .untouched := by
    simp [effect, hans0, hans1, hmode]
  simp only [ComposedStore.increment, hm, ComposedStore.incrementOverflow, hinner, hlayerKey,
    hpOpts, hburstKey, hbOpts]
  have hpinc := @increment_bankStore_target _ _ c key options st.inner 0 p
  have hbinc := @increment_bankStore_target _ _ c key options
    (st.inner.put 0 (c.charged key options st.inner 0 p)) 1 b
  rw [answer_put (by omega), charged_put (by omega)] at hbinc
  have hpstore : c.store.primary.store = bankStore 0 := by rw [hprimary]
  have hbstore : c.store.burst.store = bankStore 1 := by rw [hburst]
  have hplabel : c.store.primary.label = p.label := by rw [hprimary]
  have hblabel : c.store.burst.label = b.label := by rw [hburst]
  simp only [hpstore, hbstore, hpinc, hplabel, hblabel]
  cases hpa : c.answer key options st.inner 0 p with
  | error e =>
    simp only
    refine ⟨?_, rfl, rfl, ?_, ?_, ?_⟩
    · intro j spec hspec
      rcases htwo hspec with ⟨rfl, rfl⟩ | ⟨rfl, rfl⟩
      · exact (StoreBank.stores_put_self _ _ _).trans hstore0
      · rw [heffect1, hpa]
        refine (StoreBank.stores_put_of_ne (by omega) _ _).trans ?_
        split <;> rfl
    · simp [pushedFrame, hmode, hans0, hpa, allows, blocks, hstack]
    · simp [hmode, hwinner]
    · simp [grants, grantedFrame, pushedFrame, hmode, hans0, hpa, allows, blocks]
  | ok pr =>
    simp only
    cases hpb : pr.isBlocked with
    | false =>
      simp only [Bool.not_false, if_true]
      refine ⟨?_, rfl, rfl, ?_, ?_, ?_⟩
      · intro j spec hspec
        rcases htwo hspec with ⟨rfl, rfl⟩ | ⟨rfl, rfl⟩
        · exact (StoreBank.stores_put_self _ _ _).trans hstore0
        · rw [heffect1, hpa, blocks, hpb]
          refine (StoreBank.stores_put_of_ne (by omega) _ _).trans ?_
          split <;> rfl
      · simp [pushedFrame, hmode, hans0, hpa, allows, hpb, hstack, ComposedStore.pushFrame,
          ComposedStore.setOverflowRoute]
      · simp [hmode, hwinner, ComposedStore.pushFrame, ComposedStore.setOverflowRoute]
      · simp [grants, grantedFrame, pushedFrame, hmode, hans0, hpa, allows, hpb, hfind0]
    | true =>
      simp only [Bool.not_true, Bool.false_eq_true, if_false, hbinc]
      have hstores : ∀ j spec, c.specs[j]? = some spec →
          ((st.inner.put 0 (c.charged key options st.inner 0 p)).put 1
            (c.charged key options st.inner 1 b)).stores j =
          (c.effect key options st.inner j).apply st.inner.now (c.targetKey key j spec)
            (spec.incrementOptions options) (spec.rollbackOptions options)
            (st.inner.stores j) := by
        intro j spec hspec
        rcases htwo hspec with ⟨rfl, rfl⟩ | ⟨rfl, rfl⟩
        · rw [StoreBank.stores_put_of_ne (by omega), StoreBank.stores_put_self, hstore0]
        · rw [StoreBank.stores_put_self, heffect1, hpa, blocks, hpb, charged]
          cases isRejected (c.answer key options st.inner 1 spec) <;> simp [LayerEffect.apply]
      cases hba : c.answer key options st.inner 1 b with
      | error e =>
        simp only
        refine ⟨hstores, rfl, rfl, ?_, ?_, ?_⟩
        · simp [pushedFrame, hmode, hans0, hans1, hpa, hba, allows, blocks, hpb, hstack]
        · simp [hmode, hwinner]
        · simp [grants, grantedFrame, pushedFrame, hmode, hans0, hans1, hpa, hba, allows, blocks,
            hpb]
      | ok br =>
        simp only
        cases hbb : br.isBlocked with
        | false =>
          simp only [Bool.not_false, if_true]
          refine ⟨hstores, rfl, rfl, ?_, ?_, ?_⟩
          · simp [pushedFrame, hmode, hans0, hans1, hpa, hba, allows, blocks, hpb, hbb, hstack,
              ComposedStore.pushFrame, ComposedStore.setOverflowRoute]
          · simp [hmode, hwinner, ComposedStore.pushFrame, ComposedStore.setOverflowRoute]
          · simp [grants, grantedFrame, pushedFrame, hmode, hans0, hans1, hpa, hba, allows, blocks,
              hpb, hbb, hfind]
        | true =>
          simp only [Bool.not_true, Bool.false_eq_true, if_false]
          refine ⟨hstores, rfl, rfl, ?_, ?_, ?_⟩
          · simp [pushedFrame, hmode, hans0, hans1, hpa, hba, allows, blocks, hpb, hbb, hstack,
              ComposedStore.setOverflowRoute]
          · simp [hmode, hwinner, ComposedStore.setOverflowRoute]
          · simp [grants, grantedFrame, pushedFrame, hmode, hans0, hans1, hpa, hba, allows, blocks,
              hpb, hbb]

omit [DecidableEq κ] in
/-- An increment is allowed when some layer grants it. -/
theorem isSome_grants (r : Except StoreError RateLimitResult) :
    (c.grants r).isSome = allows r := by
  cases r with
  | error e => rfl
  | ok r =>
    cases hb : r.isBlocked with
    | true => simp [grants, allows, hb]
    | false =>
      simp only [grants, allows, hb, Bool.false_eq_true, if_false, Bool.not_false]
      cases c.mode <;> rfl

/-- **One increment, in any mode.** -/
theorem stepped_increment (c : Composition κ) (key : κ) (options : RateLimitIncrementOptions)
    (st : ComposedState (StoreBank κ) κ) :
    c.Stepped key options st (c.store.increment key options st) := by
  cases hmode : c.mode with
  | all => exact stepped_all hmode st
  | overflow => exact stepped_overflow hmode st
  | firstAvailable => exact stepped_firstAvailable hmode st
  | race => exact stepped_race hmode st

end Composition

end RatelimitFlex
