import RatelimitFlex.Analysis.ComposedSteps

/-!
# Decrements of a composed store against the increments they undo

A run of increments on one key, and then one decrement for each granted one, the last
first.  `PairsUp` is what the decrements should do: each goes to the layers that granted
its increment, and the counts lose just what they granted.  Modes `all` and `overflow`
always pair up.  `first-available` remembers one winner and falls back to layer `0`, and a
race pushes a frame for a blocked winner too; `PairingHolds` says when that does no harm.
-/

set_option autoImplicit false

namespace RatelimitFlex

open Library

variable {κ : Type} [DecidableEq κ]

/-! ## Runs of increments on one key -/

/-- An increment, and the layer that settles first should it race. -/
structure ComposedCall where
  options : RateLimitIncrementOptions
  first : Option ℕ := some 0

namespace Composition

variable (c : Composition κ) (key : κ)

/-- The bank at the moment of a call. -/
def bankAt (i : Timed ComposedCall) (st : ComposedState (StoreBank κ) κ) : StoreBank κ :=
  { st.inner with
    now := i.time
    firstSettled := i.op.first }

/-- One call. -/
def callStep (i : Timed ComposedCall) (st : ComposedState (StoreBank κ) κ) :
    ComposedState (StoreBank κ) κ × Except StoreError RateLimitResult :=
  let r := c.store.increment key i.op.options { st with inner := bankAt i st }
  (r.2, r.1)

/-- The calls of a run with the bank each of them finds. -/
def calls : List (Timed ComposedCall) → ComposedState (StoreBank κ) κ →
    List (RateLimitIncrementOptions × StoreBank κ)
  | [], _ => []
  | i :: is, st => (i.op.options, bankAt i st) :: calls is (c.callStep key i st).1

/-- The increments of a run that were granted, with the layers that granted them. -/
def granted (is : List (Timed ComposedCall)) (st : ComposedState (StoreBank κ) κ) :
    List (RateLimitIncrementOptions × List ℕ) :=
  (is.zip (outputs (c.callStep key) is st)).filterMap fun p =>
    (c.grants p.2).map fun layers => (p.1.op.options, layers)

/-! ## Decrements -/

/-- The layers that the next decrement goes to. -/
def decrementTargets (st : ComposedState (StoreBank κ) κ) : List ℕ :=
  match c.mode with
  | .firstAvailable => [(st.firstAvailableWinner key).getD 0]
  | .overflow => ((st.decrementStacks key).head?.getD []).take 1
  | _ => (st.decrementStacks key).head?.getD []

/-- One decrement for each of these increments. -/
def undo (os : List RateLimitIncrementOptions) (st : ComposedState (StoreBank κ) κ) :
    ComposedState (StoreBank κ) κ :=
  os.foldl (fun st o => c.store.decrement key (matchingDecrementOptions o) st) st

/-- The layers that each of these decrements goes to. -/
def undoTargets : List RateLimitIncrementOptions → ComposedState (StoreBank κ) κ → List (List ℕ)
  | [], _ => []
  | o :: os, st => c.decrementTargets key st ::
      undoTargets os (c.store.decrement key (matchingDecrementOptions o) st)

/-- What layer `j` granted. -/
def grantedCost (j : ℕ) (gs : List (RateLimitIncrementOptions × List ℕ)) : ℤ :=
  (gs.map fun g => if j ∈ g.2 then (g.1.sanitizedCost : ℤ) else 0).sum

/-- Undone in reverse order, each granted increment is taken back from the layers that
granted it, and the counts at `u` lose just that. -/
structure PairsUp (u : ℤ) (is : List (Timed ComposedCall)) (st : ComposedState (StoreBank κ) κ) :
    Prop where
  targets : c.undoTargets key ((c.granted key is st).reverse.map Prod.fst)
    (final (c.callStep key) is st) = (c.granted key is st).reverse.map Prod.snd
  removed : ∀ j spec, c.specs[j]? = some spec →
    storeCount u (c.targetKey key j spec)
        ((c.undo key ((c.granted key is st).reverse.map Prod.fst)
          (final (c.callStep key) is st)).inner.stores j) =
      storeCount u (c.targetKey key j spec) ((final (c.callStep key) is st).inner.stores j) -
        grantedCost j (c.granted key is st)

/-- The winners of a run's races, or of its rounds of `first-available`, in order. -/
def winners (is : List (Timed ComposedCall)) (st : ComposedState (StoreBank κ) κ) :
    List (ℕ × Bool) :=
  (c.calls key is st).filterMap fun p => c.winner key p.1 p.2

/-- In `first-available` no winner but the last is another layer than the first; in a race
the last winners, blocked or not, are those that allowed. -/
def PairingHolds (is : List (Timed ComposedCall)) (st : ComposedState (StoreBank κ) κ) : Prop :=
  let ws := c.winners key is st
  match c.mode with
  | .firstAvailable => ∀ w ∈ ws.dropLast, w.1 = 0
  | .race => (ws.reverse.map Prod.fst).take (ws.filter Prod.snd).length =
      (ws.filter Prod.snd).reverse.map Prod.fst
  | _ => True

/-! ## What one decrement does -/

/-- What is known of a decrement: its targets are decremented, its frame or winner is
gone. -/
structure Decremented (options : RateLimitDecrementOptions)
    (st st' : ComposedState (StoreBank κ) κ) : Prop where
  stores : ∀ j spec, c.specs[j]? = some spec → st'.inner.stores j =
    if j ∈ c.decrementTargets key st then
      (st.inner.stores j).decrement (c.targetKey key j spec) options
    else st.inner.stores j
  stack : st'.decrementStacks key =
    if c.mode = .firstAvailable then st.decrementStacks key else (st.decrementStacks key).tail
  winner : st'.firstAvailableWinner key =
    if c.mode = .firstAvailable then none else st.firstAvailableWinner key

variable {c key}

/-- Each layer of the composed store is one of the composition. -/
theorem getElem?_layers {j : ℕ} {spec : LayerSpec κ} (hspec : c.specs[j]? = some spec) :
    c.store.layers[j]? = some ⟨spec.label, bankStore j, spec.keyTransform, spec.maxRequests⟩ := by
  show (layersFrom 0 c.specs)[j]? = _
  rw [getElem?_layersFrom, hspec, Nat.zero_add]
  rfl

/-- A decrement of one layer changes its store alone. -/
theorem stores_decrementLayer (hne : c.mode ≠ .overflow) (options : RateLimitDecrementOptions)
    (index : ℕ) (st : ComposedState (StoreBank κ) κ) {j : ℕ} {spec : LayerSpec κ}
    (hspec : c.specs[j]? = some spec) :
    (c.store.decrementLayer key options index st).inner.stores j =
      if j = index then (st.inner.stores j).decrement (c.targetKey key j spec) options
      else st.inner.stores j := by
  unfold ComposedStore.decrementLayer
  by_cases hj : j = index
  · subst hj
    rw [getElem?_layers hspec, if_pos rfl, targetKey_of_ne hne]
    exact StoreBank.stores_put_self _ _ _
  · rw [if_neg hj]
    cases hlayer : c.store.layers[index]? with
    | none => rfl
    | some layer =>
      have hget : (layersFrom 0 c.specs)[index]? = some layer := hlayer
      rw [getElem?_layersFrom] at hget
      obtain ⟨spec', -, rfl⟩ := Option.map_eq_some_iff.mp hget
      exact StoreBank.stores_put_of_ne (by omega) _ _

/-- It leaves the stacks, the winners and the routes. -/
theorem decrementLayer_frame (options : RateLimitDecrementOptions) (index : ℕ)
    (st : ComposedState (StoreBank κ) κ) :
    (c.store.decrementLayer key options index st).decrementStacks = st.decrementStacks ∧
      (c.store.decrementLayer key options index st).firstAvailableWinner =
        st.firstAvailableWinner := by
  unfold ComposedStore.decrementLayer
  split <;> exact ⟨rfl, rfl⟩

/-- A decrement of a frame changes each of its layers once. -/
theorem foldl_decrementLayer (hne : c.mode ≠ .overflow) (options : RateLimitDecrementOptions)
    {frame : List ℕ} (hnodup : frame.Nodup) (st : ComposedState (StoreBank κ) κ) :
    (∀ j spec, c.specs[j]? = some spec →
      (frame.foldl (fun st index => c.store.decrementLayer key options index st)
        st).inner.stores j =
        if j ∈ frame then (st.inner.stores j).decrement (c.targetKey key j spec) options
        else st.inner.stores j) ∧
      (frame.foldl (fun st index => c.store.decrementLayer key options index st)
        st).decrementStacks = st.decrementStacks ∧
      (frame.foldl (fun st index => c.store.decrementLayer key options index st)
        st).firstAvailableWinner = st.firstAvailableWinner := by
  induction frame generalizing st with
  | nil => simp
  | cons index rest ih =>
    obtain ⟨hfresh, hrest⟩ := List.nodup_cons.mp hnodup
    obtain ⟨hstores, hstack, hwinner⟩ := ih hrest (c.store.decrementLayer key options index st)
    obtain ⟨hstack', hwinner'⟩ := @decrementLayer_frame κ _ c key options index st
    rw [List.foldl_cons]
    refine ⟨fun j spec hspec => ?_, hstack.trans hstack', hwinner.trans hwinner'⟩
    rw [hstores j spec hspec, stores_decrementLayer hne options index st hspec]
    by_cases hj : j = index
    · subst hj
      rw [if_neg hfresh, if_pos rfl, if_pos List.mem_cons_self]
    · simp only [hj, if_false, List.mem_cons, false_or]

/-- With all layers, and in a race, a decrement takes back the frame on top. -/
theorem decremented_stack (hmode : c.mode = .all ∨ c.mode = .race)
    (options : RateLimitDecrementOptions) (st : ComposedState (StoreBank κ) κ)
    (hnodup : (c.decrementTargets key st).Nodup) :
    c.Decremented key options st (c.store.decrement key options st) := by
  have hne : c.mode ≠ .overflow := by rcases hmode with h | h <;> simp [h]
  have hfa : c.mode ≠ .firstAvailable := by rcases hmode with h | h <;> simp [h]
  have htargets : c.decrementTargets key st = (st.decrementStacks key).head?.getD [] := by
    rcases hmode with h | h <;> simp [decrementTargets, h]
  rw [htargets] at hnodup
  have hdec : c.store.decrement key options st =
      ((st.decrementStacks key).head?.getD []).foldl
        (fun st index => c.store.decrementLayer key options index st)
        (ComposedStore.popFrame key st).2 := by
    have hm : c.store.mode = c.mode := rfl
    have hpop : (ComposedStore.popFrame key st).1 = (st.decrementStacks key).head? := rfl
    unfold ComposedStore.decrement
    rcases hmode with h | h
    all_goals
      rw [hm, h, ← hpop]
      simp only
      obtain ⟨frame, st₁⟩ := ComposedStore.popFrame key st
      cases frame <;> rfl
  obtain ⟨hstores, hstack, hwinner⟩ := @foldl_decrementLayer κ _ c key hne options _ hnodup
    (ComposedStore.popFrame key st).2
  rw [hdec]
  refine ⟨?_, ?_, ?_⟩
  · rw [htargets]
    exact hstores
  · rw [hstack, if_neg hfa]
    simp [ComposedStore.popFrame]
  · rw [hwinner, if_neg hfa]
    rfl

/-- The first available mode takes back what its last winner was charged. -/
theorem decremented_firstAvailable (hmode : c.mode = .firstAvailable)
    (options : RateLimitDecrementOptions) (st : ComposedState (StoreBank κ) κ) :
    c.Decremented key options st (c.store.decrement key options st) := by
  have hne : c.mode ≠ .overflow := by simp [hmode]
  have hm : c.store.mode = .firstAvailable := hmode
  simp only [ComposedStore.decrement, hm]
  obtain ⟨hstack, hwinner⟩ := @decrementLayer_frame κ _ c key options
    ((st.firstAvailableWinner key).getD 0)
    { st with firstAvailableWinner := Function.update st.firstAvailableWinner key none }
  refine ⟨fun j spec hspec => ?_, ?_, ?_⟩
  · rw [stores_decrementLayer hne _ _ _ hspec]
    simp [decrementTargets, hmode]
  · rw [hstack, if_pos hmode]
  · rw [hwinner, if_pos hmode]
    simp

/-- An overflow takes back from the layer that was charged. -/
theorem decremented_overflow (hmode : c.mode = .overflow)
    (options : RateLimitDecrementOptions) (st : ComposedState (StoreBank κ) κ) :
    c.Decremented key options st (c.store.decrement key options st) := by
  obtain ⟨p, b, hspecs⟩ := List.length_eq_two.mp (c.overflow_two hmode)
  have hm : c.store.mode = .overflow := hmode
  have hkey : ∀ {index spec}, c.specs[index]? = some spec →
      c.store.overflowStorageKey index key = c.targetKey key index spec := by
    intro index spec hspec
    rw [hspecs] at hspec
    match index, hspec with
    | 0, hspec =>
      obtain rfl := Option.some.inj hspec
      exact primaryKey_of_two hspecs
    | 1, hspec =>
      obtain rfl := Option.some.inj hspec
      exact burstKey_of_two hmode hspecs
  -- the store's part of the decrement, before the route is cleared
  have hclear : ∀ st₁ : ComposedState (StoreBank κ) κ,
      (if st₁.decrementStacks key = [] then ComposedStore.clearOverflowRouteState key st₁
        else st₁).inner = st₁.inner ∧
      (if st₁.decrementStacks key = [] then ComposedStore.clearOverflowRouteState key st₁
        else st₁).decrementStacks = st₁.decrementStacks ∧
      (if st₁.decrementStacks key = [] then ComposedStore.clearOverflowRouteState key st₁
        else st₁).firstAvailableWinner = st₁.firstAvailableWinner := by
    intro st₁
    split <;> exact ⟨rfl, rfl, rfl⟩
  simp only [ComposedStore.decrement, hm]
  have hpop : (ComposedStore.popFrame key st).1 = (st.decrementStacks key).head? := rfl
  have hst : (ComposedStore.popFrame key st).2.inner = st.inner := rfl
  have hstack : (ComposedStore.popFrame key st).2.decrementStacks key =
      (st.decrementStacks key).tail := by simp [ComposedStore.popFrame]
  have hwinner : (ComposedStore.popFrame key st).2.firstAvailableWinner =
      st.firstAvailableWinner := rfl
  have htargets : c.decrementTargets key st =
      ((ComposedStore.popFrame key st).1.getD []).take 1 := by
    simp [decrementTargets, hmode, hpop]
  generalize ComposedStore.popFrame key st = popped at hst hstack hwinner htargets
  obtain ⟨frame, st₁⟩ := popped
  simp only at hst hstack hwinner htargets ⊢
  have hnothing : c.decrementTargets key st = [] → c.Decremented key options st
      (if st₁.decrementStacks key = [] then ComposedStore.clearOverflowRouteState key st₁
        else st₁) := by
    intro hnone
    obtain ⟨h1, h2, h3⟩ := hclear st₁
    refine ⟨fun j spec _ => ?_, ?_, ?_⟩
    · rw [h1, hst, hnone, if_neg List.not_mem_nil]
    · rw [h2, hstack, if_neg (by simp [hmode])]
    · rw [h3, hwinner, if_neg (by simp [hmode])]
  match frame with
  | none => exact hnothing (by simp [htargets])
  | some [] => exact hnothing (by simp [htargets])
  | some (index :: rest) =>
    simp only [Option.getD_some, List.take_succ_cons, List.take_zero] at htargets
    simp only
    cases hlayer : c.store.layers[index]? with
    | none =>
      simp only
      obtain ⟨h1, h2, h3⟩ := hclear st₁
      refine ⟨fun j spec hspec => ?_, ?_, ?_⟩
      · have hj : j ≠ index := by
          rintro rfl
          rw [getElem?_layers hspec] at hlayer
          simp at hlayer
        rw [h1, hst, htargets, if_neg (by simpa using hj)]
      · rw [h2, hstack, if_neg (by simp [hmode])]
      · rw [h3, hwinner, if_neg (by simp [hmode])]
    | some layer =>
      simp only
      have hget : (layersFrom 0 c.specs)[index]? = some layer := hlayer
      rw [getElem?_layersFrom] at hget
      obtain ⟨spec', hspec', rfl⟩ := Option.map_eq_some_iff.mp hget
      obtain ⟨h1, h2, h3⟩ := hclear { st₁ with
        inner := (bankStore (0 + index)).decrement (c.store.overflowStorageKey index key) options
          st₁.inner }
      refine ⟨fun j spec hspec => ?_, ?_, ?_⟩
      · rw [h1, htargets, hst, hkey hspec']
        by_cases hj : j = index
        · subst hj
          obtain rfl : spec' = spec := Option.some.inj (hspec'.symm.trans hspec)
          rw [if_pos (by simp), Nat.zero_add]
          exact StoreBank.stores_put_self _ _ _
        · rw [if_neg (by simpa using hj)]
          exact StoreBank.stores_put_of_ne (by omega) _ _
      · rw [h2, if_neg (by simp [hmode])]
        exact hstack
      · rw [h3, if_neg (by simp [hmode])]
        exact congrFun hwinner key

/-- **One decrement, in any mode.** -/
theorem decremented_decrement (options : RateLimitDecrementOptions)
    (st : ComposedState (StoreBank κ) κ) (hnodup : (c.decrementTargets key st).Nodup) :
    c.Decremented key options st (c.store.decrement key options st) := by
  cases hmode : c.mode with
  | all => exact decremented_stack (Or.inl hmode) options st hnodup
  | overflow => exact decremented_overflow hmode options st
  | firstAvailable => exact decremented_firstAvailable hmode options st
  | race => exact decremented_stack (Or.inr hmode) options st hnodup

/-! ## What a run of increments leaves to be undone -/

section Run

variable (c key)

/-- The granted increments of a run, with the layers of each. -/
theorem granted_eq (is : List (Timed ComposedCall)) (st : ComposedState (StoreBank κ) κ) :
    c.granted key is st = (c.calls key is st).filterMap fun p =>
      (c.grantedFrame key p.1 p.2).map fun layers => (p.1, layers) := by
  induction is generalizing st with
  | nil => rfl
  | cons i is ih =>
    have hgrants : c.grants (c.callStep key i st).2 =
        c.grantedFrame key i.op.options (bankAt i st) :=
      (stepped_increment c key i.op.options { st with inner := bankAt i st }).grants
    have hrest := ih (c.callStep key i st).1
    simp only [granted, calls, outputs_cons, List.zip_cons_cons, List.filterMap_cons,
      hgrants] at hrest ⊢
    rw [hrest]

/-- The stack after a run: its frames, the last on top. -/
theorem stack_final (is : List (Timed ComposedCall)) (st : ComposedState (StoreBank κ) κ) :
    (final (c.callStep key) is st).decrementStacks key =
      ((c.calls key is st).filterMap fun p => c.pushedFrame key p.1 p.2).reverse ++
        st.decrementStacks key := by
  induction is generalizing st with
  | nil => rfl
  | cons i is ih =>
    have hstack : (c.callStep key i st).1.decrementStacks key =
        (c.pushedFrame key i.op.options (bankAt i st)).toList ++ st.decrementStacks key :=
      (stepped_increment c key i.op.options { st with inner := bankAt i st }).stack
    rw [final_cons, ih, hstack, calls, List.filterMap_cons]
    cases c.pushedFrame key i.op.options (bankAt i st) <;> simp

/-- The winner after a run is the last one. -/
theorem winner_final (hmode : c.mode = .firstAvailable) (is : List (Timed ComposedCall))
    (st : ComposedState (StoreBank κ) κ) :
    (final (c.callStep key) is st).firstAvailableWinner key =
      (((c.winners key is st).map Prod.fst).getLast?).or (st.firstAvailableWinner key) := by
  induction is generalizing st with
  | nil => rfl
  | cons i is ih =>
    have hwinner := (stepped_increment c key i.op.options { st with inner := bankAt i st }).winner
    rw [if_pos hmode] at hwinner
    rw [final_cons, ih]
    rw [show (c.callStep key i st).1.firstAvailableWinner key = _ from hwinner]
    simp only [winners, calls, List.filterMap_cons]
    cases c.winner key i.op.options (bankAt i st) with
    | none => simp
    | some w =>
      simp only [List.map_cons, List.getLast?_cons, Option.map_some, Option.some_or]
      cases (List.map Prod.fst (List.filterMap (fun p => c.winner key p.1 p.2)
        (c.calls key is (c.callStep key i st).1))).getLast? <;> rfl

variable {c key}

/-- The frames are lists of different layers, of one outside mode `all`. -/
theorem pushedFrame_spec {options : RateLimitIncrementOptions} {s : StoreBank κ}
    {frame : List ℕ} (h : c.pushedFrame key options s = some frame) :
    frame.Nodup ∧ (c.mode = .overflow → frame.take 1 = frame) := by
  cases hmode : c.mode with
  | all =>
    simp only [pushedFrame, hmode] at h
    split at h
    · simp at h
    · obtain rfl := Option.some.inj h
      exact ⟨List.nodup_range, by simp⟩
  | overflow =>
    simp only [pushedFrame, hmode] at h
    split at h
    · obtain rfl := Option.some.inj h
      exact ⟨by simp, by simp⟩
    · split at h
      · obtain rfl := Option.some.inj h
        exact ⟨by simp, by simp⟩
      · simp at h
  | firstAvailable =>
    simp only [pushedFrame, hmode] at h
    obtain ⟨w, -, rfl⟩ := Option.map_eq_some_iff.mp h
    exact ⟨by simp, by simp⟩
  | race =>
    simp only [pushedFrame, hmode] at h
    obtain ⟨w, -, rfl⟩ := Option.map_eq_some_iff.mp h
    exact ⟨by simp, by simp⟩

/-- A granted increment pushes the frame of the layers that granted it. -/
theorem pushedFrame_of_granted {options : RateLimitIncrementOptions} {s : StoreBank κ}
    {frame : List ℕ} (h : c.grantedFrame key options s = some frame) :
    c.pushedFrame key options s = some frame := by
  cases hmode : c.mode with
  | all => simpa only [grantedFrame, hmode] using h
  | overflow => simpa only [grantedFrame, hmode] using h
  | firstAvailable => simpa only [grantedFrame, hmode] using h
  | race =>
    simp only [grantedFrame, hmode] at h
    simp only [pushedFrame, hmode]
    obtain ⟨w, hw, rfl⟩ := Option.map_eq_some_iff.mp h
    rw [Option.eq_some_of_filter_eq_some hw]
    rfl

/-- A layer that grants an increment is charged for it. -/
theorem effect_of_granted {options : RateLimitIncrementOptions} {s : StoreBank κ}
    {frame : List ℕ} (h : c.grantedFrame key options s = some frame) {j : ℕ} (hj : j ∈ frame)
    (hlt : j < c.specs.length) : c.effect key options s j = .charged := by
  have hget : (c.answers key options s)[j]? = some (c.answer key options s j c.specs[j]) := by
    rw [getElem?_answers, List.getElem?_eq_getElem hlt]
    rfl
  have hallowed : ∀ {r : Except StoreError RateLimitResult}, allows r = true →
      isRejected r = false := by
    intro r hr
    cases r with
    | error e => simp [allows] at hr
    | ok r => rfl
  cases hmode : c.mode with
  | all =>
    simp only [grantedFrame, pushedFrame, hmode] at h
    split at h
    · simp at h
    · next hrefused =>
      rw [Bool.not_eq_true] at hrefused
      have hnot := List.any_eq_false.mp (Bool.or_eq_false_iff.mp hrefused).1 _
        (List.mem_of_getElem? hget)
      simp only [effect, hget, Option.all_some, hmode, hrefused, Bool.and_false, Bool.false_and]
      simp [hnot]
  | overflow =>
    simp only [grantedFrame, pushedFrame, hmode] at h
    split at h
    · next hallow =>
      obtain rfl := Option.some.inj h
      obtain rfl := List.mem_singleton.mp hj
      rw [hget, Option.any_some] at hallow
      simp [effect, hget, hallowed hallow, hmode]
    · split at h
      · next hallow =>
        obtain rfl := Option.some.inj h
        obtain rfl := List.mem_singleton.mp hj
        obtain ⟨hblock, hallow⟩ := (Bool.and_eq_true _ _).mp hallow
        rw [hget, Option.any_some] at hallow
        simp [effect, hget, hallowed hallow, hmode, hblock]
      · simp at h
  | firstAvailable =>
    simp only [grantedFrame, pushedFrame, winner, hmode, Option.map_map] at h
    obtain ⟨w, hw, rfl⟩ := Option.map_eq_some_iff.mp h
    obtain rfl := List.mem_singleton.mp hj
    obtain ⟨hw, hallow, hbefore⟩ := List.findIdx?_eq_some_iff_getElem.mp hw
    have hsame := (List.getElem?_eq_getElem hw).symm.trans hget
    rw [Option.some.inj hsame] at hallow
    have hnone : ((c.answers key options s).take j).any allows = false := by
      apply List.any_eq_false.mpr
      intro r hr
      obtain ⟨i, hi, rfl⟩ := List.mem_take_iff_getElem.mp hr
      exact hbefore i (by omega)
    simp only [effect, hget, Option.all_some, hallowed hallow, hmode, hnone, Bool.false_eq_true,
      if_false]
  | race =>
    simp only [grantedFrame, winner, hmode] at h
    obtain ⟨p, hp, rfl⟩ := Option.map_eq_some_iff.mp h
    obtain rfl := List.mem_singleton.mp hj
    obtain ⟨hmap, hok⟩ := Option.filter_eq_some_iff.mp hp
    obtain ⟨⟨w, r⟩, hw, rfl⟩ := Option.map_eq_some_iff.mp hmap
    simp only at hget hlt hok ⊢
    obtain ⟨first, -, hwin⟩ := Option.bind_eq_some_iff.mp hw
    have hr := raceWinner_eq_some hwin
    rw [hget] at hr
    rw [Option.some.inj hr] at hget
    simp [effect, hget, isRejected, hmode, hw]

end Run

/-! ## The counts -/

section Counts

variable {t now u : ℤ}

/-- What an increment does to a steady window: a charge is counted, a restored one is
not. -/
theorem steady_effect {m : MemoryStore κ} {k : κ} (h : (m.cell k).Steady t u) (ht : t ≤ now)
    (hu : now ≤ u) {inc : RateLimitIncrementOptions} {dec : RateLimitDecrementOptions}
    (hcost : dec.sanitizedCost = inc.sanitizedCost) (e : LayerEffect) :
    ((e.apply now k inc dec m).cell k).Steady t u ∧
      (e = .charged ∨ (m.cell k).Pruned t u → ((e.apply now k inc dec m).cell k).Pruned t u) ∧
      ((e.apply now k inc dec m).cell k).count u =
        (m.cell k).count u + if e = .charged then (inc.sanitizedCost : ℤ) else 0 := by
  obtain ⟨hpruned, hcount⟩ := h.increment ht hu inc
  have hnonneg : 0 ≤ (m.cell k).count u := h.count_nonneg
  have htu := ht.trans hu
  cases e with
  | untouched => exact ⟨h, by simp [LayerEffect.apply], by simp [LayerEffect.apply]⟩
  | charged =>
    simp only [LayerEffect.apply, MemoryStore.cell_increment_own]
    exact ⟨hpruned.steady htu, fun _ => hpruned, by simp [hcount]⟩
  | restored =>
    simp only [LayerEffect.apply, MemoryStore.cell_decrement, MemoryStore.cell_increment_own,
      if_true]
    obtain ⟨hpruned', hcount'⟩ := @Cell.Pruned.decrement _ _ _ hpruned dec (by rw [hcost]; omega)
    refine ⟨hpruned'.steady htu, fun _ => hpruned', ?_⟩
    rw [hcount', hcount, hcost]
    simp

/-- Every layer's window holds what it granted. -/
structure Owes (c : Composition κ) (key : κ) (t u : ℤ) (stores : ℕ → MemoryStore κ)
    (gs : List (RateLimitIncrementOptions × List ℕ)) : Prop where
  steady : ∀ j spec, c.specs[j]? = some spec →
    ((stores j).cell (c.targetKey key j spec)).Steady t u
  pruned : ∀ j spec, c.specs[j]? = some spec → ∀ g ∈ gs, j ∈ g.2 →
    ((stores j).cell (c.targetKey key j spec)).Pruned t u
  owed : ∀ j spec, c.specs[j]? = some spec →
    grantedCost j gs ≤ ((stores j).cell (c.targetKey key j spec)).count u

omit [DecidableEq κ] in
/-- The costs of two stretches. -/
theorem grantedCost_append (j : ℕ) (gs gs' : List (RateLimitIncrementOptions × List ℕ)) :
    grantedCost j (gs ++ gs') = grantedCost j gs + grantedCost j gs' := by
  simp [grantedCost]

omit [DecidableEq κ] in
/-- No layer is granted less than nothing. -/
theorem grantedCost_nonneg (j : ℕ) (gs : List (RateLimitIncrementOptions × List ℕ)) :
    0 ≤ grantedCost j gs := by
  apply List.sum_nonneg
  intro x hx
  obtain ⟨g, -, rfl⟩ := List.mem_map.mp hx
  split
  · exact Int.natCast_nonneg _
  · exact le_rfl

/-- One increment: what it is granted is added to what is owed. -/
theorem Owes.increment {st : ComposedState (StoreBank κ) κ}
    {gs : List (RateLimitIncrementOptions × List ℕ)} (h : Owes c key t u st.inner.stores gs)
    {i : Timed ComposedCall} (ht : t ≤ i.time) (hu : i.time ≤ u) :
    Owes c key t u (c.callStep key i st).1.inner.stores
      (gs ++ ((c.grantedFrame key i.op.options (bankAt i st)).map
        fun layers => (i.op.options, layers)).toList) := by
  have hstep := (stepped_increment c key i.op.options { st with inner := bankAt i st }).stores
  have heffect : ∀ j spec, c.specs[j]? = some spec →
      (c.callStep key i st).1.inner.stores j =
        (c.effect key i.op.options (bankAt i st) j).apply i.time (c.targetKey key j spec)
          (spec.incrementOptions i.op.options) (spec.rollbackOptions i.op.options)
          (st.inner.stores j) := hstep
  have hcost : ∀ spec : LayerSpec κ, (spec.rollbackOptions i.op.options).sanitizedCost =
      (spec.incrementOptions i.op.options).sanitizedCost :=
    fun spec => sanitizedCost_matchingDecrementOptions (spec.incrementOptions i.op.options)
  refine ⟨?_, ?_, ?_⟩
  · intro j spec hspec
    rw [heffect j spec hspec]
    exact (steady_effect (h.steady j spec hspec) ht hu (hcost spec) _).1
  · intro j spec hspec g hg hj
    rw [heffect j spec hspec]
    apply (steady_effect (h.steady j spec hspec) ht hu (hcost spec) _).2.1
    rcases List.mem_append.mp hg with hg | hg
    · exact Or.inr (h.pruned j spec hspec g hg hj)
    · rw [Option.mem_toList] at hg
      obtain ⟨frame, hframe, rfl⟩ := Option.map_eq_some_iff.mp hg
      exact Or.inl (effect_of_granted hframe hj (List.getElem?_eq_some_iff.mp hspec).1)
  · intro j spec hspec
    rw [heffect j spec hspec, grantedCost_append,
      (steady_effect (h.steady j spec hspec) ht hu (hcost spec) _).2.2]
    apply add_le_add (h.owed j spec hspec)
    cases hframe : c.grantedFrame key i.op.options (bankAt i st) with
    | none =>
      simp only [Option.map_none, Option.toList_none, grantedCost, List.map_nil, List.sum_nil]
      split
      · exact Int.natCast_nonneg _
      · exact le_rfl
    | some frame =>
      simp only [Option.map_some, Option.toList_some, grantedCost, List.map_cons, List.map_nil,
        List.sum_cons, List.sum_nil, add_zero]
      by_cases hj : j ∈ frame
      · rw [if_pos hj,
          if_pos (effect_of_granted hframe hj (List.getElem?_eq_some_iff.mp hspec).1)]
        exact le_rfl
      · rw [if_neg hj]
        split
        · exact Int.natCast_nonneg _
        · exact le_rfl

/-- A run of increments. -/
theorem Owes.run {is : List (Timed ComposedCall)} {st : ComposedState (StoreBank κ) κ}
    {gs : List (RateLimitIncrementOptions × List ℕ)} (h : Owes c key t u st.inner.stores gs)
    (hord : OrderedFrom Timed.time t is) (hu : ∀ i ∈ is, i.time ≤ u) :
    Owes c key t u (final (c.callStep key) is st).inner.stores (gs ++ c.granted key is st) := by
  have hlate : ∀ {t' : ℤ} {is : List (Timed ComposedCall)}, t ≤ t' →
      OrderedFrom Timed.time t' is → ∀ i ∈ is, t ≤ i.time := by
    intro t' is
    induction is generalizing t' with
    | nil => simp
    | cons i is ih =>
      intro ht hord j hj
      rcases List.mem_cons.mp hj with rfl | hj
      · exact ht.trans hord.1
      · exact ih (ht.trans hord.1) hord.2 j hj
  replace hord := hlate le_rfl hord
  induction is generalizing st gs with
  | nil => simpa [granted, calls] using h
  | cons i is ih =>
    have hone := h.increment (hord i List.mem_cons_self) (hu i List.mem_cons_self)
    have hrest := ih hone (fun j hj => hu j (List.mem_cons_of_mem i hj))
      fun j hj => hord j (List.mem_cons_of_mem i hj)
    rw [granted_eq, calls, List.filterMap_cons, final_cons]
    rw [granted_eq, List.append_assoc] at hrest
    cases hframe : (c.grantedFrame key i.op.options (bankAt i st)).map
        fun layers => (i.op.options, layers) with
    | none => simpa [hframe] using hrest
    | some g => simpa [hframe] using hrest

/-- Undoing what is owed, from the layers that granted it, removes just that. -/
theorem Owes.undo {gs : List (RateLimitIncrementOptions × List ℕ)}
    {st : ComposedState (StoreBank κ) κ} (h : Owes c key t u st.inner.stores gs) (htu : t ≤ u)
    (hnodup : ∀ g ∈ gs, g.2.Nodup)
    (htargets : c.undoTargets key (gs.map Prod.fst) st = gs.map Prod.snd) (j : ℕ)
    (spec : LayerSpec κ) (hspec : c.specs[j]? = some spec) :
    (((c.undo key (gs.map Prod.fst) st).inner.stores j).cell (c.targetKey key j spec)).count u =
      ((st.inner.stores j).cell (c.targetKey key j spec)).count u - grantedCost j gs := by
  induction gs generalizing st with
  | nil => simp [Composition.undo, grantedCost]
  | cons g gs ih =>
    simp only [List.map_cons, undoTargets, List.cons.injEq] at htargets
    obtain ⟨hhead, hrest⟩ := htargets
    have hfresh := hnodup g List.mem_cons_self
    have hdec := (decremented_decrement (matchingDecrementOptions g.1) st
      (by rw [hhead]; exact hfresh)).stores
    rw [hhead] at hdec
    have hcost : (matchingDecrementOptions g.1).sanitizedCost = g.1.sanitizedCost :=
      sanitizedCost_matchingDecrementOptions g.1
    have hsplit : ∀ j, grantedCost j (g :: gs) =
        (if j ∈ g.2 then (g.1.sanitizedCost : ℤ) else 0) + grantedCost j gs := by
      intro j
      simp [grantedCost]
    -- what the head's decrement does to the cell of one layer
    have hcell : ∀ j spec, c.specs[j]? = some spec → j ∈ g.2 →
        (((c.store.decrement key (matchingDecrementOptions g.1) st).inner.stores j).cell
          (c.targetKey key j spec)).Pruned t u ∧
        (((c.store.decrement key (matchingDecrementOptions g.1) st).inner.stores j).cell
          (c.targetKey key j spec)).count u =
          ((st.inner.stores j).cell (c.targetKey key j spec)).count u - g.1.sanitizedCost := by
      intro j spec hspec hj
      have howed := h.owed j spec hspec
      rw [hsplit, if_pos hj] at howed
      have hrest := grantedCost_nonneg j gs
      rw [hdec j spec hspec, if_pos hj, MemoryStore.cell_decrement, if_pos rfl, ← hcost]
      apply (h.pruned j spec hspec g List.mem_cons_self hj).decrement
      rw [hcost]
      omega
    have hnext : Owes c key t u
        (c.store.decrement key (matchingDecrementOptions g.1) st).inner.stores gs := by
      refine ⟨?_, ?_, ?_⟩
      · intro j spec hspec
        by_cases hj : j ∈ g.2
        · exact (hcell j spec hspec hj).1.steady htu
        · rw [hdec j spec hspec, if_neg hj]
          exact h.steady j spec hspec
      · intro j spec hspec g' hg' hj'
        by_cases hj : j ∈ g.2
        · exact (hcell j spec hspec hj).1
        · rw [hdec j spec hspec, if_neg hj]
          exact h.pruned j spec hspec g' (List.mem_cons_of_mem g hg') hj'
      · intro j spec hspec
        have howed := h.owed j spec hspec
        rw [hsplit] at howed
        by_cases hj : j ∈ g.2
        · rw [(hcell j spec hspec hj).2]
          rw [if_pos hj] at howed
          omega
        · rw [hdec j spec hspec, if_neg hj]
          rw [if_neg hj, zero_add] at howed
          exact howed
    rw [List.map_cons, Composition.undo, List.foldl_cons, hsplit]
    refine (ih hnext (fun g' hg' => hnodup g' (List.mem_cons_of_mem g hg')) hrest).trans ?_
    by_cases hj : j ∈ g.2
    · rw [(hcell j spec hspec hj).2, if_pos hj]
      ring
    · rw [hdec j spec hspec, if_neg hj, if_neg hj]
      ring

end Counts

/-! ## The targets -/

section Targets

/-- Outside `first-available` the decrements go to the frames on the stack, the top one
first. -/
theorem undoTargets_stack (hmode : c.mode ≠ .firstAvailable) {os : List RateLimitIncrementOptions}
    {st : ComposedState (StoreBank κ) κ} {frames below : List (List ℕ)}
    (hstack : st.decrementStacks key = frames ++ below)
    (hframes : ∀ f ∈ frames, f.Nodup ∧ (c.mode = .overflow → f.take 1 = f))
    (hlen : os.length ≤ frames.length) :
    c.undoTargets key os st = frames.take os.length := by
  induction os generalizing st frames with
  | nil => rfl
  | cons o os ih =>
    cases frames with
    | nil => simp at hlen
    | cons frame frames =>
      obtain ⟨hnodup, hone⟩ := hframes frame List.mem_cons_self
      have htarget : c.decrementTargets key st = frame := by
        cases hm : c.mode with
        | firstAvailable => exact absurd hm hmode
        | overflow => simpa [decrementTargets, hm, hstack] using hone hm
        | all => simp [decrementTargets, hm, hstack]
        | race => simp [decrementTargets, hm, hstack]
      have hdec := decremented_decrement (matchingDecrementOptions o) st
        (by rw [htarget]; exact hnodup)
      have hnext : (c.store.decrement key (matchingDecrementOptions o) st).decrementStacks key =
          frames ++ below := by
        rw [hdec.stack, if_neg hmode, hstack]
        rfl
      rw [undoTargets, htarget, List.length_cons, List.take_succ_cons,
        ih hnext (fun f hf => hframes f (List.mem_cons_of_mem frame hf)) (by simpa using hlen)]

/-- In `first-available` they go to the remembered winner, and then to layer `0`. -/
theorem undoTargets_firstAvailable (hmode : c.mode = .firstAvailable)
    (o : RateLimitIncrementOptions) (os : List RateLimitIncrementOptions)
    (st : ComposedState (StoreBank κ) κ) :
    c.undoTargets key (o :: os) st =
      [(st.firstAvailableWinner key).getD 0] :: List.replicate os.length [0] := by
  induction os generalizing o st with
  | nil => simp [undoTargets, decrementTargets, hmode]
  | cons o' os ih =>
    have hnodup : (c.decrementTargets key st).Nodup := by simp [decrementTargets, hmode]
    have hdec := decremented_decrement (matchingDecrementOptions o) st hnodup
    have hgone : (c.store.decrement key (matchingDecrementOptions o) st).firstAvailableWinner key =
        none := by rw [hdec.winner, if_pos hmode]
    rw [undoTargets, ih, hgone]
    simp [decrementTargets, hmode, List.replicate_succ]

variable (c key)

/-- The granted layers of a run, in order. -/
theorem granted_snd (is : List (Timed ComposedCall)) (st : ComposedState (StoreBank κ) κ) :
    (c.granted key is st).map Prod.snd =
      (c.calls key is st).filterMap fun p => c.grantedFrame key p.1 p.2 := by
  rw [granted_eq, List.map_filterMap]
  congr 1
  funext p
  cases c.grantedFrame key p.1 p.2 <;> rfl

/-- Where one layer wins, the granted layers are the winners that allowed. -/
theorem granted_of_winners (hmode : c.mode = .firstAvailable ∨ c.mode = .race)
    (is : List (Timed ComposedCall)) (st : ComposedState (StoreBank κ) κ) :
    (c.granted key is st).map Prod.snd =
      ((c.winners key is st).filter Prod.snd).map fun w => [w.1] := by
  rw [granted_snd, winners, List.filter_filterMap, List.map_filterMap]
  congr 1
  funext p
  rcases hmode with h | h
  · cases hw : (c.answers key p.1 p.2).findIdx? allows <;>
      simp [grantedFrame, pushedFrame, winner, h, hw]
  · simp only [grantedFrame, h]

/-- The stack of a race is its winners, the last on top. -/
theorem stack_of_winners (hmode : c.mode = .race) (is : List (Timed ComposedCall))
    (st : ComposedState (StoreBank κ) κ) :
    (final (c.callStep key) is st).decrementStacks key =
      ((c.winners key is st).map fun w => [w.1]).reverse ++ st.decrementStacks key := by
  rw [stack_final, winners, List.map_filterMap]
  simp only [pushedFrame, hmode]

/-- A first available winner allows. -/
theorem winners_allow (hmode : c.mode = .firstAvailable) (is : List (Timed ComposedCall))
    (st : ComposedState (StoreBank κ) κ) :
    (c.winners key is st).filter Prod.snd = c.winners key is st := by
  apply List.filter_eq_self.mpr
  intro w hw
  obtain ⟨p, -, hp⟩ := List.mem_filterMap.mp hw
  simp only [winner, hmode] at hp
  obtain ⟨j, -, rfl⟩ := Option.map_eq_some_iff.mp hp
  rfl

/-- **When the decrements reach the layers that granted.** -/
theorem undoTargets_iff (is : List (Timed ComposedCall)) (st : ComposedState (StoreBank κ) κ) :
    c.undoTargets key ((c.granted key is st).reverse.map Prod.fst)
        (final (c.callStep key) is st) = (c.granted key is st).reverse.map Prod.snd ↔
      c.PairingHolds key is st := by
  have hspec : ∀ f ∈ ((c.calls key is st).filterMap fun p => c.pushedFrame key p.1 p.2).reverse,
      f.Nodup ∧ (c.mode = .overflow → f.take 1 = f) := by
    intro f hf
    obtain ⟨p, -, hp⟩ := List.mem_filterMap.mp (List.mem_reverse.mp hf)
    exact pushedFrame_spec hp
  -- every granted increment is on the stack
  have hpaired : (c.mode = .all ∨ c.mode = .overflow) →
      c.undoTargets key ((c.granted key is st).reverse.map Prod.fst)
        (final (c.callStep key) is st) = (c.granted key is st).reverse.map Prod.snd := by
    intro hmode
    have hne : c.mode ≠ .firstAvailable := by rcases hmode with h | h <;> simp [h]
    have hsame : (c.granted key is st).map Prod.snd =
        (c.calls key is st).filterMap fun p => c.pushedFrame key p.1 p.2 := by
      rw [granted_snd]
      congr 1
      funext p
      rcases hmode with h | h <;> simp only [grantedFrame, h]
    have hlen : ((c.granted key is st).reverse.map Prod.fst).length =
        ((c.calls key is st).filterMap fun p => c.pushedFrame key p.1 p.2).reverse.length := by
      rw [← hsame]
      simp
    rw [undoTargets_stack hne (stack_final c key is st) hspec hlen.le, hlen, List.take_length,
      ← hsame, List.map_reverse]
  cases hmode : c.mode with
  | all => exact iff_of_true (hpaired (Or.inl hmode)) (by simp [PairingHolds, hmode])
  | overflow => exact iff_of_true (hpaired (Or.inr hmode)) (by simp [PairingHolds, hmode])
  | firstAvailable =>
    simp only [PairingHolds, hmode]
    have hlayers := granted_of_winners c key (Or.inl hmode) is st
    rw [winners_allow c key hmode] at hlayers
    have hwinner := winner_final c key hmode is st
    have hback : (c.granted key is st).reverse.map Prod.snd =
        ((c.winners key is st).map fun w => [w.1]).reverse := by
      rw [List.map_reverse, hlayers]
    rw [hback]
    rcases List.eq_nil_or_concat (c.winners key is st) with hnil | ⟨ws, w, hws⟩
    · rw [hnil] at hlayers
      have hgranted : c.granted key is st = [] := by simpa using hlayers
      rw [hgranted, hnil]
      simp [undoTargets]
    · rw [List.concat_eq_append] at hws
      obtain ⟨o, os, hos⟩ : ∃ o os, (c.granted key is st).reverse.map Prod.fst = o :: os := by
        apply List.exists_cons_of_ne_nil
        intro hnil
        have hgranted : c.granted key is st = [] := by simpa using hnil
        rw [hgranted, hws] at hlayers
        simp at hlayers
      have hlen : os.length = ws.length := by
        have h1 := congrArg List.length hos
        have h2 := congrArg List.length hlayers
        rw [hws] at h2
        simp only [List.length_map, List.length_reverse, List.length_cons, List.length_append,
          List.length_nil] at h1 h2
        omega
      rw [hws] at hwinner
      have hlast : (final (c.callStep key) is st).firstAvailableWinner key = some w.1 := by
        rw [hwinner]
        simp
      rw [hos, undoTargets_firstAvailable hmode, hlast, hws, hlen]
      simp only [Option.getD_some, List.map_append, List.map_cons, List.map_nil,
        List.reverse_append, List.reverse_cons, List.reverse_nil, List.nil_append,
        List.cons_append, List.cons.injEq, true_and, List.dropLast_concat]
      rw [eq_comm, List.eq_replicate_iff]
      constructor
      · rintro ⟨-, hzero⟩ w' hw'
        have := hzero [w'.1] (List.mem_reverse.mpr (List.mem_map_of_mem hw'))
        simpa using this
      · intro hzero
        refine ⟨by simp, fun f hf => ?_⟩
        obtain ⟨w', hw', rfl⟩ := List.mem_map.mp (List.mem_reverse.mp hf)
        rw [hzero w' hw']
  | race =>
    simp only [PairingHolds, hmode]
    have hlayers := granted_of_winners c key (Or.inr hmode) is st
    have hlen : ((c.granted key is st).reverse.map Prod.fst).length =
        ((c.winners key is st).filter Prod.snd).length := by
      have := congrArg List.length hlayers
      simpa using this
    have hback : (c.granted key is st).reverse.map Prod.snd =
        (((c.winners key is st).filter Prod.snd).map fun w => [w.1]).reverse := by
      rw [List.map_reverse, hlayers]
    have hspec' : ∀ f ∈ ((c.winners key is st).map fun w => [w.1]).reverse,
        f.Nodup ∧ (c.mode = .overflow → f.take 1 = f) := by
      intro f hf
      obtain ⟨w, -, rfl⟩ := List.mem_map.mp (List.mem_reverse.mp hf)
      exact ⟨List.nodup_singleton _, fun _ => rfl⟩
    have hle : ((c.winners key is st).filter Prod.snd).length ≤ (c.winners key is st).length :=
      List.length_filter_le _ _
    rw [undoTargets_stack (by simp [hmode]) (stack_of_winners c key hmode is st) hspec'
      (by rw [hlen]; simpa using hle), hlen, hback]
    have hsingle : Function.Injective fun i : ℕ => [i] := fun a b h => by simpa using h
    have hleft : (((c.winners key is st).map fun w => [w.1]).reverse.take
        ((c.winners key is st).filter Prod.snd).length) =
        (((c.winners key is st).reverse.map Prod.fst).take
          ((c.winners key is st).filter Prod.snd).length).map fun i => [i] := by
      rw [← List.map_reverse, List.map_take, List.map_map]
      rfl
    have hright : (((c.winners key is st).filter Prod.snd).map fun w => [w.1]).reverse =
        (((c.winners key is st).filter Prod.snd).reverse.map Prod.fst).map fun i => [i] := by
      rw [← List.map_reverse, List.map_map]
      rfl
    rw [hleft, hright]
    exact (List.map_injective_iff.mpr hsingle).eq_iff

end Targets

/-- **When decrements pair with the increments they undo.**  From any state of the composed
store and its window layers, for any increments on a key between `t` and `u`, while nothing
expires.
SOURCE: src/composition/ComposedStore.ts:286-305, 602-662, 772-790, 826-878 -/
theorem composed_decrement_pairs_iff (c : Composition κ) (key : κ)
    (st : ComposedState (StoreBank κ) κ) (t u : ℤ) (htu : t ≤ u)
    (hsteady : ∀ j spec, c.specs[j]? = some spec →
      ((st.inner.stores j).cell (c.targetKey key j spec)).Steady t u)
    (is : List (Timed ComposedCall)) (hord : OrderedFrom Timed.time t is)
    (hu : ∀ i ∈ is, i.time ≤ u) :
    c.PairsUp key u is st ↔ c.PairingHolds key is st := by
  rw [← undoTargets_iff]
  constructor
  · exact fun h => h.targets
  · intro htargets
    refine ⟨htargets, fun j spec hspec => ?_⟩
    have hstart : Owes c key t u st.inner.stores [] :=
      { steady := hsteady
        pruned := by simp
        owed := fun j spec hspec => (hsteady j spec hspec).count_nonneg }
    have howes := hstart.run hord hu
    rw [List.nil_append] at howes
    have hreverse : ∀ j, grantedCost j (c.granted key is st).reverse =
        grantedCost j (c.granted key is st) := by
      intro j
      simp [grantedCost, List.map_reverse, List.sum_reverse]
    have hback : Owes c key t u (final (c.callStep key) is st).inner.stores
        (c.granted key is st).reverse :=
      { steady := howes.steady
        pruned := fun j spec hspec g hg => howes.pruned j spec hspec g (List.mem_reverse.mp hg)
        owed := fun j spec hspec => by
          rw [hreverse]
          exact howes.owed j spec hspec }
    have hnodup : ∀ g ∈ (c.granted key is st).reverse, g.2.Nodup := by
      intro g hg
      have hmem : g.2 ∈ (c.granted key is st).map Prod.snd :=
        List.mem_map_of_mem (List.mem_reverse.mp hg)
      rw [granted_snd] at hmem
      obtain ⟨p, -, hp⟩ := List.mem_filterMap.mp hmem
      exact (pushedFrame_spec (pushedFrame_of_granted hp)).1
    rw [storeCount_eq, storeCount_eq, hback.undo htu hnodup htargets j spec hspec, hreverse]

end Composition

/-! ## Two layers -/

/-- Two layers in any mode. -/
def firstAndSecond (mode : CompositionMode) : Composition ℕ where
  mode
  specs := [{ label := "first" }, { label := "second" }]
  specs_ne := by simp
  labels_nodup := by simp
  overflow_two := by simp

/-- New windows of a second, the first with cap one and the second with cap ten. -/
def oneThenTen : ComposedState (StoreBank ℕ) ℕ where
  inner :=
    { stores := fun j => .fixed (if j = 0 then oneASecond else tenASecond) (KeyTable.new 0)
      now := 0 }

/-- Before the window is over the two layers stand still. -/
theorem oneThenTen_steady {u : ℤ} (hu : u < 1000) (c : Composition ℕ) (key j : ℕ)
    (spec : LayerSpec ℕ) :
    ((oneThenTen.inner.stores j).cell (c.targetKey key j spec)).Steady 0 u := by
  refine ⟨?_, by simp⟩
  split <;> simpa [oneASecond, tenASecond] using hu

/-- Calls of cost one at `0`, with the layers that settle first. -/
def callsWith (firsts : List ℕ) : List (Timed ComposedCall) :=
  firsts.map fun first => ⟨0, { options := {}, first := some first }⟩

/-- In `overflow` the second of two increments goes to the burst layer, and both are taken
back from where they went. -/
theorem composed_decrement_pairs_iff_overflow :
    (firstAndSecond .overflow).PairsUp 7 0 (callsWith [0, 0]) oneThenTen :=
  (Composition.composed_decrement_pairs_iff (firstAndSecond .overflow) 7 oneThenTen 0 0 le_rfl
    (fun j spec _ => oneThenTen_steady (by decide) _ 7 j spec) (callsWith [0, 0]) (by decide)
    (by decide)).mpr trivial

/-- In `first-available`, of three increments that the layers `0`, `1` and `1` grant, the
second is taken back from layer `0`.  In a race that layer `0` wins with a blocking answer,
an increment that layer `1` has granted before is taken back from layer `0`. -/
theorem composed_decrement_unpaired :
    (¬ ∀ (c : Composition ℕ) (key : ℕ) (st : ComposedState (StoreBank ℕ) ℕ) (t u : ℤ)
      (is : List (Timed ComposedCall)), c.mode = .firstAvailable → t ≤ u →
      (∀ j spec, c.specs[j]? = some spec →
        ((st.inner.stores j).cell (c.targetKey key j spec)).Steady t u) →
      OrderedFrom Timed.time t is → (∀ i ∈ is, i.time ≤ u) → c.PairsUp key u is st) ∧
    (¬ ∀ (c : Composition ℕ) (key : ℕ) (st : ComposedState (StoreBank ℕ) ℕ) (t u : ℤ)
      (is : List (Timed ComposedCall)), c.mode = .race → t ≤ u →
      (∀ j spec, c.specs[j]? = some spec →
        ((st.inner.stores j).cell (c.targetKey key j spec)).Steady t u) →
      OrderedFrom Timed.time t is → (∀ i ∈ is, i.time ≤ u) → c.PairsUp key u is st) := by
  refine ⟨?_, ?_⟩
  · intro h
    have htargets := (h (firstAndSecond .firstAvailable) 7 oneThenTen 0 0 (callsWith [0, 0, 0]) rfl
      le_rfl (fun j spec _ => oneThenTen_steady (by decide) _ 7 j spec) (by decide)
      (by decide)).targets
    revert htargets
    decide +kernel
  · intro h
    have htargets := (h (firstAndSecond .race) 7 oneThenTen 0 0 (callsWith [0, 1, 0]) rfl
      le_rfl (fun j spec _ => oneThenTen_steady (by decide) _ 7 j spec) (by decide)
      (by decide)).targets
    revert htargets
    decide +kernel

end RatelimitFlex
