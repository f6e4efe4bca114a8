import RatelimitFlex.Analysis.KeyIsolation
import RatelimitFlex.Analysis.ComposedSteps

/-!
# Key isolation of a composed store

A composed store keeps the keys apart when its layers do, in all four modes: its own maps are
by key.  As this is again the property of its layers, compositions nest, and an engine over a
composed store answers a key's requests as if the others never came.
-/

set_option autoImplicit false

namespace RatelimitFlex

open Library

variable {ρ σ κ : Type}

/-! ## Layers -/

/-- A store behind a transformation of the keys. -/
def RateLimitStore.under (st : RateLimitStore σ κ) (f : κ → κ) : RateLimitStore σ κ where
  increment key := st.increment (f key)
  decrement key := st.decrement (f key)
  rollbackDraftForBlockedIncrement :=
    st.rollbackDraftForBlockedIncrement.map fun rollback key => rollback (f key)
  isComposed := st.isComposed

/-- A transformation that maps no other key to that of `k` keeps the keys apart. -/
theorem Isolated.under {k : κ} {P P' : κ → Prop} {R Q : σ → σ → Prop} {st : RateLimitStore σ κ}
    {f : κ → κ} (h : Isolated (f k) P' R Q st) (hP : ∀ key, P key → P' (f key))
    (hne : ∀ key, P key → key ≠ k → f key ≠ f k) : Isolated k P R Q (st.under f) where
  increment := h.increment
  decrement := h.decrement
  rollback g hg := by
    obtain ⟨rollback, hrollback, rfl⟩ := Option.map_eq_some_iff.mp hg
    exact h.rollback rollback hrollback
  incrementOther key hkey hk := h.incrementOther (f key) (hP key hkey) (hne key hkey hk)
  decrementOther key hkey hk := h.decrementOther (f key) (hP key hkey) (hne key hkey hk)
  rollbackOther g hg key hkey hk := by
    obtain ⟨rollback, hrollback, rfl⟩ := Option.map_eq_some_iff.mp hg
    exact h.rollbackOther rollback hrollback (f key) (hP key hkey) (hne key hkey hk)

/-- The layers of a composed store keep the keys apart, the burst layer under its own keys. -/
structure IsolatedLayers (c : ComposedStore σ κ) (k : κ) (P : κ → Prop) (R Q : σ → σ → Prop) :
    Prop where
  layers : c.mode ≠ .overflow →
    ∀ layer ∈ c.layers, Isolated k P R Q (layer.store.under layer.layerKey)
  primary : c.mode = .overflow → Isolated k P R Q (c.primary.store.under c.primary.layerKey)
  burst : c.mode = .overflow → Isolated k P R Q (c.burst.store.under c.overflowBurstKey)
  clock : ∀ s s', Q s s' → c.clock s = c.clock s'
  settledFirst : ∀ s s', Q s s' → c.settledFirst s = c.settledFirst s'

section Layers

variable {k key : κ} {P : κ → Prop} {R Q : σ → σ → Prop} {s s' : σ}
  (options : RateLimitIncrementOptions)

/-- Layers that answer a key from its own state do so together, in whatever states agree on it. -/
theorem Isolated.incrementLayers {layers : List (CompositionLayer σ κ)}
    (h : ∀ layer ∈ layers, Isolated k P R Q (layer.store.under layer.layerKey)) (hs : Q s s') :
    (ComposedStore.incrementLayers k options layers s).1 =
        (ComposedStore.incrementLayers k options layers s').1 ∧
      Q (ComposedStore.incrementLayers k options layers s).2
        (ComposedStore.incrementLayers k options layers s').2 := by
  induction layers generalizing s s' with
  | nil => exact ⟨rfl, hs⟩
  | cons layer rest ih =>
    obtain ⟨hout, hafter⟩ := (h layer List.mem_cons_self).increment
      (mergeIncOpts layer options) s s' hs
    obtain ⟨houts, hend⟩ := ih (fun l hl => h l (List.mem_cons_of_mem layer hl)) hafter
    exact ⟨congrArg₂ List.cons hout houts, hend⟩

/-- Increments of another key leave the state of this one. -/
theorem Isolated.incrementLayersOther {layers : List (CompositionLayer σ κ)}
    (h : ∀ layer ∈ layers, Isolated k P R Q (layer.store.under layer.layerKey)) (hkey : P key)
    (hne : key ≠ k) (hs : R s s') :
    R s (ComposedStore.incrementLayers key options layers s').2 := by
  induction layers generalizing s' with
  | nil => exact hs
  | cons layer rest ih =>
    exact ih (fun l hl => h l (List.mem_cons_of_mem layer hl))
      ((h layer List.mem_cons_self).incrementOther key hkey hne _ s s' hs)

/-- Taking back what was allowed keeps the agreement of two states on the key. -/
theorem Isolated.rollbackAllowed
    {settled : List (CompositionLayer σ κ × Except StoreError RateLimitResult)}
    (h : ∀ p ∈ settled, Isolated k P R Q (p.1.store.under p.1.layerKey)) (hs : Q s s') :
    Q (ComposedStore.rollbackAllowed k options settled s)
      (ComposedStore.rollbackAllowed k options settled s') := by
  induction settled generalizing s s' with
  | nil => exact hs
  | cons p rest ih =>
    refine ih (fun q hq => h q (List.mem_cons_of_mem p hq)) ?_
    split
    · exact (h p List.mem_cons_self).decrement _ s s' hs
    · exact hs

/-- Taking it back for another key leaves the state of this one. -/
theorem Isolated.rollbackAllowedOther
    {settled : List (CompositionLayer σ κ × Except StoreError RateLimitResult)}
    (h : ∀ p ∈ settled, Isolated k P R Q (p.1.store.under p.1.layerKey)) (hkey : P key)
    (hne : key ≠ k) (hs : R s s') :
    R s (ComposedStore.rollbackAllowed key options settled s') := by
  induction settled generalizing s' with
  | nil => exact hs
  | cons p rest ih =>
    refine ih (fun q hq => h q (List.mem_cons_of_mem p hq)) ?_
    split
    · exact (h p List.mem_cons_self).decrementOther key hkey hne _ s s' hs
    · exact hs

variable {c : ComposedStore σ κ}

/-- Trying layer after layer gives the same answers and the same winner in states that agree. -/
theorem Isolated.tryLayers (hclock : ∀ s s', Q s s' → c.clock s = c.clock s')
    {layers : List (CompositionLayer σ κ)}
    (h : ∀ layer ∈ layers, Isolated k P R Q (layer.store.under layer.layerKey)) (i : ℕ)
    (tried : ComposedStore.Tried) (hs : Q s s') :
    (c.tryLayers k options i layers tried s).1 = (c.tryLayers k options i layers tried s').1 ∧
      Q (c.tryLayers k options i layers tried s).2 (c.tryLayers k options i layers tried s').2 := by
  induction layers generalizing i tried s s' with
  | nil => exact ⟨rfl, hs⟩
  | cons layer rest ih =>
    have hrest := fun l hl => h l (List.mem_cons_of_mem layer hl)
    have hinc := (h layer List.mem_cons_self).increment (mergeIncOpts layer options) s s' hs
    simp only [RateLimitStore.under] at hinc
    rw [ComposedStore.tryLayers, ComposedStore.tryLayers]
    revert hinc
    generalize layer.store.increment (layer.layerKey k) _ s = r
    generalize layer.store.increment (layer.layerKey k) _ s' = r'
    obtain ⟨a, s₁⟩ := r
    obtain ⟨a', s₁'⟩ := r'
    rintro ⟨hout, hafter⟩
    obtain rfl : a = a' := hout
    cases a with
    | error e =>
      dsimp only
      rw [hclock s₁ s₁' hafter]
      exact ih hrest (i + 1) _ hafter
    | ok r =>
      dsimp only
      split
      · exact ⟨rfl, hafter⟩
      · exact ih hrest (i + 1) _ hafter

/-- Trying them for another key leaves the state of this one. -/
theorem Isolated.tryLayersOther {layers : List (CompositionLayer σ κ)}
    (h : ∀ layer ∈ layers, Isolated k P R Q (layer.store.under layer.layerKey)) (hkey : P key)
    (hne : key ≠ k) (i : ℕ) (tried : ComposedStore.Tried) (hs : R s s') :
    R s (c.tryLayers key options i layers tried s').2 := by
  induction layers generalizing i tried s' with
  | nil => exact hs
  | cons layer rest ih =>
    have hrest := fun l hl => h l (List.mem_cons_of_mem layer hl)
    have hafter := (h layer List.mem_cons_self).incrementOther key hkey hne
      (mergeIncOpts layer options) s s' hs
    simp only [RateLimitStore.under] at hafter
    rw [ComposedStore.tryLayers]
    revert hafter
    generalize layer.store.increment (layer.layerKey key) _ s' = r'
    obtain ⟨a', s₁'⟩ := r'
    intro hafter
    cases a' with
    | error e => exact ih hrest (i + 1) _ hafter
    | ok r =>
      dsimp only
      split
      · exact hafter
      · exact ih hrest (i + 1) _ hafter

end Layers

/-! ## The composed store -/

/-- The layers' states are related, and what the composed store remembers of `k` is the same. -/
structure SameFrames (k : κ) (R : σ → σ → Prop) (st st' : ComposedState σ κ) : Prop where
  inner : R st.inner st'.inner
  decrementStacks : st.decrementStacks k = st'.decrementStacks k
  firstAvailableWinner : st.firstAvailableWinner k = st'.firstAvailableWinner k
  overflowRoute : st.overflowRoute k = st'.overflowRoute k
  overflowRouteExpiryMs : st.overflowRouteExpiryMs k = st'.overflowRouteExpiryMs k

/-- What `overflow` does with the frame it pops: the layer it names gives back. -/
def ComposedStore.decrementRouted (c : ComposedStore σ κ) (key : κ)
    (options : RateLimitDecrementOptions) (frame : Option (List ℕ)) (st : ComposedState σ κ) :
    ComposedState σ κ :=
  match frame with
  | some (index :: _) =>
    match c.layers[index]? with
    | some layer =>
      { st with inner := layer.store.decrement (c.overflowStorageKey index key) options st.inner }
    | none => st
  | _ => st

section Layers

variable {c : ComposedStore σ κ} {k key : κ} {P : κ → Prop} {R Q : σ → σ → Prop}
  {st st' : ComposedState σ κ}

/-- The stacks and routes stay as they are when only the stores change. -/
theorem SameFrames.withInner (h : SameFrames k R st st') {S : σ → σ → Prop} {s s' : σ}
    (hs : S s s') :
    SameFrames k S { st with inner := s } { st' with inner := s' } :=
  ⟨hs, h.decrementStacks, h.firstAvailableWinner, h.overflowRoute, h.overflowRouteExpiryMs⟩

/-- Each of the layers that have settled is isolated. -/
theorem isolated_zip (h : IsolatedLayers c k P R Q) (hmode : c.mode ≠ .overflow)
    (settled : List (Except StoreError RateLimitResult)) :
    ∀ p ∈ c.layers.zip settled, Isolated k P R Q (p.1.store.under p.1.layerKey) :=
  fun p hp => h.layers hmode p.1 (List.of_mem_zip (a := p.1) (b := p.2) hp).1

namespace IsolatedLayers

variable (h : IsolatedLayers c k P R Q)
include h

/-- The layer that a frame of `overflow` names, under the key it stores. -/
theorem overflowLayer (hmode : c.mode = .overflow) {index : ℕ} {layer : CompositionLayer σ κ}
    (hlayer : c.layers[index]? = some layer) :
    Isolated k P R Q (layer.store.under (c.overflowStorageKey index)) := by
  obtain ⟨first, second, hlayers⟩ := List.length_eq_two.mp (c.overflow_two hmode)
  match index with
  | 0 =>
    have hkey : c.overflowStorageKey 0 = c.primary.layerKey :=
      funext fun key => if_neg Nat.zero_ne_one
    have hfirst : c.primary = layer := by
      simp only [ComposedStore.primary, hlayers, List.head_cons]
      simpa [hlayers] using hlayer
    rw [hkey, ← hfirst]
    exact h.primary hmode
  | 1 =>
    have hkey : c.overflowStorageKey 1 = c.overflowBurstKey := funext fun key => if_pos rfl
    have hsecond : c.burst = layer := by
      simp only [ComposedStore.burst, hlayers, List.getLast_cons_cons, List.getLast_singleton]
      simpa [hlayers] using hlayer
    rw [hkey, ← hsecond]
    exact h.burst hmode
  | index + 2 =>
    rw [hlayers] at hlayer
    exact nomatch hlayer

/-- A decrement of one layer keeps two states alike. -/
theorem decrementLayer (hmode : c.mode ≠ .overflow) (options : RateLimitDecrementOptions)
    (index : ℕ) (hst : SameFrames k Q st st') :
    SameFrames k Q (c.decrementLayer k options index st)
      (c.decrementLayer k options index st') := by
  unfold ComposedStore.decrementLayer
  split
  · next layer hlayer =>
    exact hst.withInner ((h.layers hmode layer (List.mem_of_getElem? hlayer)).decrement options _ _
      hst.inner)
  · exact hst

/-- A decrement of one layer for another key leaves them alike. -/
theorem decrementLayerOther (hmode : c.mode ≠ .overflow) (hkey : P key) (hne : key ≠ k)
    (options : RateLimitDecrementOptions) (index : ℕ) (hst : SameFrames k R st st') :
    SameFrames k R st (c.decrementLayer key options index st') := by
  unfold ComposedStore.decrementLayer
  split
  · next layer hlayer =>
    exact hst.withInner ((h.layers hmode layer (List.mem_of_getElem? hlayer)).decrementOther key
      hkey hne options _ _ hst.inner)
  · exact hst

/-- A decrement of a whole frame keeps two states alike. -/
theorem decrementFrame (hmode : c.mode ≠ .overflow) (options : RateLimitDecrementOptions)
    (frame : List ℕ) (hst : SameFrames k Q st st') :
    SameFrames k Q (frame.foldl (fun st index => c.decrementLayer k options index st) st)
      (frame.foldl (fun st index => c.decrementLayer k options index st) st') := by
  induction frame generalizing st st' with
  | nil => exact hst
  | cons index frame ih => exact ih (h.decrementLayer hmode options index hst)

/-- A decrement of a whole frame of another key leaves them alike. -/
theorem decrementFrameOther (hmode : c.mode ≠ .overflow) (hkey : P key) (hne : key ≠ k)
    (options : RateLimitDecrementOptions) (frame : List ℕ) (hst : SameFrames k R st st') :
    SameFrames k R st
      (frame.foldl (fun st index => c.decrementLayer key options index st) st') := by
  induction frame generalizing st' with
  | nil => exact hst
  | cons index frame ih => exact ih (h.decrementLayerOther hmode hkey hne options index hst)

/-- A decrement by the route of an overflow keeps two states alike. -/
theorem decrementRouted (hmode : c.mode = .overflow) (options : RateLimitDecrementOptions)
    (frame : Option (List ℕ)) (hst : SameFrames k Q st st') :
    SameFrames k Q (c.decrementRouted k options frame st)
      (c.decrementRouted k options frame st') := by
  unfold ComposedStore.decrementRouted
  split
  · next index _ =>
    split
    · next layer hlayer =>
      exact hst.withInner ((h.overflowLayer hmode hlayer).decrement options _ _ hst.inner)
    · exact hst
  · exact hst

/-- A decrement by the route of another key leaves them alike. -/
theorem decrementRoutedOther (hmode : c.mode = .overflow) (hkey : P key) (hne : key ≠ k)
    (options : RateLimitDecrementOptions) (frame : Option (List ℕ)) (hst : SameFrames k R st st') :
    SameFrames k R st (c.decrementRouted key options frame st') := by
  unfold ComposedStore.decrementRouted
  split
  · next index _ =>
    split
    · next layer hlayer =>
      exact hst.withInner ((h.overflowLayer hmode hlayer).decrementOther key hkey hne options _ _
        hst.inner)
    · exact hst
  · exact hst

/-- The rollback of a blocked increment in draft mode. -/
theorem rollbackDraftForBlockedIncrement (result : RateLimitResult)
    (options : RateLimitDecrementOptions) (hst : SameFrames k Q st st') :
    SameFrames k Q (c.rollbackDraftForBlockedIncrement k result options st)
      (c.rollbackDraftForBlockedIncrement k result options st') := by
  unfold ComposedStore.rollbackDraftForBlockedIncrement
  split
  · next hmode =>
    have hlayers := h.layers (by rw [hmode]; decide)
    dsimp only
    generalize c.layers = layers at hlayers
    induction layers generalizing st st' with
    | nil => exact hst
    | cons layer rest ih =>
      refine ih ?_ fun l hl => hlayers l (List.mem_cons_of_mem layer hl)
      dsimp only
      split
      · split
        · exact hst.withInner ((hlayers layer List.mem_cons_self).decrement _ _ _ hst.inner)
        · exact hst
      · exact hst
  · exact hst

/-- Taking a drafted charge of another key back leaves them alike. -/
theorem rollbackDraftForBlockedIncrementOther (hkey : P key) (hne : key ≠ k)
    (result : RateLimitResult) (options : RateLimitDecrementOptions) (hst : SameFrames k R st st') :
    SameFrames k R st (c.rollbackDraftForBlockedIncrement key result options st') := by
  unfold ComposedStore.rollbackDraftForBlockedIncrement
  split
  · next hmode =>
    have hlayers := h.layers (by rw [hmode]; decide)
    dsimp only
    generalize c.layers = layers at hlayers
    induction layers generalizing st' with
    | nil => exact hst
    | cons layer rest ih =>
      refine ih ?_ fun l hl => hlayers l (List.mem_cons_of_mem layer hl)
      dsimp only
      split
      · split
        · exact hst.withInner ((hlayers layer List.mem_cons_self).decrementOther key hkey hne _ _ _
            hst.inner)
        · exact hst
      · exact hst
  · exact hst

end IsolatedLayers

end Layers

namespace SameFrames

variable [DecidableEq κ] {k key : κ} {R : σ → σ → Prop} {st st' : ComposedState σ κ}

/-- Pushing the same frame keeps the stacks of the key alike. -/
theorem pushFrame (h : SameFrames k R st st') (frame : List ℕ) :
    SameFrames k R (ComposedStore.pushFrame k frame st) (ComposedStore.pushFrame k frame st') := by
  refine ⟨h.inner, ?_, h.firstAvailableWinner, h.overflowRoute, h.overflowRouteExpiryMs⟩
  simp only [ComposedStore.pushFrame, Function.update_self, h.decrementStacks]

/-- A frame of another key is not on its stack. -/
theorem pushFrameOther (h : SameFrames k R st st') (hne : key ≠ k) (frame : List ℕ) :
    SameFrames k R st (ComposedStore.pushFrame key frame st') := by
  refine ⟨h.inner, ?_, h.firstAvailableWinner, h.overflowRoute, h.overflowRouteExpiryMs⟩
  simp only [ComposedStore.pushFrame, Function.update_of_ne hne.symm, h.decrementStacks]

/-- Popping gives the same frame and leaves the stacks alike. -/
theorem popFrame (h : SameFrames k R st st') :
    (ComposedStore.popFrame k st).1 = (ComposedStore.popFrame k st').1 ∧
      SameFrames k R (ComposedStore.popFrame k st).2 (ComposedStore.popFrame k st').2 := by
  refine ⟨?_, h.inner, ?_, h.firstAvailableWinner, h.overflowRoute, h.overflowRouteExpiryMs⟩
  · simp only [ComposedStore.popFrame, h.decrementStacks]
  · simp only [ComposedStore.popFrame, Function.update_self, h.decrementStacks]

/-- Popping a frame of another key leaves the stack of this one. -/
theorem popFrameOther (h : SameFrames k R st st') (hne : key ≠ k) :
    SameFrames k R st (ComposedStore.popFrame key st').2 := by
  refine ⟨h.inner, ?_, h.firstAvailableWinner, h.overflowRoute, h.overflowRouteExpiryMs⟩
  simp only [ComposedStore.popFrame, Function.update_of_ne hne.symm, h.decrementStacks]

/-- Setting the same winner keeps two states alike. -/
theorem setWinner (h : SameFrames k R st st') (winner : Option ℕ) :
    SameFrames k R
      { st with firstAvailableWinner := Function.update st.firstAvailableWinner k winner }
      { st' with firstAvailableWinner := Function.update st'.firstAvailableWinner k winner } := by
  refine ⟨h.inner, h.decrementStacks, ?_, h.overflowRoute, h.overflowRouteExpiryMs⟩
  simp only [Function.update_self]

/-- The winner of another key is not the winner of this one. -/
theorem setWinnerOther (h : SameFrames k R st st') (hne : key ≠ k) (winner : Option ℕ) :
    SameFrames k R st
      { st' with firstAvailableWinner := Function.update st'.firstAvailableWinner key winner } := by
  refine ⟨h.inner, h.decrementStacks, ?_, h.overflowRoute, h.overflowRouteExpiryMs⟩
  simp only [Function.update_of_ne hne.symm, h.firstAvailableWinner]

/-- Setting the same route keeps two states alike. -/
theorem setRoute (h : SameFrames k R st st') (route : OverflowRoute) (expiryMs : ℤ) :
    SameFrames k R (ComposedStore.setOverflowRoute k route expiryMs st)
      (ComposedStore.setOverflowRoute k route expiryMs st') := by
  refine ⟨h.inner, h.decrementStacks, h.firstAvailableWinner, ?_, ?_⟩
  · simp only [ComposedStore.setOverflowRoute, Function.update_self]
  · simp only [ComposedStore.setOverflowRoute, Function.update_self]

/-- The route of another key is not the route of this one. -/
theorem setRouteOther (h : SameFrames k R st st') (hne : key ≠ k) (route : OverflowRoute)
    (expiryMs : ℤ) : SameFrames k R st (ComposedStore.setOverflowRoute key route expiryMs st') := by
  refine ⟨h.inner, h.decrementStacks, h.firstAvailableWinner, ?_, ?_⟩
  · simp only [ComposedStore.setOverflowRoute, Function.update_of_ne hne.symm, h.overflowRoute]
  · simp only [ComposedStore.setOverflowRoute, Function.update_of_ne hne.symm,
      h.overflowRouteExpiryMs]

/-- Clearing the route of the key keeps two states alike. -/
theorem clearRoute (h : SameFrames k R st st') :
    SameFrames k R (ComposedStore.clearOverflowRouteState k st)
      (ComposedStore.clearOverflowRouteState k st') := by
  refine ⟨h.inner, h.decrementStacks, h.firstAvailableWinner, ?_, ?_⟩
  · simp only [ComposedStore.clearOverflowRouteState, Function.update_self]
  · simp only [ComposedStore.clearOverflowRouteState, Function.update_self]

/-- Clearing the route of another key leaves them alike. -/
theorem clearRouteOther (h : SameFrames k R st st') (hne : key ≠ k) :
    SameFrames k R st (ComposedStore.clearOverflowRouteState key st') := by
  refine ⟨h.inner, h.decrementStacks, h.firstAvailableWinner, ?_, ?_⟩
  · simp only [ComposedStore.clearOverflowRouteState, Function.update_of_ne hne.symm,
      h.overflowRoute]
  · simp only [ComposedStore.clearOverflowRouteState, Function.update_of_ne hne.symm,
      h.overflowRouteExpiryMs]

variable {c : ComposedStore σ κ}

/-- A route expires in both states or in neither, as their clocks agree. -/
theorem sweepRoute (h : SameFrames k R st st') (hclock : c.clock st.inner = c.clock st'.inner) :
    SameFrames k R (c.sweepOverflowRouteIfExpired k st) (c.sweepOverflowRouteIfExpired k st') := by
  unfold ComposedStore.sweepOverflowRouteIfExpired
  rw [← h.overflowRouteExpiryMs, ← hclock]
  cases st.overflowRouteExpiryMs k with
  | none => exact h
  | some exp =>
    dsimp only
    split
    · exact h.clearRoute
    · exact h

/-- A route of another key that expires is not the route of this one. -/
theorem sweepRouteOther (h : SameFrames k R st st') (hne : key ≠ k) :
    SameFrames k R st (c.sweepOverflowRouteIfExpired key st') := by
  unfold ComposedStore.sweepOverflowRouteIfExpired
  split
  · split
    · exact h.clearRouteOther hne
    · exact h
  · exact h

end SameFrames

section Modes

variable [DecidableEq κ] {c : ComposedStore σ κ} {k key : κ} {P : κ → Prop} {R Q : σ → σ → Prop}
  {st st' : ComposedState σ κ} (options : RateLimitIncrementOptions)

namespace IsolatedLayers

variable (h : IsolatedLayers c k P R Q)
include h

/-- Mode `all`. -/
theorem incrementAll (hmode : c.mode ≠ .overflow) (hst : SameFrames k Q st st') :
    (c.incrementAll k options st).1 = (c.incrementAll k options st').1 ∧
      SameFrames k Q (c.incrementAll k options st).2 (c.incrementAll k options st').2 := by
  obtain ⟨hout, hafter⟩ := Isolated.incrementLayers options (h.layers hmode) hst.inner
  simp only [ComposedStore.incrementAll]
  revert hout hafter
  generalize ComposedStore.incrementLayers k options c.layers st.inner = r
  generalize ComposedStore.incrementLayers k options c.layers st'.inner = r'
  obtain ⟨settled, s⟩ := r
  obtain ⟨settled', s'⟩ := r'
  intro hout hafter
  obtain rfl : settled = settled' := hout
  dsimp only at hafter ⊢
  rw [h.clock s s' hafter]
  split
  · refine ⟨rfl, hst.withInner ?_⟩
    split
    · exact Isolated.rollbackAllowed options (isolated_zip h hmode settled) hafter
    · exact hafter
  · exact ⟨rfl, (hst.withInner hafter).pushFrame _⟩

/-- An increment of another key in all layers leaves the state of this one. -/
theorem incrementAllOther (hmode : c.mode ≠ .overflow) (hkey : P key) (hne : key ≠ k)
    (hst : SameFrames k R st st') :
    SameFrames k R st (c.incrementAll key options st').2 := by
  have hafter := Isolated.incrementLayersOther options (h.layers hmode) hkey hne
    hst.inner
  simp only [ComposedStore.incrementAll]
  revert hafter
  generalize ComposedStore.incrementLayers key options c.layers st'.inner = r'
  obtain ⟨settled, s'⟩ := r'
  intro hafter
  dsimp only at hafter ⊢
  split
  · refine hst.withInner ?_
    split
    · exact Isolated.rollbackAllowedOther options (isolated_zip h hmode settled) hkey hne hafter
    · exact hafter
  · exact (hst.withInner hafter).pushFrameOther hne _

/-- Mode `overflow`. -/
theorem incrementOverflow (hmode : c.mode = .overflow) (hst : SameFrames k Q st st') :
    (c.incrementOverflow k options st).1 = (c.incrementOverflow k options st').1 ∧
      SameFrames k Q (c.incrementOverflow k options st).2
        (c.incrementOverflow k options st').2 := by
  have hswept := hst.sweepRoute (c := c) (h.clock _ _ hst.inner)
  simp only [ComposedStore.incrementOverflow]
  revert hswept
  generalize c.sweepOverflowRouteIfExpired k st = st
  generalize c.sweepOverflowRouteIfExpired k st' = st'
  intro hswept
  have hprimary := (h.primary hmode).increment (mergeIncOpts c.primary options) _ _ hswept.inner
  simp only [RateLimitStore.under] at hprimary
  revert hprimary
  generalize c.primary.store.increment (c.primary.layerKey k) _ st.inner = r
  generalize c.primary.store.increment (c.primary.layerKey k) _ st'.inner = r'
  obtain ⟨a, s⟩ := r
  obtain ⟨a', s'⟩ := r'
  rintro ⟨hout, hafter⟩
  obtain rfl : a = a' := hout
  cases a with
  | error e => exact ⟨rfl, hswept.withInner hafter⟩
  | ok pr =>
    dsimp only at hafter ⊢
    split
    · exact ⟨rfl, ((hswept.withInner hafter).pushFrame _).setRoute _ _⟩
    · have hburst := (h.burst hmode).increment (mergeIncOpts c.burst options) s s' hafter
      simp only [RateLimitStore.under] at hburst
      revert hburst
      generalize c.burst.store.increment (c.overflowBurstKey k) _ s = r
      generalize c.burst.store.increment (c.overflowBurstKey k) _ s' = r'
      obtain ⟨b, t⟩ := r
      obtain ⟨b', t'⟩ := r'
      rintro ⟨hout', hafter'⟩
      obtain rfl : b = b' := hout'
      cases b with
      | error e => exact ⟨rfl, hswept.withInner hafter'⟩
      | ok br =>
        dsimp only at hafter' ⊢
        split
        · exact ⟨rfl, ((hswept.withInner hafter').pushFrame _).setRoute _ _⟩
        · exact ⟨rfl, (hswept.withInner hafter').setRoute _ _⟩

/-- So does an overflow for another key. -/
theorem incrementOverflowOther (hmode : c.mode = .overflow) (hkey : P key) (hne : key ≠ k)
    (hst : SameFrames k R st st') :
    SameFrames k R st (c.incrementOverflow key options st').2 := by
  have hswept := hst.sweepRouteOther (c := c) hne
  simp only [ComposedStore.incrementOverflow]
  revert hswept
  generalize c.sweepOverflowRouteIfExpired key st' = st'
  intro hswept
  have hafter := (h.primary hmode).incrementOther key hkey hne (mergeIncOpts c.primary options) _ _
    hswept.inner
  simp only [RateLimitStore.under] at hafter
  revert hafter
  generalize c.primary.store.increment (c.primary.layerKey key) _ st'.inner = r'
  obtain ⟨a, s'⟩ := r'
  intro hafter
  cases a with
  | error e => exact hswept.withInner hafter
  | ok pr =>
    dsimp only at hafter ⊢
    split
    · exact ((hswept.withInner hafter).pushFrameOther hne _).setRouteOther hne _ _
    · have hafter' := (h.burst hmode).incrementOther key hkey hne (mergeIncOpts c.burst options) _
        s' hafter
      simp only [RateLimitStore.under] at hafter'
      revert hafter'
      generalize c.burst.store.increment (c.overflowBurstKey key) _ s' = r'
      obtain ⟨b, t'⟩ := r'
      intro hafter'
      cases b with
      | error e => exact hswept.withInner hafter'
      | ok br =>
        dsimp only at hafter' ⊢
        split
        · exact ((hswept.withInner hafter').pushFrameOther hne _).setRouteOther hne _ _
        · exact (hswept.withInner hafter').setRouteOther hne _ _

/-- Mode `first-available`. -/
theorem incrementFirstAvailable (hmode : c.mode ≠ .overflow) (hst : SameFrames k Q st st') :
    (c.incrementFirstAvailable k options st).1 = (c.incrementFirstAvailable k options st').1 ∧
      SameFrames k Q (c.incrementFirstAvailable k options st).2
        (c.incrementFirstAvailable k options st').2 := by
  have htry := Isolated.tryLayers options h.clock (h.layers hmode) 0
    ⟨[], c.primary.label, none⟩ hst.inner
  simp only [ComposedStore.incrementFirstAvailable]
  revert htry
  generalize c.tryLayers k options 0 c.layers _ st.inner = r
  generalize c.tryLayers k options 0 c.layers _ st'.inner = r'
  obtain ⟨⟨won, tried⟩, s⟩ := r
  obtain ⟨⟨won', tried'⟩, s'⟩ := r'
  rintro ⟨hout, hafter⟩
  obtain ⟨rfl, rfl⟩ := Prod.mk.inj hout
  cases won with
  | some w => exact ⟨rfl, ((hst.withInner hafter).setWinner _).pushFrame _⟩
  | none =>
    dsimp only at hafter ⊢
    rw [h.clock s s' hafter]
    exact ⟨rfl, hst.withInner hafter⟩

/-- So does a first available increment of another key. -/
theorem incrementFirstAvailableOther (hmode : c.mode ≠ .overflow) (hkey : P key) (hne : key ≠ k)
    (hst : SameFrames k R st st') :
    SameFrames k R st (c.incrementFirstAvailable key options st').2 := by
  have hafter := Isolated.tryLayersOther options (c := c) (h.layers hmode) hkey hne 0
    ⟨[], c.primary.label, none⟩ hst.inner
  simp only [ComposedStore.incrementFirstAvailable]
  revert hafter
  generalize c.tryLayers key options 0 c.layers _ st'.inner = r'
  obtain ⟨⟨won, tried⟩, s'⟩ := r'
  intro hafter
  cases won with
  | some w => exact ((hst.withInner hafter).setWinnerOther hne _).pushFrameOther hne _
  | none => exact hst.withInner hafter

/-- Mode `race`. -/
theorem incrementRace (hmode : c.mode ≠ .overflow) (hst : SameFrames k Q st st') :
    (c.incrementRace k options st).1 = (c.incrementRace k options st').1 ∧
      SameFrames k Q (c.incrementRace k options st).2 (c.incrementRace k options st').2 := by
  obtain ⟨hout, hafter⟩ := Isolated.incrementLayers options (h.layers hmode) hst.inner
  simp only [ComposedStore.incrementRace, h.settledFirst _ _ hst.inner]
  revert hout hafter
  generalize ComposedStore.incrementLayers k options c.layers st.inner = r
  generalize ComposedStore.incrementLayers k options c.layers st'.inner = r'
  obtain ⟨settled, s⟩ := r
  obtain ⟨settled', s'⟩ := r'
  intro hout hafter
  obtain rfl : settled = settled' := hout
  dsimp only at hafter ⊢
  rw [h.clock s s' hafter]
  cases c.settledFirst st'.inner with
  | none => exact ⟨rfl, hst.withInner hafter⟩
  | some first =>
    dsimp only
    cases ComposedStore.raceWinner settled first with
    | none => exact ⟨rfl, hst.withInner hafter⟩
    | some w =>
      refine ⟨rfl, (hst.withInner ?_).pushFrame _⟩
      exact Isolated.rollbackAllowed options
        (fun p hp => isolated_zip h hmode settled p (List.mem_of_mem_eraseIdx hp)) hafter

/-- So does a race for another key. -/
theorem incrementRaceOther (hmode : c.mode ≠ .overflow) (hkey : P key) (hne : key ≠ k)
    (hst : SameFrames k R st st') :
    SameFrames k R st (c.incrementRace key options st').2 := by
  have hafter := Isolated.incrementLayersOther options (h.layers hmode) hkey hne
    hst.inner
  simp only [ComposedStore.incrementRace]
  revert hafter
  generalize ComposedStore.incrementLayers key options c.layers st'.inner = r'
  obtain ⟨settled, s'⟩ := r'
  intro hafter
  dsimp only at hafter ⊢
  cases c.settledFirst st'.inner with
  | none => exact hst.withInner hafter
  | some first =>
    dsimp only
    cases ComposedStore.raceWinner settled first with
    | none => exact hst.withInner hafter
    | some w =>
      refine (hst.withInner ?_).pushFrameOther hne _
      exact Isolated.rollbackAllowedOther options
        (fun p hp => isolated_zip h hmode settled p (List.mem_of_mem_eraseIdx hp)) hkey hne hafter

end IsolatedLayers

end Modes

section Decrements

/-- A decrement in overflow mode pops a frame and follows the route. -/
theorem ComposedStore.decrement_overflow [DecidableEq κ] {c : ComposedStore σ κ}
    (hmode : c.mode = .overflow) (key : κ) (options : RateLimitDecrementOptions)
    (st : ComposedState σ κ) :
    c.decrement key options st =
      let after := c.decrementRouted key options (popFrame key st).1 (popFrame key st).2
      if after.decrementStacks key = [] then clearOverflowRouteState key after else after := by
  simp only [decrement, hmode]
  rfl

variable [DecidableEq κ] {c : ComposedStore σ κ} {k key : κ} {P : κ → Prop} {R Q : σ → σ → Prop}
  {st st' : ComposedState σ κ}

namespace IsolatedLayers

variable (h : IsolatedLayers c k P R Q)
include h

/-- A frame that `all` or `race` pops. -/
theorem decrementPopped (hmode : c.mode ≠ .overflow) (options : RateLimitDecrementOptions)
    (hst : SameFrames k Q st st') :
    SameFrames k Q
      (match ComposedStore.popFrame k st with
        | (none, st) => st
        | (some frame, st) => frame.foldl (fun st index => c.decrementLayer k options index st) st)
      (match ComposedStore.popFrame k st' with
        | (none, st) => st
        | (some frame, st) =>
          frame.foldl (fun st index => c.decrementLayer k options index st) st) := by
  obtain ⟨hframe, hpopped⟩ := hst.popFrame
  revert hframe hpopped
  generalize ComposedStore.popFrame k st = r
  generalize ComposedStore.popFrame k st' = r'
  obtain ⟨frame, after⟩ := r
  obtain ⟨frame', after'⟩ := r'
  intro hframe hpopped
  obtain rfl : frame = frame' := hframe
  cases frame with
  | none => exact hpopped
  | some frame => exact h.decrementFrame hmode options frame hpopped

/-- A decrement of the popped frame of another key leaves the state of this one. -/
theorem decrementPoppedOther (hmode : c.mode ≠ .overflow) (hkey : P key) (hne : key ≠ k)
    (options : RateLimitDecrementOptions) (hst : SameFrames k R st st') :
    SameFrames k R st
      (match ComposedStore.popFrame key st' with
        | (none, st) => st
        | (some frame, st) =>
          frame.foldl (fun st index => c.decrementLayer key options index st) st) := by
  have hpopped := hst.popFrameOther hne
  revert hpopped
  generalize ComposedStore.popFrame key st' = r'
  obtain ⟨frame, after'⟩ := r'
  intro hpopped
  cases frame with
  | none => exact hpopped
  | some frame => exact h.decrementFrameOther hmode hkey hne options frame hpopped

/-- A decrement, which follows what is remembered of its key. -/
theorem decrement (options : RateLimitDecrementOptions) (hst : SameFrames k Q st st') :
    SameFrames k Q (c.decrement k options st) (c.decrement k options st') := by
  cases hmode : c.mode with
  | firstAvailable =>
    simp only [ComposedStore.decrement, hmode]
    rw [hst.firstAvailableWinner]
    exact h.decrementLayer (by rw [hmode]; decide) options _ (hst.setWinner none)
  | overflow =>
    obtain ⟨hframe, hpopped⟩ := hst.popFrame
    have hrouted := h.decrementRouted hmode options (ComposedStore.popFrame k st).1 hpopped
    rw [ComposedStore.decrement_overflow hmode, ComposedStore.decrement_overflow hmode, ← hframe]
    dsimp only
    rw [hrouted.decrementStacks]
    split
    · exact hrouted.clearRoute
    · exact hrouted
  | all =>
    simp only [ComposedStore.decrement, hmode]
    exact h.decrementPopped (by rw [hmode]; decide) options hst
  | race =>
    simp only [ComposedStore.decrement, hmode]
    exact h.decrementPopped (by rw [hmode]; decide) options hst

/-- In all four modes a decrement of another key leaves the state of this one. -/
theorem decrementOther (hkey : P key) (hne : key ≠ k) (options : RateLimitDecrementOptions)
    (hst : SameFrames k R st st') : SameFrames k R st (c.decrement key options st') := by
  cases hmode : c.mode with
  | firstAvailable =>
    simp only [ComposedStore.decrement, hmode]
    exact h.decrementLayerOther (by rw [hmode]; decide) hkey hne options _
      (hst.setWinnerOther hne none)
  | overflow =>
    have hrouted := h.decrementRoutedOther hmode hkey hne options
      (ComposedStore.popFrame key st').1 (hst.popFrameOther hne)
    rw [ComposedStore.decrement_overflow hmode]
    dsimp only
    split
    · exact hrouted.clearRouteOther hne
    · exact hrouted
  | all =>
    simp only [ComposedStore.decrement, hmode]
    exact h.decrementPoppedOther (by rw [hmode]; decide) hkey hne options hst
  | race =>
    simp only [ComposedStore.decrement, hmode]
    exact h.decrementPoppedOther (by rw [hmode]; decide) hkey hne options hst

/-- **A composed store keeps the keys apart when its layers do.** -/
theorem toStore : Isolated k P (SameFrames k R) (SameFrames k Q) c.toStore where
  increment options st st' hst := by
    simp only [ComposedStore.toStore, ComposedStore.increment]
    cases hmode : c.mode with
    | all =>
      obtain ⟨hout, hafter⟩ := h.incrementAll options (by rw [hmode]; decide) hst
      exact ⟨congrArg Except.ok hout, hafter⟩
    | overflow => exact h.incrementOverflow options hmode hst
    | firstAvailable =>
      obtain ⟨hout, hafter⟩ := h.incrementFirstAvailable options (by rw [hmode]; decide) hst
      exact ⟨congrArg Except.ok hout, hafter⟩
    | race =>
      obtain ⟨hout, hafter⟩ := h.incrementRace options (by rw [hmode]; decide) hst
      exact ⟨congrArg Except.ok hout, hafter⟩
  decrement options _ _ hst := h.decrement options hst
  rollback f hf result options st st' hst := by
    obtain rfl := Option.some.inj hf
    exact ⟨rfl, h.rollbackDraftForBlockedIncrement result options hst⟩
  incrementOther key hkey hne options st st' hst := by
    simp only [ComposedStore.toStore, ComposedStore.increment]
    cases hmode : c.mode with
    | all => exact h.incrementAllOther options (by rw [hmode]; decide) hkey hne hst
    | overflow => exact h.incrementOverflowOther options hmode hkey hne hst
    | firstAvailable =>
      exact h.incrementFirstAvailableOther options (by rw [hmode]; decide) hkey hne hst
    | race => exact h.incrementRaceOther options (by rw [hmode]; decide) hkey hne hst
  decrementOther key hkey hne options _ _ hst := h.decrementOther hkey hne options hst
  rollbackOther f hf key hkey hne result options st st' hst := by
    obtain rfl := Option.some.inj hf
    exact h.rollbackDraftForBlockedIncrementOther hkey hne result options hst

end IsolatedLayers

end Decrements

/-! ## Compositions over a bank -/

/-- A composed store's layers as a request finds them. -/
def ComposedState.enter [DecidableEq κ] (time : ℤ) (a : BankSurroundings)
    (st : ComposedState (StoreBank κ) κ) : ComposedState (StoreBank κ) κ :=
  { st with inner := st.inner.enter time a }

section Bank

variable [DecidableEq κ]

/-- A layer over a bank, under the keys it stores. -/
theorem isolated_layer {U : ℕ → List κ} {keys : ℕ → κ} {k : κ} {P : κ → Prop} {j : ℕ} {f : κ → κ}
    (hself : f k = keys j) (hmem : keys j ∈ U j) (hP : ∀ key, P key → f key ∈ U j)
    (hne : ∀ key, P key → key ≠ k → f key ≠ f k) :
    Isolated k P (SameCells U keys) (SameWithin U keys) ((bankStore j).under f) := by
  have hbank := isolated_bankStore hmem
  rw [← hself] at hbank
  exact hbank.under hP hne

/-- The cells of the stores and the stacks are what surrounds a key, as times pass. -/
theorem surroundings_composed (U : ℕ → List κ) (keys : ℕ → κ) (k : κ) :
    Surroundings (fun st : ComposedState (StoreBank κ) κ => st.inner.now)
      (SameFrames k (SameCells U keys)) (SameFrames k (SameWithin U keys)) ComposedState.enter where
  clock _ _ _ := rfl
  entered time a _ _ h := h.withInner ((surroundings_bank U keys).entered time a _ _ h.inner)
  enteredOther time a _ _ h :=
    h.withInner ((surroundings_bank U keys).enteredOther time a _ _ h.inner)
  within _ _ h := h.withInner h.inner.toSameCells

/-- The keys in play have a place of their own in the store of each layer. -/
structure Composition.Places (c : Composition κ) (K : List κ) (U : ℕ → List κ) : Prop where
  stored : ∀ j spec, c.specs[j]? = some spec → ∀ key ∈ K, c.targetKey key j spec ∈ U j
  apart : ∀ j spec, c.specs[j]? = some spec → ∀ key ∈ K, ∀ key' ∈ K,
    c.targetKey key j spec = c.targetKey key' j spec → key = key'

/-- The key under which each store of a composition holds `k`. -/
def Composition.targets (c : Composition κ) (k : κ) (j : ℕ) : κ :=
  match c.specs[j]? with
  | some spec => c.targetKey k j spec
  | none => k

/-- Where the targets of the keys have their places, every layer answers a key alone. -/
theorem Composition.Places.isolated {c : Composition κ} {K : List κ} {U : ℕ → List κ}
    (h : c.Places K U) {k : κ} (hk : k ∈ K) :
    IsolatedLayers c.store k (fun key => key ∈ K) (SameCells U (c.targets k))
      (SameWithin U (c.targets k)) := by
  have hlayer : ∀ j spec, c.specs[j]? = some spec → ∀ f : κ → κ,
      (∀ key, f key = c.targetKey key j spec) →
      Isolated k (fun key => key ∈ K) (SameCells U (c.targets k)) (SameWithin U (c.targets k))
        ((bankStore j).under f) := by
    intro j spec hspec f hf
    have htarget : c.targets k j = c.targetKey k j spec := by
      rw [Composition.targets, hspec]
    refine isolated_layer ?_ ?_ ?_ ?_
    · rw [hf, htarget]
    · rw [htarget]
      exact h.stored j spec hspec k hk
    · intro key hkey
      rw [hf]
      exact h.stored j spec hspec key hkey
    · intro key hkey hne heq
      rw [hf, hf] at heq
      exact hne (h.apart j spec hspec key hkey k hk heq)
  constructor
  · intro hmode layer hmem
    obtain ⟨j, hj⟩ := List.mem_iff_getElem?.mp hmem
    have hlayers : c.store.layers[j]? = (layersFrom 0 c.specs)[j]? := rfl
    rw [hlayers, getElem?_layersFrom, Nat.zero_add] at hj
    obtain ⟨spec, hspec, rfl⟩ := Option.map_eq_some_iff.mp hj
    refine hlayer j spec hspec _ fun key => ?_
    rw [Composition.targetKey, if_neg fun hand => hmode hand.1]
    rfl
  · intro hmode
    obtain ⟨p, b, hspecs⟩ := List.length_eq_two.mp (c.overflow_two hmode)
    have hp := hlayer 0 p (by rw [hspecs]; rfl) c.store.primary.layerKey fun key =>
      Composition.primaryKey_of_two hspecs
    rwa [Composition.primary_of_two hspecs] at hp ⊢
  · intro hmode
    obtain ⟨p, b, hspecs⟩ := List.length_eq_two.mp (c.overflow_two hmode)
    have hb := hlayer 1 b (by rw [hspecs]; rfl) c.store.overflowBurstKey fun key =>
      Composition.burstKey_of_two hmode hspecs
    rwa [Composition.burst_of_two hspecs]
  · exact fun s s' hs => hs.now
  · exact fun s s' hs => hs.firstSettled

/-- The engine's one store is a composition over a bank, and no key manager decides. -/
structure OverComposition (o : RateLimitOptions ρ (ComposedState (StoreBank κ) κ) κ)
    (c : Composition κ) : Prop where
  clock : o.clock = fun st => st.inner.now
  store : o.store = c.store.toStore
  slots : o.groupedWindowStores = []
  unmanaged : o.keyManager = none

/-- **Key isolation under composition.**  An engine over a composed store, whatever its mode,
answers the requests of a key, in any run, as it answers the run of these requests alone. -/
theorem composed_answers_of_key_alone
    {o : RateLimitOptions ρ (ComposedState (StoreBank κ) κ) κ} {c : Composition κ}
    (h : OverComposition o c) {K : List κ} {U : ℕ → List κ} (hplaces : c.Places K U) (k : κ)
    (hk : k ∈ K) (e : EngineState κ) {st : ComposedState (StoreBank κ) κ}
    (hroom : ∀ j, (st.inner.stores j).Roomy (U j))
    {is : List (EngineRequest ρ BankSurroundings κ)} {t : ℤ}
    (hord : OrderedFrom EngineRequest.time t is) (hkeys : ∀ i ∈ is, i.key ∈ K) :
    keptOutputs (fun i => decide (i.key = k)) (serveRequest o ComposedState.enter) is ⟨e, st⟩ =
      outputs (serveRequest o ComposedState.enter) (is.filter fun i => decide (i.key = k))
        ⟨e, st⟩ := by
  have hlayers := hplaces.isolated hk
  have hopts : IsolatedOptions o k (fun key => key ∈ K) (SameFrames k (SameCells U (c.targets k)))
      (SameFrames k (SameWithin U (c.targets k))) := by
    refine ⟨fun s s' hs => ?_, ?_, ?_, ?_, ?_, h.unmanaged⟩
    · rw [h.clock]
      exact hs.inner.now
    · rw [h.store]
      exact hlayers.toStore
    · rw [h.slots]
      exact nofun
    · intro key options s
      rw [h.clock, h.store]
      exact (Composition.stepped_increment c key options s).now
    · rw [h.slots]
      exact nofun
  refine hopts.keptOutputs ?_ hord hkeys ⟨⟨hroom, hroom, fun _ => rfl⟩, rfl, rfl, rfl, rfl⟩
  rw [h.clock]
  exact surroundings_composed U (c.targets k) k

end Bank

/-- The two labels of an overflow differ. -/
theorem primary_burst_nodup : ["primary", "burst"].Nodup := by decide

/-- An overflow has two layers. -/
theorem length_primary_burst : CompositionMode.overflow = .overflow → 2 = 2 := fun _ => rfl

/-- A burst layer that stores key `k` as `k + 100`. -/
def burstBehind : Composition ℕ where
  mode := .overflow
  specs := [{ label := "primary" }, { label := "burst" }]
  burstKey := fun key => key + 100
  specs_ne := List.cons_ne_nil _ _
  labels_nodup := primary_burst_nodup
  overflow_two := length_primary_burst

/-- The keys of the second layer are those of the first, moved out of the way. -/
theorem targetKey_burstBehind (key j : ℕ) (spec : LayerSpec ℕ)
    (hspec : burstBehind.specs[j]? = some spec) :
    burstBehind.targetKey key j spec = if j = 1 then key + 100 else key := by
  match j with
  | 0 =>
    obtain rfl := Option.some.inj hspec
    rfl
  | 1 =>
    obtain rfl := Option.some.inj hspec
    rfl
  | _ + 2 => exact nomatch hspec

/-- One request a second, and a burst of one more. -/
def burstOptions : RateLimitOptions Unit (ComposedState (StoreBank ℕ) ℕ) ℕ where
  clock := fun st => st.inner.now
  store := burstBehind.store.toStore

/-- Key 8 spills over into the burst layer in between. -/
theorem composed_answers_of_key_alone_burst :
    let st : ComposedState (StoreBank ℕ) ℕ :=
      { inner := ⟨fun _ => .sliding oneASecond (KeyTable.new 0), 0, fun _ => none, none⟩ }
    let run : List (EngineRequest Unit BankSurroundings ℕ) :=
      [⟨0, {}, 7, ()⟩, ⟨1, {}, 8, ()⟩, ⟨2, {}, 8, ()⟩, ⟨3, {}, 7, ()⟩, ⟨4, {}, 7, ()⟩]
    keptOutputs (fun i => decide (i.key = 7)) (serveRequest burstOptions ComposedState.enter) run
        ⟨{}, st⟩ =
      outputs (serveRequest burstOptions ComposedState.enter)
        (run.filter fun i => decide (i.key = 7)) ⟨{}, st⟩ := by
  have hplaces : burstBehind.Places [7, 8] fun _ => [7, 8, 107, 108] := by
    constructor
    · intro j spec hspec key hkey
      rw [targetKey_burstBehind key j spec hspec]
      split
      · rcases List.mem_pair.mp hkey with rfl | rfl <;> decide
      · exact List.mem_append_left [107, 108] hkey
    · intro j spec hspec key _ key' _ heq
      rw [targetKey_burstBehind key j spec hspec, targetKey_burstBehind key' j spec hspec] at heq
      split at heq
      · exact Nat.add_right_cancel heq
      · exact heq
  exact composed_answers_of_key_alone (o := burstOptions) ⟨rfl, rfl, rfl, rfl⟩ hplaces 7 (by decide)
    {} (fun _ => Or.inl rfl) (t := 0) (by decide) (by decide)

end RatelimitFlex
