import RatelimitFlex.Program.ComposedStore
import RatelimitFlex.Program.StoreBank

/-!
# A composed store over a bank of `MemoryStore`s

Layer number `j` is over store number `j`.  As no two layers share a store, what a layer
answers and what becomes of its store is said layer by layer.
-/

set_option autoImplicit false

namespace RatelimitFlex

variable {κ : Type} [DecidableEq κ]

/-- A layer without its store. -/
structure LayerSpec (κ : Type) where
  label : String
  keyTransform : Option (κ → κ) := none
  maxRequests : Option JsNumber := none

/-- A composed store without its stores. -/
structure Composition (κ : Type) where
  mode : CompositionMode
  specs : List (LayerSpec κ)
  rollbackOnBlock : Bool := true
  burstKey : κ → κ := id
  specs_ne : specs ≠ []
  labels_nodup : (specs.map LayerSpec.label).Nodup
  overflow_two : mode = .overflow → specs.length = 2

/-- The layers over the stores from number `n` on. -/
def layersFrom : ℕ → List (LayerSpec κ) → List (CompositionLayer (StoreBank κ) κ)
  | _, [] => []
  | n, spec :: rest =>
    ⟨spec.label, bankStore n, spec.keyTransform, spec.maxRequests⟩ :: layersFrom (n + 1) rest

/-- Each spec has its layer. -/
theorem length_layersFrom (n : ℕ) (specs : List (LayerSpec κ)) :
    (layersFrom n specs).length = specs.length := by
  induction specs generalizing n with
  | nil => rfl
  | cons spec rest ih => simp only [layersFrom, List.length_cons, ih]

/-- The layers carry their labels. -/
theorem labels_layersFrom (n : ℕ) (specs : List (LayerSpec κ)) :
    (layersFrom n specs).map CompositionLayer.label = specs.map LayerSpec.label := by
  induction specs generalizing n with
  | nil => rfl
  | cons spec rest ih => simp only [layersFrom, List.map_cons, ih]

/-- A layer is the one of its spec. -/
theorem getElem?_layersFrom (n : ℕ) (specs : List (LayerSpec κ)) (j : ℕ) :
    (layersFrom n specs)[j]? = specs[j]?.map fun spec =>
      ⟨spec.label, bankStore (n + j), spec.keyTransform, spec.maxRequests⟩ := by
  induction specs generalizing n j with
  | nil => simp [layersFrom]
  | cons spec rest ih =>
    cases j with
    | zero => rfl
    | succ j =>
      simp only [layersFrom, List.getElem?_cons_succ, ih, show n + 1 + j = n + (j + 1) by omega]

/-- The composed store over a bank. -/
def Composition.store (c : Composition κ) : ComposedStore (StoreBank κ) κ where
  mode := c.mode
  layers := layersFrom 0 c.specs
  rollbackOnBlock := c.rollbackOnBlock
  burstKey := c.burstKey
  clock := StoreBank.now
  settledFirst := StoreBank.firstSettled
  layers_ne := by
    intro h
    have := congrArg List.length h
    rw [length_layersFrom] at this
    exact c.specs_ne (List.length_eq_zero_iff.mp this)
  labels_nodup := by
    rw [labels_layersFrom]
    exact c.labels_nodup
  overflow_two := by
    intro h
    rw [length_layersFrom]
    exact c.overflow_two h

namespace LayerSpec

variable (spec : LayerSpec κ) (key : κ) (options : RateLimitIncrementOptions)

/-- The key a layer stores `key` under. -/
def storageKey : κ := (spec.keyTransform.getD id) key

/-- The options a layer's increment gets. -/
def incrementOptions : RateLimitIncrementOptions :=
  { options with maxRequests := spec.maxRequests.or options.maxRequests }

omit [DecidableEq κ] in
/-- A layer's own cap changes no cost. -/
@[simp] theorem sanitizedCost_incrementOptions :
    (spec.incrementOptions options).sanitizedCost = options.sanitizedCost := rfl

/-- The options of the decrement that undoes a layer's increment. -/
def rollbackOptions : RateLimitDecrementOptions :=
  { matchingDecrementOptions (spec.incrementOptions options) with removeNewest := true }

end LayerSpec

/-! ## The increments of the layers -/

section Layers

variable (key : κ) (options : RateLimitIncrementOptions)

/-- What the layer over store `j` answers. -/
def layerAnswer (s : StoreBank κ) (j : ℕ) (spec : LayerSpec κ) :
    Except StoreError RateLimitResult :=
  match s.failing j with
  | some e => .error e
  | none => .ok ((s.stores j).increment s.now (spec.storageKey key)
      (spec.incrementOptions options)).2

/-- A layer's store after its increment. -/
def layerCharged (s : StoreBank κ) (j : ℕ) (spec : LayerSpec κ) (m : MemoryStore κ) :
    MemoryStore κ :=
  match s.failing j with
  | some _ => m
  | none => (m.increment s.now (spec.storageKey key) (spec.incrementOptions options)).1

/-- A layer's store after the rollback of what it allowed. -/
def layerRolledBack (s : StoreBank κ) (j : ℕ) (spec : LayerSpec κ) (m : MemoryStore κ) :
    MemoryStore κ :=
  if allows (layerAnswer key options s j spec) then
    m.decrement (spec.storageKey key) (spec.rollbackOptions options)
  else m

/-- The answers of the layers from number `n` on. -/
def answersFrom (s : StoreBank κ) : ℕ → List (LayerSpec κ) → List (Except StoreError RateLimitResult)
  | _, [] => []
  | n, spec :: rest => layerAnswer key options s n spec :: answersFrom s (n + 1) rest

variable {key options}

/-- A layer's answer is its own. -/
theorem getElem?_answersFrom (s : StoreBank κ) (n : ℕ) (specs : List (LayerSpec κ)) (j : ℕ) :
    (answersFrom key options s n specs)[j]? =
      specs[j]?.map fun spec => layerAnswer key options s (n + j) spec := by
  induction specs generalizing n j with
  | nil => simp [answersFrom]
  | cons spec rest ih =>
    cases j with
    | zero => rfl
    | succ j =>
      simp only [answersFrom, List.getElem?_cons_succ, ih, show n + 1 + j = n + (j + 1) by omega]

/-- Another layer's store does not change it. -/
theorem layerAnswer_put {s : StoreBank κ} {j k : ℕ} (h : j ≠ k) (m : MemoryStore κ)
    (spec : LayerSpec κ) :
    layerAnswer key options (s.put k m) j spec = layerAnswer key options s j spec := by
  simp only [layerAnswer, StoreBank.failing_put, StoreBank.now_put, StoreBank.stores_put_of_ne h]

/-- An earlier layer's store changes none of them. -/
theorem answersFrom_put {s : StoreBank κ} {n k : ℕ} (h : k < n) (m : MemoryStore κ)
    (specs : List (LayerSpec κ)) :
    answersFrom key options (s.put k m) n specs = answersFrom key options s n specs := by
  induction specs generalizing n with
  | nil => rfl
  | cons spec rest ih =>
    simp only [answersFrom, layerAnswer_put (show n ≠ k by omega), ih (show k < n + 1 by omega)]

/-- One layer's increment: its answer, and its store charged. -/
theorem increment_bankStore (s : StoreBank κ) (j : ℕ) (spec : LayerSpec κ) :
    (bankStore j).increment (spec.storageKey key) (spec.incrementOptions options) s =
      (layerAnswer key options s j spec,
        s.put j (layerCharged key options s j spec (s.stores j))) := by
  cases hfail : s.failing j with
  | some e => simp only [bankStore, layerAnswer, layerCharged, hfail, StoreBank.put_stores_self]
  | none => simp only [bankStore, layerAnswer, layerCharged, hfail]

/-- The increments of all layers: their answers, and their stores charged. -/
theorem incrementLayers_bank (n : ℕ) (specs : List (LayerSpec κ)) (s : StoreBank κ) :
    ComposedStore.incrementLayers key options (layersFrom n specs) s =
      (answersFrom key options s n specs,
        StoreBank.mapStores (layerCharged key options s) n specs s) := by
  induction specs generalizing n s with
  | nil => rfl
  | cons spec rest ih =>
    have hinc := @increment_bankStore _ _ key options s n spec
    simp only [LayerSpec.storageKey, LayerSpec.incrementOptions] at hinc
    simp only [layersFrom, ComposedStore.incrementLayers, CompositionLayer.layerKey, mergeIncOpts,
      hinc, ih, answersFrom_put (Nat.lt_succ_self n), answersFrom, StoreBank.mapStores]
    rfl

/-- The rollback: every store whose layer allowed is rolled back. -/
theorem rollbackAllowed_bank (s₀ : StoreBank κ) (n : ℕ) (specs : List (LayerSpec κ))
    (s : StoreBank κ) :
    ComposedStore.rollbackAllowed key options
        ((layersFrom n specs).zip (answersFrom key options s₀ n specs)) s =
      StoreBank.mapStores (layerRolledBack key options s₀) n specs s := by
  induction specs generalizing n s with
  | nil => rfl
  | cons spec rest ih =>
    simp only [layersFrom, answersFrom, List.zip_cons_cons, ComposedStore.rollbackAllowed, ih,
      StoreBank.mapStores, layerRolledBack]
    split
    · rfl
    · rw [StoreBank.put_stores_self]

end Layers

end RatelimitFlex
