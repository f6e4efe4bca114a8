import RatelimitFlex.Library.TimedRun
import RatelimitFlex.Program.LimitsOptions

/-!
# The headers name the window that binds

The index of a composed result's slot goes by a label through the layers and is read from it
again; the headers' limit and window come from the raw entries.  Of the stores only their
window options matter, and no operation changes these.
-/

set_option autoImplicit false

namespace RatelimitFlex

open Library

/-! ## The options of a store -/

section Stores

variable {κ : Type} [DecidableEq κ]

/-- The options of a window store. -/
def MemoryStore.windowOptions? : MemoryStore κ → Option WindowOptions
  | .sliding o _ => some o
  | .fixed o _ => some o
  | .bucket _ _ => none

/-- An increment keeps the options of a window store. -/
@[simp] theorem MemoryStore.windowOptions?_increment (m : MemoryStore κ) (now : ℤ) (key : κ)
    (options : RateLimitIncrementOptions) :
    (m.increment now key options).1.windowOptions? = m.windowOptions? := by
  cases m <;> rfl

/-- So does a decrement. -/
@[simp] theorem MemoryStore.windowOptions?_decrement (m : MemoryStore κ) (key : κ)
    (options : RateLimitDecrementOptions) :
    (m.decrement key options).windowOptions? = m.windowOptions? := by
  cases m with
  | sliding o t =>
    simp only [decrement]
    split <;> rfl
  | fixed o t => rfl
  | bucket o t => rfl

/-- So does a purge. -/
@[simp] theorem MemoryStore.windowOptions?_purgeExpired (m : MemoryStore κ) (now : ℤ) :
    (m.purgeExpired now).windowOptions? = m.windowOptions? := by
  cases m <;> rfl

/-- A new store has the options it is made from. -/
theorem windowOptions?_newWindowStore (strategy : RateLimitStrategy) (o : WindowOptions) :
    (newWindowStore strategy o : MemoryStore κ).windowOptions? = some o := by
  unfold newWindowStore
  split <;> rfl

/-- What a window store answers follows from a count and its cap. -/
theorem MemoryStore.increment_ofUsage {m : MemoryStore κ} {o : WindowOptions}
    (h : m.windowOptions? = some o) (now : ℤ) (key : κ) (options : RateLimitIncrementOptions) :
    ∃ hits reset, (m.increment now key options).2 =
      .ofUsage hits (o.cap options.maxRequests) reset := by
  cases m with
  | sliding o' t =>
    obtain rfl := Option.some.inj h
    exact ⟨_, _, rfl⟩
  | fixed o' t =>
    obtain rfl := Option.some.inj h
    simp only [increment, incrementFixed]
    split <;> exact ⟨_, _, rfl⟩
  | bucket o' t => cases h

/-- Two banks whose stores have the same options. -/
structure SameWindows (s s' : StoreBank κ) : Prop where
  failing : s'.failing = s.failing
  windowOptions : ∀ j, (s'.stores j).windowOptions? = (s.stores j).windowOptions?

/-- A bank has the windows it has. -/
theorem SameWindows.refl (s : StoreBank κ) : SameWindows s s := ⟨rfl, fun _ => rfl⟩

/-- What keeps the windows twice keeps them. -/
theorem SameWindows.trans {s s' s'' : StoreBank κ} (h : SameWindows s s')
    (h' : SameWindows s' s'') : SameWindows s s'' :=
  ⟨h'.failing.trans h.failing, fun j => (h'.windowOptions j).trans (h.windowOptions j)⟩

/-- A store with the same options may take its place. -/
theorem sameWindows_put {s : StoreBank κ} {j : ℕ} {m : MemoryStore κ}
    (h : m.windowOptions? = (s.stores j).windowOptions?) : SameWindows s (s.put j m) := by
  refine ⟨rfl, fun k => ?_⟩
  by_cases hk : k = j
  · subst hk
    rw [StoreBank.stores_put_self, h]
  · rw [StoreBank.stores_put_of_ne hk]

/-- So may all of them. -/
theorem sameWindows_mapStores {α : Type} {f : ℕ → α → MemoryStore κ → MemoryStore κ}
    (hf : ∀ j a m, (f j a m).windowOptions? = m.windowOptions?) (n : ℕ) (l : List α)
    (s : StoreBank κ) : SameWindows s (StoreBank.mapStores f n l s) := by
  induction l generalizing n s with
  | nil => exact SameWindows.refl s
  | cons a rest ih => exact (sameWindows_put (hf n a _)).trans (ih (n + 1) _)

/-- A charge of a layer keeps its options. -/
theorem windowOptions?_layerCharged (key : κ) (options : RateLimitIncrementOptions)
    (s : StoreBank κ) (j : ℕ) (spec : LayerSpec κ) (m : MemoryStore κ) :
    (layerCharged key options s j spec m).windowOptions? = m.windowOptions? := by
  unfold layerCharged
  split
  · rfl
  · exact m.windowOptions?_increment _ _ _

/-- Taking it back keeps them too. -/
theorem windowOptions?_layerRolledBack (key : κ) (options : RateLimitIncrementOptions)
    (s : StoreBank κ) (j : ℕ) (spec : LayerSpec κ) (m : MemoryStore κ) :
    (layerRolledBack key options s j spec m).windowOptions? = m.windowOptions? := by
  unfold layerRolledBack
  split
  · exact m.windowOptions?_decrement _ _
  · rfl

end Stores

/-! ## The composed store keeps them -/

section Composed

variable {κ : Type} [DecidableEq κ] (c : Composition κ) (key : κ)
  (st : ComposedState (StoreBank κ) κ)

/-- An increment in all layers keeps the windows. -/
theorem sameWindows_increment (hmode : c.mode = .all) (options : RateLimitIncrementOptions) :
    SameWindows st.inner (c.store.increment key options st).2.inner := by
  have hm : c.store.mode = .all := hmode
  have hlayers : c.store.layers = layersFrom 0 c.specs := rfl
  have hcharge := sameWindows_mapStores (windowOptions?_layerCharged key options st.inner) 0
    c.specs st.inner
  simp only [ComposedStore.increment, hm, ComposedStore.incrementAll, hlayers,
    incrementLayers_bank, rollbackAllowed_bank]
  split
  · split
    · exact hcharge.trans (sameWindows_mapStores
        (windowOptions?_layerRolledBack key options st.inner) 0 c.specs _)
    · exact hcharge
  · exact hcharge

/-- A decrement of one layer keeps them. -/
theorem sameWindows_decrement_bankStore (j : ℕ) (dec : RateLimitDecrementOptions)
    (s : StoreBank κ) : SameWindows s ((bankStore j).decrement key dec s) :=
  sameWindows_put ((s.stores j).windowOptions?_decrement key dec)

/-- A layer's store is one of the bank. -/
theorem store_of_mem_layersFrom {n : ℕ} {specs : List (LayerSpec κ)}
    {layer : CompositionLayer (StoreBank κ) κ} (h : layer ∈ layersFrom n specs) :
    ∃ j, layer.store = bankStore j := by
  obtain ⟨j, hj⟩ := List.mem_iff_getElem?.mp h
  rw [getElem?_layersFrom] at hj
  obtain ⟨spec, -, rfl⟩ := Option.map_eq_some_iff.mp hj
  exact ⟨_, rfl⟩

/-- Taking back a draft keeps the windows. -/
theorem sameWindows_rollbackDraft (result : RateLimitResult) (dec : RateLimitDecrementOptions) :
    SameWindows st.inner
      (c.store.rollbackDraftForBlockedIncrement key result dec st).inner := by
  unfold ComposedStore.rollbackDraftForBlockedIncrement
  split
  · have hstores : ∀ layer ∈ c.store.layers, ∃ j, layer.store = bankStore j :=
      fun layer hmem => store_of_mem_layersFrom hmem
    simp only
    generalize c.store.layers = layers at hstores ⊢
    induction layers generalizing st with
    | nil => exact SameWindows.refl _
    | cons layer layers ih =>
      have htail := fun st => ih st fun l hl => hstores l (List.mem_cons_of_mem _ hl)
      obtain ⟨j, hj⟩ := hstores layer List.mem_cons_self
      rw [List.foldl_cons]
      refine SameWindows.trans ?_ (htail _)
      split
      · split
        · rw [hj]
          exact sameWindows_decrement_bankStore _ j _ _
        · exact SameWindows.refl _
      · exact SameWindows.refl _
  · exact SameWindows.refl _

end Composed

/-! ## The deciding layer -/

section Deciding

/-- The layer with the least quota left is the first least one of the list. -/
theorem tightest_eq_argmin (p : String × RateLimitResult) (ps : List (String × RateLimitResult)) :
    (p :: ps).argmin (fun q => q.2.remaining) = some (ComposedStore.tightest p ps) := by
  unfold ComposedStore.tightest
  induction ps generalizing p with
  | nil => rfl
  | cons q ps ih =>
    rw [List.foldl_cons, ← ih]
    by_cases h : q.2.remaining < p.2.remaining
    · rw [if_pos h]
      simp [List.argmin, List.foldl_cons, List.argAux, h]
    · rw [if_neg h]
      simp [List.argmin, List.foldl_cons, List.argAux, h]

/-- Of labelled answers the tightest has the label of one with the least quota left. -/
theorem tightest_map_range {n : ℕ} {answer : ℕ → RateLimitResult}
    {p : String × RateLimitResult} {ps : List (String × RateLimitResult)}
    (h : (List.range n).map (fun j => (limitLabel j, answer j)) = p :: ps) :
    ∃ i < n, (ComposedStore.tightest p ps).1 = limitLabel i ∧
      ∀ j < n, (answer i).remaining ≤ (answer j).remaining := by
  have hmin : ComposedStore.tightest p ps ∈
      ((List.range n).map fun j => (limitLabel j, answer j)).argmin fun q => q.2.remaining := by
    rw [h, tightest_eq_argmin]
    exact Option.mem_some_self _
  obtain ⟨i, hi, heq⟩ := List.mem_map.mp (List.argmin_mem hmin)
  refine ⟨i, List.mem_range.mp hi, congrArg Prod.fst heq.symm, fun j hj => ?_⟩
  have hle := List.le_of_mem_argmin (List.mem_map_of_mem (List.mem_range.mpr hj)) hmin
  rw [← heq] at hle
  exact hle

variable {σ κ : Type}

/-- The label of the first layer whose answer satisfies `p`. -/
theorem labelWhere_eq (c : ComposedStore σ κ) {p : Except StoreError RateLimitResult → Bool}
    {settled : List (Except StoreError RateLimitResult)} {i : ℕ}
    {layer : CompositionLayer σ κ} {a : Except StoreError RateLimitResult}
    (hlayer : c.layers[i]? = some layer) (ha : settled[i]? = some a) (hp : p a = true)
    (hfirst : ∀ j < i, ∀ b, settled[j]? = some b → p b = false) :
    c.labelWhere p settled = layer.label := by
  have hzip : (c.layers.zip settled)[i]? = some (layer, a) :=
    List.getElem?_zip_eq_some.mpr ⟨hlayer, ha⟩
  have hfind : (c.layers.zip settled).find? (fun q => p q.2) = some (layer, a) := by
    obtain ⟨hlt, hget⟩ := List.getElem?_eq_some_iff.mp hzip
    refine List.find?_eq_some_iff_getElem.mpr ⟨hp, i, hlt, hget, fun j hj => ?_⟩
    have hb := (List.getElem?_zip_eq_some.mp (List.getElem?_eq_getElem (hj.trans hlt))).2
    rw [hfirst j hj _ hb]
    rfl
  unfold ComposedStore.labelWhere
  rw [hfind]

end Deciding

section Slots

variable {κ : Type} [DecidableEq κ]

/-- What the store of slot `j` answers to an increment. -/
def slotAnswer (key : κ) (options : RateLimitIncrementOptions) (s : StoreBank κ) (j : ℕ) :
    RateLimitResult :=
  ((s.stores j).increment s.now key options).2

/-- The stores of a bank are those of the entries. -/
structure BuiltFrom (limits : List WindowLimitSpec) (s : StoreBank κ) : Prop where
  failing : s.failing = fun _ => none
  windowOptions : ∀ j entry, limits[j]? = some entry →
    (s.stores j).windowOptions? = some entry.windowOptions

variable {limits : List WindowLimitSpec} {key : κ} {options : RateLimitIncrementOptions}
  {s : StoreBank κ}

/-- The same windows are built from the same limits. -/
theorem BuiltFrom.same {s' : StoreBank κ} (h : BuiltFrom limits s) (hs : SameWindows s s') :
    BuiltFrom limits s' :=
  ⟨hs.failing.trans h.failing, fun j entry hj =>
    (hs.windowOptions j).trans (h.windowOptions j entry hj)⟩

/-- The bank of the limits is built from them. -/
theorem builtFrom_limitsBank (strategy : RateLimitStrategy) (now : ℤ) :
    BuiltFrom limits (limitsBank strategy limits now : StoreBank κ) := by
  refine ⟨rfl, fun j entry hj => ?_⟩
  simp only [limitsBank, hj, Option.map_some, Option.getD_some]
  exact windowOptions?_newWindowStore strategy _

omit [DecidableEq κ] in
/-- Each limit has its layer. -/
theorem getElem?_specs (hne : limits ≠ []) {j : ℕ} (hj : j < limits.length) :
    (limitsToComposedStore (κ := κ) limits hne).specs[j]? = some { label := limitLabel j } := by
  simp only [limitsToComposedStore, List.getElem?_map, List.getElem?_range hj, Option.map_some]

/-- Every layer answers what its store answers. -/
theorem answersFrom_limits (hne : limits ≠ []) (h : BuiltFrom limits s) :
    answersFrom key options s 0 (limitsToComposedStore limits hne).specs =
      (List.range limits.length).map fun j => .ok (slotAnswer key options s j) := by
  refine List.ext_getElem? fun j => ?_
  rw [getElem?_answersFrom, List.getElem?_map]
  by_cases hj : j < limits.length
  · have hfail : s.failing (0 + j) = none := congrFun h.failing _
    rw [getElem?_specs hne hj, List.getElem?_range hj, Option.map_some, Option.map_some, layerAnswer,
      hfail, Nat.zero_add]
    rfl
  · have hlen : (limitsToComposedStore (κ := κ) limits hne).specs.length ≤ j := by
      rw [limitsToComposedStore, List.length_map, List.length_range]
      exact not_lt.mp hj
    rw [List.getElem?_eq_none hlen, List.getElem?_eq_none (by rw [List.length_range]; omega)]
    rfl

/-- Slot `i` binds: it has the least quota left, and of a blocked answer it is the first that
blocks. -/
structure Binds (n : ℕ) (answer : ℕ → RateLimitResult) (isBlocked : Bool) (i : ℕ) : Prop where
  lt : i < n
  least : ∀ j < n, (answer i).remaining ≤ (answer j).remaining
  first : isBlocked = true → (answer i).isBlocked = true ∧ ∀ j < i, (answer j).isBlocked = false

/-- A blocking window has nothing left, and no window has less. -/
theorem remaining_slotAnswer (h : BuiltFrom limits s) {j : ℕ} (hj : j < limits.length) :
    0 ≤ (slotAnswer key options s j).remaining ∧
      ((slotAnswer key options s j).isBlocked = true →
        (slotAnswer key options s j).remaining = 0) := by
  obtain ⟨hits, reset, heq⟩ := MemoryStore.increment_ofUsage
    (h.windowOptions j _ (List.getElem?_eq_getElem hj)) s.now key options
  unfold slotAnswer
  rw [heq, RateLimitResult.remaining_ofUsage, RateLimitResult.isBlocked_ofUsage]
  refine ⟨le_max_left _ _, fun hblocked => ?_⟩
  have := of_decide_eq_true hblocked
  omega

/-- When every layer allows, the label is that of a layer with the least quota left. -/
theorem decidingLayer_allowedAll (hne : limits ≠ []) (now : ℤ) (answer : ℕ → RateLimitResult) :
    ∃ i < limits.length, ((limitsToComposedStore (κ := κ) limits hne).store.allowedAll now
        ((List.range limits.length).map fun j => .ok (answer j))).decidingLayer =
          some (limitLabel i) ∧
      ∀ j < limits.length, (answer i).remaining ≤ (answer j).remaining := by
  have hlabels : (limitsToComposedStore (κ := κ) limits hne).store.layers.map
      CompositionLayer.label = (List.range limits.length).map limitLabel := by
    refine (labels_layersFrom 0 _).trans ?_
    rw [limitsToComposedStore, List.map_map]
    rfl
  have hanswers : ComposedStore.fulfilled ((List.range limits.length).map fun j =>
      Except.ok (ε := StoreError) (answer j)) = (List.range limits.length).map answer := by
    unfold ComposedStore.fulfilled
    rw [List.filterMap_map, ← List.filterMap_eq_map]
    rfl
  simp only [ComposedStore.allowedAll, hlabels, hanswers, List.zip_map', Option.some.injEq]
  split
  · next hnil =>
    exact absurd (List.length_eq_zero_iff.mp (List.range_eq_nil.mp (List.map_eq_nil_iff.mp hnil))) hne
  · next p ps hcons => exact tightest_map_range hcons

/-- When a layer blocks, the label is that of the first that does. -/
theorem decidingLayer_blockedAll (hne : limits ≠ []) (now : ℤ) {answer : ℕ → RateLimitResult}
    {i : ℕ} (hi : i < limits.length) (hblocked : (answer i).isBlocked = true)
    (hfirst : ∀ j < i, (answer j).isBlocked = false) :
    ((limitsToComposedStore (κ := κ) limits hne).store.blockedAll now
      ((List.range limits.length).map fun j => .ok (answer j))).decidingLayer =
        some (limitLabel i) := by
  have hanswer : ∀ j, j < limits.length → ((List.range limits.length).map fun j =>
      Except.ok (ε := StoreError) (answer j))[j]? = some (.ok (answer j)) := by
    intro j hj
    rw [List.getElem?_map, List.getElem?_range hj, Option.map_some]
  have hrejected : ((List.range limits.length).map fun j =>
      Except.ok (ε := StoreError) (answer j)).any isRejected = false := by
    simp [isRejected]
  have hlayer : (limitsToComposedStore (κ := κ) limits hne).store.layers[i]? =
      some ⟨limitLabel i, bankStore (0 + i), none, none⟩ := by
    refine (getElem?_layersFrom 0 _ i).trans ?_
    rw [getElem?_specs hne hi]
    rfl
  simp only [ComposedStore.blockedAll, hrejected, Bool.false_eq_true, if_false]
  refine congrArg some (labelWhere_eq _ hlayer (hanswer i hi) hblocked fun j hj b hb => ?_)
  obtain rfl := Option.some.inj ((hanswer j (hj.trans hi)).symm.trans hb)
  exact hfirst j hj

/-- The label of a composed answer is that of a slot that binds. -/
theorem decidingLayer_increment (key : κ) (options : RateLimitIncrementOptions)
    (hne : limits ≠ []) {st : ComposedState (StoreBank κ) κ}
    (h : BuiltFrom limits st.inner) :
    ∃ r, ((limitsToComposedStore limits hne).store.increment key options st).1 = .ok r ∧
      ∃ i, r.decidingLayer = some (limitLabel i) ∧
        Binds limits.length (slotAnswer key options st.inner) r.isBlocked i := by
  have hm : (limitsToComposedStore (κ := κ) limits hne).store.mode = .all := rfl
  have hlayers : (limitsToComposedStore (κ := κ) limits hne).store.layers =
    layersFrom 0 (limitsToComposedStore limits hne).specs := rfl
  have hrejected : ((List.range limits.length).map fun j =>
      Except.ok (ε := StoreError) (slotAnswer key options st.inner j)).any isRejected = false := by
    simp [isRejected]
  simp only [ComposedStore.increment, hm, ComposedStore.incrementAll, hlayers,
    incrementLayers_bank, answersFrom_limits hne h, hrejected, Bool.false_or]
  split
  · next hblocks =>
    have hsome : ∃ i, i < limits.length ∧ (slotAnswer key options st.inner i).isBlocked = true := by
      simpa [blocks] using hblocks
    obtain ⟨hlt, hblocked⟩ := Nat.find_spec hsome
    have hfirst : ∀ j < Nat.find hsome, (slotAnswer key options st.inner j).isBlocked = false :=
      fun j hj => Bool.eq_false_iff.mpr fun hb => Nat.find_min hsome hj ⟨hj.trans hlt, hb⟩
    refine ⟨_, rfl, Nat.find hsome, decidingLayer_blockedAll hne _ hlt hblocked hfirst, hlt,
      fun j hj => ?_, fun _ => ⟨hblocked, hfirst⟩⟩
    rw [(remaining_slotAnswer h hlt).2 hblocked]
    exact (remaining_slotAnswer h hj).1
  · obtain ⟨i, hi, hlabel, hleast⟩ := decidingLayer_allowedAll (κ := κ) hne
      (StoreBank.mapStores (layerCharged key options st.inner) 0
        (limitsToComposedStore limits hne).specs st.inner).now (slotAnswer key options st.inner)
    exact ⟨_, rfl, i, hlabel, hi, hleast, fun h => Bool.noConfusion h⟩

end Slots

/-! ## The engine -/

section Engine

variable {ρ σ κ : Type} [DecidableEq κ] {o : RateLimitOptions ρ σ κ} {key : κ} {req : ρ}

/-- Policy leaves alone what the key manager does. -/
theorem policyResult_keeps {β : Type} (view : σ → β)
    (hblocked : ∀ km, o.keyManager = some km → ∀ s, view (km.isBlocked key s).2 = view s)
    (hexpires : ∀ km, o.keyManager = some km → ∀ s, view (km.expiresAt key s).2 = view s)
    (w : World σ κ) : view (policyResult o key req w).2.stores = view w.stores := by
  unfold policyResult
  split
  · rfl
  · split
    · rfl
    · split
      · rfl
      · cases hkm : o.keyManager with
        | none =>
          simp only
          split <;> rfl
        | some km =>
          by_cases hb : (km.isBlocked key w.stores).1 = true
          · simp only [hb, if_true]
            exact (hexpires km hkm _).trans (hblocked km hkm _)
          · simp only [hb, Bool.false_eq_true, if_false]
            split <;> exact hblocked km hkm _

/-- After the increments a consume changes the stores by the draft rollback at most; its
answer has the slot of the increments, and blocks only if they did. -/
theorem settle_spec (o : RateLimitOptions ρ σ κ) (key : κ) (req : ρ) (g : IncrementOutcome) (w : World σ κ) :
    ((settle o key req g w).2.stores = w.stores ∨
      ∃ dec, (settle o key req g w).2.stores = (rollbackDraft o key dec g w.stores).2) ∧
      ∀ r, (settle o key req g w).1 = .ok r → r.bindingSlotIndex = g.bindingSlotIndex ∧
        (r.isBlocked = true → g.result.isBlocked = true) := by
  unfold settle
  split
  · next hdraft =>
    have hblocked : g.result.isBlocked = true := by
      simp only [Bool.and_eq_true] at hdraft
      exact hdraft.1.1
    cases maybeOnLayerBlocks o req g.result with
    | error e => exact ⟨Or.inl rfl, fun r h => by cases h⟩
    | ok _ =>
      dsimp only
      cases hroll : rollbackDraft o key (matchingDecrementOptions (resolveIncrementOpts o req)) g
          w.stores with
      | mk rolled s =>
        have hs : s = (rollbackDraft o key
            (matchingDecrementOptions (resolveIncrementOpts o req)) g w.stores).2 := by rw [hroll]
        cases rolled with
        | error e => exact ⟨Or.inr ⟨_, hs⟩, fun r h => by cases h⟩
        | ok _ =>
          cases callHook o.onDraftViolation req g.result with
          | error e => exact ⟨Or.inr ⟨_, hs⟩, fun r h => by cases h⟩
          | ok _ =>
            refine ⟨Or.inr ⟨_, hs⟩, fun r h => ?_⟩
            obtain rfl := Except.ok.inj h
            exact ⟨rfl, fun _ => hblocked⟩
  · split
    · cases maybeOnLayerBlocks o req g.result with
      | error e => exact ⟨Or.inl rfl, fun r h => by cases h⟩
      | ok _ =>
        cases callHook o.onLimitReached req g.result with
        | error e => exact ⟨Or.inl rfl, fun r h => by cases h⟩
        | ok _ =>
          refine ⟨Or.inl rfl, fun r h => ?_⟩
          obtain rfl := Except.ok.inj h
          exact ⟨rfl, id⟩
    · refine ⟨Or.inl rfl, fun r h => ?_⟩
      obtain rfl := Except.ok.inj h
      exact ⟨rfl, id⟩

end Engine

section Limits

variable {ρ τ κ : Type} [DecidableEq κ] (c : LimitsConfig ρ τ κ)

/-- The engine's options. -/
abbrev LimitsConfig.options : RateLimitOptions ρ (LimitsState τ κ) κ :=
  (mergeRateLimiterOptions c).toRateLimitOptions

/-- The stores of the entries, as the layers find them. -/
abbrev World.bank (w : World (LimitsState τ κ) κ) : StoreBank κ := w.stores.1.inner

/-- The merged options are those of a window strategy. -/
theorem isWindowOpts_options : isWindowOpts c.options = true :=
  decide_eq_true c.strategy_window

variable {c} {key : κ} {req : ρ}

/-- A policy that decides alone leaves the bank. -/
theorem bank_policyResult (key : κ) (req : ρ) (w : World (LimitsState τ κ) κ) :
    (policyResult c.options key req w).2.bank = w.bank := by
  refine policyResult_keeps (fun s => s.1.inner) (fun km hkm s => ?_) (fun km hkm s => ?_) w
  · obtain ⟨km', -, rfl⟩ := Option.map_eq_some_iff.mp hkm
    rfl
  · obtain ⟨km', -, rfl⟩ := Option.map_eq_some_iff.mp hkm
    rfl

/-- The increments of a request: the slot they name binds. -/
theorem incrementStores_limits (key : κ) {s : LimitsState τ κ} (h : BuiltFrom c.limits s.1.inner)
    (inc : RateLimitIncrementOptions) :
    ∃ g, (incrementStores c.options key inc s).1 = .ok g ∧
      SameWindows s.1.inner (incrementStores c.options key inc s).2.1.inner ∧
      ∃ i, g.bindingSlotIndex = some i ∧
        Binds c.limits.length (slotAnswer key inc s.1.inner) g.result.isBlocked i := by
  obtain ⟨r, hr, i, hlabel, hbinds⟩ := decidingLayer_increment key inc c.limits_ne h
  have hsame := sameWindows_increment (limitsToComposedStore c.limits c.limits_ne) key s.1 rfl inc
  have hindex : bindingSlotIndexForComposedResult c.options r = some i := by
    unfold bindingSlotIndexForComposedResult
    rw [isWindowOpts_options, if_pos rfl, hlabel, Option.bind_some, limitIndex_limitLabel]
    exact if_pos hbinds.lt
  have hinc : incrementStores c.options key inc s =
      (.ok { result := r, bindingSlotIndex := bindingSlotIndexForComposedResult c.options r },
        (((limitsToComposedStore c.limits c.limits_ne).store.increment key inc s.1).2, s.2)) := by
    have hstore : c.options.store.increment key inc s =
        (.ok r, (((limitsToComposedStore c.limits c.limits_ne).store.increment key inc s.1).2,
          s.2)) := congrArg (·, _) hr
    unfold incrementStores
    rw [if_neg fun hgrouped => hgrouped.2 rfl, hstore]
  rw [hinc]
  exact ⟨_, rfl, hsame, i, hindex, hbinds⟩

/-- Taking back a draft in the engine keeps the windows. -/
theorem sameWindows_rollbackDraft_options (dec : RateLimitDecrementOptions) (g : IncrementOutcome)
    (s : LimitsState τ κ) :
    SameWindows s.1.inner (rollbackDraft c.options key dec g s).2.1.inner := by
  unfold rollbackDraft
  rw [if_neg fun hgrouped => hgrouped.2 rfl]
  exact sameWindows_rollbackDraft (limitsToComposedStore c.limits c.limits_ne) key s.1 g.result dec

/-- A consume keeps the stores' options; an answer that policy did not give names a slot that
binds. -/
theorem consumeWithKey_limits {w : World (LimitsState τ κ) κ} (h : BuiltFrom c.limits w.bank) :
    BuiltFrom c.limits (consumeWithKey c.options key req w).2.bank ∧
      ((policyResult c.options key req w).1 = none →
        ∀ r, (consumeWithKey c.options key req w).1 = .ok r →
          ∃ i, r.bindingSlotIndex = some i ∧ Binds c.limits.length
            (slotAnswer key (resolveIncrementOpts c.options req) w.bank) r.isBlocked i) := by
  have hbank : (policyResult c.options key req w).2.bank = w.bank := bank_policyResult key req w
  cases hpolicy : policyResult c.options key req w with
  | mk decided w₁ =>
    rw [hpolicy] at hbank
    have hbank : w₁.bank = w.bank := hbank
    have h₁ : BuiltFrom c.limits w₁.bank := hbank ▸ h
    cases decided with
    | some out =>
      have hcon : consumeWithKey c.options key req w = (.ok out, w₁) := by
        simp only [consumeWithKey, arrive, hpolicy]
      rw [hcon]
      exact ⟨h₁, fun hnone => by cases hnone⟩
    | none =>
      obtain ⟨g, hg, hsame, i, hindex, hbinds⟩ := incrementStores_limits key h₁
        (resolveIncrementOpts c.options req)
      cases hinc : incrementStores c.options key (resolveIncrementOpts c.options req) w₁.stores with
      | mk answer s =>
        rw [hinc] at hg hsame
        obtain rfl : answer = .ok g := hg
        have hcon : consumeWithKey c.options key req w =
            settle c.options key req g { w₁ with stores := s } := by
          simp only [consumeWithKey, arrive, hpolicy, hinc]
        obtain ⟨hstores, hanswer⟩ := settle_spec c.options key req g { w₁ with stores := s }
        rw [hcon]
        refine ⟨h₁.same (hsame.trans ?_), fun _ r hr => ?_⟩
        · rcases hstores with heq | ⟨dec, heq⟩
          · rw [World.bank, heq]
            exact SameWindows.refl _
          · rw [World.bank, heq]
            exact sameWindows_rollbackDraft_options dec g s
        · obtain ⟨hslot, hblocked⟩ := hanswer r hr
          rw [← hbank]
          exact ⟨i, hslot.trans hindex, hbinds.lt, hbinds.least,
            fun hb => hbinds.first (hblocked hb)⟩

/-! ## The headers -/

/-- The window of a limit, in milliseconds. -/
theorem windowMs_windowOptions (entry : WindowLimitSpec) :
    entry.windowOptions.windowMs = sanitizeWindowMs (some entry.windowMs) 60000 :=
  sanitizeAtLeast_ofInt _ (le_sanitizeAtLeast _ (by decide) (by decide))
    (sanitizeAtLeast_le _ (by decide))

/-- The cap of a limit. -/
theorem maxRequests_windowOptions (entry : WindowLimitSpec) :
    entry.windowOptions.maxRequests = sanitizeRateLimitCap (some entry.max) 100 :=
  sanitizeAtLeast_ofInt _ (le_sanitizeAtLeast _ (by decide) (by decide))
    (sanitizeAtLeast_le _ (by decide))

/-- The layers get no cap with a request. -/
theorem maxRequests_resolveIncrementOpts (c : LimitsConfig ρ τ κ) (req : ρ) :
    (resolveIncrementOpts c.options req).maxRequests = none := by
  have hmulti : (!c.options.limits.isEmpty || !c.options.groupedWindowStores.isEmpty) = true := by
    rw [Bool.or_eq_true, Bool.not_eq_true', List.isEmpty_eq_false_iff]
    exact Or.inl c.limits_ne
  unfold resolveIncrementOpts
  rw [isWindowOpts_options, if_pos rfl, hmulti]
  rfl

/-- With the index of an entry the headers have its limit and its window. -/
theorem resolveHeaderConfig_limits (req : ρ) {i : ℕ} {entry : WindowLimitSpec}
    (h : c.limits[i]? = some entry) :
    (resolveHeaderConfig (mergeRateLimiterOptions c) req (some i)).resolvedLimit =
        sanitizeRateLimitCap (some entry.max) 100 ∧
      (resolveHeaderConfig (mergeRateLimiterOptions c) req (some i)).resolvedWindowMs =
        .ofInt (sanitizeWindowMs (some entry.windowMs) 60000) := by
  have hstrategy : (mergeRateLimiterOptions c).strategy ≠ .tokenBucket := c.strategy_window
  have hlimits : (mergeRateLimiterOptions c).limits = c.limits := rfl
  constructor
  · show getLimit _ req (some i) = _
    unfold getLimit
    rw [if_neg hstrategy, hlimits, if_pos c.limits_ne]
    simp only [Option.bind_some, List.getElem?_map, h, Option.map_some, Option.getD_some]
  · show resolveWindowMsForHeaders _ (some i) = _
    unfold resolveWindowMsForHeaders
    rw [if_neg hstrategy, hlimits, if_pos c.limits_ne]
    simp only [Option.bind_some, List.getElem?_map, h, Option.map_some, Option.getD_some]

/-- The answer's slot binds, and the headers have the cap and the window that its layer's
store enforces: those of the entry, sanitized. -/
def DescribesBinding (c : LimitsConfig ρ τ κ) (key : κ) (req : ρ) (s : StoreBank κ)
    (r : RateLimitConsumeResult) : Prop :=
  let options := resolveIncrementOpts c.options req
  let config := resolveHeaderConfig (mergeRateLimiterOptions c) req r.bindingSlotIndex
  ∃ i entry o, r.bindingSlotIndex = some i ∧ c.limits[i]? = some entry ∧
    Binds c.limits.length (slotAnswer key options s) r.isBlocked i ∧
    (s.stores i).windowOptions? = some o ∧
    o.cap options.maxRequests = sanitizeRateLimitCap (some entry.max) 100 ∧
    config.resolvedLimit = o.cap options.maxRequests ∧
    o.windowMs = sanitizeWindowMs (some entry.windowMs) 60000 ∧
    config.resolvedWindowMs = .ofInt o.windowMs

/-- **The binding window is described** by the answer of the slot that binds. -/
theorem describesBinding {s : StoreBank κ} (h : BuiltFrom c.limits s) {i : ℕ}
    {r : RateLimitConsumeResult} (hindex : r.bindingSlotIndex = some i)
    (hbinds : Binds c.limits.length
      (slotAnswer key (resolveIncrementOpts c.options req) s) r.isBlocked i) :
    DescribesBinding c key req s r := by
  obtain ⟨entry, hentry⟩ : ∃ entry, c.limits[i]? = some entry :=
    ⟨_, List.getElem?_eq_getElem hbinds.lt⟩
  obtain ⟨hlimit, hwindow⟩ := resolveHeaderConfig_limits req hentry
  have hcap : entry.windowOptions.cap (resolveIncrementOpts c.options req).maxRequests =
      sanitizeRateLimitCap (some entry.max) 100 := by
    rw [maxRequests_resolveIncrementOpts, WindowOptions.cap_none, maxRequests_windowOptions]
  refine ⟨i, entry, entry.windowOptions, hindex, hentry, hbinds, h.windowOptions i _ hentry,
    hcap, ?_, windowMs_windowOptions _, ?_⟩
  · rw [hindex, hcap, hlimit]
  · rw [hindex, windowMs_windowOptions, hwindow]

/-- Every event keeps the stores' options. -/
theorem builtFrom_step (c : LimitsConfig ρ τ κ) (e : LimitsEvent ρ τ κ)
    (w : World (LimitsState τ κ) κ) (h : BuiltFrom c.limits w.bank) :
    BuiltFrom c.limits (limitsStep c e w).1.bank := by
  cases e with
  | consume time manager key req =>
    have harrive : BuiltFrom c.limits (w.arriveAt time manager).bank :=
      ⟨h.failing, h.windowOptions⟩
    exact (consumeWithKey_limits harrive).1
  | cleanup time slot =>
    exact h.same (sameWindows_put ((w.bank.stores slot).windowOptions?_purgeExpired time))

/-- After every run the bank is built from the limits. -/
theorem builtFrom_run (c : LimitsConfig ρ τ κ) (es : List (LimitsEvent ρ τ κ))
    (w : World (LimitsState τ κ) κ) (h : BuiltFrom c.limits w.bank) :
    BuiltFrom c.limits (final (limitsStep c) es w).bank := by
  induction es generalizing w with
  | nil => exact h
  | cons e es ih => exact ih _ (builtFrom_step c e w h)

end Limits

/-! ## Main result -/

/-- **The headers describe the window that binds.**  In every run over options with `limits`,
a consume whose answer policy does not give answers with the index of a slot that is the
first to block, if the answer is blocked, and has the least quota left; and with this index
the headers' limit and window are those the slot's store enforces, the entry's own,
sanitized.
SOURCE: src/strategies/rate-limit-engine.ts:408-433, src/composition/ComposedStore.ts:433-523,
src/middleware/merge-options.ts:342-373, src/headers/resolveConfig.ts:30-99 -/
theorem headers_describe_binding_window {ρ τ κ : Type} [DecidableEq κ] (c : LimitsConfig ρ τ κ)
    (now : ℤ) (manager : τ) (es : List (LimitsEvent ρ τ κ)) (time : ℤ) (manager' : τ) (key : κ)
    (req : ρ) (r : RateLimitConsumeResult) :
    let w := final (limitsStep c) es (c.start now manager)
    let found := w.arriveAt time manager'
    (policyResult c.options key req found).1 = none →
      (limitsStep c (.consume time manager' key req) w).2 = some (.ok r) →
        DescribesBinding c key req found.bank r := by
  intro w found hpolicy hanswer
  have hbuilt : BuiltFrom c.limits found.bank := by
    have hrun := builtFrom_run c es (c.start now manager) (builtFrom_limitsBank c.strategy now)
    exact ⟨hrun.failing, hrun.windowOptions⟩
  obtain ⟨i, hindex, hbinds⟩ := (consumeWithKey_limits hbuilt).2 hpolicy r
    (Option.some.inj hanswer)
  exact describesBinding hbuilt hindex hbinds

/-- Two requests a second and one a minute. -/
def twoThenOne : LimitsConfig Unit Unit ℕ where
  limits := [⟨1000, 2⟩, ⟨60000, 1⟩]
  strategy_window h := RateLimitStrategy.noConfusion h
  limits_ne h := List.cons_ne_nil _ _ h

/-- The second request is over the minute's limit, and its headers say so. -/
theorem headers_describe_minute :
    ∃ r, r.isBlocked = true ∧ r.bindingSlotIndex = some 1 ∧
      DescribesBinding twoThenOne 0 ()
        ((final (limitsStep twoThenOne) [.consume 0 () 0 ()]
          (twoThenOne.start 0 ())).arriveAt 500 ()).bank r := by
  have hanswer : (((limitsStep twoThenOne (.consume 500 () 0 ())
      (final (limitsStep twoThenOne) [.consume 0 () 0 ()]
        (twoThenOne.start 0 ()))).2.bind Except.toOption).map fun r =>
          (r.isBlocked, r.bindingSlotIndex)) = some (true, some 1) := by decide +kernel
  obtain ⟨r, hr, hfields⟩ := Option.map_eq_some_iff.mp hanswer
  obtain ⟨answer, hstep, hok⟩ := Option.bind_eq_some_iff.mp hr
  obtain ⟨hblocked, hindex⟩ := Prod.mk.inj hfields
  cases answer with
  | error e => cases hok
  | ok r' =>
    obtain rfl := Option.some.inj hok
    exact ⟨r', hblocked, hindex, headers_describe_binding_window twoThenOne 0 ()
      [.consume 0 () 0 ()] 500 () 0 () r' (by decide +kernel) hstep⟩

end RatelimitFlex
