import RatelimitFlex.Program.RateLimitEngine

/-!
# `ComposedStore`

`src/composition/ComposedStore.ts`: several stores behind one store interface, in four
modes.  The layers' own state is `σ`, as for the engine.  What the composed store itself
remembers is the stack of frames each allowed increment pushes and each decrement pops, the
last winner of `first-available`, and the route of `overflow`.  `settledFirst` is which
layer's promise settles first in `race`, `none` when the timeout comes before it.

Left out are the cached last results, which only `getLayerResults` and `summarize` read,
and the paths of nested compositions (`decidingPath`, `innerLayers`).
-/

set_option autoImplicit false

namespace RatelimitFlex

/-- SOURCE: src/composition/types.ts:24 -/
inductive CompositionMode where
  | all
  | overflow
  | firstAvailable
  | race
  deriving DecidableEq

/-- SOURCE: src/composition/types.ts:29-47 -/
structure CompositionLayer (σ κ : Type) where
  label : String
  store : RateLimitStore σ κ
  keyTransform : Option (κ → κ) := none
  maxRequests : Option JsNumber := none

/-- What the constructor accepts; `burstKey` is the default `burst:${key}`.
SOURCE: src/composition/ComposedStore.ts:206-225, 249-254 -/
structure ComposedStore (σ κ : Type) where
  mode : CompositionMode
  layers : List (CompositionLayer σ κ)
  rollbackOnBlock : Bool := true
  burstKey : κ → κ
  clock : σ → ℤ
  settledFirst : σ → Option ℕ
  layers_ne : layers ≠ []
  labels_nodup : (layers.map CompositionLayer.label).Nodup
  overflow_two : mode = .overflow → layers.length = 2

/-- SOURCE: src/composition/ComposedStore.ts:195 -/
inductive OverflowRoute where
  | primary
  | burst
  deriving DecidableEq

/-- The layers' state and the bookkeeping, each map by key; a stack has its top first.
SOURCE: src/composition/ComposedStore.ts:188-198 -/
structure ComposedState (σ κ : Type) where
  inner : σ
  decrementStacks : κ → List (List ℕ) := fun _ => []
  firstAvailableWinner : κ → Option ℕ := fun _ => none
  overflowRoute : κ → Option OverflowRoute := fun _ => none
  overflowRouteExpiryMs : κ → Option ℤ := fun _ => none

/-- `Math.max(...xs)` of a nonempty list. -/
def maximum : List ℤ → ℤ
  | [] => 0
  | x :: xs => xs.foldl max x

/-! ## Rows and options -/

/-- SOURCE: src/composition/ComposedStore.ts:27-36 -/
def mergeIncOpts {σ κ : Type} (layer : CompositionLayer σ κ) (base : RateLimitIncrementOptions) :
    RateLimitIncrementOptions :=
  { base with maxRequests := layer.maxRequests.or base.maxRequests }

/-- SOURCE: src/composition/ComposedStore.ts:38-47 -/
def emptyRow (now : ℤ) (consulted : Bool) (err : Option String) : LayerResult where
  totalHits := 0
  remaining := 0
  resetTime := now
  isBlocked := true
  consulted
  error := err

/-- SOURCE: src/composition/ComposedStore.ts:49-57 -/
def notConsultedRow (resetTime : ℤ) : LayerResult where
  totalHits := 0
  remaining := 0
  resetTime
  isBlocked := false
  consulted := false

/-- SOURCE: src/composition/ComposedStore.ts:67-79 -/
def rowFromRateLimitResult (r : RateLimitResult) : LayerResult where
  totalHits := r.totalHits
  remaining := r.remaining
  resetTime := r.resetTime
  isBlocked := r.isBlocked
  consulted := true

/-- The row of a settled increment. -/
def settledRow (now : ℤ) : Except StoreError RateLimitResult → LayerResult
  | .error e => emptyRow now true (some e.message)
  | .ok r => rowFromRateLimitResult r

/-- SOURCE: src/composition/ComposedStore.ts:281-284 -/
def CompositionLayer.layerKey {σ κ : Type} (layer : CompositionLayer σ κ) (key : κ) : κ :=
  (layer.keyTransform.getD id) key

/-- The increment was rejected. -/
def isRejected : Except StoreError RateLimitResult → Bool
  | .error _ => true
  | .ok _ => false

/-- The increment was answered, and the answer blocks. -/
def blocks : Except StoreError RateLimitResult → Bool
  | .error _ => false
  | .ok r => r.isBlocked

/-- The increment was answered, and the answer allows. -/
def allows : Except StoreError RateLimitResult → Bool
  | .error _ => false
  | .ok r => !r.isBlocked

/-- Mode `all` blocks: a layer rejected, or a layer blocks. -/
def isRefused (settled : List (Except StoreError RateLimitResult)) : Bool :=
  settled.any isRejected || settled.any blocks

namespace ComposedStore

variable {σ κ : Type} (c : ComposedStore σ κ)

/-- `this.layers[0]`. -/
def primary : CompositionLayer σ κ := c.layers.head c.layers_ne

/-- `this.layers[1]` in `overflow` mode, which has two layers. -/
def burst : CompositionLayer σ κ := c.layers.getLast c.layers_ne

/-- SOURCE: src/composition/ComposedStore.ts:249-254 -/
def overflowBurstKey (key : κ) : κ := (c.burst.keyTransform.getD c.burstKey) key

/-- SOURCE: src/composition/ComposedStore.ts:256-262 -/
def overflowStorageKey (layerIndex : ℕ) (key : κ) : κ :=
  if layerIndex = 1 then c.overflowBurstKey key else c.primary.layerKey key

/-! ## The increments of the layers -/

/-- The increments of all layers, settled. -/
def incrementLayers (key : κ) (options : RateLimitIncrementOptions) :
    List (CompositionLayer σ κ) → σ → List (Except StoreError RateLimitResult) × σ
  | [], s => ([], s)
  | layer :: layers, s =>
    let (r, s) := layer.store.increment (layer.layerKey key) (mergeIncOpts layer options) s
    let (rs, s) := incrementLayers key options layers s
    (r :: rs, s)

/-- Undoes the increment of a layer that allowed it, its newest units.
SOURCE: src/composition/ComposedStore.ts:307-321 -/
def rollbackSuccess (key : κ) (options : RateLimitIncrementOptions) (layer : CompositionLayer σ κ)
    (s : σ) : σ :=
  layer.store.decrement (layer.layerKey key)
    { matchingDecrementOptions (mergeIncOpts layer options) with removeNewest := true } s

/-- Undoes the increments of all layers that allowed it, in order.
SOURCE: src/composition/ComposedStore.ts:454-469 -/
def rollbackAllowed (key : κ) (options : RateLimitIncrementOptions) :
    List (CompositionLayer σ κ × Except StoreError RateLimitResult) → σ → σ
  | [], s => s
  | (layer, r) :: rest, s =>
    rollbackAllowed key options rest
      (if allows r then rollbackSuccess key options layer s else s)

/-- The answers among the settled increments. -/
def fulfilled (settled : List (Except StoreError RateLimitResult)) : List RateLimitResult :=
  settled.filterMap Except.toOption

/-- The row of every layer, under its label. -/
def rows (now : ℤ) (settled : List (Except StoreError RateLimitResult)) :
    List (String × LayerResult) :=
  (c.layers.zip settled).map fun p => (p.1.label, settledRow now p.2)

/-! ## The frames -/

section Frames

variable [DecidableEq κ]

/-- SOURCE: src/composition/ComposedStore.ts:286-293 -/
def pushFrame (key : κ) (frame : List ℕ) (st : ComposedState σ κ) : ComposedState σ κ :=
  { st with
    decrementStacks := Function.update st.decrementStacks key (frame :: st.decrementStacks key) }

/-- SOURCE: src/composition/ComposedStore.ts:295-305 -/
def popFrame (key : κ) (st : ComposedState σ κ) : Option (List ℕ) × ComposedState σ κ :=
  ((st.decrementStacks key).head?,
    { st with
      decrementStacks := Function.update st.decrementStacks key (st.decrementStacks key).tail })

/-- SOURCE: src/composition/ComposedStore.ts:276-279 -/
def clearOverflowRouteState (key : κ) (st : ComposedState σ κ) : ComposedState σ κ :=
  { st with
    overflowRoute := Function.update st.overflowRoute key none
    overflowRouteExpiryMs := Function.update st.overflowRouteExpiryMs key none }

/-- SOURCE: src/composition/ComposedStore.ts:268-274 -/
def sweepOverflowRouteIfExpired (key : κ) (st : ComposedState σ κ) : ComposedState σ κ :=
  match st.overflowRouteExpiryMs key with
  | some exp => if exp ≤ c.clock st.inner then clearOverflowRouteState key st else st
  | none => st

/-- Remembers the layer that overflow mode used and when that ends. -/
def setOverflowRoute (key : κ) (route : OverflowRoute) (expiryMs : ℤ) (st : ComposedState σ κ) :
    ComposedState σ κ :=
  { st with
    overflowRoute := Function.update st.overflowRoute key (some route)
    overflowRouteExpiryMs := Function.update st.overflowRouteExpiryMs key (some expiryMs) }

/-! ## Increment -/

/-- Of several layers the one with the least quota left, the earlier on a tie. -/
def tightest (first : String × RateLimitResult) (rest : List (String × RateLimitResult)) :
    String × RateLimitResult :=
  rest.foldl (fun best p => if p.2.remaining < best.2.remaining then p else best) first

/-- The label of the first layer whose increment satisfies `p`, else of the first layer. -/
def labelWhere (p : Except StoreError RateLimitResult → Bool)
    (settled : List (Except StoreError RateLimitResult)) : String :=
  match (c.layers.zip settled).find? fun q => p q.2 with
  | some q => q.1.label
  | none => c.primary.label

/-- The answer of mode `all` when a layer blocks or rejects.
SOURCE: src/composition/ComposedStore.ts:436-496 -/
def blockedAll (now : ℤ) (settled : List (Except StoreError RateLimitResult)) :
    RateLimitResult :=
  let answers := fulfilled settled
  let blocked := answers.filter fun r => r.isBlocked
  { totalHits := maximum (answers.map RateLimitResult.totalHits)
    remaining := minimum (answers.map RateLimitResult.remaining)
    resetTime :=
      if blocked ≠ [] then minimum (blocked.map RateLimitResult.resetTime)
      else if answers ≠ [] then minimum (answers.map RateLimitResult.resetTime)
      else now
    isBlocked := true
    storeUnavailable := answers.any fun r => r.storeUnavailable
    mode := some "all"
    decidingLayer := some (if settled.any isRejected then c.labelWhere isRejected settled
      else c.labelWhere blocks settled)
    layers := some (c.rows now settled) }

/-- The answer of mode `all` when every layer allows.
SOURCE: src/composition/ComposedStore.ts:498-523 -/
def allowedAll (now : ℤ) (settled : List (Except StoreError RateLimitResult)) :
    RateLimitResult :=
  let answers := fulfilled settled
  { totalHits := maximum (answers.map RateLimitResult.totalHits)
    remaining := minimum (answers.map RateLimitResult.remaining)
    resetTime := minimum (answers.map RateLimitResult.resetTime)
    isBlocked := false
    storeUnavailable := answers.any fun r => r.storeUnavailable
    mode := some "all"
    decidingLayer := some (match (c.layers.map CompositionLayer.label).zip answers with
      | [] => c.primary.label
      | p :: ps => (tightest p ps).1)
    layers := some (c.rows now settled) }

/-- SOURCE: src/composition/ComposedStore.ts:404-524 -/
def incrementAll (key : κ) (options : RateLimitIncrementOptions) (st : ComposedState σ κ) :
    RateLimitResult × ComposedState σ κ :=
  let (settled, inner) := incrementLayers key options c.layers st.inner
  let now := c.clock inner
  if settled.any isRejected || settled.any blocks then
    let inner := if c.rollbackOnBlock then rollbackAllowed key options (c.layers.zip settled) inner
      else inner
    (c.blockedAll now settled, { st with inner })
  else
    (c.allowedAll now settled, pushFrame key (List.range c.layers.length) { st with inner })

/-- SOURCE: src/composition/ComposedStore.ts:526-600 -/
def incrementOverflow (key : κ) (options : RateLimitIncrementOptions) (st : ComposedState σ κ) :
    Except StoreError RateLimitResult × ComposedState σ κ :=
  let st := c.sweepOverflowRouteIfExpired key st
  match c.primary.store.increment (c.primary.layerKey key) (mergeIncOpts c.primary options)
      st.inner with
  | (.error e, inner) => (.error e, { st with inner })
  | (.ok pr, inner) =>
    if !pr.isBlocked then
      (.ok { pr with
          mode := some "overflow"
          decidingLayer := some c.primary.label
          layers := some [(c.primary.label, rowFromRateLimitResult pr),
            (c.burst.label, emptyRow pr.resetTime false none)] },
        setOverflowRoute key .primary pr.resetTime (pushFrame key [0] { st with inner }))
    else
      match c.burst.store.increment (c.overflowBurstKey key) (mergeIncOpts c.burst options)
          inner with
      | (.error e, inner) => (.error e, { st with inner })
      | (.ok br, inner) =>
        let soonest := min pr.resetTime br.resetTime
        let layers := some [(c.primary.label, rowFromRateLimitResult pr),
          (c.burst.label, rowFromRateLimitResult br)]
        if !br.isBlocked then
          (.ok
            { totalHits := pr.totalHits
              remaining := br.remaining
              resetTime := soonest
              isBlocked := false
              storeUnavailable := pr.storeUnavailable || br.storeUnavailable
              mode := some "overflow"
              decidingLayer := some c.burst.label
              layers },
            setOverflowRoute key .burst soonest (pushFrame key [1] { st with inner }))
        else
          (.ok
            { totalHits := max pr.totalHits br.totalHits
              remaining := 0
              resetTime := soonest
              isBlocked := true
              storeUnavailable := pr.storeUnavailable || br.storeUnavailable
              mode := some "overflow"
              decidingLayer := some c.burst.label
              layers },
            setOverflowRoute key .burst soonest { st with inner })

/-- What the loop of `first-available` has seen so far: the rows, the last layer asked and
the last answer. -/
structure Tried where
  rows : List (String × LayerResult)
  lastLabel : String
  lastBlocked : Option RateLimitResult

/-- The loop of `first-available` from layer number `i` on: the winner, or what was tried.
SOURCE: src/composition/ComposedStore.ts:608-644 -/
def tryLayers (key : κ) (options : RateLimitIncrementOptions) :
    ℕ → List (CompositionLayer σ κ) → Tried → σ →
      (Option (ℕ × CompositionLayer σ κ × RateLimitResult) × Tried) × σ
  | _, [], tried, s => ((none, tried), s)
  | i, layer :: rest, tried, s =>
    match layer.store.increment (layer.layerKey key) (mergeIncOpts layer options) s with
    | (.error e, s) =>
      tryLayers key options (i + 1) rest
        { tried with
          rows := tried.rows ++ [(layer.label, emptyRow (c.clock s) true (some e.message))]
          lastLabel := layer.label } s
    | (.ok r, s) =>
      let tried : Tried :=
        { rows := tried.rows ++ [(layer.label, rowFromRateLimitResult r)]
          lastLabel := layer.label
          lastBlocked := some r }
      if !r.isBlocked then
        let others := rest.map fun l => (l.label, notConsultedRow r.resetTime)
        ((some (i, layer, r), { tried with rows := tried.rows ++ others }), s)
      else tryLayers key options (i + 1) rest tried s

/-- SOURCE: src/composition/ComposedStore.ts:602-662 -/
def incrementFirstAvailable (key : κ) (options : RateLimitIncrementOptions)
    (st : ComposedState σ κ) : RateLimitResult × ComposedState σ κ :=
  match c.tryLayers key options 0 c.layers ⟨[], c.primary.label, none⟩ st.inner with
  | ((some (i, layer, r), tried), inner) =>
    ({ r with
        mode := some "first-available"
        decidingLayer := some layer.label
        layers := some tried.rows },
      pushFrame key [i]
        { st with
          inner
          firstAvailableWinner := Function.update st.firstAvailableWinner key (some i) })
  | ((none, tried), inner) =>
    let resets := (tried.rows.filter fun p => p.2.consulted && p.2.error.isNone).map
      fun p => p.2.resetTime
    ({ totalHits := (tried.lastBlocked.map RateLimitResult.totalHits).getD 0
       remaining := 0
       resetTime :=
        if resets ≠ [] then minimum resets
        else (tried.lastBlocked.map RateLimitResult.resetTime).getD (c.clock inner)
       isBlocked := true
       storeUnavailable := (tried.lastBlocked.map RateLimitResult.storeUnavailable).getD false
       mode := some "first-available"
       decidingLayer := some tried.lastLabel
       layers := some tried.rows }, { st with inner })

/-- The layer whose answer decides a race: the one that settled first, or the first one that
was not rejected when that was an error.
SOURCE: src/composition/ComposedStore.ts:742-770 -/
def raceWinner (settled : List (Except StoreError RateLimitResult)) (first : ℕ) :
    Option (ℕ × RateLimitResult) :=
  match settled[first]? with
  | some (.ok r) => some (first, r)
  | _ => settled.zipIdx.findSome? fun p => match p.1 with
    | .ok r => some (p.2, r)
    | .error _ => none

/-- SOURCE: src/composition/ComposedStore.ts:664-799 -/
def incrementRace (key : κ) (options : RateLimitIncrementOptions) (st : ComposedState σ κ) :
    RateLimitResult × ComposedState σ κ :=
  let first := c.settledFirst st.inner
  let (settled, inner) := incrementLayers key options c.layers st.inner
  let now := c.clock inner
  match first with
  | none =>
    ({ totalHits := 0
       remaining := 0
       resetTime := now
       isBlocked := true
       mode := some "race"
       decidingLayer := some "timeout"
       layers := some (c.layers.map fun l => (l.label, emptyRow now true (some "pending"))) },
      { st with inner })
  | some first =>
    match raceWinner settled first with
    | none =>
      ({ totalHits := 0
         remaining := 0
         resetTime := now
         isBlocked := true
         storeUnavailable := true
         mode := some "race"
         decidingLayer := some c.primary.label
         layers := some (c.rows now settled) }, { st with inner })
    | some (winner, r) =>
      let losers := (c.layers.zip settled).eraseIdx winner
      let label := (c.layers[winner]?.map CompositionLayer.label).getD c.primary.label
      ({ r with
          mode := some "race"
          decidingLayer := some label
          layers := some (c.rows now settled) },
        pushFrame key [winner] { st with inner := rollbackAllowed key options losers inner })

/-- SOURCE: src/composition/ComposedStore.ts:324-348 -/
def increment (key : κ) (options : RateLimitIncrementOptions) (st : ComposedState σ κ) :
    Except StoreError RateLimitResult × ComposedState σ κ :=
  match c.mode with
  | .all => let r := c.incrementAll key options st; (.ok r.1, r.2)
  | .overflow => c.incrementOverflow key options st
  | .firstAvailable => let r := c.incrementFirstAvailable key options st; (.ok r.1, r.2)
  | .race => let r := c.incrementRace key options st; (.ok r.1, r.2)

/-! ## Decrement -/

/-- One decrement of a layer; a number that is no layer's does nothing. -/
def decrementLayer (key : κ) (options : RateLimitDecrementOptions) (index : ℕ)
    (st : ComposedState σ κ) : ComposedState σ κ :=
  match c.layers[index]? with
  | some layer => { st with inner := layer.store.decrement (layer.layerKey key) options st.inner }
  | none => st

/-- SOURCE: src/composition/ComposedStore.ts:826-878 -/
def decrement (key : κ) (options : RateLimitDecrementOptions) (st : ComposedState σ κ) :
    ComposedState σ κ :=
  match c.mode with
  | .firstAvailable =>
    let index := st.firstAvailableWinner key
    let st := { st with
      firstAvailableWinner := Function.update st.firstAvailableWinner key none }
    c.decrementLayer key options (index.getD 0) st
  | .overflow =>
    let (frame, st) := popFrame key st
    let st := match frame with
      | some (index :: _) =>
        match c.layers[index]? with
        | some layer =>
          { st with inner := layer.store.decrement (c.overflowStorageKey index key) options st.inner }
        | none => st
      | _ => st
    if st.decrementStacks key = [] then clearOverflowRouteState key st else st
  | _ =>
    match popFrame key st with
    | (none, st) => st
    | (some frame, st) => frame.foldl (fun st index => c.decrementLayer key options index st) st

/-- Gives back what the layers that blocked still hold; only in mode `all`.
SOURCE: src/composition/ComposedStore.ts:806-823 -/
def rollbackDraftForBlockedIncrement (key : κ) (result : RateLimitResult)
    (options : RateLimitDecrementOptions) (st : ComposedState σ κ) : ComposedState σ κ :=
  match c.mode with
  | .all =>
    let dec : RateLimitDecrementOptions :=
      { cost := some (JsNumber.ofInt (sanitizeIncrementCost options.cost 1)) }
    let layerRows := result.layers.getD []
    c.layers.foldl (fun st layer =>
      match layerRows.lookup layer.label with
      | some row =>
        if row.consulted && row.isBlocked && row.error.getD "" == "" then
          { st with inner := layer.store.decrement (layer.layerKey key) dec st.inner }
        else st
      | none => st) st
  | _ => st

/-- The composed store behind the engine's store interface. -/
def toStore : RateLimitStore (ComposedState σ κ) κ where
  increment := c.increment
  decrement := c.decrement
  rollbackDraftForBlockedIncrement := some fun key result options st =>
    (.ok (), c.rollbackDraftForBlockedIncrement key result options st)
  isComposed := true

end Frames

end ComposedStore

/-- The winner of a race is a layer that answered. -/
theorem raceWinner_eq_some {settled : List (Except StoreError RateLimitResult)} {first w : ℕ}
    {r : RateLimitResult} (h : ComposedStore.raceWinner settled first = some (w, r)) :
    settled[w]? = some (.ok r) := by
  unfold ComposedStore.raceWinner at h
  split at h
  · next r' hr =>
    obtain ⟨rfl, rfl⟩ := Prod.mk.inj (Option.some.inj h)
    exact hr
  · obtain ⟨⟨a, i⟩, hmem, ha⟩ := List.exists_of_findSome?_eq_some h
    have hget := List.mem_zipIdx_iff_getElem?.mp hmem
    cases a with
    | error e => simp at ha
    | ok r' =>
      obtain ⟨rfl, rfl⟩ := Prod.mk.inj (Option.some.inj ha)
      exact hget

/-- Without a winner every layer was rejected. -/
theorem raceWinner_eq_none {settled : List (Except StoreError RateLimitResult)} {first : ℕ}
    (h : ComposedStore.raceWinner settled first = none) {j : ℕ} {r : RateLimitResult} :
    settled[j]? ≠ some (.ok r) := by
  intro hj
  unfold ComposedStore.raceWinner at h
  split at h
  · simp at h
  · have hnone := List.findSome?_eq_none_iff.mp h (.ok r, j) (List.mem_zipIdx_iff_getElem?.mpr hj)
    simp at hnone

end RatelimitFlex
