import RatelimitFlex.Library.InsertionMap
import RatelimitFlex.Program.Types

/-!
# `RateLimitEngine`

`src/strategies/rate-limit-engine.ts`: policy checks, the increment of one store or of a
list of window slots, and what follows a block (draft rollback, penalty box).  The stores
are whatever answers `RateLimitStore`: a state type `σ` holds all of them, the key
manager and the clock (`Date.now()` is `clock` of the state at that point).  A rejected
promise is `Except.error`; a swallowed one leaves only its effect on the state.

`consumeWithKey` is cut where the code awaits: the policy checks and the increments
(`arrive`), then what is done with their result (`settle`).  The metrics counters, which
the decision does not read, are left out, and so is the `headers` field, always empty.
-/

set_option autoImplicit false

namespace RatelimitFlex

open Library

/-! ## Stores and options -/

/-- The value a rejected promise carries. -/
structure StoreError where
  message : String
  deriving DecidableEq

/-- What the engine uses of a store.
SOURCE: src/types/index.ts:184-262 -/
structure RateLimitStore (σ κ : Type) where
  increment : κ → RateLimitIncrementOptions → σ → Except StoreError RateLimitResult × σ
  decrement : κ → RateLimitDecrementOptions → σ → σ
  rollbackDraftForBlockedIncrement :
    Option (κ → RateLimitResult → RateLimitDecrementOptions → σ → Except StoreError Unit × σ) :=
      none
  isComposed : Bool := false

/-- What the engine uses of a `KeyManager`; `getBlockInfo` is read for `expiresAt`. -/
structure KeyManagerView (σ κ : Type) where
  isBlocked : κ → σ → Bool × σ
  expiresAt : κ → σ → Option ℤ × σ

/-- A number or a function of the request. -/
inductive Setting (ρ : Type) where
  | value (v : JsNumber)
  | function (f : ρ → JsNumber)

/-- SOURCE: src/types/index.ts:539-548 -/
structure WindowLimitSpec where
  windowMs : JsNumber
  max : JsNumber

/-- SOURCE: src/types/index.ts:576-583 -/
structure WindowSlot (σ κ : Type) where
  windowMs : ℤ
  maxRequests : ℤ
  store : RateLimitStore σ κ

/-- SOURCE: src/types/index.ts:509-531 -/
structure PenaltyBoxOptions where
  violationsThreshold : JsNumber
  violationWindowMs : Option JsNumber := none
  penaltyDurationMs : JsNumber

/-- SOURCE: src/types/index.ts:303-496, 557-631 -/
structure RateLimitOptions (ρ σ κ : Type) where
  clock : σ → ℤ
  store : RateLimitStore σ κ
  strategy : RateLimitStrategy := .slidingWindow
  maxRequests : Option (Setting ρ) := none
  limits : List WindowLimitSpec := []
  groupedWindowStores : List (WindowSlot σ κ) := []
  bucketSize : ℤ := 0
  incrementCost : Option (Setting ρ) := none
  skip : ρ → Bool := fun _ => false
  allowlist : List κ := []
  blocklist : List κ := []
  keyManager : Option (KeyManagerView σ κ) := none
  penaltyBox : Option PenaltyBoxOptions := none
  draft : Bool := false
  skipFailedRequests : Bool := false
  skipSuccessfulRequests : Bool := false
  onLayerBlock : Option (ρ → String → LayerResult → Except StoreError Unit) := none
  onDraftViolation : Option (ρ → RateLimitResult → Except StoreError Unit) := none
  onLimitReached : Option (ρ → RateLimitResult → Except StoreError Unit) := none

/-- SOURCE: src/types/index.ts:113 -/
inductive BlockReason where
  | rateLimit
  | blocklist
  | penalty
  | serviceUnavailable
  | keyManager
  deriving DecidableEq

/-- SOURCE: src/types/index.ts:99-119 -/
structure RateLimitConsumeResult extends RateLimitResult where
  draftWouldBlock : Bool := false
  blockReason : Option BlockReason := none
  bindingSlotIndex : Option ℕ := none
  deriving DecidableEq

/-- The fields of the engine that change.
SOURCE: src/strategies/rate-limit-engine.ts:203-207 -/
structure EngineState (κ : Type) where
  penaltyUntil : InsertionMap κ ℤ := ∅
  violationTimestamps : InsertionMap κ (List ℤ) := ∅
  penaltyExpiredSweepSeq : ℕ := 0

/-- The engine's own state and that of everything it talks to. -/
structure World (σ κ : Type) where
  engine : EngineState κ
  stores : σ

/-! ## Options of one request -/

section Options

variable {ρ σ κ : Type}

/-- SOURCE: src/strategies/rate-limit-engine.ts:99-101 -/
def isWindowOpts (o : RateLimitOptions ρ σ κ) : Bool := decide (o.strategy ≠ .tokenBucket)

/-- The value a setting has for a request. -/
def Setting.resolve : Setting ρ → ρ → JsNumber
  | .value v, _ => v
  | .function f, req => f req

/-- `undefined` is the record without fields.
SOURCE: src/strategies/rate-limit-engine.ts:113-145 -/
def resolveIncrementOpts (o : RateLimitOptions ρ σ κ) (req : ρ) : RateLimitIncrementOptions :=
  let cost : Option JsNumber :=
    o.incrementCost.map fun c => JsNumber.ofInt (sanitizeIncrementCost (some (c.resolve req)) 1)
  if isWindowOpts o then
    let hasMultiWindow := !o.limits.isEmpty || !o.groupedWindowStores.isEmpty
    let maxRequests : Option JsNumber := match o.maxRequests with
      | some (.function f) => some (JsNumber.ofInt (sanitizeRateLimitCap (some (f req)) 100))
      | some (.value v) =>
        if !hasMultiWindow && !o.store.isComposed then
          some (JsNumber.ofInt (sanitizeRateLimitCap (some v) 100))
        else none
      | none => none
    { maxRequests, cost }
  else { cost }

/-- SOURCE: src/strategies/rate-limit-engine.ts:156-158 -/
def matchingDecrementOptions (inc : RateLimitIncrementOptions) : RateLimitDecrementOptions :=
  { cost := some (JsNumber.ofInt (sanitizeIncrementCost inc.cost 1)) }

/-- `Math.min(...xs)` of a nonempty list. -/
def minimum : List ℤ → ℤ
  | [] => 0
  | x :: xs => xs.foldl min x

/-- SOURCE: src/middleware/merge-options.ts:93-122 -/
def getLimit (o : RateLimitOptions ρ σ κ) (req : ρ) (bindingSlotIndex : Option ℕ := none) : ℤ :=
  if o.strategy = .tokenBucket then o.bucketSize
  else if o.limits ≠ [] then
    let caps : List ℤ := o.limits.map fun e => (sanitizeRateLimitCap (some e.max) 100 : ℤ)
    (bindingSlotIndex.bind fun i => caps[i]?).getD (minimum caps)
  else if o.groupedWindowStores ≠ [] then
    let caps := o.groupedWindowStores.map WindowSlot.maxRequests
    (bindingSlotIndex.bind fun i => caps[i]?).getD (minimum caps)
  else
    sanitizeRateLimitCap (some ((o.maxRequests.getD (.value 100)).resolve req)) 100

end Options

/-! ## Grouped windows -/

section Grouped

variable {σ κ : Type}

/-- Of several blocking slots the one with the latest reset, else the slot with the lowest
remaining quota; the earlier slot on a tie.
SOURCE: src/strategies/rate-limit-engine.ts:653-686 -/
def computeBindingSlotIndex (done : List RateLimitResult) : Option ℕ :=
  match done with
  | [] => none
  | r₀ :: _ =>
    let numbered : List (RateLimitResult × ℕ) := done.zipIdx
    match numbered.filter fun p => p.1.isBlocked with
    | (r, i) :: blocked =>
      some (blocked.foldl (fun best p => if best.1 < p.1.resetTime then (p.1.resetTime, p.2)
        else best) (r.resetTime, i)).2
    | [] =>
      some (numbered.foldl (fun best p => if p.1.remaining < best.1 then (p.1.remaining, p.2)
        else best) (r₀.remaining, 0)).2

/-- SOURCE: src/strategies/rate-limit-engine.ts:688-732 -/
def mergeGroupedResults (now : ℤ) (results : List RateLimitResult) : RateLimitResult :=
  match results with
  | [] => { totalHits := 0, remaining := 0, resetTime := now, isBlocked := false }
  | r₀ :: _ =>
    match results.find? fun r => r.storeUnavailable with
    | some unavailable => unavailable
    | none =>
      match results.find? fun r => r.isBlocked with
      | some r =>
        { totalHits := r.totalHits, remaining := 0, resetTime := r.resetTime, isBlocked := true }
      | none =>
        { totalHits := results.foldl (fun m r => max m r.totalHits) 0
          remaining := results.foldl (fun m r => min m r.remaining) r₀.remaining
          resetTime := results.foldl (fun m r => max m r.resetTime) 0
          isBlocked := false }

/-- What the increments of one request come to.
SOURCE: src/strategies/rate-limit-engine.ts:601 -/
structure IncrementOutcome where
  result : RateLimitResult
  blockedAtIndex : Option ℕ := none
  bindingSlotIndex : Option ℕ := none

/-- The decrements of a rollback, in order, their errors swallowed. -/
def rollbackSlots (key : κ) (dec : RateLimitDecrementOptions) (slots : List (WindowSlot σ κ))
    (s : σ) : σ :=
  slots.foldl (fun s g => g.store.decrement key dec s) s

/-- The slot loop from the slots `rest` on, `done` being the results of those before.
SOURCE: src/strategies/rate-limit-engine.ts:604-643 -/
def groupedWindowsLoop (clock : σ → ℤ) (key : κ) (grouped : List (WindowSlot σ κ)) (draft : Bool)
    (incOpts : RateLimitIncrementOptions) :
    List (WindowSlot σ κ) → List RateLimitResult → σ → Except StoreError IncrementOutcome × σ
  | [], done, s =>
    (.ok { result := mergeGroupedResults (clock s) done
           bindingSlotIndex := computeBindingSlotIndex done }, s)
  | g :: rest, done, s =>
    let dec := matchingDecrementOptions incOpts
    match g.store.increment key
        { maxRequests := some (JsNumber.ofInt g.maxRequests), cost := incOpts.cost } s with
    | (.error e, s) => (.error e, rollbackSlots key dec (grouped.take done.length) s)
    | (.ok r, s) =>
      if r.isBlocked then
        let deferRollbackToDraft := draft && !r.storeUnavailable
        let s := if deferRollbackToDraft then s
          else rollbackSlots key dec (grouped.take done.length) s
        (.ok { result := mergeGroupedResults (clock s) (done ++ [r])
               blockedAtIndex := some done.length
               bindingSlotIndex := computeBindingSlotIndex (done ++ [r]) }, s)
      else groupedWindowsLoop clock key grouped draft incOpts rest (done ++ [r]) s

/-- SOURCE: src/strategies/rate-limit-engine.ts:595-644 -/
def consumeGroupedWindows (clock : σ → ℤ) (key : κ) (grouped : List (WindowSlot σ κ))
    (draft : Bool) (incOpts : RateLimitIncrementOptions) (s : σ) :
    Except StoreError IncrementOutcome × σ :=
  groupedWindowsLoop clock key grouped draft incOpts grouped [] s

end Grouped

/-! ## Policy -/

section Engine

variable {ρ σ κ : Type} [DecidableEq κ] (o : RateLimitOptions ρ σ κ)

/-- SOURCE: src/strategies/rate-limit-engine.ts:28 -/
def defaultBlockResetFallbackMs : ℤ := 60000

/-- SOURCE: src/strategies/rate-limit-engine.ts:182 -/
def penaltyExpiredSweepAlwaysSize : ℕ := 1024

/-- SOURCE: src/strategies/rate-limit-engine.ts:184 -/
def penaltyExpiredSweepInterval : ℕ := 256

/-- SOURCE: src/strategies/rate-limit-engine.ts:440-457 -/
def maybeSweepExpiredPenaltyEntries (now : ℤ) (e : EngineState κ) : EngineState κ :=
  if e.penaltyUntil.size = 0 then e
  else
    let e := { e with penaltyExpiredSweepSeq := e.penaltyExpiredSweepSeq + 1 }
    if penaltyExpiredSweepAlwaysSize ≤ e.penaltyUntil.size ∨
        e.penaltyExpiredSweepSeq % penaltyExpiredSweepInterval = 0 then
      { e with penaltyUntil := e.penaltyUntil.filterMapValues fun until_ =>
          if until_ ≤ now then none else some until_ }
    else e

/-- SOURCE: src/strategies/rate-limit-engine.ts:484-495 -/
def isPenaltyActive (now : ℤ) (key : κ) (e : EngineState κ) : Bool × EngineState κ :=
  match e.penaltyUntil.lookup key with
  | none => (false, e)
  | some until_ =>
    if until_ ≤ now then (false, { e with penaltyUntil := e.penaltyUntil.erase key })
    else (true, e)

/-- SOURCE: src/strategies/rate-limit-engine.ts:464-482 -/
def maybeSweepExpiredViolationEntries (cfg : PenaltyBoxOptions) (now : ℤ) (e : EngineState κ) :
    EngineState κ :=
  let windowMs : ℤ := sanitizeWindowMs (some (cfg.violationWindowMs.getD 3600000)) 3600000
  { e with violationTimestamps := e.violationTimestamps.filterMapValues fun timestamps =>
      match timestamps.filter fun t => decide (now - windowMs < t) with
      | [] => none
      | trimmed => some trimmed }

/-- SOURCE: src/strategies/rate-limit-engine.ts:497-522 -/
def recordViolation (now : ℤ) (key : κ) (e : EngineState κ) : EngineState κ :=
  match o.penaltyBox with
  | none => e
  | some cfg =>
    let windowMs : ℤ := sanitizeWindowMs (some (cfg.violationWindowMs.getD 3600000)) 3600000
    let threshold := sanitizeRateLimitCap (some cfg.violationsThreshold) 1
    let prev := (e.violationTimestamps.lookup key).getD []
    let trimmed := (prev.filter fun t => decide (now - windowMs < t)) ++ [now]
    let e := { e with violationTimestamps := e.violationTimestamps.set key trimmed }
    if threshold ≤ trimmed.length then
      let duration := sanitizePenaltyDurationMs (some cfg.penaltyDurationMs) 60000
      { e with
        penaltyUntil := e.penaltyUntil.set key (now + duration)
        violationTimestamps := e.violationTimestamps.erase key }
    else if 10000 < e.violationTimestamps.size then maybeSweepExpiredViolationEntries cfg now e
    else e

/-- SOURCE: src/strategies/rate-limit-engine.ts:785-798 -/
def buildPassthroughResult (req : ρ) (s : σ) : RateLimitConsumeResult where
  totalHits := 0
  remaining := getLimit o req
  resetTime := o.clock s + defaultBlockResetFallbackMs
  isBlocked := false

/-- SOURCE: src/strategies/rate-limit-engine.ts:754-779 -/
def buildPolicyBlockResult (req : ρ) (reason : BlockReason) (until_ : Option ℤ) (s : σ) :
    RateLimitConsumeResult where
  totalHits := getLimit o req
  remaining := 0
  resetTime := until_.getD (o.clock s + defaultBlockResetFallbackMs)
  isBlocked := true
  blockReason := some reason

/-- SOURCE: src/strategies/rate-limit-engine.ts:734-752 -/
def buildKeyManagerBlockResult (km : KeyManagerView σ κ) (key : κ) (req : ρ) (s : σ) :
    RateLimitConsumeResult × σ :=
  let (expiresAt, s) := km.expiresAt key s
  ({ totalHits := getLimit o req
     remaining := 0
     resetTime := expiresAt.getD (o.clock s + defaultBlockResetFallbackMs)
     isBlocked := true
     blockReason := some .keyManager }, s)

/-- The checks that decide a request without a store; `none` when none of them does.
SOURCE: src/strategies/rate-limit-engine.ts:263-299 -/
def policyResult (key : κ) (req : ρ) (w : World σ κ) :
    Option RateLimitConsumeResult × World σ κ :=
  let w := { w with engine := maybeSweepExpiredPenaltyEntries (o.clock w.stores) w.engine }
  if o.skip req then (some (buildPassthroughResult o req w.stores), w)
  else if key ∈ o.allowlist then (some (buildPassthroughResult o req w.stores), w)
  else if key ∈ o.blocklist then
    (some (buildPolicyBlockResult o req .blocklist none w.stores), w)
  else
    let (managed, w) : Option RateLimitConsumeResult × World σ κ := match o.keyManager with
      | none => (none, w)
      | some km =>
        let (blocked, s) := km.isBlocked key w.stores
        if blocked then
          let (out, s) := buildKeyManagerBlockResult o km key req s
          (some out, { w with stores := s })
        else (none, { w with stores := s })
    match managed with
    | some out => (some out, w)
    | none =>
      let (penaltyActive, engine) := isPenaltyActive (o.clock w.stores) key w.engine
      let w := { w with engine }
      if penaltyActive then
        (some (buildPolicyBlockResult o req .penalty (engine.penaltyUntil.lookup key) w.stores), w)
      else (none, w)

/-! ## Increment -/

/-- The number of a layer label `limit-0`, `limit-1`, … -/
def limitIndex (label : String) : Option ℕ :=
  let digits := label.toList.drop 6
  if label.toList.take 6 = "limit-".toList ∧ digits ≠ [] ∧ digits.all Char.isDigit then
    some (digits.foldl (fun n c => 10 * n + (c.toNat - 48)) 0)
  else none

/-- SOURCE: src/strategies/rate-limit-engine.ts:412-433 -/
def bindingSlotIndexForComposedResult (result : RateLimitResult) : Option ℕ :=
  if isWindowOpts o then
    match result.decidingLayer.bind limitIndex with
    | some idx => if idx < o.limits.length then some idx else none
    | none => none
  else none

/-- The increment of the one store, or of the window slots.
SOURCE: src/strategies/rate-limit-engine.ts:301-319 -/
def incrementStores (key : κ) (incOpts : RateLimitIncrementOptions) (s : σ) :
    Except StoreError IncrementOutcome × σ :=
  if isWindowOpts o ∧ o.groupedWindowStores ≠ [] then
    consumeGroupedWindows o.clock key o.groupedWindowStores o.draft incOpts s
  else
    match o.store.increment key incOpts s with
    | (.error e, s) => (.error e, s)
    | (.ok r, s) =>
      (.ok { result := r, bindingSlotIndex := bindingSlotIndexForComposedResult o r }, s)

/-- SOURCE: src/strategies/rate-limit-engine.ts:396-406 -/
def maybeOnLayerBlocks (req : ρ) (result : RateLimitResult) : Except StoreError Unit :=
  match o.onLayerBlock, result.layers with
  | some cb, some layers => layers.forM fun row =>
      if row.2.isBlocked && row.2.consulted && row.2.error.isNone then cb req row.1 row.2
      else .ok ()
  | _, _ => .ok ()

/-! ## After the increment -/

/-- The rollback of a blocked increment in draft mode.
SOURCE: src/strategies/rate-limit-engine.ts:323-347 -/
def rollbackDraft (key : κ) (dec : RateLimitDecrementOptions) (g : IncrementOutcome) (s : σ) :
    Except StoreError Unit × σ :=
  if isWindowOpts o ∧ o.groupedWindowStores ≠ [] then
    match g.blockedAtIndex with
    | some i => (.ok (), rollbackSlots key dec (o.groupedWindowStores.take (i + 1)) s)
    | none => (.ok (), s)
  else
    match o.store.rollbackDraftForBlockedIncrement with
    | some rollback => rollback key g.result dec s
    | none => (.ok (), o.store.decrement key dec s)

/-- What a consume answers for a request that draft mode lets pass.
SOURCE: src/strategies/rate-limit-engine.ts:351-366 -/
def draftOut (g : IncrementOutcome) : RateLimitConsumeResult where
  totalHits := g.result.totalHits
  remaining := g.result.remaining
  resetTime := g.result.resetTime
  isBlocked := false
  draftWouldBlock := true
  layers := g.result.layers
  mode := g.result.layers.bind fun _ => g.result.mode
  decidingLayer := g.result.layers.bind fun _ => g.result.decidingLayer
  bindingSlotIndex := g.bindingSlotIndex

/-- SOURCE: src/strategies/rate-limit-engine.ts:382-391 -/
def consumeResult (g : IncrementOutcome) : RateLimitConsumeResult where
  toRateLimitResult := g.result
  blockReason :=
    if g.result.isBlocked then
      some (if g.result.storeUnavailable then .serviceUnavailable else .rateLimit)
    else none
  bindingSlotIndex := g.bindingSlotIndex

/-- An application callback that may be missing. -/
def callHook (hook : Option (ρ → RateLimitResult → Except StoreError Unit)) (req : ρ)
    (r : RateLimitResult) : Except StoreError Unit :=
  match hook with
  | some cb => cb req r
  | none => .ok ()

/-- The part of `consumeWithKey` after the increments.
SOURCE: src/strategies/rate-limit-engine.ts:321-393 -/
def settle (key : κ) (req : ρ) (g : IncrementOutcome) (w : World σ κ) :
    Except StoreError RateLimitConsumeResult × World σ κ :=
  if g.result.isBlocked && o.draft && !g.result.storeUnavailable then
    match maybeOnLayerBlocks o req g.result with
    | .error e => (.error e, w)
    | .ok () =>
      let dec := matchingDecrementOptions (resolveIncrementOpts o req)
      match rollbackDraft o key dec g w.stores with
      | (.error e, s) => (.error e, { w with stores := s })
      | (.ok (), s) =>
        match callHook o.onDraftViolation req g.result with
        | .error e => (.error e, { w with stores := s })
        | .ok () => (.ok (draftOut g), { w with stores := s })
  else if g.result.isBlocked && !g.result.storeUnavailable then
    let w := { w with engine := recordViolation o (o.clock w.stores) key w.engine }
    match maybeOnLayerBlocks o req g.result with
    | .error e => (.error e, w)
    | .ok () =>
      match callHook o.onLimitReached req g.result with
      | .error e => (.error e, w)
      | .ok () => (.ok (consumeResult g), w)
  else (.ok (consumeResult g), w)

/-- How far a request comes before the code waits for its increments: decided by policy,
failed, or incremented. -/
inductive Arrival where
  | decided (r : RateLimitConsumeResult)
  | failed (e : StoreError)
  | incremented (g : IncrementOutcome)

/-- The part of `consumeWithKey` up to the increments.
SOURCE: src/strategies/rate-limit-engine.ts:263-319 -/
def arrive (key : κ) (req : ρ) (w : World σ κ) : Arrival × World σ κ :=
  match policyResult o key req w with
  | (some out, w) => (.decided out, w)
  | (none, w) =>
    match incrementStores o key (resolveIncrementOpts o req) w.stores with
    | (.error e, s) => (.failed e, { w with stores := s })
    | (.ok g, s) => (.incremented g, { w with stores := s })

/-- SOURCE: src/strategies/rate-limit-engine.ts:263-394 -/
def consumeWithKey (key : κ) (req : ρ) (w : World σ κ) :
    Except StoreError RateLimitConsumeResult × World σ κ :=
  match arrive o key req w with
  | (.decided out, w) => (.ok out, w)
  | (.failed e, w) => (.error e, w)
  | (.incremented g, w) => settle o key req g w

end Engine

end RatelimitFlex
