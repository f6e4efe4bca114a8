import Mathlib.Data.List.ReduceOption
import RatelimitFlex.Library.TimedRun
import RatelimitFlex.Program.StoreUtils

/-!
# The window strategies of `DynamoStore`

`src/stores/dynamo/DynamoStore.ts` and `src/stores/dynamo/sliding-weighted.ts`: an increment
is a loop of up to 24 attempts, each a short sequence of `UpdateItem` requests with a
condition, the first of which that holds commits.  A decrement is an `ADD` and, when that
takes the count below zero, a clamp.  A request is atomic; between two requests of one client
those of the others may run.  A commit carries the attributes its answer is computed from;
the weights of a sliding answer are rational numbers here.  A `get` is one `GetItem` and a
`set` one `PutItem`.
-/

set_option autoImplicit false

namespace RatelimitFlex

open Library

namespace DynamoStore

/-- SOURCE: src/stores/dynamo/sliding-weighted.ts:8-10 -/
def fixedWindowBoundaryMs (now : ℤ) (windowMs : ℕ) : ℤ := now / windowMs * windowMs

/-- `Math.ceil((now + 3 * windowMs) / 1000)`.
SOURCE: src/stores/dynamo/sliding-weighted.ts:44-46 -/
def ttlEpochSeconds (now : ℤ) (windowMs : ℕ) : ℤ := -(-(now + 3 * windowMs) / 1000)

/-- SOURCE: src/stores/dynamo/DynamoStore.ts:192-193, 281-294 -/
def maxAttempts : ℕ := 24

end DynamoStore

/-! ## The reference simulation -/

/-- SOURCE: src/stores/dynamo/sliding-weighted.ts:103-107 -/
structure WeightedWindowState where
  currentWindowStart : ℤ
  currentCount : ℤ
  previousCount : ℤ
  deriving DecidableEq

/-- SOURCE: src/stores/dynamo/sliding-weighted.ts:52-101 -/
def simulateWeightedIncrement (state : Option WeightedWindowState) (now : ℤ) (windowMs : ℕ)
    (cost : ℕ) : WeightedWindowState :=
  let thisBoundary := DynamoStore.fixedWindowBoundaryMs now windowMs
  match state with
  | none => ⟨thisBoundary, cost, 0⟩
  | some ⟨currentWindowStart, currentCount, previousCount⟩ =>
    if currentWindowStart = thisBoundary then
      ⟨currentWindowStart, currentCount + cost, previousCount⟩
    else if currentWindowStart + windowMs = thisBoundary then ⟨thisBoundary, cost, currentCount⟩
    else if currentWindowStart + windowMs < thisBoundary then ⟨thisBoundary, cost, 0⟩
    -- the clock moved backward
    else ⟨thisBoundary, cost, 0⟩

namespace DynamoStore

/-- SOURCE: src/stores/dynamo/sliding-weighted.ts:15-28 -/
def slidingWeight (now : ℤ) (windowMs : ℕ) (currentWindowStart : ℤ) : ℚ :=
  let elapsedInCurrent := now - currentWindowStart
  if elapsedInCurrent ≤ 0 then 1
  else if windowMs ≤ elapsedInCurrent then 0
  else 1 - elapsedInCurrent / windowMs

/-- SOURCE: src/stores/dynamo/sliding-weighted.ts:33-42 -/
def weightedSlidingCount (previousCount currentCount now : ℤ) (windowMs : ℕ)
    (currentWindowStart : ℤ) : ℚ :=
  previousCount * slidingWeight now windowMs currentWindowStart + currentCount

end DynamoStore

/-! ## Sliding window -/

/-- SOURCE: src/stores/dynamo/DynamoStore.ts:208-276 -/
structure DynamoSlidingItem extends WeightedWindowState where
  ttl : ℤ
  deriving DecidableEq

/-- The three requests of an attempt, in their order. -/
inductive SlidingUpdate where
  | sameWindow
  | rollOver
  | startFresh
  deriving DecidableEq

namespace DynamoStore

/-- The `ConditionExpression`; a comparison with a missing attribute is false.
SOURCE: src/stores/dynamo/DynamoStore.ts:220, 244, 267 -/
def slidingCondition (windowMs : ℕ) (thisBoundary : ℤ) (u : SlidingUpdate)
    (item : Option DynamoSlidingItem) : Bool :=
  match u, item with
  | .sameWindow, some x => decide (x.currentWindowStart = thisBoundary)
  | .rollOver, some x => decide (x.currentWindowStart = thisBoundary - windowMs)
  | .startFresh, none => true
  | .startFresh, some x => decide (x.currentWindowStart < thisBoundary)
  | _, none => false

/-- The `UpdateExpression`.  Only the last is sent to a key without an item.
SOURCE: src/stores/dynamo/DynamoStore.ts:210-276 -/
def slidingUpdated (now : ℤ) (windowMs cost : ℕ) (u : SlidingUpdate)
    (item : Option DynamoSlidingItem) : DynamoSlidingItem :=
  let thisBoundary := fixedWindowBoundaryMs now windowMs
  let ttl := ttlEpochSeconds now windowMs
  let currentCount := (item.map fun x => x.currentCount).getD 0
  match u with
  | .sameWindow =>
    { currentWindowStart := thisBoundary
      currentCount := currentCount + cost
      previousCount := (item.map fun x => x.previousCount).getD 0
      ttl }
  | .rollOver =>
    { currentWindowStart := thisBoundary, currentCount := cost, previousCount := currentCount,
      ttl }
  | .startFresh =>
    { currentWindowStart := thisBoundary, currentCount := cost, previousCount := 0, ttl }

end DynamoStore

/-- Where a sliding increment stands: about to send one of the requests of an attempt,
committed with the attributes that came back, or given up with an error. -/
inductive SlidingPhase where
  | sending (attempt : ℕ) (u : SlidingUpdate)
  | committed (attributes : DynamoSlidingItem)
  | failed (message : String)
  deriving DecidableEq

/-- One increment: its `Date.now()`, read once, and its options. -/
structure SlidingClient where
  now : ℤ
  options : RateLimitIncrementOptions
  phase : SlidingPhase

/-- The item of the key, and the increments by number. -/
structure DynamoSlidingKey where
  item : Option DynamoSlidingItem
  clients : ℕ → Option SlidingClient := fun _ => none

/-- The start of an increment, its next request, and a request that ends in an error other
than a failed condition. -/
inductive SlidingEvent where
  | start (i : ℕ) (now : ℤ) (options : RateLimitIncrementOptions)
  | send (i : ℕ)
  | error (i : ℕ) (message : String)

/-- An increment that has committed. -/
structure SlidingCommit where
  client : ℕ
  now : ℤ
  cost : ℕ
  deriving DecidableEq

namespace DynamoStore

/-- The message of the error after the last attempt.
SOURCE: src/stores/dynamo/DynamoStore.ts:278 -/
def slidingContention : String :=
  "DynamoStore: sliding increment could not commit (too much contention at window boundary)"

/-- Where an increment stands after a request whose condition has failed.
SOURCE: src/stores/dynamo/DynamoStore.ts:205-278 -/
def nextRequest (attempt : ℕ) (u : SlidingUpdate) : SlidingPhase :=
  match u with
  | .sameWindow => .sending attempt .rollOver
  | .rollOver => .sending attempt .startFresh
  | .startFresh =>
    if attempt + 1 < maxAttempts then .sending (attempt + 1) .sameWindow
    else .failed slidingContention

end DynamoStore

namespace DynamoSlidingKey

/-- Client `i` moves on. -/
def move (i : ℕ) (c : SlidingClient) (s : DynamoSlidingKey) : DynamoSlidingKey :=
  { s with clients := Function.update s.clients i (some c) }

/-- A new increment takes a number of its own.
SOURCE: src/stores/dynamo/DynamoStore.ts:133-191 -/
def start (i : ℕ) (now : ℤ) (options : RateLimitIncrementOptions) (s : DynamoSlidingKey) :
    DynamoSlidingKey :=
  match s.clients i with
  | none => s.move i ⟨now, options, .sending 0 .sameWindow⟩
  | some _ => s

/-- SOURCE: src/stores/dynamo/DynamoStore.ts:205-278 -/
def send (o : WindowOptions) (i : ℕ) (s : DynamoSlidingKey) :
    DynamoSlidingKey × Option SlidingCommit :=
  match s.clients i with
  | some ⟨now, options, .sending attempt u⟩ =>
    let thisBoundary := DynamoStore.fixedWindowBoundaryMs now o.windowMs
    if DynamoStore.slidingCondition o.windowMs thisBoundary u s.item then
      let item := DynamoStore.slidingUpdated now o.windowMs options.sanitizedCost u s.item
      ({ s.move i ⟨now, options, .committed item⟩ with item := some item },
        some ⟨i, now, options.sanitizedCost⟩)
    else (s.move i ⟨now, options, DynamoStore.nextRequest attempt u⟩, none)
  | _ => (s, none)

/-- SOURCE: src/stores/dynamo/DynamoStore.ts:223-225, 247-249, 274 -/
def error (i : ℕ) (message : String) (s : DynamoSlidingKey) : DynamoSlidingKey :=
  match s.clients i with
  | some ⟨now, options, .sending _ _⟩ => s.move i ⟨now, options, .failed message⟩
  | _ => s

/-- One request of one client, and the increment it commits, if any. -/
def step (o : WindowOptions) (e : SlidingEvent) (s : DynamoSlidingKey) :
    DynamoSlidingKey × Option SlidingCommit :=
  match e with
  | .start i now options => (s.start i now options, none)
  | .send i => s.send o i
  | .error i message => (s.error i message, none)

/-- What the simulation makes of a stored state and a commit. -/
def simulate (o : WindowOptions) (state : Option WeightedWindowState) (c : SlidingCommit) :
    Option WeightedWindowState :=
  some (simulateWeightedIncrement state c.now o.windowMs c.cost)

/-- The increments a run commits, in the order of their commits. -/
def commits (o : WindowOptions) (es : List SlidingEvent) (s : DynamoSlidingKey) :
    List SlidingCommit :=
  (outputs (step o) es s).reduceOption

/-- What the item says. -/
def stored (s : DynamoSlidingKey) : Option WeightedWindowState :=
  s.item.map DynamoSlidingItem.toWeightedWindowState

end DynamoSlidingKey

/-! ### What the caller gets -/

/-- SOURCE: src/stores/dynamo/types.ts:75 -/
inductive OnDynamoError where
  | failOpen
  | failClosed
  deriving DecidableEq

/-- How an increment ends: with the figures of the committed attributes, with the figures an
error is turned into, or by throwing. -/
inductive SlidingOutcome where
  | figuresOf (attributes : DynamoSlidingItem)
  | degraded (result : RateLimitResult)
  | thrown (message : String)
  deriving DecidableEq

namespace DynamoStore

/-- `err.message.startsWith('DynamoStore:')`.
SOURCE: src/stores/dynamo/DynamoStore.ts:977-979 -/
def isProgrammerError (message : String) : Bool :=
  "DynamoStore:".toList.isPrefixOf message.toList

/-- SOURCE: src/stores/dynamo/DynamoStore.ts:153-162, 940-969 -/
def incrementError (o : WindowOptions) (onDynamoError : OnDynamoError) (now : ℤ)
    (options : RateLimitIncrementOptions) (message : String) : SlidingOutcome :=
  let cap := o.cap options.maxRequests
  if isProgrammerError message then .thrown message
  else
    match onDynamoError with
    | .failClosed => .degraded
        { totalHits := cap + 1, remaining := 0, resetTime := now + o.windowMs,
          isBlocked := true, storeUnavailable := true }
    | .failOpen => .degraded
        { totalHits := 0, remaining := cap, resetTime := now + o.windowMs, isBlocked := false }

/-- How a client's increment has ended, if it has.
SOURCE: src/stores/dynamo/DynamoStore.ts:133-190 -/
def slidingOutcome (o : WindowOptions) (onDynamoError : OnDynamoError) (c : SlidingClient) :
    Option SlidingOutcome :=
  match c.phase with
  | .sending _ _ => none
  | .committed attributes => some (.figuresOf attributes)
  | .failed message => some (incrementError o onDynamoError c.now c.options message)

end DynamoStore

/-! ### Reading and replacing an item -/

namespace DynamoStore

variable (o : WindowOptions) (now : ℤ)

/-- SOURCE: src/stores/dynamo/DynamoStore.ts:460-492 -/
def slidingResultFromAttributes (cap : ℕ) (attrs : WeightedWindowState) : RateLimitResult :=
  let raw := weightedSlidingCount attrs.previousCount attrs.currentCount now o.windowMs
    attrs.currentWindowStart
  { totalHits := ⌈raw⌉
    remaining := max 0 (cap - ⌈raw⌉)
    resetTime := attrs.currentWindowStart + o.windowMs
    isBlocked := decide ((cap : ℚ) < raw) }

/-- `got` is the item that `GetItem` answers with.
SOURCE: src/stores/dynamo/DynamoStore.ts:692-719 -/
def getSliding (got : Option DynamoSlidingItem) : Option RateLimitResult :=
  match got with
  | none => none
  | some item =>
    if item.currentWindowStart + 2 * o.windowMs ≤ now then none
    else some (slidingResultFromAttributes o now o.maxRequests item.toWeightedWindowState)

/-- The item `PutItem` writes, and the answer.
SOURCE: src/stores/dynamo/DynamoStore.ts:776-812 -/
def setSliding (totalHits : ℤ) : DynamoSlidingItem × RateLimitResult :=
  let n := max 0 totalHits
  let thisBoundary := fixedWindowBoundaryMs now o.windowMs
  ({ currentWindowStart := thisBoundary
     currentCount := n
     previousCount := 0
     ttl := ttlEpochSeconds now o.windowMs },
    .ofUsage n o.maxRequests (thisBoundary + o.windowMs))

end DynamoStore

/-! ## Fixed window -/

/-- SOURCE: src/stores/dynamo/DynamoStore.ts:296-346 -/
structure DynamoFixedItem where
  totalHits : ℤ
  windowStart : ℤ
  ttl : ℤ
  deriving DecidableEq

/-- Where a call stands.  An increment is about to send the `ADD` or the `SET` of an attempt,
answered or out of attempts; a decrement is about to send its `ADD` or its clamp, or over. -/
inductive FixedPhase where
  | adding (options : RateLimitIncrementOptions) (attempt : ℕ)
  | setting (options : RateLimitIncrementOptions) (attempt : ℕ)
  | answered (result : RateLimitResult)
  | contended
  | subtracting (options : RateLimitDecrementOptions)
  | clamping
  | undone

/-- Nothing is left to send. -/
def FixedPhase.isOver : FixedPhase → Bool
  | .answered _ => true
  | .contended => true
  | .undone => true
  | _ => false

/-- One call, with its `Date.now()`, read once. -/
structure FixedClient where
  now : ℤ
  phase : FixedPhase

/-- The item of the key, and the calls by number. -/
structure DynamoFixedKey where
  item : Option DynamoFixedItem
  clients : ℕ → Option FixedClient := fun _ => none

/-- The start of a call, or the next request of one. -/
inductive FixedEvent where
  | increment (i : ℕ) (now : ℤ) (options : RateLimitIncrementOptions)
  | decrement (i : ℕ) (now : ℤ) (options : RateLimitDecrementOptions)
  | send (i : ℕ)

/-- A request that changes the count by a cost: that of an increment with its answer, or the
`ADD` of a decrement. -/
inductive FixedCommit where
  | incremented (cost : ℕ) (result : RateLimitResult)
  | subtracted (cost : ℕ)
  deriving DecidableEq

namespace DynamoStore

/-- SOURCE: src/stores/dynamo/DynamoStore.ts:346-353 -/
def fixedResultFromAttributes (o : WindowOptions) (cap : ℕ) (attrs : DynamoFixedItem) :
    RateLimitResult :=
  .ofUsage (max 0 attrs.totalHits) cap (attrs.windowStart + o.windowMs)

end DynamoStore

namespace DynamoFixedKey

/-- Call `i` moves on. -/
def move (i : ℕ) (now : ℤ) (phase : FixedPhase) (s : DynamoFixedKey) : DynamoFixedKey :=
  { s with clients := Function.update s.clients i (some ⟨now, phase⟩) }

/-- A new call takes a number of its own. -/
def start (i : ℕ) (now : ℤ) (phase : FixedPhase) (s : DynamoFixedKey) : DynamoFixedKey :=
  match s.clients i with
  | none => s.move i now phase
  | some _ => s

/-- The item is written and the increment answered. -/
def answer (o : WindowOptions) (i : ℕ) (now : ℤ) (options : RateLimitIncrementOptions)
    (item : DynamoFixedItem) (s : DynamoFixedKey) : DynamoFixedKey × Option FixedCommit :=
  let result := DynamoStore.fixedResultFromAttributes o (o.cap options.maxRequests) item
  ({ s.move i now (.answered result) with item := some item },
    some (.incremented options.sanitizedCost result))

/-- `ADD totalHits :cost` under `windowStart = :b`.
SOURCE: src/stores/dynamo/DynamoStore.ts:295-317 -/
def sendAdd (o : WindowOptions) (i : ℕ) (now : ℤ) (options : RateLimitIncrementOptions)
    (attempt : ℕ) (s : DynamoFixedKey) : DynamoFixedKey × Option FixedCommit :=
  match s.item with
  | some x =>
    if x.windowStart = DynamoStore.fixedWindowBoundaryMs now o.windowMs then
      s.answer o i now options
        { x with
          totalHits := x.totalHits + options.sanitizedCost
          ttl := DynamoStore.ttlEpochSeconds now o.windowMs }
    else (s.move i now (.setting options attempt), none)
  | none => (s.move i now (.setting options attempt), none)

/-- `SET totalHits = :cost, windowStart = :b` for a new item or an old window.
SOURCE: src/stores/dynamo/DynamoStore.ts:319-343 -/
def sendSet (o : WindowOptions) (i : ℕ) (now : ℤ) (options : RateLimitIncrementOptions)
    (attempt : ℕ) (s : DynamoFixedKey) : DynamoFixedKey × Option FixedCommit :=
  let thisBoundary := DynamoStore.fixedWindowBoundaryMs now o.windowMs
  if ∀ x ∈ s.item, x.windowStart < thisBoundary then
    s.answer o i now options
      { totalHits := options.sanitizedCost
        windowStart := thisBoundary
        ttl := DynamoStore.ttlEpochSeconds now o.windowMs }
  else if attempt + 1 < DynamoStore.maxAttempts then
    (s.move i now (.adding options (attempt + 1)), none)
  else (s.move i now .contended, none)

/-- `ADD totalHits :neg` under `windowStart = :b`; a negative count that comes back is to be
clamped.
SOURCE: src/stores/dynamo/DynamoStore.ts:561-577, 592-597 -/
def sendSubtract (o : WindowOptions) (i : ℕ) (now : ℤ) (options : RateLimitDecrementOptions)
    (s : DynamoFixedKey) : DynamoFixedKey × Option FixedCommit :=
  match s.item with
  | some x =>
    if x.windowStart = DynamoStore.fixedWindowBoundaryMs now o.windowMs then
      let th := x.totalHits - options.sanitizedCost
      ({ s.move i now (if th < 0 then .clamping else .undone) with
          item := some { x with totalHits := th } },
        some (.subtracted options.sanitizedCost))
    else (s.move i now .undone, none)
  | none => (s.move i now .undone, none)

/-- `SET totalHits = :z` under `windowStart = :b AND totalHits < :zero`.
SOURCE: src/stores/dynamo/DynamoStore.ts:578-591 -/
def sendClamp (o : WindowOptions) (i : ℕ) (now : ℤ) (s : DynamoFixedKey) : DynamoFixedKey :=
  let thisBoundary := DynamoStore.fixedWindowBoundaryMs now o.windowMs
  { s.move i now .undone with
    item := s.item.map fun x =>
      if x.windowStart = thisBoundary ∧ x.totalHits < 0 then { x with totalHits := 0 } else x }

/-- The next request of a call. -/
def send (o : WindowOptions) (i : ℕ) (s : DynamoFixedKey) :
    DynamoFixedKey × Option FixedCommit :=
  match s.clients i with
  | some ⟨now, .adding options attempt⟩ => s.sendAdd o i now options attempt
  | some ⟨now, .setting options attempt⟩ => s.sendSet o i now options attempt
  | some ⟨now, .subtracting options⟩ => s.sendSubtract o i now options
  | some ⟨now, .clamping⟩ => (s.sendClamp o i now, none)
  | _ => (s, none)

/-- One request of one call, and what it does to the count, if anything. -/
def step (o : WindowOptions) (e : FixedEvent) (s : DynamoFixedKey) :
    DynamoFixedKey × Option FixedCommit :=
  match e with
  | .increment i now options => (s.start i now (.adding options 0), none)
  | .decrement i now options => (s.start i now (.subtracting options), none)
  | .send i => s.send o i

/-- What a run does to the count, in order. -/
def commits (o : WindowOptions) (es : List FixedEvent) (s : DynamoFixedKey) : List FixedCommit :=
  (outputs (step o) es s).reduceOption

end DynamoFixedKey

namespace DynamoStore

variable (o : WindowOptions) (now : ℤ)

/-- SOURCE: src/stores/dynamo/DynamoStore.ts:701-712, 720-726 -/
def getFixed (got : Option DynamoFixedItem) : Option RateLimitResult :=
  match got with
  | none => none
  | some item =>
    if item.windowStart + o.windowMs ≤ now then none
    else some (fixedResultFromAttributes o o.maxRequests item)

/-- The item says nothing of `expiresAt`.
SOURCE: src/stores/dynamo/DynamoStore.ts:786-789, 813-836 -/
def setFixed (totalHits : ℤ) (expiresAt : Option ℤ) : DynamoFixedItem × RateLimitResult :=
  let n := max 0 totalHits
  let thisBoundary := fixedWindowBoundaryMs now o.windowMs
  ({ totalHits := n
     windowStart := thisBoundary
     ttl := ttlEpochSeconds now o.windowMs },
    .ofUsage n o.maxRequests (expiresAt.getD (thisBoundary + o.windowMs)))

end DynamoStore

end RatelimitFlex
