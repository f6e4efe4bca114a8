import Mathlib.Data.ENat.Basic
import RatelimitFlex.Library.LinkedList
import RatelimitFlex.Library.TimedRun
import RatelimitFlex.Program.Types

/-!
# `RateLimiterQueue`

`src/queue/RateLimiterQueue.ts`: callers wait in a FIFO for the store to let them through.
The queue is one object whose methods run to their next `await`; in between anything else
may run.  `step` is one such run: a call of a method, a timer that fires, or the resumption
of a suspended drain loop with the answer of its store call.  What a run asks of the store,
and which promises it settles, are its outputs.

An entry is its number and its immutable fields; its links are those of the list, and its
`timer` is armed or not.  The delay of the drain timer is kept, when it fires is left to the
environment.
-/

set_option autoImplicit false

namespace RatelimitFlex

open Library

/-! ## Errors -/

/-- SOURCE: src/queue/RateLimiterQueue.ts:16-22 -/
inductive RateLimiterQueueErrorCode where
  | queueFull
  | queueTimeout
  | queueCleared
  | costExceedsLimit
  | invalidCost
  deriving DecidableEq

/-- A `RateLimiterQueueError`, or a `ShutdownError` with its message.
SOURCE: src/queue/RateLimiterQueue.ts:30-38, src/queue/errors.ts:6-13 -/
inductive QueueError where
  | queue (message : String) (code : RateLimiterQueueErrorCode)
  | shutdown (message : String)
  deriving DecidableEq

namespace QueueError

/-- SOURCE: src/queue/errors.ts:9-11 -/
def shutdownError (reason : String) : QueueError :=
  .shutdown ("RateLimiterQueue rejected: " ++ reason)

/-- SOURCE: src/queue/RateLimiterQueue.ts:226-240, 262, 330 -/
def queueFull : QueueError := .queue "Queue is full" .queueFull

def invalidCost : QueueError := .queue "cost must be a finite number >= 1" .invalidCost

def costExceedsLimit : QueueError :=
  .queue "Requested tokens exceed maximum allowed per window" .costExceedsLimit

def queueTimeout : QueueError := .queue "Queue timeout exceeded" .queueTimeout

def queueCleared : QueueError := .queue "Queue cleared" .queueCleared

end QueueError

/-! ## The state -/

/-- SOURCE: src/queue/RateLimiterQueue.ts:79-107, 175-200 -/
structure QueueOptions where
  maxRequests : JsNumber
  strategy : RateLimitStrategy := .slidingWindow
  /-- A number of entries, or `Infinity`. -/
  maxQueueSize : ℕ∞ := ⊤
  /-- `maxQueueTimeMs` is finite and positive. -/
  timesOut : Bool := false
  ownsStore : Bool := false

/-- SOURCE: src/queue/RateLimiterQueue.ts:116-125 -/
structure QueueEntry (κ : Type) where
  id : ℕ
  key : κ
  cost : JsNumber
  deriving DecidableEq

/-- Where a drain loop is suspended: on the increment for the entry that was the head, on
the undo of an increment whose entry has left, or on the undo of a blocked one with its
reset time.  An undo that calls nothing is suspended all the same. -/
inductive DrainPhase (κ : Type) where
  | incrementing (entry : QueueEntry κ)
  | undoingStale (calls : Bool)
  | undoingBlocked (calls : Bool) (resetTime : ℤ)
  deriving DecidableEq

/-- The loop awaits a call of the store. -/
def DrainPhase.callsStore {κ : Type} : DrainPhase κ → Bool
  | .incrementing _ => true
  | .undoingStale calls => calls
  | .undoingBlocked calls _ => calls

/-- A shutdown that waits for the drain loop.
SOURCE: src/queue/RateLimiterQueue.ts:375-386 -/
structure ShutdownWait where
  pollsLeft : ℕ
  lenAtStart : ℤ
  reason : String
  deriving DecidableEq

/-- SOURCE: src/queue/RateLimiterQueue.ts:127-158 -/
structure RateLimiterQueue (κ : Type) where
  queue : LinkedList (QueueEntry κ) := {}
  timer : QueueEntry κ → Bool := fun _ => false
  nextEntry : ℕ := 0
  processing : Bool := false
  drainTimer : Option ℤ := none
  isShutdown : Bool := false
  shutdownQueueTimeoutUnlinks : ℤ := 0
  shutdownWait : Option ShutdownWait := none
  loops : ℕ → Option (DrainPhase κ) := fun _ => none
  nextLoop : ℕ := 0

/-- How the promise of an entry is settled. -/
inductive QueueSettlement where
  | resolved (remaining resetTime : ℤ)
  | rejected (error : QueueError)
  deriving DecidableEq

/-- What a run of the queue's code does outside: it refuses or accepts a call, settles a
promise, calls the store for a drain loop, throws, or ends a shutdown. -/
inductive QueueOutput (κ : Type) where
  | refused (error : QueueError)
  | accepted (entry : QueueEntry κ)
  | settled (entry : QueueEntry κ) (s : QueueSettlement)
  | increment (loop : ℕ) (key : κ) (options : RateLimitIncrementOptions)
  | decrement (loop : ℕ) (key : κ) (options : RateLimitDecrementOptions)
  | thrown (error : QueueError)
  | shutdownDone (rejected drained : ℤ)
  | storeShutdown
  deriving DecidableEq

/-- A call, a timer, or the answer of a store call. -/
inductive QueueEvent (κ : Type) where
  | removeTokens (key : κ) (cost : JsNumber)
  | clear
  | shutdown (drainTimeoutMs : ℤ) (reason : String)
  | queueTimeout (entry : QueueEntry κ)
  | drainTimer
  | shutdownPoll
  | incremented (loop : ℕ) (result : RateLimitResult)
  | undone (loop : ℕ) (now : ℤ)
  | storeRejected (loop : ℕ)

/-- SOURCE: src/queue/RateLimiterQueue.ts:5-9 -/
def minBlockRetryDelayMs : ℤ := 10

namespace RateLimiterQueue

variable {κ : Type} [DecidableEq κ]

/-! ## The drain loop -/

omit [DecidableEq κ] in
/-- The `finally` of a loop that is over.
SOURCE: src/queue/RateLimiterQueue.ts:531-535 -/
def endLoop (l : ℕ) (s : RateLimiterQueue κ) : RateLimiterQueue κ :=
  { s with
    loops := Function.update s.loops l none
    processing := if s.drainTimer = none then false else s.processing }

omit [DecidableEq κ] in
/-- The head of the `while` loop and the increment for the entry it finds.
SOURCE: src/queue/RateLimiterQueue.ts:495-500 -/
def loopHead (o : QueueOptions) (l : ℕ) (s : RateLimiterQueue κ) :
    RateLimiterQueue κ × List (QueueOutput κ) :=
  match s.queue.head with
  | none => (s.endLoop l, [])
  | some entry =>
    ({ s with loops := Function.update s.loops l (some (.incrementing entry)) },
      [.increment l entry.key { maxRequests := some o.maxRequests, cost := some entry.cost }])

omit [DecidableEq κ] in
/-- A new loop, unless one is at work.
SOURCE: src/queue/RateLimiterQueue.ts:488-494 -/
def drain (o : QueueOptions) (s : RateLimiterQueue κ) :
    RateLimiterQueue κ × List (QueueOutput κ) :=
  if s.processing then (s, [])
  else loopHead o s.nextLoop { s with processing := true, nextLoop := s.nextLoop + 1 }

omit [DecidableEq κ] in
/-- The call that undoes an increment, if there is one to make.
SOURCE: src/queue/RateLimiterQueue.ts:471-486 -/
def undoCalls (o : QueueOptions) (l : ℕ) (entry : QueueEntry κ) (isBlocked : Bool) :
    List (QueueOutput κ) :=
  match o.strategy with
  | .tokenBucket => if isBlocked then [] else [.decrement l entry.key { cost := some entry.cost }]
  | .slidingWindow => [.decrement l entry.key { cost := some entry.cost, removeNewest := true }]
  | .fixedWindow => [.decrement l entry.key { cost := some entry.cost }]

/-- The loop resumes with the answer to its increment.
SOURCE: src/queue/RateLimiterQueue.ts:497-519 -/
def incremented (o : QueueOptions) (l : ℕ) (result : RateLimitResult) (s : RateLimiterQueue κ) :
    RateLimiterQueue κ × List (QueueOutput κ) :=
  match s.loops l with
  | some (.incrementing entry) =>
    let undo := undoCalls o l entry result.isBlocked
    let calls := !undo.isEmpty
    if s.queue.head ≠ some entry then
      ({ s with loops := Function.update s.loops l (some (.undoingStale calls)) }, undo)
    else if result.isBlocked then
      let phase := DrainPhase.undoingBlocked calls result.resetTime
      ({ s with loops := Function.update s.loops l (some phase) }, undo)
    else
      let s := { s with
        queue := (s.queue.unlink entry).1
        timer := Function.update s.timer entry false }
      let r := loopHead o l s
      (r.1, .settled entry (.resolved result.remaining result.resetTime) :: r.2)
  | _ => (s, [])

omit [DecidableEq κ] in
/-- The loop resumes after an undo; a blocked head is retried by the drain timer.
SOURCE: src/queue/RateLimiterQueue.ts:502-505, 521-530 -/
def undone (o : QueueOptions) (l : ℕ) (now : ℤ) (s : RateLimiterQueue κ) :
    RateLimiterQueue κ × List (QueueOutput κ) :=
  match s.loops l with
  | some (.undoingStale _) => loopHead o l s
  | some (.undoingBlocked _ resetTime) =>
    ({ s with drainTimer := some (max minBlockRetryDelayMs (resetTime - now)) }.endLoop l, [])
  | _ => (s, [])

omit [DecidableEq κ] in
/-- A store call that rejects ends its loop; nobody handles the rejection of `drain`.
SOURCE: src/queue/RateLimiterQueue.ts:494-535 -/
def storeRejected (l : ℕ) (s : RateLimiterQueue κ) : RateLimiterQueue κ :=
  match s.loops l with
  | some phase => if phase.callsStore then s.endLoop l else s
  | none => s

/-! ## The methods and the timers -/

/-- The checks of `removeTokens`, in their order.
SOURCE: src/queue/RateLimiterQueue.ts:222-241 -/
def refusal (o : QueueOptions) (cost : JsNumber) (s : RateLimiterQueue κ) : Option QueueError :=
  if s.isShutdown then some (.shutdownError "queue-shutdown")
  else if o.maxQueueSize ≤ s.queue.length.toNat then some .queueFull
  else
    match cost with
    | .finite q =>
      if q < 1 then some .invalidCost
      else
        let exceeds := match o.maxRequests with
          | .finite r => decide (r < q)
          | .negInfinity => true
          | _ => false
        if exceeds then some .costExceedsLimit else none
    | _ => some .invalidCost

/-- SOURCE: src/queue/RateLimiterQueue.ts:222-273 -/
def removeTokens (o : QueueOptions) (key : κ) (cost : JsNumber) (s : RateLimiterQueue κ) :
    RateLimiterQueue κ × List (QueueOutput κ) :=
  match s.refusal o cost with
  | some error => (s, [.refused error])
  | none =>
    let entry : QueueEntry κ := ⟨s.nextEntry, key, cost⟩
    let s := { s with
      queue := s.queue.enqueueTail entry
      timer := Function.update s.timer entry o.timesOut
      nextEntry := s.nextEntry + 1 }
    let r := drain o s
    (r.1, .accepted entry :: r.2)

/-- The callback of an entry's timer.
SOURCE: src/queue/RateLimiterQueue.ts:254-269 -/
def queueTimeout (o : QueueOptions) (entry : QueueEntry κ) (s : RateLimiterQueue κ) :
    RateLimiterQueue κ × List (QueueOutput κ) :=
  if s.timer entry then
    let wasHead := decide (s.queue.head = some entry)
    let r := s.queue.unlink entry
    let s := { s with queue := r.1, timer := Function.update s.timer entry false }
    if r.2 then
      let s := { s with
        shutdownQueueTimeoutUnlinks :=
          if s.isShutdown then s.shutdownQueueTimeoutUnlinks + 1
          else s.shutdownQueueTimeoutUnlinks }
      let s :=
        if wasHead ∧ s.drainTimer ≠ none then { s with drainTimer := none, processing := false }
        else s
      let d := drain o s
      (d.1, .settled entry (.rejected .queueTimeout) :: d.2)
    else (s, [])
  else (s, [])

/-- Every entry is rejected, from the head on.
SOURCE: src/queue/RateLimiterQueue.ts:435-453 -/
def clearPending (error : QueueError) (s : RateLimiterQueue κ) :
    RateLimiterQueue κ × List (QueueOutput κ) :=
  let entries := s.queue.nodes
  ({ s with
      queue := s.queue.clear
      timer := fun e => if e ∈ entries then false else s.timer e
      drainTimer := none
      processing := false },
    entries.map fun e => .settled e (.rejected error))

/-- SOURCE: src/queue/RateLimiterQueue.ts:326-331 -/
def clear (s : RateLimiterQueue κ) : RateLimiterQueue κ × List (QueueOutput κ) :=
  if s.isShutdown then (s, [.thrown (.shutdownError "queue-shutdown")])
  else s.clearPending .queueCleared

omit [DecidableEq κ] in
/-- SOURCE: src/queue/RateLimiterQueue.ts:524-528 -/
def fireDrainTimer (o : QueueOptions) (s : RateLimiterQueue κ) :
    RateLimiterQueue κ × List (QueueOutput κ) :=
  match s.drainTimer with
  | some _ => drain o { s with drainTimer := none, processing := false }
  | none => (s, [])

/-- What is left to do after the polls.  The `shutdown` of a store that the queue owns is an
output and is taken to succeed; when it rejects, so does this one, with no counts.
SOURCE: src/queue/RateLimiterQueue.ts:388-398 -/
def finishShutdown (o : QueueOptions) (lenAtStart : ℤ) (reason : String)
    (s : RateLimiterQueue κ) : RateLimiterQueue κ × List (QueueOutput κ) :=
  let drained := max 0 (lenAtStart - s.queue.length - s.shutdownQueueTimeoutUnlinks)
  let rejected := s.queue.length
  let r := s.clearPending (.shutdownError reason)
  ({ r.1 with shutdownQueueTimeoutUnlinks := 0, shutdownWait := none },
    r.2 ++ (if o.ownsStore then [.storeShutdown] else []) ++ [.shutdownDone rejected drained])

/-- SOURCE: src/queue/RateLimiterQueue.ts:360-386 -/
def shutdown (o : QueueOptions) (drainTimeoutMs : ℤ) (reason : String)
    (s : RateLimiterQueue κ) : RateLimiterQueue κ × List (QueueOutput κ) :=
  if s.isShutdown then ({ s with shutdownQueueTimeoutUnlinks := 0 }, [.shutdownDone 0 0])
  else
    let lenAtStart := s.queue.length
    let d := drain o { s with shutdownQueueTimeoutUnlinks := 0, isShutdown := true }
    if 0 < drainTimeoutMs ∧ 0 < d.1.queue.length then
      -- `Math.max(1, Math.ceil(drainTimeoutMs / 10))` polls, the first of them to come
      let maxPolls := max 1 (-(-drainTimeoutMs / minBlockRetryDelayMs)).toNat
      ({ d.1 with shutdownWait := some ⟨maxPolls, lenAtStart, reason⟩ }, d.2)
    else
      let r := d.1.finishShutdown o lenAtStart reason
      (r.1, d.2 ++ r.2)

/-- SOURCE: src/queue/RateLimiterQueue.ts:380-386 -/
def shutdownPoll (o : QueueOptions) (s : RateLimiterQueue κ) :
    RateLimiterQueue κ × List (QueueOutput κ) :=
  match s.shutdownWait with
  | some ⟨pollsLeft, lenAtStart, reason⟩ =>
    let d := drain o s
    if 1 < pollsLeft ∧ 0 < d.1.queue.length then
      ({ d.1 with shutdownWait := some ⟨pollsLeft - 1, lenAtStart, reason⟩ }, d.2)
    else
      let r := d.1.finishShutdown o lenAtStart reason
      (r.1, d.2 ++ r.2)
  | none => (s, [])

/-- One run of the queue's code, to the next `await`. -/
def step (o : QueueOptions) (e : QueueEvent κ) (s : RateLimiterQueue κ) :
    RateLimiterQueue κ × List (QueueOutput κ) :=
  match e with
  | .removeTokens key cost => s.removeTokens o key cost
  | .clear => s.clear
  | .shutdown drainTimeoutMs reason => s.shutdown o drainTimeoutMs reason
  | .queueTimeout entry => s.queueTimeout o entry
  | .drainTimer => s.fireDrainTimer o
  | .shutdownPoll => s.shutdownPoll o
  | .incremented l result => s.incremented o l result
  | .undone l now => s.undone o l now
  | .storeRejected l => (s.storeRejected l, [])

end RateLimiterQueue

end RatelimitFlex
