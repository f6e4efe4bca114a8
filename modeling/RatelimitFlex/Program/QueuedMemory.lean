import RatelimitFlex.Program.MemoryStore
import RatelimitFlex.Program.RateLimiterQueue

/-!
# `RateLimiterQueue` over a `MemoryStore` of its own

`MemoryStore` does its work in the call, so a store call of a drain loop takes effect in the
run that makes it; its answer waits until the loop resumes.  What is left to the environment
is the order of calls, timers and resumptions, and the store's own cleanup timer.
-/

set_option autoImplicit false

namespace RatelimitFlex

open Library

variable {κ : Type} [DecidableEq κ]

/-- The queue, its store, and the answers that suspended loops wait for. -/
structure QueuedMemory (κ : Type) [DecidableEq κ] where
  queue : RateLimiterQueue κ
  store : MemoryStore κ
  answers : ℕ → Option RateLimitResult

/-- A call, a timer, the resumption of a drain loop, or a cleanup of the store. -/
inductive QueuedEvent (κ : Type) where
  | removeTokens (key : κ) (cost : JsNumber)
  | clear
  | queueTimeout (entry : QueueEntry κ)
  | drainTimer
  | resume (loop : ℕ)
  | purgeExpired

namespace QueuedMemory

/-- A new queue over a new store of its window strategy.
SOURCE: src/queue/createRateLimiterQueue.ts:24-40, 82-110 -/
def new (o : QueueOptions) (w : WindowOptions) (maxKeys : ℕ) : QueuedMemory κ where
  queue := {}
  store := match o.strategy with
    | .fixedWindow => .fixed w (KeyTable.new maxKeys)
    | _ => .sliding w (KeyTable.new maxKeys)
  answers _ := none

/-- What the queue's code does with the event. -/
def queueStep (o : QueueOptions) (i : Timed (QueuedEvent κ)) (s : QueuedMemory κ) :
    RateLimiterQueue κ × List (QueueOutput κ) :=
  match i.op with
  | .removeTokens key cost => s.queue.step o (.removeTokens key cost)
  | .clear => s.queue.step o .clear
  | .queueTimeout entry => s.queue.step o (.queueTimeout entry)
  | .drainTimer => s.queue.step o .drainTimer
  | .resume l =>
    match s.queue.loops l, s.answers l with
    | some (.incrementing _), some result => s.queue.step o (.incremented l result)
    | some (.incrementing _), none => (s.queue, [])
    | _, _ => s.queue.step o (.undone l i.time)
  | .purgeExpired => (s.queue, [])

/-- A store call among the outputs. -/
def perform (now : ℤ) (s : QueuedMemory κ) : QueueOutput κ → QueuedMemory κ
  | .increment l key options =>
    let r := s.store.increment now key options
    { s with store := r.1, answers := Function.update s.answers l (some r.2) }
  | .decrement _ key options => { s with store := s.store.decrement key options }
  | _ => s

/-- One event: what the queue does, and the calls it makes, in order. -/
def step (o : QueueOptions) (i : Timed (QueuedEvent κ)) (s : QueuedMemory κ) :
    QueuedMemory κ × List (QueueOutput κ) :=
  let r := s.queueStep o i
  let s := match i.op with
    | .purgeExpired => { s with store := s.store.purgeExpired i.time }
    | _ => s
  (r.2.foldl (perform i.time) { s with queue := r.1 }, r.2)

/-- A peek with nothing in between: one unit is taken and given back.  The answer is 0, or
what there was before.
SOURCE: src/queue/RateLimiterQueue.ts:292-314 -/
def getTokensRemaining (o : QueueOptions) (now : ℤ) (key : κ) (s : QueuedMemory κ) :
    Except QueueError ℤ × QueuedMemory κ :=
  if s.queue.isShutdown then (.error (.shutdownError "queue-shutdown"), s)
  else
    let r := s.store.increment now key { maxRequests := some o.maxRequests, cost := some 1 }
    let store := r.1.decrement key { cost := some 1 }
    (.ok (if r.2.isBlocked then 0 else r.2.remaining + 1), { s with store })

end QueuedMemory

end RatelimitFlex
