import RatelimitFlex.Library.InsertionMap
import RatelimitFlex.Program.Clamp
import RatelimitFlex.Program.RateLimiterQueue

/-!
# `KeyedRateLimiterQueue`

`src/queue/KeyedRateLimiterQueue.ts`: one `RateLimiterQueue` per queue key, at most
`maxKeys` of them in the pool.  A queue is known by its number, in the order of creation,
and goes on after it has left the pool: its drain loops and timers are still out, and who
asked `forKey` for it still holds it.  So an event of the pool is a call of one of its
methods, or an event of any queue it has created.

Every queue is made with the same options and a store of its own; what a run of a queue's
code does outside is an output of the pool, with the queue's number.
-/

set_option autoImplicit false

namespace RatelimitFlex

open Library

/-- SOURCE: src/queue/KeyedRateLimiterQueue.ts:24-37 -/
def sanitizeKeyedPoolMaxKeys (raw : Option JsNumber) : ℕ :=
  match raw with
  | some (.finite q) =>
    let n := (max 0 ⌊q⌋).toNat
    if n = 0 then 0 else min n maxSafeInteger
  | _ => 1000

/-- The `Promise.all` of a pool's `shutdown`: the queues whose own `shutdown` is still to
return, and the sums over those that have.  No `shutdown` of a queue rejects here: it would only
when the store that the queue owns fails to shut down, and the `.catch` would then count nothing
of the queue.
SOURCE: src/queue/KeyedRateLimiterQueue.ts:135-148 -/
structure PoolShutdown where
  awaiting : List ℕ
  rejected : ℤ := 0
  drained : ℤ := 0
  deriving DecidableEq

/-- SOURCE: src/queue/KeyedRateLimiterQueue.ts:56-70 -/
structure KeyedRateLimiterQueue (κ ρ : Type) [DecidableEq κ] where
  map : InsertionMap κ ℕ := ∅
  queues : ℕ → RateLimiterQueue ρ := fun _ => {}
  created : ℕ := 0
  isShutdown : Bool := false
  shutdownWait : Option PoolShutdown := none

namespace PoolShutdown

/-- The return of a queue's `shutdown`, when these outputs end with it. -/
def returned {ρ : Type} (outs : List (QueueOutput ρ)) : Option (ℤ × ℤ) :=
  match outs.getLast? with
  | some (.shutdownDone rejected drained) => some (rejected, drained)
  | _ => none

/-- What a queue's run of code means to the `Promise.all`.
SOURCE: src/queue/KeyedRateLimiterQueue.ts:135-148 -/
def settle {ρ : Type} (n : ℕ) (outs : List (QueueOutput ρ)) (w : PoolShutdown) :
    PoolShutdown :=
  match returned outs with
  | some (rejected, drained) =>
    { awaiting := w.awaiting.erase n
      rejected := w.rejected + rejected
      drained := w.drained + drained }
  | none => w

end PoolShutdown

/-- What the pool does outside: `forKey` throws or answers a queue, `removeTokens` rejects,
a queue does something, or `shutdown` returns. -/
inductive PoolOutput (ρ : Type) where
  | thrown (error : QueueError)
  | returned (n : ℕ)
  | refused (error : QueueError)
  | queue (n : ℕ) (out : QueueOutput ρ)
  | shutdownDone (rejected drained : ℤ)

/-- A call of the pool, or an event of one of its queues: a call of who holds it, a timer, or
the answer of its store. -/
inductive PoolEvent (κ ρ : Type) where
  | forKey (queueKey : κ)
  | removeTokens (queueKey : κ) (rateLimitKey : ρ) (cost : JsNumber)
  | shutdown (drainTimeoutMs : ℤ) (reason : String)
  | queue (n : ℕ) (e : QueueEvent ρ)

namespace KeyedRateLimiterQueue

variable {κ ρ : Type} [DecidableEq κ] [DecidableEq ρ]

/-- The numbers of the queues in the pool, the least recently used one first. -/
def live (s : KeyedRateLimiterQueue κ ρ) : List ℕ := s.map.entries.map Sigma.snd

/-- A run of the code of queue `n`. -/
def dispatch (o : QueueOptions) (n : ℕ) (e : QueueEvent ρ) (s : KeyedRateLimiterQueue κ ρ) :
    KeyedRateLimiterQueue κ ρ × List (PoolOutput ρ) :=
  let r := (s.queues n).step o e
  ({ s with queues := Function.update s.queues n r.1 }, r.2.map (.queue n))

/-- The queue that has the event takes a step. -/
theorem queues_dispatch_self (o : QueueOptions) (n : ℕ) (e : QueueEvent ρ)
    (s : KeyedRateLimiterQueue κ ρ) :
    (dispatch o n e s).1.queues n = ((s.queues n).step o e).1 := Function.update_self _ _ _

/-- The others stay. -/
theorem queues_dispatch_of_ne {k n : ℕ} (h : k ≠ n) (o : QueueOptions) (e : QueueEvent ρ)
    (s : KeyedRateLimiterQueue κ ρ) : (dispatch o n e s).1.queues k = s.queues k :=
  Function.update_of_ne h _ _

/-- One round of the loop: the oldest key goes, and its queue is shut down.
SOURCE: src/queue/KeyedRateLimiterQueue.ts:92-101 -/
def evictOldest (o : QueueOptions) (s : KeyedRateLimiterQueue κ ρ) :
    KeyedRateLimiterQueue κ ρ × List (PoolOutput ρ) :=
  match s.map.entries with
  | [] => (s, [])
  | ⟨oldest, n⟩ :: _ => dispatch o n (.shutdown 0 "shutdown") { s with map := s.map.erase oldest }

/-- The loop; each round takes a key away, so the number of keys is fuel enough.
SOURCE: src/queue/KeyedRateLimiterQueue.ts:91-102 -/
def makeRoom (o : QueueOptions) (maxKeys : ℕ) :
    ℕ → KeyedRateLimiterQueue κ ρ → KeyedRateLimiterQueue κ ρ × List (PoolOutput ρ)
  | 0, s => (s, [])
  | fuel + 1, s =>
    if 0 < maxKeys ∧ maxKeys ≤ s.map.size then
      let r := s.evictOldest o
      let rest := makeRoom o maxKeys fuel r.1
      (rest.1, r.2 ++ rest.2)
    else (s, [])

/-- The queue of a key, when the pool is not shut down.
SOURCE: src/queue/KeyedRateLimiterQueue.ts:84-107 -/
def queueFor (o : QueueOptions) (maxKeys : ℕ) (queueKey : κ) (s : KeyedRateLimiterQueue κ ρ) :
    KeyedRateLimiterQueue κ ρ × List (PoolOutput ρ) × ℕ :=
  match s.map.lookup queueKey with
  | some existing => ({ s with map := s.map.touch queueKey }, [], existing)
  | none =>
    let r := makeRoom o maxKeys s.map.size s
    let n := r.1.created
    ({ r.1 with map := r.1.map.set queueKey n, created := n + 1 }, r.2, n)

/-- SOURCE: src/queue/KeyedRateLimiterQueue.ts:76-107 -/
def forKey (o : QueueOptions) (maxKeys : ℕ) (queueKey : κ) (s : KeyedRateLimiterQueue κ ρ) :
    KeyedRateLimiterQueue κ ρ × List (PoolOutput ρ) :=
  if s.isShutdown then (s, [.thrown (.shutdownError "queue-shutdown")])
  else
    let r := s.queueFor o maxKeys queueKey
    (r.1, r.2.1 ++ [.returned r.2.2])

/-- SOURCE: src/queue/KeyedRateLimiterQueue.ts:109-115 -/
def removeTokens (o : QueueOptions) (maxKeys : ℕ) (queueKey : κ) (rateLimitKey : ρ)
    (cost : JsNumber) (s : KeyedRateLimiterQueue κ ρ) :
    KeyedRateLimiterQueue κ ρ × List (PoolOutput ρ) :=
  if s.isShutdown then (s, [.refused (.shutdownError "queue-shutdown")])
  else
    let r := s.queueFor o maxKeys queueKey
    let d := dispatch o r.2.2 (.removeTokens rateLimitKey cost) r.1
    (d.1, r.2.1 ++ d.2)

/-- `q.shutdown(options)` for one queue after the other.
SOURCE: src/queue/KeyedRateLimiterQueue.ts:135-142 -/
def shutdownQueues (o : QueueOptions) (drainTimeoutMs : ℤ) (reason : String) :
    List ℕ → PoolShutdown → KeyedRateLimiterQueue κ ρ →
      KeyedRateLimiterQueue κ ρ × List (PoolOutput ρ) × PoolShutdown
  | [], w, s => (s, [], w)
  | n :: ns, w, s =>
    let outs := ((s.queues n).step o (.shutdown drainTimeoutMs reason)).2
    let d := dispatch o n (.shutdown drainTimeoutMs reason) s
    let rest := shutdownQueues o drainTimeoutMs reason ns (w.settle n outs) d.1
    (rest.1, d.2 ++ rest.2.1, rest.2.2)

/-- `shutdown` returns once every queue's has.
SOURCE: src/queue/KeyedRateLimiterQueue.ts:135-148 -/
def awaitAll (w : PoolShutdown) (s : KeyedRateLimiterQueue κ ρ) :
    KeyedRateLimiterQueue κ ρ × List (PoolOutput ρ) :=
  if w.awaiting = [] then
    ({ s with shutdownWait := none }, [.shutdownDone w.rejected w.drained])
  else ({ s with shutdownWait := some w }, [])

/-- SOURCE: src/queue/KeyedRateLimiterQueue.ts:127-149 -/
def shutdown (o : QueueOptions) (drainTimeoutMs : ℤ) (reason : String)
    (s : KeyedRateLimiterQueue κ ρ) : KeyedRateLimiterQueue κ ρ × List (PoolOutput ρ) :=
  if s.isShutdown then (s, [.shutdownDone 0 0])
  else
    let queues := s.live
    let r := shutdownQueues o drainTimeoutMs reason queues { awaiting := queues }
      { s with isShutdown := true, map := ∅ }
    let a := awaitAll r.2.2 r.1
    (a.1, r.2.1 ++ a.2)

/-- An event of a queue that was created; of its own calls only a poll ends the `shutdown`
the pool waits for. -/
def queueEvent (o : QueueOptions) (n : ℕ) (e : QueueEvent ρ) (s : KeyedRateLimiterQueue κ ρ) :
    KeyedRateLimiterQueue κ ρ × List (PoolOutput ρ) :=
  if n < s.created then
    let outs := ((s.queues n).step o e).2
    let d := dispatch o n e s
    match s.shutdownWait, e with
    | some w, .shutdownPoll =>
      if n ∈ w.awaiting then
        let a := awaitAll (w.settle n outs) d.1
        (a.1, d.2 ++ a.2)
      else d
    | _, _ => d
  else (s, [])

/-- One run of the pool's code, or of a queue's. -/
def step (o : QueueOptions) (maxKeys : ℕ) (e : PoolEvent κ ρ) (s : KeyedRateLimiterQueue κ ρ) :
    KeyedRateLimiterQueue κ ρ × List (PoolOutput ρ) :=
  match e with
  | .forKey queueKey => s.forKey o maxKeys queueKey
  | .removeTokens queueKey rateLimitKey cost => s.removeTokens o maxKeys queueKey rateLimitKey cost
  | .shutdown drainTimeoutMs reason => s.shutdown o drainTimeoutMs reason
  | .queue n e => s.queueEvent o n e

end KeyedRateLimiterQueue

end RatelimitFlex
