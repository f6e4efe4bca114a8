import Mathlib.Data.List.ReduceOption
import RatelimitFlex.Library.TimedRun
import RatelimitFlex.Program.StoreUtils

/-!
# The token bucket of `DynamoStore`

`src/stores/dynamo/DynamoStore.ts`: an increment is a loop of up to twelve attempts, each a
consistent `GetItem` and a conditional write.  The write of a new key is a `PutItem` that
fails when the item exists, that of an old one an `UpdateItem` that fails unless tokens and
last refill are still those that were read.  `DynamoBucketKey` is the item of one key with
the clients at work on it; between two requests of one client those of the others may run.
-/

set_option autoImplicit false

namespace RatelimitFlex

open Library

/-- SOURCE: src/stores/dynamo/DynamoStore.ts:411-418 -/
structure DynamoBucketItem where
  tokens : ℤ
  lastRefillAt : ℤ
  ttl : ℤ
  deriving DecidableEq

namespace DynamoStore

/-- The bucket an attempt starts from: a missing item is a full one.
SOURCE: src/stores/dynamo/DynamoStore.ts:373-386 -/
def storedBucket (o : TokenBucketOptions) (now : ℤ) (got : Option DynamoBucketItem) : Bucket :=
  match got with
  | none => ⟨o.bucketSize, now⟩
  | some item => ⟨item.tokens, item.lastRefillAt⟩

/-- The item an attempt writes and the answer it prepares.
SOURCE: src/stores/dynamo/DynamoStore.ts:355-405 -/
def bucketAttempt (o : TokenBucketOptions) (now : ℤ) (cost : ℕ) (got : Option DynamoBucketItem) :
    DynamoBucketItem × RateLimitResult :=
  let refilled := refillBucketState o now (storedBucket o now got)
  let isBlocked := !decide ((cost : ℤ) ≤ refilled.tokens)
  let newTokens := if isBlocked then refilled.tokens else refilled.tokens - cost
  ({ tokens := newTokens
     lastRefillAt := refilled.lastRefill
     -- `Math.ceil((now + 3 * interval) / 1000)`
     ttl := -(-(now + 3 * o.interval) / 1000) },
    { totalHits := if isBlocked then o.bucketSize else o.bucketSize - newTokens
      remaining := if isBlocked then 0 else newTokens
      resetTime := refilled.lastRefill + o.interval
      isBlocked })

/-- The `ConditionExpression` of the write that follows what was read.
SOURCE: src/stores/dynamo/DynamoStore.ts:408-440 -/
def bucketConditionHolds (got item : Option DynamoBucketItem) : Bool :=
  match got, item with
  | none, none => true
  | some g, some x => decide (x.tokens = g.tokens) && decide (x.lastRefillAt = g.lastRefillAt)
  | _, _ => false

/-- An increment that nothing runs beside. -/
def bucketAlone (o : TokenBucketOptions) (q : ℤ × ℕ) (item : Option DynamoBucketItem) :
    Option DynamoBucketItem × RateLimitResult :=
  let r := bucketAttempt o q.1 q.2 item
  (some r.1, r.2)

/-- SOURCE: src/stores/dynamo/DynamoStore.ts:701-712, 727-753 -/
def getTokenBucket (o : TokenBucketOptions) (now : ℤ) (got : Option DynamoBucketItem) :
    Option RateLimitResult :=
  got.map fun item =>
    let ref := refillBucketState o now ⟨item.tokens, item.lastRefillAt⟩
    let totalHits := o.bucketSize - ref.tokens
    { totalHits
      remaining := ref.tokens
      resetTime := ref.lastRefill + o.interval
      isBlocked := decide (ref.tokens = 0) && decide (o.bucketSize ≤ totalHits) }

/-- The item `PutItem` writes, and the answer.
SOURCE: src/stores/dynamo/DynamoStore.ts:786-789, 837-858 -/
def setTokenBucket (o : TokenBucketOptions) (now totalHits : ℤ) :
    DynamoBucketItem × RateLimitResult :=
  let n := max 0 totalHits
  let isBlocked := decide (o.bucketSize ≤ n)
  let tokens := if isBlocked then 0 else max 0 (o.bucketSize - n)
  ({ tokens
     lastRefillAt := now
     ttl := -(-(now + 3 * o.interval) / 1000) },
    { totalHits := if isBlocked then o.bucketSize else n
      remaining := tokens
      resetTime := now + o.interval
      isBlocked })

/-- `ADD tokens`, and the write that takes back what is above the size, when nothing runs
between the two; without an item the condition fails.
SOURCE: src/stores/dynamo/DynamoStore.ts:601-646 -/
def decrementTokenBucket (o : TokenBucketOptions) (now : ℤ) (cost : ℕ)
    (item : Option DynamoBucketItem) : Option DynamoBucketItem :=
  item.map fun x =>
    let tok : ℤ := x.tokens + cost
    { tokens := if o.bucketSize < tok then o.bucketSize else tok
      lastRefillAt := x.lastRefillAt
      ttl := -(-(now + 3 * o.interval) / 1000) }

end DynamoStore

/-- Where an increment stands: about to read or to write in an attempt, answered, or given
up, be it for contention or for an error of the client library. -/
inductive DynamoPhase where
  | reading (attempt : ℕ)
  | writing (attempt : ℕ) (got : Option DynamoBucketItem)
  | committed (result : RateLimitResult)
  | failed
  deriving DecidableEq

/-- One increment: its `Date.now()`, read once before the first attempt, and its cost. -/
structure DynamoClient where
  now : ℤ
  cost : ℕ
  phase : DynamoPhase
  deriving DecidableEq

/-- The item of the key, and the increments by number. -/
structure DynamoBucketKey where
  item : Option DynamoBucketItem
  clients : ℕ → Option DynamoClient := fun _ => none

/-- The start of an increment and the requests it makes; a request may also fail with an
error that is not a failed condition. -/
inductive DynamoEvent where
  | start (i : ℕ) (now : ℤ) (cost : ℕ)
  | getItem (i : ℕ)
  | write (i : ℕ)
  | error (i : ℕ)
  deriving DecidableEq

/-- An increment that has committed. -/
structure DynamoCommit where
  client : ℕ
  now : ℤ
  cost : ℕ
  result : RateLimitResult
  deriving DecidableEq

namespace DynamoBucketKey

/-- Client `i` moves on. -/
def move (i : ℕ) (c : DynamoClient) (s : DynamoBucketKey) : DynamoBucketKey :=
  { s with clients := Function.update s.clients i (some c) }

/-- A new increment takes a number of its own.
SOURCE: src/stores/dynamo/DynamoStore.ts:136-142 -/
def start (i : ℕ) (now : ℤ) (cost : ℕ) (s : DynamoBucketKey) : DynamoBucketKey :=
  match s.clients i with
  | none => s.move i ⟨now, cost, .reading 0⟩
  | some _ => s

/-- SOURCE: src/stores/dynamo/DynamoStore.ts:364-371 -/
def getItem (i : ℕ) (s : DynamoBucketKey) : DynamoBucketKey :=
  match s.clients i with
  | some ⟨now, cost, .reading attempt⟩ => s.move i ⟨now, cost, .writing attempt s.item⟩
  | _ => s

/-- A write whose condition fails starts the next attempt, if there is one.
SOURCE: src/stores/dynamo/DynamoStore.ts:407-458 -/
def write (o : TokenBucketOptions) (i : ℕ) (s : DynamoBucketKey) :
    DynamoBucketKey × Option DynamoCommit :=
  match s.clients i with
  | some ⟨now, cost, .writing attempt got⟩ =>
    let r := DynamoStore.bucketAttempt o now cost got
    if DynamoStore.bucketConditionHolds got s.item then
      ({ s.move i ⟨now, cost, .committed r.2⟩ with item := some r.1 }, some ⟨i, now, cost, r.2⟩)
    else (s.move i ⟨now, cost, if attempt + 1 < 12 then .reading (attempt + 1) else .failed⟩, none)
  | _ => (s, none)

/-- Any other error ends the increment.
SOURCE: src/stores/dynamo/DynamoStore.ts:449-454 -/
def error (i : ℕ) (s : DynamoBucketKey) : DynamoBucketKey :=
  match s.clients i with
  | some ⟨now, cost, .reading _⟩ => s.move i ⟨now, cost, .failed⟩
  | some ⟨now, cost, .writing _ _⟩ => s.move i ⟨now, cost, .failed⟩
  | _ => s

/-- One request of one client, and the increment it commits, if any. -/
def step (o : TokenBucketOptions) (e : DynamoEvent) (s : DynamoBucketKey) :
    DynamoBucketKey × Option DynamoCommit :=
  match e with
  | .start i now cost => (s.start i now cost, none)
  | .getItem i => (s.getItem i, none)
  | .write i => s.write o i
  | .error i => (s.error i, none)

/-- The increments a run commits, in the order of their commits. -/
def commits (o : TokenBucketOptions) (es : List DynamoEvent) (s : DynamoBucketKey) :
    List DynamoCommit :=
  (outputs (step o) es s).reduceOption

end DynamoBucketKey

/-- What an increment asked for. -/
def DynamoCommit.request (c : DynamoCommit) : ℤ × ℕ := (c.now, c.cost)

end RatelimitFlex
