import RatelimitFlex.Program.DynamoTokenBucket
import RatelimitFlex.Program.DynamoWindows
import RatelimitFlex.Program.InsuredRedis
import RatelimitFlex.Program.KeyManager

/-!
# Blocks that a key manager writes to its store

`src/key-manager/KeyManager.ts`: without a `blockStore`, `block` with `persistToStore` sets the
hits of the key to one more than the cap, with the end of the block as the expiry, and then
reads the key.  What is left of the block is up to `src/stores/memory-store.ts`,
`src/stores/redis-store.ts` and `src/stores/dynamo/DynamoStore.ts`.  Of a Redis or a table
only the key is kept here; a call runs from its start to its end.
-/

set_option autoImplicit false

namespace RatelimitFlex

open Library

/-! ## `set` on Redis -/

namespace RedisSliding

variable {μ : Type} [LinearOrder μ]

/-- `members` has a member for each hit.
SOURCE: src/stores/redis-store.ts:358-399, 1538-1575 -/
def setSlidingRedis (o : WindowOptions) (now : ℤ) (expiresAt : Option ℤ) (members : List μ) :
    Option (RedisKey (ZSet μ)) × RateLimitResult :=
  let expireArg := expiresAt.getD (-1)
  let z := members.foldl (fun z m => ZSet.add now m z) []
  let oldest := (z.head?.map Prod.fst).getD now
  (ZSet.store z (some (if expireArg < 0 then now + o.windowMs else expireArg)),
    redisWindowResult z.length o.maxRequests (oldest + o.windowMs))

end RedisSliding

namespace RedisBucket

/-- SOURCE: src/stores/redis-store.ts:456-467, 1601-1625 -/
def setBucketRedis (o : TokenBucketOptions) (now totalHits : ℤ) : RedisHash × RateLimitResult :=
  let th := max 0 totalHits
  let isBlocked := decide (o.bucketSize ≤ th)
  let tokens := if isBlocked then 0 else max 0 (o.bucketSize - th)
  (⟨tokens, now, now + o.interval * 10⟩,
    { totalHits := if isBlocked then o.bucketSize else th
      remaining := tokens
      resetTime := now + o.interval
      isBlocked })

end RedisBucket

/-! ## Increments of a table with nothing beside them -/

namespace DynamoStore

/-- All the requests of an increment, and its answer; `none` when it throws.
SOURCE: src/stores/dynamo/DynamoStore.ts:133-191, 205-279, 460-492 -/
def incrementSliding (o : WindowOptions) (now : ℤ) (options : RateLimitIncrementOptions)
    (item : Option DynamoSlidingItem) : Option DynamoSlidingItem × Option RateLimitResult :=
  let s := final (DynamoSlidingKey.step o)
    (.start 0 now options :: List.replicate (3 * maxAttempts) (.send 0)) { item := item }
  (s.item, match s.clients 0 with
    | some ⟨_, _, .committed attributes⟩ =>
      some (slidingResultFromAttributes o now (o.cap options.maxRequests)
        attributes.toWeightedWindowState)
    | _ => none)

/-- SOURCE: src/stores/dynamo/DynamoStore.ts:133-191, 281-353 -/
def incrementFixed (o : WindowOptions) (now : ℤ) (options : RateLimitIncrementOptions)
    (item : Option DynamoFixedItem) : Option DynamoFixedItem × Option RateLimitResult :=
  let s := final (DynamoFixedKey.step o)
    (.increment 0 now options :: List.replicate (2 * maxAttempts) (.send 0)) { item := item }
  (s.item, match s.clients 0 with
    | some ⟨_, .answered result⟩ => some result
    | _ => none)

end DynamoStore

/-! ## The store of a key manager -/

/-- An increment with the random bytes it draws, should they be needed. -/
structure DrawnIncrement (μ : Type) where
  options : RateLimitIncrementOptions
  members : List μ

/-- A store of one of the strategies: all it holds, or what it holds for the key. -/
inductive BlockedStore (κ μ : Type) [DecidableEq κ] where
  | memory (s : MemoryStore κ)
  | redisSliding (o : WindowOptions) (s : Option (RedisKey (ZSet μ)))
  | redisFixed (o : WindowOptions) (s : Option (RedisKey ℤ))
  | redisBucket (o : TokenBucketOptions) (s : Option RedisHash)
  | dynamoSliding (o : WindowOptions) (item : Option DynamoSlidingItem)
  | dynamoFixed (o : WindowOptions) (item : Option DynamoFixedItem)
  | dynamoBucket (o : TokenBucketOptions) (item : Option DynamoBucketItem)

namespace BlockedStore

variable {κ μ : Type} [DecidableEq κ]

/-- The cap of an increment; a bucket has no other than its own. -/
def capFor (options : RateLimitIncrementOptions) : BlockedStore κ μ → ℤ
  | memory (.sliding o _) | memory (.fixed o _) | redisSliding o _ | redisFixed o _
  | dynamoSliding o _ | dynamoFixed o _ => o.cap options.maxRequests
  | memory (.bucket o _) | redisBucket o _ | dynamoBucket o _ => o.bucketSize

/-- The cap that the store was built with. -/
def cap (s : BlockedStore κ μ) : ℤ := s.capFor {}

variable [LinearOrder μ]

/-- `set` and, for the state that `block` answers with, `get`; only that of `MemoryStore`
writes.  `members` are the random bytes of the `set`.
SOURCE: src/key-manager/KeyManager.ts:212-216 -/
def persist (now : ℤ) (key : κ) (totalHits : ℤ) (expiresAt : Option ℤ) (members : List μ) :
    BlockedStore κ μ → BlockedStore κ μ
  | memory s => memory ((s.set now key totalHits expiresAt).1.get now key).1
  | redisSliding o _ =>
    redisSliding o (RedisSliding.setSlidingRedis o now expiresAt members).1
  | redisFixed o _ => redisFixed o (RedisFixed.setFixedRedis o now totalHits expiresAt).1
  | redisBucket o _ => redisBucket o (some (RedisBucket.setBucketRedis o now totalHits).1)
  | dynamoSliding o _ => dynamoSliding o (some (DynamoStore.setSliding o now totalHits).1)
  | dynamoFixed o _ => dynamoFixed o (some (DynamoStore.setFixed o now totalHits expiresAt).1)
  | dynamoBucket o _ => dynamoBucket o (some (DynamoStore.setTokenBucket o now totalHits).1)

/-- An increment of the key by whoever uses the store; `none` when it throws. -/
def increment (key : κ) (i : Timed (DrawnIncrement μ)) :
    BlockedStore κ μ → BlockedStore κ μ × Option RateLimitResult
  | memory s =>
    let r := s.increment i.time key i.op.options
    (memory r.1, some r.2)
  | redisSliding o s =>
    let r := RedisSliding.luaSlidingIncr o i.time (o.cap i.op.options.maxRequests)
      i.op.options.sanitizedCost i.op.members s
    (redisSliding o r.1, some r.2)
  | redisFixed o s =>
    let r := RedisFixed.luaFixedIncr o i.time (o.cap i.op.options.maxRequests)
      i.op.options.sanitizedCost s
    (redisFixed o r.1, some r.2)
  | redisBucket o s =>
    let r := RedisBucket.incrBucketRedis o ⟨i.time, i.op.options.sanitizedCost⟩ s
    (redisBucket o r.1, some r.2)
  | dynamoSliding o item =>
    let r := DynamoStore.incrementSliding o i.time i.op.options item
    (dynamoSliding o r.1, r.2)
  | dynamoFixed o item =>
    let r := DynamoStore.incrementFixed o i.time i.op.options item
    (dynamoFixed o r.1, r.2)
  | dynamoBucket o item =>
    let r := DynamoStore.bucketAlone o (i.time, i.op.options.sanitizedCost) item
    (dynamoBucket o r.1, some r.2)

end BlockedStore

end RatelimitFlex
