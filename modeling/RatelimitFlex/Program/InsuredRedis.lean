import RatelimitFlex.Program.RedisResilience
import RatelimitFlex.Program.RedisSync
import RatelimitFlex.Program.RedisTokenBucket

/-!
# Increments and decrements of a `RedisStore` with what Redis holds

`src/stores/redis-store.ts`: the store of `RedisStore` together with the keys of its
strategy in Redis.  A call that is sent to Redis carries its own clock reading; its script
runs in the moment its answer comes, and a call that fails has done nothing.  In between
other calls may be sent and answered, the scripts of a counter sync may run, and the
cleanup timer of the insurance store may fire.
-/

set_option autoImplicit false

namespace RatelimitFlex

open Library

/-! ## The scripts of a token bucket -/

namespace RedisBucket

/-- The script of an increment when Redis' clock is ahead of the moment it is told.
SOURCE: src/stores/redis-store.ts:266-312 -/
def luaBucketIncrAt (o : TokenBucketOptions) (clock now : ℤ) (cost : ℕ) (s : Option RedisHash) :
    RedisHash × RateLimitResult :=
  let r := luaBucketIncr o now cost (live clock s)
  ({ r.1 with expireAt := clock + o.interval * 10 }, r.2)

/-- SOURCE: src/stores/redis-store.ts:314-328 -/
def luaBucketDecr (o : TokenBucketOptions) (clock : ℤ) (add : ℕ) (s : Option RedisHash) :
    Option RedisHash :=
  (live clock s).map fun h => { h with tokens := min o.bucketSize (h.tokens + (max add 1 : ℕ)) }

/-- SOURCE: src/stores/redis-store.ts:456-467, 1144-1156 -/
def luaBucketSync (o : TokenBucketOptions) (clock : ℤ) (totalHits : ℕ) (resetTime : ℤ) :
    RedisHash :=
  ⟨max 0 (o.bucketSize - totalHits), resetTime - o.interval, clock + o.interval * 10⟩

end RedisBucket

/-! ## What Redis holds -/

/-- What Redis holds for a store of any strategy, with the options of the store. -/
inductive RedisKeys (κ μ : Type) where
  | windows (o : WindowOptions) (keys : RedisWindowKeys κ μ)
  | bucket (o : TokenBucketOptions) (keys : κ → Option RedisHash)

namespace RedisKeys

variable {κ μ : Type} [DecidableEq κ]

/-- An increment sent at `now` whose script runs at `clock`.
SOURCE: src/stores/redis-store.ts:1165-1250 -/
def increment [LinearOrder μ] (clock now : ℤ) (key : κ) (options : RateLimitIncrementOptions)
    (members : List μ) : RedisKeys κ μ → RedisKeys κ μ × RateLimitResult
  | .windows o (.sliding keys) =>
    let s := RedisWindowKeys.luaSlidingIncrAt o clock now options.sanitizedCost members (keys key)
    let z := (s.map RedisKey.value).getD []
    (.windows o (.sliding (Function.update keys key s)),
      redisWindowResult z.length (o.cap options.maxRequests)
        ((z.head?.map Prod.fst).getD now + o.windowMs))
  | .windows o (.fixed keys) =>
    let r := RedisFixed.luaFixedIncr o clock (o.cap options.maxRequests) options.sanitizedCost
      (keys key)
    (.windows o (.fixed (Function.update keys key r.1)),
      { r.2 with resetTime := now + (r.2.resetTime - clock) })
  | .bucket o keys =>
    let r := RedisBucket.luaBucketIncrAt o clock now options.sanitizedCost (keys key)
    (.bucket o (Function.update keys key (some r.1)), r.2)

/-- SOURCE: src/stores/redis-store.ts:1264-1302 -/
def decrement (clock : ℤ) (key : κ) (options : RateLimitDecrementOptions) :
    RedisKeys κ μ → RedisKeys κ μ
  | .windows o (.sliding keys) =>
    .windows o (.sliding (Function.update keys key
      (RedisSliding.luaSlidingDecr clock options.sanitizedCost options.removeNewest (keys key))))
  | .windows o (.fixed keys) =>
    .windows o (.fixed (Function.update keys key
      (RedisFixed.luaFixedDecr clock options.sanitizedCost (keys key))))
  | .bucket o keys =>
    .bucket o (Function.update keys key
      (RedisBucket.luaBucketDecr o clock options.sanitizedCost (keys key)))

/-- The script for an entry of the insurance store, by a sync that started at `now`.
SOURCE: src/stores/redis-store.ts:1104-1163 -/
def syncOneKey [LinearOrder μ] (clock now : ℤ) (key : κ) (totalHits : ℕ) (resetTime : ℤ)
    (members : List μ) : RedisKeys κ μ → RedisKeys κ μ
  | .windows o keys => .windows o (keys.syncOneKeyToRedis o clock now key totalHits members)
  | .bucket o keys =>
    .bucket o (Function.update keys key
      (some (RedisBucket.luaBucketSync o clock totalHits resetTime)))

/-- A call that was sent at `now`; no other calls are. -/
def run [LinearOrder μ] (clock now : ℤ) (op : StoreOp κ) (members : List μ) (s : RedisKeys κ μ) :
    RedisKeys κ μ × StoreReply :=
  match op with
  | .increment key options =>
    let r := s.increment clock now key options members
    (r.1, .result r.2)
  | .decrement key options => (s.decrement clock key options, .done)
  | _ => (s, .done)

/-- What Redis counts for a key: the hits of a window, the tokens a bucket is short of. -/
def count (clock : ℤ) (key : κ) : RedisKeys κ μ → ℤ
  | .windows o keys => keys.count o clock clock key
  | .bucket o keys => ((RedisBucket.live clock (keys key)).map fun h =>
      o.bucketSize - ((Bucket.mk h.tokens h.lastRefill).refill o clock).tokens).getD 0

end RedisKeys

/-! ## The store and its Redis -/

/-- The store, its Redis, and the moments its pending calls were sent. -/
structure InsuredRedis (κ μ : Type) [DecidableEq κ] where
  store : RedisStore κ
  redis : RedisKeys κ μ
  calledAt : List ℤ := []

/-- A call, the answer to the `i`-th pending call (`members` are the random bytes it was
given), its failure, the cleanup timer of the insurance store, the script of a counter sync for
a key, and the end of such a sync. -/
inductive InsuredRedisEvent (κ μ : Type) where
  | increment (key : κ) (options : RateLimitIncrementOptions)
  | decrement (key : κ) (options : RateLimitDecrementOptions)
  | answered (i : ℕ) (members : List μ)
  | failed (i : ℕ) (err : StoreError)
  | purgeExpired
  | syncScript (key : κ) (totalHits : ℕ) (resetTime now : ℤ) (members : List μ)
  | synced

namespace InsuredRedis

variable {κ μ : Type} [DecidableEq κ] [LinearOrder μ]

omit [LinearOrder μ] in
/-- SOURCE: src/stores/redis-store.ts:669-694 -/
def new (userCb : CircuitBreakerOptions) (insuranceStore : MemoryStore κ)
    (redis : RedisKeys κ μ) : InsuredRedis κ μ where
  store := RedisStore.new userCb insuranceStore
  redis := redis

omit [LinearOrder μ] in
/-- A call that is not answered at once has been sent to Redis.
SOURCE: src/stores/redis-store.ts:995-1026, 1258-1302 -/
def call (now : ℤ) (op : StoreOp κ) (s : InsuredRedis κ μ) : InsuredRedis κ μ × Option RedisReply :=
  let r := s.store.call now op
  ({ s with store := r.1, calledAt := if r.2.isSome then s.calledAt else s.calledAt ++ [now] }, r.2)

/-- The script of the `i`-th pending call runs, and its answer arrives.
SOURCE: src/stores/redis-store.ts:1007-1038, 1264-1302 -/
def answered (o : RedisStoreOptions) (clock : ℤ) (i : ℕ) (members : List μ)
    (s : InsuredRedis κ μ) : InsuredRedis κ μ × Option RedisReply :=
  match s.store.pending[i]? with
  | none => (s, none)
  | some op =>
    let r := s.redis.run clock ((s.calledAt[i]?).getD clock) op members
    let q := s.store.answer o clock i (.ok r.2)
    ({ store := q.1, redis := r.1, calledAt := s.calledAt.eraseIdx i }, q.2)

omit [LinearOrder μ] in
/-- The `i`-th pending call fails.
SOURCE: src/stores/redis-store.ts:1025-1038, 1303-1311 -/
def failed (o : RedisStoreOptions) (clock : ℤ) (i : ℕ) (err : StoreError)
    (s : InsuredRedis κ μ) : InsuredRedis κ μ × Option RedisReply :=
  let q := s.store.answer o clock i (.error err)
  ({ s with store := q.1, calledAt := s.calledAt.eraseIdx i }, q.2)

/-- One step of a run. -/
def step (o : RedisStoreOptions) (i : Timed (InsuredRedisEvent κ μ)) (s : InsuredRedis κ μ) :
    InsuredRedis κ μ × Option RedisReply :=
  match i.op with
  | .increment key options => s.call i.time (.increment key options)
  | .decrement key options => s.call i.time (.decrement key options)
  | .answered n members => s.answered o i.time n members
  | .failed n err => s.failed o i.time n err
  | .purgeExpired => ({ s with store := (s.store.call i.time .purgeExpired).1 }, none)
  | .syncScript key totalHits resetTime now members =>
    ({ s with redis := s.redis.syncOneKey i.time now key totalHits resetTime members }, none)
  | .synced => ({ s with store := s.store.synced }, none)

/-- A call from its start to its end, no other event in between: when it is sent to Redis,
`outcome` says whether it fails there, or which members its script is given. -/
def perform (o : RedisStoreOptions) (called ended : ℤ) (op : InsuredRedisEvent κ μ)
    (outcome : Except StoreError (List μ)) (s : InsuredRedis κ μ) : InsuredRedis κ μ :=
  let r := s.step o ⟨called, op⟩
  match r.2 with
  | some _ => r.1
  | none =>
    let i := s.store.pending.length
    match outcome with
    | .ok members => (r.1.step o ⟨ended, .answered i members⟩).1
    | .error err => (r.1.step o ⟨ended, .failed i err⟩).1

end InsuredRedis

end RatelimitFlex
