import RatelimitFlex.Program.RedisWindows

/-!
# `syncCountersToRedis`

`src/stores/redis-store.ts`: after the circuit has closed, a sliding- or fixed-window store
reads the active keys of its insurance `MemoryStore`, replays them in Redis with one script
each, and clears the insurance store.  The loop awaits every script; in between increments
may be routed to the insurance store, and its cleanup timer may fire.  A script that fails has
done nothing; the loop only counts it.
-/

set_option autoImplicit false

namespace RatelimitFlex

open Library

/-! ## The active keys of a `MemoryStore` -/

namespace MemoryStore

variable {κ : Type} [DecidableEq κ]

/-- The keys in their order with their hits; what else an entry holds the window syncs do not
read.
SOURCE: src/stores/memory-store.ts:393-452 -/
def getActiveKeys (now : ℤ) : MemoryStore κ → MemoryStore κ × List (κ × ℤ)
  | .sliding o t =>
    let keys := t.state.keys
    let t := keys.foldl (fun t k => clearSlidingWallExpiryIfExpired now k t) t
    (.sliding o t, keys.filterMap fun k => (t.state.lookup k).bind fun cur =>
      match liveStamps o now cur.stamps with
      | [] => none
      | oldest :: rest => some (k, ((oldest :: rest).length : ℤ)))
  | .fixed o t =>
    (.fixed o t, t.state.keys.filterMap fun k => (t.state.lookup k).bind fun e =>
      if e.resetTime ≤ now then none else some (k, e.count))
  | .bucket o t =>
    (.bucket o t, t.state.keys.filterMap fun k => (t.state.lookup k).bind fun b =>
      if isBucketIdleFullPurgeable o now b then none
      else some (k, o.bucketSize - (refillBucketStateForNow o now b).tokens))

/-- The units an increment that was answered with `result` has counted. -/
def countedBy (options : RateLimitIncrementOptions) (result : RateLimitResult) :
    MemoryStore κ → ℤ
  | .bucket _ _ => if result.isBlocked then 0 else options.sanitizedCost
  | _ => options.sanitizedCost

end MemoryStore

/-! ## Redis -/

/-- What Redis holds for a window store: a sorted set or a counter under every key. -/
inductive RedisWindowKeys (κ μ : Type) where
  | sliding (keys : κ → Option (RedisKey (ZSet μ)))
  | fixed (keys : κ → Option (RedisKey ℤ))

namespace RedisWindowKeys

variable {κ μ : Type} [DecidableEq κ]

/-- The sorted set a script finds at `clock`, pruned for the moment `now` it is told. -/
def prunedAt (o : WindowOptions) (clock now : ℤ) (s : Option (RedisKey (ZSet μ))) : ZSet μ :=
  (((RedisKey.live clock s).map RedisKey.value).getD []).removeUpTo (now - o.windowMs)

/-- The script of the sliding window when Redis' clock is ahead of the moment it is told.
SOURCE: src/stores/redis-store.ts:173-208 -/
def luaSlidingIncrAt [LinearOrder μ] (o : WindowOptions) (clock now : ℤ) (cost : ℕ)
    (members : List μ) (s : Option (RedisKey (ZSet μ))) : Option (RedisKey (ZSet μ)) :=
  let z := (members.take (max cost 1)).foldl (fun z m => ZSet.add now m z) (prunedAt o clock now s)
  ZSet.store z (some (clock + o.windowMs))

/-- The units of a key. -/
def count (o : WindowOptions) (clock now : ℤ) (key : κ) : RedisWindowKeys κ μ → ℤ
  | .sliding keys => (prunedAt o clock now (keys key)).length
  | .fixed keys => ((RedisKey.live clock (keys key)).map RedisKey.value).getD 0

/-- The script for one entry; a sorted set is not asked for nothing.
SOURCE: src/stores/redis-store.ts:1104-1143 -/
def syncOneKeyToRedis [LinearOrder μ] (o : WindowOptions) (clock now : ℤ) (key : κ)
    (totalHits : ℤ) (members : List μ) : RedisWindowKeys κ μ → RedisWindowKeys κ μ
  | .sliding keys =>
    if totalHits ≤ 0 then .sliding keys
    else .sliding (Function.update keys key
      (luaSlidingIncrAt o clock now totalHits.toNat members (keys key)))
  | .fixed keys =>
    .fixed (Function.update keys key
      (RedisFixed.luaFixedIncr o clock o.maxRequests totalHits.toNat (keys key)).1)

end RedisWindowKeys

/-- With one moment for both the script is that of an increment. -/
theorem luaSlidingIncrAt_self {μ : Type} [LinearOrder μ] (o : WindowOptions) (now : ℤ)
    (maxRequests cost : ℕ) (members : List μ) (s : Option (RedisKey (ZSet μ))) :
    RedisWindowKeys.luaSlidingIncrAt o now now cost members s =
      (RedisSliding.luaSlidingIncr o now maxRequests cost members s).1 := rfl

/-! ## The loop -/

/-- A sync under way: the moment it was started at and the entries still to come. -/
structure RedisSync (κ μ : Type) [DecidableEq κ] where
  insuranceStore : MemoryStore κ
  redis : RedisWindowKeys κ μ
  now : ℤ
  active : List (κ × ℤ)

/-- An increment of the insurance store, its cleanup timer, or the end of the script for the
next entry; `members` are the random bytes it was given. -/
inductive RedisSyncEvent (κ μ : Type) where
  | increment (key : κ) (options : RateLimitIncrementOptions)
  | purgeExpired
  | script (members : List μ)
  | scriptFailed

/-- The units the insurance store counts, or those Redis gains. -/
inductive RedisSyncOutput (κ : Type) where
  | counted (key : κ) (units : ℤ)
  | gained (key : κ) (units : ℤ)
  | nothing
  deriving DecidableEq

namespace RedisSync

variable {κ μ : Type} [DecidableEq κ] [LinearOrder μ]

omit [LinearOrder μ] in
/-- SOURCE: src/stores/redis-store.ts:1085-1088 -/
def start (now : ℤ) (insuranceStore : MemoryStore κ) (redis : RedisWindowKeys κ μ) :
    RedisSync κ μ :=
  let r := insuranceStore.getActiveKeys now
  ⟨r.1, redis, now, r.2⟩

omit [LinearOrder μ] in
/-- SOURCE: src/stores/redis-store.ts:1096 -/
def finish (s : RedisSync κ μ) : MemoryStore κ := s.insuranceStore.resetAll

/-- SOURCE: src/stores/redis-store.ts:1041-1048, 1088-1095 -/
def step (o : WindowOptions) (i : Timed (RedisSyncEvent κ μ)) (s : RedisSync κ μ) :
    RedisSync κ μ × RedisSyncOutput κ :=
  match i.op with
  | .increment key options =>
    let r := s.insuranceStore.increment i.time key options
    ({ s with insuranceStore := r.1 },
      .counted key (s.insuranceStore.countedBy options r.2))
  | .purgeExpired =>
    ({ s with insuranceStore := s.insuranceStore.purgeExpired i.time }, .nothing)
  | .script members =>
    match s.active with
    | [] => (s, .nothing)
    | (key, totalHits) :: rest =>
      let redis := s.redis.syncOneKeyToRedis o i.time s.now key totalHits members
      ({ s with redis, active := rest },
        .gained key (redis.count o i.time s.now key - s.redis.count o i.time s.now key))
  | .scriptFailed =>
    match s.active with
    | [] => (s, .nothing)
    | (key, _) :: rest => ({ s with active := rest }, .gained key 0)

omit [LinearOrder μ] in
/-- The members of a script are as many as the units, and new.
SOURCE: src/stores/redis-store.ts:18-28, 1117 -/
def FreshMembers (i : Timed (RedisSyncEvent κ μ)) (s : RedisSync κ μ) : Prop :=
  match i.op, s.active, s.redis with
  | .script members, (key, totalHits) :: _, .sliding keys =>
    0 < totalHits → members.length = totalHits.toNat ∧ members.Nodup ∧
      ∀ h ∈ keys key, ∀ p ∈ h.value, p.2 ∉ members
  | _, _, _ => True

end RedisSync

end RatelimitFlex
