import RatelimitFlex.Program.MemoryStore

/-!
# The windows of `RedisStore`

`src/stores/redis-store.ts`: the Lua scripts of the sliding and the fixed window, for one
key.  A script runs atomically on what Redis holds under the key, which is gone from the
moment its time to live has elapsed.  Scores and counters are safe integers.  A script is here
from where it runs: how many arguments the engine lets the call `eval(...)` before it have, with
one for each member, is no part of this.
-/

set_option autoImplicit false

namespace RatelimitFlex

open Library

/-- What Redis holds under a key, and the moment its time to live ends, if it has one. -/
structure RedisKey (α : Type) where
  value : α
  expireAt : Option ℤ
  deriving DecidableEq

namespace RedisKey

variable {α : Type}

/-- What a command finds at `now`. -/
def live (now : ℤ) (s : Option (RedisKey α)) : Option (RedisKey α) :=
  s.filter fun h => h.expireAt.all fun e => decide (now < e)

/-- `PTTL`: `-2` without the key, `-1` without a time to live. -/
def pttl (now : ℤ) : Option (RedisKey α) → ℤ
  | none => -2
  | some h => match h.expireAt with
    | none => -1
    | some e => e - now

end RedisKey

/-! ## Sorted sets -/

/-- A sorted set: scores with their members, by score and then by member. -/
abbrev ZSet (μ : Type) := List (ℤ × μ)

namespace ZSet

variable {μ : Type}

/-- `ZREMRANGEBYSCORE key -inf max`. -/
def removeUpTo (max : ℤ) (z : ZSet μ) : ZSet μ := z.filter fun p => decide (max < p.1)

/-- `ZADD`: a member that is there already gets the new score. -/
def add [LinearOrder μ] (score : ℤ) (member : μ) (z : ZSet μ) : ZSet μ :=
  List.orderedInsert (fun p q => toLex p ≤ toLex q) (score, member)
    (z.filter fun p => decide (p.2 ≠ member))

/-- `ZPOPMIN`. -/
def popMin (z : ZSet μ) : ZSet μ := z.tail

/-- `ZPOPMAX`. -/
def popMax (z : ZSet μ) : ZSet μ := z.dropLast

/-- The key that holds a set; an empty set is no key. -/
def store (z : ZSet μ) (expireAt : Option ℤ) : Option (RedisKey (ZSet μ)) :=
  if z = [] then none else some ⟨z, expireAt⟩

end ZSet

/-- The figures an increment or a `get` of a window answers with.
SOURCE: src/stores/redis-store.ts:1165-1224 -/
def redisWindowResult (count : ℤ) (maxReq : ℕ) (resetAt : ℤ) : RateLimitResult :=
  let blocked := decide ((maxReq : ℤ) < count)
  { totalHits := count
    remaining := if blocked then 0 else max 0 (maxReq - count)
    resetTime := resetAt
    isBlocked := blocked }

/-- The answer is made from the count. -/
theorem redisWindowResult_eq (count : ℤ) (maxReq : ℕ) (resetAt : ℤ) :
    redisWindowResult count maxReq resetAt = RateLimitResult.ofUsage count maxReq resetAt := rfl

/-! ## Sliding window -/

namespace RedisSliding

variable {μ : Type} [LinearOrder μ]

/-- SOURCE: src/stores/redis-store.ts:173-208 -/
def luaSlidingIncr (o : WindowOptions) (now : ℤ) (maxRequests cost : ℕ) (members : List μ)
    (s : Option (RedisKey (ZSet μ))) : Option (RedisKey (ZSet μ)) × RateLimitResult :=
  let cost := max cost 1
  let z := ((RedisKey.live now s).map RedisKey.value).getD []
  let z := z.removeUpTo (now - o.windowMs)
  let z := (members.take cost).foldl (fun z m => ZSet.add now m z) z
  let oldest := (z.head?.map Prod.fst).getD now
  (ZSet.store z (some (now + o.windowMs)),
    redisWindowResult z.length maxRequests (oldest + o.windowMs))

/-- SOURCE: src/stores/redis-store.ts:210-225 -/
def luaSlidingDecr (now : ℤ) (cost : ℕ) (newest : Bool) (s : Option (RedisKey (ZSet μ))) :
    Option (RedisKey (ZSet μ)) :=
  match RedisKey.live now s with
  | none => none
  | some h =>
    ZSet.store ((if newest then ZSet.popMax else ZSet.popMin)^[max cost 1] h.value) h.expireAt

/-- The members a script finds at `now`. -/
def members (now : ℤ) (s : Option (RedisKey (ZSet μ))) : ZSet μ :=
  ((RedisKey.live now s).map RedisKey.value).getD []

/-- `ZCOUNT` counts the members in the window; `ZRANGE key 0 0` answers with the oldest of
all members, since nothing has been removed.
SOURCE: src/stores/redis-store.ts:335-356, 1455-1482 -/
def getSlidingRedis (o : WindowOptions) (now : ℤ) (s : Option (RedisKey (ZSet μ))) :
    Option RateLimitResult :=
  let z := members now s
  let count := (z.filter fun p => decide (now - o.windowMs < p.1)).length
  if count = 0 then none
  else
    let oldestScore := (z.head?.map Prod.fst).getD now
    some (redisWindowResult count (o.cap none) (oldestScore + o.windowMs))

/-- An operation on the key; `members` are the random bytes an increment draws. -/
inductive Op (μ : Type) where
  | increment (options : RateLimitIncrementOptions) (members : List μ)
  | decrement (options : RateLimitDecrementOptions)

/-- SOURCE: src/stores/redis-store.ts:1165-1197, 1256-1284 -/
def step (o : WindowOptions) (i : Timed (Op μ)) (s : Option (RedisKey (ZSet μ))) :
    Option (RedisKey (ZSet μ)) × StoreReply :=
  match i.op with
  | .increment options members =>
    let r := luaSlidingIncr o i.time (o.cap options.maxRequests) options.sanitizedCost members s
    (r.1, .result r.2)
  | .decrement options =>
    (luaSlidingDecr i.time options.sanitizedCost options.removeNewest s, .done)

/-- The members are as many as the cost, and neither drawn twice nor in the set.
SOURCE: src/stores/redis-store.ts:18-28 -/
def Fresh (i : Timed (Op μ)) (s : Option (RedisKey (ZSet μ))) : Prop :=
  match i.op with
  | .increment options members =>
    members.length = options.sanitizedCost ∧ members.Nodup ∧
      ∀ h ∈ s, ∀ p ∈ h.value, p.2 ∉ members
  | .decrement _ => True

/-- The same operation on a `MemoryStore`. -/
def Op.toStoreOp {κ : Type} (key : κ) : Op μ → StoreOp κ
  | .increment options _ => .increment key options
  | .decrement options => .decrement key options

end RedisSliding

/-! ## Fixed window -/

namespace RedisFixed

/-- SOURCE: src/stores/redis-store.ts:229-252 -/
def luaFixedIncr (o : WindowOptions) (now : ℤ) (maxRequests cost : ℕ) (s : Option (RedisKey ℤ)) :
    Option (RedisKey ℤ) × RateLimitResult :=
  let cost := max cost 1
  let key : RedisKey ℤ := match RedisKey.live now s with
    | none => ⟨cost, none⟩
    | some h => ⟨h.value + cost, h.expireAt⟩
  let key : RedisKey ℤ := if key.value = cost then ⟨key.value, some (now + o.windowMs)⟩ else key
  let pttl := RedisKey.pttl now (some key)
  let pttl := if pttl < 0 then (o.windowMs : ℤ) else pttl
  (some key, redisWindowResult key.value maxRequests (now + pttl))

/-- SOURCE: src/stores/redis-store.ts:254-264 -/
def luaFixedDecr (now : ℤ) (cost : ℕ) (s : Option (RedisKey ℤ)) : Option (RedisKey ℤ) :=
  match RedisKey.live now s with
  | none => none
  | some h =>
    if h.value ≤ 0 then some h
    else some ⟨h.value - min h.value (max cost 1 : ℕ), h.expireAt⟩

/-- SOURCE: src/stores/redis-store.ts:402-419, 1484-1509 -/
def getFixedRedis (o : WindowOptions) (now : ℤ) (s : Option (RedisKey ℤ)) :
    Option RateLimitResult :=
  (RedisKey.live now s).map fun h =>
    let pttl := RedisKey.pttl now (some h)
    let pttl := if pttl < 0 then (o.windowMs : ℤ) else pttl
    redisWindowResult h.value (o.cap none) (now + pttl)

/-- SOURCE: src/stores/redis-store.ts:1577-1599 -/
def setFixedRedis (o : WindowOptions) (now totalHits : ℤ) (expiresAt : Option ℤ) :
    Option (RedisKey ℤ) × Option RateLimitResult :=
  let s : Option (RedisKey ℤ) :=
    some ⟨max 0 totalHits, some (expiresAt.getD (now + o.windowMs))⟩
  (s, getFixedRedis o now s)

/-- An operation on the key. -/
inductive Op where
  | increment (options : RateLimitIncrementOptions)
  | decrement (options : RateLimitDecrementOptions)
  | reset
  | set (totalHits : ℤ) (expiresAt : Option ℤ)
  deriving DecidableEq

/-- SOURCE: src/stores/redis-store.ts:1199-1224, 1285-1294, 1318-1347, 1382-1420 -/
def step (o : WindowOptions) (i : Timed Op) (s : Option (RedisKey ℤ)) :
    Option (RedisKey ℤ) × StoreReply :=
  match i.op with
  | .increment options =>
    let r := luaFixedIncr o i.time (o.cap options.maxRequests) options.sanitizedCost s
    (r.1, .result r.2)
  | .decrement options => (luaFixedDecr i.time options.sanitizedCost s, .done)
  | .reset => (none, .done)
  | .set totalHits expiresAt =>
    let r := setFixedRedis o i.time totalHits expiresAt
    (r.1, .snapshot r.2)

/-- The same operation on a `MemoryStore`. -/
def Op.toStoreOp {κ : Type} (key : κ) : Op → StoreOp κ
  | .increment options => .increment key options
  | .decrement options => .decrement key options
  | .reset => .reset key
  | .set totalHits expiresAt => .set key totalHits expiresAt

/-- The operation is an increment. -/
def Op.isIncrement : Op → Bool
  | .increment _ => true
  | _ => false

/-- A `set` seeds a count that is not negative, and an end that is still to come. -/
def Admissible (i : Timed Op) : Prop :=
  match i.op with
  | .set totalHits expiresAt => 0 ≤ totalHits ∧ ∀ e ∈ expiresAt, i.time < e
  | _ => True

end RedisFixed

end RatelimitFlex
