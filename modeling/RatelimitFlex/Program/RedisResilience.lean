import RatelimitFlex.Program.CircuitBreaker
import RatelimitFlex.Program.MemoryStore
import RatelimitFlex.Program.RateLimitEngine

/-!
# `RedisStore` with an insurance limiter

`src/stores/redis-store.ts`: which calls reach Redis and which the insurance
`MemoryStore`.  A call that is sent to Redis stays `pending` until its answer arrives,
and other calls may come in between; what Redis answers is up to the environment.  A call
routed to the insurance store is answered at once.  `syncCountersToRedis` touches this
state only when it ends, with `resetAll`; the hooks, which only report, are left out.
-/

set_option autoImplicit false

namespace RatelimitFlex

/-- SOURCE: src/stores/redis-store.ts:125 -/
inductive RedisErrorMode where
  | failOpen
  | failClosed
  deriving DecidableEq

/-- The fields of a store that routing and its answers read.
SOURCE: src/stores/redis-store.ts:571-586 -/
structure RedisStoreOptions where
  strategy : RateLimitStrategy
  windowMs : ℤ := 0
  maxRequests : ℤ := 0
  refillIntervalMs : ℤ := 0
  bucketSize : ℤ := 0
  redisErrorMode : RedisErrorMode := .failOpen
  syncOnRecovery : Bool := true

/-- SOURCE: src/stores/redis-store.ts:607-612 -/
structure RedisStore (κ : Type) [DecidableEq κ] where
  circuitBreaker : CircuitBreaker
  insuranceStore : MemoryStore κ
  failoverStartedAtMs : Option ℤ := none
  pending : List (StoreOp κ) := []
  runningSyncs : ℕ := 0

/-- A call of the store (`purgeExpired`: the timer of the insurance store fires), the
answer of Redis to the `i`-th pending call, where `error` also stands for `null`, and the
end of a counter sync. -/
inductive RedisEvent (κ : Type) where
  | call (op : StoreOp κ)
  | answer (i : ℕ) (outcome : Except StoreError StoreReply)
  | synced

/-- What a caller gets back. -/
abbrev RedisReply := Except StoreError StoreReply

namespace RedisStore

variable {κ : Type} [DecidableEq κ]

/-- SOURCE: src/stores/redis-store.ts:669-694 -/
def new (userCb : CircuitBreakerOptions) (insuranceStore : MemoryStore κ) : RedisStore κ where
  circuitBreaker := CircuitBreaker.new userCb
  insuranceStore := insuranceStore

/-- SOURCE: src/stores/redis-store.ts:897-913 -/
def failOpenResult (o : RedisStoreOptions) (now : ℤ) : RateLimitResult :=
  if o.strategy = .tokenBucket then
    { totalHits := 0, remaining := o.bucketSize, resetTime := now + o.refillIntervalMs,
      isBlocked := false }
  else
    { totalHits := 0, remaining := o.maxRequests, resetTime := now + o.windowMs,
      isBlocked := false }

/-- SOURCE: src/stores/redis-store.ts:916-934 -/
def failClosedIncrementResult (o : RedisStoreOptions) (now : ℤ) : RateLimitResult :=
  if o.strategy = .tokenBucket then
    { totalHits := o.bucketSize, remaining := 0, resetTime := now + o.refillIntervalMs,
      isBlocked := true, storeUnavailable := true }
  else
    { totalHits := 0, remaining := 0, resetTime := now + o.windowMs,
      isBlocked := true, storeUnavailable := true }

/-- SOURCE: src/stores/redis-store.ts:936-946 -/
def redisIncrementFailure (o : RedisStoreOptions) (now : ℤ) : RateLimitResult :=
  match o.redisErrorMode with
  | .failClosed => failClosedIncrementResult o now
  | .failOpen => failOpenResult o now

/-- SOURCE: src/stores/redis-store.ts:806-808 -/
def shouldRouteQuotaViaInsurance (now : ℤ) (s : RedisStore κ) : RedisStore κ × Bool :=
  let r := s.circuitBreaker.canAttempt now
  ({ s with circuitBreaker := r.1 }, !r.2.1)

/-- The call runs on the insurance store; the result of an increment is marked.
SOURCE: src/stores/redis-store.ts:1041-1048, 1260-1263, 1319-1322, 1357-1359,
1392-1394, 1426-1429 -/
def viaInsurance (now : ℤ) (op : StoreOp κ) (s : RedisStore κ) : RedisStore κ × StoreReply :=
  let r := s.insuranceStore.step ⟨now, op⟩
  let reply := match op, r.2 with
    | .increment _ _, .result result => .result { result with storeUnavailable := true }
    | _, reply => reply
  ({ s with insuranceStore := r.1 }, reply)

/-- The opening of every operation: the breaker decides where the call goes.
SOURCE: src/stores/redis-store.ts:1003-1005, 1260, 1319, 1357, 1392, 1426 -/
def call (now : ℤ) (op : StoreOp κ) (s : RedisStore κ) : RedisStore κ × Option RedisReply :=
  if op = .purgeExpired then ((s.viaInsurance now op).1, none)
  else
    let r := s.shouldRouteQuotaViaInsurance now
    if r.2 then
      let q := r.1.viaInsurance now op
      (q.1, some (.ok q.2))
    else ({ r.1 with pending := r.1.pending ++ [op] }, none)

/-- `onClose` ends the failover and starts the counter sync.
SOURCE: src/stores/redis-store.ts:681-689, 1029-1032 -/
def recordSuccess (o : RedisStoreOptions) (s : RedisStore κ) : RedisStore κ :=
  let r := s.circuitBreaker.recordSuccess
  let s := { s with circuitBreaker := r.1 }
  if r.2 = some .onClose then
    { s with
      failoverStartedAtMs := none
      runningSyncs := if o.syncOnRecovery then s.runningSyncs + 1 else s.runningSyncs }
  else s

/-- SOURCE: src/stores/redis-store.ts:1050-1066 -/
def handleRedisFailureForIncrement (now : ℤ) (key : κ) (options : RateLimitIncrementOptions)
    (s : RedisStore κ) : RedisStore κ × StoreReply :=
  let before := s.circuitBreaker.state
  let s := { s with circuitBreaker := (s.circuitBreaker.recordFailure now).1 }
  let s := if before = .closed ∧ s.circuitBreaker.state = .opened then
    { s with failoverStartedAtMs := some now } else s
  s.viaInsurance now (.increment key options)

/-- What a call other than an increment makes of the answer: a failed `decrement` is only
logged, a failed `reset` or `delete` is thrown when failing closed, a failed `get` reads
nothing and a failed `set` answers as a failed increment does.
SOURCE: src/stores/redis-store.ts:1264-1308, 1323-1343, 1360-1377, 1395-1420, 1430-1452 -/
def replyWithoutRecord (o : RedisStoreOptions) (now : ℤ) (op : StoreOp κ)
    (outcome : Except StoreError StoreReply) : RedisReply :=
  match op, outcome with
  | .decrement _ _, _ => .ok .done
  | _, .ok reply => .ok reply
  | .get _, .error _ => .ok (.snapshot none)
  | .set _ _ _, .error _ => .ok (.result (redisIncrementFailure o now))
  | .delete _, .error err =>
    if o.redisErrorMode = .failClosed then .error err else .ok (.deleted false)
  | _, .error err => if o.redisErrorMode = .failClosed then .error err else .ok .done

/-- An answer of Redis: only an increment records it with the breaker.
SOURCE: src/stores/redis-store.ts:1007-1038 -/
def answer (o : RedisStoreOptions) (now : ℤ) (i : ℕ) (outcome : Except StoreError StoreReply)
    (s : RedisStore κ) : RedisStore κ × Option RedisReply :=
  match s.pending[i]? with
  | none => (s, none)
  | some op =>
    let s := { s with pending := s.pending.eraseIdx i }
    match op, outcome with
    | .increment _ _, .ok reply => (s.recordSuccess o, some (.ok reply))
    | .increment key options, .error _ =>
      let r := s.handleRedisFailureForIncrement now key options
      (r.1, some (.ok r.2))
    | op, outcome => (s, some (replyWithoutRecord o now op outcome))

/-- SOURCE: src/stores/redis-store.ts:1096 -/
def synced (s : RedisStore κ) : RedisStore κ :=
  if s.runningSyncs = 0 then s
  else { s with runningSyncs := s.runningSyncs - 1, insuranceStore := s.insuranceStore.resetAll }

/-- One step of a run. -/
def step (o : RedisStoreOptions) (i : Timed (RedisEvent κ)) (s : RedisStore κ) :
    RedisStore κ × Option RedisReply :=
  match i.op with
  | .call op => s.call i.time op
  | .answer n outcome => s.answer o i.time n outcome
  | .synced => (s.synced, none)

end RedisStore

end RatelimitFlex
