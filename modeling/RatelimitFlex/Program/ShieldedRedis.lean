import RatelimitFlex.Program.InMemoryShield
import RatelimitFlex.Program.InsuredRedis

/-!
# A `RedisStore` behind an `InMemoryShield`

`src/middleware/merge-options.ts` with `inMemoryBlock: true` over one `RedisStore`: the
threshold of the shield is the limit of the options and a block lasts for their window or
interval, whatever the store was made with.  One process calls Redis, its scripts run at the
moment of the call, and none of them fails.
-/

set_option autoImplicit false

namespace RatelimitFlex

open Library

/-! ## The options of the shield -/

/-- What `inMemoryBlock: true` reads of options without `limits` and `groupedWindowStores`.
SOURCE: src/types/index.ts:557-631 -/
inductive SingleQuota (ρ : Type) where
  | window (maxRequests : Option (Setting ρ)) (windowMs : Option JsNumber)
  | tokenBucket (bucketSize : JsNumber) (interval : Option JsNumber)

namespace SingleQuota

variable {ρ : Type}

/-- SOURCE: src/middleware/merge-options.ts:28-41 -/
def resolveWindowMsForShield : SingleQuota ρ → JsNumber
  | .window _ windowMs => windowMs.getD 60000
  | .tokenBucket _ interval => interval.getD 60000

/-- Without a request a function counts as 100.
SOURCE: src/middleware/merge-options.ts:93-122 -/
def getLimit : SingleQuota ρ → JsNumber
  | .window none _ => 100
  | .window (some (.value v)) _ => .ofInt (sanitizeRateLimitCap (some v) 100)
  | .window (some (.function _)) _ => 100
  | .tokenBucket bucketSize _ => bucketSize

end SingleQuota

/-- The options the constructor makes of two numbers, or it throws.  A count and a moment are
integers, so of a fraction only the next integer matters.
SOURCE: src/shield/InMemoryShield.ts:37-56 -/
def InMemoryShieldOptions.ofNumbers? : JsNumber → JsNumber → Option InMemoryShieldOptions
  | .finite blockOnConsumed, .finite blockDurationMs =>
    if h : 1 ≤ blockOnConsumed ∧ 0 ≤ blockDurationMs then
      some
        { blockOnConsumed := ⌈blockOnConsumed⌉
          blockDurationMs := some ⌈blockDurationMs⌉
          one_le_blockOnConsumed := Int.one_le_ceil_iff.mpr (zero_lt_one.trans_le h.1)
          blockDurationMs_nonneg := fun _ hd => Option.mem_some_iff.mp hd ▸ Int.ceil_nonneg h.2 }
    else none
  | _, _ => none

/-- Whole numbers in their ranges are options. -/
theorem InMemoryShieldOptions.ofNumbers?_ofInt {b d : ℤ} (hb : 1 ≤ b) (hd : 0 ≤ d) :
    InMemoryShieldOptions.ofNumbers? (.ofInt b) (.ofInt d) =
      some
        { blockOnConsumed := b
          blockDurationMs := some d
          one_le_blockOnConsumed := hb
          blockDurationMs_nonneg := fun _ hx => Option.mem_some_iff.mp hx ▸ hd } := by
  have h : (1 : ℚ) ≤ (b : ℤ) ∧ (0 : ℚ) ≤ (d : ℤ) := by exact_mod_cast And.intro hb hd
  simp only [InMemoryShieldOptions.ofNumbers?, JsNumber.ofInt, dif_pos h, Int.ceil_intCast]

/-- SOURCE: src/middleware/merge-options.ts:247-259 -/
def SingleQuota.shieldOptions? {ρ : Type} (q : SingleQuota ρ) : Option InMemoryShieldOptions :=
  InMemoryShieldOptions.ofNumbers? q.getLimit q.resolveWindowMsForShield

/-! ## The store -/

/-- What Redis holds, the clock, and the random bytes the next increment draws. -/
structure RedisBackend (κ μ : Type) where
  redis : RedisKeys κ μ
  now : ℤ
  drawn : List μ := []

section Store

variable {κ μ : Type} [DecidableEq κ] [LinearOrder μ]

/-- A `RedisStore` that nobody else uses.
SOURCE: src/stores/redis-store.ts:1165-1302 -/
def redisStore : RateLimitStore (RedisBackend κ μ) κ where
  increment key options s :=
    let r := s.redis.increment s.now s.now key options s.drawn
    (.ok r.2, { s with redis := r.1 })
  decrement key options s := { s with redis := s.redis.decrement s.now key options }

/-- An increment, the bytes it draws if it comes to Redis, or the shield's timer. -/
inductive ShieldedRedisEvent (κ μ : Type) where
  | increment (time : ℤ) (key : κ) (options : RateLimitIncrementOptions) (drawn : List μ)
  | sweep (time : ℤ)

/-- When an event comes. -/
def ShieldedRedisEvent.time {κ μ : Type} : ShieldedRedisEvent κ μ → ℤ
  | .increment time _ _ _ => time
  | .sweep time => time

/-- The state an event finds. -/
def arriveRedis (time : ℤ) (drawn : List μ) (s : Shielded (RedisBackend κ μ) κ) :
    Shielded (RedisBackend κ μ) κ :=
  { s with inner := { s.inner with now := time, drawn } }

/-- One event; an increment has an answer. -/
def shieldedRedisStep (o : InMemoryShieldOptions) :
    ShieldedRedisEvent κ μ → Shielded (RedisBackend κ μ) κ →
      Shielded (RedisBackend κ μ) κ × Option (Except StoreError ShieldedResult)
  | .increment time key options drawn, s =>
    let r := InMemoryShield.increment o redisStore RedisBackend.now key options
      (arriveRedis time drawn s)
    (r.2, some r.1)
  | .sweep time, s => ({ s with cache := InMemoryShield.sweep time s.cache }, none)

end Store

end RatelimitFlex
