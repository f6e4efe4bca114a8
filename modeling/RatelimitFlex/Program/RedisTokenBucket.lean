import RatelimitFlex.Library.BucketExpiry
import RatelimitFlex.Program.MemoryStore

/-!
# The token bucket of `RedisStore`

`src/stores/redis-store.ts`: the Lua script of an increment, for one key.  The script runs
atomically on the hash of the key, which Redis removes when its time to live has elapsed:
a read at or after `expireAt` finds nothing.  Numbers are exact, as they are in Lua and in
the `%.14g` format of the stored fields below 10^14.
-/

set_option autoImplicit false

namespace RatelimitFlex

open Library

/-- The hash of a key and the moment its time to live ends. -/
structure RedisHash where
  tokens : ℤ
  lastRefill : ℤ
  expireAt : ℤ
  deriving DecidableEq

namespace RedisBucket

/-- What a script finds under the key. -/
def live (now : ℤ) (s : Option RedisHash) : Option RedisHash :=
  s.filter fun h => decide (now < h.expireAt)

/-- SOURCE: src/stores/redis-store.ts:266-312 -/
def luaBucketIncr (o : TokenBucketOptions) (now : ℤ) (cost : ℕ) (s : Option RedisHash) :
    RedisHash × RateLimitResult :=
  let cost := max cost 1
  let (tokens, lastRefill) : ℤ × ℤ :=
    match s with
    | none => (o.bucketSize, now)
    | some h => (h.tokens, h.lastRefill)
  let elapsed := now - lastRefill
  let intervals := elapsed / o.interval
  let (tokens, lastRefill) : ℤ × ℤ :=
    if 0 < intervals then
      (min o.bucketSize (tokens + intervals * o.tokensPerInterval),
        lastRefill + intervals * o.interval)
    else (tokens, lastRefill)
  if (cost : ℤ) ≤ tokens then
    let tokens := tokens - cost
    (⟨tokens, lastRefill, now + o.interval * 10⟩,
      { totalHits := o.bucketSize - tokens
        remaining := tokens
        resetTime := lastRefill + o.interval
        isBlocked := false })
  else
    (⟨tokens, lastRefill, now + o.interval * 10⟩,
      { totalHits := o.bucketSize
        remaining := tokens
        resetTime := lastRefill + o.interval
        isBlocked := true })

/-- The increment of one key at a clock reading, with its cost.
SOURCE: src/stores/redis-store.ts:1226-1250 -/
def incrBucketRedis (o : TokenBucketOptions) (i : Timed ℕ) (s : Option RedisHash) :
    Option RedisHash × RateLimitResult :=
  let r := luaBucketIncr o i.time i.op (live i.time s)
  (some r.1, r.2)

end RedisBucket

end RatelimitFlex
