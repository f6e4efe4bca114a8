import RatelimitFlex.Program.MemoryStore

/-!
# Helpers the database stores share

`src/utils/store-utils.ts`.
-/

set_option autoImplicit false

namespace RatelimitFlex

open Library

/-- SOURCE: src/utils/store-utils.ts:25-41 -/
def refillBucketState (o : TokenBucketOptions) (now : ℤ) (b : Bucket) : Bucket :=
  let elapsed := now - b.lastRefill
  let intervals := elapsed / o.interval
  if 0 < intervals then
    { tokens := min o.bucketSize (b.tokens + intervals * o.tokensPerInterval)
      lastRefill := b.lastRefill + intervals * o.interval }
  else b

/-- The refill of the source is that of the bucket. -/
@[simp] theorem refillBucketState_eq (o : TokenBucketOptions) (now : ℤ) (b : Bucket) :
    refillBucketState o now b = b.refill o now := rfl

/-- How many arguments an engine lets `Math.min(...stamps)` have is no part of this.
SOURCE: src/utils/store-utils.ts:47-56 -/
def resetTimeFromSlidingStamps (windowMs now : ℤ) (stamps : List ℤ) : ℤ :=
  match stamps.min? with
  | none => now + windowMs
  | some oldest => oldest + windowMs

end RatelimitFlex
