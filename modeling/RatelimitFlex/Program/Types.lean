import RatelimitFlex.Program.Clamp

/-!
# Shared types

`src/types/index.ts`: the result of an increment, the per-call options and the strategy.
Times are epoch milliseconds (`ℤ`); usage and remaining quota are integers, since a store
subtracts before it compares.  An option that may be left out is an `Option`, and a flag
the code only tests for truth is a `Bool` that defaults to `false`.
-/

set_option autoImplicit false

namespace RatelimitFlex

/-- The latest time a `Date` can hold, and the earliest one is its negative. -/
def maxDateMs : ℤ := 8640000000000000

/-- SOURCE: src/types/index.ts:22-29 -/
inductive RateLimitStrategy where
  | slidingWindow
  | tokenBucket
  | fixedWindow
  deriving DecidableEq

/-- One layer's row in a composed result.
SOURCE: src/types/index.ts:37-44 -/
structure LayerResult where
  totalHits : ℤ
  remaining : ℤ
  resetTime : ℤ
  isBlocked : Bool
  consulted : Bool
  error : Option String := none
  deriving DecidableEq

/-- SOURCE: src/types/index.ts:53-95 -/
structure RateLimitResult where
  totalHits : ℤ
  remaining : ℤ
  resetTime : ℤ
  isBlocked : Bool
  storeUnavailable : Bool := false
  mode : Option String := none
  decidingLayer : Option String := none
  layers : Option (List (String × LayerResult)) := none
  deriving DecidableEq

/-- SOURCE: src/types/index.ts:131-143 -/
structure RateLimitIncrementOptions where
  maxRequests : Option JsNumber := none
  cost : Option JsNumber := none
  deriving DecidableEq

/-- SOURCE: src/types/index.ts:151-165 -/
structure RateLimitDecrementOptions where
  cost : Option JsNumber := none
  removeNewest : Bool := false
  deriving DecidableEq

/-- The cost an increment with these options is charged. -/
def RateLimitIncrementOptions.sanitizedCost (o : RateLimitIncrementOptions) : ℕ :=
  sanitizeIncrementCost o.cost 1

/-- The cost a decrement with these options gives back. -/
def RateLimitDecrementOptions.sanitizedCost (o : RateLimitDecrementOptions) : ℕ :=
  sanitizeIncrementCost o.cost 1

/-- An increment costs one at least. -/
theorem RateLimitIncrementOptions.one_le_sanitizedCost (o : RateLimitIncrementOptions) :
    1 ≤ o.sanitizedCost := one_le_sanitizeIncrementCost o.cost

/-- So does a decrement. -/
theorem RateLimitDecrementOptions.one_le_sanitizedCost (o : RateLimitDecrementOptions) :
    1 ≤ o.sanitizedCost := one_le_sanitizeIncrementCost o.cost

/-- The three figures every window store derives from a usage count and a cap: blocked
over the cap, nothing remaining when blocked. -/
def RateLimitResult.ofUsage (totalHits : ℤ) (cap : ℕ) (resetTime : ℤ) : RateLimitResult :=
  let isBlocked := decide ((cap : ℤ) < totalHits)
  { totalHits
    remaining := if isBlocked then 0 else max 0 (cap - totalHits)
    resetTime
    isBlocked }

/-- `remaining` is the distance to the cap, cut off at zero, whether blocked or not. -/
theorem RateLimitResult.remaining_ofUsage (totalHits : ℤ) (cap : ℕ) (resetTime : ℤ) :
    (RateLimitResult.ofUsage totalHits cap resetTime).remaining = max 0 (cap - totalHits) := by
  unfold ofUsage
  by_cases h : (cap : ℤ) < totalHits
  · simp only [h, decide_true, if_true]
    omega
  · simp [h]

/-- Usage above the cap is blocked. -/
@[simp] theorem RateLimitResult.isBlocked_ofUsage (totalHits : ℤ) (cap : ℕ) (resetTime : ℤ) :
    (RateLimitResult.ofUsage totalHits cap resetTime).isBlocked =
      decide ((cap : ℤ) < totalHits) := rfl

/-- The hits of an answer are the usage. -/
@[simp] theorem RateLimitResult.totalHits_ofUsage (totalHits : ℤ) (cap : ℕ) (resetTime : ℤ) :
    (RateLimitResult.ofUsage totalHits cap resetTime).totalHits = totalHits := rfl

/-- Its reset time is the one given. -/
@[simp] theorem RateLimitResult.resetTime_ofUsage (totalHits : ℤ) (cap : ℕ) (resetTime : ℤ) :
    (RateLimitResult.ofUsage totalHits cap resetTime).resetTime = resetTime := rfl

end RatelimitFlex
