import RatelimitFlex.Program.RateLimitEngine

/-!
# The Express middleware and its skip-response decrements

`src/middleware/express.ts` and `src/middleware/decrement-stores-after-consume.ts`.  A
request passes through three moments that other requests may come between: its arrival
(policy and increments), the continuation of the consume, and the end of its response.
The response texts and headers, which no store effect depends on, are left out.
-/

set_option autoImplicit false

namespace RatelimitFlex

variable {ρ σ κ : Type} [DecidableEq κ]

/-- Where a request stands.  The outcome is that of its increments, `none` when policy
decided it without any. -/
inductive Phase where
  | waiting (g : IncrementOutcome)
  | refused (g : Option IncrementOutcome)
  | passed (g : Option IncrementOutcome) (r : RateLimitConsumeResult)
  | finished (g : Option IncrementOutcome) (r : RateLimitConsumeResult) (status : ℕ)
  | thrown (g : Option IncrementOutcome)

/-- A request the middleware has seen. -/
structure Ticket (ρ κ : Type) where
  key : κ
  req : ρ
  phase : Phase

/-- SOURCE: src/middleware/express.ts:191-199 -/
def skipsResponse (o : RateLimitOptions ρ σ κ) (status : ℕ) : Bool :=
  (o.skipFailedRequests && decide (400 ≤ status)) ||
    (o.skipSuccessfulRequests && decide (status < 400))

end RatelimitFlex
