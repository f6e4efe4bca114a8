import RatelimitFlex.Library.HitLog
import RatelimitFlex.Program.MemoryStore

/-!
# The timestamp log a sliding window stands for

The abstract model of the sliding-window strategy: for every key the full list of its
increments since the key was last reset or deleted, never trimmed.  An increment is
answered from the costs inside `(now - windowMs, now]`, itself included, and a `get` from
the same figures without recording anything.  Purges do not exist at this level.
-/

set_option autoImplicit false

namespace RatelimitFlex

open Library

/-- Every key's increments since its last reset or deletion, oldest first. -/
abbrev SlidingLog (κ : Type) := κ → List Hit

namespace SlidingLog

variable {κ : Type} [DecidableEq κ]

/-- The cost of the hits in the window that ends now. -/
def liveCost (o : WindowOptions) (now : ℤ) (hits : List Hit) : ℕ :=
  Hit.windowCost (now - o.windowMs) now hits

/-- The earliest time of a hit in the window that ends now. -/
def oldestLive (o : WindowOptions) (now : ℤ) (hits : List Hit) : Option ℤ :=
  ((Hit.window (now - o.windowMs) now hits).map Hit.time).min?

/-- The figures reported for a key with these hits under the cap `cap`. -/
def answer (o : WindowOptions) (cap : ℕ) (now : ℤ) (hits : List Hit) : RateLimitResult where
  totalHits := liveCost o now hits
  remaining := max 0 (cap - liveCost o now hits)
  resetTime := (oldestLive o now hits).getD now + o.windowMs
  isBlocked := decide (cap < liveCost o now hits)

/-- One step of the log model. -/
def step (o : WindowOptions) (i : Timed (StoreOp κ)) (L : SlidingLog κ) :
    SlidingLog κ × StoreReply :=
  match i.op with
  | .increment key options =>
    let hits := L key ++ [⟨i.time, options.sanitizedCost⟩]
    (Function.update L key hits, .result (answer o (o.cap options.maxRequests) i.time hits))
  | .get key =>
    (L, .snapshot (if liveCost o i.time (L key) = 0 then none
      else some (answer o o.maxRequests i.time (L key))))
  | .reset key => (Function.update L key [], .done)
  | .delete key => (Function.update L key [], .done)
  | _ => (L, .done)

/-- The operations the log gives a meaning to: increments, reads, resets, deletions and
the background purge. -/
def covers : StoreOp κ → Bool
  | .decrement _ _ => false
  | .set _ _ _ => false
  | _ => true

end SlidingLog

/-- A reply without the flag that tells whether a deleted key was still in the map, which
depends on the purges. -/
def StoreReply.withoutExisted : StoreReply → StoreReply
  | .deleted _ => .done
  | r => r

end RatelimitFlex
