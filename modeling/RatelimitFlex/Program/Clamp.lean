import Mathlib.Tactic

/-!
# Sanitizing caps, costs and windows

`src/utils/clamp.ts`: four functions that turn an unchecked number into a natural number
or fall back.  A JavaScript number is `NaN`, an infinity or a finite value, and every
finite double is rational, so `JsNumber` holds a rational.  Three of the functions have
the same body (`sanitizeAtLeast 1`), the penalty duration allows zero.
-/

set_option autoImplicit false

namespace RatelimitFlex

/-- A JavaScript number. -/
inductive JsNumber where
  | nan
  | posInfinity
  | negInfinity
  | finite (q : ℚ)
  deriving DecidableEq

namespace JsNumber

/-- An integer literal as a JavaScript number. -/
def ofInt (z : ℤ) : JsNumber := .finite z

instance (n : ℕ) : OfNat JsNumber n := ⟨ofInt n⟩

end JsNumber

/-- `Number.MAX_SAFE_INTEGER`. -/
def maxSafeInteger : ℕ := 2 ^ 53 - 1

/-- The common body: a finite value whose floor is at least `least`, clamped to the
largest safe integer, otherwise `fallback` (also for a value that is absent).
SOURCE: src/utils/clamp.ts:5-13 -/
def sanitizeAtLeast (least : ℕ) (value : Option JsNumber) (fallback : ℕ) : ℕ :=
  match value with
  | some (.finite q) => if (least : ℤ) ≤ ⌊q⌋ then min ⌊q⌋.toNat maxSafeInteger else fallback
  | _ => fallback

/-- SOURCE: src/utils/clamp.ts:5-13 -/
def sanitizeRateLimitCap (value : Option JsNumber) (fallback : ℕ) : ℕ :=
  sanitizeAtLeast 1 value fallback

/-- SOURCE: src/utils/clamp.ts:21-29 -/
def sanitizeIncrementCost (value : Option JsNumber) (fallback : ℕ) : ℕ :=
  sanitizeAtLeast 1 value fallback

/-- SOURCE: src/utils/clamp.ts:32-40 -/
def sanitizeWindowMs (value : Option JsNumber) (fallback : ℕ) : ℕ :=
  sanitizeAtLeast 1 value fallback

/-- SOURCE: src/utils/clamp.ts:43-51 -/
def sanitizePenaltyDurationMs (value : Option JsNumber) (fallback : ℕ) : ℕ :=
  sanitizeAtLeast 0 value fallback

/-- What is sanitized is at least the bound when the fallback is. -/
theorem le_sanitizeAtLeast {least fallback : ℕ} (value : Option JsNumber)
    (hl : least ≤ maxSafeInteger) (hf : least ≤ fallback) :
    least ≤ sanitizeAtLeast least value fallback := by
  unfold sanitizeAtLeast
  split
  · next q =>
    split
    · next h => exact le_min (by omega) hl
    · exact hf
  · exact hf

/-- What is sanitized is a safe integer when the fallback is. -/
theorem sanitizeAtLeast_le {least fallback : ℕ} (value : Option JsNumber)
    (hf : fallback ≤ maxSafeInteger) :
    sanitizeAtLeast least value fallback ≤ maxSafeInteger := by
  unfold sanitizeAtLeast
  split
  · next q =>
    split
    · exact min_le_right _ _
    · exact hf
  · exact hf

/-- A safe integer at or over the bound is left as it is. -/
theorem sanitizeAtLeast_ofInt {least n : ℕ} (fallback : ℕ) (hl : least ≤ n)
    (hn : n ≤ maxSafeInteger) :
    sanitizeAtLeast least (some (JsNumber.ofInt n)) fallback = n := by
  simp only [sanitizeAtLeast, JsNumber.ofInt, Int.floor_intCast, Int.toNat_natCast]
  rw [if_pos (by omega), min_eq_left hn]

/-- A cost is one at least. -/
theorem one_le_sanitizeIncrementCost (value : Option JsNumber) :
    1 ≤ sanitizeIncrementCost value 1 :=
  le_sanitizeAtLeast value (by decide) le_rfl

/-- Sanitizing a configured cap against itself changes nothing. -/
theorem sanitizeRateLimitCap_self {cap : ℕ} (h1 : 1 ≤ cap) (h2 : cap ≤ maxSafeInteger) :
    sanitizeRateLimitCap (some (JsNumber.ofInt cap)) cap = cap :=
  sanitizeAtLeast_ofInt cap h1 h2

example : sanitizeRateLimitCap (some (.finite (5 / 2))) 100 = 2 := by decide +kernel

example : sanitizeIncrementCost (some 0) 1 = 1 := by decide +kernel

end RatelimitFlex
