import RatelimitFlex.Library.StructuredFields
import RatelimitFlex.Program.KeyManager
import RatelimitFlex.Program.LimitsOptions

/-!
# `formatRateLimitHeaders`

`src/headers/formatHeaders.ts`: the header maps of a rate limit snapshot, for each profile.  An
identifier is a sequence of UTF-16 code units.  `decimal` writes the finite numbers that are not
integers of at most fifteen digits; numbers are exact.
-/

set_option autoImplicit false

namespace RatelimitFlex

open Library

/-! ## Numbers -/

namespace JsNumber

/-- `Math.ceil`. -/
def ceil : JsNumber → JsNumber
  | .nan => .nan
  | .posInfinity => .posInfinity
  | .negInfinity => .negInfinity
  | .finite q => .finite ⌈q⌉

/-- `x / 1000`. -/
def perThousand : JsNumber → JsNumber
  | .nan => .nan
  | .posInfinity => .posInfinity
  | .negInfinity => .negInfinity
  | .finite q => .finite (q / 1000)

/-- `String(x)`. -/
def text (decimal : ℚ → List Char) : JsNumber → List Char
  | .nan => "NaN".toList
  | .posInfinity => "Infinity".toList
  | .negInfinity => "-Infinity".toList
  | .finite q => if q = ⌊q⌋ ∧ |⌊q⌋| < 10 ^ 15 then intText ⌊q⌋ else decimal q

end JsNumber

/-- `date.getTime()`. -/
def JsDate.getTime : JsDate → JsNumber
  | .time ms => .ofInt ms
  | .invalid => .nan

/-! ## Input and output -/

/-- SOURCE: src/headers/formatHeaders.ts:6-19 -/
structure HeaderInput where
  limit : JsNumber
  remaining : JsNumber
  resetTime : JsDate
  isBlocked : Bool
  windowMs : JsNumber
  identifier : List UInt16

/-- SOURCE: src/headers/formatHeaders.ts:33-36 -/
structure HeaderOutput where
  headers : List (String × List Char)
  legacyHeaders : Option (List (String × List Char)) := none

/-- SOURCE: src/headers/formatHeaders.ts:53-55 -/
def sanitizeIdentifierFor8941 (id : List UInt16) : List Char :=
  id.map fun u => if 0x20 ≤ u ∧ u ≤ 0x7E then Char.ofNat u.toNat else '-'

/-- SOURCE: src/headers/formatHeaders.ts:64-66 -/
def secondsUntilReset (resetTime : JsDate) (nowMs : ℤ) : JsNumber :=
  JsNumber.max 0 (resetTime.getTime.add (.ofInt (-nowMs))).perThousand.ceil

/-- SOURCE: src/headers/formatHeaders.ts:68-70 -/
def clampRemaining (n : JsNumber) : JsNumber := JsNumber.max 0 n

/-! ## The profiles -/

section Profiles

variable (decimal : ℚ → List Char) (input : HeaderInput) (nowMs : ℤ)

/-- SOURCE: src/headers/formatHeaders.ts:72-85 -/
def legacyHeaderMap : List (String × List Char) :=
  [("X-RateLimit-Limit", input.limit.text decimal),
    ("X-RateLimit-Remaining", (clampRemaining input.remaining).text decimal),
    ("X-RateLimit-Reset", input.resetTime.getTime.perThousand.ceil.text decimal)] ++
    if input.isBlocked then
      [("Retry-After", (secondsUntilReset input.resetTime nowMs).text decimal)]
    else []

/-- SOURCE: src/headers/formatHeaders.ts:87-102 -/
def draft6Headers : List (String × List Char) :=
  let limit := input.limit.text decimal
  let remaining := (clampRemaining input.remaining).text decimal
  let sur := (secondsUntilReset input.resetTime nowMs).text decimal
  let w := input.windowMs.perThousand.ceil.text decimal
  [("RateLimit-Limit", limit), ("RateLimit-Remaining", remaining), ("RateLimit-Reset", sur),
    ("RateLimit-Policy", limit ++ ";w=".toList ++ w)] ++
    if input.isBlocked then [("Retry-After", sur)] else []

/-- SOURCE: src/headers/formatHeaders.ts:104-117 -/
def draft7Headers : List (String × List Char) :=
  let limit := input.limit.text decimal
  let remaining := (clampRemaining input.remaining).text decimal
  let sur := (secondsUntilReset input.resetTime nowMs).text decimal
  let w := input.windowMs.perThousand.ceil.text decimal
  [("RateLimit", "limit=".toList ++ limit ++ ", remaining=".toList ++ remaining ++
      ", reset=".toList ++ sur),
    ("RateLimit-Policy", limit ++ ";w=".toList ++ w)] ++
    if input.isBlocked then [("Retry-After", sur)] else []

/-- A quoted identifier with two parameters. -/
def quotedWith (id : List Char) (key₁ : Char) (value₁ : List Char) (key₂ : Char)
    (value₂ : List Char) : List Char :=
  dquote :: (id ++ dquote :: ';' :: key₁ :: '=' :: (value₁ ++ ';' :: key₂ :: '=' :: value₂))

/-- SOURCE: src/headers/formatHeaders.ts:122-136 -/
def draft8Headers : List (String × List Char) :=
  let limit := input.limit.text decimal
  let remaining := (clampRemaining input.remaining).text decimal
  let sur := (secondsUntilReset input.resetTime nowMs).text decimal
  let w := input.windowMs.perThousand.ceil.text decimal
  let id := sanitizeIdentifierFor8941 input.identifier
  [("RateLimit-Policy", quotedWith id 'q' limit 'w' w),
    ("RateLimit", quotedWith id 'r' remaining 't' sur)] ++
    if input.isBlocked then [("Retry-After", sur)] else []

/-- SOURCE: src/headers/formatHeaders.ts:148-183 -/
def formatRateLimitHeaders (format : HeaderFormat) (includeLegacy : Bool) : HeaderOutput :=
  match format with
  | .legacy => { headers := legacyHeaderMap decimal input nowMs }
  | .draft6 => {
      headers := draft6Headers decimal input nowMs
      legacyHeaders := if includeLegacy then some (legacyHeaderMap decimal input nowMs) else none }
  | .draft7 => {
      headers := draft7Headers decimal input nowMs
      legacyHeaders := if includeLegacy then some (legacyHeaderMap decimal input nowMs) else none }
  | .draft8 => {
      headers := draft8Headers decimal input nowMs
      legacyHeaders := if includeLegacy then some (legacyHeaderMap decimal input nowMs) else none }

end Profiles

end RatelimitFlex
