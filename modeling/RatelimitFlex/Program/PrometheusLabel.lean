import Mathlib.Tactic

/-!
# Label values of the Prometheus text format

`escapePrometheusLabelValue` of `src/metrics/adapters/prometheus-adapter.ts`, and how a scraper
reads a label value back.  A string is a sequence of UTF-16 code units.
-/

set_option autoImplicit false

namespace RatelimitFlex.PrometheusLabel

def backslash : UInt16 := 92

def lineFeed : UInt16 := 10

def quote : UInt16 := 34

def letterN : UInt16 := 110

/-- `s.replace(/u/g, replacement)` for a single code unit `u`. -/
def replaceAll (u : UInt16) (replacement s : List UInt16) : List UInt16 :=
  s.flatMap fun c => if c = u then replacement else [c]

/-- SOURCE: src/metrics/adapters/prometheus-adapter.ts:12-14 -/
def escapePrometheusLabelValue (s : List UInt16) : List UInt16 :=
  replaceAll quote [backslash, quote]
    (replaceAll lineFeed [backslash, letterN] (replaceAll backslash [backslash, backslash] s))

/-- The code unit that stands behind a backslash. -/
def unescapeUnit (c : UInt16) : Option UInt16 :=
  if c = backslash then some backslash
  else if c = letterN then some lineFeed
  else if c = quote then some quote
  else none

/-- A label value without its quotes, decoded; there is no raw line feed or quote in one. -/
def decodeLabelValue : List UInt16 → Option (List UInt16)
  | [] => some []
  | c :: s =>
    if c = backslash then
      match s with
      | [] => none
      | d :: s => (unescapeUnit d).bind fun e => (decodeLabelValue s).map (e :: ·)
    else if c = lineFeed ∨ c = quote then none
    else (decodeLabelValue s).map (c :: ·)

/-- How many backslashes stand at the end. -/
def backslashRun (s : List UInt16) : ℕ := (s.reverse.takeWhile (· = backslash)).length

end RatelimitFlex.PrometheusLabel
