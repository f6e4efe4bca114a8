import RatelimitFlex.Program.EngineMetrics
import RatelimitFlex.Program.LatencyRings
import RatelimitFlex.Program.Percentile

/-!
# The metrics collector

`src/metrics/collector.ts`: what a tick makes of the counters.  Numbers are exact.  The time stamp,
the standard deviation and what the shield and the memory store report about themselves are left
out; `share` is that of the percentiles.
-/

set_option autoImplicit false

namespace RatelimitFlex

open Library

/-! ## Statistics -/

structure MinMaxMean where
  min : ℚ
  max : ℚ
  mean : ℚ

/-- SOURCE: src/metrics/stats.ts:39-53 -/
def minMaxMean : List ℚ → MinMaxMean
  | [] => ⟨0, 0, 0⟩
  | v :: samples =>
    { min := samples.foldl (fun minV v => if v < minV then v else minV) v
      max := samples.foldl (fun maxV v => if maxV < v then v else maxV) v
      mean := (v :: samples).sum / (v :: samples).length }

inductive Trend where
  | increasing
  | decreasing
  | stable
  deriving DecidableEq

/-- SOURCE: src/metrics/collector.ts:281-293 -/
def trendFromSeries (values : List ℚ) : Trend :=
  if values.length < 2 then .stable
  else
    let mid := values.length / 2
    let first := (values.take mid).sum / mid
    let second := (values.drop mid).sum / (values.length - mid : ℕ)
    if first * (1 + 1 / 20) < second then .increasing
    else if second < first * (1 - 1 / 20) then .decreasing
    else .stable

/-! ## Snapshots -/

/-- SOURCE: src/types/metrics.ts:63-74 -/
structure MetricsWindow where
  durationMs : ℚ
  requestsPerSecond : ℚ
  blocksPerSecond : ℚ
  blockRate : ℚ
  allowRate : ℚ

/-- SOURCE: src/types/metrics.ts:76-87 -/
structure MetricsTotals where
  requests : ℕ
  allowed : ℕ
  blocked : ℕ
  skipped : ℕ
  allowlisted : ℕ
  deriving DecidableEq

/-- SOURCE: src/types/metrics.ts:89-100 -/
structure MetricsBlockReasons where
  rateLimit : ℕ
  blocklist : ℕ
  penalty : ℕ
  keyManager : ℕ
  serviceUnavailable : ℕ
  deriving DecidableEq

/-- SOURCE: src/types/metrics.ts:102-119 -/
structure LatencySummary where
  min : ℚ
  max : ℚ
  mean : ℚ
  p50 : ℚ
  p95 : ℚ
  p99 : ℚ

/-- SOURCE: src/types/metrics.ts:121 -/
structure HotKey (κ : Type) where
  key : κ
  hits : ℕ
  blocked : ℕ

/-- SOURCE: src/types/metrics.ts:123-127 -/
structure MetricsTrends where
  requestRateTrend : Trend
  blockRateTrend : Trend
  latencyTrend : Trend

/-- SOURCE: src/types/metrics.ts:59-162 -/
structure MetricsSnapshot (κ : Type) where
  window : MetricsWindow
  totals : MetricsTotals
  blockReasons : MetricsBlockReasons
  latency : LatencySummary
  storeLatency : LatencySummary
  hotKeys : List (HotKey κ)
  trends : MetricsTrends
  latencySamplesMs : List ℚ
  storeLatencySamplesMs : List ℚ

/-! ## The collector -/

/-- SOURCE: src/metrics/collector.ts:29-84 -/
structure MetricsCollector (κ : Type) where
  intervalMs : ℚ := 10000
  topKSize : ℤ := 20
  windowSize : ℕ := 6
  lastTotalRequests : ℕ := 0
  lastBlocked : ℕ := 0
  lastAllowed : ℕ := 0
  deltaTotals : List ℤ := []
  deltaBlockeds : List ℤ := []
  deltaAlloweds : List ℤ := []
  intervalReqPerSec : List ℚ := []
  intervalBlockRate : List ℚ := []
  intervalLatencyMean : List ℚ := []
  latest : Option (MetricsSnapshot κ) := none
  history : List (MetricsSnapshot κ) := []

namespace MetricsCollector

variable {κ : Type} [DecidableEq κ]

/-- `push`, and `shift` when there are too many then; the three series of counts are equally
long.
SOURCE: src/metrics/collector.ts:256-272 -/
def pushSeries {α : Type} (windowSize : ℕ) (arr : List α) (v : α) : List α :=
  if windowSize < (arr ++ [v]).length then (arr ++ [v]).drop 1 else arr ++ [v]

/-- `push`, and `splice` what is too much.
SOURCE: src/metrics/collector.ts:247-250 -/
def pushHistory {α : Type} (windowSize : ℕ) (history : List α) (v : α) : List α :=
  let history := history ++ [v]
  if windowSize < history.length then history.drop (history.length - windowSize) else history

/-- `sort` is stable.
SOURCE: src/metrics/collector.ts:295-306 -/
def hotKeysTopK (map : InsertionMap κ HotKeyIntervalCounts) (k : ℤ) : List (HotKey κ) :=
  if k ≤ 0 ∨ map.size = 0 then []
  else
    let arr := map.entries.map fun e => HotKey.mk e.1 e.2.hits e.2.blocked
    (arr.mergeSort fun a b => decide (b.hits ≤ a.hits)).take k.toNat

/-- SOURCE: src/metrics/collector.ts:138-150 -/
def summary (share : ℚ → ℕ → ℚ) (samples : List ℚ) : LatencySummary :=
  let mm := minMaxMean samples
  let pct := percentilesQuick share samples [50, 95, 99]
  { min := mm.min
    max := mm.max
    mean := mm.mean
    p50 := pct.getD 0 0
    p95 := pct.getD 1 0
    p99 := pct.getD 2 0 }

/-- A ratio that is 0 when there is nothing to divide by. -/
def ratio (a b : ℚ) : ℚ := if 0 < b then a / b else 0

/-- The sliding window over the counts of its intervals.
SOURCE: src/metrics/collector.ts:152-161 -/
def window (c : MetricsCollector κ) : MetricsWindow :=
  let durationMs := max 1 (c.deltaTotals.length : ℚ) * c.intervalMs
  let sumT : ℤ := c.deltaTotals.sum
  let sumB : ℤ := c.deltaBlockeds.sum
  let sumA : ℤ := c.deltaAlloweds.sum
  let durSec := durationMs / 1000
  { durationMs
    requestsPerSecond := ratio sumT durSec
    blocksPerSecond := ratio sumB durSec
    blockRate := ratio sumB sumT
    allowRate := ratio sumA sumT }

/-- The counts of the interval that ends, pushed on the series.
SOURCE: src/metrics/collector.ts:123-144 -/
def collect (raw : MetricsCounters κ) (latencyMean : ℚ) (c : MetricsCollector κ) :
    MetricsCollector κ :=
  let dt : ℤ := raw.totalRequests - c.lastTotalRequests
  let db : ℤ := raw.blockedRequests - c.lastBlocked
  let da : ℤ := raw.allowedRequests - c.lastAllowed
  { c with
    lastTotalRequests := raw.totalRequests
    lastBlocked := raw.blockedRequests
    lastAllowed := raw.allowedRequests
    deltaTotals := pushSeries c.windowSize c.deltaTotals dt
    deltaBlockeds := pushSeries c.windowSize c.deltaBlockeds db
    deltaAlloweds := pushSeries c.windowSize c.deltaAlloweds da
    intervalReqPerSec :=
      pushSeries c.windowSize c.intervalReqPerSec (ratio dt (c.intervalMs / 1000))
    intervalBlockRate := pushSeries c.windowSize c.intervalBlockRate (ratio db dt)
    intervalLatencyMean := pushSeries c.windowSize c.intervalLatencyMean latencyMean }

/-- `raw` and `samples` are what the snapshot of the counters gives.
SOURCE: src/metrics/collector.ts:118-254 -/
def tick (share : ℚ → ℕ → ℚ) (raw : MetricsCounters κ) (samples : LatencyRings.SampleSnapshot ℚ)
    (c : MetricsCollector κ) : MetricsCollector κ × MetricsSnapshot κ :=
  let latency := summary share samples.latencySamplesMs
  let c := c.collect raw latency.mean
  let snap : MetricsSnapshot κ :=
    { window := c.window
      totals :=
        { requests := raw.totalRequests
          allowed := raw.allowedRequests
          blocked := raw.blockedRequests
          skipped := raw.skippedRequests
          allowlisted := raw.allowlistedRequests }
      blockReasons :=
        { rateLimit := raw.blockedByRateLimit
          blocklist := raw.blockedByBlocklist
          penalty := raw.blockedByPenalty
          keyManager := raw.blockedByKeyManager
          serviceUnavailable := raw.blockedByServiceUnavailable }
      latency
      storeLatency := summary share samples.storeLatencySamplesMs
      hotKeys := hotKeysTopK raw.hotKeys c.topKSize
      trends :=
        { requestRateTrend := trendFromSeries c.intervalReqPerSec
          blockRateTrend := trendFromSeries c.intervalBlockRate
          latencyTrend := trendFromSeries c.intervalLatencyMean }
      latencySamplesMs := samples.latencySamplesMs
      storeLatencySamplesMs := samples.storeLatencySamplesMs }
  ({ c with latest := some snap, history := pushHistory c.windowSize c.history snap }, snap)

end MetricsCollector

end RatelimitFlex
