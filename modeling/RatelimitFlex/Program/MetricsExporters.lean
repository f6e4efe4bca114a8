import RatelimitFlex.Program.MetricsCollector

/-!
# The exporters of the metrics

What `src/metrics/adapters/prometheus-adapter.ts` and
`src/metrics/adapters/opentelemetry-adapter.ts` make of the snapshots of a collector: the text
exposition shows the last one, the counters of a registry and of a meter are moved on by the
differences.  An update of the registry waits for the client library to load.  The updates that
wait may come in any order.  Shield and store gauges are left out.
-/

set_option autoImplicit false

namespace RatelimitFlex

open Library

/-- A cumulative counter, by its labels. -/
inductive CounterSeries where
  | allowed
  | blocked (reason : BlockReason)
  | skipped
  | allowlisted
  deriving DecidableEq

variable {κ : Type}

/-- The figure of a snapshot that a counter shows. -/
def MetricsSnapshot.total (s : MetricsSnapshot κ) : CounterSeries → ℕ
  | .allowed => s.totals.allowed
  | .blocked .rateLimit => s.blockReasons.rateLimit
  | .blocked .blocklist => s.blockReasons.blocklist
  | .blocked .penalty => s.blockReasons.penalty
  | .blocked .keyManager => s.blockReasons.keyManager
  | .blocked .serviceUnavailable => s.blockReasons.serviceUnavailable
  | .skipped => s.totals.skipped
  | .allowlisted => s.totals.allowlisted

/-- What a counter is moved on by: `Math.max(0, cur - old)`, or all of it the first time.  The two
adapters have the same eight cases twice.
SOURCE: src/metrics/adapters/prometheus-adapter.ts:444-482,
src/metrics/adapters/opentelemetry-adapter.ts:293-334 -/
def counterDelta (s : MetricsSnapshot κ) (prev : Option (MetricsSnapshot κ))
    (series : CounterSeries) : ℕ :=
  match prev with
  | some prev => s.total series - prev.total series
  | none => s.total series

/-! ## The text exposition -/

/-- The cumulative counts of a histogram: one for each bound, and one more for all.
SOURCE: src/metrics/adapters/prometheus-adapter.ts:21-37 -/
def addSamplesToHistogram (buckets : List ℚ) (acc : List ℕ) (samples : List ℚ) : List ℕ × ℚ :=
  samples.foldl
    (fun (r : List ℕ × ℚ) v =>
      (List.zipWith (fun (n : ℕ) (covers : Bool) => if covers then n + 1 else n) r.1
        (buckets.map (fun le => decide (v ≤ le)) ++ [true]), r.2 + v))
    (acc, 0)

/-- SOURCE: src/metrics/adapters/prometheus-adapter.ts:91-102 -/
structure TextHistogram where
  counts : List ℕ
  sum : ℚ := 0
  count : ℕ := 0

/-- SOURCE: src/metrics/adapters/prometheus-adapter.ts:145-147 -/
def TextHistogram.new (buckets : List ℚ) : TextHistogram where
  counts := List.replicate (buckets.length + 1) 0

/-- SOURCE: src/metrics/adapters/prometheus-adapter.ts:152-157 -/
def TextHistogram.add (buckets : List ℚ) (samples : List ℚ) (h : TextHistogram) : TextHistogram :=
  let r := addSamplesToHistogram buckets h.counts samples
  { counts := r.1
    sum := h.sum + r.2
    count := h.count + samples.length }

/-! ## The registry -/

/-- The metrics in a registry of the client library; a histogram is what it was told. -/
structure PromRegistry (κ : Type) where
  counters : CounterSeries → ℕ := fun _ => 0
  rpsGauge : ℚ := 0
  blockRateGauge : ℚ := 0
  hotKeyGauge : κ → Option ℕ := fun _ => none
  middlewareHist : List ℚ := []
  storeHist : List ℚ := []

/-- SOURCE: src/metrics/adapters/prometheus-adapter.ts:440-522 -/
def PromRegistry.updateRegistry [DecidableEq κ] (s : MetricsSnapshot κ)
    (prev : Option (MetricsSnapshot κ)) (r : PromRegistry κ) : PromRegistry κ where
  counters series := r.counters series + counterDelta s prev series
  rpsGauge := s.window.requestsPerSecond
  blockRateGauge := s.window.blockRate
  hotKeyGauge := s.hotKeys.foldl (fun g hk => Function.update g hk.key (some hk.hits)) r.hotKeyGauge
  middlewareHist := r.middlewareHist ++ s.latencySamplesMs
  storeHist := r.storeHist ++ s.storeLatencySamplesMs

/-- SOURCE: src/metrics/adapters/prometheus-adapter.ts:74-102 -/
structure PrometheusAdapter (κ : Type) where
  buckets : List ℚ
  lastSnapshot : Option (MetricsSnapshot κ) := none
  textMw : TextHistogram
  textSt : TextHistogram
  registry : PromRegistry κ := {}
  /-- The snapshots that wait for the library, each with the one before it. -/
  waiting : List (MetricsSnapshot κ × Option (MetricsSnapshot κ)) := []

namespace PrometheusAdapter

/-- SOURCE: src/metrics/adapters/prometheus-adapter.ts:140-147 -/
def new (buckets : List ℚ) : PrometheusAdapter κ where
  buckets
  textMw := TextHistogram.new buckets
  textSt := TextHistogram.new buckets

/-- The listener, with a registry.
SOURCE: src/metrics/adapters/prometheus-adapter.ts:149-163 -/
def onMetrics (snap : MetricsSnapshot κ) (a : PrometheusAdapter κ) : PrometheusAdapter κ :=
  { a with
    lastSnapshot := some snap
    textMw := a.textMw.add a.buckets snap.latencySamplesMs
    textSt := a.textSt.add a.buckets snap.storeLatencySamplesMs
    waiting := a.waiting ++ [(snap, a.lastSnapshot)] }

/-- One of the waiting updates is made. -/
def registered [DecidableEq κ] (n : ℕ) (a : PrometheusAdapter κ) : PrometheusAdapter κ :=
  match a.waiting[n]? with
  | some (snap, prev) =>
    { a with
      registry := a.registry.updateRegistry snap prev
      waiting := a.waiting.eraseIdx n }
  | none => a

/-- The value `getMetricsText` writes for a counter.
SOURCE: src/metrics/adapters/prometheus-adapter.ts:191-227 -/
def textValue (a : PrometheusAdapter κ) (series : CounterSeries) : ℕ :=
  (a.lastSnapshot.map fun s => s.total series).getD 0

end PrometheusAdapter

/-! ## The meter -/

/-- SOURCE: src/metrics/adapters/opentelemetry-adapter.ts:60-66 -/
structure OpenTelemetryAdapter (κ : Type) where
  lastSnapshot : Option (MetricsSnapshot κ) := none
  requestsCounter : CounterSeries → ℕ := fun _ => 0
  middlewareHistogram : List ℚ := []
  storeHistogram : List ℚ := []

/-- SOURCE: src/metrics/adapters/opentelemetry-adapter.ts:264-269, 293-346 -/
def OpenTelemetryAdapter.onMetrics (snap : MetricsSnapshot κ) (a : OpenTelemetryAdapter κ) :
    OpenTelemetryAdapter κ where
  lastSnapshot := some snap
  requestsCounter series := a.requestsCounter series + counterDelta snap a.lastSnapshot series
  middlewareHistogram := a.middlewareHistogram ++ snap.latencySamplesMs
  storeHistogram := a.storeHistogram ++ snap.storeLatencySamplesMs

end RatelimitFlex
