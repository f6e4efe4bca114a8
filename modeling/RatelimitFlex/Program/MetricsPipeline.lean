import RatelimitFlex.Program.MetricsExporters

/-!
# From the engine to the exporters

`src/metrics/manager.ts`: an engine with its counters, the collector whose timer drains them, and
both adapters listening to it.  Between two ticks any segments of any consumes run, latencies are
recorded, others call the counters, and updates of the registry that waited are made.
-/

set_option autoImplicit false

namespace RatelimitFlex

open Library

/-- SOURCE: src/metrics/manager.ts:21-95 -/
structure MetricsPipeline (ρ κ : Type) where
  engine : MeteredEngine ρ κ := {}
  rings : LatencyRings ℚ
  collector : MetricsCollector κ
  prometheus : PrometheusAdapter κ
  openTelemetry : OpenTelemetryAdapter κ := {}

inductive PipelineEvent (ρ σ κ : Type) where
  | segment (event : MeteredEvent ρ σ κ)
  | latency (now startTime : ℚ)
  | storeLatency (now startTime : ℚ)
  | tick
  | registered (n : ℕ)

/-- Somebody resets the counters. -/
def PipelineEvent.isReset {ρ σ κ : Type} : PipelineEvent ρ σ κ → Bool
  | .segment .reset => true
  | _ => false

namespace MetricsPipeline

variable {ρ σ κ : Type} [DecidableEq κ]

/-- SOURCE: src/metrics/manager.ts:43-80 -/
def start (intervalMs : ℚ) (topKSize : ℤ) (buckets : List ℚ) (sampleCapacity : ℕ) :
    MetricsPipeline ρ κ where
  rings := LatencyRings.new sampleCapacity
  collector := { intervalMs, topKSize }
  prometheus := PrometheusAdapter.new buckets

/-- What a segment does to the rings: a snapshot or a reset is one of them too. -/
def segmentRings (event : MeteredEvent ρ σ κ) (rings : LatencyRings ℚ) : LatencyRings ℚ :=
  match event with
  | .snapshot => rings.snapshot.1
  | .reset => rings.reset
  | _ => rings

/-- The samples of a snapshot; the rings have no `undefined` in them. -/
def samples (rings : LatencyRings ℚ) : LatencyRings.SampleSnapshot ℚ :=
  let snap := rings.snapshot.2
  { latencySamplesMs := snap.latencySamplesMs.reduceOption
    storeLatencySamplesMs := snap.storeLatencySamplesMs.reduceOption }

/-- The timer fires: a snapshot of the counters, and the listeners hear of it.
SOURCE: src/metrics/collector.ts:118-254 -/
def tick (share : ℚ → ℕ → ℚ) (s : MetricsPipeline ρ κ) : MetricsPipeline ρ κ × MetricsSnapshot κ :=
  let (metrics, raw) := s.engine.metrics.snapshot
  let (collector, snap) := s.collector.tick share raw (samples s.rings)
  ({ engine := { s.engine with metrics }
     rings := s.rings.snapshot.1
     collector
     prometheus := s.prometheus.onMetrics snap
     openTelemetry := s.openTelemetry.onMetrics snap }, snap)

/-- The output is the snapshot that listeners are given. -/
def step (share : ℚ → ℕ → ℚ) (o : RateLimitOptions ρ σ κ) (hotKeyMax : ℕ+)
    (i : PipelineEvent ρ σ κ) (s : MetricsPipeline ρ κ) :
    MetricsPipeline ρ κ × Option (MetricsSnapshot κ) :=
  match i with
  | .segment event =>
    ({ s with
       engine := (s.engine.step o hotKeyMax event).1
       rings := segmentRings event s.rings }, none)
  | .latency now startTime => ({ s with rings := s.rings.recordLatency now startTime }, none)
  | .storeLatency now startTime =>
    ({ s with rings := s.rings.recordStoreLatency now startTime }, none)
  | .tick =>
    let r := s.tick share
    (r.1, some r.2)
  | .registered n => ({ s with prometheus := s.prometheus.registered n }, none)

end MetricsPipeline

end RatelimitFlex
