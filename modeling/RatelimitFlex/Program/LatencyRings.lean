import RatelimitFlex.Library.RingBuffer
import RatelimitFlex.Library.TimedRun

/-!
# The latency rings of the counters

The part of `src/metrics/counters.ts` that keeps latency samples: a ring for the requests and one
for the store.  `δ` are the doubles, of which only the difference matters here; an `undefined` of
the drained list is `none`.
-/

set_option autoImplicit false

namespace RatelimitFlex

open Library

variable {δ : Type}

/-- `latency` has `latencyBuffer`, `latencyWrite` and `latencyCount`, `store` has
`storeLatencyBuffer`, `storeWrite` and `storeCount`.
SOURCE: src/metrics/counters.ts:73-78 -/
structure LatencyRings (δ : Type) where
  sampleCapacity : ℕ
  latency : RingBuffer δ
  store : RingBuffer δ

namespace LatencyRings

/-- SOURCE: src/metrics/counters.ts:84-90 -/
def new [Zero δ] (cap : ℕ) : LatencyRings δ where
  sampleCapacity := cap
  latency := RingBuffer.new cap 0
  store := RingBuffer.new cap 0

/-- `now` is what `performance.now()` gives.
SOURCE: src/metrics/counters.ts:92-102 -/
def recordLatency [Sub δ] (now startTime : δ) (m : LatencyRings δ) : LatencyRings δ :=
  { m with latency := m.latency.push m.sampleCapacity (now - startTime) }

/-- SOURCE: src/metrics/counters.ts:104-114 -/
def recordStoreLatency [Sub δ] (now startTime : δ) (m : LatencyRings δ) : LatencyRings δ :=
  { m with store := m.store.push m.sampleCapacity (now - startTime) }

/-- The samples of a `MetricsCountersSnapshot`.
SOURCE: src/metrics/counters.ts:33-36 -/
structure SampleSnapshot (α : Type) where
  latencySamplesMs : List α
  storeLatencySamplesMs : List α

/-- SOURCE: src/metrics/counters.ts:148-160, 199-213 -/
def snapshot (m : LatencyRings δ) : LatencyRings δ × SampleSnapshot (Option δ) :=
  ({ m with latency := m.latency.clear, store := m.store.clear },
    { latencySamplesMs := m.latency.drain m.sampleCapacity
      storeLatencySamplesMs := m.store.drain m.sampleCapacity })

/-- SOURCE: src/metrics/counters.ts:192-195 -/
def reset (m : LatencyRings δ) : LatencyRings δ :=
  { m with latency := m.latency.clear, store := m.store.clear }

end LatencyRings

/-- A call of the counters. -/
inductive RingInput (δ : Type) where
  | recordLatency (now startTime : δ)
  | recordStoreLatency (now startTime : δ)
  | snapshot
  | reset

/-- A call, and the samples of a snapshot. -/
def LatencyRings.step [Sub δ] :
    RingInput δ → LatencyRings δ →
      LatencyRings δ × Option (LatencyRings.SampleSnapshot (Option δ))
  | .recordLatency now startTime, m => (m.recordLatency now startTime, none)
  | .recordStoreLatency now startTime, m => (m.recordStoreLatency now startTime, none)
  | .snapshot, m => (m.snapshot.1, some m.snapshot.2)
  | .reset, m => (m.reset, none)

end RatelimitFlex
