import RatelimitFlex.Program.LatencyRings

/-!
# Snapshots of the latency rings

A snapshot gives the last samples of each series since the previous snapshot or reset, as many as
there is room for.  What it is compared with keeps all of them.
-/

set_option autoImplicit false

namespace RatelimitFlex

open Library

variable {δ : Type}

/-! ## All samples -/

/-- The samples since the previous snapshot or reset, oldest first. -/
structure SampleLog (δ : Type) where
  latency : List δ
  store : List δ

/-- A call, and for a snapshot the last samples of each series, at most `cap`. -/
def SampleLog.step [Sub δ] (cap : ℕ) :
    RingInput δ → SampleLog δ → SampleLog δ × Option (LatencyRings.SampleSnapshot (Option δ))
  | .recordLatency now startTime, l => ({ l with latency := l.latency ++ [now - startTime] }, none)
  | .recordStoreLatency now startTime, l => ({ l with store := l.store ++ [now - startTime] }, none)
  | .snapshot, l =>
    (⟨[], []⟩, some {
      latencySamplesMs := (l.latency.drop (l.latency.length - cap)).map some
      storeLatencySamplesMs := (l.store.drop (l.store.length - cap)).map some })
  | .reset, _ => (⟨[], []⟩, none)

/-! ## The rings have the end of them -/

/-- Both rings have the end of their series. -/
structure LatencyRings.Holds (cap : ℕ) (m : LatencyRings δ) (l : SampleLog δ) : Prop where
  sampleCapacity : m.sampleCapacity = cap
  latency : m.latency.Holds cap l.latency
  store : m.store.Holds cap l.store

namespace LatencyRings

variable {cap : ℕ}

/-- A new ring holds nothing. -/
theorem holds_new [Zero δ] : (new cap : LatencyRings δ).Holds cap ⟨[], []⟩ where
  sampleCapacity := rfl
  latency := RingBuffer.holds_new 0
  store := RingBuffer.holds_new 0

/-- Nor does one that was reset. -/
theorem Holds.cleared {m : LatencyRings δ} {l : SampleLog δ} (h : m.Holds cap l) :
    m.reset.Holds cap ⟨[], []⟩ where
  sampleCapacity := h.sampleCapacity
  latency := h.latency.clear
  store := h.store.clear

/-- A call gives the same on both sides and keeps the relation. -/
theorem Holds.step [Sub δ] (hcap : 0 < cap) {m : LatencyRings δ} {l : SampleLog δ}
    (h : m.Holds cap l) (i : RingInput δ) :
    (LatencyRings.step i m).2 = (SampleLog.step cap i l).2 ∧
      (LatencyRings.step i m).1.Holds cap (SampleLog.step cap i l).1 := by
  cases i with
  | recordLatency now startTime =>
    refine ⟨rfl, h.sampleCapacity, ?_, h.store⟩
    show (m.latency.push m.sampleCapacity (now - startTime)).Holds cap
      (l.latency ++ [now - startTime])
    rw [h.sampleCapacity]
    exact h.latency.push hcap (now - startTime)
  | recordStoreLatency now startTime =>
    refine ⟨rfl, h.sampleCapacity, h.latency, ?_⟩
    show (m.store.push m.sampleCapacity (now - startTime)).Holds cap
      (l.store ++ [now - startTime])
    rw [h.sampleCapacity]
    exact h.store.push hcap (now - startTime)
  | snapshot =>
    refine ⟨?_, h.cleared⟩
    show some (SampleSnapshot.mk (m.latency.drain m.sampleCapacity)
      (m.store.drain m.sampleCapacity)) = _
    rw [h.sampleCapacity, h.latency.drain hcap, h.store.drain hcap]
    rfl
  | reset => exact ⟨rfl, h.cleared⟩

/-- **Every snapshot of every run** gives the last samples of each series, oldest first. -/
theorem snapshots_eq_sampleLog [Zero δ] [Sub δ] (hcap : 1 ≤ cap) (is : List (RingInput δ)) :
    outputs LatencyRings.step is (new cap) = outputs (SampleLog.step cap) is ⟨[], []⟩ := by
  have hord : OrderedFrom (fun _ : RingInput δ => ()) () is := by
    induction is with
    | nil => trivial
    | cons i is ih => exact ⟨le_rfl, ih⟩
  have hrun := (outputs_eq_of_simulation (G := fun _ _ => True) id
    (fun _ m l i (h : LatencyRings.Holds cap m l) _ _ => h.step hcap i) holds_new hord
    (guarded_true is (new cap))).1
  rwa [List.map_id] at hrun

/-- Three samples where two have room, and one after the snapshot. -/
theorem snapshots_of_four_samples :
    outputs LatencyRings.step
        [.recordLatency 5 1, .recordLatency 7 2, .recordStoreLatency 8 2, .recordLatency 9 3,
          .snapshot, .recordLatency 11 4, .snapshot] (new (δ := ℤ) 2) =
      outputs (SampleLog.step 2)
        [.recordLatency 5 1, .recordLatency 7 2, .recordStoreLatency 8 2, .recordLatency 9 3,
          .snapshot, .recordLatency 11 4, .snapshot] ⟨[], []⟩ :=
  snapshots_eq_sampleLog (by decide) _

end LatencyRings

end RatelimitFlex
