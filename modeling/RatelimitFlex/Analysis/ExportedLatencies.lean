import RatelimitFlex.Analysis.ExportedTotals
import RatelimitFlex.Analysis.RingSnapshots
import RatelimitFlex.Library.RecentList

/-!
# The exporters show the latencies

The histograms of the text, of the registry and of the meter are all of the same samples, those the
rings had at the ticks (`exported_latencies`): nothing but what was recorded, and all of it as long
as the rings never overflow and nobody else drains them.
-/

set_option autoImplicit false

namespace RatelimitFlex

open Library

variable {ρ σ κ : Type} [DecidableEq κ]

/-! ## The histogram of some samples -/

/-- For each bound how many samples are within it, and how many there are in all. -/
def TextHistogram.ofSamples (buckets samples : List ℚ) : TextHistogram where
  counts := (buckets.map fun le => samples.countP fun v => decide (v ≤ le)) ++ [samples.length]
  sum := samples.sum
  count := samples.length

namespace TextHistogram

/-- No samples make a new histogram. -/
theorem ofSamples_nil (buckets : List ℚ) : ofSamples buckets [] = new buckets := by
  have hcounts : (ofSamples buckets []).counts = (new buckets).counts := by
    show (buckets.map fun _ => 0) ++ [0] = List.replicate (buckets.length + 1) 0
    rw [List.map_const', List.replicate_succ']
  rw [ofSamples, List.sum_nil, List.length_nil]
  rw [ofSamples] at hcounts
  exact congrArg (fun c => TextHistogram.mk c 0 0) hcounts

/-- One sample more. -/
theorem counts_concat (buckets past : List ℚ) (v : ℚ) :
    List.zipWith (fun (n : ℕ) (covers : Bool) => if covers then n + 1 else n)
        (ofSamples buckets past).counts (buckets.map (fun le => decide (v ≤ le)) ++ [true]) =
      (ofSamples buckets (past ++ [v])).counts := by
  have hbucket : ∀ le, (if decide (v ≤ le) = true then
      (past.countP fun v => decide (v ≤ le)) + 1 else past.countP fun v => decide (v ≤ le)) =
        (past ++ [v]).countP fun v => decide (v ≤ le) := by
    intro le
    rw [List.countP_append, List.countP_singleton]
    split <;> rfl
  have hlength : (buckets.map fun le => past.countP fun v => decide (v ≤ le)).length =
      (buckets.map fun le => decide (v ≤ le)).length := by
    rw [List.length_map, List.length_map]
  show List.zipWith _ (_ ++ [past.length]) (_ ++ [true]) = _ ++ [(past ++ [v]).length]
  rw [List.zipWith_append hlength, List.zipWith_map, List.zipWith_self, List.length_append]
  exact congrArg₂ _ (List.map_congr_left fun le _ => hbucket le) rfl

/-- Samples are added to those of the past. -/
theorem addSamplesToHistogram_ofSamples (buckets past samples : List ℚ) :
    addSamplesToHistogram buckets (ofSamples buckets past).counts samples =
      ((ofSamples buckets (past ++ samples)).counts, samples.sum) := by
  have hfold : ∀ (samples past : List ℚ) (q : ℚ),
      samples.foldl
        (fun (r : List ℕ × ℚ) v =>
          (List.zipWith (fun (n : ℕ) (covers : Bool) => if covers then n + 1 else n) r.1
            (buckets.map (fun le => decide (v ≤ le)) ++ [true]), r.2 + v))
        ((ofSamples buckets past).counts, q) =
      ((ofSamples buckets (past ++ samples)).counts, q + samples.sum) := by
    intro samples
    induction samples with
    | nil =>
      intro past q
      rw [List.foldl_nil, List.append_nil, List.sum_nil, add_zero]
    | cons v samples ih =>
      intro past q
      rw [List.foldl_cons, counts_concat, ih, List.append_assoc, List.singleton_append,
        List.sum_cons, add_assoc]
  rw [addSamplesToHistogram, hfold, zero_add]

/-- So are those of a second export. -/
theorem add_ofSamples (buckets past samples : List ℚ) :
    (ofSamples buckets past).add buckets samples = ofSamples buckets (past ++ samples) := by
  rw [add, addSamplesToHistogram_ofSamples, ofSamples, ofSamples, List.sum_append,
    List.length_append]

/-- A wider bucket counts more. -/
theorem pairwise_counts {buckets : List ℚ} (h : buckets.Pairwise (· ≤ ·)) (samples : List ℚ) :
    (ofSamples buckets samples).counts.Pairwise (· ≤ ·) := by
  refine List.pairwise_append.mpr ⟨?_, List.pairwise_singleton _ _, ?_⟩
  · refine List.pairwise_map.mpr (h.imp fun {le le'} hle => ?_)
    refine List.countP_mono_left fun v _ hv => ?_
    exact decide_eq_true ((of_decide_eq_true hv).trans hle)
  · intro n hn m hm
    obtain ⟨le, -, rfl⟩ := List.mem_map.mp hn
    obtain rfl := List.mem_singleton.mp hm
    exact List.countP_le_length

end TextHistogram

/-! ## What was recorded -/

/-- The durations since the rings were drained last, and those that ticks have published. -/
structure LatencyHistory where
  pending : SampleLog ℚ := ⟨[], []⟩
  published : SampleLog ℚ := ⟨[], []⟩

/-- A tick publishes what the rings have room for. -/
def LatencyHistory.step (cap : ℕ) (h : LatencyHistory) (i : PipelineEvent ρ σ κ) :
    LatencyHistory :=
  match i with
  | .latency now startTime =>
    { h with pending := (SampleLog.step cap (.recordLatency now startTime) h.pending).1 }
  | .storeLatency now startTime =>
    { h with pending := (SampleLog.step cap (.recordStoreLatency now startTime) h.pending).1 }
  | .segment .snapshot => { h with pending := ⟨[], []⟩ }
  | .segment .reset => { h with pending := ⟨[], []⟩ }
  | .tick =>
    { published :=
        ⟨h.published.latency ++ recent cap h.pending.latency,
          h.published.store ++ recent cap h.pending.store⟩ }
  | _ => h

/-- All that was recorded in a run. -/
def recordedLatencies (is : List (PipelineEvent ρ σ κ)) : SampleLog ℚ where
  latency := is.filterMap fun i => match i with
    | .latency now startTime => some (now - startTime)
    | _ => none
  store := is.filterMap fun i => match i with
    | .storeLatency now startTime => some (now - startTime)
    | _ => none

/-- Somebody else than the collector drains the rings. -/
def PipelineEvent.drains (i : PipelineEvent ρ σ κ) : Bool :=
  match i with
  | .segment .snapshot => true
  | .segment .reset => true
  | _ => false

/-! ## Exporters -/

/-- The samples of the updates that wait. -/
def PrometheusAdapter.waitingLatencies (a : PrometheusAdapter κ) : SampleLog ℚ where
  latency := a.waiting.flatMap fun w => w.1.latencySamplesMs
  store := a.waiting.flatMap fun w => w.1.storeLatencySamplesMs

/-- All exporters are at the same history. -/
structure ShowsLatencies (cap : ℕ) (buckets : List ℚ) (s : MetricsPipeline ρ κ)
    (h : LatencyHistory) : Prop where
  rings : s.rings.Holds cap h.pending
  buckets_eq : s.prometheus.buckets = buckets
  textMw : s.prometheus.textMw = .ofSamples buckets h.published.latency
  textSt : s.prometheus.textSt = .ofSamples buckets h.published.store
  meter : s.openTelemetry.middlewareHistogram = h.published.latency
  meterStore : s.openTelemetry.storeHistogram = h.published.store
  registry : (s.prometheus.registry.middlewareHist ++
    s.prometheus.waitingLatencies.latency).Perm h.published.latency
  registryStore : (s.prometheus.registry.storeHist ++
    s.prometheus.waitingLatencies.store).Perm h.published.store

namespace PrometheusAdapter

/-- Whichever update is made, its samples go from those that wait to the registry. -/
theorem registered_latencies (a : PrometheusAdapter κ) (n : ℕ) :
    ((a.registered n).registry.middlewareHist ++ (a.registered n).waitingLatencies.latency).Perm
        (a.registry.middlewareHist ++ a.waitingLatencies.latency) ∧
      ((a.registered n).registry.storeHist ++ (a.registered n).waitingLatencies.store).Perm
        (a.registry.storeHist ++ a.waitingLatencies.store) := by
  unfold registered
  split
  · next snap prev hn =>
    obtain ⟨hlt, hget⟩ := List.getElem?_eq_some_iff.mp hn
    have hperm := List.getElem_cons_eraseIdx_perm hlt
    rw [hget] at hperm
    have hlatency := hperm.flatMap_right fun w => w.1.latencySamplesMs
    have hstore := hperm.flatMap_right fun w => w.1.storeLatencySamplesMs
    rw [List.flatMap_cons] at hlatency hstore
    constructor
    · show (a.registry.middlewareHist ++ snap.latencySamplesMs ++ _).Perm _
      rw [List.append_assoc]
      exact hlatency.append_left _
    · show (a.registry.storeHist ++ snap.storeLatencySamplesMs ++ _).Perm _
      rw [List.append_assoc]
      exact hstore.append_left _
  · exact ⟨List.Perm.refl _, List.Perm.refl _⟩

end PrometheusAdapter

/-- The samples of a tick are the last ones. -/
theorem samples_of_holds {cap : ℕ} (hcap : 0 < cap) {rings : LatencyRings ℚ} {l : SampleLog ℚ}
    (h : rings.Holds cap l) :
    MetricsPipeline.samples rings = ⟨recent cap l.latency, recent cap l.store⟩ := by
  have hreduce : ∀ xs : List ℚ, (xs.map some).reduceOption = xs := by
    intro xs
    rw [List.reduceOption, List.filterMap_map]
    exact List.filterMap_some
  have hsnap : rings.snapshot.2 =
      ⟨(recent cap l.latency).map some, (recent cap l.store).map some⟩ :=
    Option.some.inj (h.step hcap .snapshot).1
  rw [MetricsPipeline.samples, hsnap, hreduce, hreduce]

/-- Every event shows each sample once. -/
theorem ShowsLatencies.step {cap : ℕ} (hcap : 0 < cap) {buckets : List ℚ}
    {s : MetricsPipeline ρ κ} {h : LatencyHistory} (hs : ShowsLatencies cap buckets s h)
    (share : ℚ → ℕ → ℚ) (o : RateLimitOptions ρ σ κ) (hotKeyMax : ℕ+)
    (i : PipelineEvent ρ σ κ) :
    ShowsLatencies cap buckets (s.step share o hotKeyMax i).1 (h.step cap i) := by
  have hkeep : ∀ {rings : LatencyRings ℚ} {pending : SampleLog ℚ} {engine : MeteredEngine ρ κ},
      rings.Holds cap pending →
        ShowsLatencies cap buckets { s with engine, rings } { h with pending } :=
    fun hrings => { hs with rings := hrings }
  cases i with
  | segment event =>
    cases event with
    | snapshot => exact hkeep (hs.rings.step hcap .snapshot).2
    | reset => exact hkeep (hs.rings.step hcap .reset).2
    | _ => exact hkeep hs.rings
  | latency now startTime => exact hkeep (hs.rings.step hcap (.recordLatency now startTime)).2
  | storeLatency now startTime =>
    exact hkeep (hs.rings.step hcap (.recordStoreLatency now startTime)).2
  | tick =>
    have hsamples := samples_of_holds hcap hs.rings
    have hlatency : (s.tick share).2.latencySamplesMs = recent cap h.pending.latency :=
      congrArg LatencyRings.SampleSnapshot.latencySamplesMs hsamples
    have hstore : (s.tick share).2.storeLatencySamplesMs = recent cap h.pending.store :=
      congrArg LatencyRings.SampleSnapshot.storeLatencySamplesMs hsamples
    refine ⟨(hs.rings.step hcap .snapshot).2, hs.buckets_eq, ?_, ?_, ?_, ?_, ?_, ?_⟩
    · show s.prometheus.textMw.add s.prometheus.buckets (s.tick share).2.latencySamplesMs = _
      rw [hs.buckets_eq, hs.textMw, hlatency]
      exact TextHistogram.add_ofSamples _ _ _
    · show s.prometheus.textSt.add s.prometheus.buckets (s.tick share).2.storeLatencySamplesMs = _
      rw [hs.buckets_eq, hs.textSt, hstore]
      exact TextHistogram.add_ofSamples _ _ _
    · show s.openTelemetry.middlewareHistogram ++ (s.tick share).2.latencySamplesMs = _
      rw [hs.meter, hlatency]
      rfl
    · show s.openTelemetry.storeHistogram ++ (s.tick share).2.storeLatencySamplesMs = _
      rw [hs.meterStore, hstore]
      rfl
    · show (s.prometheus.registry.middlewareHist ++
        (s.prometheus.waiting ++ [((s.tick share).2, s.prometheus.lastSnapshot)]).flatMap
          fun w => w.1.latencySamplesMs).Perm _
      rw [List.flatMap_append, List.flatMap_singleton, ← List.append_assoc, hlatency]
      exact hs.registry.append_right _
    · show (s.prometheus.registry.storeHist ++
        (s.prometheus.waiting ++ [((s.tick share).2, s.prometheus.lastSnapshot)]).flatMap
          fun w => w.1.storeLatencySamplesMs).Perm _
      rw [List.flatMap_append, List.flatMap_singleton, ← List.append_assoc, hstore]
      exact hs.registryStore.append_right _
  | registered n =>
    obtain ⟨hlatency, hstore⟩ := s.prometheus.registered_latencies n
    have hsame : (s.prometheus.registered n).buckets = s.prometheus.buckets ∧
        (s.prometheus.registered n).textMw = s.prometheus.textMw ∧
        (s.prometheus.registered n).textSt = s.prometheus.textSt := by
      unfold PrometheusAdapter.registered
      split <;> exact ⟨rfl, rfl, rfl⟩
    obtain ⟨hbuckets, hmw, hst⟩ := hsame
    exact ⟨hs.rings, hbuckets.trans hs.buckets_eq, hmw.trans hs.textMw, hst.trans hs.textSt,
      hs.meter, hs.meterStore, hlatency.trans hs.registry, hstore.trans hs.registryStore⟩

/-! ## What is lost -/

/-- The published samples and those that wait, of all that were recorded. -/
structure LatencyHistory.Within (h : LatencyHistory) (recorded : SampleLog ℚ) : Prop where
  latency : (h.published.latency ++ h.pending.latency).Sublist recorded.latency
  store : (h.published.store ++ h.pending.store).Sublist recorded.store

/-- What a run has recorded and published. -/
def latencyHistory (cap : ℕ) (is : List (PipelineEvent ρ σ κ)) : LatencyHistory :=
  is.foldl (LatencyHistory.step cap) {}

omit [DecidableEq κ] in
/-- The history of one event more. -/
theorem latencyHistory_concat (cap : ℕ) (is : List (PipelineEvent ρ σ κ))
    (i : PipelineEvent ρ σ κ) :
    latencyHistory cap (is ++ [i]) = (latencyHistory cap is).step cap i := by
  rw [latencyHistory, List.foldl_append]
  rfl

omit [DecidableEq κ] in
/-- The latencies recorded by one event more. -/
theorem recordedLatencies_concat (is : List (PipelineEvent ρ σ κ)) (i : PipelineEvent ρ σ κ) :
    recordedLatencies (is ++ [i]) =
      ⟨(recordedLatencies is).latency ++ (recordedLatencies [i]).latency,
        (recordedLatencies is).store ++ (recordedLatencies [i]).store⟩ := by
  rw [recordedLatencies, List.filterMap_append, List.filterMap_append]
  rfl

omit [DecidableEq κ] in
/-- Nothing is published that was not recorded, nothing twice, and all in order. -/
theorem latencyHistory_within (cap : ℕ) (is : List (PipelineEvent ρ σ κ)) :
    (latencyHistory cap is).Within (recordedLatencies is) := by
  induction is using List.reverseRecOn with
  | nil => exact ⟨List.Sublist.refl _, List.Sublist.refl _⟩
  | append_singleton is i ih =>
    rw [latencyHistory_concat, recordedLatencies_concat]
    generalize latencyHistory cap is = h at ih ⊢
    obtain ⟨hlatency, hstore⟩ := ih
    have hsame : h.Within ⟨(recordedLatencies is).latency ++ [],
        (recordedLatencies is).store ++ []⟩ := by
      rw [List.append_nil, List.append_nil]
      exact ⟨hlatency, hstore⟩
    have hdrained : LatencyHistory.Within { h with pending := ⟨[], []⟩ }
        ⟨(recordedLatencies is).latency ++ [], (recordedLatencies is).store ++ []⟩ :=
      ⟨((List.nil_sublist _).append_left _).trans hsame.latency,
        ((List.nil_sublist _).append_left _).trans hsame.store⟩
    cases i with
    | segment event =>
      cases event with
      | snapshot => exact hdrained
      | reset => exact hdrained
      | _ => exact hsame
    | latency now startTime =>
      refine ⟨?_, hsame.store⟩
      show (h.published.latency ++ (h.pending.latency ++ [now - startTime])).Sublist _
      rw [← List.append_assoc]
      exact hlatency.append_right _
    | storeLatency now startTime =>
      refine ⟨hsame.latency, ?_⟩
      show (h.published.store ++ (h.pending.store ++ [now - startTime])).Sublist _
      rw [← List.append_assoc]
      exact hstore.append_right _
    | tick =>
      constructor
      · show (h.published.latency ++ recent cap h.pending.latency ++ []).Sublist _
        rw [List.append_nil]
        exact ((List.drop_sublist _ _).append_left _).trans hsame.latency
      · show (h.published.store ++ recent cap h.pending.store ++ []).Sublist _
        rw [List.append_nil]
        exact ((List.drop_sublist _ _).append_left _).trans hsame.store
    | registered n => exact hsame

/-- The rings never have to drop a sample. -/
def RingsHaveRoom (cap : ℕ) (is : List (PipelineEvent ρ σ κ)) : Prop :=
  ∀ js, js <+: is → (latencyHistory cap js).pending.latency.length ≤ cap ∧
    (latencyHistory cap js).pending.store.length ≤ cap

omit [DecidableEq κ] in
/-- With room for all, and nobody else to drain the rings, nothing is lost. -/
theorem latencyHistory_complete {cap : ℕ} {is : List (PipelineEvent ρ σ κ)}
    (hfits : RingsHaveRoom cap is) (hdrains : ∀ i ∈ is, i.drains = false) :
    (latencyHistory cap is).published.latency ++ (latencyHistory cap is).pending.latency =
        (recordedLatencies is).latency ∧
      (latencyHistory cap is).published.store ++ (latencyHistory cap is).pending.store =
        (recordedLatencies is).store := by
  induction is using List.reverseRecOn with
  | nil => exact ⟨rfl, rfl⟩
  | append_singleton is i ih =>
    have hpast : RingsHaveRoom cap is :=
      fun js hjs => hfits js (hjs.trans (List.prefix_append is [i]))
    obtain ⟨hlatency, hstore⟩ := ih hpast fun j hj => hdrains j (List.mem_append_left _ hj)
    obtain ⟨hroom, hroomStore⟩ := hpast is (List.prefix_refl is)
    have hi := hdrains i (List.mem_append_right _ (List.mem_singleton.mpr rfl))
    rw [latencyHistory_concat, recordedLatencies_concat]
    generalize latencyHistory cap is = h at hlatency hstore hroom hroomStore ⊢
    have hsame : h.published.latency ++ h.pending.latency =
          (recordedLatencies is).latency ++ [] ∧
        h.published.store ++ h.pending.store = (recordedLatencies is).store ++ [] := by
      rw [List.append_nil, List.append_nil]
      exact ⟨hlatency, hstore⟩
    have hall : ∀ xs : List ℚ, xs.length ≤ cap → recent cap xs ++ [] = xs := by
      intro xs hxs
      rw [recent, Nat.sub_eq_zero_of_le hxs, List.drop_zero, List.append_nil]
    cases i with
    | segment event =>
      cases event with
      | snapshot => exact Bool.noConfusion hi
      | reset => exact Bool.noConfusion hi
      | _ => exact hsame
    | latency now startTime =>
      refine ⟨?_, hsame.2⟩
      show h.published.latency ++ (h.pending.latency ++ [now - startTime]) = _
      rw [← List.append_assoc, hlatency]
      rfl
    | storeLatency now startTime =>
      refine ⟨hsame.1, ?_⟩
      show h.published.store ++ (h.pending.store ++ [now - startTime]) = _
      rw [← List.append_assoc, hstore]
      rfl
    | tick =>
      constructor
      · show h.published.latency ++ recent cap h.pending.latency ++ [] = _
        rw [List.append_assoc, hall _ hroom]
        exact hsame.1
      · show h.published.store ++ recent cap h.pending.store ++ [] = _
        rw [List.append_assoc, hall _ hroomStore]
        exact hsame.2
    | registered n => exact hsame

omit [DecidableEq κ] in
/-- At the start none is shown. -/
theorem showsLatencies_start (intervalMs : ℚ) (topKSize : ℤ) (buckets : List ℚ) (cap : ℕ) :
    ShowsLatencies cap buckets (.start intervalMs topKSize buckets cap : MetricsPipeline ρ κ) {} :=
  ⟨LatencyRings.holds_new, rfl, (TextHistogram.ofSamples_nil buckets).symm,
    (TextHistogram.ofSamples_nil buckets).symm, rfl, rfl, List.Perm.refl _, List.Perm.refl _⟩

/-- **The exporters show the latencies.**  In every run, with updates of the registry made in any
order, the text and the meter are at the samples published so far, and so is the registry with what
waits.  These are of those recorded, in order; the buckets of the text are cumulative; and as long
as the rings have room and nobody else drains them, nothing is lost.  The rings have a capacity of
at least one, as those of the counters do. -/
theorem exported_latencies (share : ℚ → ℕ → ℚ) (o : RateLimitOptions ρ σ κ) (hotKeyMax : ℕ+)
    (intervalMs : ℚ) (topKSize : ℤ) (buckets : List ℚ) {sampleCapacity : ℕ}
    (hcap : 1 ≤ sampleCapacity) (is : List (PipelineEvent ρ σ κ)) :
    let start : MetricsPipeline ρ κ := .start intervalMs topKSize buckets sampleCapacity
    let s := final (MetricsPipeline.step share o hotKeyMax) is start
    let h := latencyHistory sampleCapacity is
    ShowsLatencies sampleCapacity buckets s h ∧
      h.Within (recordedLatencies is) ∧
      (buckets.Pairwise (· ≤ ·) → s.prometheus.textMw.counts.Pairwise (· ≤ ·) ∧
        s.prometheus.textSt.counts.Pairwise (· ≤ ·)) ∧
      (RingsHaveRoom sampleCapacity is → (∀ i ∈ is, i.drains = false) →
        h.published.latency ++ h.pending.latency = (recordedLatencies is).latency ∧
          h.published.store ++ h.pending.store = (recordedLatencies is).store) := by
  intro start s h
  have hshows : ShowsLatencies sampleCapacity buckets s h :=
    final_of_abstraction (fun i s h hs => hs.step hcap share o hotKeyMax i)
      (showsLatencies_start intervalMs topKSize buckets sampleCapacity)
  refine ⟨hshows, latencyHistory_within sampleCapacity is, fun hsorted => ⟨?_, ?_⟩,
    latencyHistory_complete⟩
  · rw [hshows.textMw]
    exact TextHistogram.pairwise_counts hsorted _
  · rw [hshows.textSt]
    exact TextHistogram.pairwise_counts hsorted _

/-- A limiter whose store is never asked. -/
def neverAsked : RateLimitOptions Unit Unit ℕ where
  clock := fun _ => 0
  store :=
    { increment := fun _ _ s => (.ok (.ofUsage 1 2 1000), s)
      decrement := fun _ _ s => s }

/-- Three samples where two have room, a tick, and one more. -/
theorem exported_latencies_overflow :
    let start : MetricsPipeline Unit ℕ := .start 10000 20 [1, 5] 2
    let is : List (PipelineEvent Unit Unit ℕ) :=
      [.latency 5 1, .latency 7 2, .storeLatency 8 2, .latency 9 3, .tick, .latency 11 4]
    let s := final (MetricsPipeline.step (fun p n => p / 100 * n) neverAsked 2) is start
    let h := latencyHistory 2 is
    ShowsLatencies 2 [1, 5] s h ∧
      h.Within (recordedLatencies is) ∧
      (([1, 5] : List ℚ).Pairwise (· ≤ ·) → s.prometheus.textMw.counts.Pairwise (· ≤ ·) ∧
        s.prometheus.textSt.counts.Pairwise (· ≤ ·)) ∧
      (RingsHaveRoom 2 is → (∀ i ∈ is, i.drains = false) →
        h.published.latency ++ h.pending.latency = (recordedLatencies is).latency ∧
          h.published.store ++ h.pending.store = (recordedLatencies is).store) :=
  exported_latencies (fun p n => p / 100 * n) neverAsked 2 10000 20 [1, 5] (by decide) _

end RatelimitFlex
