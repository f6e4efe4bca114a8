import RatelimitFlex.Library.UntimedRun
import RatelimitFlex.Program.MetricsPipeline

/-!
# What the exporters report

A counter of the engine is only ever moved on by one (`MetricsExit.total_record`), and both adapters
add up the same differences: the meter at once, the registry when the update that waits is made.
So the registry is behind the meter by what waits, in whatever order that is made up for, and
neither ever reports more than was recorded, even when somebody resets the counters in between
(`exported_totals`).
-/

set_option autoImplicit false

namespace RatelimitFlex

open Library

variable {ρ σ κ : Type} [DecidableEq κ]

/-! ## One recording -/

omit [DecidableEq κ] in
/-- The figure of the counters that a series shows. -/
def MetricsCounters.total (m : MetricsCounters κ) : CounterSeries → ℕ
  | .allowed => m.allowedRequests
  | .blocked .rateLimit => m.blockedByRateLimit
  | .blocked .blocklist => m.blockedByBlocklist
  | .blocked .penalty => m.blockedByPenalty
  | .blocked .keyManager => m.blockedByKeyManager
  | .blocked .serviceUnavailable => m.blockedByServiceUnavailable
  | .skipped => m.skippedRequests
  | .allowlisted => m.allowlistedRequests

/-- The series an exit is counted in. -/
def MetricsExit.series : MetricsExit → Option CounterSeries
  | .skip => some .skipped
  | .allowlist => some .allowlisted
  | .policyBlock .blocklist => some (.blocked .blocklist)
  | .policyBlock .penalty => some (.blocked .penalty)
  | .policyBlock .keyManager => some (.blocked .keyManager)
  | .afterConsume out =>
    if out.isBlocked then
      match out.blockReason with
      | some reason => some (.blocked reason)
      | none => if out.storeUnavailable then some (.blocked .serviceUnavailable) else none
    else some .allowed

/-- One for the series itself. -/
def movedOn (series : Option CounterSeries) (x : CounterSeries) : ℕ :=
  if series = some x then 1 else 0

namespace MetricsCounters

/-- Hot keys are no totals. -/
theorem total_recordKey (hotKeyMax : ℕ+) (key : κ) (m : MetricsCounters κ) :
    (m.recordKey hotKeyMax key).total = m.total := by
  unfold recordKey
  split
  · rfl
  · split <;> rfl

/-- A blocked key changes no total. -/
theorem total_recordKeyBlocked (key : κ) (m : MetricsCounters κ) :
    (m.recordKeyBlocked key).total = m.total := by
  unfold recordKeyBlocked
  split <;> rfl

end MetricsCounters

/-- What a response after the increments adds, once its key is recorded. -/
theorem MetricsCounters.total_afterConsume (m : MetricsCounters κ) (out : RateLimitConsumeResult)
    (x : CounterSeries) (key : κ) :
    (if out.isBlocked then
        let m := { m with blockedRequests := m.blockedRequests + 1 }.recordKeyBlocked key
        match out.blockReason with
        | some .rateLimit => { m with blockedByRateLimit := m.blockedByRateLimit + 1 }
        | some .blocklist => { m with blockedByBlocklist := m.blockedByBlocklist + 1 }
        | some .penalty => { m with blockedByPenalty := m.blockedByPenalty + 1 }
        | some .keyManager => { m with blockedByKeyManager := m.blockedByKeyManager + 1 }
        | some .serviceUnavailable =>
          { m with blockedByServiceUnavailable := m.blockedByServiceUnavailable + 1 }
        | none =>
          if out.storeUnavailable then
            { m with blockedByServiceUnavailable := m.blockedByServiceUnavailable + 1 }
          else m
      else { m with allowedRequests := m.allowedRequests + 1 }).total x =
      m.total x + movedOn (MetricsExit.afterConsume out).series x := by
  rw [MetricsExit.series]
  by_cases hblocked : out.isBlocked = true
  · rw [if_pos hblocked, if_pos hblocked]
    have htotal : ({ m with
        blockedRequests := m.blockedRequests + 1 }.recordKeyBlocked key).total = m.total :=
      MetricsCounters.total_recordKeyBlocked key _
    rw [← htotal]
    generalize { m with blockedRequests := m.blockedRequests + 1 }.recordKeyBlocked key = m'
    cases out.blockReason with
    | none =>
      by_cases hdown : out.storeUnavailable = true
      · simp only [if_pos hdown]
        rcases x with _ | blocked | _ | _
        · rfl
        · cases blocked <;> rfl
        · rfl
        · rfl
      · simp only [if_neg hdown]
        rfl
    | some reason =>
      rcases x with _ | blocked | _ | _
      · cases reason <;> rfl
      · cases reason <;> cases blocked <;> rfl
      · cases reason <;> rfl
      · cases reason <;> rfl
  · rw [if_neg hblocked, if_neg hblocked]
    rcases x with _ | blocked | _ | _
    · rfl
    · cases blocked <;> rfl
    · rfl
    · rfl

/-- An exit moves its own series on by one. -/
theorem MetricsExit.total_record (hotKeyMax : ℕ+) (key : κ) (exit : MetricsExit)
    (m : MetricsCounters κ) (x : CounterSeries) :
    (exit.record hotKeyMax key m).total x =
      m.total x + movedOn exit.series x := by
  cases exit with
  | skip =>
    simp only [MetricsExit.record, MetricsCounters.recordMetricsSkip,
      MetricsCounters.total_recordKey]
    rcases x with _ | reason | _ | _
    · rfl
    · cases reason <;> rfl
    · rfl
    · rfl
  | allowlist =>
    simp only [MetricsExit.record, MetricsCounters.recordMetricsAllowlist,
      MetricsCounters.total_recordKey]
    rcases x with _ | reason | _ | _
    · rfl
    · cases reason <;> rfl
    · rfl
    · rfl
  | policyBlock reason =>
    simp only [MetricsExit.record, MetricsCounters.recordMetricsPolicyBlock,
      MetricsCounters.total_recordKeyBlocked, MetricsCounters.total_recordKey]
    rcases x with _ | blocked | _ | _
    · cases reason <;> rfl
    · cases reason <;> cases blocked <;> rfl
    · cases reason <;> rfl
    · cases reason <;> rfl
  | afterConsume out =>
    have htotal : ({ m with
        totalRequests := m.totalRequests + 1 }.recordKey hotKeyMax key).total = m.total :=
      MetricsCounters.total_recordKey hotKeyMax key _
    rw [← htotal]
    exact MetricsCounters.total_afterConsume _ out x key

/-! ## One segment -/

/-- A segment that is no reset does to one engine what it does to another with the same consumes in
flight, and moves their counters on alike. -/
theorem MeteredEngine.step_alike (o : RateLimitOptions ρ σ κ) (hotKeyMax : ℕ+)
    (event : MeteredEvent ρ σ κ) (hevent : (PipelineEvent.segment event).isReset = false)
    {s s' : MeteredEngine ρ κ} (hengine : s.engine = s'.engine)
    (hpending : s.pending = s'.pending) :
    (s.step o hotKeyMax event).1.engine = (s'.step o hotKeyMax event).1.engine ∧
      (s.step o hotKeyMax event).1.pending = (s'.step o hotKeyMax event).1.pending ∧
      ∃ moved : CounterSeries → ℕ,
        (∀ x, (s.step o hotKeyMax event).1.metrics.total x = s.metrics.total x + moved x) ∧
        ∀ x, (s'.step o hotKeyMax event).1.metrics.total x = s'.metrics.total x + moved x := by
  obtain ⟨engine, metrics, pending⟩ := s
  obtain ⟨engine', metrics', pending'⟩ := s'
  obtain rfl : engine = engine' := hengine
  obtain rfl : pending = pending' := hpending
  have hrecord : ∀ (key : κ) (exit : MetricsExit), ∃ moved : CounterSeries → ℕ,
      (∀ x, (exit.record hotKeyMax key metrics).total x = metrics.total x + moved x) ∧
        ∀ x, (exit.record hotKeyMax key metrics').total x = metrics'.total x + moved x :=
    fun key exit => ⟨movedOn exit.series,
      exit.total_record hotKeyMax key metrics, exit.total_record hotKeyMax key metrics'⟩
  have hstill : ∃ moved : CounterSeries → ℕ, (∀ x, metrics.total x = metrics.total x + moved x) ∧
      ∀ x, metrics'.total x = metrics'.total x + moved x :=
    ⟨fun _ => 0, fun x => rfl, fun x => rfl⟩
  cases event with
  | consume key req stores =>
    simp only [MeteredEngine.step]
    split
    · exact ⟨rfl, rfl, hrecord key _⟩
    · exact ⟨rfl, rfl, hstill⟩
  | incremented n outcome stores =>
    simp only [MeteredEngine.step]
    split
    · next key req _ =>
      cases outcome with
      | error e => exact ⟨rfl, rfl, hstill⟩
      | ok g =>
        dsimp only
        split
        · exact ⟨rfl, rfl, hstill⟩
        · exact ⟨rfl, rfl, hrecord key _⟩
    · exact ⟨rfl, rfl, hstill⟩
  | calledBack n outcome =>
    simp only [MeteredEngine.step]
    split
    · next key req g _ =>
      cases outcome with
      | error e => exact ⟨rfl, rfl, hstill⟩
      | ok u => exact ⟨rfl, rfl, hrecord key _⟩
    · exact ⟨rfl, rfl, hstill⟩
  | snapshot => exact ⟨rfl, rfl, hstill⟩
  | reset => exact Bool.noConfusion hevent

/-! ## The adapters -/

namespace PrometheusAdapter

/-- What the updates that wait will add. -/
def waitingTotal (a : PrometheusAdapter κ) (x : CounterSeries) : ℕ :=
  (a.waiting.map fun w => counterDelta w.1 w.2 x).sum

omit [DecidableEq κ] in
/-- What waits to be exported grows by the difference of two snapshots. -/
theorem waitingTotal_onMetrics (a : PrometheusAdapter κ) (snap : MetricsSnapshot κ)
    (x : CounterSeries) :
    (a.onMetrics snap).waitingTotal x = a.waitingTotal x + counterDelta snap a.lastSnapshot x := by
  rw [waitingTotal, onMetrics, List.map_append, List.sum_append, List.map_singleton,
    List.sum_singleton]
  rfl

/-- Whichever update is made, nothing is lost and nothing counted twice. -/
theorem registered_total (a : PrometheusAdapter κ) (n : ℕ) (x : CounterSeries) :
    (a.registered n).registry.counters x + (a.registered n).waitingTotal x =
      a.registry.counters x + a.waitingTotal x := by
  unfold registered
  split
  · next snap prev hn =>
    obtain ⟨hlt, hget⟩ := List.getElem?_eq_some_iff.mp hn
    have hperm := (List.getElem_cons_eraseIdx_perm hlt).map fun w => counterDelta w.1 w.2 x
    have hsum := hperm.sum_eq
    rw [List.map_cons, List.sum_cons, hget] at hsum
    show a.registry.counters x + counterDelta snap prev x +
      ((a.waiting.eraseIdx n).map fun w => counterDelta w.1 w.2 x).sum = _
    rw [add_assoc, hsum]
    rfl
  · rfl

/-- Registering a metric changes no snapshot. -/
theorem lastSnapshot_registered (a : PrometheusAdapter κ) (n : ℕ) :
    (a.registered n).lastSnapshot = a.lastSnapshot := by
  unfold registered
  split <;> rfl

end PrometheusAdapter

omit [DecidableEq κ] in
/-- The difference to the last snapshot, when there is none it counts as nothing. -/
theorem counterDelta_eq (snap : MetricsSnapshot κ) (prev : Option (MetricsSnapshot κ))
    (x : CounterSeries) :
    counterDelta snap prev x = snap.total x - (prev.map fun s => s.total x).getD 0 := by
  cases prev <;> rfl

omit [DecidableEq κ] in
/-- The snapshot of a tick has the totals of the counters. -/
theorem MetricsPipeline.total_tick (share : ℚ → ℕ → ℚ) (s : MetricsPipeline ρ κ)
    (x : CounterSeries) : (s.tick share).2.total x = s.engine.metrics.total x := by
  rcases x with _ | reason | _ | _
  · rfl
  · cases reason <;> rfl
  · rfl
  · rfl

/-! ## Runs -/

/-- The registry is behind the meter by what waits, and the text by nothing but resets. -/
structure ExportersAgree (s : MetricsPipeline ρ κ) : Prop where
  registry : ∀ x, s.prometheus.registry.counters x + s.prometheus.waitingTotal x =
    s.openTelemetry.requestsCounter x
  lastSnapshot : s.prometheus.lastSnapshot = s.openTelemetry.lastSnapshot
  text_le : ∀ x, s.prometheus.textValue x ≤ s.openTelemetry.requestsCounter x

/-- Without resets the text shows what the meter does, and no more than was counted. -/
structure TextExact (s : MetricsPipeline ρ κ) : Prop where
  text : ∀ x, s.prometheus.textValue x = s.openTelemetry.requestsCounter x
  counted : ∀ x, s.openTelemetry.requestsCounter x ≤ s.engine.metrics.total x

/-- The second pipeline has the same consumes in flight, and its counters are ahead of the meter of
the first by at least what the first has counted since its last tick. -/
structure CountsAhead (s s' : MetricsPipeline ρ κ) : Prop where
  engine : s.engine.engine = s'.engine.engine
  pending : s.engine.pending = s'.engine.pending
  counted : ∀ x, s.openTelemetry.requestsCounter x +
    (s.engine.metrics.total x - s.prometheus.textValue x) ≤ s'.engine.metrics.total x

section Steps

variable (share : ℚ → ℕ → ℚ) (o : RateLimitOptions ρ σ κ) (hotKeyMax : ℕ+)

/-- Every event keeps the exporters in agreement. -/
theorem ExportersAgree.step {s : MetricsPipeline ρ κ} (h : ExportersAgree s)
    (i : PipelineEvent ρ σ κ) : ExportersAgree (s.step share o hotKeyMax i).1 := by
  cases i with
  | segment event => exact ⟨h.registry, h.lastSnapshot, h.text_le⟩
  | latency now startTime => exact ⟨h.registry, h.lastSnapshot, h.text_le⟩
  | storeLatency now startTime => exact ⟨h.registry, h.lastSnapshot, h.text_le⟩
  | tick =>
    refine ⟨fun x => ?_, rfl, fun x => ?_⟩
    · have hwait := s.prometheus.waitingTotal_onMetrics (s.tick share).2 x
      show s.prometheus.registry.counters x +
          (s.prometheus.onMetrics (s.tick share).2).waitingTotal x =
        s.openTelemetry.requestsCounter x +
          counterDelta (s.tick share).2 s.openTelemetry.lastSnapshot x
      rw [hwait, ← add_assoc, h.registry x, h.lastSnapshot]
    · have htext := h.text_le x
      show (s.tick share).2.total x ≤ s.openTelemetry.requestsCounter x +
        counterDelta (s.tick share).2 s.openTelemetry.lastSnapshot x
      rw [counterDelta_eq, ← h.lastSnapshot]
      rw [PrometheusAdapter.textValue] at htext
      omega
  | registered n =>
    have hlast := s.prometheus.lastSnapshot_registered n
    refine ⟨fun x => ?_, hlast.trans h.lastSnapshot, fun x => ?_⟩
    · exact (s.prometheus.registered_total n x).trans (h.registry x)
    · show (s.prometheus.registered n).textValue x ≤ _
      rw [PrometheusAdapter.textValue, hlast]
      exact h.text_le x

/-- Every event keeps the text exact. -/
theorem TextExact.step {s : MetricsPipeline ρ κ} (h : TextExact s) (hagree : ExportersAgree s)
    {i : PipelineEvent ρ σ κ} (hi : i.isReset = false) :
    TextExact (s.step share o hotKeyMax i).1 := by
  cases i with
  | segment event =>
    obtain ⟨-, -, moved, hmoved, -⟩ := s.engine.step_alike o hotKeyMax event hi rfl rfl
    refine ⟨h.text, fun x => ?_⟩
    have hnext : (s.step share o hotKeyMax (.segment event)).1.engine.metrics.total x =
        s.engine.metrics.total x + moved x := hmoved x
    have hcounted := h.counted x
    rw [hnext]
    exact hcounted.trans (Nat.le_add_right _ _)
  | latency now startTime => exact ⟨h.text, h.counted⟩
  | storeLatency now startTime => exact ⟨h.text, h.counted⟩
  | tick =>
    have hexact : ∀ x, (s.tick share).2.total x = s.openTelemetry.requestsCounter x +
        counterDelta (s.tick share).2 s.openTelemetry.lastSnapshot x := by
      intro x
      have htext := h.text x
      have hcounted := h.counted x
      rw [PrometheusAdapter.textValue] at htext
      rw [counterDelta_eq, ← hagree.lastSnapshot, MetricsPipeline.total_tick]
      omega
    refine ⟨hexact, fun x => ?_⟩
    show s.openTelemetry.requestsCounter x +
        counterDelta (s.tick share).2 s.openTelemetry.lastSnapshot x ≤ s.engine.metrics.total x
    rw [← hexact x, MetricsPipeline.total_tick]
  | registered n =>
    refine ⟨fun x => ?_, h.counted⟩
    show (s.prometheus.registered n).textValue x = _
    rw [PrometheusAdapter.textValue, s.prometheus.lastSnapshot_registered n]
    exact h.text x

/-- An event that both runs take keeps the one ahead. -/
theorem CountsAhead.step_kept {s s' : MetricsPipeline ρ κ} (h : CountsAhead s s')
    (hagree : ExportersAgree s) {i : PipelineEvent ρ σ κ} (hi : i.isReset = false) :
    CountsAhead (s.step share o hotKeyMax i).1 (s'.step share o hotKeyMax i).1 := by
  cases i with
  | segment event =>
    obtain ⟨hengine, hpending, moved, hmoved, hmoved'⟩ :=
      s.engine.step_alike o hotKeyMax event hi h.engine h.pending
    refine ⟨hengine, hpending, fun x => ?_⟩
    have hcounted := h.counted x
    show s.openTelemetry.requestsCounter x +
      ((s.engine.step o hotKeyMax event).1.metrics.total x - s.prometheus.textValue x) ≤
      (s'.engine.step o hotKeyMax event).1.metrics.total x
    rw [hmoved x, hmoved' x]
    omega
  | latency now startTime => exact ⟨h.engine, h.pending, h.counted⟩
  | storeLatency now startTime => exact ⟨h.engine, h.pending, h.counted⟩
  | tick =>
    refine ⟨h.engine, h.pending, fun x => ?_⟩
    have hcounted := h.counted x
    show s.openTelemetry.requestsCounter x +
        counterDelta (s.tick share).2 s.openTelemetry.lastSnapshot x +
        (s.engine.metrics.total x - (s.tick share).2.total x) ≤ s'.engine.metrics.total x
    rw [PrometheusAdapter.textValue] at hcounted
    rw [counterDelta_eq, ← hagree.lastSnapshot, MetricsPipeline.total_tick]
    omega
  | registered n =>
    refine ⟨h.engine, h.pending, fun x => ?_⟩
    show _ + (_ - (s.prometheus.registered n).textValue x) ≤ _
    rw [PrometheusAdapter.textValue, s.prometheus.lastSnapshot_registered n]
    exact h.counted x

/-- A reset forgets, and the exporters make nothing up for it. -/
theorem CountsAhead.step_reset {s s' : MetricsPipeline ρ κ} (h : CountsAhead s s')
    {i : PipelineEvent ρ σ κ} (hi : i.isReset = true) :
    CountsAhead (s.step share o hotKeyMax i).1 s' := by
  obtain rfl : i = .segment .reset := by
    cases i with
    | segment event =>
      cases event with
      | reset => rfl
      | _ => exact Bool.noConfusion hi
    | _ => exact Bool.noConfusion hi
  refine ⟨h.engine, h.pending, fun x => ?_⟩
  have hzero : ((s.step share o hotKeyMax (.segment .reset)).1.engine.metrics.total x) = 0 := by
    rcases x with _ | reason | _ | _
    · rfl
    · cases reason <;> rfl
    · rfl
    · rfl
  have hcounted := h.counted x
  rw [hzero]
  show s.openTelemetry.requestsCounter x + (0 - s.prometheus.textValue x) ≤ _
  omega

end Steps

section Start

variable (intervalMs : ℚ) (topKSize : ℤ) (buckets : List ℚ) (sampleCapacity : ℕ)

omit [DecidableEq κ] in
/-- The exporters start in agreement. -/
theorem exportersAgree_start : ExportersAgree
    (.start intervalMs topKSize buckets sampleCapacity : MetricsPipeline ρ κ) :=
  ⟨fun _ => rfl, rfl, fun _ => le_rfl⟩

omit [DecidableEq κ] in
/-- The text starts exact. -/
theorem textExact_start : TextExact
    (.start intervalMs topKSize buckets sampleCapacity : MetricsPipeline ρ κ) :=
  ⟨fun _ => rfl, fun _ => Nat.zero_le _⟩

omit [DecidableEq κ] in
/-- At the start a pipeline is ahead of itself. -/
theorem countsAhead_start : CountsAhead
    (.start intervalMs topKSize buckets sampleCapacity : MetricsPipeline ρ κ)
    (.start intervalMs topKSize buckets sampleCapacity) := by
  refine ⟨rfl, rfl, fun x => ?_⟩
  show 0 + (_ - 0) ≤ _
  rw [Nat.zero_add, Nat.sub_zero]

/-- **The exporters report what was counted.**  In every run, with updates of the registry made in
any order and counters reset at any time, the registry with what waits shows what the meter does,
the text no more than that, and the meter no more than was counted in all.  When nobody resets the
counters the text and the meter agree, and right after a tick they show all that was counted. -/
theorem exported_totals (share : ℚ → ℕ → ℚ) (o : RateLimitOptions ρ σ κ) (hotKeyMax : ℕ+)
    (is : List (PipelineEvent ρ σ κ)) (x : CounterSeries) :
    let start : MetricsPipeline ρ κ := .start intervalMs topKSize buckets sampleCapacity
    let step := MetricsPipeline.step share o hotKeyMax
    let s := final step is start
    let unreset := final step (is.filter fun i => !i.isReset) start
    (s.prometheus.registry.counters x + s.prometheus.waitingTotal x =
        s.openTelemetry.requestsCounter x ∧
      s.prometheus.textValue x ≤ s.openTelemetry.requestsCounter x ∧
      s.openTelemetry.requestsCounter x ≤ unreset.engine.metrics.total x) ∧
    ((∀ i ∈ is, i.isReset = false) →
      s.prometheus.textValue x = s.openTelemetry.requestsCounter x ∧
        (is.getLast? = some .tick → s.prometheus.textValue x = s.engine.metrics.total x)) := by
  intro start step s unreset
  have hagree : ExportersAgree s :=
    final_of_invariant (P := fun _ => True) (fun i s hs _ => hs.step share o hotKeyMax i)
      (exportersAgree_start intervalMs topKSize buckets sampleCapacity) fun _ _ => trivial
  have hahead : ExportersAgree s ∧ CountsAhead s unreset := by
    refine final_of_filter (R := fun s s' => ExportersAgree s ∧ CountsAhead s s') ?_ ?_
      ⟨exportersAgree_start intervalMs topKSize buckets sampleCapacity,
        countsAhead_start intervalMs topKSize buckets sampleCapacity⟩
    · intro i s s' hs hi
      exact ⟨hs.1.step share o hotKeyMax i,
        hs.2.step_kept share o hotKeyMax hs.1 (by simpa using hi)⟩
    · intro i s s' hs hi
      exact ⟨hs.1.step share o hotKeyMax i,
        hs.2.step_reset share o hotKeyMax (by simpa using hi)⟩
  refine ⟨⟨hagree.registry x, hagree.text_le x, ?_⟩, fun hkept => ⟨?_, fun hlast => ?_⟩⟩
  · exact (Nat.le_add_right _ _).trans (hahead.2.counted x)
  · have hexact : ExportersAgree s ∧ TextExact s :=
      final_of_invariant (P := fun i : PipelineEvent ρ σ κ => i.isReset = false)
        (I := fun s => ExportersAgree s ∧ TextExact s)
        (fun i s hs hi => ⟨hs.1.step share o hotKeyMax i, hs.2.step share o hotKeyMax hs.1 hi⟩)
        ⟨exportersAgree_start intervalMs topKSize buckets sampleCapacity,
          textExact_start intervalMs topKSize buckets sampleCapacity⟩ hkept
    exact hexact.2.text x
  · obtain ⟨js, hjs⟩ := List.getLast?_eq_some_iff.mp hlast
    show (final step is start).prometheus.textValue x = (final step is start).engine.metrics.total x
    rw [hjs, final_append]
    exact MetricsPipeline.total_tick share _ x

end Start

end RatelimitFlex
