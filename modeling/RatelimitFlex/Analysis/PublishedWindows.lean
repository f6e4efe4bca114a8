import RatelimitFlex.Analysis.ExportedTotals
import RatelimitFlex.Analysis.MetricsBalance
import RatelimitFlex.Library.RecentList

/-!
# The windows a collector publishes

The collector keeps the counts of its last intervals, each the difference to the tick before.  They
telescope: a published window speaks of exactly what was counted since the tick before its first
interval (`Collected`).  As the counters add up and only grow, the rates are proportions
(`published_windows`).
-/

set_option autoImplicit false

namespace RatelimitFlex

open Library

variable {ρ σ κ : Type} [DecidableEq κ]

/-! ## The window of a list of snapshots -/

omit [DecidableEq κ] in
/-- What `f` has grown by over the last `w` ticks. -/
def grownBy (w : ℕ) (f : MetricsSnapshot κ → ℕ) (snaps : List (MetricsSnapshot κ)) : ℤ :=
  let counts := snaps.map fun s => (f s : ℤ)
  counts.getLastD 0 - (0 :: counts).getD (counts.length - w) 0

/-- The window that speaks of the last `w` ticks. -/
def exactWindow (intervalMs : ℚ) (w : ℕ) (snaps : List (MetricsSnapshot κ)) : MetricsWindow :=
  let durationMs := max (1 : ℚ) (min w snaps.length : ℕ) * intervalMs
  let requests : ℤ := grownBy w (fun s => s.totals.requests) snaps
  let blocked : ℤ := grownBy w (fun s => s.totals.blocked) snaps
  let allowed : ℤ := grownBy w (fun s => s.totals.allowed) snaps
  { durationMs
    requestsPerSecond := MetricsCollector.ratio requests (durationMs / 1000)
    blocksPerSecond := MetricsCollector.ratio blocked (durationMs / 1000)
    blockRate := MetricsCollector.ratio blocked requests
    allowRate := MetricsCollector.ratio allowed requests }

/-- The counts of the last intervals. -/
def countsOf (w : ℕ) (f : MetricsSnapshot κ → ℕ) (snaps : List (MetricsSnapshot κ)) : List ℤ :=
  recent w (differences 0 (snaps.map fun s => (f s : ℤ)))

omit [DecidableEq κ] in
/-- The counts of the last snapshots add up to the growth over them. -/
theorem sum_countsOf (w : ℕ) (f : MetricsSnapshot κ → ℕ) (snaps : List (MetricsSnapshot κ)) :
    (countsOf w f snaps).sum = grownBy w f snaps :=
  sum_recent_differences w 0 _

omit [DecidableEq κ] in
/-- A new snapshot adds its difference to the series. -/
theorem countsOf_concat (w : ℕ) (f : MetricsSnapshot κ → ℕ) (snaps : List (MetricsSnapshot κ))
    (snap : MetricsSnapshot κ) :
    MetricsCollector.pushSeries w (countsOf w f snaps)
        (f snap - (snaps.map fun s => (f s : ℤ)).getLastD 0) =
      countsOf w f (snaps ++ [snap]) := by
  rw [countsOf, countsOf, List.map_append, List.map_singleton, differences_concat,
    recent_concat_eq_ite]
  rfl

/-! ## The collector -/

/-- What a collector knows of the snapshots it has published. -/
structure Collected (intervalMs : ℚ) (w : ℕ) (c : MetricsCollector κ)
    (snaps : List (MetricsSnapshot κ)) : Prop where
  intervalMs_eq : c.intervalMs = intervalMs
  windowSize_eq : c.windowSize = w
  lastTotalRequests : (c.lastTotalRequests : ℤ) =
    (snaps.map fun s => (s.totals.requests : ℤ)).getLastD 0
  lastBlocked : (c.lastBlocked : ℤ) = (snaps.map fun s => (s.totals.blocked : ℤ)).getLastD 0
  lastAllowed : (c.lastAllowed : ℤ) = (snaps.map fun s => (s.totals.allowed : ℤ)).getLastD 0
  deltaTotals : c.deltaTotals = countsOf w (fun s => s.totals.requests) snaps
  deltaBlockeds : c.deltaBlockeds = countsOf w (fun s => s.totals.blocked) snaps
  deltaAlloweds : c.deltaAlloweds = countsOf w (fun s => s.totals.allowed) snaps
  history : c.history = recent w snaps
  latest : c.latest = snaps.getLast?

omit [DecidableEq κ] in
/-- A tick publishes the window of the last intervals. -/
theorem Collected.tick {intervalMs : ℚ} {w : ℕ} {c : MetricsCollector κ}
    {snaps : List (MetricsSnapshot κ)} (h : Collected intervalMs w c snaps)
    (share : ℚ → ℕ → ℚ) (raw : MetricsCounters κ) (samples : LatencyRings.SampleSnapshot ℚ) :
    let r := c.tick share raw samples
    r.2.window = exactWindow intervalMs w (snaps ++ [r.2]) ∧
      Collected intervalMs w r.1 (snaps ++ [r.2]) := by
  intro r
  have hlast : ∀ f : MetricsSnapshot κ → ℕ,
      ((snaps ++ [r.2]).map fun s => (f s : ℤ)).getLastD 0 = f r.2 := by
    intro f
    rw [List.map_append, List.map_singleton, List.getLastD_concat]
  have hnext : Collected intervalMs w r.1 (snaps ++ [r.2]) := by
    constructor
    · exact h.intervalMs_eq
    · exact h.windowSize_eq
    · exact (hlast fun s => s.totals.requests).symm
    · exact (hlast fun s => s.totals.blocked).symm
    · exact (hlast fun s => s.totals.allowed).symm
    · rw [← countsOf_concat, ← h.deltaTotals, ← h.lastTotalRequests, ← h.windowSize_eq]
      rfl
    · rw [← countsOf_concat, ← h.deltaBlockeds, ← h.lastBlocked, ← h.windowSize_eq]
      rfl
    · rw [← countsOf_concat, ← h.deltaAlloweds, ← h.lastAllowed, ← h.windowSize_eq]
      rfl
    · show MetricsCollector.pushHistory c.windowSize c.history r.2 = recent w (snaps ++ [r.2])
      rw [h.history, h.windowSize_eq, recent_concat, MetricsCollector.pushHistory]
      split
      · rfl
      · next hfits => rw [Nat.sub_eq_zero_of_le (not_lt.mp hfits), List.drop_zero]
    · exact (List.getLast?_concat).symm
  refine ⟨?_, hnext⟩
  have hlen : r.1.deltaTotals.length = min w (snaps ++ [r.2]).length := by
    rw [hnext.deltaTotals, countsOf, length_recent, length_differences, List.length_map]
  show r.1.window = _
  rw [MetricsCollector.window, exactWindow, hnext.deltaTotals, hnext.deltaBlockeds,
    hnext.deltaAlloweds, sum_countsOf, sum_countsOf, sum_countsOf, hnext.intervalMs_eq,
    ← hnext.deltaTotals, hlen]

/-! ## Proportions -/

/-- The sums of a snapshot. -/
structure MetricsSnapshot.AddsUp (s : MetricsSnapshot κ) : Prop where
  requests : s.totals.requests = s.totals.allowed + s.totals.blocked + s.totals.skipped +
    s.totals.allowlisted
  blocked : s.totals.blocked = s.blockReasons.rateLimit + s.blockReasons.blocklist +
    s.blockReasons.penalty + s.blockReasons.keyManager + s.blockReasons.serviceUnavailable

omit [DecidableEq κ] in
/-- A window speaks of the time since one of the snapshots, or since the start. -/
theorem exists_grownBy_eq (w : ℕ) (past : List (MetricsSnapshot κ)) (snap : MetricsSnapshot κ) :
    ∃ base : Option (MetricsSnapshot κ), (∀ b ∈ base, b ∈ past ++ [snap]) ∧
      ∀ f : MetricsSnapshot κ → ℕ,
        grownBy w f (past ++ [snap]) = (f snap : ℤ) - ((base.map f).getD 0 : ℕ) := by
  have hgrown : ∀ f : MetricsSnapshot κ → ℕ, grownBy w f (past ++ [snap]) = (f snap : ℤ) -
      (0 :: (past ++ [snap]).map fun s => (f s : ℤ)).getD ((past ++ [snap]).length - w) 0 := by
    intro f
    rw [grownBy, List.length_map]
    congr 1
    rw [List.map_append, List.map_singleton, List.getLastD_concat]
  cases hbase : (past ++ [snap]).length - w with
  | zero =>
    refine ⟨none, fun b hb => absurd hb (Option.not_mem_none b), fun f => ?_⟩
    rw [hgrown f, hbase]
    rfl
  | succ n =>
    refine ⟨(past ++ [snap])[n]?, fun b hb => List.mem_of_getElem? hb, fun f => ?_⟩
    rw [hgrown f, hbase, List.getD_cons_succ, List.getD_eq_getElem?_getD, List.getElem?_map]
    cases (past ++ [snap])[n]? <;> rfl

/-- A share is not negative. -/
theorem MetricsCollector.ratio_nonneg {a b : ℤ} (ha : 0 ≤ a) : 0 ≤ MetricsCollector.ratio a b := by
  unfold MetricsCollector.ratio
  split
  · next hb => exact div_nonneg (by exact_mod_cast ha) hb.le
  · exact le_rfl

/-- Shares of parts add up to one at most. -/
theorem MetricsCollector.ratio_add_le_one {a a' b : ℤ} (h : a + a' ≤ b) :
    MetricsCollector.ratio a b + MetricsCollector.ratio a' b ≤ 1 := by
  unfold MetricsCollector.ratio
  split
  · next hb =>
    rw [← add_div, div_le_one hb]
    exact_mod_cast h
  · norm_num

/-- Blocked and allowed requests are proportions of all. -/
def MetricsWindow.Proportional (w : MetricsWindow) : Prop :=
  0 ≤ w.blockRate ∧ 0 ≤ w.allowRate ∧ w.blockRate + w.allowRate ≤ 1

omit [DecidableEq κ] in
/-- The rates of an exact window are shares of its requests. -/
theorem proportional_exactWindow {intervalMs : ℚ} {w : ℕ} {past : List (MetricsSnapshot κ)}
    {snap : MetricsSnapshot κ} (hsums : ∀ s ∈ past ++ [snap], s.AddsUp)
    (hgrow : ∀ s ∈ past ++ [snap], ∀ x, s.total x ≤ snap.total x) :
    (exactWindow intervalMs w (past ++ [snap])).Proportional := by
  obtain ⟨base, hmem, hgrown⟩ := exists_grownBy_eq w past snap
  have hnow := hsums snap (List.mem_append_right past (List.mem_singleton_self snap))
  have hbounds : 0 ≤ grownBy w (fun s => s.totals.blocked) (past ++ [snap]) ∧
      0 ≤ grownBy w (fun s => s.totals.allowed) (past ++ [snap]) ∧
      grownBy w (fun s => s.totals.blocked) (past ++ [snap]) +
          grownBy w (fun s => s.totals.allowed) (past ++ [snap]) ≤
        grownBy w (fun s => s.totals.requests) (past ++ [snap]) := by
    rw [hgrown, hgrown, hgrown]
    have hrequests := hnow.requests
    cases base with
    | none =>
      simp only [Option.map_none, Option.getD_none]
      omega
    | some b =>
      have hb := hsums b (hmem b rfl)
      have hle := hgrow b (hmem b rfl)
      have hbrequests := hb.requests
      have hblocked := hnow.blocked
      have hbblocked := hb.blocked
      have hallowed : b.totals.allowed ≤ snap.totals.allowed := hle .allowed
      have hskipped : b.totals.skipped ≤ snap.totals.skipped := hle .skipped
      have hlisted : b.totals.allowlisted ≤ snap.totals.allowlisted := hle .allowlisted
      have hrate : b.blockReasons.rateLimit ≤ snap.blockReasons.rateLimit :=
        hle (.blocked .rateLimit)
      have hlist : b.blockReasons.blocklist ≤ snap.blockReasons.blocklist :=
        hle (.blocked .blocklist)
      have hpenalty : b.blockReasons.penalty ≤ snap.blockReasons.penalty :=
        hle (.blocked .penalty)
      have hmanager : b.blockReasons.keyManager ≤ snap.blockReasons.keyManager :=
        hle (.blocked .keyManager)
      have hdown : b.blockReasons.serviceUnavailable ≤ snap.blockReasons.serviceUnavailable :=
        hle (.blocked .serviceUnavailable)
      simp only [Option.map_some, Option.getD_some]
      omega
  exact ⟨MetricsCollector.ratio_nonneg hbounds.1, MetricsCollector.ratio_nonneg hbounds.2.1,
    MetricsCollector.ratio_add_le_one hbounds.2.2⟩

/-! ## Runs -/

/-- What a pipeline keeps, with all the snapshots it has published. -/
structure Published (intervalMs : ℚ) (w : ℕ) (hotKeyMax : ℕ+) (s : MetricsPipeline ρ κ)
    (snaps : List (MetricsSnapshot κ)) : Prop where
  collected : Collected intervalMs w s.collector snaps
  balanced : Balanced hotKeyMax s.engine.metrics
  addsUp : ∀ snap ∈ snaps, snap.AddsUp
  grown : ∀ snap ∈ snaps, ∀ x, snap.total x ≤ s.engine.metrics.total x

section Runs

variable {share : ℚ → ℕ → ℚ} {o : RateLimitOptions ρ σ κ} {hotKeyMax : ℕ+} {intervalMs : ℚ}
  {w : ℕ} {s : MetricsPipeline ρ κ} {snaps : List (MetricsSnapshot κ)}

/-- Between two ticks nothing is published and counters only grow. -/
theorem Published.step_silent (h : Published intervalMs w hotKeyMax s snaps)
    {i : PipelineEvent ρ σ κ} (hi : i.isReset = false)
    (hsilent : (s.step share o hotKeyMax i).2 = none) :
    Published intervalMs w hotKeyMax (s.step share o hotKeyMax i).1 snaps := by
  cases i with
  | segment event =>
    obtain ⟨-, -, moved, hmoved, -⟩ := s.engine.step_alike o hotKeyMax event hi rfl rfl
    refine ⟨h.collected, (h.balanced.step event).1, h.addsUp, fun snap hsnap x => ?_⟩
    have hnext : (s.step share o hotKeyMax (.segment event)).1.engine.metrics.total x =
        s.engine.metrics.total x + moved x := hmoved x
    rw [hnext]
    exact (h.grown snap hsnap x).trans (Nat.le_add_right _ _)
  | latency now startTime => exact ⟨h.collected, h.balanced, h.addsUp, h.grown⟩
  | storeLatency now startTime => exact ⟨h.collected, h.balanced, h.addsUp, h.grown⟩
  | tick => exact absurd hsilent (Option.some_ne_none _)
  | registered n => exact ⟨h.collected, h.balanced, h.addsUp, h.grown⟩

/-- A tick publishes an exact window with proportions for rates. -/
theorem Published.step_emit (h : Published intervalMs w hotKeyMax s snaps)
    {i : PipelineEvent ρ σ κ} {snap : MetricsSnapshot κ}
    (hemit : (s.step share o hotKeyMax i).2 = some snap) :
    (snap.window = exactWindow intervalMs w (snaps ++ [snap]) ∧ snap.window.Proportional) ∧
      Published intervalMs w hotKeyMax (s.step share o hotKeyMax i).1 (snaps ++ [snap]) := by
  cases i with
  | tick =>
    obtain rfl := Option.some.inj hemit
    obtain ⟨hwindow, hcollected⟩ := h.collected.tick share s.engine.metrics.snapshot.2
      (MetricsPipeline.samples s.rings)
    have htotal : ∀ x, (s.tick share).2.total x = s.engine.metrics.total x :=
      MetricsPipeline.total_tick share s
    have hsums : ∀ snap ∈ snaps ++ [(s.tick share).2], snap.AddsUp := by
      intro snap hsnap
      rcases List.mem_append.mp hsnap with hold | hnew
      · exact h.addsUp snap hold
      · obtain rfl := List.mem_singleton.mp hnew
        exact ⟨h.balanced.total, h.balanced.blocked⟩
    have hgrown : ∀ snap ∈ snaps ++ [(s.tick share).2], ∀ x,
        snap.total x ≤ s.engine.metrics.total x := by
      intro snap hsnap x
      rcases List.mem_append.mp hsnap with hold | hnew
      · exact h.grown snap hold x
      · obtain rfl := List.mem_singleton.mp hnew
        exact (htotal x).le
    refine ⟨⟨hwindow, ?_⟩, hcollected,
      ⟨h.balanced.total, h.balanced.blocked, (balanced_empty hotKeyMax).hotKeys⟩, hsums, hgrown⟩
    have hexact : (s.tick share).2.window =
        exactWindow intervalMs w (snaps ++ [(s.tick share).2]) :=
      hwindow
    rw [hexact]
    exact proportional_exactWindow hsums fun snap hsnap x =>
      (hgrown snap hsnap x).trans_eq (htotal x).symm
  | _ => exact absurd hemit.symm (Option.some_ne_none snap)

end Runs

/-- **Published windows are exact.**  When nobody resets the counters, the window of every snapshot
of every run speaks of exactly what was counted over the last six ticks, its rates are proportions,
and the history is the last six snapshots. -/
theorem published_windows (share : ℚ → ℕ → ℚ) (o : RateLimitOptions ρ σ κ) (hotKeyMax : ℕ+)
    (intervalMs : ℚ) (topKSize : ℤ) (buckets : List ℚ) (sampleCapacity : ℕ)
    {is : List (PipelineEvent ρ σ κ)} (his : ∀ i ∈ is, i.isReset = false) :
    let start : MetricsPipeline ρ κ := .start intervalMs topKSize buckets sampleCapacity
    let step := MetricsPipeline.step share o hotKeyMax
    let snaps := emitted step is start
    (∀ past snap rest, snaps = past ++ snap :: rest →
      snap.window = exactWindow intervalMs 6 (past ++ [snap]) ∧ snap.window.Proportional) ∧
    (final step is start).collector.history = recent 6 snaps ∧
    (final step is start).collector.latest = snaps.getLast? := by
  intro start step snaps
  have hstart : Published intervalMs 6 hotKeyMax start [] := by
    refine ⟨⟨rfl, rfl, rfl, rfl, rfl, rfl, rfl, rfl, rfl, rfl⟩, balanced_empty hotKeyMax, ?_, ?_⟩
    · exact fun snap hsnap => absurd hsnap List.not_mem_nil
    · exact fun snap hsnap => absurd hsnap List.not_mem_nil
  have hrun : Published intervalMs 6 hotKeyMax (final step is start) ([] ++ snaps) ∧
      ∀ past snap rest, snaps = past ++ snap :: rest →
        snap.window = exactWindow intervalMs 6 (([] ++ past) ++ [snap]) ∧
          snap.window.Proportional :=
    emitted_of_invariant (P := fun i : PipelineEvent ρ σ κ => i.isReset = false)
      (Q := fun past snap => snap.window = exactWindow intervalMs 6 (past ++ [snap]) ∧
        snap.window.Proportional)
      (fun i s past h hi hsilent => h.step_silent hi hsilent)
      (fun i s past snap h _ hemit => h.step_emit hemit) hstart his
  obtain ⟨hfinal, hall⟩ := hrun
  exact ⟨hall, hfinal.collected.history, hfinal.collected.latest⟩

/-- A limiter with one key on its blocklist, and a store that is never used up. -/
def blocksThirteen : RateLimitOptions Unit Unit ℕ where
  clock := fun _ => 0
  store :=
    { increment := fun _ _ s => (.ok (.ofUsage 1 2 1000), s)
      decrement := fun _ _ s => s }
  blocklist := [13]

/-- One request passes before the first tick, one is blocked before the second. -/
theorem published_windows_two_ticks :
    let start : MetricsPipeline Unit ℕ := .start 10000 20 [1, 5] 4
    let step := MetricsPipeline.step (fun p n => p / 100 * n) blocksThirteen 2
    let is : List (PipelineEvent Unit Unit ℕ) :=
      [.segment (.consume 7 () ()),
        .segment (.incremented 0 (.ok { result := .ofUsage 1 2 1000 }) ()), .tick,
        .segment (.consume 13 () ()), .tick]
    let snaps := emitted step is start
    (∀ past snap rest, snaps = past ++ snap :: rest →
      snap.window = exactWindow 10000 6 (past ++ [snap]) ∧ snap.window.Proportional) ∧
    (final step is start).collector.history = recent 6 snaps ∧
    (final step is start).collector.latest = snaps.getLast? :=
  published_windows (fun p n => p / 100 * n) blocksThirteen 2 10000 20 [1, 5] 4 (by decide)

end RatelimitFlex
