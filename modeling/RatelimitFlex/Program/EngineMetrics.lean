import RatelimitFlex.Library.TimedRun
import RatelimitFlex.Program.RateLimitEngine

/-!
# The counters of the engine

`src/metrics/counters.ts` and the recording functions of
`src/strategies/rate-limit-engine.ts`: which counters each exit of `consumeWithKey` bumps.
Between its awaits a consume runs alone, so a run is a list of segments: the policy checks,
the arrival of the increments' result, the end of the callbacks, each for any of the consumes
in flight, with snapshots and resets in between.  What the stores answer and what the callbacks
throw is up to the environment.  The latency rings are left out.
-/

set_option autoImplicit false

namespace RatelimitFlex

open Library

/-! ## Counters -/

/-- SOURCE: src/metrics/counters.ts:9-14 -/
structure HotKeyIntervalCounts where
  hits : ℕ
  blocked : ℕ
  deriving DecidableEq

/-- SOURCE: src/metrics/counters.ts:60-90 -/
structure MetricsCounters (κ : Type) where
  totalRequests : ℕ := 0
  allowedRequests : ℕ := 0
  blockedRequests : ℕ := 0
  blockedByRateLimit : ℕ := 0
  blockedByBlocklist : ℕ := 0
  blockedByPenalty : ℕ := 0
  blockedByKeyManager : ℕ := 0
  blockedByServiceUnavailable : ℕ := 0
  skippedRequests : ℕ := 0
  allowlistedRequests : ℕ := 0
  hotKeys : InsertionMap κ HotKeyIntervalCounts := ∅

/-- The reasons of a policy block. -/
inductive PolicyBlockReason where
  | blocklist
  | penalty
  | keyManager
  deriving DecidableEq

namespace MetricsCounters

variable {κ : Type} [DecidableEq κ]

/-- The key with the fewest hits so far, after one more entry. -/
def lesserHit (least : Option (κ × ℕ)) (e : Sigma fun _ : κ => HotKeyIntervalCounts) :
    Option (κ × ℕ) :=
  match least with
  | none => some (e.1, e.2.hits)
  | some (minKey, minVal) =>
    if e.2.hits < minVal then some (e.1, e.2.hits) else some (minKey, minVal)

/-- The first key with the fewest hits.
SOURCE: src/metrics/counters.ts:127-134 -/
def leastHit (hotKeys : InsertionMap κ HotKeyIntervalCounts) : Option κ :=
  (hotKeys.entries.foldl lesserHit none).map Prod.fst

/-- SOURCE: src/metrics/counters.ts:116-137 -/
def recordKey (hotKeyMax : ℕ+) (key : κ) (m : MetricsCounters κ) : MetricsCounters κ :=
  match m.hotKeys.lookup key with
  | some existing =>
    { m with hotKeys := m.hotKeys.set key { existing with hits := existing.hits + 1 } }
  | none =>
    if m.hotKeys.size < hotKeyMax then
      { m with hotKeys := m.hotKeys.set key { hits := 1, blocked := 0 } }
    else
      let hotKeys : InsertionMap κ HotKeyIntervalCounts := match leastHit m.hotKeys with
        | some minKey => m.hotKeys.erase minKey
        | none => m.hotKeys
      { m with hotKeys := hotKeys.set key { hits := 1, blocked := 0 } }

/-- SOURCE: src/metrics/counters.ts:143-146 -/
def recordKeyBlocked (key : κ) (m : MetricsCounters κ) : MetricsCounters κ :=
  match m.hotKeys.lookup key with
  | some e => { m with hotKeys := m.hotKeys.set key { e with blocked := e.blocked + 1 } }
  | none => m

/-- The view a snapshot returns is the counters as they are; the hot keys are drained.
SOURCE: src/metrics/counters.ts:148-185 -/
def snapshot (m : MetricsCounters κ) : MetricsCounters κ × MetricsCounters κ :=
  ({ m with hotKeys := ∅ }, m)

/-- SOURCE: src/metrics/counters.ts:187-203 -/
def reset (_ : MetricsCounters κ) : MetricsCounters κ := {}

/-! ## Recording -/

/-- SOURCE: src/strategies/rate-limit-engine.ts:525-530 -/
def recordMetricsSkip (hotKeyMax : ℕ+) (key : κ) (m : MetricsCounters κ) : MetricsCounters κ :=
  { m with
    totalRequests := m.totalRequests + 1
    skippedRequests := m.skippedRequests + 1 }.recordKey hotKeyMax key

/-- SOURCE: src/strategies/rate-limit-engine.ts:532-537 -/
def recordMetricsAllowlist (hotKeyMax : ℕ+) (key : κ) (m : MetricsCounters κ) :
    MetricsCounters κ :=
  { m with
    totalRequests := m.totalRequests + 1
    allowlistedRequests := m.allowlistedRequests + 1 }.recordKey hotKeyMax key

/-- SOURCE: src/strategies/rate-limit-engine.ts:539-557 -/
def recordMetricsPolicyBlock (hotKeyMax : ℕ+) (key : κ) (reason : PolicyBlockReason)
    (m : MetricsCounters κ) : MetricsCounters κ :=
  let m := { m with
    totalRequests := m.totalRequests + 1
    blockedRequests := m.blockedRequests + 1 }
  let m := match reason with
    | .blocklist => { m with blockedByBlocklist := m.blockedByBlocklist + 1 }
    | .keyManager => { m with blockedByKeyManager := m.blockedByKeyManager + 1 }
    | .penalty => { m with blockedByPenalty := m.blockedByPenalty + 1 }
  (m.recordKey hotKeyMax key).recordKeyBlocked key

/-- SOURCE: src/strategies/rate-limit-engine.ts:559-588 -/
def recordMetricsAfterConsume (hotKeyMax : ℕ+) (key : κ) (out : RateLimitConsumeResult)
    (m : MetricsCounters κ) : MetricsCounters κ :=
  let m := { m with totalRequests := m.totalRequests + 1 }.recordKey hotKeyMax key
  if out.isBlocked then
    let m := { m with blockedRequests := m.blockedRequests + 1 }.recordKeyBlocked key
    match out.blockReason with
    | some .rateLimit => { m with blockedByRateLimit := m.blockedByRateLimit + 1 }
    | some .blocklist => { m with blockedByBlocklist := m.blockedByBlocklist + 1 }
    | some .penalty => { m with blockedByPenalty := m.blockedByPenalty + 1 }
    | some .keyManager => { m with blockedByKeyManager := m.blockedByKeyManager + 1 }
    | some .serviceUnavailable =>
      { m with blockedByServiceUnavailable := m.blockedByServiceUnavailable + 1 }
    | none =>
      if out.storeUnavailable then
        { m with blockedByServiceUnavailable := m.blockedByServiceUnavailable + 1 }
      else m
  else { m with allowedRequests := m.allowedRequests + 1 }

end MetricsCounters

/-! ## The exits of a consume -/

/-- The recording call at the exit a consume takes. -/
inductive MetricsExit where
  | skip
  | allowlist
  | policyBlock (reason : PolicyBlockReason)
  | afterConsume (out : RateLimitConsumeResult)

def MetricsExit.record {κ : Type} [DecidableEq κ] (hotKeyMax : ℕ+) (key : κ) :
    MetricsExit → MetricsCounters κ → MetricsCounters κ
  | .skip => MetricsCounters.recordMetricsSkip hotKeyMax key
  | .allowlist => MetricsCounters.recordMetricsAllowlist hotKeyMax key
  | .policyBlock reason => MetricsCounters.recordMetricsPolicyBlock hotKeyMax key reason
  | .afterConsume out => MetricsCounters.recordMetricsAfterConsume hotKeyMax key out

section Exits

variable {ρ σ κ : Type} [DecidableEq κ] (o : RateLimitOptions ρ σ κ)

/-- The policy checks with the recording at each of their exits.
SOURCE: src/strategies/rate-limit-engine.ts:263-299 -/
def policyExit (key : κ) (req : ρ) (w : World σ κ) :
    Option (MetricsExit × RateLimitConsumeResult) × World σ κ :=
  let w := { w with engine := maybeSweepExpiredPenaltyEntries (o.clock w.stores) w.engine }
  if o.skip req then (some (.skip, buildPassthroughResult o req w.stores), w)
  else if key ∈ o.allowlist then (some (.allowlist, buildPassthroughResult o req w.stores), w)
  else if key ∈ o.blocklist then
    (some (.policyBlock .blocklist, buildPolicyBlockResult o req .blocklist none w.stores), w)
  else
    let (managed, w) : Option (MetricsExit × RateLimitConsumeResult) × World σ κ :=
      match o.keyManager with
      | none => (none, w)
      | some km =>
        let (blocked, s) := km.isBlocked key w.stores
        if blocked then
          let (out, s) := buildKeyManagerBlockResult o km key req s
          (some (.policyBlock .keyManager, out), { w with stores := s })
        else (none, { w with stores := s })
    match managed with
    | some out => (some out, w)
    | none =>
      let (penaltyActive, engine) := isPenaltyActive (o.clock w.stores) key w.engine
      let w := { w with engine }
      if penaltyActive then
        (some (.policyBlock .penalty,
          buildPolicyBlockResult o req .penalty (engine.penaltyUntil.lookup key) w.stores), w)
      else (none, w)

/-- The exits belong to the policy checks of the engine. -/
theorem policyExit_eq_policyResult (key : κ) (req : ρ) (w : World σ κ) :
    policyResult o key req w =
      ((policyExit o key req w).1.map Prod.snd, (policyExit o key req w).2) := by
  unfold policyResult policyExit
  dsimp only
  split
  · rfl
  · split
    · rfl
    · split
      · rfl
      · cases o.keyManager with
        | none =>
          dsimp only
          split <;> rfl
        | some km =>
          dsimp only
          by_cases hb : (km.isBlocked key w.stores).1 = true
          · simp only [if_pos hb, Option.map_some]
          · simp only [if_neg hb]
            split <;> rfl

/-- The increments ended in a block that the callbacks hear of before the consume returns. -/
def awaitsCallbacks (g : IncrementOutcome) : Bool := g.result.isBlocked && !g.result.storeUnavailable

/-- What the consume returns once nothing is left to wait for.
SOURCE: src/strategies/rate-limit-engine.ts:351-368, 382-393 -/
def consumeAnswer (g : IncrementOutcome) : RateLimitConsumeResult :=
  if g.result.isBlocked && o.draft && !g.result.storeUnavailable then draftOut g
  else consumeResult g

/-- A consume that does not throw returns this answer. -/
theorem settle_answer {key : κ} {req : ρ} {g : IncrementOutcome} {w : World σ κ}
    {out : RateLimitConsumeResult} (h : (settle o key req g w).1 = .ok out) :
    out = consumeAnswer o g := by
  unfold settle at h
  unfold consumeAnswer
  split at h
  · next hdraft =>
    rw [if_pos hdraft]
    split at h
    · cases h
    · dsimp only at h
      split at h
      · cases h
      · split at h
        · cases h
        · exact (Except.ok.inj h).symm
  · next hdraft =>
    rw [if_neg hdraft]
    generalize recordViolation o (o.clock w.stores) key w.engine = recorded at h
    split at h
    · dsimp only at h
      split at h
      · cases h
      · split at h
        · cases h
        · exact (Except.ok.inj h).symm
    · exact (Except.ok.inj h).symm

end Exits

/-! ## Interleaved consumes -/

/-- A consume that waits: for its increments, or for its callbacks. -/
structure PendingConsume (ρ κ : Type) where
  key : κ
  req : ρ
  incremented : Option IncrementOutcome := none

/-- An engine with its counters and its consumes in flight. -/
structure MeteredEngine (ρ κ : Type) where
  engine : EngineState κ := {}
  metrics : MetricsCounters κ := {}
  pending : List (PendingConsume ρ κ) := []

/-- A segment of a consume, `n` being its place among those in flight, or a call on the
counters.  `stores` is what the segment finds in the stores. -/
inductive MeteredEvent (ρ σ κ : Type) where
  | consume (key : κ) (req : ρ) (stores : σ)
  | incremented (n : ℕ) (outcome : Except StoreError IncrementOutcome) (stores : σ)
  | calledBack (n : ℕ) (outcome : Except StoreError Unit)
  | snapshot
  | reset

namespace MeteredEngine

variable {ρ σ κ : Type} [DecidableEq κ] (o : RateLimitOptions ρ σ κ) (hotKeyMax : ℕ+)

/-- A consume leaves at this exit. -/
def leave (n : ℕ) (key : κ) (exit : MetricsExit) (s : MeteredEngine ρ κ) : MeteredEngine ρ κ :=
  { s with
    metrics := exit.record hotKeyMax key s.metrics
    pending := s.pending.eraseIdx n }

/-- One segment; the output is a snapshot that was taken.  A consume that throws records
nothing.
SOURCE: src/strategies/rate-limit-engine.ts:263-394 -/
def step (i : MeteredEvent ρ σ κ) (s : MeteredEngine ρ κ) :
    MeteredEngine ρ κ × Option (MetricsCounters κ) :=
  match i with
  | .consume key req stores =>
    match policyExit o key req ⟨s.engine, stores⟩ with
    | (some (exit, _), w) =>
      ({ s with engine := w.engine, metrics := exit.record hotKeyMax key s.metrics }, none)
    | (none, w) => ({ s with engine := w.engine, pending := s.pending ++ [{ key, req }] }, none)
  | .incremented n outcome stores =>
    match s.pending[n]? with
    | some ⟨key, req, none⟩ =>
      match outcome with
      | .error _ => ({ s with pending := s.pending.eraseIdx n }, none)
      | .ok g =>
        if awaitsCallbacks g then
          let engine := if o.draft then s.engine
            else recordViolation o (o.clock stores) key s.engine
          ({ s with engine, pending := s.pending.set n ⟨key, req, some g⟩ }, none)
        else (s.leave hotKeyMax n key (.afterConsume (consumeAnswer o g)), none)
    | _ => (s, none)
  | .calledBack n outcome =>
    match s.pending[n]? with
    | some ⟨key, _, some g⟩ =>
      match outcome with
      | .error _ => ({ s with pending := s.pending.eraseIdx n }, none)
      | .ok _ => (s.leave hotKeyMax n key (.afterConsume (consumeAnswer o g)), none)
    | _ => (s, none)
  | .snapshot =>
    let (metrics, snap) := s.metrics.snapshot
    ({ s with metrics }, some snap)
  | .reset => ({ s with metrics := s.metrics.reset }, none)

end MeteredEngine

end RatelimitFlex
