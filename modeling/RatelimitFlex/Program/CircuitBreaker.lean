import Mathlib.Tactic

/-!
# `CircuitBreaker`

`src/resilience/CircuitBreaker.ts`: the three-state breaker CLOSED → OPEN → HALF_OPEN →
CLOSED.  There is no timer: `canAttempt` compares the clock reading with the moment of
opening.  A method answers with the callback it fires.
-/

set_option autoImplicit false

namespace RatelimitFlex

/-- SOURCE: src/resilience/CircuitBreaker.ts:7-20 -/
structure CircuitBreakerOptions where
  failureThreshold : Option ℤ := none
  recoveryTimeMs : Option ℤ := none
  halfOpenMaxProbes : Option ℤ := none

/-- SOURCE: src/resilience/CircuitBreaker.ts:22 -/
inductive CircuitState where
  | closed
  | opened
  | halfOpen
  deriving DecidableEq

/-- SOURCE: src/resilience/CircuitBreaker.ts:14-19 -/
inductive CircuitCallback where
  | onOpen
  | onClose
  | onHalfOpen
  deriving DecidableEq

/-- SOURCE: src/resilience/CircuitBreaker.ts:36-53 -/
structure CircuitBreaker where
  failureThreshold : ℤ
  recoveryTimeMs : ℤ
  halfOpenMaxProbes : ℤ
  state : CircuitState := .closed
  consecutiveFailures : ℤ := 0
  openedAtMs : Option ℤ := none
  halfOpenInFlight : ℕ := 0
  deriving DecidableEq

namespace CircuitBreaker

/-- SOURCE: src/resilience/CircuitBreaker.ts:61-68 -/
def new (options : CircuitBreakerOptions) : CircuitBreaker where
  failureThreshold := options.failureThreshold.getD 3
  recoveryTimeMs := options.recoveryTimeMs.getD 5000
  halfOpenMaxProbes := options.halfOpenMaxProbes.getD 1

/-- SOURCE: src/resilience/CircuitBreaker.ts:107-113 -/
def grantHalfOpenProbe (cb : CircuitBreaker) : CircuitBreaker × Bool :=
  if cb.halfOpenMaxProbes ≤ cb.halfOpenInFlight then (cb, false)
  else ({ cb with halfOpenInFlight := cb.halfOpenInFlight + 1 }, true)

/-- SOURCE: src/resilience/CircuitBreaker.ts:81-105 -/
def canAttempt (now : ℤ) (cb : CircuitBreaker) :
    CircuitBreaker × Bool × Option CircuitCallback :=
  match cb.state with
  | .closed => (cb, true, none)
  | .opened =>
    match cb.openedAtMs with
    | none => (cb, false, none)
    | some openedAt =>
      if now < openedAt + cb.recoveryTimeMs then (cb, false, none)
      else
        let r := grantHalfOpenProbe { cb with state := .halfOpen, halfOpenInFlight := 0 }
        (r.1, r.2, some .onHalfOpen)
  | .halfOpen =>
    let r := cb.grantHalfOpenProbe
    (r.1, r.2, none)

/-- SOURCE: src/resilience/CircuitBreaker.ts:118-131 -/
def recordSuccess (cb : CircuitBreaker) : CircuitBreaker × Option CircuitCallback :=
  match cb.state with
  | .closed => ({ cb with consecutiveFailures := 0 }, none)
  | .opened => (cb, none)
  | .halfOpen =>
    ({ cb with
        state := .closed
        halfOpenInFlight := 0
        consecutiveFailures := 0
        openedAtMs := none }, some .onClose)

/-- SOURCE: src/resilience/CircuitBreaker.ts:136-155 -/
def recordFailure (now : ℤ) (cb : CircuitBreaker) : CircuitBreaker × Option CircuitCallback :=
  match cb.state with
  | .closed =>
    let cb := { cb with consecutiveFailures := cb.consecutiveFailures + 1 }
    if cb.failureThreshold ≤ cb.consecutiveFailures then
      ({ cb with state := .opened, openedAtMs := some now }, some .onOpen)
    else (cb, none)
  | .opened => (cb, none)
  | .halfOpen =>
    ({ cb with
        state := .opened
        halfOpenInFlight := 0
        openedAtMs := some now
        consecutiveFailures := cb.failureThreshold }, some .onOpen)

/-! ## What each method can do -/

/-- A call of `canAttempt` at `now` takes one of the half-open probe slots. -/
def takesProbe (now : ℤ) (cb : CircuitBreaker) : Bool :=
  match cb.state with
  | .closed => false
  | .opened =>
    match cb.openedAtMs with
    | none => false
    | some openedAt =>
      decide (openedAt + cb.recoveryTimeMs ≤ now) && decide (0 < cb.halfOpenMaxProbes)
  | .halfOpen => decide ((cb.halfOpenInFlight : ℤ) < cb.halfOpenMaxProbes)

/-- An open circuit knows since when. -/
def Wf (cb : CircuitBreaker) : Prop := cb.state = .opened → cb.openedAtMs ≠ none

/-- The recovery time of an open circuit has elapsed at `now`. -/
def RecoveryElapsed (now : ℤ) (cb : CircuitBreaker) : Prop :=
  ∀ openedAt, cb.openedAtMs = some openedAt → openedAt + cb.recoveryTimeMs ≤ now

/-- A new breaker is well formed. -/
theorem wf_new (options : CircuitBreakerOptions) : (new options).Wf :=
  fun h => nomatch h

/-- An attempt that takes a slot is granted, in HALF_OPEN, and the slot is counted. -/
theorem canAttempt_of_takesProbe {now : ℤ} {cb : CircuitBreaker} (h : cb.takesProbe now) :
    (cb.canAttempt now).2.1 = true ∧ (cb.canAttempt now).1.state = .halfOpen ∧
      0 < (cb.canAttempt now).1.halfOpenInFlight := by
  cases hs : cb.state with
  | closed => simp [takesProbe, hs] at h
  | opened =>
    cases ho : cb.openedAtMs with
    | none => simp [takesProbe, hs, ho] at h
    | some openedAt =>
      obtain ⟨hle, hmax⟩ : openedAt + cb.recoveryTimeMs ≤ now ∧ 0 < cb.halfOpenMaxProbes := by
        simpa [takesProbe, hs, ho] using h
      have hnot : ¬ now < openedAt + cb.recoveryTimeMs := by omega
      have hslot : ¬ cb.halfOpenMaxProbes ≤ 0 := by omega
      simp [canAttempt, hs, ho, hnot, grantHalfOpenProbe, hslot]
  | halfOpen =>
    have hlt : (cb.halfOpenInFlight : ℤ) < cb.halfOpenMaxProbes := by
      simpa [takesProbe, hs] using h
    have hslot : ¬ cb.halfOpenMaxProbes ≤ (cb.halfOpenInFlight : ℤ) := by omega
    simp [canAttempt, hs, grantHalfOpenProbe, hslot]

/-- Any other attempt leaves the breaker as it is, except that an open circuit may move to
HALF_OPEN without a slot taken. -/
theorem canAttempt_of_not_takesProbe {now : ℤ} {cb : CircuitBreaker}
    (h : cb.takesProbe now = false) :
    (cb.canAttempt now).1 = cb ∨ ((cb.canAttempt now).1.state = .halfOpen ∧
      (cb.canAttempt now).1.halfOpenInFlight = 0) := by
  cases hs : cb.state with
  | closed => exact Or.inl (by simp [canAttempt, hs])
  | opened =>
    cases ho : cb.openedAtMs with
    | none => exact Or.inl (by simp [canAttempt, hs, ho])
    | some openedAt =>
      by_cases hlt : now < openedAt + cb.recoveryTimeMs
      · exact Or.inl (by simp [canAttempt, hs, ho, hlt])
      · have hmax : cb.halfOpenMaxProbes ≤ 0 := by
          have : openedAt + cb.recoveryTimeMs ≤ now → cb.halfOpenMaxProbes ≤ 0 := by
            simpa [takesProbe, hs, ho] using h
          exact this (by omega)
        exact Or.inr (by simp [canAttempt, hs, ho, hlt, grantHalfOpenProbe, hmax])
  | halfOpen =>
    have hfull : cb.halfOpenMaxProbes ≤ (cb.halfOpenInFlight : ℤ) := by
      simpa [takesProbe, hs] using h
    exact Or.inl (by simp [canAttempt, hs, grantHalfOpenProbe, hfull])

/-- Asking keeps the number of probes allowed. -/
@[simp] theorem halfOpenMaxProbes_canAttempt (now : ℤ) (cb : CircuitBreaker) :
    (cb.canAttempt now).1.halfOpenMaxProbes = cb.halfOpenMaxProbes := by
  simp only [canAttempt, grantHalfOpenProbe]
  repeat' split
  all_goals rfl

/-- So does a success. -/
@[simp] theorem halfOpenMaxProbes_recordSuccess (cb : CircuitBreaker) :
    cb.recordSuccess.1.halfOpenMaxProbes = cb.halfOpenMaxProbes := by
  simp only [recordSuccess]
  split <;> rfl

/-- So does a failure. -/
@[simp] theorem halfOpenMaxProbes_recordFailure (now : ℤ) (cb : CircuitBreaker) :
    (cb.recordFailure now).1.halfOpenMaxProbes = cb.halfOpenMaxProbes := by
  simp only [recordFailure]
  repeat' split
  all_goals rfl

/-- Asking keeps the breaker well formed. -/
theorem Wf.canAttempt {cb : CircuitBreaker} (h : cb.Wf) (now : ℤ) : (cb.canAttempt now).1.Wf := by
  cases hp : cb.takesProbe now with
  | true =>
    intro hopen
    rw [(canAttempt_of_takesProbe hp).2.1] at hopen
    exact nomatch hopen
  | false =>
    rcases canAttempt_of_not_takesProbe hp with heq | ⟨hhalf, -⟩
    · rw [heq]
      exact h
    · intro hopen
      rw [hhalf] at hopen
      exact nomatch hopen

/-- So does a success. -/
theorem Wf.recordSuccess {cb : CircuitBreaker} (h : cb.Wf) : cb.recordSuccess.1.Wf := by
  intro hopen
  cases hs : cb.state with
  | closed => simp [CircuitBreaker.recordSuccess, hs] at hopen
  | opened => simpa [CircuitBreaker.recordSuccess, hs] using h hs
  | halfOpen => simp [CircuitBreaker.recordSuccess, hs] at hopen

/-- So does a failure. -/
theorem Wf.recordFailure {cb : CircuitBreaker} (h : cb.Wf) (now : ℤ) :
    (cb.recordFailure now).1.Wf := by
  intro hopen
  cases hs : cb.state with
  | closed =>
    by_cases ht : cb.failureThreshold ≤ cb.consecutiveFailures + 1
    · simp [CircuitBreaker.recordFailure, hs, ht]
    · simp [CircuitBreaker.recordFailure, hs, ht] at hopen
  | opened => simpa [CircuitBreaker.recordFailure, hs] using h hs
  | halfOpen => simp [CircuitBreaker.recordFailure, hs]

/-- Recording an outcome ends HALF_OPEN. -/
theorem recordSuccess_state_ne (cb : CircuitBreaker) :
    cb.recordSuccess.1.state ≠ .halfOpen := by
  cases hs : cb.state <;> simp [recordSuccess, hs]

/-- After a failure the breaker is not half open. -/
theorem recordFailure_state_ne (now : ℤ) (cb : CircuitBreaker) :
    (cb.recordFailure now).1.state ≠ .halfOpen := by
  cases hs : cb.state with
  | closed =>
    by_cases ht : cb.failureThreshold ≤ cb.consecutiveFailures + 1 <;>
      simp [recordFailure, hs, ht]
  | opened => simp [recordFailure, hs]
  | halfOpen => simp [recordFailure, hs]

/-- With a slot to give and none taken, an attempt after the recovery time is granted. -/
theorem canAttempt_granted {now : ℤ} {cb : CircuitBreaker} (hwf : cb.Wf)
    (hmax : 1 ≤ cb.halfOpenMaxProbes) (hfree : cb.state = .halfOpen → cb.halfOpenInFlight = 0)
    (hrec : cb.RecoveryElapsed now) : (cb.canAttempt now).2.1 = true := by
  cases hs : cb.state with
  | closed => simp [canAttempt, hs]
  | opened =>
    obtain ⟨openedAt, ho⟩ := Option.ne_none_iff_exists'.mp (hwf hs)
    have hle := hrec openedAt ho
    exact (canAttempt_of_takesProbe (by simp [takesProbe, hs, ho]; omega)).1
  | halfOpen =>
    have hzero := hfree hs
    exact (canAttempt_of_takesProbe (by simp [takesProbe, hs, hzero]; omega)).1

end CircuitBreaker

end RatelimitFlex
