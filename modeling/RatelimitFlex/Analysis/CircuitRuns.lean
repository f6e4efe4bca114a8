import RatelimitFlex.Library.TimedRun
import RatelimitFlex.Program.CircuitBreaker
import RatelimitFlex.Program.MemoryStore

/-!
# Runs of the circuit breaker

Records are not matched to grants: a late success or failure finds the breaker in any state.
What is promised is said of the trace of a run, the list of its calls with the states before
and after: how many failures it shows since the last success or since the circuit closed
(`failuresSince`), when the circuit opened (`openedAt`), and how many attempts were granted in
this stay in HALF_OPEN (`stayGrants`).  `Tracks` couples them to the breaker's own counters.
-/

set_option autoImplicit false

namespace RatelimitFlex

open Library

/-- A method that drives the breaker. -/
inductive CircuitCall where
  | canAttempt
  | recordSuccess
  | recordFailure
  deriving DecidableEq

/-- One call in a trace. -/
structure CircuitStep where
  call : CircuitCall
  time : ℤ
  before : CircuitState
  after : CircuitState
  granted : Bool
  deriving DecidableEq

/-! ## The trace -/

/-- The failures recorded in CLOSED since the last success, or since the circuit closed. -/
def failuresSince (trace : List CircuitStep) : ℕ :=
  (trace.reverse.takeWhile fun s =>
    decide (s.before = .closed) && decide (s.call ≠ .recordSuccess)).countP fun s =>
      decide (s.call = .recordFailure)

/-- When the circuit last went to OPEN. -/
def openedAt (trace : List CircuitStep) : Option ℤ :=
  (trace.reverse.find? fun s =>
    decide (s.before ≠ .opened) && decide (s.after = .opened)).map CircuitStep.time

/-- The attempts granted since the circuit was last out of HALF_OPEN. -/
def stayGrants (trace : List CircuitStep) : ℕ :=
  (trace.reverse.takeWhile fun s => decide (s.after = .halfOpen)).countP CircuitStep.granted

section Trace

variable (trace : List CircuitStep) (x : CircuitStep)

/-- The failures of a run and of one call more. -/
theorem failuresSince_append : failuresSince (trace ++ [x]) =
    if x.before = .closed ∧ x.call ≠ .recordSuccess then
      failuresSince trace + (if x.call = .recordFailure then 1 else 0)
    else 0 := by
  simp only [failuresSince, List.reverse_append, List.reverse_singleton, List.singleton_append,
    List.takeWhile_cons, Bool.and_eq_true, decide_eq_true_eq]
  split
  · rw [List.countP_cons]
    simp only [decide_eq_true_eq]
  · rfl

/-- When the breaker opened last. -/
theorem openedAt_append : openedAt (trace ++ [x]) =
    if x.before ≠ .opened ∧ x.after = .opened then some x.time else openedAt trace := by
  simp only [openedAt, List.reverse_append, List.reverse_singleton, List.singleton_append,
    List.find?_cons]
  by_cases h : x.before ≠ .opened ∧ x.after = .opened
  · simp [h.1, h.2]
  · have hfalse : (decide (x.before ≠ .opened) && decide (x.after = .opened)) = false := by
      rw [Bool.and_eq_false_iff, decide_eq_false_iff_not, decide_eq_false_iff_not]
      exact not_and_or.mp h
    rw [if_neg h, hfalse]

/-- The probes granted in the half-open state it is in. -/
theorem stayGrants_append : stayGrants (trace ++ [x]) =
    if x.after = .halfOpen then stayGrants trace + (if x.granted then 1 else 0) else 0 := by
  simp only [stayGrants, List.reverse_append, List.reverse_singleton, List.singleton_append,
    List.takeWhile_cons, decide_eq_true_eq]
  split
  · rw [List.countP_cons]
  · rfl

end Trace

namespace CircuitBreaker

/-- One call. -/
def step (i : Timed CircuitCall) (cb : CircuitBreaker) : CircuitBreaker × CircuitStep :=
  let r : CircuitBreaker × Bool := match i.op with
    | .canAttempt => ((cb.canAttempt i.time).1, (cb.canAttempt i.time).2.1)
    | .recordSuccess => (cb.recordSuccess.1, false)
    | .recordFailure => ((cb.recordFailure i.time).1, false)
  (r.1, ⟨i.op, i.time, cb.state, r.1.state, r.2⟩)

/-- What a call at `now` can do: the breaker it leaves, and whether it grants an attempt. -/
inductive Move (now : ℤ) (cb : CircuitBreaker) : CircuitCall → CircuitBreaker → Bool → Prop
  | pass (hs : cb.state = .closed) : Move now cb .canAttempt cb true
  | refuse (hs : cb.state ≠ .closed) : Move now cb .canAttempt cb false
  | halfOpen (hs : cb.state = .opened) (a : ℤ) (ha : cb.openedAtMs = some a)
      (hle : a + cb.recoveryTimeMs ≤ now) (hmax : 0 < cb.halfOpenMaxProbes) :
      Move now cb .canAttempt { cb with state := .halfOpen, halfOpenInFlight := 1 } true
  | halfOpenFull (hs : cb.state = .opened) (hmax : cb.halfOpenMaxProbes ≤ 0) :
      Move now cb .canAttempt { cb with state := .halfOpen, halfOpenInFlight := 0 } false
  | probe (hs : cb.state = .halfOpen) (hlt : (cb.halfOpenInFlight : ℤ) < cb.halfOpenMaxProbes) :
      Move now cb .canAttempt { cb with halfOpenInFlight := cb.halfOpenInFlight + 1 } true
  | succeed (hs : cb.state = .closed) :
      Move now cb .recordSuccess { cb with consecutiveFailures := 0 } false
  | close (hs : cb.state = .halfOpen) :
      Move now cb .recordSuccess
        { cb with
            state := .closed
            halfOpenInFlight := 0
            consecutiveFailures := 0
            openedAtMs := none } false
  | fail (hs : cb.state = .closed) (hlt : cb.consecutiveFailures + 1 < cb.failureThreshold) :
      Move now cb .recordFailure
        { cb with consecutiveFailures := cb.consecutiveFailures + 1 } false
  | trip (hs : cb.state = .closed) (hle : cb.failureThreshold ≤ cb.consecutiveFailures + 1) :
      Move now cb .recordFailure
        { cb with
            consecutiveFailures := cb.consecutiveFailures + 1
            state := .opened
            openedAtMs := some now } false
  | reopen (hs : cb.state = .halfOpen) :
      Move now cb .recordFailure
        { cb with
            state := .opened
            halfOpenInFlight := 0
            openedAtMs := some now
            consecutiveFailures := cb.failureThreshold } false
  | late (call : CircuitCall) (hcall : call ≠ .canAttempt) (hs : cb.state = .opened) :
      Move now cb call cb false

/-- Asking is a move of the breaker. -/
theorem move_canAttempt (now : ℤ) (cb : CircuitBreaker) :
    Move now cb .canAttempt (cb.canAttempt now).1 (cb.canAttempt now).2.1 := by
  obtain ⟨failureThreshold, recoveryTimeMs, halfOpenMaxProbes, state, failures, openedAtMs,
    inFlight⟩ := cb
  cases state with
  | closed => exact .pass rfl
  | opened =>
    cases openedAtMs with
    | none => exact .refuse fun hs => CircuitState.noConfusion hs
    | some a =>
      simp only [canAttempt, grantHalfOpenProbe]
      by_cases hlt : now < a + recoveryTimeMs
      · rw [if_pos hlt]
        exact .refuse fun hs => CircuitState.noConfusion hs
      · rw [if_neg hlt]
        by_cases hmax : halfOpenMaxProbes ≤ 0
        · simp only [Nat.cast_zero, if_pos hmax]
          exact .halfOpenFull rfl hmax
        · simp only [Nat.cast_zero, if_neg hmax]
          exact .halfOpen rfl a rfl (not_lt.mp hlt) (not_le.mp hmax)
  | halfOpen =>
    simp only [canAttempt, grantHalfOpenProbe]
    by_cases hmax : halfOpenMaxProbes ≤ (inFlight : ℤ)
    · rw [if_pos hmax]
      exact .refuse fun hs => CircuitState.noConfusion hs
    · rw [if_neg hmax]
      exact .probe rfl (not_le.mp hmax)

/-- So is a success. -/
theorem move_recordSuccess (now : ℤ) (cb : CircuitBreaker) :
    Move now cb .recordSuccess cb.recordSuccess.1 false := by
  cases hs : cb.state with
  | closed =>
    simp only [recordSuccess, hs]
    exact hs ▸ .succeed hs
  | opened =>
    simp only [recordSuccess, hs]
    exact .late _ (by decide) hs
  | halfOpen =>
    simp only [recordSuccess, hs]
    exact .close hs

/-- So is a failure. -/
theorem move_recordFailure (now : ℤ) (cb : CircuitBreaker) :
    Move now cb .recordFailure (cb.recordFailure now).1 false := by
  cases hs : cb.state with
  | closed =>
    simp only [recordFailure, hs]
    split
    · next hle => exact .trip hs hle
    · next hlt => exact hs ▸ .fail hs (not_le.mp hlt)
  | opened =>
    simp only [recordFailure, hs]
    exact .late _ (by decide) hs
  | halfOpen =>
    simp only [recordFailure, hs]
    exact .reopen hs

/-- **Every call is such a move.** -/
theorem move_step (i : Timed CircuitCall) (cb : CircuitBreaker) :
    Move i.time cb i.op (step i cb).1 (step i cb).2.granted := by
  obtain ⟨now, call⟩ := i
  cases call with
  | canAttempt => exact move_canAttempt now cb
  | recordSuccess => exact move_recordSuccess now cb
  | recordFailure => exact move_recordFailure now cb

/-- The breaker's counters are those of the trace. -/
structure Tracks (t : ℤ) (trace : List CircuitStep) (cb : CircuitBreaker) : Prop where
  closed : cb.state = .closed → cb.consecutiveFailures = failuresSince trace ∧
    cb.consecutiveFailures < cb.failureThreshold
  opened : cb.state = .opened → ∃ a, cb.openedAtMs = some a ∧ openedAt trace = some a ∧ a ≤ t
  halfOpen : cb.state = .halfOpen → cb.halfOpenInFlight = stayGrants trace ∧
    (cb.halfOpenInFlight : ℤ) ≤ cb.halfOpenMaxProbes
  away : cb.state ≠ .halfOpen → stayGrants trace = 0

section Invariant

variable {t now : ℤ} {trace : List CircuitStep} {cb cb' : CircuitBreaker} {call : CircuitCall}
  {granted : Bool}

/-- A move keeps the options. -/
theorem Move.options (h : Move now cb call cb' granted) :
    cb'.failureThreshold = cb.failureThreshold ∧ cb'.recoveryTimeMs = cb.recoveryTimeMs ∧
      cb'.halfOpenMaxProbes = cb.halfOpenMaxProbes := by
  cases h <;> exact ⟨rfl, rfl, rfl⟩

/-- In CLOSED the failures are counted, until one too many. -/
theorem Tracks.closed_move (h : Tracks t trace cb) (hF : 1 ≤ cb.failureThreshold)
    (hm : Move now cb call cb' granted) (hc : cb'.state = .closed) :
    cb'.consecutiveFailures =
        failuresSince (trace ++ [⟨call, now, cb.state, cb'.state, granted⟩]) ∧
      cb'.consecutiveFailures < cb'.failureThreshold := by
  rw [failuresSince_append]
  cases hm with
  | pass hs => simpa [hs] using h.closed hs
  | refuse hs => exact absurd hc hs
  | halfOpen hs a ha hle hmax => exact CircuitState.noConfusion hc
  | halfOpenFull hs hmax => exact CircuitState.noConfusion hc
  | probe hs hlt => exact CircuitState.noConfusion (hs.symm.trans hc)
  | succeed hs => simp only [hs]; simp; omega
  | close hs => simp only [hs]; simp; omega
  | fail hs hlt =>
    obtain ⟨hcount, -⟩ := h.closed hs
    simp only [hs]
    simp [hcount]
    omega
  | trip hs hle => exact CircuitState.noConfusion hc
  | reopen hs => exact CircuitState.noConfusion hc
  | late call hcall hs => exact CircuitState.noConfusion (hs.symm.trans hc)

/-- In OPEN the moment of opening is on record. -/
theorem Tracks.opened_move (h : Tracks t trace cb) (ht : t ≤ now)
    (hm : Move now cb call cb' granted) (hc : cb'.state = .opened) :
    ∃ a, cb'.openedAtMs = some a ∧
      openedAt (trace ++ [⟨call, now, cb.state, cb'.state, granted⟩]) = some a ∧ a ≤ now := by
  have hstays : cb.state = .opened → ∃ a, cb.openedAtMs = some a ∧
      openedAt (trace ++ [⟨call, now, cb.state, .opened, granted⟩]) = some a ∧ a ≤ now := by
    intro hs
    obtain ⟨a, ha, htrace, hat⟩ := h.opened hs
    refine ⟨a, ha, ?_, hat.trans ht⟩
    rw [openedAt_append, if_neg (fun hnew => hnew.1 hs)]
    exact htrace
  rw [hc]
  cases hm with
  | pass hs => exact CircuitState.noConfusion (hs.symm.trans hc)
  | refuse hs => exact hstays hc
  | halfOpen hs a ha hle hmax => exact CircuitState.noConfusion hc
  | halfOpenFull hs hmax => exact CircuitState.noConfusion hc
  | probe hs hlt => exact CircuitState.noConfusion (hs.symm.trans hc)
  | succeed hs => exact CircuitState.noConfusion (hs.symm.trans hc)
  | close hs => exact CircuitState.noConfusion hc
  | fail hs hlt => exact CircuitState.noConfusion (hs.symm.trans hc)
  | trip hs hle =>
    refine ⟨now, rfl, ?_, le_rfl⟩
    rw [openedAt_append, if_pos ⟨fun ho => CircuitState.noConfusion (hs.symm.trans ho), rfl⟩]
  | reopen hs =>
    refine ⟨now, rfl, ?_, le_rfl⟩
    rw [openedAt_append, if_pos ⟨fun ho => CircuitState.noConfusion (hs.symm.trans ho), rfl⟩]
  | late call hcall hs => exact hstays hs

/-- In HALF_OPEN the grants of the stay are counted. -/
theorem Tracks.halfOpen_move (h : Tracks t trace cb) (hP : 0 ≤ cb.halfOpenMaxProbes)
    (hm : Move now cb call cb' granted) (hc : cb'.state = .halfOpen) :
    cb'.halfOpenInFlight = stayGrants (trace ++ [⟨call, now, cb.state, cb'.state, granted⟩]) ∧
      (cb'.halfOpenInFlight : ℤ) ≤ cb'.halfOpenMaxProbes := by
  rw [stayGrants_append, if_pos hc]
  cases hm with
  | pass hs => exact CircuitState.noConfusion (hs.symm.trans hc)
  | refuse hs => simpa using h.halfOpen hc
  | halfOpen hs a ha hle hmax =>
    have hzero := h.away (by rw [hs]; decide)
    simp only [hzero]
    refine ⟨rfl, ?_⟩
    rw [Nat.cast_one]
    omega
  | halfOpenFull hs hmax =>
    have hzero := h.away (by rw [hs]; decide)
    simp only [hzero]
    exact ⟨rfl, hP⟩
  | probe hs hlt =>
    obtain ⟨hcount, -⟩ := h.halfOpen hs
    simp only [hcount]
    exact ⟨rfl, by rw [← hcount]; omega⟩
  | succeed hs => exact CircuitState.noConfusion (hs.symm.trans hc)
  | close hs => exact CircuitState.noConfusion hc
  | fail hs hlt => exact CircuitState.noConfusion (hs.symm.trans hc)
  | trip hs hle => exact CircuitState.noConfusion hc
  | reopen hs => exact CircuitState.noConfusion hc
  | late call hcall hs => exact CircuitState.noConfusion (hs.symm.trans hc)

/-- **A move keeps the counters those of the trace.** -/
theorem Tracks.move (h : Tracks t trace cb) (hF : 1 ≤ cb.failureThreshold)
    (hP : 0 ≤ cb.halfOpenMaxProbes) (ht : t ≤ now) (hm : Move now cb call cb' granted) :
    Tracks now (trace ++ [⟨call, now, cb.state, cb'.state, granted⟩]) cb' where
  closed := h.closed_move hF hm
  opened := h.opened_move ht hm
  halfOpen := h.halfOpen_move hP hm
  away hc := by rw [stayGrants_append, if_neg hc]

/-- **When the circuit opens.** -/
theorem Tracks.opens_iff (h : Tracks t trace cb) (hm : Move now cb call cb' granted) :
    (cb.state = .closed ∧ cb'.state = .opened) ↔
      cb.state = .closed ∧ call = .recordFailure ∧
        (failuresSince (trace ++ [⟨call, now, cb.state, cb'.state, granted⟩]) : ℤ) =
          cb.failureThreshold := by
  rw [failuresSince_append]
  refine and_congr_right fun hs => ?_
  obtain ⟨hcount, hlt⟩ := h.closed hs
  cases hm with
  | pass _ => simp [hs]
  | refuse hne => exact absurd hs hne
  | halfOpen hs' a ha hle hmax => exact CircuitState.noConfusion (hs.symm.trans hs')
  | halfOpenFull hs' hmax => exact CircuitState.noConfusion (hs.symm.trans hs')
  | probe hs' hlt' => exact CircuitState.noConfusion (hs.symm.trans hs')
  | succeed _ => simp [hs]
  | close hs' => exact CircuitState.noConfusion (hs.symm.trans hs')
  | fail _ hlt' =>
    simp only [hs]
    simp
    omega
  | trip _ hle =>
    simp only [hs]
    simp
    omega
  | reopen hs' => exact CircuitState.noConfusion (hs.symm.trans hs')
  | late call hcall hs' => exact CircuitState.noConfusion (hs.symm.trans hs')

/-- **An open circuit grants nothing before it has recovered.** -/
theorem Tracks.granted_opened (h : Tracks t trace cb) (ht : t ≤ now)
    (hm : Move now cb call cb' granted) (hs : cb.state = .opened) :
    ∃ a, openedAt trace = some a ∧ a ≤ now ∧
      (granted = true → a + cb.recoveryTimeMs ≤ now) := by
  obtain ⟨a, ha, htrace, hat⟩ := h.opened hs
  refine ⟨a, htrace, hat.trans ht, fun hg => ?_⟩
  cases hm with
  | pass hs' => exact CircuitState.noConfusion (hs.symm.trans hs')
  | refuse _ => exact Bool.noConfusion hg
  | halfOpen _ b hb hle _ =>
    obtain rfl := Option.some.inj (ha.symm.trans hb)
    exact hle
  | halfOpenFull _ _ => exact Bool.noConfusion hg
  | probe hs' hlt => exact CircuitState.noConfusion (hs.symm.trans hs')
  | succeed _ => exact Bool.noConfusion hg
  | close _ => exact Bool.noConfusion hg
  | fail _ _ => exact Bool.noConfusion hg
  | trip _ _ => exact Bool.noConfusion hg
  | reopen _ => exact Bool.noConfusion hg
  | late _ _ _ => exact Bool.noConfusion hg

end Invariant

/-- The options of a run's breaker are those it began with. -/
theorem options_final (is : List (Timed CircuitCall)) (cb : CircuitBreaker) :
    (final step is cb).failureThreshold = cb.failureThreshold ∧
      (final step is cb).recoveryTimeMs = cb.recoveryTimeMs ∧
      (final step is cb).halfOpenMaxProbes = cb.halfOpenMaxProbes := by
  induction is generalizing cb with
  | nil => exact ⟨rfl, rfl, rfl⟩
  | cons i is ih =>
    obtain ⟨hF, hR, hP⟩ := (move_step i cb).options
    obtain ⟨hF', hR', hP'⟩ := ih (step i cb).1
    exact ⟨hF'.trans hF, hR'.trans hR, hP'.trans hP⟩

/-- **A run keeps the counters those of its trace.** -/
theorem tracks_run {cb : CircuitBreaker} {t : ℤ} (hF : 1 ≤ cb.failureThreshold)
    (hP : 0 ≤ cb.halfOpenMaxProbes) (h : Tracks t [] cb) {is : List (Timed CircuitCall)}
    (hord : OrderedFrom Timed.time t is) :
    Tracks (lastClock Timed.time t is) (outputs step is cb) (final step is cb) := by
  induction is using List.reverseRecOn with
  | nil => exact h
  | append_singleton is i ih =>
    obtain ⟨hbefore, hi⟩ := orderedFrom_append.mp hord
    obtain ⟨hF', -, hP'⟩ := options_final is cb
    rw [lastClock_append, outputs_append, final_append]
    exact (ih hbefore).move (by rw [hF']; exact hF) (by rw [hP']; exact hP) hi.1 (move_step i _)

end CircuitBreaker

/-- **The breaker is safe.**  At every call of a run in time order, on the trace of the calls
before it: the circuit goes from CLOSED to OPEN exactly when the call records the failure that
makes them `failureThreshold`; while OPEN nothing is granted before `recoveryTimeMs` have gone
by since it opened; and a stay in HALF_OPEN grants `halfOpenMaxProbes` attempts at most.
SOURCE: src/resilience/CircuitBreaker.ts:79-154 -/
theorem circuit_safety (options : CircuitBreakerOptions)
    (hF : 1 ≤ (CircuitBreaker.new options).failureThreshold)
    (hP : 1 ≤ (CircuitBreaker.new options).halfOpenMaxProbes) (t : ℤ)
    (is : List (Timed CircuitCall)) (i : Timed CircuitCall)
    (hord : OrderedFrom Timed.time t (is ++ [i])) :
    let cb := CircuitBreaker.new options
    let trace := outputs CircuitBreaker.step is cb
    let x := (CircuitBreaker.step i (final CircuitBreaker.step is cb)).2
    (x.before = .closed ∧ x.after = .opened ↔
        x.before = .closed ∧ x.call = .recordFailure ∧
          (failuresSince (trace ++ [x]) : ℤ) = cb.failureThreshold) ∧
      (x.before = .opened → ∃ a, openedAt trace = some a ∧ a ≤ x.time ∧
        (x.granted = true → a + cb.recoveryTimeMs ≤ x.time)) ∧
      (stayGrants (trace ++ [x]) : ℤ) ≤ cb.halfOpenMaxProbes := by
  intro cb trace x
  have hF : 1 ≤ cb.failureThreshold := hF
  have hP : 1 ≤ cb.halfOpenMaxProbes := hP
  obtain ⟨hbefore, hi⟩ := orderedFrom_append.mp hord
  have hstart : CircuitBreaker.Tracks t [] cb :=
    { closed := fun _ => ⟨rfl, by show (0 : ℤ) < cb.failureThreshold; omega⟩
      opened := fun hs => CircuitState.noConfusion hs
      halfOpen := fun hs => CircuitState.noConfusion hs
      away := fun _ => rfl }
  have htracks := CircuitBreaker.tracks_run hF (by omega) hstart hbefore
  obtain ⟨hF', hR', hP'⟩ := CircuitBreaker.options_final is cb
  have hmove := CircuitBreaker.move_step i (final CircuitBreaker.step is cb)
  refine ⟨?_, ?_, ?_⟩
  · rw [← hF']
    exact htracks.opens_iff hmove
  · rw [← hR']
    exact htracks.granted_opened hi.1 hmove
  · have hnext := htracks.move (by rw [hF']; exact hF) (by rw [hP']; omega) hi.1 hmove
    by_cases hs : x.after = .halfOpen
    · obtain ⟨hcount, hle⟩ := hnext.halfOpen hs
      have hmax := hmove.options.2.2
      rw [show stayGrants (trace ++ [x]) = _ from hcount.symm]
      omega
    · rw [show stayGrants (trace ++ [x]) = 0 from hnext.away hs]
      omega

/-- With the default options the third failure opens the circuit; a late success in between
would have begun the count again. -/
theorem circuit_safety_third_failure :
    let cb := CircuitBreaker.new {}
    let is : List (Timed CircuitCall) :=
      [⟨0, .canAttempt⟩, ⟨1, .recordFailure⟩, ⟨2, .recordFailure⟩]
    let x := (CircuitBreaker.step ⟨3, .recordFailure⟩ (final CircuitBreaker.step is cb)).2
    x.before = .closed ∧ x.after = .opened :=
  (circuit_safety {} (by decide) (by decide) 0
    [⟨0, .canAttempt⟩, ⟨1, .recordFailure⟩, ⟨2, .recordFailure⟩] ⟨3, .recordFailure⟩
    (by decide)).1.mpr (by decide)

end RatelimitFlex
