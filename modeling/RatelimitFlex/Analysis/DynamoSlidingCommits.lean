import RatelimitFlex.Program.DynamoWindows

/-!
# DynamoDB's sliding increments and their simulation

A request that commits under `sameWindow` or `rollOver` does what the simulation does
(`updated_eq_of_sameWindow`, `updated_eq_of_rollOver`).  `startFresh` does too, unless the
window it finds is the one just before its own: the client's `rollOver` has failed on an
older item, another client has moved the item there since, and the count of that window is
dropped.  So a run stores the fold of the simulation exactly as long as no `startFresh` finds
the window before its own with a count (`dynamoSliding_stored_iff`).

Alone, an increment whose window is before the stored one never meets a condition; it throws
after its last attempt, where the simulation starts the earlier window anew
(`dynamoSliding_alone_iff`).
-/

set_option autoImplicit false

namespace RatelimitFlex

open Library

namespace DynamoStore

/-! ## One request -/

variable {now : ℤ} {windowMs cost : ℕ} {item : Option DynamoSlidingItem}

/-- The simulation, for an item. -/
def simulated (now : ℤ) (windowMs cost : ℕ) (item : Option DynamoSlidingItem) :
    WeightedWindowState :=
  simulateWeightedIncrement (item.map DynamoSlidingItem.toWeightedWindowState) now windowMs cost

/-- In the same window the update writes what the simulation does. -/
theorem updated_eq_of_sameWindow
    (h : slidingCondition windowMs (fixedWindowBoundaryMs now windowMs) .sameWindow item = true) :
    (slidingUpdated now windowMs cost .sameWindow item).toWeightedWindowState =
      simulated now windowMs cost item := by
  cases item with
  | none => simp [slidingCondition] at h
  | some x =>
    have hstart : x.currentWindowStart = fixedWindowBoundaryMs now windowMs := by
      simpa [slidingCondition] using h
    simp [slidingUpdated, simulated, simulateWeightedIncrement, hstart]

/-- So does the roll-over into the next. -/
theorem updated_eq_of_rollOver (hW : 1 ≤ windowMs)
    (h : slidingCondition windowMs (fixedWindowBoundaryMs now windowMs) .rollOver item = true) :
    (slidingUpdated now windowMs cost .rollOver item).toWeightedWindowState =
      simulated now windowMs cost item := by
  cases item with
  | none => simp [slidingCondition] at h
  | some x =>
    have hstart : x.currentWindowStart = fixedWindowBoundaryMs now windowMs - windowMs := by
      simpa [slidingCondition] using h
    have hpos : (0 : ℤ) < windowMs := by exact_mod_cast hW
    have hne : ¬ x.currentWindowStart = fixedWindowBoundaryMs now windowMs := by omega
    have hprev : x.currentWindowStart + windowMs = fixedWindowBoundaryMs now windowMs := by omega
    simp [slidingUpdated, simulated, simulateWeightedIncrement, hne, hprev]

/-- `startFresh` drops the count of the window just before its own. -/
theorem updated_eq_iff_of_startFresh
    (h : slidingCondition windowMs (fixedWindowBoundaryMs now windowMs) .startFresh item =
      true) :
    (slidingUpdated now windowMs cost .startFresh item).toWeightedWindowState =
        simulated now windowMs cost item ↔
      ∀ x ∈ item, x.currentWindowStart + windowMs = fixedWindowBoundaryMs now windowMs →
        x.currentCount = 0 := by
  cases item with
  | none => simp [slidingUpdated, simulated, simulateWeightedIncrement]
  | some x =>
    have hlt : x.currentWindowStart < fixedWindowBoundaryMs now windowMs := by
      simpa [slidingCondition] using h
    by_cases hprev : x.currentWindowStart + windowMs = fixedWindowBoundaryMs now windowMs
    · simp [slidingUpdated, simulated, simulateWeightedIncrement, hlt.ne, hprev, eq_comm]
    · simp [slidingUpdated, simulated, simulateWeightedIncrement, hlt.ne, hprev]

/-- Contention is an error of the caller. -/
theorem isProgrammerError_slidingContention : isProgrammerError slidingContention = true := by
  decide

end DynamoStore

/-! ## Runs of any number of increments -/

namespace DynamoSlidingKey

open DynamoStore

variable {o : WindowOptions} {s : DynamoSlidingKey} {i : ℕ}

/-- No `startFresh` is sent to an item of the window just before, unless its count is zero. -/
def FreshDropsNothing (o : WindowOptions) (e : SlidingEvent) (s : DynamoSlidingKey) : Prop :=
  match e with
  | .send i => ∀ c ∈ s.clients i, ∀ attempt, c.phase = .sending attempt .startFresh →
      ∀ x ∈ s.item, x.currentWindowStart + o.windowMs = fixedWindowBoundaryMs c.now o.windowMs →
        x.currentCount = 0
  | _ => True

/-- A step stores what the simulation of the increment it commits returns. -/
def StoresSimulated (o : WindowOptions) (e : SlidingEvent) (s : DynamoSlidingKey) : Prop :=
  (step o e s).1.stored = ((step o e s).2.elim s.stored (simulate o s.stored))

/-- Moving on changes nothing that is stored. -/
@[simp] theorem stored_move (i : ℕ) (c : SlidingClient) (s : DynamoSlidingKey) :
    (s.move i c).stored = s.stored := rfl

/-- Nor does a start. -/
theorem stored_start (i : ℕ) (now : ℤ) (options : RateLimitIncrementOptions)
    (s : DynamoSlidingKey) : (s.start i now options).stored = s.stored := by
  unfold start
  split <;> rfl

/-- Nor does an error. -/
theorem stored_error (i : ℕ) (message : String) (s : DynamoSlidingKey) :
    (s.error i message).stored = s.stored := by
  unfold error
  split <;> rfl

/-- What a request does, by its condition. -/
theorem send_of_sending {now : ℤ} {options : RateLimitIncrementOptions} {attempt : ℕ}
    {u : SlidingUpdate} (h : s.clients i = some ⟨now, options, .sending attempt u⟩) :
    s.send o i =
      if slidingCondition o.windowMs (fixedWindowBoundaryMs now o.windowMs) u s.item then
        let item := slidingUpdated now o.windowMs options.sanitizedCost u s.item
        ({ s.move i ⟨now, options, .committed item⟩ with item := some item },
          some ⟨i, now, options.sanitizedCost⟩)
      else (s.move i ⟨now, options, nextRequest attempt u⟩, none) := by
  simp only [send, h]

/-- A client that is not sending sends nothing. -/
theorem send_of_idle
    (h : ∀ now options attempt u, s.clients i ≠ some ⟨now, options, .sending attempt u⟩) :
    s.send o i = (s, none) := by
  unfold send
  split
  · next hi => exact absurd hi (h _ _ _ _)
  · rfl

/-- Each request stores what its simulation returns exactly when it drops nothing. -/
theorem storesSimulated_iff (o : WindowOptions) (e : SlidingEvent) (s : DynamoSlidingKey) :
    StoresSimulated o e s ↔ FreshDropsNothing o e s := by
  cases e with
  | start i now options => exact iff_of_true (stored_start i now options s) trivial
  | error i message => exact iff_of_true (stored_error i message s) trivial
  | send i =>
    by_cases hsending :
        ∀ now options attempt u, s.clients i ≠ some ⟨now, options, .sending attempt u⟩
    · refine iff_of_true ?_ ?_
      · simp only [StoresSimulated, step, send_of_idle hsending, Option.elim_none]
      · rintro ⟨now, options, phase⟩ hc attempt rfl
        exact absurd hc (hsending now options attempt _)
    · push Not at hsending
      obtain ⟨now, options, attempt, u, hi⟩ := hsending
      have hfresh : FreshDropsNothing o (.send i) s ↔ (u = .startFresh →
          ∀ x ∈ s.item, x.currentWindowStart + o.windowMs = fixedWindowBoundaryMs now o.windowMs →
            x.currentCount = 0) := by
        simp only [FreshDropsNothing, hi, Option.mem_def, Option.some.injEq, forall_eq',
          SlidingPhase.sending.injEq, and_imp]
      rw [hfresh]
      by_cases hcond :
          slidingCondition o.windowMs (fixedWindowBoundaryMs now o.windowMs) u s.item = true
      · have hstep : StoresSimulated o (.send i) s ↔
            (slidingUpdated now o.windowMs options.sanitizedCost u s.item).toWeightedWindowState =
              simulated now o.windowMs options.sanitizedCost s.item := by
          simp only [StoresSimulated, step, send_of_sending hi, hcond, if_true,
            Option.elim_some, simulate, stored, simulated, Option.map_some, Option.some.injEq]
        rw [hstep]
        cases u with
        | sameWindow => exact iff_of_true (updated_eq_of_sameWindow hcond) (by simp)
        | rollOver =>
          exact iff_of_true (updated_eq_of_rollOver o.windowMs_pos hcond) (by simp)
        | startFresh =>
          rw [updated_eq_iff_of_startFresh hcond]
          simp
      · -- a condition that fails stores nothing; that of `startFresh` on a later window
        refine iff_of_true ?_ ?_
        · simp only [StoresSimulated, step, send_of_sending hi, hcond, Bool.false_eq_true,
            if_false, Option.elim_none, stored_move]
        · rintro rfl x hx hprev
          have hW := o.windowMs_pos
          rw [Option.mem_def.mp hx] at hcond
          simp only [slidingCondition, decide_eq_true_eq, not_lt] at hcond
          omega

/-- The fold over the commits is the fold over the answers. -/
theorem foldl_commits (o : WindowOptions) (es : List SlidingEvent) (s : DynamoSlidingKey)
    (b : Option WeightedWindowState) :
    (commits o es s).foldl (simulate o) b =
      (outputs (step o) es s).foldl (fun b r => r.elim b (simulate o b)) b := by
  unfold commits
  induction outputs (step o) es s generalizing b with
  | nil => rfl
  | cons r rs ih =>
    cases r with
    | none =>
      rw [List.reduceOption_cons_of_none, List.foldl_cons]
      exact ih b
    | some c =>
      rw [List.reduceOption_cons_of_some, List.foldl_cons, List.foldl_cons]
      exact ih _

/-! ## One increment alone -/

/-- An increment of a key that no one else works on, with all its requests. -/
def alone (o : WindowOptions) (now : ℤ) (options : RateLimitIncrementOptions)
    (item : Option DynamoSlidingItem) : DynamoSlidingKey :=
  final (step o) (.start 0 now options :: List.replicate (3 * maxAttempts) (.send 0))
    { item := item }

variable {now : ℤ} {options : RateLimitIncrementOptions} {item : Option DynamoSlidingItem}

/-- The key with one increment in the given phase. -/
def withPhase (now : ℤ) (options : RateLimitIncrementOptions) (phase : SlidingPhase)
    (item : Option DynamoSlidingItem) : DynamoSlidingKey :=
  ({ item := item } : DynamoSlidingKey).move 0 ⟨now, options, phase⟩

/-- The client of the run, in its phase. -/
@[simp] theorem clients_withPhase (now : ℤ) (options : RateLimitIncrementOptions)
    (phase : SlidingPhase) (item : Option DynamoSlidingItem) :
    (withPhase now options phase item).clients 0 = some ⟨now, options, phase⟩ := by
  simp [withPhase, move]

/-- One request of the only increment. -/
theorem step_withPhase (attempt : ℕ) (u : SlidingUpdate) :
    (step o (.send 0) (withPhase now options (.sending attempt u) item)).1 =
      if slidingCondition o.windowMs (fixedWindowBoundaryMs now o.windowMs) u item then
        withPhase now options
          (.committed (slidingUpdated now o.windowMs options.sanitizedCost u item))
          (some (slidingUpdated now o.windowMs options.sanitizedCost u item))
      else withPhase now options (nextRequest attempt u) item := by
  have hmove : ∀ c, (withPhase now options (.sending attempt u) item).move 0 c =
      ({ item := item } : DynamoSlidingKey).move 0 c := by
    intro c
    simp [withPhase, move]
  have hsend := send_of_sending (o := o)
    (clients_withPhase now options (.sending attempt u) item)
  simp only [step, hsend, hmove]
  have hitem : (withPhase now options (.sending attempt u) item).item = item := rfl
  rw [hitem]
  split
  · simp [withPhase, move]
  · rfl

/-- After its commit nothing changes any more. -/
theorem final_of_committed (attributes : DynamoSlidingItem) (n : ℕ) :
    final (step o) (List.replicate n (.send 0))
        (withPhase now options (.committed attributes) item) =
      withPhase now options (.committed attributes) item := by
  induction n with
  | zero => rfl
  | succ n ih =>
    have hidle : step o (.send 0) (withPhase now options (.committed attributes) item) =
        (withPhase now options (.committed attributes) item, none) := by
      rw [step]
      exact send_of_idle (by simp)
    rw [List.replicate_succ, final_cons, hidle]
    exact ih

/-- The first condition that holds decides what is committed. -/
theorem final_of_condition {n : ℕ} {attempt : ℕ} {u : SlidingUpdate}
    (h : slidingCondition o.windowMs (fixedWindowBoundaryMs now o.windowMs) u item = true) :
    let new := slidingUpdated now o.windowMs options.sanitizedCost u item
    final (step o) (List.replicate (n + 1) (.send 0))
        (withPhase now options (.sending attempt u) item) =
      withPhase now options (.committed new) (some new) := by
  intro new
  rw [List.replicate_succ, final_cons, step_withPhase, if_pos h]
  exact final_of_committed new n

/-- A condition that never holds keeps the client sending. -/
theorem final_of_not_condition {n : ℕ} {attempt : ℕ} {u : SlidingUpdate}
    (h : ¬ slidingCondition o.windowMs (fixedWindowBoundaryMs now o.windowMs) u item = true) :
    final (step o) (List.replicate (n + 1) (.send 0))
        (withPhase now options (.sending attempt u) item) =
      final (step o) (List.replicate n (.send 0))
        (withPhase now options (nextRequest attempt u) item) := by
  rw [List.replicate_succ, final_cons, step_withPhase, if_neg h]

section NoCondition

variable (h : ∀ u,
  ¬ slidingCondition o.windowMs (fixedWindowBoundaryMs now o.windowMs) u item = true)

include h

/-- An attempt that meets no condition. -/
theorem final_of_failed_attempt (attempt n : ℕ) :
    final (step o) (List.replicate (n + 3) (.send 0))
        (withPhase now options (.sending attempt .sameWindow) item) =
      final (step o) (List.replicate n (.send 0))
        (withPhase now options (nextRequest attempt .startFresh) item) := by
  have hroll : nextRequest attempt .sameWindow = .sending attempt .rollOver := rfl
  have hfresh : nextRequest attempt .rollOver = .sending attempt .startFresh := rfl
  rw [final_of_not_condition (h _), hroll, final_of_not_condition (h _), hfresh,
    final_of_not_condition (h _)]

/-- Attempts that meet no condition end in the error. -/
theorem final_of_no_condition {k attempt : ℕ} (hk : attempt + (k + 1) = maxAttempts) :
    final (step o) (List.replicate (3 * (k + 1)) (.send 0))
        (withPhase now options (.sending attempt .sameWindow) item) =
      withPhase now options (.failed slidingContention) item := by
  induction k generalizing attempt with
  | zero =>
    rw [show 3 * (0 + 1) = 0 + 3 from rfl, final_of_failed_attempt h, nextRequest,
      if_neg (by omega)]
    rfl
  | succ k ih =>
    rw [show 3 * (k + 1 + 1) = 3 * (k + 1) + 3 by omega, final_of_failed_attempt h, nextRequest,
      if_pos (by omega)]
    exact ih (by omega)

end NoCondition

/-- The start of the only increment. -/
theorem alone_eq (o : WindowOptions) (now : ℤ) (options : RateLimitIncrementOptions)
    (item : Option DynamoSlidingItem) :
    alone o now options item =
      final (step o) (List.replicate (3 * maxAttempts) (.send 0))
        (withPhase now options (.sending 0 .sameWindow) item) := by
  have hstart : (step o (.start 0 now options) { item := item }).1 =
      withPhase now options (.sending 0 .sameWindow) item := rfl
  rw [alone, final_cons, hstart]

/-- An item of this window or an earlier one is committed to by the first attempt. -/
theorem alone_of_le (options : RateLimitIncrementOptions)
    (h : ∀ x ∈ item, x.currentWindowStart ≤ fixedWindowBoundaryMs now o.windowMs) :
    ∃ new, new.toWeightedWindowState = simulated now o.windowMs options.sanitizedCost item ∧
      alone o now options item = withPhase now options (.committed new) (some new) := by
  have hrequests : 3 * maxAttempts = 69 + 1 + 1 + 1 := rfl
  rw [alone_eq, hrequests]
  by_cases hsame :
      slidingCondition o.windowMs (fixedWindowBoundaryMs now o.windowMs) .sameWindow item = true
  · exact ⟨_, updated_eq_of_sameWindow hsame, final_of_condition hsame⟩
  rw [final_of_not_condition hsame, show nextRequest 0 .sameWindow = .sending 0 .rollOver from rfl]
  by_cases hroll :
      slidingCondition o.windowMs (fixedWindowBoundaryMs now o.windowMs) .rollOver item = true
  · exact ⟨_, updated_eq_of_rollOver o.windowMs_pos hroll, final_of_condition hroll⟩
  rw [final_of_not_condition hroll, show nextRequest 0 .rollOver = .sending 0 .startFresh from rfl]
  have hfresh :
      slidingCondition o.windowMs (fixedWindowBoundaryMs now o.windowMs) .startFresh item =
        true := by
    cases item with
    | none => rfl
    | some x =>
      have hle := h x rfl
      simp only [slidingCondition, decide_eq_true_eq] at hsame ⊢
      omega
  refine ⟨_, (updated_eq_iff_of_startFresh hfresh).mpr ?_,
    final_of_condition hfresh⟩
  rintro x rfl hprev
  simp only [slidingCondition, decide_eq_true_eq] at hroll
  omega

/-- An item of a later window meets no condition. -/
theorem alone_of_lt (options : RateLimitIncrementOptions) {x : DynamoSlidingItem}
    (h : fixedWindowBoundaryMs now o.windowMs < x.currentWindowStart) :
    alone o now options (some x) =
      withPhase now options (.failed slidingContention) (some x) := by
  rw [alone_eq]
  refine final_of_no_condition (fun u => ?_) (k := 23) rfl
  have hW := o.windowMs_pos
  cases u <;> simp only [slidingCondition, decide_eq_true_eq] <;> omega

end DynamoSlidingKey

/-! ## Main results -/

/-- **Concurrent increments of one key.**  In every interleaving of the requests of any
number of increments, the item is after every prefix of the run the fold of the simulation
over the increments committed so far, in the order of their commits, exactly when no
`startFresh` is sent while the item is of the window just before the client's and has a count.
SOURCE: src/stores/dynamo/DynamoStore.ts:192-279, src/stores/dynamo/sliding-weighted.ts:52-101 -/
theorem dynamoSliding_stored_iff (o : WindowOptions) (item₀ : Option DynamoSlidingItem)
    (es : List SlidingEvent) :
    let s₀ : DynamoSlidingKey := { item := item₀ }
    (∀ p, p <+: es → (final (DynamoSlidingKey.step o) p s₀).stored =
        (DynamoSlidingKey.commits o p s₀).foldl (DynamoSlidingKey.simulate o) s₀.stored) ↔
      Guarded (DynamoSlidingKey.FreshDropsNothing o) (DynamoSlidingKey.step o) es s₀ := by
  intro s₀
  have hguard : DynamoSlidingKey.FreshDropsNothing o = DynamoSlidingKey.StoresSimulated o := by
    funext e s
    exact propext (DynamoSlidingKey.storesSimulated_iff o e s).symm
  simp only [hguard, DynamoSlidingKey.foldl_commits]
  exact forall_prefix_fold_iff

/-- Two increments of a new key, the clock of the second one window behind.  The first finds
no item for its own window and none for the one before; the second starts the earlier window,
and the first starts afresh over it.  The simulation keeps the count. -/
theorem dynamoSliding_drops_previous :
    let es : List SlidingEvent :=
      [.start 0 1500 {}, .start 1 500 {}, .send 0, .send 0, .send 1, .send 1, .send 1, .send 0]
    let s₀ : DynamoSlidingKey := { item := none }
    (final (DynamoSlidingKey.step tenASecond) es s₀).stored = some ⟨1000, 1, 0⟩ ∧
      (DynamoSlidingKey.commits tenASecond es s₀).map
        (fun c => (c.client, c.now)) = [(1, 500), (0, 1500)] ∧
      (DynamoSlidingKey.commits tenASecond es s₀).foldl
        (DynamoSlidingKey.simulate tenASecond) s₀.stored = some ⟨1000, 1, 1⟩ := by
  decide

/-- **An increment alone.**  It commits what the simulation returns and does not throw
exactly when there is no item or that of a window that is not after the clock's.
SOURCE: src/stores/dynamo/DynamoStore.ts:133-163, 192-279, 977-979 -/
theorem dynamoSliding_alone_iff (o : WindowOptions) (onDynamoError : OnDynamoError)
    (now : ℤ) (options : RateLimitIncrementOptions) (item : Option DynamoSlidingItem) :
    let s := DynamoSlidingKey.alone o now options item
    let outcome := (s.clients 0).bind (DynamoStore.slidingOutcome o onDynamoError)
    (s.stored = some (simulateWeightedIncrement
        (item.map DynamoSlidingItem.toWeightedWindowState) now o.windowMs options.sanitizedCost) ∧
      ∃ x, outcome = some x ∧ ∀ message, x ≠ .thrown message) ↔
    ∀ x ∈ item, x.currentWindowStart ≤ DynamoStore.fixedWindowBoundaryMs now o.windowMs := by
  intro s outcome
  by_cases h : ∀ x ∈ item, x.currentWindowStart ≤ DynamoStore.fixedWindowBoundaryMs now o.windowMs
  · refine iff_of_true ?_ h
    obtain ⟨new, hnew, halone⟩ := DynamoSlidingKey.alone_of_le options h
    refine ⟨?_, .figuresOf new, ?_, fun message => by simp⟩
    · rw [show s = _ from halone]
      exact congrArg some hnew
    · simp only [outcome, show s = _ from halone, DynamoSlidingKey.clients_withPhase,
        Option.bind_some, DynamoStore.slidingOutcome]
  · refine iff_of_false ?_ h
    push Not at h
    obtain ⟨x, rfl, hlt⟩ := h
    have halone := DynamoSlidingKey.alone_of_lt options hlt
    have hthrown : outcome = some (.thrown DynamoStore.slidingContention) := by
      simp only [outcome, show s = _ from halone, DynamoSlidingKey.clients_withPhase,
        Option.bind_some, DynamoStore.slidingOutcome, DynamoStore.incrementError,
        DynamoStore.isProgrammerError_slidingContention, if_true]
    rintro ⟨-, y, hy, hthrow⟩
    exact hthrow _ (Option.some.inj (hy.symm.trans hthrown))

/-- An increment whose clock reads 500, of a key whose window started at 1000. -/
theorem dynamoSliding_alone_throws :
    let s := DynamoSlidingKey.alone tenASecond 500 {} (some ⟨⟨1000, 1, 0⟩, 4⟩)
    s.stored = some ⟨1000, 1, 0⟩ ∧
      (s.clients 0).bind (DynamoStore.slidingOutcome tenASecond .failOpen) =
        some (.thrown DynamoStore.slidingContention) ∧
      simulateWeightedIncrement (some ⟨1000, 1, 0⟩) 500 1000 1 = ⟨0, 1, 0⟩ := by
  intro s
  have halone : s = DynamoSlidingKey.withPhase 500 {} (.failed DynamoStore.slidingContention)
      (some ⟨⟨1000, 1, 0⟩, 4⟩) :=
    DynamoSlidingKey.alone_of_lt {} (by decide)
  rw [halone]
  decide

end RatelimitFlex
