import RatelimitFlex.Analysis.RedisCounts

/-!
# Where the undo of a hit goes

An increment of a `RedisStore` with an insurance limiter is counted in Redis or by the
insurance store, and the decrement that undoes it looks at the circuit breaker again.  The
two part ways when a failed call leaves the circuit closed, and when the recovery time runs
out before the undo: then a hit that the insurance store has counted is taken off in Redis.
`undo_follows_hit_iff` says that nothing else goes wrong.
-/

set_option autoImplicit false

namespace RatelimitFlex

open Library

/-! ## The breaker between an increment and its undo -/

namespace CircuitBreaker

variable {called ended undone : ℤ} {cb : CircuitBreaker}

/-- The call is sent to Redis, and Redis answers. -/
def countsInRedis (called : ℤ) (answers : Bool) (cb : CircuitBreaker) : Bool :=
  (decide (cb.state = .closed) || cb.takesProbe called) && answers

/-- A circuit that opens at `ended` grants a probe at `undone`. -/
def recoversBy (ended undone : ℤ) (cb : CircuitBreaker) : Bool :=
  decide (ended + cb.recoveryTimeMs ≤ undone) && decide (0 < cb.halfOpenMaxProbes)

/-- The undo of a hit that the insurance store has counted is sent to Redis: the failure did not
open the circuit, or a probe is granted by then. -/
def undoReachesRedis (called ended undone : ℤ) (cb : CircuitBreaker) : Bool :=
  if cb.state = .closed then
    decide (cb.consecutiveFailures + 1 < cb.failureThreshold) || cb.recoversBy ended undone
  else if cb.takesProbe called then cb.recoversBy ended undone
  else cb.takesProbe undone

/-- Asking the breaker keeps its recovery time. -/
@[simp] theorem recoveryTimeMs_canAttempt (now : ℤ) (cb : CircuitBreaker) :
    (cb.canAttempt now).1.recoveryTimeMs = cb.recoveryTimeMs := by
  simp only [canAttempt, grantHalfOpenProbe]
  repeat' split
  all_goals rfl

/-- So does recording a failure. -/
@[simp] theorem recoveryTimeMs_recordFailure (now : ℤ) (cb : CircuitBreaker) :
    (cb.recordFailure now).1.recoveryTimeMs = cb.recoveryTimeMs := by
  simp only [recordFailure]
  repeat' split
  all_goals rfl

/-- Which attempts are granted. -/
theorem canAttempt_granted_eq (now : ℤ) (cb : CircuitBreaker) :
    (cb.canAttempt now).2.1 = (decide (cb.state = .closed) || cb.takesProbe now) := by
  cases hs : cb.state with
  | closed => simp [canAttempt, hs]
  | opened =>
    cases ho : cb.openedAtMs with
    | none => simp [canAttempt, takesProbe, hs, ho]
    | some openedAt =>
      by_cases hlt : now < openedAt + cb.recoveryTimeMs
      · simp [canAttempt, takesProbe, hs, ho, hlt]
      · by_cases hmax : cb.halfOpenMaxProbes ≤ 0
        · simp [canAttempt, takesProbe, hs, ho, hlt, grantHalfOpenProbe, hmax]
        · simp [canAttempt, takesProbe, hs, ho, hlt, grantHalfOpenProbe, hmax]
          omega
  | halfOpen =>
    by_cases hfull : cb.halfOpenMaxProbes ≤ (cb.halfOpenInFlight : ℤ)
    · simp [canAttempt, takesProbe, hs, grantHalfOpenProbe, hfull]
    · simp [canAttempt, takesProbe, hs, grantHalfOpenProbe, hfull]
      omega

/-- A granted attempt is made in a circuit that is not open. -/
theorem canAttempt_state_ne (h : (cb.canAttempt called).2.1 = true) :
    (cb.canAttempt called).1.state ≠ .opened := by
  rw [canAttempt_granted_eq, Bool.or_eq_true, decide_eq_true_eq] at h
  rcases h with hclosed | hprobe
  · rw [show cb.canAttempt called = (cb, true, none) by simp [canAttempt, hclosed], hclosed]
    simp
  · rw [(canAttempt_of_takesProbe hprobe).2.1]
    simp

/-- After a success the circuit is closed, and the undo is sent to Redis. -/
theorem undo_granted_of_success (undone : ℤ) (h : (cb.canAttempt called).2.1 = true) :
    ((cb.canAttempt called).1.recordSuccess.1.canAttempt undone).2.1 = true := by
  have hclosed : (cb.canAttempt called).1.recordSuccess.1.state = .closed := by
    cases hs : (cb.canAttempt called).1.state with
    | closed => simp [recordSuccess, hs]
    | opened => exact absurd hs (canAttempt_state_ne h)
    | halfOpen => simp [recordSuccess, hs]
  rw [canAttempt_granted_eq, hclosed]
  rfl

/-- A circuit that opened at `ended` grants the undo when it has recovered. -/
theorem canAttempt_granted_of_opened {cb' : CircuitBreaker} (hs : cb'.state = .opened)
    (ho : cb'.openedAtMs = some ended) (hrecovery : cb'.recoveryTimeMs = cb.recoveryTimeMs)
    (hmax : cb'.halfOpenMaxProbes = cb.halfOpenMaxProbes) :
    (cb'.canAttempt undone).2.1 = cb.recoversBy ended undone := by
  rw [canAttempt_granted_eq, takesProbe, hs, ho, recoversBy, hrecovery, hmax]
  rfl

/-- After a failure. -/
theorem undo_granted_of_failure (ended undone : ℤ) (h : (cb.canAttempt called).2.1 = true) :
    (((cb.canAttempt called).1.recordFailure ended).1.canAttempt undone).2.1 =
      cb.undoReachesRedis called ended undone := by
  rw [canAttempt_granted_eq, Bool.or_eq_true, decide_eq_true_eq] at h
  by_cases hclosed : cb.state = .closed
  · rw [show cb.canAttempt called = (cb, true, none) by simp [canAttempt, hclosed]]
    by_cases hthreshold : cb.failureThreshold ≤ cb.consecutiveFailures + 1
    · have hrecord : (cb.recordFailure ended).1 = { cb with
          consecutiveFailures := cb.consecutiveFailures + 1
          state := .opened
          openedAtMs := some ended } := by
        simp [recordFailure, hclosed, hthreshold]
      rw [hrecord, canAttempt_granted_of_opened rfl rfl rfl rfl, undoReachesRedis, if_pos hclosed,
        decide_eq_false (by omega), Bool.false_or]
      rfl
    · have hrecord : ((cb.recordFailure ended).1.state) = .closed := by
        simp [recordFailure, hclosed, hthreshold]
      rw [canAttempt_granted_eq, hrecord, undoReachesRedis, if_pos hclosed,
        decide_eq_true (show cb.consecutiveFailures + 1 < cb.failureThreshold by omega),
        Bool.true_or]
      rfl
  · have hprobe : cb.takesProbe called = true := h.resolve_left hclosed
    have hhalf := (canAttempt_of_takesProbe hprobe).2.1
    rw [undoReachesRedis, if_neg hclosed, if_pos hprobe]
    apply canAttempt_granted_of_opened
    · simp [recordFailure, hhalf]
    · simp [recordFailure, hhalf]
    · rw [recoveryTimeMs_recordFailure, recoveryTimeMs_canAttempt]
    · rw [halfOpenMaxProbes_recordFailure, halfOpenMaxProbes_canAttempt]

/-- After a call that was not sent. -/
theorem undo_granted_of_denied (ended undone : ℤ) (h : (cb.canAttempt called).2.1 = false) :
    ((cb.canAttempt called).1.canAttempt undone).2.1 =
      cb.undoReachesRedis called ended undone := by
  have hdenied := h
  rw [canAttempt_granted_eq, Bool.or_eq_false_iff, decide_eq_false_iff_not] at h
  obtain ⟨hclosed, hprobe⟩ := h
  rw [undoReachesRedis, if_neg hclosed, hprobe, if_neg Bool.false_ne_true]
  have hsame : (cb.canAttempt called).1 = cb →
      ((cb.canAttempt called).1.canAttempt undone).2.1 = cb.takesProbe undone := by
    intro heq
    rw [heq, canAttempt_granted_eq, decide_eq_false hclosed, Bool.false_or]
  cases hs : cb.state with
  | closed => exact absurd hs hclosed
  | halfOpen =>
    apply hsame
    rcases canAttempt_of_not_takesProbe hprobe with heq | ⟨-, hnone⟩
    · exact heq
    · simp only [canAttempt, hs, grantHalfOpenProbe] at hdenied ⊢
      split
      · rfl
      · next hslot => simp [hslot] at hdenied
  | opened =>
    cases ho : cb.openedAtMs with
    | none => exact hsame (by simp [canAttempt, hs, ho])
    | some openedAt =>
      by_cases hlt : called < openedAt + cb.recoveryTimeMs
      · exact hsame (by simp [canAttempt, hs, ho, hlt])
      · -- no probe may be granted at all
        have hmax : cb.halfOpenMaxProbes ≤ 0 := by
          have : openedAt + cb.recoveryTimeMs ≤ called → cb.halfOpenMaxProbes ≤ 0 := by
            simpa [takesProbe, hs, ho] using hprobe
          exact this (by omega)
        have hnever : cb.takesProbe undone = false := by simp [takesProbe, hs, ho, hmax]
        rw [hnever]
        simp [canAttempt, hs, ho, hlt, grantHalfOpenProbe, hmax]

end CircuitBreaker

/-! ## One call and its answer -/

namespace InsuredRedis

variable {κ μ : Type} [DecidableEq κ] [LinearOrder μ] {o : RedisStoreOptions}
  {s : InsuredRedis κ μ} {called ended : ℤ} {key : κ} {outcome : Except StoreError (List μ)}

/-- Every pending call is known with the moment it was sent. -/
def Listed (s : InsuredRedis κ μ) : Prop := s.calledAt.length = s.store.pending.length

omit [LinearOrder μ] in
/-- A call that the breaker refuses runs on the insurance store. -/
theorem call_of_denied (op : StoreOp κ) (hop : op ≠ .purgeExpired)
    (h : (s.store.circuitBreaker.canAttempt called).2.1 = false) :
    (s.call called op).2.isSome = true ∧ (s.call called op).1.redis = s.redis ∧
      (s.call called op).1.store.insuranceStore = (s.store.insuranceStore.step ⟨called, op⟩).1 ∧
      (s.call called op).1.store.circuitBreaker = (s.store.circuitBreaker.canAttempt called).1 := by
  simp [call, RedisStore.call, hop, RedisStore.shouldRouteQuotaViaInsurance, h,
    RedisStore.viaInsurance]

omit [LinearOrder μ] in
/-- A call that it grants becomes pending. -/
theorem call_of_granted (op : StoreOp κ) (hop : op ≠ .purgeExpired)
    (h : (s.store.circuitBreaker.canAttempt called).2.1 = true) :
    s.call called op =
      ({ s with
          store := { s.store with
            circuitBreaker := (s.store.circuitBreaker.canAttempt called).1
            pending := s.store.pending ++ [op] }
          calledAt := s.calledAt ++ [called] }, none) := by
  simp [call, RedisStore.call, hop, RedisStore.shouldRouteQuotaViaInsurance, h]

variable (o ended key outcome) in
/-- An increment that is not sent to Redis. -/
theorem increment_of_denied (h : (s.store.circuitBreaker.canAttempt called).2.1 = false)
    (options : RateLimitIncrementOptions) :
    let s' := s.perform o called ended (.increment key options) outcome
    s'.redis = s.redis ∧
      s'.store.insuranceStore = (s.store.insuranceStore.increment called key options).1 ∧
      s'.store.circuitBreaker = (s.store.circuitBreaker.canAttempt called).1 := by
  obtain ⟨hsome, hredis, hinsurance, hbreaker⟩ :=
    call_of_denied (s := s) (.increment key options) nofun h
  obtain ⟨reply, hreply⟩ := Option.isSome_iff_exists.mp hsome
  simp only [perform, step, hreply]
  exact ⟨hredis, hinsurance, hbreaker⟩

omit [DecidableEq κ] [LinearOrder μ] in
/-- What is put at the end is there. -/
theorem getElem?_pushed {α : Type} (l : List α) (a : α) : (l ++ [a])[l.length]? = some a :=
  List.getElem?_concat_length

variable (o ended key) in
/-- An increment that Redis answers. -/
theorem increment_of_answered (hlisted : s.Listed)
    (h : (s.store.circuitBreaker.canAttempt called).2.1 = true)
    (options : RateLimitIncrementOptions) (members : List μ) :
    let s' := s.perform o called ended (.increment key options) (.ok members)
    s'.redis = (s.redis.increment ended called key options members).1 ∧
      s'.store.insuranceStore = s.store.insuranceStore ∧
      s'.store.circuitBreaker =
        (s.store.circuitBreaker.canAttempt called).1.recordSuccess.1 := by
  have hcall := call_of_granted (s := s) (.increment key options) nofun h
  have htold : (s.calledAt ++ [called])[s.store.pending.length]? = some called := by
    rw [← hlisted, getElem?_pushed]
  simp only [perform, step, hcall, answered, getElem?_pushed, htold, Option.getD_some,
    RedisKeys.run, RedisStore.answer, RedisStore.recordSuccess]
  split
  · exact ⟨trivial, rfl, rfl⟩
  · exact ⟨trivial, rfl, rfl⟩

variable (o ended key) in
/-- An increment that fails on its way. -/
theorem increment_of_failed (h : (s.store.circuitBreaker.canAttempt called).2.1 = true)
    (options : RateLimitIncrementOptions) (err : StoreError) :
    let s' := s.perform o called ended (.increment key options) (.error err)
    s'.redis = s.redis ∧
      s'.store.insuranceStore = (s.store.insuranceStore.increment ended key options).1 ∧
      s'.store.circuitBreaker =
        ((s.store.circuitBreaker.canAttempt called).1.recordFailure ended).1 := by
  have hcall := call_of_granted (s := s) (.increment key options) nofun h
  simp only [perform, step, hcall, failed, getElem?_pushed, RedisStore.answer,
    RedisStore.handleRedisFailureForIncrement, RedisStore.viaInsurance, MemoryStore.step]
  split
  · exact ⟨trivial, rfl, rfl⟩
  · exact ⟨trivial, rfl, rfl⟩

variable (o ended key outcome) in
/-- A decrement goes where the breaker lets it. -/
theorem decrement_of_denied (h : (s.store.circuitBreaker.canAttempt called).2.1 = false)
    (options : RateLimitDecrementOptions) :
    let s' := s.perform o called ended (.decrement key options) outcome
    s'.redis = s.redis ∧
      s'.store.insuranceStore = s.store.insuranceStore.decrement key options := by
  obtain ⟨hsome, hredis, hinsurance, -⟩ :=
    call_of_denied (s := s) (.decrement key options) nofun h
  obtain ⟨reply, hreply⟩ := Option.isSome_iff_exists.mp hsome
  simp only [perform, step, hreply]
  exact ⟨hredis, hinsurance⟩

variable (o ended key) in
/-- A decrement that the breaker lets through goes to Redis. -/
theorem decrement_of_granted (h : (s.store.circuitBreaker.canAttempt called).2.1 = true)
    (options : RateLimitDecrementOptions) (members : List μ) :
    let s' := s.perform o called ended (.decrement key options) (.ok members)
    s'.redis = s.redis.decrement ended key options ∧
      s'.store.insuranceStore = s.store.insuranceStore := by
  have hcall := call_of_granted (s := s) (.decrement key options) nofun h
  simp only [perform, step, hcall, answered, getElem?_pushed, RedisKeys.run, RedisStore.answer]
  exact ⟨trivial, trivial⟩

/-! ## Runs -/

/-- What a run keeps: the cells of the insurance store are as increments and decrements make
them, the keys in Redis as scripts write them, and the moment of every pending call is known. -/
structure Sound (t : ℤ) (s : InsuredRedis κ μ) : Prop where
  insurance : s.store.insuranceStore.Wf t
  redis : s.redis.Legal
  listed : s.Listed

/-- A sound store stays so as time passes. -/
theorem Sound.mono {t now : ℤ} (h : s.Sound t) (ht : t ≤ now) : s.Sound now :=
  ⟨fun k => (h.insurance k).mono ht, h.redis, h.listed⟩

omit [LinearOrder μ] in
/-- The insurance store stays well formed. -/
theorem wf_call {now t : ℤ} {op : StoreOp κ} (h : s.store.insuranceStore.Wf t) (ht : t ≤ now)
    (hop : (∃ key options, op = .increment key options) ∨
      (∃ key options, op = .decrement key options) ∨ op = .purgeExpired) :
    (s.store.insuranceStore.step ⟨now, op⟩).1.Wf now := by
  have hnow : s.store.insuranceStore.Wf now := fun k => (h k).mono ht
  obtain ⟨key, options, rfl⟩ | ⟨key, options, rfl⟩ | rfl := hop
  · exact h.increment ht options
  · intro k
    rw [MemoryStore.step, MemoryStore.cell_decrement]
    split
    · exact (hnow key).decrement options
    · exact hnow k
  · exact hnow.purgeExpired

/-- A call keeps the store sound. -/
theorem Sound.call {now t : ℤ} {op : StoreOp κ} (h : s.Sound t) (ht : t ≤ now)
    (hop : (∃ key options, op = .increment key options) ∨
      ∃ key options, op = .decrement key options) : (s.call now op).1.Sound now := by
  have hpurge : op ≠ .purgeExpired := by
    obtain ⟨key, options, rfl⟩ | ⟨key, options, rfl⟩ := hop
    · exact nofun
    · exact nofun
  cases hgranted : (s.store.circuitBreaker.canAttempt now).2.1 with
  | true =>
    rw [call_of_granted op hpurge hgranted]
    refine ⟨fun k => (h.insurance k).mono ht, h.redis, ?_⟩
    simp only [Listed, List.length_append, List.length_singleton]
    rw [h.listed]
  | false =>
    obtain ⟨hsome, hredis, hinsurance, -⟩ := call_of_denied (s := s) op hpurge hgranted
    refine ⟨?_, hredis ▸ h.redis, ?_⟩
    · rw [hinsurance]
      exact wf_call h.insurance ht (hop.imp_right Or.inl)
    · have hpending : (s.call now op).1.store.pending = s.store.pending := by
        simp [InsuredRedis.call, RedisStore.call, hpurge, RedisStore.shouldRouteQuotaViaInsurance,
          hgranted, RedisStore.viaInsurance]
      have hcalled : (s.call now op).1.calledAt = s.calledAt := if_pos hsome
      rw [Listed, hpending, hcalled]
      exact h.listed

/-- So does its answer. -/
theorem Sound.answered {clock t : ℤ} (h : s.Sound t) (ht : t ≤ clock) (i : ℕ) (members : List μ) :
    (s.answered o clock i members).1.Sound clock := by
  have hinsurance : s.store.insuranceStore.Wf clock := fun k => (h.insurance k).mono ht
  have hlisted : (s.calledAt.eraseIdx i).length = (s.store.pending.eraseIdx i).length := by
    rw [List.length_eraseIdx, List.length_eraseIdx, h.listed]
  unfold InsuredRedis.answered
  cases hp : s.store.pending[i]? with
  | none => exact ⟨hinsurance, h.redis, h.listed⟩
  | some op =>
    simp only
    generalize (s.calledAt[i]?).getD clock = told
    have hredis := h.redis.run clock told op members
    cases op with
    | increment key options =>
      simp only [RedisStore.answer, hp, RedisKeys.run, RedisStore.recordSuccess]
      split
      · exact ⟨hinsurance, hredis, hlisted⟩
      · exact ⟨hinsurance, hredis, hlisted⟩
    | decrement key options =>
      simp only [RedisStore.answer, hp]
      exact ⟨hinsurance, hredis, hlisted⟩
    | get key =>
      simp only [RedisStore.answer, hp]
      exact ⟨hinsurance, hredis, hlisted⟩
    | set key totalHits expiresAt =>
      simp only [RedisStore.answer, hp]
      exact ⟨hinsurance, hredis, hlisted⟩
    | reset key =>
      simp only [RedisStore.answer, hp]
      exact ⟨hinsurance, hredis, hlisted⟩
    | delete key =>
      simp only [RedisStore.answer, hp]
      exact ⟨hinsurance, hredis, hlisted⟩
    | purgeExpired =>
      simp only [RedisStore.answer, hp]
      exact ⟨hinsurance, hredis, hlisted⟩

/-- So does its failure. -/
theorem Sound.failed {clock t : ℤ} (h : s.Sound t) (ht : t ≤ clock) (i : ℕ) (err : StoreError) :
    (s.failed o clock i err).1.Sound clock := by
  have hinsurance : s.store.insuranceStore.Wf clock := fun k => (h.insurance k).mono ht
  have hlisted : (s.calledAt.eraseIdx i).length = (s.store.pending.eraseIdx i).length := by
    rw [List.length_eraseIdx, List.length_eraseIdx, h.listed]
  unfold InsuredRedis.failed
  cases hp : s.store.pending[i]? with
  | none =>
    have hbeyond : s.calledAt.length ≤ i := by
      rw [h.listed]
      exact List.getElem?_eq_none_iff.mp hp
    simp only [RedisStore.answer, hp, List.eraseIdx_of_length_le hbeyond]
    exact ⟨hinsurance, h.redis, h.listed⟩
  | some op =>
    cases op with
    | increment key options =>
      have hcounted : (s.store.insuranceStore.increment clock key options).1.Wf clock :=
        h.insurance.increment ht options
      simp only [RedisStore.answer, hp, RedisStore.handleRedisFailureForIncrement,
        RedisStore.viaInsurance, MemoryStore.step]
      split
      · exact ⟨hcounted, h.redis, hlisted⟩
      · exact ⟨hcounted, h.redis, hlisted⟩
    | decrement key options =>
      simp only [RedisStore.answer, hp]
      exact ⟨hinsurance, h.redis, hlisted⟩
    | get key =>
      simp only [RedisStore.answer, hp]
      exact ⟨hinsurance, h.redis, hlisted⟩
    | set key totalHits expiresAt =>
      simp only [RedisStore.answer, hp]
      exact ⟨hinsurance, h.redis, hlisted⟩
    | reset key =>
      simp only [RedisStore.answer, hp]
      exact ⟨hinsurance, h.redis, hlisted⟩
    | delete key =>
      simp only [RedisStore.answer, hp]
      exact ⟨hinsurance, h.redis, hlisted⟩
    | purgeExpired =>
      simp only [RedisStore.answer, hp]
      exact ⟨hinsurance, h.redis, hlisted⟩

/-- A store that was emptied is well formed. -/
theorem wf_resetAll {m : MemoryStore κ} (t : ℤ) : m.resetAll.Wf t := by
  intro k
  cases m with
  | sliding o table => simp [MemoryStore.resetAll, MemoryStore.cell, Cell.Wf]
  | fixed o table => simp [MemoryStore.resetAll, MemoryStore.cell, Cell.Wf]
  | bucket o table => simp [MemoryStore.resetAll, MemoryStore.cell, Cell.Wf]

/-- One step of a run. -/
theorem Sound.step {t : ℤ} {i : Timed (InsuredRedisEvent κ μ)} (h : s.Sound t)
    (ht : t ≤ i.time) : (s.step o i).1.Sound i.time := by
  have hinsurance : s.store.insuranceStore.Wf i.time := fun k => (h.insurance k).mono ht
  obtain ⟨now, op⟩ := i
  cases op with
  | increment key options => exact h.call ht (Or.inl ⟨key, options, rfl⟩)
  | decrement key options => exact h.call ht (Or.inr ⟨key, options, rfl⟩)
  | answered n members => exact h.answered ht n members
  | failed n err => exact h.failed ht n err
  | purgeExpired =>
    have hpurged := wf_call h.insurance ht (Or.inr (Or.inr rfl))
    have hcall : s.store.call now .purgeExpired =
        ((s.store.viaInsurance now .purgeExpired).1, none) := if_pos rfl
    simp only [InsuredRedis.step, hcall, RedisStore.viaInsurance]
    exact ⟨hpurged, h.redis, h.listed⟩
  | syncScript key totalHits resetTime told members =>
    exact ⟨hinsurance, h.redis.syncOneKey totalHits resetTime members, h.listed⟩
  | synced =>
    simp only [InsuredRedis.step, RedisStore.synced]
    split
    · exact ⟨hinsurance, h.redis, h.listed⟩
    · exact ⟨wf_resetAll now, h.redis, h.listed⟩

/-- A new store is sound. -/
theorem sound_new (cb : CircuitBreakerOptions) {m : MemoryStore κ} {r : RedisKeys κ μ}
    (hm : m.IsNew) (hr : r.Legal) (t : ℤ) : (InsuredRedis.new cb m r).Sound t :=
  ⟨hm.wf t, hr, rfl⟩

/-- So is the store after every run. -/
theorem Sound.final {t : ℤ} (h : s.Sound t) {is : List (Timed (InsuredRedisEvent κ μ))}
    (hord : OrderedFrom Timed.time t is) :
    (Library.final (InsuredRedis.step o) is s).Sound (lastClock Timed.time t is) :=
  final_inv (G := fun _ _ => True) (fun _ _ _ h ht _ => h.step ht) h hord (guarded_true is s)

/-! ## The increment and its undo -/

/-- Nothing of the key expires in either store from `t` to `u`, no slice ends and no bucket
refills. -/
def Lasts (t u : ℤ) (key : κ) (s : InsuredRedis κ μ) : Prop :=
  (s.store.insuranceStore.cell key).Lasts t u ∧ s.redis.Lasts t u key

/-- The undo meets the hit in the store that counts it, and this store has not refused it, or has
nothing to give back.  Where the undo goes to Redis for a hit that was counted by the insurance
store, the one must have refused the hit and the other have nothing to take off. -/
def UndoneInFull (called ended undone taken : ℤ) (key : κ) (inc : RateLimitIncrementOptions)
    (dec : RateLimitDecrementOptions) (answers : Bool) (s : InsuredRedis κ μ) : Prop :=
  let cb := s.store.circuitBreaker
  if cb.countsInRedis called answers then
    s.redis.Refuses called key inc.sanitizedCost → s.redis.count called key = 0
  else if cb.undoReachesRedis called ended undone then
    (s.store.insuranceStore.cell key).Refuses called inc.sanitizedCost ∧
      s.redis.NothingToTake taken key dec
  else
    (s.store.insuranceStore.cell key).Refuses called inc.sanitizedCost →
      storeCount called key s.store.insuranceStore = 0

/-- The undo of an increment that the insurance store has answered at `now`. -/
theorem Sound.undone_insured_iff (o : RedisStoreOptions) {now : ℤ} (undone : ℤ) {taken : ℤ}
    {s₁ : InsuredRedis κ μ}
    (h : s.Sound called) (hnow : called ≤ now) (htaken : now ≤ taken)
    {inc : RateLimitIncrementOptions} {dec : RateLimitDecrementOptions}
    (hcost : dec.sanitizedCost = inc.sanitizedCost) (hlasts : s.Lasts called taken key)
    (hredis : s₁.redis = s.redis)
    (hinsurance : s₁.store.insuranceStore = (s.store.insuranceStore.increment now key inc).1) :
    let s' := s₁.perform o undone taken (.decrement key dec) (.ok [])
    (s'.redis.count taken key = s.redis.count called key ∧
        storeCount taken key s'.store.insuranceStore =
          storeCount called key s.store.insuranceStore) ↔
      if (s₁.store.circuitBreaker.canAttempt undone).2.1 then
        (s.store.insuranceStore.cell key).Refuses called inc.sanitizedCost ∧
          s.redis.NothingToTake taken key dec
      else
        (s.store.insuranceStore.cell key).Refuses called inc.sanitizedCost →
          storeCount called key s.store.insuranceStore = 0 := by
  obtain ⟨hcell, hkeys⟩ := hlasts
  have hwf := h.insurance key
  have hkept := hkeys.count_eq
  simp only [storeCount_eq]
  cases hgranted : (s₁.store.circuitBreaker.canAttempt undone).2.1 with
  | true =>
    obtain ⟨hr, hm⟩ := decrement_of_granted o taken key hgranted dec []
    rw [if_pos rfl, hr, hm, hinsurance, hredis, MemoryStore.cell_increment_own, ← hkept,
      RedisKeys.count_decrement_iff h.redis, and_comm]
    have hpos := inc.one_le_sanitizedCost
    obtain ⟨hrefused, hcounted⟩ := hcell.count_increment hwf hnow htaken inc
    refine and_congr_left fun _ => ?_
    by_cases hrefuses : (s.store.insuranceStore.cell key).Refuses called inc.sanitizedCost
    · exact iff_of_true (hrefused hrefuses) hrefuses
    · refine iff_of_false ?_ hrefuses
      rw [hcounted hrefuses]
      omega
  | false =>
    obtain ⟨hr, hm⟩ := decrement_of_denied o taken key (.ok []) hgranted dec
    rw [if_neg Bool.false_ne_true, hr, hm, hredis, MemoryStore.cell_decrement_own, hinsurance,
      MemoryStore.cell_increment_own, hcell.count_decrement hwf hnow htaken hcost]
    exact and_iff_right hkept

/-- The pair on a store that a run has reached. -/
theorem Sound.undone_iff {undone taken : ℤ} (h : s.Sound called) (hended : called ≤ ended)
    (hundone : ended ≤ undone) (htaken : undone ≤ taken) {inc : RateLimitIncrementOptions}
    {dec : RateLimitDecrementOptions} (hcost : dec.sanitizedCost = inc.sanitizedCost)
    (hfresh : ∀ members, outcome = .ok members → s.redis.Fresh key inc.sanitizedCost members)
    (hlasts : s.Lasts called taken key) :
    let s' := (s.perform o called ended (.increment key inc) outcome).perform o undone taken
      (.decrement key dec) (.ok [])
    (s'.redis.count taken key = s.redis.count called key ∧
        storeCount taken key s'.store.insuranceStore =
          storeCount called key s.store.insuranceStore) ↔
      s.UndoneInFull called ended undone taken key inc dec outcome.isOk := by
  have hgrants := s.store.circuitBreaker.canAttempt_granted_eq called
  simp only [UndoneInFull, CircuitBreaker.countsInRedis, ← hgrants]
  cases hgranted : (s.store.circuitBreaker.canAttempt called).2.1 with
  | false =>
    obtain ⟨hr, hm, hcb⟩ := increment_of_denied o ended key outcome hgranted inc
    have hpair := h.undone_insured_iff o undone le_rfl (by omega) hcost hlasts hr hm
    rw [hcb, CircuitBreaker.undo_granted_of_denied ended undone hgranted] at hpair
    simpa only [Bool.false_and, Bool.false_eq_true, if_false] using hpair
  | true =>
    cases outcome with
    | error err =>
      obtain ⟨hr, hm, hcb⟩ := increment_of_failed o ended key hgranted inc err
      have hpair := h.undone_insured_iff o undone hended (by omega) hcost hlasts hr hm
      rw [hcb, CircuitBreaker.undo_granted_of_failure ended undone hgranted] at hpair
      simpa only [Except.isOk, Except.toBool, Bool.and_false, Bool.false_eq_true, if_false]
        using hpair
    | ok members =>
      obtain ⟨hr, hm, hcb⟩ := increment_of_answered o ended key h.listed hgranted inc members
      have hundo := CircuitBreaker.undo_granted_of_success undone hgranted
      rw [← hcb] at hundo
      obtain ⟨hr', hm'⟩ := decrement_of_granted o taken key hundo dec []
      have hkept := (hlasts.1).count_eq (h.insurance key) (by omega)
      simp only [Except.isOk, Except.toBool, Bool.and_true, if_true]
      rw [hr', hm', hr, hm, storeCount_eq, storeCount_eq, and_iff_left hkept]
      exact hlasts.2.count_decrement h.redis le_rfl hended (hundone.trans htaken) hcost
        (hfresh members rfl)

end InsuredRedis

/-! ## Main result -/

/-- **A hit is undone where it was counted exactly when the breaker sends both calls to the same
store, and this store did not refuse the hit without being empty.**  A call that failed below the
threshold leaves the circuit closed, and an open circuit may recover before the undo: then what the
insurance store has counted stays there, and the undo takes it off in Redis.  The pair is made
after any run, with nothing in between, and nothing of the key expires from the increment to the
script of the decrement.  The counter sync that a successful probe starts is an operation of its
own, which runs after the pair.
SOURCE: src/stores/redis-store.ts:995-1066, 1258-1311, src/resilience/CircuitBreaker.ts:79-155 -/
theorem undo_follows_hit_iff {κ μ : Type} [DecidableEq κ] [LinearOrder μ] (o : RedisStoreOptions)
    (cb : CircuitBreakerOptions) (insuranceStore : MemoryStore κ) (hnew : insuranceStore.IsNew)
    (redis : RedisKeys κ μ) (hlegal : redis.Legal) (t₀ : ℤ)
    (is : List (Timed (InsuredRedisEvent κ μ))) (hord : OrderedFrom Timed.time t₀ is)
    (called ended undone taken : ℤ) (hcalled : lastClock Timed.time t₀ is ≤ called)
    (hended : called ≤ ended) (hundone : ended ≤ undone) (htaken : undone ≤ taken) (key : κ)
    (inc : RateLimitIncrementOptions) (dec : RateLimitDecrementOptions)
    (hcost : dec.cost = inc.cost) (outcome : Except StoreError (List μ)) :
    let s := final (InsuredRedis.step o) is (InsuredRedis.new cb insuranceStore redis)
    let s' := (s.perform o called ended (.increment key inc) outcome).perform o undone taken
      (.decrement key dec) (.ok [])
    (∀ members, outcome = .ok members → s.redis.Fresh key inc.sanitizedCost members) →
      s.Lasts called taken key →
        ((s'.redis.count taken key = s.redis.count called key ∧
            storeCount taken key s'.store.insuranceStore =
              storeCount called key s.store.insuranceStore) ↔
          s.UndoneInFull called ended undone taken key inc dec outcome.isOk) := by
  intro s s' hfresh hlasts
  have hsound := (InsuredRedis.sound_new cb hnew hlegal t₀).final (o := o) hord
  have hcosts : dec.sanitizedCost = inc.sanitizedCost := by
    rw [RateLimitDecrementOptions.sanitizedCost, RateLimitIncrementOptions.sanitizedCost, hcost]
  exact (hsound.mono hcalled).undone_iff hended hundone htaken hcosts hfresh hlasts

/-- A hit that Redis counts, and its undo. -/
theorem undo_follows_hit_closed :
    let redis : RedisKeys ℕ ℕ := .windows twoASecond (.fixed fun _ => none)
    let s := InsuredRedis.new {} (.fixed twoASecond (KeyTable.new 0)) redis
    let s' := (s.perform { strategy := .fixedWindow } 5 6 (.increment 7 {}) (.ok [])).perform
      { strategy := .fixedWindow } 8 9 (.decrement 7 {}) (.ok [])
    s'.redis.count 9 7 = s.redis.count 5 7 ∧
      storeCount 9 7 s'.store.insuranceStore = storeCount 5 7 s.store.insuranceStore := by
  have h := undo_follows_hit_iff (μ := ℕ) { strategy := .fixedWindow } {}
    (.fixed twoASecond (KeyTable.new 0)) ⟨0, rfl⟩ (.windows twoASecond (.fixed fun _ => none))
    (fun _ _ h => nomatch h) 0 [] trivial 5 6 8 9 (by decide) (by decide) (by decide) (by decide)
    7 {} {} rfl (.ok []) (fun _ _ => trivial)
  refine (h ⟨⟨by decide, fun _ h => nomatch h⟩, ⟨by decide, rfl⟩⟩).mpr ?_
  exact False.elim

/-- One failed call leaves the circuit closed: its hit stays with the insurance store, and the
undo takes another one off in Redis. -/
theorem undo_misses_hit_closed :
    let o : RedisStoreOptions := { strategy := .fixedWindow }
    let redis : RedisKeys ℕ ℕ := .windows twoASecond (.fixed fun _ => none)
    let s := (InsuredRedis.new {} (.fixed twoASecond (KeyTable.new 0)) redis).perform o 1 2
      (.increment 7 {}) (.ok [])
    let s' := (s.perform o 5 6 (.increment 7 {}) (.error ⟨"timeout"⟩)).perform o 8 9
      (.decrement 7 {}) (.ok [])
    s.Lasts 5 9 7 ∧ s.redis.count 5 7 = 1 ∧ storeCount 5 7 s.store.insuranceStore = 0 ∧
      s'.redis.count 9 7 = 0 ∧ storeCount 9 7 s'.store.insuranceStore = 1 := by
  refine ⟨⟨⟨by decide, fun _ h => nomatch h⟩, ⟨by decide, by decide⟩⟩, ?_⟩
  decide

end RatelimitFlex
