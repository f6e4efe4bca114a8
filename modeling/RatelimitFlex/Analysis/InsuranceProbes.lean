import RatelimitFlex.Library.TimedRun
import RatelimitFlex.Program.RedisResilience

/-!
# The half-open probe slots of `RedisStore`

Every operation asks `canAttempt`, which in HALF_OPEN hands out a probe slot, but only an
increment records its outcome and so gives the slot back.  `ProbesHeld` says that the slots
taken belong to increments Redis has not answered yet; `returnsProbe` is the condition on a
call under which it is kept, and a call that breaks it takes a slot nobody returns.
-/

set_option autoImplicit false

namespace RatelimitFlex

open Library

variable {κ : Type} [DecidableEq κ]

namespace RedisStore

/-- No call waits for Redis. -/
def Idle (s : RedisStore κ) : Prop := s.pending = []

/-- An increment sent to Redis, the one operation that records its outcome with the breaker,
is not answered yet. -/
def awaitsIncrement (s : RedisStore κ) : Bool := s.pending.any StoreOp.isIncrement

/-- No probe slot is taken in HALF_OPEN. -/
def ProbesFree (s : RedisStore κ) : Prop :=
  s.circuitBreaker.state = .halfOpen → s.circuitBreaker.halfOpenInFlight = 0

/-- Slots taken in HALF_OPEN are held while an increment awaits its answer. -/
def ProbesHeld (s : RedisStore κ) : Prop := s.awaitsIncrement = false → s.ProbesFree

/-- A call that takes a probe slot is an increment, or is made while an increment awaits
the answer that will end HALF_OPEN. -/
def returnsProbe (i : Timed (RedisEvent κ)) (s : RedisStore κ) : Bool :=
  match i.op with
  | .call op =>
    decide (op = .purgeExpired) || op.isIncrement || !s.circuitBreaker.takesProbe i.time ||
      s.awaitsIncrement
  | _ => true

/-! ## What the steps do to the breaker and to the pending calls -/

/-- The insurance store does not change the breaker. -/
@[simp] theorem circuitBreaker_viaInsurance (now : ℤ) (op : StoreOp κ) (s : RedisStore κ) :
    (s.viaInsurance now op).1.circuitBreaker = s.circuitBreaker := rfl

/-- It answers no pending call. -/
@[simp] theorem pending_viaInsurance (now : ℤ) (op : StoreOp κ) (s : RedisStore κ) :
    (s.viaInsurance now op).1.pending = s.pending := rfl

/-- A sync does not change the breaker. -/
@[simp] theorem circuitBreaker_synced (s : RedisStore κ) :
    s.synced.circuitBreaker = s.circuitBreaker := by
  unfold synced
  split <;> rfl

/-- It answers no pending call. -/
@[simp] theorem pending_synced (s : RedisStore κ) : s.synced.pending = s.pending := by
  unfold synced
  split <;> rfl

/-- A success that is recorded is recorded in the breaker. -/
@[simp] theorem circuitBreaker_recordSuccess (o : RedisStoreOptions) (s : RedisStore κ) :
    (s.recordSuccess o).circuitBreaker = s.circuitBreaker.recordSuccess.1 := by
  unfold recordSuccess
  simp only
  split <;> rfl

/-- It answers no pending call. -/
@[simp] theorem pending_recordSuccess (o : RedisStoreOptions) (s : RedisStore κ) :
    (s.recordSuccess o).pending = s.pending := by
  unfold recordSuccess
  simp only
  split <;> rfl

/-- A failure of an increment is recorded in the breaker. -/
@[simp] theorem circuitBreaker_handleRedisFailure (now : ℤ) (key : κ)
    (options : RateLimitIncrementOptions) (s : RedisStore κ) :
    (s.handleRedisFailureForIncrement now key options).1.circuitBreaker =
      (s.circuitBreaker.recordFailure now).1 := by
  unfold handleRedisFailureForIncrement
  simp only
  split <;> rfl

/-- It answers no pending call. -/
@[simp] theorem pending_handleRedisFailure (now : ℤ) (key : κ)
    (options : RateLimitIncrementOptions) (s : RedisStore κ) :
    (s.handleRedisFailureForIncrement now key options).1.pending = s.pending := by
  unfold handleRedisFailureForIncrement
  simp only
  split <;> rfl

/-- A purge asks nothing of Redis. -/
theorem call_purgeExpired (now : ℤ) (s : RedisStore κ) :
    (s.call now .purgeExpired).1.circuitBreaker = s.circuitBreaker ∧
      (s.call now .purgeExpired).1.pending = s.pending := by
  simp [call]

/-- Every operation consults the breaker, and is sent to Redis when it is granted. -/
theorem call_eq {op : StoreOp κ} (hop : op ≠ .purgeExpired) (now : ℤ) (s : RedisStore κ) :
    (s.call now op).1.circuitBreaker = (s.circuitBreaker.canAttempt now).1 ∧
      (s.call now op).1.pending =
        if (s.circuitBreaker.canAttempt now).2.1 then s.pending ++ [op] else s.pending := by
  cases hgrant : (s.circuitBreaker.canAttempt now).2.1 with
  | true => simp [call, hop, shouldRouteQuotaViaInsurance, hgrant]
  | false => simp [call, hop, shouldRouteQuotaViaInsurance, hgrant]

/-- The answer to an increment is recorded. -/
theorem answer_increment (o : RedisStoreOptions) (now : ℤ) {i : ℕ}
    (outcome : Except StoreError StoreReply) {s : RedisStore κ} {op : StoreOp κ}
    (h : s.pending[i]? = some op) (hop : op.isIncrement = true) :
    ((s.answer o now i outcome).1.circuitBreaker = s.circuitBreaker.recordSuccess.1 ∨
      (s.answer o now i outcome).1.circuitBreaker = (s.circuitBreaker.recordFailure now).1) ∧
    (s.answer o now i outcome).1.pending = s.pending.eraseIdx i := by
  cases op <;> simp only [StoreOp.isIncrement, Bool.false_eq_true] at hop
  cases outcome with
  | ok reply => exact ⟨Or.inl (by simp [answer, h]), by simp [answer, h]⟩
  | error err => exact ⟨Or.inr (by simp [answer, h]), by simp [answer, h]⟩

/-- The answer to any other call is not. -/
theorem answer_other (o : RedisStoreOptions) (now : ℤ) {i : ℕ}
    (outcome : Except StoreError StoreReply) {s : RedisStore κ} {op : StoreOp κ}
    (h : s.pending[i]? = some op) (hop : op.isIncrement = false) :
    (s.answer o now i outcome).1.circuitBreaker = s.circuitBreaker ∧
      (s.answer o now i outcome).1.pending = s.pending.eraseIdx i := by
  cases op <;> simp only [StoreOp.isIncrement, Bool.true_eq_false] at hop <;> simp [answer, h]

/-- An answer to no call changes nothing. -/
theorem answer_none {o : RedisStoreOptions} {now : ℤ} {i : ℕ}
    {outcome : Except StoreError StoreReply} {s : RedisStore κ} (h : s.pending[i]? = none) :
    (s.answer o now i outcome).1 = s := by
  simp [answer, h]

/-! ## The invariant -/

/-- Nothing but increments can hold slots, and an open circuit knows since when. -/
structure Sound (s : RedisStore κ) : Prop where
  wf : s.circuitBreaker.Wf
  probesHeld : s.ProbesHeld

/-- A new store is sound. -/
theorem sound_new (userCb : CircuitBreakerOptions) (insuranceStore : MemoryStore κ) :
    (RedisStore.new userCb insuranceStore).Sound where
  wf := CircuitBreaker.wf_new userCb
  probesHeld := fun _ h => nomatch h

/-- `ProbesHeld` reads the breaker and the pending calls only. -/
theorem ProbesHeld.congr {s s' : RedisStore κ} (h : s.ProbesHeld)
    (hcb : s'.circuitBreaker = s.circuitBreaker) (hp : s'.awaitsIncrement = s.awaitsIncrement) :
    s'.ProbesHeld := by
  intro hnone
  rw [hp] at hnone
  simpa only [ProbesFree, hcb] using h hnone

/-- A call waits for an increment if it is one and the breaker lets it through. -/
theorem awaitsIncrement_call {op : StoreOp κ} (hop : op ≠ .purgeExpired) (now : ℤ)
    (s : RedisStore κ) :
    (s.call now op).1.awaitsIncrement =
      (s.awaitsIncrement || ((s.circuitBreaker.canAttempt now).2.1 && op.isIncrement)) := by
  unfold awaitsIncrement
  rw [(call_eq hop now s).2]
  cases (s.circuitBreaker.canAttempt now).2.1 <;> simp

omit [DecidableEq κ] in
/-- Dropping a pending call that is no increment. -/
theorem any_eraseIdx {l : List (StoreOp κ)} {i : ℕ} {op : StoreOp κ} (h : l[i]? = some op)
    (hop : op.isIncrement = false) :
    (l.eraseIdx i).any StoreOp.isIncrement = l.any StoreOp.isIncrement := by
  induction l generalizing i with
  | nil => simp at h
  | cons x xs ih =>
    cases i with
    | zero =>
      obtain rfl : x = op := by simpa using h
      simp [hop]
    | succ i => simp [ih (i := i) (by simpa using h)]

/-- A call keeps the store sound when the probe it may take is returned. -/
theorem Sound.call {s : RedisStore κ} (h : s.Sound) {now : ℤ} {op : StoreOp κ}
    (hret : returnsProbe ⟨now, .call op⟩ s = true) : (s.call now op).1.Sound := by
  by_cases hop : op = .purgeExpired
  · subst hop
    obtain ⟨hcb, hp⟩ := call_purgeExpired now s
    exact ⟨by rw [hcb]; exact h.wf, h.probesHeld.congr hcb (by simp only [awaitsIncrement, hp])⟩
  obtain ⟨hcb, hp⟩ := call_eq hop now s
  refine ⟨by rw [hcb]; exact h.wf.canAttempt now, fun hnone => ?_⟩
  rw [awaitsIncrement_call hop, Bool.or_eq_false_iff] at hnone
  unfold ProbesFree
  rw [hcb]
  cases htake : s.circuitBreaker.takesProbe now with
  | true =>
    -- the slot goes to an increment, or an increment is pending already
    have hgrant := (CircuitBreaker.canAttempt_of_takesProbe htake).1
    simp only [hgrant, Bool.true_and] at hnone
    simp [returnsProbe, hop, hnone.2, htake, hnone.1] at hret
  | false =>
    rcases CircuitBreaker.canAttempt_of_not_takesProbe htake with heq | ⟨-, hzero⟩
    · rw [heq]
      exact h.probesHeld hnone.1
    · exact fun _ => hzero

/-- An answer keeps the store sound. -/
theorem Sound.answer {s : RedisStore κ} (h : s.Sound) (o : RedisStoreOptions) (now : ℤ) (i : ℕ)
    (outcome : Except StoreError StoreReply) : (s.answer o now i outcome).1.Sound := by
  cases hi : s.pending[i]? with
  | none =>
    rw [answer_none hi]
    exact h
  | some op =>
    cases hop : op.isIncrement with
    | true =>
      obtain ⟨hcb, -⟩ := answer_increment o now outcome hi hop
      rcases hcb with hcb | hcb
      · exact ⟨by rw [hcb]; exact h.wf.recordSuccess, fun _ hhalf => by
          rw [hcb] at hhalf
          exact absurd hhalf (CircuitBreaker.recordSuccess_state_ne _)⟩
      · exact ⟨by rw [hcb]; exact h.wf.recordFailure now, fun _ hhalf => by
          rw [hcb] at hhalf
          exact absurd hhalf (CircuitBreaker.recordFailure_state_ne _ _)⟩
    | false =>
      obtain ⟨hcb, hp⟩ := answer_other o now outcome hi hop
      exact ⟨by rw [hcb]; exact h.wf, h.probesHeld.congr hcb
        (by simp only [awaitsIncrement, hp, any_eraseIdx hi hop])⟩

/-- One step whose call returns its probe keeps the store sound. -/
theorem Sound.step {s : RedisStore κ} (h : s.Sound) (o : RedisStoreOptions)
    (i : Timed (RedisEvent κ)) (hret : returnsProbe i s = true) : (step o i s).1.Sound := by
  obtain ⟨now, op | ⟨n, outcome⟩ | _⟩ := i
  · exact h.call hret
  · exact h.answer o now n outcome
  · exact ⟨by simpa [RedisStore.step] using h.wf,
      h.probesHeld.congr (circuitBreaker_synced s)
        (by simp [RedisStore.step, awaitsIncrement])⟩

/-! ## Runs -/

/-- A run of answers. -/
def AnswersOnly (is : List (Timed (RedisEvent κ))) : Prop :=
  ∀ i ∈ is, ∃ n outcome, i.op = .answer n outcome

/-- **Every run that returns its probes keeps the store sound.** -/
theorem sound_final {s : RedisStore κ} (h : s.Sound) (o : RedisStoreOptions)
    {is : List (Timed (RedisEvent κ))}
    (hret : Guarded (fun i s => returnsProbe i s = true) (step o) is s) :
    (final (step o) is s).Sound := by
  induction is generalizing s with
  | nil => exact h
  | cons i is ih => exact ih (h.step o i hret.1) hret.2

/-- Answers take no probes. -/
theorem guarded_of_answersOnly {o : RedisStoreOptions} {is : List (Timed (RedisEvent κ))}
    (h : AnswersOnly is) (s : RedisStore κ) :
    Guarded (fun i s => returnsProbe i s = true) (step o) is s := by
  induction is generalizing s with
  | nil => trivial
  | cons i is ih =>
    obtain ⟨n, outcome, hop⟩ := h i List.mem_cons_self
    refine ⟨by simp [returnsProbe, hop], ih (fun j hj => h j (List.mem_cons_of_mem i hj)) _⟩

/-- A sound idle store has its slots free. -/
theorem Sound.probesFree {s : RedisStore κ} (h : s.Sound) (hidle : s.Idle) : s.ProbesFree := by
  refine h.probesHeld ?_
  have hp : s.pending = [] := hidle
  simp [awaitsIncrement, hp]

/-- In a sound idle store an increment after the recovery time goes to Redis. -/
theorem Sound.attempted {s : RedisStore κ} (h : s.Sound) (hidle : s.Idle)
    (hmax : 1 ≤ s.circuitBreaker.halfOpenMaxProbes) {now : ℤ}
    (hrec : s.circuitBreaker.RecoveryElapsed now) (key : κ) (options : RateLimitIncrementOptions) :
    (s.call now (.increment key options)).1.pending = [.increment key options] := by
  have hgrant := CircuitBreaker.canAttempt_granted h.wf hmax (h.probesFree hidle) hrec
  have hp : s.pending = [] := hidle
  rw [(call_eq (by simp) now s).2, if_pos hgrant, hp, List.nil_append]

/-- A step does not change how many probes there are. -/
@[simp] theorem halfOpenMaxProbes_step (o : RedisStoreOptions) (i : Timed (RedisEvent κ))
    (s : RedisStore κ) :
    (step o i s).1.circuitBreaker.halfOpenMaxProbes = s.circuitBreaker.halfOpenMaxProbes := by
  obtain ⟨now, op | ⟨n, outcome⟩ | _⟩ := i
  · by_cases hop : op = .purgeExpired
    · subst hop
      simp only [step, (call_purgeExpired now s).1]
    · simp only [step, (call_eq hop now s).1, CircuitBreaker.halfOpenMaxProbes_canAttempt]
  · simp only [step]
    cases hn : s.pending[n]? with
    | none => rw [answer_none hn]
    | some op =>
      cases hop : op.isIncrement with
      | true =>
        rcases (answer_increment o now outcome hn hop).1 with
          hcb | hcb
        · rw [hcb, CircuitBreaker.halfOpenMaxProbes_recordSuccess]
        · rw [hcb, CircuitBreaker.halfOpenMaxProbes_recordFailure]
      | false => rw [(answer_other o now outcome hn hop).1]
  · simp only [step, circuitBreaker_synced]

/-- Nor does a run. -/
theorem halfOpenMaxProbes_final (o : RedisStoreOptions) (is : List (Timed (RedisEvent κ)))
    (s : RedisStore κ) :
    (final (step o) is s).circuitBreaker.halfOpenMaxProbes =
      s.circuitBreaker.halfOpenMaxProbes := by
  induction is generalizing s with
  | nil => rfl
  | cons i is ih => rw [final_cons, ih, halfOpenMaxProbes_step]

/-! ## A slot nobody returns -/

/-- The slot taken stays taken: HALF_OPEN, with no increment on its way. -/
structure Leaked (s : RedisStore κ) : Prop where
  halfOpen : s.circuitBreaker.state = .halfOpen
  taken : 0 < s.circuitBreaker.halfOpenInFlight
  noIncrement : s.awaitsIncrement = false

/-- A call that does not return its probe leaks it. -/
theorem leaked_step {i : Timed (RedisEvent κ)} {s : RedisStore κ} (o : RedisStoreOptions)
    (h : returnsProbe i s = false) : (step o i s).1.Leaked := by
  obtain ⟨now, op | ⟨n, outcome⟩ | _⟩ := i
  · simp only [returnsProbe, Bool.or_eq_false_iff, decide_eq_false_iff_not,
      Bool.not_eq_false'] at h
    obtain ⟨⟨⟨hop, hinc⟩, htake⟩, hnone⟩ := h
    obtain ⟨-, hhalf, hpos⟩ := CircuitBreaker.canAttempt_of_takesProbe htake
    refine ⟨?_, ?_, ?_⟩
    · rw [step, (call_eq hop now s).1, hhalf]
    · rw [step, (call_eq hop now s).1]
      exact hpos
    · rw [step, awaitsIncrement_call hop, hnone, hinc]
      simp
  · exact nomatch h
  · exact nomatch h

/-- The answers of all pending calls. -/
def answerAll (s : RedisStore κ) : List (Timed (RedisEvent κ)) :=
  s.pending.map fun _ => ⟨0, .answer 0 (.ok .done)⟩

/-- Answering all that is pending makes no call. -/
theorem answersOnly_answerAll (s : RedisStore κ) : AnswersOnly s.answerAll := by
  intro i hi
  obtain ⟨op, -, rfl⟩ := List.mem_map.mp hi
  exact ⟨0, .ok .done, rfl⟩

/-- Once everything is answered the leaked slot is still taken. -/
theorem Leaked.final_answerAll {s : RedisStore κ} (h : s.Leaked) (o : RedisStoreOptions) :
    (final (step o) s.answerAll s).Idle ∧ (final (step o) s.answerAll s).Leaked := by
  generalize hl : s.pending = l
  induction l generalizing s with
  | nil => simpa [answerAll, hl] using ⟨hl, h⟩
  | cons op l ih =>
    have hnone : op.isIncrement = false ∧ l.any StoreOp.isIncrement = false := by
      simpa [awaitsIncrement, hl] using h.noIncrement
    have hi : s.pending[0]? = some op := by simp [hl]
    obtain ⟨hcb, hp⟩ :=
      answer_other o 0 (.ok .done) hi hnone.1
    have hp' : (s.answer o 0 0 (.ok .done)).1.pending = l := by simp [hp, hl]
    have hleak : (s.answer o 0 0 (.ok .done)).1.Leaked :=
      ⟨by rw [hcb]; exact h.halfOpen, by rw [hcb]; exact h.taken,
        by rw [awaitsIncrement, hp']; exact hnone.2⟩
    have hall : s.answerAll =
        ⟨0, .answer 0 (.ok .done)⟩ :: (s.answer o 0 0 (.ok .done)).1.answerAll := by
      simp [answerAll, hl, hp']
    rw [hall, final_cons]
    exact ih hleak hp'

/-! ## Main results -/

/-- The first call that does not return its probe leads to an idle store with a slot taken. -/
theorem exists_leaked_idle {o : RedisStoreOptions} {is : List (Timed (RedisEvent κ))}
    {s : RedisStore κ} (h : ¬ Guarded (fun i s => returnsProbe i s = true) (step o) is s) :
    ∃ p js, p <+: is ∧ AnswersOnly js ∧ (final (step o) (p ++ js) s).Idle ∧
      (final (step o) (p ++ js) s).Leaked := by
  obtain ⟨p, i, rest, rfl, -, hi⟩ := exists_first_unguarded h
  have hfalse : returnsProbe i (final (step o) p s) = false := by simpa using hi
  obtain ⟨hidle, hend⟩ := (leaked_step o hfalse).final_answerAll o
  set s' := (step o i (final (step o) p s)).1 with hs'
  have hrun : final (step o) ((p ++ [i]) ++ s'.answerAll) s = final (step o) s'.answerAll s' := by
    rw [final_append, final_append, final_cons, final_nil, hs']
  refine ⟨p ++ [i], s'.answerAll, ⟨rest, by simp⟩, answersOnly_answerAll s', ?_, ?_⟩
  · rw [hrun]
    exact hidle
  · rw [hrun]
    exact hend

end RedisStore

/-- From a new store every call of a run returns its probe exactly when, however far the run
has got and however Redis answers what is then outstanding, the idle store has its slots
free.  In such a run the first increment after the recovery time, with nothing outstanding,
is sent to Redis.
SOURCE: src/resilience/CircuitBreaker.ts:79-155, src/stores/redis-store.ts:803-808, 995-1066,
1258-1460 -/
theorem redisStore_returns_probes_iff (o : RedisStoreOptions) (userCb : CircuitBreakerOptions)
    (insuranceStore : MemoryStore κ) (is : List (Timed (RedisEvent κ))) :
    (Guarded (fun i s => RedisStore.returnsProbe i s = true) (RedisStore.step o) is
        (RedisStore.new userCb insuranceStore) ↔
      ∀ p js, p <+: is → RedisStore.AnswersOnly js →
        (final (RedisStore.step o) (p ++ js) (RedisStore.new userCb insuranceStore)).Idle →
        (final (RedisStore.step o) (p ++ js)
          (RedisStore.new userCb insuranceStore)).ProbesFree) ∧
    (Guarded (fun i s => RedisStore.returnsProbe i s = true) (RedisStore.step o) is
        (RedisStore.new userCb insuranceStore) →
      1 ≤ (CircuitBreaker.new userCb).halfOpenMaxProbes →
      ∀ s, s = final (RedisStore.step o) is (RedisStore.new userCb insuranceStore) → s.Idle →
        ∀ now : ℤ, s.circuitBreaker.RecoveryElapsed now →
        ∀ (key : κ) (options : RateLimitIncrementOptions),
          (s.call now (.increment key options)).1.pending = [.increment key options]) := by
  have hnew := RedisStore.sound_new userCb insuranceStore
  refine ⟨⟨fun hret p js hp hjs hidle => ?_, fun h => ?_⟩,
    fun hret hmax s hs hidle now hrec key options => ?_⟩
  · obtain ⟨rest, rfl⟩ := hp
    have hhead := (guarded_append.mp hret).1
    have hall : Guarded (fun i s => RedisStore.returnsProbe i s = true) (RedisStore.step o)
        (p ++ js) (RedisStore.new userCb insuranceStore) :=
      guarded_append.mpr ⟨hhead, RedisStore.guarded_of_answersOnly hjs _⟩
    exact (RedisStore.sound_final hnew o hall).probesFree hidle
  · by_contra hret
    obtain ⟨p, js, hp, hjs, hidle, hleak⟩ := RedisStore.exists_leaked_idle hret
    have hfree := h p js hp hjs hidle hleak.halfOpen
    have := hleak.taken
    omega
  · have hsound : s.Sound := hs ▸ RedisStore.sound_final hnew o hret
    refine hsound.attempted hidle ?_ hrec key options
    rw [hs, RedisStore.halfOpenMaxProbes_final]
    exact hmax

/-- A fixed-window store with an insurance limiter and the default breaker. -/
def insuredStore : RedisStore ℕ :=
  .new {} (.fixed tenASecond (KeyTable.new 0))

/-- The options of `insuredStore`. -/
def insuredOptions : RedisStoreOptions :=
  { strategy := .fixedWindow, windowMs := 1000, maxRequests := 10 }

/-- Three increments that Redis does not answer: the circuit opens at time 1. -/
def outage : List (Timed (RedisEvent ℕ)) :=
  [⟨0, .call (.increment 1 {})⟩, ⟨0, .call (.increment 1 {})⟩, ⟨0, .call (.increment 1 {})⟩,
    ⟨1, .answer 0 (.error ⟨"timeout"⟩)⟩, ⟨1, .answer 0 (.error ⟨"timeout"⟩)⟩,
    ⟨1, .answer 0 (.error ⟨"timeout"⟩)⟩]

/-- After the outage and the recovery time the next increment is sent to Redis. -/
theorem redisStore_returns_probes_outage :
    ((final (RedisStore.step insuredOptions) outage insuredStore).call 6000
      (.increment 1 {})).1.pending = [.increment 1 {}] := by
  have hret : Guarded (fun i s => RedisStore.returnsProbe i s = true)
      (RedisStore.step insuredOptions) outage insuredStore := by decide
  have hopen : (final (RedisStore.step insuredOptions) outage
      insuredStore).circuitBreaker.openedAtMs = some 1 := rfl
  refine (redisStore_returns_probes_iff insuredOptions {} _ outage).2 hret (by decide) _ rfl rfl
    6000 (fun openedAt h => ?_) 1 {}
  have hone : openedAt = 1 := Option.some.inj (h.symm.trans hopen)
  rw [hone]
  exact (by decide : (1 : ℤ) + 5000 ≤ 6000)

/-- After the outage and the recovery time a `get` takes the one probe slot and is answered.
Nothing is outstanding, the slot is taken, and no increment is sent to Redis any more,
whatever the time. -/
theorem redisStore_get_keeps_probe :
    let s := final (RedisStore.step insuredOptions)
      (outage ++ [⟨6000, .call (.get 1)⟩, ⟨6001, .answer 0 (.ok (.snapshot none))⟩]) insuredStore
    s.Idle ∧ s.circuitBreaker.state = .halfOpen ∧ s.circuitBreaker.halfOpenInFlight = 1 ∧
      ∀ now : ℤ, (s.call now (.increment 1 {})).1.pending = [] :=
  ⟨rfl, rfl, rfl, fun _ => rfl⟩

end RatelimitFlex
