import RatelimitFlex.Analysis.ComposedRetry
import RatelimitFlex.Analysis.RedisBucketExpiry
import RatelimitFlex.Analysis.ShieldInterleavings
import RatelimitFlex.Program.RedisResilience
import RatelimitFlex.Program.RedisWindows

/-!
# Nothing remains when blocked

`RateLimitResult.remaining` is documented as `0` when the result blocks.  The windows and
the bucket of a `MemoryStore` keep this, and so do the Redis windows and the insurance
store.  The Redis bucket answers what tokens it has; mode `all` answers the least of the
layers, of which a rejected one has no part; the shield answers what the increment that
filled it was answered.  Composed stores and shields stand over arbitrary stores, so the
conditions also say what a nesting answers.
-/

set_option autoImplicit false

namespace RatelimitFlex

open Library

variable {σ κ μ : Type} [DecidableEq κ] [LinearOrder μ]

/-- A result that blocks leaves nothing.
SOURCE: src/types/index.ts:57-64 -/
def RateLimitResult.SpentWhenBlocked (r : RateLimitResult) : Prop :=
  r.isBlocked = true → r.remaining = 0

instance (r : RateLimitResult) : Decidable r.SpentWhenBlocked :=
  inferInstanceAs (Decidable (_ → _))

namespace RateLimitResult

/-- An allowed answer says nothing about what remains. -/
theorem spentWhenBlocked_of_allowed {r : RateLimitResult} (h : r.isBlocked = false) :
    r.SpentWhenBlocked := by
  intro hblocked
  rw [h] at hblocked
  exact absurd hblocked Bool.false_ne_true

/-- An answer with nothing left is fine either way. -/
theorem spentWhenBlocked_of_zero {r : RateLimitResult} (h : r.remaining = 0) :
    r.SpentWhenBlocked := fun _ => h

/-- An answer made from the usage leaves nothing when it is blocked. -/
theorem spentWhenBlocked_ofUsage (totalHits : ℤ) (cap : ℕ) (resetTime : ℤ) :
    (ofUsage totalHits cap resetTime).SpentWhenBlocked := by
  intro hblocked
  rw [isBlocked_ofUsage, decide_eq_true_eq] at hblocked
  rw [remaining_ofUsage]
  omega

end RateLimitResult

open RateLimitResult

/-! ## `MemoryStore` -/

namespace MemoryStore

variable (m : MemoryStore κ) (now : ℤ) (key : κ)

/-- So does the answer of an increment in memory. -/
theorem spentWhenBlocked_increment (options : RateLimitIncrementOptions) :
    (m.increment now key options).2.SpentWhenBlocked := by
  cases m with
  | sliding o table => exact spentWhenBlocked_ofUsage _ _ _
  | fixed o table => exact spentWhenBlocked_ofUsage _ _ _
  | bucket o table =>
    simp only [increment, incrementTokenBucket_snd]
    unfold bucketResult
    split
    · exact spentWhenBlocked_of_allowed rfl
    · exact spentWhenBlocked_of_zero rfl

/-- So does that of a `set`. -/
theorem spentWhenBlocked_set (totalHits : ℤ) (expiresAt : Option ℤ) :
    (m.set now key totalHits expiresAt).2.SpentWhenBlocked := by
  cases m with
  | sliding o table => exact spentWhenBlocked_ofUsage _ _ _
  | fixed o table => exact spentWhenBlocked_ofUsage _ _ _
  | bucket o table =>
    intro hblocked
    simp only [set, setTokenBucket] at hblocked ⊢
    rw [if_pos hblocked]

/-- So does every answer of the memory store. -/
theorem spentWhenBlocked_step {i : Timed (StoreOp κ)} {r : RateLimitResult}
    (h : (m.step i).2 = .result r) : r.SpentWhenBlocked := by
  obtain ⟨t, op⟩ := i
  cases op with
  | increment key options =>
    obtain rfl := StoreReply.result.inj h
    exact m.spentWhenBlocked_increment t key options
  | set key totalHits expiresAt =>
    obtain rfl := StoreReply.result.inj h
    exact m.spentWhenBlocked_set t key totalHits expiresAt
  | decrement key options => simp [step] at h
  | get key => simp [step] at h
  | reset key => simp [step] at h
  | delete key => simp [step] at h
  | purgeExpired => simp [step] at h

end MemoryStore

/-! ## `RedisStore` -/

/-- The bucket refuses a cost it cannot serve, and names the tokens it has. -/
theorem RedisBucket.spentWhenBlocked_iff (o : TokenBucketOptions) (i : Timed ℕ)
    (s : Option RedisHash) :
    (incrBucketRedis o i s).2.SpentWhenBlocked ↔
      (charged i.op : ℤ) ≤ Bucket.seen o i.time (liveBucket i.time s) ∨
        Bucket.seen o i.time (liveBucket i.time s) = 0 := by
  have hseen : (refilled o i.time (live i.time s)).tokens =
      Bucket.seen o i.time (liveBucket i.time s) := rfl
  unfold incrBucketRedis
  simp only [luaBucketIncr_refilled, hseen]
  split
  · next hserved => exact iff_of_true (spentWhenBlocked_of_allowed rfl) (Or.inl hserved)
  · next hrefused =>
    constructor
    · exact fun h => Or.inr (h rfl)
    · rintro (hserved | hzero)
      · exact absurd hserved hrefused
      · exact spentWhenBlocked_of_zero hzero

/-- So does every sliding increment in Redis. -/
theorem RedisSliding.spentWhenBlocked_increment (o : WindowOptions) (now : ℤ)
    (maxRequests cost : ℕ) (members : List μ) (s : Option (RedisKey (ZSet μ))) :
    (luaSlidingIncr o now maxRequests cost members s).2.SpentWhenBlocked :=
  spentWhenBlocked_ofUsage _ _ _

/-- So does every fixed one. -/
theorem RedisFixed.spentWhenBlocked_increment (o : WindowOptions) (now : ℤ)
    (maxRequests cost : ℕ) (s : Option (RedisKey ℤ)) :
    (luaFixedIncr o now maxRequests cost s).2.SpentWhenBlocked :=
  spentWhenBlocked_ofUsage _ _ _

namespace RedisStore

variable (o : RedisStoreOptions) (now : ℤ) (s : RedisStore κ)

/-- The answer of a store that has no insurance and cannot reach Redis. -/
theorem spentWhenBlocked_redisIncrementFailure :
    (redisIncrementFailure o now).SpentWhenBlocked := by
  unfold redisIncrementFailure failOpenResult failClosedIncrementResult
  split
  · split <;> exact spentWhenBlocked_of_zero rfl
  · split <;> exact spentWhenBlocked_of_allowed rfl

/-- So does every answer by the insurance store. -/
theorem spentWhenBlocked_viaInsurance {op : StoreOp κ} {r : RateLimitResult}
    (h : (s.viaInsurance now op).2 = .result r) : r.SpentWhenBlocked := by
  unfold viaInsurance at h
  simp only at h
  cases hreply : (s.insuranceStore.step ⟨now, op⟩).2 with
  | result result =>
    have hspent := s.insuranceStore.spentWhenBlocked_step hreply
    rw [hreply] at h
    cases op <;> simp only [StoreReply.result.injEq] at h <;> subst h <;> exact hspent
  | done => cases op <;> simp [hreply] at h
  | snapshot found => cases op <;> simp [hreply] at h
  | deleted existed => cases op <;> simp [hreply] at h

/-- What a step answers is what Redis answered, or leaves nothing when it blocks. -/
theorem spentWhenBlocked_step {i : Timed (RedisEvent κ)} {r : RateLimitResult}
    (h : (s.step o i).2 = some (.ok (.result r))) :
    (∃ n, i.op = .answer n (.ok (.result r))) ∨ r.SpentWhenBlocked := by
  obtain ⟨t, event⟩ := i
  cases event with
  | call op =>
    right
    simp only [step, call] at h
    split at h
    · simp at h
    · split at h
      · rw [Option.some.injEq, Except.ok.injEq] at h
        exact spentWhenBlocked_viaInsurance t _ h
      · simp at h
  | synced => simp [step] at h
  | answer n outcome =>
    simp only [step, answer] at h
    split at h
    · simp at h
    · split at h
      · rw [Option.some.injEq, Except.ok.injEq] at h
        exact Or.inl ⟨n, by rw [h]⟩
      · rw [Option.some.injEq, Except.ok.injEq] at h
        exact Or.inr (spentWhenBlocked_viaInsurance t _ h)
      · next op outcome' _ _ =>
        rw [Option.some.injEq] at h
        unfold replyWithoutRecord at h
        split at h
        · simp at h
        · rw [Except.ok.injEq] at h
          exact Or.inl ⟨n, by rw [h]⟩
        · simp at h
        · rw [Except.ok.injEq, StoreReply.result.injEq] at h
          exact Or.inr (h ▸ spentWhenBlocked_redisIncrementFailure o t)
        · split at h <;> simp at h
        · split at h <;> simp at h

end RedisStore

/-! ## `ComposedStore` -/

namespace ComposedStore

/-- Among the layers of mode `all` that answered, the least quota left is none; a race
answers with a result that leaves nothing when it blocks. -/
def LeavesNothing (c : ComposedStore σ κ) (key : κ) (options : RateLimitIncrementOptions)
    (st : ComposedState σ κ) : Prop :=
  let settled := (incrementLayers key options c.layers st.inner).1
  match c.mode with
  | .all => isRefused settled = true →
      fulfilled settled = [] ∨
        ((∃ r ∈ fulfilled settled, r.remaining = 0) ∧ ∀ r ∈ fulfilled settled, 0 ≤ r.remaining)
  | .race => ∀ first ∈ c.settledFirst st.inner, ∀ p ∈ raceWinner settled first,
      p.2.SpentWhenBlocked
  | _ => True

/-- The minimum is zero when a zero is among numbers that are none of them negative, or when there
are none. -/
theorem minimum_eq_zero_iff {xs : List ℤ} :
    minimum xs = 0 ↔ xs = [] ∨ (0 ∈ xs ∧ ∀ x ∈ xs, 0 ≤ x) := by
  constructor
  · intro h
    by_cases hxs : xs = []
    · exact Or.inl hxs
    · refine Or.inr ⟨h ▸ minimum_mem hxs, fun x hx => ?_⟩
      rw [← h]
      exact minimum_le hx
  · rintro (rfl | ⟨hmem, hall⟩)
    · rfl
    · exact le_antisymm (minimum_le hmem) (hall _ (minimum_mem (List.ne_nil_of_mem hmem)))

variable (c : ComposedStore σ κ) (key : κ) (options : RateLimitIncrementOptions)
  (st : ComposedState σ κ)

/-- With all layers a blocked answer leaves nothing exactly when one of the layers has nothing
left. -/
theorem spentWhenBlocked_all :
    (c.incrementAll key options st).1.SpentWhenBlocked ↔
      (isRefused (incrementLayers key options c.layers st.inner).1 = true →
        minimum ((fulfilled (incrementLayers key options c.layers st.inner).1).map
          RateLimitResult.remaining) = 0) := by
  unfold incrementAll isRefused
  simp only
  split
  · next hrefused => exact ⟨fun h _ => h rfl, fun h _ => h hrefused⟩
  · next hallowed =>
    exact iff_of_true (spentWhenBlocked_of_allowed rfl) fun h => absurd h hallowed

/-- An overflow leaves nothing when it is blocked. -/
theorem spentWhenBlocked_overflow {r : RateLimitResult}
    (h : (c.incrementOverflow key options st).1 = .ok r) : r.SpentWhenBlocked := by
  unfold incrementOverflow at h
  simp only at h
  split at h
  · simp at h
  · next pr inner _ =>
    split at h
    · next hallowed =>
      obtain rfl := Except.ok.inj h
      exact spentWhenBlocked_of_allowed (by simpa using hallowed)
    · split at h
      · simp at h
      · split at h
        · obtain rfl := Except.ok.inj h
          exact spentWhenBlocked_of_allowed rfl
        · obtain rfl := Except.ok.inj h
          exact spentWhenBlocked_of_zero rfl

omit [DecidableEq κ] in
/-- Only a layer that allows wins. -/
theorem isBlocked_of_tryLayers {layers : List (CompositionLayer σ κ)} {n : ℕ} {tried : Tried}
    {s : σ} {w : ℕ × CompositionLayer σ κ × RateLimitResult}
    (h : (c.tryLayers key options n layers tried s).1.1 = some w) : w.2.2.isBlocked = false := by
  induction layers generalizing n tried s with
  | nil => simp [tryLayers] at h
  | cons layer rest ih =>
    unfold tryLayers at h
    split at h
    · exact ih h
    · next r s' _ =>
      simp only at h
      split at h
      · next hallowed =>
        obtain rfl := Option.some.inj h
        simpa using hallowed
      · exact ih h

/-- So does the first available layer. -/
theorem spentWhenBlocked_firstAvailable :
    (c.incrementFirstAvailable key options st).1.SpentWhenBlocked := by
  unfold incrementFirstAvailable
  split
  · next i layer r tried inner htry =>
    have hwinner : (c.tryLayers key options 0 c.layers ⟨[], c.primary.label, none⟩
        st.inner).1.1 = some (i, layer, r) := by
      rw [htry]
    exact spentWhenBlocked_of_allowed (c.isBlocked_of_tryLayers key options hwinner)
  · exact spentWhenBlocked_of_zero rfl

/-- A race leaves nothing exactly when its winner does. -/
theorem spentWhenBlocked_race :
    (c.incrementRace key options st).1.SpentWhenBlocked ↔
      ∀ first ∈ c.settledFirst st.inner,
        ∀ p ∈ raceWinner (incrementLayers key options c.layers st.inner).1 first,
          p.2.SpentWhenBlocked := by
  unfold incrementRace
  simp only
  cases hfirst : c.settledFirst st.inner with
  | none => exact iff_of_true (spentWhenBlocked_of_zero rfl) (by simp)
  | some first =>
    simp only [Option.mem_some_iff, forall_eq']
    cases hwinner : raceWinner (incrementLayers key options c.layers st.inner).1 first with
    | none => exact iff_of_true (spentWhenBlocked_of_zero rfl) (by simp)
    | some p => simp [RateLimitResult.SpentWhenBlocked]

/-- In all four modes, by the layers alone. -/
theorem spentWhenBlocked_iff {r : RateLimitResult}
    (h : (c.increment key options st).1 = .ok r) :
    r.SpentWhenBlocked ↔ c.LeavesNothing key options st := by
  unfold increment at h
  unfold LeavesNothing
  cases hmode : c.mode with
  | all =>
    simp only [hmode] at h ⊢
    obtain rfl := Except.ok.inj h
    rw [spentWhenBlocked_all, minimum_eq_zero_iff]
    simp
  | overflow =>
    simp only [hmode] at h ⊢
    exact iff_of_true (c.spentWhenBlocked_overflow key options st h) trivial
  | firstAvailable =>
    simp only [hmode] at h ⊢
    obtain rfl := Except.ok.inj h
    exact iff_of_true (c.spentWhenBlocked_firstAvailable key options st) trivial
  | race =>
    simp only [hmode] at h ⊢
    obtain rfl := Except.ok.inj h
    exact c.spentWhenBlocked_race key options st

end ComposedStore

/-! ## `InMemoryShield` -/

namespace ShieldRun

variable (o : InMemoryShieldOptions)

/-- An entry of the cache is served only where the increment that filled it was answered
that nothing remains; and an answer of the inner store leaves nothing when it blocks. -/
def AnswersSpent (i : Timed (ShieldEvent κ)) (s : ShieldRun κ) : Prop :=
  match i.op with
  | .start key => InMemoryShield.isShielded i.time key s.cache = true →
      ∀ f ∈ s.origin key, ∀ c ∈ f.counted, c.2.remaining ≤ 0
  | .resume n => ∀ p ∈ s.answered n, p.2.2.SpentWhenBlocked
  | _ => True

/-- Whom the entries of the cache stem from, and what they keep of the answer. -/
def Stems (s : ShieldRun κ) : Prop :=
  ∀ k entry, s.cache.lookup k = some entry → ∃ f c, s.origin k = some f ∧ f.counted = some c ∧
    entry.cachedResult.isBlocked = true ∧ entry.cachedResult.remaining = max 0 c.2.remaining

variable {o} {s : ShieldRun κ} {i : Timed (ShieldEvent κ)}

/-- Blocks that were cached stem from where they did. -/
theorem Stems.mono {s' : ShieldRun κ} (h : s.Stems) (horigin : s'.origin = s.origin)
    (hcache : ∀ k entry, s'.cache.lookup k = some entry → s.cache.lookup k = some entry) :
    s'.Stems := by
  intro k entry hk
  rw [horigin]
  exact h k entry (hcache k entry hk)

/-- An increment that was answered was counted. -/
theorem counted_of_answered {n : ℕ} {p : Flight κ × ℕ × RateLimitResult}
    (h : s.answered n = some p) : p.1.counted = some p.2 := by
  unfold answered at h
  obtain ⟨f, -, h⟩ := Option.bind_eq_some_iff.mp h
  obtain ⟨c, hc, rfl⟩ := Option.map_eq_some_iff.mp h
  exact hc

/-- Every step keeps the origin of the cached blocks. -/
theorem Stems.step (h : s.Stems) (i : Timed (ShieldEvent κ)) : (step o i s).1.Stems := by
  obtain ⟨now, op⟩ := i
  cases op with
  | start key =>
    simp only [ShieldRun.step]
    split
    · exact h
    · exact h.mono rfl fun _ _ => InMemoryShield.lookup_of_erase
  | count n result =>
    simp only [ShieldRun.step]
    split
    · split <;> exact h
    · exact h
  | reject n => exact h
  | resume n =>
    simp only [ShieldRun.step]
    cases hanswered : s.answered n with
    | none => exact h
    | some p =>
      obtain ⟨f, c, result⟩ := p
      have hcounted := counted_of_answered hanswered
      intro k entry hk
      simp only at hk ⊢
      rcases InMemoryShield.lookup_of_afterAnswer hk with
        ⟨rfl, hreached, -, hblocked, hremaining⟩ | hold
      · refine ⟨f, (c, result), ?_, hcounted, hblocked, hremaining⟩
        rw [if_pos hreached, Function.update_self]
      · by_cases hself : k = f.key ∧ o.blockOnConsumed ≤ result.totalHits
        · obtain ⟨rfl, hreached⟩ := hself
          rw [InMemoryShield.afterAnswer, if_pos hreached, InMemoryShield.cacheBlock,
            InsertionMap.lookup_set_self] at hk
          obtain rfl := Option.some.inj hk
          exact ⟨f, (c, result), by rw [if_pos hreached, Function.update_self], hcounted, rfl, rfl⟩
        · obtain ⟨f', c', horigin, hrest⟩ := h k entry hold
          refine ⟨f', c', ?_, hrest⟩
          split
          · next hreached =>
            rw [Function.update_of_ne fun hkey => hself ⟨hkey, hreached⟩]
            exact horigin
          · exact horigin
  | unblock key => exact h.mono rfl fun _ _ => InMemoryShield.lookup_of_erase
  | effect n =>
    simp only [ShieldRun.step]
    split
    · split <;> exact h
    · exact h
  | settle n =>
    simp only [ShieldRun.step]
    split
    · split <;> exact h
    · exact h
  | unshield key => exact h.mono rfl fun _ _ => InMemoryShield.lookup_of_erase
  | sweep => exact h.mono rfl fun _ _ => InMemoryShield.lookup_of_sweep
  | clearShield =>
    intro k entry hk
    simp [ShieldRun.step] at hk

/-- One event answers with a result that leaves nothing when it blocks, exactly when the
entry it serves, or the answer it passes on, does. -/
theorem spentWhenBlocked_step (h : s.Stems) (i : Timed (ShieldEvent κ)) :
    (∀ r ∈ (step o i s).2, r.SpentWhenBlocked) ↔ AnswersSpent i s := by
  obtain ⟨now, op⟩ := i
  cases op with
  | start key =>
    simp only [ShieldRun.step, AnswersSpent, InMemoryShield.isShielded,
      InMemoryShield.blockedAnswer]
    cases hentry : s.cache.lookup key with
    | none => simp
    | some entry =>
      by_cases hserved : now < entry.expiresAt
      · obtain ⟨f, c, horigin, hcounted, hblocked, hremaining⟩ := h key entry hentry
        simp only [Option.bind_some, if_pos hserved, Option.isSome_some, forall_const,
          Option.mem_def, Option.some.injEq, forall_eq', horigin, hcounted,
          RateLimitResult.SpentWhenBlocked, hblocked, hremaining]
        exact max_eq_left_iff
      · simp [hserved]
  | count n result =>
    simp only [ShieldRun.step, AnswersSpent]
    split
    · split <;> simp
    · simp
  | resume n =>
    simp only [ShieldRun.step, AnswersSpent]
    cases hanswered : s.answered n with
    | none => simp
    | some p => simp [RateLimitResult.SpentWhenBlocked]
  | effect n =>
    simp only [ShieldRun.step, AnswersSpent]
    split
    · split <;> simp
    · simp
  | settle n =>
    simp only [ShieldRun.step, AnswersSpent]
    split
    · split <;> simp
    · simp
  | reject n => simp [ShieldRun.step, AnswersSpent]
  | unblock key => simp [ShieldRun.step, AnswersSpent]
  | unshield key => simp [ShieldRun.step, AnswersSpent]
  | sweep => simp [ShieldRun.step, AnswersSpent]
  | clearShield => simp [ShieldRun.step, AnswersSpent]

/-- A run answers so exactly when each of its events does. -/
theorem spentWhenBlocked_run (h : s.Stems) (is : List (Timed (ShieldEvent κ))) :
    (∀ x ∈ outputs (step o) is s, ∀ r ∈ x, r.SpentWhenBlocked) ↔
      Guarded AnswersSpent (step o) is s := by
  induction is generalizing s with
  | nil => simp
  | cons i is ih =>
    rw [outputs_cons, guarded_cons, List.forall_mem_cons, spentWhenBlocked_step h,
      ih (h.step i)]

end ShieldRun

/-! ## Main results -/

/-- **What remains when blocked.**  Every result of a `MemoryStore`, of the Redis windows,
of a fallback without Redis and of the insurance store that blocks has nothing remaining.
One of the Redis bucket does exactly when its cost was there or no token was; one of a
composed store, over any layers, exactly when `LeavesNothing`; those of a shield, over any
inner answers and in any order of its events, exactly when `AnswersSpent` at each of them.
SOURCE: src/types/index.ts:57-64, src/stores/redis-store.ts:298-312,
src/composition/ComposedStore.ts:464-495, src/shield/InMemoryShield.ts:100-169 -/
theorem blocked_leaves_nothing_iff :
    (∀ (m : MemoryStore κ) (now : ℤ) (key : κ) (options : RateLimitIncrementOptions),
      (m.increment now key options).2.SpentWhenBlocked) ∧
    (∀ (o : WindowOptions) (now : ℤ) (maxRequests cost : ℕ) (members : List μ)
      (s : Option (RedisKey (ZSet μ))),
      (RedisSliding.luaSlidingIncr o now maxRequests cost members s).2.SpentWhenBlocked) ∧
    (∀ (o : WindowOptions) (now : ℤ) (maxRequests cost : ℕ) (s : Option (RedisKey ℤ)),
      (RedisFixed.luaFixedIncr o now maxRequests cost s).2.SpentWhenBlocked) ∧
    (∀ (o : TokenBucketOptions) (i : Timed ℕ) (s : Option RedisHash),
      (RedisBucket.incrBucketRedis o i s).2.SpentWhenBlocked ↔
        (RedisBucket.charged i.op : ℤ) ≤ Bucket.seen o i.time (RedisBucket.liveBucket i.time s) ∨
          Bucket.seen o i.time (RedisBucket.liveBucket i.time s) = 0) ∧
    (∀ (o : RedisStoreOptions) (now : ℤ),
      (RedisStore.redisIncrementFailure o now).SpentWhenBlocked) ∧
    (∀ (o : RedisStoreOptions) (s : RedisStore κ) (i : Timed (RedisEvent κ)) (r : RateLimitResult),
      (s.step o i).2 = some (.ok (.result r)) →
        (∃ n, i.op = .answer n (.ok (.result r))) ∨ r.SpentWhenBlocked) ∧
    (∀ (c : ComposedStore σ κ) (key : κ) (options : RateLimitIncrementOptions)
      (st : ComposedState σ κ) (r : RateLimitResult), (c.increment key options st).1 = .ok r →
        (r.SpentWhenBlocked ↔ c.LeavesNothing key options st)) ∧
    (∀ (o : InMemoryShieldOptions) (is : List (Timed (ShieldEvent κ))),
      (∀ x ∈ outputs (ShieldRun.step o) is ({} : ShieldRun κ), ∀ r ∈ x, r.SpentWhenBlocked) ↔
        Guarded ShieldRun.AnswersSpent (ShieldRun.step o) is ({} : ShieldRun κ)) := by
  refine ⟨?_, ?_, ?_, ?_, ?_, ?_, ?_, ?_⟩
  · exact fun m now key options => m.spentWhenBlocked_increment now key options
  · exact fun o now maxRequests cost members s =>
      RedisSliding.spentWhenBlocked_increment o now maxRequests cost members s
  · exact fun o now maxRequests cost s =>
      RedisFixed.spentWhenBlocked_increment o now maxRequests cost s
  · exact fun o i s => RedisBucket.spentWhenBlocked_iff o i s
  · exact fun o now => RedisStore.spentWhenBlocked_redisIncrementFailure o now
  · exact fun o s i r h => RedisStore.spentWhenBlocked_step o s h
  · exact fun c key options st r h => c.spentWhenBlocked_iff key options st h
  · intro o is
    exact ShieldRun.spentWhenBlocked_run (fun k entry hk => by simp at hk) is

/-- A window of ten a second beside a layer that rejects. -/
def besideRejecting : ComposedState (StoreBank ℕ) ℕ where
  inner :=
    { stores := fun _ => .fixed tenASecond (KeyTable.new 0)
      now := 0
      failing := fun j => if j = 1 then some ⟨"down"⟩ else none }

/-- A bucket refuses a cost of five and names its three tokens; a composed store blocks for
a layer that rejects and names the nine hits of the other one; a shield of one hit blocks
the second of ten and names the nine that remain. -/
theorem blocked_answers_what_remains :
    ((outputs (RedisBucket.incrBucketRedis tenAtMost) [⟨0, 7⟩, ⟨1, 5⟩] none).map fun r =>
      (r.isBlocked, r.remaining)) = [(false, 3), (true, 3)] ∧
    (secondAndMinute.store.increment 7 {} besideRejecting).1.toOption.map (fun r =>
      (r.isBlocked, r.remaining)) = some (true, 9) ∧
    ((outputs (ShieldRun.step atFirstHit) [⟨0, .start 7⟩,
      ⟨0, .count 0 (((MemoryStore.fixed tenASecond (KeyTable.new 0)).increment 0 7 {}).2)⟩,
      ⟨0, .resume 0⟩, ⟨1, .start 7⟩] ({} : ShieldRun ℕ)).map fun x =>
        x.map fun r => (r.isBlocked, r.remaining)) =
      [none, none, some (false, 9), some (true, 9)] := by
  refine ⟨?_, ?_, ?_⟩
  all_goals decide +kernel

end RatelimitFlex
