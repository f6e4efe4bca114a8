import RatelimitFlex.Analysis.RedisCounts
import RatelimitFlex.Analysis.ShieldBlocks
import RatelimitFlex.Program.ShieldedRedis

/-!
# The blocks of a shield over Redis

An increment of cost one is blocked just when Redis counts the whole limit for its key
(`RedisKeys.isBlocked_increment_iff`), and what nobody touches counts for less and less
(`RedisKeys.le_count_of_le`).  So a block is sound up to its end if Redis still counts the
limit at its last millisecond.  The shield takes the window or the interval for the end, while
a slice ends with its key, a hit leaves by itself and a bucket is refilled on its own beat.
-/

set_option autoImplicit false

namespace RatelimitFlex

open Library InMemoryShield

/-! ## What Redis counts -/

namespace RedisBucket

variable {o : TokenBucketOptions} {t u L : ℤ} {s : Option RedisHash}

/-- A refill gives no more to an earlier moment. -/
theorem tokens_refill_le_of_lt_full {b : Bucket} (ht : t ≤ u)
    (h : (b.refill o u).tokens < o.bucketSize) : (b.refill o t).tokens ≤ (b.refill o u).tokens := by
  have hI := o.interval_pos
  have hR := o.tokensPerInterval_pos
  have hq : (t - b.lastRefill) / o.interval ≤ (u - b.lastRefill) / o.interval :=
    Int.ediv_le_ediv (by exact_mod_cast hI) (by omega)
  have hmul := mul_le_mul_of_nonneg_right hq (show (0 : ℤ) ≤ o.tokensPerInterval by omega)
  simp only [Bucket.refill] at h ⊢
  by_cases hu : 0 < (u - b.lastRefill) / (o.interval : ℤ)
  · rw [if_pos hu] at h ⊢
    simp only at h ⊢
    have hgain : 0 ≤ (u - b.lastRefill) / o.interval * o.tokensPerInterval := by positivity
    split
    · simp only
      omega
    · omega
  · rw [if_neg hu, if_neg (by omega)]

/-- What a bucket misses at the end it misses all the time before. -/
theorem le_missing_of_le (ht : t ≤ u) (hL : 1 ≤ L) (h : L ≤ missing o u s) :
    L ≤ missing o t s := by
  unfold missing at h ⊢
  cases s with
  | none =>
    simp [live] at h
    omega
  | some x =>
    by_cases hu : u < x.expireAt
    · have hlive : live u (some x) = some x := by simp [live, Option.filter, hu]
      have hlive' : live t (some x) = some x := by simp [live, Option.filter, ht.trans_lt hu]
      simp only [hlive, hlive', Option.map_some, Option.getD_some] at h ⊢
      have hle := @tokens_refill_le_of_lt_full o t u ⟨x.tokens, x.lastRefill⟩ ht (by omega)
      omega
    · have hlive : live u (some x) = none := by simp [live, Option.filter, hu]
      simp [hlive] at h
      omega

end RedisBucket

namespace RedisKeys

variable {κ μ : Type} [DecidableEq κ] [LinearOrder μ] {r : RedisKeys κ μ} {key k : κ}
  {options : RateLimitIncrementOptions} {drawn : List μ} {t u now clock L : ℤ}

/-- The limit of an increment. -/
def limit (options : RateLimitIncrementOptions) : RedisKeys κ μ → ℤ
  | .windows o _ => o.cap options.maxRequests
  | .bucket o _ => o.bucketSize

/-- An increment keeps the limit. -/
theorem limit_increment :
    (r.increment clock now key options drawn).1.limit options = r.limit options := by
  cases r with
  | windows o keys => cases keys <;> rfl
  | bucket o keys => rfl

/-- An increment of cost one is blocked just when the whole limit is counted. -/
theorem isBlocked_increment_iff (hcost : options.sanitizedCost = 1)
    (hfresh : r.Fresh key options.sanitizedCost drawn) :
    (r.increment now now key options drawn).2.isBlocked = true ↔
      r.limit options ≤ r.count now key := by
  cases r with
  | windows o keys =>
    cases keys with
    | sliding keys =>
      have hW := o.windowMs_pos
      obtain ⟨hlength, hnodup, hnew⟩ := hfresh
      obtain ⟨z, hz, -, hlen⟩ := @RedisSliding.luaSlidingIncrAt_spec μ _ o now now now now (keys key)
        rfl (by omega) le_rfl le_rfl le_rfl 1 le_rfl drawn (hlength.trans hcost) hnodup hnew
      have hstored : ∀ e, ((ZSet.store z e).map RedisKey.value).getD [] = z := by
        intro e
        unfold ZSet.store
        split
        · next hnil => rw [hnil]; rfl
        · rfl
      simp only [increment, hcost, hz, hstored, redisWindowResult, limit, count,
        RedisWindowKeys.count, decide_eq_true_eq]
      omega
    | fixed keys =>
      have hW := o.windowMs_pos
      have hvalue : ∀ cap, (RedisFixed.luaFixedIncr o now cap 1 (keys key)).2.isBlocked =
          decide ((cap : ℤ) < RedisFixed.value now (keys key) + 1) := by
        intro cap
        unfold RedisFixed.luaFixedIncr RedisFixed.value
        cases RedisKey.live now (keys key) with
        | none => rfl
        | some x =>
          simp only [redisWindowResult, Option.map_some, Option.getD_some]
          split <;> rfl
      simp only [increment, hcost, hvalue, limit, count, RedisWindowKeys.count]
      rw [decide_eq_true_iff]
      exact Int.lt_add_one_iff
  | bucket o keys =>
    have hblocked : (RedisBucket.luaBucketIncrAt o now now 1 (keys key)).2.isBlocked = true ↔
        (RedisBucket.refilled o now (RedisBucket.live now (keys key))).tokens < 1 := by
      rw [RedisBucket.luaBucketIncrAt, RedisBucket.luaBucketIncr_refilled]
      split
      · next h => exact iff_of_false Bool.false_ne_true (not_lt.mpr h)
      · next h => exact iff_of_true rfl (not_le.mp h)
    have htokens : (RedisBucket.refilled o now (RedisBucket.live now (keys key))).tokens =
        o.bucketSize - RedisBucket.missing o now (keys key) := by
      have hI := o.interval_pos
      unfold RedisBucket.refilled RedisBucket.missing
      cases RedisBucket.live now (keys key) with
      | none =>
        have hfull : (Bucket.full o now).refill o now = Bucket.full o now :=
          Bucket.refill_of_lt (by simp only [Bucket.full]; omega)
        simp only [Option.map_none, Bucket.orFull, Option.getD_none, hfull]
        simp only [Bucket.full]
        omega
      | some x =>
        simp only [Option.map_some, Bucket.orFull, Option.getD_some, RedisBucket.bucket]
        omega
    have hcount : (RedisKeys.bucket o keys : RedisKeys κ μ).count now key =
        RedisBucket.missing o now (keys key) := rfl
    simp only [increment, hcost]
    rw [hblocked, htokens, hcount]
    simp only [limit]
    omega

omit [DecidableEq κ] [LinearOrder μ] in
/-- What nobody touches counts for less and less. -/
theorem le_count_of_le (ht : t ≤ u) (hL : 1 ≤ L) (h : L ≤ r.count u key) :
    L ≤ r.count t key := by
  cases r with
  | windows o keys =>
    cases keys with
    | sliding keys =>
      have hsub : (RedisWindowKeys.prunedAt o u u (keys key)).Sublist
          (RedisWindowKeys.prunedAt o t t (keys key)) :=
        RedisSliding.prunedAt_sublist ht ht
      have := hsub.length_le
      simp only [count, RedisWindowKeys.count] at h ⊢
      omega
    | fixed keys =>
      simp only [count, RedisWindowKeys.count] at h ⊢
      rcases RedisKey.live_later (s := keys key) ht with hl | hl
      · rw [hl] at h
        exact h
      · rw [hl] at h
        simp at h
        omega
  | bucket o keys => exact RedisBucket.le_missing_of_le ht hL h

/-- Keys are counted apart. -/
theorem count_increment_of_ne (hne : k ≠ key) :
    (r.increment clock now key options drawn).1.count u k = r.count u k := by
  cases r with
  | windows o keys =>
    cases keys with
    | sliding keys =>
      simp only [increment, count, RedisWindowKeys.count, Function.update_of_ne hne]
    | fixed keys =>
      simp only [increment, count, RedisWindowKeys.count, Function.update_of_ne hne]
  | bucket o keys => simp only [increment, count, Function.update_of_ne hne]

end RedisKeys

/-! ## Steps -/

namespace RedisBackend

variable {κ μ : Type} [DecidableEq κ] [LinearOrder μ] {o : InMemoryShieldOptions} {t : ℤ}
  {e : ShieldedRedisEvent κ μ} {s : Shielded (RedisBackend κ μ) κ}

/-- The event is an increment of cost one, if it is one. -/
def CostsOne : ShieldedRedisEvent κ μ → Prop
  | .increment _ _ options _ => options.sanitizedCost = 1
  | .sweep _ => True

/-- What the shield rejects, the store in its current state would block, whatever bytes the
increment drew. -/
def RejectsSoundly : ShieldedRedisEvent κ μ → Shielded (RedisBackend κ μ) κ → Prop
  | .increment time key options _, s =>
    isShielded time key s.cache = true → ∀ drawn,
      s.inner.redis.Fresh key options.sanitizedCost drawn →
        (s.inner.redis.increment time time key options drawn).2.isBlocked = true
  | .sweep _, _ => True

/-- An increment that begins a block leaves Redis counting the threshold until it ends, and one
that the shield rejects has no higher limit. -/
def StepLasts (o : InMemoryShieldOptions) :
    ShieldedRedisEvent κ μ → Shielded (RedisBackend κ μ) κ → Prop
  | .increment time key options drawn, s =>
    let r := s.inner.redis.increment time time key options drawn
    if isShielded time key s.cache then s.inner.redis.limit options ≤ o.blockOnConsumed
    else o.blockOnConsumed ≤ r.2.totalHits →
      o.blockOnConsumed ≤ r.1.count (blockEnd o time r.2 - 1) key
  | .sweep _, _ => True

instance : ∀ e : ShieldedRedisEvent κ μ, Decidable (CostsOne e)
  | .increment _ _ options _ => inferInstanceAs (Decidable (options.sanitizedCost = 1))
  | .sweep _ => isTrue trivial

instance (o : InMemoryShieldOptions) :
    ∀ (e : ShieldedRedisEvent κ μ) (s : Shielded (RedisBackend κ μ) κ), Decidable (StepLasts o e s)
  | .increment time key options drawn, s =>
    inferInstanceAs (Decidable (if isShielded time key s.cache then
      s.inner.redis.limit options ≤ o.blockOnConsumed
    else o.blockOnConsumed ≤ (s.inner.redis.increment time time key options drawn).2.totalHits →
      o.blockOnConsumed ≤ (s.inner.redis.increment time time key options drawn).1.count
        (blockEnd o time (s.inner.redis.increment time time key options drawn).2 - 1) key))
  | .sweep _, _ => isTrue trivial

/-- Redis counts the threshold for a key up to a moment. -/
def CountsUntil (o : InMemoryShieldOptions) (k : κ) (ends : ℤ) (b : RedisBackend κ μ) : Prop :=
  o.blockOnConsumed ≤ b.redis.count (ends - 1) k

/-- **Every step keeps what the shield vouches for**, and rejects what is blocked. -/
theorem vouches_step (h : Vouches (CountsUntil o) t s) (ht : t ≤ e.time) (hcost : CostsOne e)
    (hlasts : StepLasts o e s) :
    RejectsSoundly e s ∧ Vouches (CountsUntil o) e.time (shieldedRedisStep o e s).1 := by
  cases e with
  | increment time key options drawn =>
    have h : Vouches (CountsUntil o) time s := h.mono ht
    have hone := o.one_le_blockOnConsumed
    constructor
    · intro hshielded bytes hfresh
      obtain ⟨ends, hlive, hcount⟩ := h.of_isShielded hshielded
      have hnow := RedisKeys.le_count_of_le (show time ≤ ends - 1 by omega) hone hcount
      have hlimit : s.inner.redis.limit options ≤ o.blockOnConsumed := by
        simpa only [StepLasts, hshielded, if_true] using hlasts
      exact (RedisKeys.isBlocked_increment_iff hcost hfresh).mpr (hlimit.trans hnow)
    · refine Vouches.increment o redisStore RedisBackend.now rfl
        (show Vouches (CountsUntil o) time (arriveRedis time drawn s) from h) ?_ ?_
      · intro _ k ends hne _ hcount
        show o.blockOnConsumed ≤ (RedisKeys.increment _ _ _ _ _ _).1.count (ends - 1) k
        rw [RedisKeys.count_increment_of_ne hne]
        exact hcount
      · intro hfree r hanswer hreached
        obtain rfl := Except.ok.inj hanswer
        have hfree : isShielded time key s.cache = false := hfree
        simp only [StepLasts, hfree, Bool.false_eq_true, if_false] at hlasts
        exact hlasts hreached
  | sweep time => exact ⟨trivial, (h.mono ht).sweep⟩

/-- A block that Redis' count does not last through: at its last millisecond the shield rejects
what the store would allow. -/
theorem shielded_when_allowed {time : ℤ} {key : κ} {options : RateLimitIncrementOptions}
    {drawn : List μ} (hcost : options.sanitizedCost = 1)
    (hlimit : s.inner.redis.limit options = o.blockOnConsumed)
    (hfree : isShielded time key s.cache = false)
    (hlasts : ¬ StepLasts o (.increment time key options drawn) s) :
    let s' := (shieldedRedisStep o (.increment time key options drawn) s).1
    let last := blockEnd o time (s.inner.redis.increment time time key options drawn).2 - 1
    isShielded last key s'.cache = true ∧ ∀ bytes, s'.inner.redis.Fresh key 1 bytes →
      (s'.inner.redis.increment last last key options bytes).2.isBlocked = false := by
  intro s' last
  simp only [StepLasts, hfree, Bool.false_eq_true, if_false, Classical.not_imp, not_le] at hlasts
  obtain ⟨hreached, hcount⟩ := hlasts
  rcases increment_cases o redisStore RedisBackend.now key options (arriveRedis time drawn s)
    with ⟨hshielded, -⟩ | ⟨-, hasked⟩
  · exact absurd (hfree.symm.trans hshielded) Bool.false_ne_true
  · have hs' : s' = _ := hasked
    rw [hs']
    constructor
    · obtain ⟨entry, hentry, hends⟩ := exists_entry_afterAnswer o time key (s.cache.erase key)
        hreached
      apply isShielded_of_lookup hentry
      rw [hends]
      exact sub_one_lt _
    · intro bytes hfresh
      rw [← Bool.not_eq_true]
      intro hblocked
      have hwhole := (RedisKeys.isBlocked_increment_iff hcost (hcost.symm ▸ hfresh)).mp hblocked
      have hsame : (s.inner.redis.increment time time key options drawn).1.limit options =
          s.inner.redis.limit options := RedisKeys.limit_increment
      exact absurd (hlimit.symm.trans_le (hsame.symm.trans_le hwhole)) (not_le.mpr hcount)

end RedisBackend

/-! ## Main result -/

/-- **What the shield rejects, Redis would block, as long as the blocks last.**  In every run of
increments of cost one over a `RedisStore` of any strategy behind the shield of
`inMemoryBlock: true`, from any state of Redis: if every increment that begins a block leaves
Redis counting the shield's threshold at the last millisecond of the block, and no increment
that the shield rejects has a limit above the threshold, then at every increment that the
shield rejects the store would block it too.
SOURCE: src/middleware/merge-options.ts:28-41, 93-122, 247-268,
src/shield/InMemoryShield.ts:100-169, src/stores/redis-store.ts:173-312 -/
theorem redis_shield_sound {ρ κ μ : Type} [DecidableEq κ] [LinearOrder μ] (q : SingleQuota ρ) :
    ∀ o ∈ q.shieldOptions?, ∀ (redis : RedisKeys κ μ) (now : ℤ)
      (es : List (ShieldedRedisEvent κ μ)), (∀ e ∈ es, RedisBackend.CostsOne e) →
        OrderedFrom ShieldedRedisEvent.time now es →
          Guarded (RedisBackend.StepLasts o) (shieldedRedisStep o) es { inner := { redis, now } } →
            Guarded RedisBackend.RejectsSoundly (shieldedRedisStep o) es
              { inner := { redis, now } } := by
  intro o _ redis now es hcost hord hlasts
  have hstep : ∀ (t : ℤ) (s : Shielded (RedisBackend κ μ) κ) (e : ShieldedRedisEvent κ μ),
      Vouches (RedisBackend.CountsUntil o) t s → t ≤ e.time →
        RedisBackend.StepLasts o e s ∧ RedisBackend.CostsOne e →
          RedisBackend.RejectsSoundly e s ∧
            Vouches (RedisBackend.CountsUntil o) e.time (shieldedRedisStep o e s).1 :=
    fun t s e h ht hguard => RedisBackend.vouches_step h ht hguard.2 hguard.1
  have hnew : Vouches (RedisBackend.CountsUntil o) now
      ({ inner := { redis, now } } : Shielded (RedisBackend κ μ) κ) :=
    fun k entry hk => by cases hk
  exact guarded_of_inv hstep hnew hord (hlasts.and_mem hcost)

/-- A shield that blocks for a second. -/
def forASecond (blockOnConsumed : ℤ) (h : 1 ≤ blockOnConsumed) : InMemoryShieldOptions where
  blockOnConsumed
  blockDurationMs := some 1000
  one_le_blockOnConsumed := h
  blockDurationMs_nonneg _ hd := Option.mem_some_iff.mp hd ▸ Int.natCast_nonneg 1000

/-- A slice of a second that the first hit uses up lasts as long as the block. -/
theorem redis_shield_sound_first_hit :
    Guarded RedisBackend.RejectsSoundly (shieldedRedisStep (forASecond 1 le_rfl))
      [.increment 0 7 {} [0], .increment 500 7 {} [1], .sweep 1000, .increment 1000 7 {} [1]]
      ({ inner := { redis := .windows oneASecond (.fixed fun _ => none), now := 0 } } :
        Shielded (RedisBackend ℕ ℕ) ℕ) :=
  redis_shield_sound (.window (some (.value 1)) (some 1000) : SingleQuota Unit) _
    (InMemoryShieldOptions.ofNumbers?_ofInt le_rfl (Int.natCast_nonneg 1000)) _ 0 _
    (by decide) (by decide) (by decide +kernel)

/-- Three increments, the last of them when the first has left a window of a second. -/
def acrossASecond : List (ShieldedRedisEvent ℕ ℕ) :=
  [.increment 0 7 {} [0], .increment 600 7 {} [1], .increment 1100 7 {} [2]]

/-- The second of two allowed increments begins a block of a second; half of it later every
strategy would allow a third. -/
theorem redis_shield_rejects_allowed :
    (SingleQuota.window (some (.value 2)) (some 1000) : SingleQuota Unit).shieldOptions? =
        some (forASecond 2 one_le_two) ∧
      (SingleQuota.tokenBucket 2 (some 1000) : SingleQuota Unit).shieldOptions? =
        some (forASecond 2 one_le_two) ∧
      (∀ e ∈ acrossASecond, RedisBackend.CostsOne e) ∧
      OrderedFrom ShieldedRedisEvent.time 0 acrossASecond ∧
      ∀ redis ∈ ([.windows twoASecond (.fixed fun _ => none),
          .windows twoASecond (.sliding fun _ => none), .bucket twoTokens fun _ => none] :
          List (RedisKeys ℕ ℕ)),
        ¬ Guarded RedisBackend.RejectsSoundly (shieldedRedisStep (forASecond 2 one_le_two))
          acrossASecond { inner := { redis, now := 0 } } := by
  refine ⟨InMemoryShieldOptions.ofNumbers?_ofInt one_le_two (Int.natCast_nonneg 1000),
    InMemoryShieldOptions.ofNumbers?_ofInt one_le_two (Int.natCast_nonneg 1000),
    by decide, by decide, ?_⟩
  intro redis hredis
  rintro ⟨-, -, h, -⟩
  simp only [List.mem_cons, List.not_mem_nil, or_false] at hredis
  rcases hredis with rfl | rfl | rfl
  · exact absurd (h (by decide +kernel) [2] trivial) (by decide +kernel)
  · refine absurd (h (by decide +kernel) [2] ⟨rfl, by decide, ?_⟩) (by decide +kernel)
    decide +kernel
  · exact absurd (h (by decide +kernel) [2] trivial) (by decide +kernel)

end RatelimitFlex
