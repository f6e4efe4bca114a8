import RatelimitFlex.Analysis.DynamoWeighted
import RatelimitFlex.Analysis.RedisWindowRuns
import RatelimitFlex.Program.DynamoTokenBucket
import RatelimitFlex.Program.MongoStore
import RatelimitFlex.Program.PgStore

/-!
# `get` right after `set`

Every store answers a `set` from its inputs and a `get` from what it keeps.  The token buckets
keep all they answer with (`bucket_roundTrip`).  The sliding windows of `PgStore` and
`MongoStore` keep stamps, and the fixed window of `DynamoStore` the start of its slice, so a
`get` knows nothing of the `expiresAt` that the `set` has answered with (`setThenGet_iff`).
-/

set_option autoImplicit false

namespace RatelimitFlex

open Library

variable {κ : Type} [DecidableEq κ]

/-- One of the stores, of one of the strategies, with all it holds. -/
inductive AnyStore (κ : Type) [DecidableEq κ] where
  | memory (s : MemoryStore κ)
  | pgSliding (o : WindowOptions) (t : RowTable κ SlidingRow)
  | pgFixed (o : WindowOptions) (t : RowTable κ PgFixedRow)
  | pgBucket (o : TokenBucketOptions) (t : RowTable κ PgBucketRow)
  | mongoSliding (o : WindowOptions) (t : RowTable κ SlidingDocument)
  | mongoFixed (o : WindowOptions) (t : RowTable κ FixedDocument)
  | mongoBucket (o : TokenBucketOptions) (t : RowTable κ BucketDocument)
  | dynamoSliding (o : WindowOptions) (t : RowTable κ DynamoSlidingItem)
  | dynamoFixed (o : WindowOptions) (t : RowTable κ DynamoFixedItem)
  | dynamoBucket (o : TokenBucketOptions) (t : RowTable κ DynamoBucketItem)

namespace AnyStore

/-- `set`: a `PutItem` replaces the item of the key. -/
def set (now : ℤ) (key : κ) (totalHits : ℤ) (expiresAt : Option ℤ) :
    AnyStore κ → AnyStore κ × RateLimitResult
  | memory s => let r := s.set now key totalHits expiresAt; (memory r.1, r.2)
  | pgSliding o t =>
    let r := PgStore.setSliding o now key totalHits expiresAt t; (pgSliding o r.1, r.2)
  | pgFixed o t => let r := PgStore.setFixed o now key totalHits expiresAt t; (pgFixed o r.1, r.2)
  | pgBucket o t => let r := PgStore.setTokenBucket o now key totalHits t; (pgBucket o r.1, r.2)
  | mongoSliding o t =>
    let r := MongoStore.setSliding o now key totalHits expiresAt t; (mongoSliding o r.1, r.2)
  | mongoFixed o t =>
    let r := MongoStore.setFixed o now key totalHits expiresAt t; (mongoFixed o r.1, r.2)
  | mongoBucket o t =>
    let r := MongoStore.setTokenBucket o now key totalHits t; (mongoBucket o r.1, r.2)
  | dynamoSliding o t =>
    let r := DynamoStore.setSliding o now totalHits
    (dynamoSliding o (t.upsert key r.1 fun _ => r.1), r.2)
  | dynamoFixed o t =>
    let r := DynamoStore.setFixed o now totalHits expiresAt
    (dynamoFixed o (t.upsert key r.1 fun _ => r.1), r.2)
  | dynamoBucket o t =>
    let r := DynamoStore.setTokenBucket o now totalHits
    (dynamoBucket o (t.upsert key r.1 fun _ => r.1), r.2)

/-- `get`: a `GetItem` finds what the last `PutItem` wrote. -/
def get (now : ℤ) (key : κ) : AnyStore κ → Option RateLimitResult
  | memory s => (s.get now key).2
  | pgSliding o t => PgStore.getSliding o now key t
  | pgFixed o t => PgStore.getFixed o now key t
  | pgBucket o t => PgStore.getTokenBucket o now key t
  | mongoSliding o t => MongoStore.getSliding o now key t
  | mongoFixed o t => MongoStore.getFixed o now key t
  | mongoBucket o t => MongoStore.getTokenBucket o now key t
  | dynamoSliding o t => DynamoStore.getSliding o now (t key)
  | dynamoFixed o t => DynamoStore.getFixed o now (t key)
  | dynamoBucket o t => DynamoStore.getTokenBucket o now (t key)

/-- The end that a store keeps without being told one, if it keeps no other. -/
def ownEnd (now : ℤ) : AnyStore κ → Option ℤ
  | pgSliding o _ => some (now + o.windowMs)
  | mongoSliding o _ => some (now + o.windowMs)
  | dynamoFixed o _ => some (DynamoStore.fixedWindowBoundaryMs now o.windowMs + o.windowMs)
  | _ => none

end AnyStore

/-! ## Token buckets -/

section Bucket

variable (o : TokenBucketOptions) (now totalHits : ℤ)

/-- The tokens that all four stores keep for `totalHits`, and the answer of the `set`. -/
def bucketTokens : ℤ :=
  if decide (o.bucketSize ≤ max 0 totalHits) then 0 else max 0 (o.bucketSize - max 0 totalHits)

/-- The answer of a `get` from a bucket that needs no refill. -/
def bucketAnswer (b : Bucket) : RateLimitResult where
  totalHits := o.bucketSize - b.tokens
  remaining := b.tokens
  resetTime := b.lastRefill + o.interval
  isBlocked := decide (b.tokens = 0) && decide (o.bucketSize ≤ o.bucketSize - b.tokens)

/-- What is kept says what the `set` has said. -/
theorem bucket_roundTrip :
    bucketAnswer o (⟨bucketTokens o totalHits, now⟩ : Bucket) =
      { totalHits := if decide (o.bucketSize ≤ max 0 totalHits) then o.bucketSize
          else max 0 totalHits
        remaining := bucketTokens o totalHits
        resetTime := now + o.interval
        isBlocked := decide (o.bucketSize ≤ max 0 totalHits) } := by
  have hsize := o.bucketSize_pos
  by_cases hblocked : o.bucketSize ≤ max 0 totalHits
  · simp [bucketAnswer, bucketTokens, hblocked]
  · have htokens : bucketTokens o totalHits = o.bucketSize - max 0 totalHits := by
      rw [bucketTokens, if_neg (by simpa using hblocked)]
      omega
    rw [bucketAnswer, htokens, if_neg (by simpa using hblocked)]
    have hnone : ¬ o.bucketSize - max 0 totalHits = 0 := by omega
    simp only [hblocked, hnone, decide_false, Bool.false_and, sub_sub_cancel]

/-- At the time of its last refill a bucket is refilled already. -/
theorem refill_now (tokens : ℤ) :
    (⟨tokens, now⟩ : Bucket).refill o now = ⟨tokens, now⟩ := by
  have hI := o.interval_pos
  apply Bucket.refill_of_lt
  simp only
  omega

end Bucket

/-! ## Windows -/

/-- A usage that is answered with two ends is one answer when the ends are. -/
theorem ofUsage_inj_iff (n : ℤ) (cap : ℕ) (a b : ℤ) :
    some (RateLimitResult.ofUsage n cap a) = some (RateLimitResult.ofUsage n cap b) ↔ a = b := by
  constructor
  · intro h
    exact congrArg RateLimitResult.resetTime (Option.some.inj h)
  · rintro rfl
    rfl

/-- Stamps of this moment end a window from now. -/
theorem resetTime_replicate (windowMs now : ℤ) {n : ℕ} (hn : 1 ≤ n) :
    resetTimeFromSlidingStamps windowMs now (List.replicate n now) = now + windowMs := by
  have hmin : (List.replicate n now).min? = some now := by
    rw [List.min?_replicate, if_neg (by omega)]
  rw [resetTimeFromSlidingStamps, hmin]

/-- An end answered when one is told: the two ends agree when none is or when it is the
store's own. -/
theorem getD_eq_iff (own : ℤ) (expiresAt : Option ℤ) :
    own = expiresAt.getD own ↔ ∀ e ∈ expiresAt, e = own := by
  cases expiresAt with
  | none => simp
  | some e => simp [eq_comm]

/-! ## Memory -/

/-- The cell a `set` leaves under its own key, whether or not it evicts another. -/
theorem MemoryStore.cell_set_self (s : MemoryStore κ) (now : ℤ) (key : κ) (totalHits : ℤ)
    (expiresAt : Option ℤ) :
    (s.set now key totalHits expiresAt).1.cell key =
      ((s.cell key).set now totalHits expiresAt).1 := by
  cases s with
  | sliding o t =>
    simp only [MemoryStore.set, MemoryStore.cell, Cell.set, setSliding,
      KeyTable.lookup_put_dropForLru, if_true]
  | fixed o t =>
    simp only [MemoryStore.set, MemoryStore.cell, Cell.set, lookup_setFixed_self]
  | bucket o t =>
    simp only [MemoryStore.set, MemoryStore.cell, Cell.set, setTokenBucket,
      KeyTable.lookup_put_dropForLru, if_true]

/-- `MemoryStore` keeps the end it is told, or answers with its own. -/
theorem Cell.snapshot_set (x : Cell) {now totalHits : ℤ} {expiresAt : Option ℤ}
    (hn : 1 ≤ totalHits) (hend : ∀ e ∈ expiresAt, now < e) :
    ((x.set now totalHits expiresAt).1.clearWall now).snapshot now =
      some (x.set now totalHits expiresAt).2 := by
  cases x with
  | sliding o e =>
    obtain ⟨n, hcount⟩ : ∃ n, totalHits.toNat = n + 1 := ⟨totalHits.toNat - 1, by omega⟩
    have hkept : unexpired now (some ⟨List.replicate totalHits.toNat now, expiresAt⟩) =
        some ⟨List.replicate totalHits.toNat now, expiresAt⟩ := by
      cases expiresAt with
      | none => rfl
      | some w =>
        have := hend w rfl
        simp [unexpired, Option.filter, this]
    simp only [Cell.set, Cell.clearWall, hkept, Cell.snapshot, stampsOf_some,
      liveStamps_replicate_now]
    rw [hcount, List.replicate_succ]
    simp
  | fixed o e =>
    have hW := o.windowMs_pos
    have hlater : now < expiresAt.getD (now + o.windowMs) := by
      cases expiresAt with
      | none => simp only [Option.getD_none]; omega
      | some w => exact hend w rfl
    simp only [Cell.set, Cell.clearWall, Cell.snapshot, Option.bind_some]
    rw [if_neg (not_le.mpr hlater)]
  | bucket o e =>
    have hI := o.interval_pos
    have hnew : isBucketIdleFullPurgeable o now ⟨bucketTokens o totalHits, now⟩ = false := by
      simp only [isBucketIdleFullPurgeable, Bool.and_eq_false_iff, decide_eq_false_iff_not]
      right
      omega
    have hanswer := bucket_roundTrip o now totalHits
    simp only [Cell.set, Cell.clearWall, Cell.snapshot, Option.bind_some]
    rw [← bucketTokens, hnew, refill_now]
    exact congrArg some hanswer

/-! ## The databases -/

section Databases

variable {o : WindowOptions} {now n : ℤ} {expiresAt : Option ℤ}

/-- The row that a `set` replaces another with. -/
theorem upsert_replaced {ρ : Type} (t : RowTable κ ρ) (key : κ) (row : ρ) :
    t.upsert key row (fun _ => row) key = some row := by
  rw [RowTable.upsert_self]
  cases t key <;> rfl

/-- Stamps of this moment are all live; their answer is that of the count and of an end a
window from now. -/
theorem getStamps_iff (o : WindowOptions) (now : ℤ) (hn : 1 ≤ n) (end' : ℤ) :
    (let stamps := liveStamps o now (List.replicate n.toNat now)
     (if stamps = [] then none
      else some (RateLimitResult.ofUsage stamps.length o.maxRequests
        (resetTimeFromSlidingStamps o.windowMs now stamps))) =
      some (RateLimitResult.ofUsage n.toNat o.maxRequests end')) ↔ now + o.windowMs = end' := by
  have hsome : ¬ List.replicate n.toNat now = [] := by
    rw [List.replicate_eq_nil_iff]
    omega
  simp only [liveStamps_replicate_now, List.length_replicate]
  rw [if_neg hsome, resetTime_replicate (o.windowMs : ℤ) now (by omega)]
  exact ofUsage_inj_iff _ _ _ _

/-- The end that a fixed window is told is still to come. -/
theorem lt_end (hend : ∀ e ∈ expiresAt, now < e) : now < expiresAt.getD (now + o.windowMs) := by
  have hW := o.windowMs_pos
  cases expiresAt with
  | none => simp only [Option.getD_none]; omega
  | some w => exact hend w rfl

/-- The weighted count of a `set`: no previous window, so the count itself. -/
theorem getSliding_setSliding (o : WindowOptions) (now n : ℤ) :
    DynamoStore.getSliding o now (some (DynamoStore.setSliding o now n).1) =
      some (DynamoStore.setSliding o now n).2 := by
  have hslice := DynamoStore.lt_fixedWindowBoundaryMs_add o.windowMs_pos now
  have hlater : now < (DynamoStore.setSliding o now n).1.currentWindowStart + 2 * o.windowMs := by
    simp only [DynamoStore.setSliding]
    omega
  have hraw : DynamoStore.weightedSlidingCount 0 (max 0 n) now o.windowMs
      (DynamoStore.fixedWindowBoundaryMs now o.windowMs) = ((max 0 n : ℤ) : ℚ) := by
    rw [DynamoStore.weightedSlidingCount, Int.cast_zero, zero_mul, zero_add]
  have hblocked : ((o.maxRequests : ℚ) < ((max 0 n : ℤ) : ℚ)) ↔ (o.maxRequests : ℤ) < max 0 n := by
    exact_mod_cast Iff.rfl
  have hremaining := RateLimitResult.remaining_ofUsage (max 0 n) o.maxRequests
    (DynamoStore.fixedWindowBoundaryMs now o.windowMs + o.windowMs)
  rw [DynamoStore.getSliding_of_lt hlater]
  simp only [DynamoStore.setSliding, DynamoStore.slidingResultFromAttributes, hraw,
    Int.ceil_intCast, hblocked, ← hremaining]
  rfl

end Databases

/-! ## Main result -/

/-- **`get` right after `set`.**  In every store, of every strategy and whatever it holds, a
`get` at the moment of a `set` of at least one hit, with an end that is absent or still to
come, answers what the `set` has answered exactly when the store keeps that end: it is absent,
or the store has none of its own, or it is that one.
SOURCE: src/stores/memory-store.ts:659-793, src/stores/postgres/PgStore.ts:545-717,
src/stores/mongo/MongoStore.ts:505-718, src/stores/dynamo/DynamoStore.ts:692-881 -/
theorem setThenGet_iff (now : ℤ) (key : κ) (n : ℤ) (hn : 1 ≤ n) (expiresAt : Option ℤ)
    (hend : ∀ e ∈ expiresAt, now < e) (s : AnyStore κ) :
    (s.set now key n expiresAt).1.get now key = some (s.set now key n expiresAt).2 ↔
      ∀ own ∈ s.ownEnd now, ∀ e ∈ expiresAt, e = own := by
  cases s with
  | memory s =>
    refine iff_of_true ?_ (by simp [AnyStore.ownEnd])
    simp only [AnyStore.set, AnyStore.get, MemoryStore.get_snd, MemoryStore.cell_set_self,
      MemoryStore.set_snd]
    exact (s.cell key).snapshot_set hn hend
  | pgSliding o t =>
    have hiff := (getStamps_iff o now hn
      (expiresAt.getD (now + o.windowMs))).trans (getD_eq_iff _ expiresAt)
    simp only [AnyStore.set, AnyStore.get, PgStore.setSliding, PgStore.getSliding,
      upsert_replaced, AnyStore.ownEnd, Option.mem_some_iff, forall_eq']
    simpa using hiff
  | pgFixed o t =>
    refine iff_of_true ?_ (by simp [AnyStore.ownEnd])
    simp only [AnyStore.set, AnyStore.get, PgStore.setFixed, PgStore.getFixed, upsert_replaced]
    rw [if_neg (not_le.mpr (lt_end hend))]
  | pgBucket o t =>
    refine iff_of_true ?_ (by simp [AnyStore.ownEnd])
    simp only [AnyStore.set, AnyStore.get, PgStore.setTokenBucket, PgStore.getTokenBucket,
      upsert_replaced, Option.map_some, refillBucketState_eq, refill_now]
    exact congrArg some (bucket_roundTrip o now n)
  | mongoSliding o t =>
    have hiff := (getStamps_iff o now hn
      (expiresAt.getD (now + o.windowMs))).trans (getD_eq_iff _ expiresAt)
    simp only [AnyStore.set, AnyStore.get, MongoStore.setSliding, MongoStore.getSliding,
      MongoStore.windowSetResult, upsert_replaced, AnyStore.ownEnd, Option.mem_some_iff,
      forall_eq']
    simpa using hiff
  | mongoFixed o t =>
    refine iff_of_true ?_ (by simp [AnyStore.ownEnd])
    simp only [AnyStore.set, AnyStore.get, MongoStore.setFixed, MongoStore.getFixed,
      MongoStore.windowSetResult, upsert_replaced]
    rw [if_neg (not_le.mpr (lt_end hend))]
  | mongoBucket o t =>
    refine iff_of_true ?_ (by simp [AnyStore.ownEnd])
    simp only [AnyStore.set, AnyStore.get, MongoStore.setTokenBucket, MongoStore.getTokenBucket,
      upsert_replaced, Option.map_some, refillBucketState_eq, refill_now]
    exact congrArg some (bucket_roundTrip o now n)
  | dynamoSliding o t =>
    refine iff_of_true ?_ (by simp [AnyStore.ownEnd])
    simp only [AnyStore.set, AnyStore.get, upsert_replaced]
    exact getSliding_setSliding o now n
  | dynamoFixed o t =>
    have hlater := not_le.mpr (DynamoStore.lt_fixedWindowBoundaryMs_add o.windowMs_pos now)
    have hiff := getD_eq_iff (DynamoStore.fixedWindowBoundaryMs now o.windowMs + o.windowMs)
      expiresAt
    simp only [AnyStore.set, AnyStore.get, DynamoStore.setFixed, DynamoStore.getFixed,
      upsert_replaced, AnyStore.ownEnd, Option.mem_some_iff, forall_eq']
    rw [if_neg hlater, DynamoStore.fixedResultFromAttributes, max_eq_right (le_max_left 0 n),
      ofUsage_inj_iff]
    exact hiff
  | dynamoBucket o t =>
    refine iff_of_true ?_ (by simp [AnyStore.ownEnd])
    simp only [AnyStore.set, AnyStore.get, DynamoStore.setTokenBucket,
      DynamoStore.getTokenBucket, upsert_replaced, Option.map_some, refillBucketState_eq,
      refill_now]
    exact congrArg some (bucket_roundTrip o now n)

/-- Two hits that end a window later, over a row that an earlier `set` has left in a sliding window
of Postgres. -/
theorem setThenGet_iff_own_end :
    (((((AnyStore.pgSliding (κ := ℕ) tenASecond RowTable.empty).set 100 7 5 (some 900)).1).set
      500 7 2 (some 1500)).1).get 500 7 =
      some ((((AnyStore.pgSliding (κ := ℕ) tenASecond RowTable.empty).set 100 7 5 (some 900)).1).set
        500 7 2 (some 1500)).2 :=
  (setThenGet_iff 500 7 2 (by decide) (some 1500) (by decide) _).mpr
    (by simp [AnyStore.set, AnyStore.ownEnd, tenASecond])

/-- A block of five seconds set in a sliding window of one: Postgres answers the `set` with
an end at 5500 and the `get` with one at 1500. -/
theorem setThenGet_forgets_end :
    let r := (AnyStore.pgSliding (κ := ℕ) tenASecond RowTable.empty).set 500 7 11 (some 5500)
    r.2.resetTime = 5500 ∧ (r.1.get 500 7).map RateLimitResult.resetTime = some 1500 ∧
      r.1.get 500 7 ≠ some r.2 := by
  intro r
  have hset : r.2.resetTime = 5500 := rfl
  have hget : (r.1.get 500 7).map RateLimitResult.resetTime = some 1500 := by decide +kernel
  refine ⟨hset, hget, ?_⟩
  intro heq
  rw [heq, Option.map_some, hset] at hget
  exact absurd hget (by decide)

end RatelimitFlex
