import RatelimitFlex.Library.RowTable
import RatelimitFlex.Program.StoreUtils

/-!
# `PgStore`

`src/stores/postgres/PgStore.ts`: windows and token buckets in a Postgres table.  Each
definition is one SQL statement, or one transaction that locks its row first.
Timestamps are epoch milliseconds, and `NOW()` is the clock reading of the step.  A row
has the columns of its strategy; the others are `NULL`.
-/

set_option autoImplicit false

namespace RatelimitFlex

open Library

variable {κ : Type} [DecidableEq κ]

/-! ## Sliding window -/

/-- SOURCE: src/stores/postgres/schema.ts:5-18 -/
structure SlidingRow where
  totalHits : ℕ
  resetAt : ℤ
  hits : List ℤ
  deriving DecidableEq

namespace PgStore

/-- The row the statement inserts.
SOURCE: src/stores/postgres/PgStore.ts:295-310 -/
def insertedSlidingRow (o : WindowOptions) (now : ℤ) (cost : ℕ) : SlidingRow where
  totalHits := cost
  resetAt := now + o.windowMs
  hits := List.replicate cost now

/-- `old_hits || $5`: the live hits in order, then the new ones.
SOURCE: src/stores/postgres/PgStore.ts:313-325 -/
def mergedHits (o : WindowOptions) (now : ℤ) (cost : ℕ) (hits : List ℤ) : List ℤ :=
  (hits.filter fun h => decide (now - o.windowMs < h)).insertionSort (· ≤ ·) ++
    List.replicate cost now

/-- The conflict branch: `reset_at` is the newest hit.
SOURCE: src/stores/postgres/PgStore.ts:311-359 -/
def mergedSlidingRow (o : WindowOptions) (now : ℤ) (cost : ℕ) (row : SlidingRow) : SlidingRow :=
  let hits := mergedHits o now cost row.hits
  { totalHits := hits.length
    resetAt := hits.max?.getD (now - o.windowMs + o.windowMs)
    hits }

/-- SOURCE: src/stores/postgres/PgStore.ts:361-381 -/
def slidingResult (o : WindowOptions) (cap : ℕ) (now : ℤ) (row : SlidingRow) : RateLimitResult :=
  .ofUsage row.totalHits cap (resetTimeFromSlidingStamps o.windowMs now row.hits)

/-- SOURCE: src/stores/postgres/PgStore.ts:282-381 -/
def incrementSlidingWindow (o : WindowOptions) (now : ℤ) (key : κ)
    (options : RateLimitIncrementOptions) (t : RowTable κ SlidingRow) :
    RowTable κ SlidingRow × RateLimitResult :=
  let cost := options.sanitizedCost
  let inserted := insertedSlidingRow o now cost
  let update := mergedSlidingRow o now cost
  (t.upsert key inserted update,
    slidingResult o (o.cap options.maxRequests) now ((t key).elim inserted update))

/-- The hits a decrement keeps: the newest ones, or with `removeNewest` the oldest.
SOURCE: src/stores/postgres/PgStore.ts:434-445 -/
def keptHits (cost : ℕ) (removeNewest : Bool) (hits : List ℤ) : List ℤ :=
  let keepCount := hits.length - cost
  if removeNewest then hits.take keepCount else hits.drop (hits.length - keepCount)

/-- SOURCE: src/stores/postgres/PgStore.ts:418-460 -/
def decrementedSlidingRow (o : WindowOptions) (now : ℤ) (cost : ℕ) (removeNewest : Bool)
    (row : SlidingRow) : Option SlidingRow :=
  let len := row.hits.length
  if len = 0 ∨ len ≤ cost then none
  else
    let kept := keptHits cost removeNewest row.hits
    some
      { totalHits := kept.length
        resetAt := kept.max?.getD now + o.windowMs
        hits := kept }

/-- SOURCE: src/stores/postgres/PgStore.ts:418-460 -/
def decrementSliding (o : WindowOptions) (now : ℤ) (key : κ)
    (options : RateLimitDecrementOptions) (t : RowTable κ SlidingRow) : RowTable κ SlidingRow :=
  t.modify key (decrementedSlidingRow o now options.sanitizedCost options.removeNewest)

/-- SOURCE: src/stores/postgres/PgStore.ts:530-543 -/
def sweepSliding (now : ℤ) (t : RowTable κ SlidingRow) : RowTable κ SlidingRow :=
  t.deleteWhere fun _ row => decide (row.resetAt < now)

end PgStore

/-- One operation on the table, or one firing of the sweep timer. -/
inductive PgOp (κ : Type) where
  | increment (key : κ) (options : RateLimitIncrementOptions)
  | decrement (key : κ) (options : RateLimitDecrementOptions)
  | reset (key : κ)
  | sweep

namespace PgStore

/-- One step of a sliding-window run. -/
def slidingStep (o : WindowOptions) (i : Timed (PgOp κ)) (t : RowTable κ SlidingRow) :
    RowTable κ SlidingRow × StoreReply :=
  match i.op with
  | .increment key options =>
    let r := incrementSlidingWindow o i.time key options t
    (r.1, .result r.2)
  | .decrement key options => (decrementSliding o i.time key options t, .done)
  | .reset key => (t.delete key, .done)
  | .sweep => (sweepSliding i.time t, .done)

end PgStore

/-! ## Token bucket -/

/-- SOURCE: src/stores/postgres/schema.ts:5-18 -/
structure PgBucketRow where
  totalHits : ℤ
  resetAt : ℤ
  tokens : ℤ
  lastRefillAt : ℤ
  deriving DecidableEq

namespace PgStore

/-- What the transaction makes of the selected row: a missing one is a full bucket.
SOURCE: src/stores/postgres/PgStore.ts:197-215 -/
def selectedBucket (o : TokenBucketOptions) (now : ℤ) (row : Option PgBucketRow) : Bucket :=
  match row with
  | none => ⟨o.bucketSize, now⟩
  | some r => ⟨r.tokens, r.lastRefillAt⟩

/-- The row the upsert writes, whatever is there by then, and the answer.
SOURCE: src/stores/postgres/PgStore.ts:217-271 -/
def bucketUpsert (o : TokenBucketOptions) (now : ℤ) (cost : ℕ) (selected : Bucket) :
    PgBucketRow × RateLimitResult :=
  let refilled := refillBucketState o now selected
  let isBlocked := !decide ((cost : ℤ) ≤ refilled.tokens)
  let newTokens := if isBlocked then refilled.tokens else refilled.tokens - cost
  let resetTime := refilled.lastRefill + o.interval
  let totalHits := if isBlocked then o.bucketSize else o.bucketSize - newTokens
  ({ totalHits, resetAt := resetTime, tokens := newTokens, lastRefillAt := refilled.lastRefill },
    { totalHits, remaining := if isBlocked then 0 else newTokens, resetTime, isBlocked })

/-- The whole transaction, when no other runs beside it.
SOURCE: src/stores/postgres/PgStore.ts:181-272 -/
def incrementTokenBucket (o : TokenBucketOptions) (now : ℤ) (key : κ) (cost : ℕ)
    (t : RowTable κ PgBucketRow) : RowTable κ PgBucketRow × RateLimitResult :=
  let r := bucketUpsert o now cost (selectedBucket o now (t key))
  (t.upsert key r.1 fun _ => r.1, r.2)

/-- SOURCE: src/stores/postgres/PgStore.ts:530-543 -/
def sweepBuckets (now : ℤ) (t : RowTable κ PgBucketRow) : RowTable κ PgBucketRow :=
  t.deleteWhere fun _ row => decide (row.resetAt < now)

end PgStore

/-- An increment with its cost, or one firing of the sweep timer. -/
inductive PgBucketOp (κ : Type) where
  | increment (key : κ) (cost : ℕ)
  | sweep

namespace PgStore

/-- One step of a token bucket run. -/
def bucketStep (o : TokenBucketOptions) (i : Timed (PgBucketOp κ)) (t : RowTable κ PgBucketRow) :
    RowTable κ PgBucketRow × Option RateLimitResult :=
  match i.op with
  | .increment key cost =>
    let r := incrementTokenBucket o i.time key cost t
    (r.1, some r.2)
  | .sweep => (sweepBuckets i.time t, none)

end PgStore

/-! ## Reading and replacing a key -/

/-- SOURCE: src/stores/postgres/schema.ts:5-18 -/
structure PgFixedRow where
  totalHits : ℤ
  resetAt : ℤ
  deriving DecidableEq

namespace PgStore

section Window

variable (o : WindowOptions) (now : ℤ) (key : κ)

/-- SOURCE: src/stores/postgres/PgStore.ts:545-580 -/
def getFixed (t : RowTable κ PgFixedRow) : Option RateLimitResult :=
  match t key with
  | none => none
  | some row =>
    if row.resetAt ≤ now then none
    else some (.ofUsage row.totalHits o.maxRequests row.resetAt)

/-- SOURCE: src/stores/postgres/PgStore.ts:634-667 -/
def setFixed (totalHits : ℤ) (expiresAt : Option ℤ) (t : RowTable κ PgFixedRow) :
    RowTable κ PgFixedRow × RateLimitResult :=
  let n := max 0 totalHits
  let resetAt := expiresAt.getD (now + o.windowMs)
  (t.upsert key ⟨n, resetAt⟩ fun _ => ⟨n, resetAt⟩, .ofUsage n o.maxRequests resetAt)

/-- SOURCE: src/stores/postgres/PgStore.ts:609-626 -/
def getSliding (t : RowTable κ SlidingRow) : Option RateLimitResult :=
  let stamps := liveStamps o now (((t key).map SlidingRow.hits).getD [])
  if stamps = [] then none
  else some (.ofUsage stamps.length o.maxRequests
    (resetTimeFromSlidingStamps o.windowMs now stamps))

/-- SOURCE: src/stores/postgres/PgStore.ts:692-715 -/
def setSliding (totalHits : ℤ) (expiresAt : Option ℤ) (t : RowTable κ SlidingRow) :
    RowTable κ SlidingRow × RateLimitResult :=
  let n := totalHits.toNat
  let resetAt := expiresAt.getD (now + o.windowMs)
  let row : SlidingRow := ⟨n, resetAt, List.replicate n now⟩
  (t.upsert key row fun _ => row, .ofUsage n o.maxRequests resetAt)

end Window

section Bucket

variable (o : TokenBucketOptions) (now : ℤ) (key : κ)

/-- SOURCE: src/stores/postgres/PgStore.ts:581-608 -/
def getTokenBucket (t : RowTable κ PgBucketRow) : Option RateLimitResult :=
  (t key).map fun row =>
    let ref := refillBucketState o now ⟨row.tokens, row.lastRefillAt⟩
    let totalHits := o.bucketSize - ref.tokens
    { totalHits
      remaining := ref.tokens
      resetTime := ref.lastRefill + o.interval
      isBlocked := decide (ref.tokens = 0) && decide (o.bucketSize ≤ totalHits) }

/-- SOURCE: src/stores/postgres/PgStore.ts:668-691 -/
def setTokenBucket (totalHits : ℤ) (t : RowTable κ PgBucketRow) :
    RowTable κ PgBucketRow × RateLimitResult :=
  let th := max 0 totalHits
  let blocked := decide (o.bucketSize ≤ th)
  let tokens := if blocked then 0 else max 0 (o.bucketSize - th)
  let totalHitsOut := if blocked then o.bucketSize else th
  let resetTime := now + o.interval
  let row : PgBucketRow := ⟨totalHitsOut, resetTime, tokens, now⟩
  (t.upsert key row fun _ => row,
    { totalHits := totalHitsOut, remaining := tokens, resetTime, isBlocked := blocked })

end Bucket

end PgStore

/-! ## The other statements -/

namespace PgStore

variable {κ : Type} [DecidableEq κ]

section Window

variable (o : WindowOptions) (now : ℤ) (key : κ)

/-- The conflict branch of the fixed window: a window that is over begins anew.
SOURCE: src/stores/postgres/PgStore.ts:143-155 -/
def updatedFixedRow (cost : ℕ) (row : PgFixedRow) : PgFixedRow where
  totalHits := if row.resetAt ≤ now then cost else row.totalHits + cost
  resetAt := if row.resetAt ≤ now then now + o.windowMs else row.resetAt

/-- SOURCE: src/stores/postgres/PgStore.ts:130-176 -/
def incrementFixedWindow (options : RateLimitIncrementOptions) (t : RowTable κ PgFixedRow) :
    RowTable κ PgFixedRow × RateLimitResult :=
  let cost := options.sanitizedCost
  let inserted : PgFixedRow := ⟨cost, now + o.windowMs⟩
  let update := updatedFixedRow o now cost
  let row := (t key).elim inserted update
  (t.upsert key inserted update,
    .ofUsage row.totalHits (o.cap options.maxRequests) row.resetAt)

end Window

/-- SOURCE: src/stores/postgres/PgStore.ts:467-475 -/
def decrementFixed (key : κ) (options : RateLimitDecrementOptions) (t : RowTable κ PgFixedRow) :
    RowTable κ PgFixedRow :=
  t.modify key fun row =>
    some { row with totalHits := max 0 (row.totalHits - options.sanitizedCost) }

/-- SOURCE: src/stores/postgres/PgStore.ts:476-492 -/
def decrementTokenBucket (o : TokenBucketOptions) (key : κ) (options : RateLimitDecrementOptions)
    (t : RowTable κ PgBucketRow) : RowTable κ PgBucketRow :=
  t.modify key fun row =>
    let val := min o.bucketSize (row.tokens + options.sanitizedCost)
    some { row with tokens := val, totalHits := o.bucketSize - val }

/-- SOURCE: src/stores/postgres/PgStore.ts:530-543 -/
def sweepFixed (now : ℤ) (t : RowTable κ PgFixedRow) : RowTable κ PgFixedRow :=
  t.deleteWhere fun _ row => decide (row.resetAt < now)

end PgStore

end RatelimitFlex
