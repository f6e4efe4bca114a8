import RatelimitFlex.Library.RowTable
import RatelimitFlex.Program.StoreUtils

/-!
# `MongoStore`

`src/stores/mongo/MongoStore.ts`: token buckets and windows in a collection.  An
increment is one aggregation pipeline, and the TTL index lets the server delete a document
at any time once its `resetAt` has come.  The flag `rlfTbBlocked`, which the bucket's
pipeline sets and the next statement unsets, is the second component of its answer.  A
`get` reads a document and a `set` replaces it, for all three strategies.
-/

set_option autoImplicit false

namespace RatelimitFlex

open Library

/-! ## Token bucket -/

/-- The fields of a document that the token bucket uses.
SOURCE: src/stores/mongo/types.ts:45-58 -/
structure BucketDocument where
  tokens : ℤ
  lastRefillAt : ℤ
  totalHits : ℤ
  resetAt : ℤ
  deriving DecidableEq

/-- An increment with its cost, or a pass of the server's TTL monitor over some of the
documents. -/
inductive MongoBucketOp (κ : Type) where
  | increment (key : κ) (cost : ℕ)
  | ttlDelete (picked : κ → Bool)

namespace MongoStore

/-- The stages of the pipeline.  `$floor` of the quotient is `Int` division, the interval
being positive; there is no case for a quotient that is not.
SOURCE: src/stores/mongo/MongoStore.ts:216-268 -/
def tokenBucketPipeline (o : TokenBucketOptions) (now : ℤ) (cost : ℕ)
    (doc : Option BucketDocument) : BucketDocument × Bool :=
  let lastMs := (doc.map BucketDocument.lastRefillAt).getD now
  let ints := (now - lastMs) / o.interval
  let refilled := min o.bucketSize
    ((doc.map BucketDocument.tokens).getD o.bucketSize + ints * o.tokensPerInterval)
  let lastRf := lastMs + ints * o.interval
  let enough := decide ((cost : ℤ) ≤ refilled)
  ({ tokens := if enough then refilled - cost else refilled
     lastRefillAt := lastRf
     totalHits := if enough then o.bucketSize - (refilled - cost) else o.bucketSize
     resetAt := lastRf + o.interval }, !enough)

variable {κ : Type} [DecidableEq κ]

/-- SOURCE: src/stores/mongo/MongoStore.ts:216-299 -/
def incrementTokenBucket (o : TokenBucketOptions) (now : ℤ) (key : κ) (cost : ℕ)
    (t : RowTable κ BucketDocument) : RowTable κ BucketDocument × RateLimitResult :=
  let r := tokenBucketPipeline o now cost (t key)
  (t.upsert key r.1 fun _ => r.1,
    { totalHits := r.1.totalHits
      remaining := if r.2 then 0 else r.1.tokens
      resetTime := r.1.resetAt
      isBlocked := r.2 })

/-- The TTL index on `resetAt`, with `expireAfterSeconds: 0`.
SOURCE: src/stores/mongo/MongoStore.ts:101-107 -/
def ttlDelete (now : ℤ) (picked : κ → Bool) (t : RowTable κ BucketDocument) :
    RowTable κ BucketDocument :=
  t.deleteWhere fun k doc => picked k && decide (doc.resetAt ≤ now)

/-- One step of a token bucket run. -/
def bucketStep (o : TokenBucketOptions) (i : Timed (MongoBucketOp κ))
    (t : RowTable κ BucketDocument) : RowTable κ BucketDocument × Option RateLimitResult :=
  match i.op with
  | .increment key cost =>
    let r := incrementTokenBucket o i.time key cost t
    (r.1, some r.2)
  | .ttlDelete picked => (ttlDelete i.time picked t, none)

end MongoStore

/-! ## Sliding window -/

/-- The fields of a document that the sliding window uses.
SOURCE: src/stores/mongo/types.ts:45-58 -/
structure SlidingDocument where
  hits : List ℤ
  totalHits : ℕ
  resetAt : ℤ
  deriving DecidableEq

/-- An increment, a reset, or a pass of the server's TTL monitor over some of the
documents. -/
inductive MongoSlidingOp (κ : Type) where
  | increment (key : κ) (options : RateLimitIncrementOptions)
  | reset (key : κ)
  | ttlDelete (picked : κ → Bool)

namespace MongoStore

/-- The two stages of the pipeline: `resetAt` follows the newest hit.
SOURCE: src/stores/mongo/MongoStore.ts:318-343 -/
def slidingPipeline (o : WindowOptions) (now : ℤ) (cost : ℕ) (doc : Option SlidingDocument) :
    SlidingDocument :=
  let hits := ((doc.map SlidingDocument.hits).getD []).filter
    (fun ts => decide (now - o.windowMs < ts)) ++ List.replicate cost now
  { hits
    totalHits := hits.length
    resetAt := now + o.windowMs }

variable {κ : Type} [DecidableEq κ]

/-- SOURCE: src/stores/mongo/MongoStore.ts:109-119, 307-363 -/
def incrementSlidingWindow (o : WindowOptions) (now : ℤ) (key : κ)
    (options : RateLimitIncrementOptions) (t : RowTable κ SlidingDocument) :
    RowTable κ SlidingDocument × RateLimitResult :=
  let maxRequests := o.cap options.maxRequests
  let doc := slidingPipeline o now options.sanitizedCost (t key)
  (t.upsert key doc fun _ => doc,
    { totalHits := doc.totalHits
      remaining := max 0 ((maxRequests : ℤ) - doc.totalHits)
      resetTime := resetTimeFromSlidingStamps o.windowMs now doc.hits
      isBlocked := decide (maxRequests < doc.totalHits) })

end MongoStore

/-- SOURCE: src/stores/mongo/types.ts:37 -/
inductive OnMongoError where
  | failOpen
  | failClosed
  deriving DecidableEq

namespace MongoStore

variable {κ : Type} [DecidableEq κ]

/-- Three-argument `$slice`, which MongoDB documents to reject a count that is not positive;
the position is never negative here. -/
def slice (xs : List ℤ) (position : ℕ) (n : ℤ) : Except String (List ℤ) :=
  if 0 < n then .ok ((xs.drop position).take n.toNat)
  else .error "Third argument to $slice must be positive"

/-- The hits the default pipeline keeps.
SOURCE: src/stores/mongo/MongoStore.ts:451-468 -/
def fifoHits (cost : ℕ) (hits : List ℤ) : Except String (List ℤ) :=
  if hits.length ≤ cost then .ok [] else slice hits cost ((hits.length : ℤ) - cost)

/-- The hits the pipeline of `removeNewest` keeps.
SOURCE: src/stores/mongo/MongoStore.ts:470-484 -/
def lifoHits (cost : ℕ) (hits : List ℤ) : Except String (List ℤ) :=
  slice hits 0 (max 0 ((hits.length : ℤ) - cost))

/-- `findOneAndUpdate` without `upsert`: no document, no pipeline.
SOURCE: src/stores/mongo/MongoStore.ts:439-491 -/
def decrementSliding (key : κ) (cost : ℕ) (removeNewest : Bool) (t : RowTable κ SlidingDocument) :
    Except String (RowTable κ SlidingDocument) :=
  match t key with
  | none => .ok t
  | some doc =>
    (if removeNewest then lifoHits cost doc.hits else fifoHits cost doc.hits).map fun hits =>
      Function.update t key (some { doc with hits, totalHits := hits.length })

/-- An error is swallowed with a warning, or thrown when the store fails closed.
SOURCE: src/stores/mongo/MongoStore.ts:387-437 -/
def decrement (onMongoError : OnMongoError) (key : κ) (options : RateLimitDecrementOptions)
    (t : RowTable κ SlidingDocument) : RowTable κ SlidingDocument × Except String Unit :=
  match decrementSliding key options.sanitizedCost options.removeNewest t with
  | .ok t' => (t', .ok ())
  | .error message =>
    match onMongoError with
    | .failOpen => (t, .ok ())
    | .failClosed => (t, .error message)

/-- SOURCE: src/stores/mongo/MongoStore.ts:101-107 -/
def ttlDeleteSliding (now : ℤ) (picked : κ → Bool) (t : RowTable κ SlidingDocument) :
    RowTable κ SlidingDocument :=
  t.deleteWhere fun k doc => picked k && decide (doc.resetAt ≤ now)

/-- One step of a sliding-window run.
SOURCE: src/stores/mongo/MongoStore.ts:493-503 -/
def slidingStep (o : WindowOptions) (i : Timed (MongoSlidingOp κ))
    (t : RowTable κ SlidingDocument) : RowTable κ SlidingDocument × StoreReply :=
  match i.op with
  | .increment key options =>
    let r := incrementSlidingWindow o i.time key options t
    (r.1, .result r.2)
  | .reset key => (t.delete key, .done)
  | .ttlDelete picked => (ttlDeleteSliding i.time picked t, .done)

end MongoStore

/-! ## Reading and replacing a key -/

/-- The fields of a document that the fixed window uses.
SOURCE: src/stores/mongo/types.ts:45-58 -/
structure FixedDocument where
  totalHits : ℤ
  resetAt : ℤ
  deriving DecidableEq

namespace MongoStore

variable {κ : Type} [DecidableEq κ]

section Window

variable (o : WindowOptions) (now : ℤ) (key : κ)

/-- The answer to a `set` of a window store, from its inputs alone.
SOURCE: src/stores/mongo/MongoStore.ts:587-636 -/
def windowSetResult (n : ℤ) (expiresAt : Option ℤ) : RateLimitResult :=
  .ofUsage n o.maxRequests (expiresAt.getD (now + o.windowMs))

/-- SOURCE: src/stores/mongo/MongoStore.ts:505-536 -/
def getFixed (t : RowTable κ FixedDocument) : Option RateLimitResult :=
  match t key with
  | none => none
  | some doc =>
    if doc.resetAt ≤ now then none
    else some (.ofUsage doc.totalHits o.maxRequests doc.resetAt)

/-- SOURCE: src/stores/mongo/MongoStore.ts:641-669, 707 -/
def setFixed (totalHits : ℤ) (expiresAt : Option ℤ) (t : RowTable κ FixedDocument) :
    RowTable κ FixedDocument × RateLimitResult :=
  let n := max 0 totalHits
  let doc : FixedDocument := ⟨n, expiresAt.getD (now + o.windowMs)⟩
  (t.upsert key doc fun _ => doc, windowSetResult o now n expiresAt)

/-- SOURCE: src/stores/mongo/MongoStore.ts:561-573 -/
def getSliding (t : RowTable κ SlidingDocument) : Option RateLimitResult :=
  let stamps := liveStamps o now (((t key).map SlidingDocument.hits).getD [])
  if stamps = [] then none
  else some (.ofUsage stamps.length o.maxRequests
    (resetTimeFromSlidingStamps o.windowMs now stamps))

/-- SOURCE: src/stores/mongo/MongoStore.ts:641-653, 688-707 -/
def setSliding (totalHits : ℤ) (expiresAt : Option ℤ) (t : RowTable κ SlidingDocument) :
    RowTable κ SlidingDocument × RateLimitResult :=
  let n := totalHits.toNat
  let doc : SlidingDocument := ⟨List.replicate n now, n, expiresAt.getD (now + o.windowMs)⟩
  (t.upsert key doc fun _ => doc, windowSetResult o now n expiresAt)

end Window

section Bucket

variable (o : TokenBucketOptions) (now : ℤ) (key : κ)

/-- SOURCE: src/stores/mongo/MongoStore.ts:537-559 -/
def getTokenBucket (t : RowTable κ BucketDocument) : Option RateLimitResult :=
  (t key).map fun doc =>
    let ref := refillBucketState o now ⟨doc.tokens, doc.lastRefillAt⟩
    let totalHits := o.bucketSize - ref.tokens
    { totalHits
      remaining := ref.tokens
      resetTime := ref.lastRefill + o.interval
      isBlocked := decide (ref.tokens = 0) && decide (o.bucketSize ≤ totalHits) }

/-- SOURCE: src/stores/mongo/MongoStore.ts:610-622, 641-653, 670-687, 707 -/
def setTokenBucket (totalHits : ℤ) (t : RowTable κ BucketDocument) :
    RowTable κ BucketDocument × RateLimitResult :=
  let n := max 0 totalHits
  let blocked := decide (o.bucketSize ≤ n)
  let tokens := if blocked then 0 else max 0 (o.bucketSize - n)
  let totalHitsOut := if blocked then o.bucketSize else n
  let resetTime := now + o.interval
  let doc : BucketDocument := ⟨tokens, now, totalHitsOut, resetTime⟩
  (t.upsert key doc fun _ => doc,
    { totalHits := totalHitsOut, remaining := tokens, resetTime, isBlocked := blocked })

end Bucket

end MongoStore

/-! ## The other pipelines -/

namespace MongoStore

variable {κ : Type} [DecidableEq κ]

section Window

variable (o : WindowOptions) (now : ℤ) (key : κ)

/-- The stage of the fixed window; a missing `resetAt` is the epoch, which is over.
SOURCE: src/stores/mongo/MongoStore.ts:158-178 -/
def fixedPipeline (cost : ℕ) (doc : Option FixedDocument) : FixedDocument :=
  let ended := decide ((doc.map FixedDocument.resetAt).getD 0 ≤ now)
  let nextResetAt := now + o.windowMs
  { totalHits := if ended then cost else (doc.map FixedDocument.totalHits).getD 0 + cost
    resetAt := if ended then nextResetAt else (doc.map FixedDocument.resetAt).getD nextResetAt }

/-- SOURCE: src/stores/mongo/MongoStore.ts:148-199 -/
def incrementFixedWindow (options : RateLimitIncrementOptions) (t : RowTable κ FixedDocument) :
    RowTable κ FixedDocument × RateLimitResult :=
  let maxRequests := o.cap options.maxRequests
  let doc := fixedPipeline o now options.sanitizedCost (t key)
  (t.upsert key doc fun _ => doc,
    { totalHits := doc.totalHits
      remaining := max 0 ((maxRequests : ℤ) - doc.totalHits)
      resetTime := doc.resetAt
      isBlocked := decide ((maxRequests : ℤ) < doc.totalHits) })

end Window

/-- SOURCE: src/stores/mongo/MongoStore.ts:393-406 -/
def decrementFixed (key : κ) (options : RateLimitDecrementOptions) (t : RowTable κ FixedDocument) :
    RowTable κ FixedDocument :=
  t.modify key fun doc =>
    some { doc with totalHits := max 0 (doc.totalHits - options.sanitizedCost) }

/-- SOURCE: src/stores/mongo/MongoStore.ts:407-426 -/
def decrementTokenBucket (o : TokenBucketOptions) (key : κ) (options : RateLimitDecrementOptions)
    (t : RowTable κ BucketDocument) : RowTable κ BucketDocument :=
  t.modify key fun doc =>
    let newTok := min o.bucketSize (doc.tokens + options.sanitizedCost)
    some { doc with tokens := newTok, totalHits := o.bucketSize - newTok }

/-- SOURCE: src/stores/mongo/MongoStore.ts:101-107 -/
def ttlDeleteFixed (now : ℤ) (picked : κ → Bool) (t : RowTable κ FixedDocument) :
    RowTable κ FixedDocument :=
  t.deleteWhere fun k doc => picked k && decide (doc.resetAt ≤ now)

end MongoStore

end RatelimitFlex
