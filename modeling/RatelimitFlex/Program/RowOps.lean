import RatelimitFlex.Program.DynamoTokenBucket
import RatelimitFlex.Program.MongoStore
import RatelimitFlex.Program.PgStore

/-!
# Runs over a table of rows

What an application may ask of a store that keeps its keys in a table, and the housekeeping
that comes in between: a sweep of Postgres, or a pass of MongoDB's or DynamoDB's TTL process over
the keys it picks.  Errors of the database are left out.
-/

set_option autoImplicit false

namespace RatelimitFlex

open Library

variable {κ : Type} [DecidableEq κ]

/-- One operation on the table, or its housekeeping. -/
inductive RowOp (κ : Type) where
  | increment (key : κ) (options : RateLimitIncrementOptions)
  | decrement (key : κ) (options : RateLimitDecrementOptions)
  | get (key : κ)
  | set (key : κ) (totalHits : ℤ) (expiresAt : Option ℤ)
  | reset (key : κ)
  | housekeeping (picked : κ → Bool)

/-- The application asked for it. -/
def RowOp.isAsked : RowOp κ → Bool
  | .housekeeping _ => false
  | _ => true

/-! ## Postgres -/

namespace PgStore

/-- One step of a fixed window. -/
def fixedRowStep (o : WindowOptions) (i : Timed (RowOp κ)) (t : RowTable κ PgFixedRow) :
    RowTable κ PgFixedRow × StoreReply :=
  match i.op with
  | .increment key options =>
    let r := incrementFixedWindow o i.time key options t
    (r.1, .result r.2)
  | .decrement key options => (decrementFixed key options t, .done)
  | .get key => (t, .snapshot (getFixed o i.time key t))
  | .set key totalHits expiresAt =>
    let r := setFixed o i.time key totalHits expiresAt t
    (r.1, .result r.2)
  | .reset key => (t.delete key, .done)
  | .housekeeping _ => (sweepFixed i.time t, .done)

/-- One step of a token bucket. -/
def bucketRowStep (o : TokenBucketOptions) (i : Timed (RowOp κ)) (t : RowTable κ PgBucketRow) :
    RowTable κ PgBucketRow × StoreReply :=
  match i.op with
  | .increment key options =>
    let r := incrementTokenBucket o i.time key options.sanitizedCost t
    (r.1, .result r.2)
  | .decrement key options => (decrementTokenBucket o key options t, .done)
  | .get key => (t, .snapshot (getTokenBucket o i.time key t))
  | .set key totalHits _ =>
    let r := setTokenBucket o i.time key totalHits t
    (r.1, .result r.2)
  | .reset key => (t.delete key, .done)
  | .housekeeping _ => (sweepBuckets i.time t, .done)

end PgStore

/-! ## MongoDB -/

namespace MongoStore

/-- One step of a fixed window. -/
def fixedRowStep (o : WindowOptions) (i : Timed (RowOp κ)) (t : RowTable κ FixedDocument) :
    RowTable κ FixedDocument × StoreReply :=
  match i.op with
  | .increment key options =>
    let r := incrementFixedWindow o i.time key options t
    (r.1, .result r.2)
  | .decrement key options => (decrementFixed key options t, .done)
  | .get key => (t, .snapshot (getFixed o i.time key t))
  | .set key totalHits expiresAt =>
    let r := setFixed o i.time key totalHits expiresAt t
    (r.1, .result r.2)
  | .reset key => (t.delete key, .done)
  | .housekeeping picked => (ttlDeleteFixed i.time picked t, .done)

/-- One step of a token bucket. -/
def bucketRowStep (o : TokenBucketOptions) (i : Timed (RowOp κ)) (t : RowTable κ BucketDocument) :
    RowTable κ BucketDocument × StoreReply :=
  match i.op with
  | .increment key options =>
    let r := incrementTokenBucket o i.time key options.sanitizedCost t
    (r.1, .result r.2)
  | .decrement key options => (decrementTokenBucket o key options t, .done)
  | .get key => (t, .snapshot (getTokenBucket o i.time key t))
  | .set key totalHits _ =>
    let r := setTokenBucket o i.time key totalHits t
    (r.1, .result r.2)
  | .reset key => (t.delete key, .done)
  | .housekeeping picked => (ttlDelete i.time picked t, .done)

end MongoStore

/-! ## DynamoDB -/

namespace DynamoStore

/-- One step of a token bucket. -/
def bucketRowStep (o : TokenBucketOptions) (i : Timed (RowOp κ)) (t : RowTable κ DynamoBucketItem) :
    RowTable κ DynamoBucketItem × StoreReply :=
  match i.op with
  | .increment key options =>
    let r := bucketAlone o (i.time, options.sanitizedCost) (t key)
    (Function.update t key r.1, .result r.2)
  | .decrement key options =>
    (Function.update t key (decrementTokenBucket o i.time options.sanitizedCost (t key)), .done)
  | .get key => (t, .snapshot (getTokenBucket o i.time (t key)))
  | .set key totalHits _ =>
    let r := setTokenBucket o i.time totalHits
    (Function.update t key (some r.1), .result r.2)
  | .reset key => (t.delete key, .done)
  | .housekeeping picked =>
    (t.deleteWhere fun k item => picked k && decide (item.ttl * 1000 ≤ i.time), .done)

end DynamoStore

end RatelimitFlex
