import RatelimitFlex.Library.PartitionPoint
import RatelimitFlex.Program.KeyManager

/-!
# The latency histogram

`src/metrics/histogram.ts`.  Numbers are exact, the sum of the observed values among them.
-/

set_option autoImplicit false

namespace RatelimitFlex

open Library

/-- `Number.isFinite`. -/
def JsNumber.isFinite : JsNumber → Bool
  | .nan => false
  | .posInfinity => false
  | .negInfinity => false
  | .finite _ => true

/-! ## Bucket bounds -/

inductive BucketBoundsError where
  | empty
  | notPositive (v : JsNumber) (i : ℕ)
  | notAscending (i : ℕ)
  deriving DecidableEq

/-- `text` writes a number.
SOURCE: src/metrics/histogram.ts:13-31 -/
def BucketBoundsError.message (text : JsNumber → String) (label : String) :
    BucketBoundsError → String
  | .empty =>
    "ratelimit-flex: " ++ label ++
      " must be a non-empty array of positive numbers in strictly ascending order."
  | .notPositive v i =>
    "ratelimit-flex: " ++ label ++ " must contain only finite numbers > 0 (got " ++ text v ++
      " at index " ++ toString i ++ ")."
  | .notAscending i =>
    "ratelimit-flex: " ++ label ++
      " must be sorted in strictly ascending order (invalid at index " ++ toString i ++ ")."

/-- The first loop looks at every bound, the second at neighbours.
SOURCE: src/metrics/histogram.ts:9-33 -/
def assertHistogramBucketBounds (buckets : List JsNumber) : Except BucketBoundsError Unit :=
  if buckets.length = 0 then .error .empty
  else
    match buckets.findIdx? fun v => !v.isFinite || v.le 0 with
    | some i => .error (.notPositive (buckets.getD i .nan) i)
    | none =>
      match (buckets.zip buckets.tail).findIdx? fun b => b.2.le b.1 with
      | some i => .error (.notAscending (i + 1))
      | none => .ok ()

/-! ## The class -/

/-- `totalCount` and `sum` are `_totalCount` and `_sum`.
SOURCE: src/metrics/histogram.ts:58-90 -/
@[ext] structure Histogram where
  buckets : List JsNumber
  counts : List ℕ
  totalCount : ℕ
  sum : JsNumber
  bounds : assertHistogramBucketBounds buckets = .ok ()
  slots : counts.length = buckets.length + 1

namespace Histogram

/-- A histogram with the bounds of another one that counts nothing. -/
def emptied (h : Histogram) : Histogram where
  buckets := h.buckets
  counts := List.replicate (h.buckets.length + 1) 0
  totalCount := 0
  sum := 0
  bounds := h.bounds
  slots := List.length_replicate

/-- SOURCE: src/metrics/histogram.ts:76-80 -/
def ofBuckets (buckets : List JsNumber) : Except BucketBoundsError Histogram :=
  match hbounds : assertHistogramBucketBounds buckets with
  | .error e => .error e
  | .ok () => .ok {
      buckets := buckets
      counts := List.replicate (buckets.length + 1) 0
      totalCount := 0
      sum := 0
      bounds := hbounds
      slots := List.length_replicate }

/-- SOURCE: src/metrics/histogram.ts:156-168 -/
def bucketIndex (value : JsNumber) (buckets : List JsNumber) : ℕ :=
  partitionPoint (fun mid => (buckets[mid]?).any fun b => value.lt b) 0 buckets.length

/-- SOURCE: src/metrics/histogram.ts:98-106 -/
def observe (h : Histogram) (value : JsNumber) : Histogram where
  buckets := h.buckets
  counts := h.counts.modify (bucketIndex value h.buckets) (· + 1)
  totalCount := h.totalCount + 1
  sum := h.sum.add value
  bounds := h.bounds
  slots := (List.length_modify _ _ _).trans h.slots

structure DistributionRow where
  bucket : JsNumber
  count : ℕ
  cumulative : ℕ

/-- The rows from slot `i` on. -/
def distributionRows (buckets : List JsNumber) : ℕ → ℕ → List ℕ → List DistributionRow
  | _, _, [] => []
  | i, cumulative, c :: counts =>
    { bucket := buckets.getD i .posInfinity, count := c, cumulative := cumulative + c } ::
      distributionRows buckets (i + 1) (cumulative + c) counts

/-- SOURCE: src/metrics/histogram.ts:113-124 -/
def getDistribution (h : Histogram) : List DistributionRow :=
  distributionRows h.buckets 0 0 h.counts

/-- SOURCE: src/metrics/histogram.ts:126-130 -/
def reset (h : Histogram) : Histogram := h.emptied

inductive MergeError where
  | lengths
  | boundaries

/-- SOURCE: src/metrics/histogram.ts:135-143 -/
def MergeError.message : MergeError → String
  | .lengths => "Histogram.merge: bucket arrays must have the same length"
  | .boundaries => "Histogram.merge: bucket boundaries must match"

/-- Merged counts have a slot for each bound and one more. -/
theorem merged_slots {h other : Histogram} (hlengths : h.buckets.length = other.buckets.length) :
    (List.zipWith (· + ·) h.counts other.counts).length = h.buckets.length + 1 := by
  rw [List.length_zipWith, h.slots, other.slots, hlengths, Nat.min_self]

/-- SOURCE: src/metrics/histogram.ts:135-151 -/
def merge (h other : Histogram) : Except MergeError Histogram :=
  if hlengths : h.buckets.length ≠ other.buckets.length then .error .lengths
  else if (h.buckets.zip other.buckets).any fun b => b.1 ≠ b.2 then .error .boundaries
  else .ok {
    buckets := h.buckets
    counts := List.zipWith (· + ·) h.counts other.counts
    totalCount := h.totalCount + other.totalCount
    sum := h.sum.add other.sum
    bounds := h.bounds
    slots := merged_slots (not_not.mp hlengths) }

end Histogram

end RatelimitFlex
