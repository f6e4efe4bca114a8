import RatelimitFlex.Analysis.DynamoBucketCommits
import RatelimitFlex.Analysis.MongoPipelines
import RatelimitFlex.Analysis.RowExpiry
import RatelimitFlex.Model.BucketTable

/-!
# Token buckets in Postgres, MongoDB and DynamoDB are interchangeable

A row, a document and an item of a token bucket hold one bucket and differ in what else they
hold.  As long as nothing is removed behind the store's back, the three answer whatever is asked
of them as the table of buckets does (`bucketRows_answer_alike`).  What a removal does to a bucket
is another matter: it fills it.
-/

set_option autoImplicit false

namespace RatelimitFlex

open Library

variable {κ : Type} [DecidableEq κ]

/-- The rows hold these buckets. -/
def HoldsBuckets {ρ : Type} (view : ρ → Bucket) (buckets : RowTable κ Bucket)
    (rows : RowTable κ ρ) : Prop :=
  ∀ k, (rows k).map view = buckets k

/-- A row that is written shows the bucket that is written. -/
theorem HoldsBuckets.update {ρ : Type} {view : ρ → Bucket} {buckets : RowTable κ Bucket}
    {rows : RowTable κ ρ} (h : HoldsBuckets view buckets rows) (key : κ) {row : Option ρ}
    {b : Option Bucket} (hrow : row.map view = b) :
    HoldsBuckets view (Function.update buckets key b) (Function.update rows key row) := by
  intro k
  by_cases hk : k = key
  · subst hk
    rwa [Function.update_self, Function.update_self]
  · rw [Function.update_of_ne hk, Function.update_of_ne hk]
    exact h k

/-- A machine over rows does what is asked as the table of buckets does. -/
def BucketsAlike {ρ : Type} (o : TokenBucketOptions) (view : ρ → Bucket)
    (step : Timed (RowOp κ) → RowTable κ ρ → RowTable κ ρ × StoreReply) : Prop :=
  ∀ i buckets rows, i.op.isAsked = true → HoldsBuckets view buckets rows →
    TableWf o i.time buckets →
    (step i rows).2 = (bucketTableStep o i buckets).2 ∧
      HoldsBuckets view (bucketTableStep o i buckets).1 (step i rows).1

/-- The run lemma: the buckets stay within their bounds, so every step is alike. -/
theorem BucketsAlike.outputs_eq {ρ : Type} {o : TokenBucketOptions} {view : ρ → Bucket}
    {step : Timed (RowOp κ) → RowTable κ ρ → RowTable κ ρ × StoreReply}
    (h : BucketsAlike o view step) {is : List (Timed (RowOp κ))} {t : ℤ}
    (hord : OrderedFrom Timed.time t is) (hasked : ∀ i ∈ is, i.op.isAsked = true) :
    outputs step is RowTable.empty = outputs (bucketTableStep o) is RowTable.empty := by
  have hstart : HoldsBuckets (κ := κ) view .empty .empty ∧ TableWf (κ := κ) o t .empty :=
    ⟨fun k => rfl, fun k b hb => absurd hb (Option.not_mem_none b)⟩
  have hstep : ∀ (t : ℤ) (rows : RowTable κ ρ) (buckets : RowTable κ Bucket) (i : Timed (RowOp κ)),
      HoldsBuckets view buckets rows ∧ TableWf o t buckets → t ≤ i.time →
      True ∧ i.op.isAsked = true →
      id (step i rows).2 = (bucketTableStep o i buckets).2 ∧
        HoldsBuckets view (bucketTableStep o i buckets).1 (step i rows).1 ∧
          TableWf o i.time (bucketTableStep o i buckets).1 := by
    intro t rows buckets i hR ht hi
    have hwf := hR.2.mono ht
    obtain ⟨hout, hnext⟩ := h i buckets rows hi.2 hR.1 hwf
    exact ⟨hout, hnext, bucketTableStep_wf hwf⟩
  have hrun := outputs_eq_of_simulation id
    (R := fun t rows buckets => HoldsBuckets view buckets rows ∧ TableWf o t buckets)
    hstep hstart hord ((guarded_true is _).and_mem hasked)
  rw [← hrun.1, List.map_id]

/-! ## Postgres -/

/-- The transaction answers for the bucket it serves. -/
theorem PgStore.bucketUpsert_answer (o : TokenBucketOptions) (now : ℤ) (cost : ℕ)
    (row : Option PgBucketRow) :
    (PgStore.bucketUpsert o now cost (PgStore.selectedBucket o now row)).2 =
      servedAnswer o (Bucket.serve o now cost (row.map PgStore.rowView.bucket)) := by
  have hstart : PgStore.selectedBucket o now row =
      Bucket.orFull o now (row.map PgStore.rowView.bucket) := by
    cases row <;> rfl
  rw [hstart, Bucket.serve]
  set b := Bucket.orFull o now (row.map PgStore.rowView.bucket)
  rcases le_or_gt (cost : ℤ) (b.refill o now).tokens with hc | hc
  · rw [Bucket.request_of_le o hc]
    simp [PgStore.bucketUpsert, servedAnswer, hc]
  · rw [Bucket.request_of_lt o hc]
    simp [PgStore.bucketUpsert, servedAnswer, not_le.mpr hc]

/-- Postgres answers as the table of buckets does. -/
theorem PgStore.bucketsAlike (o : TokenBucketOptions) :
    BucketsAlike o PgStore.rowView.bucket (PgStore.bucketRowStep (κ := κ) o) := by
  rintro ⟨now, op⟩ buckets rows hasked h hwf
  have hset : ∀ {b : Option Bucket} {row : PgBucketRow} (key : κ),
      some (PgStore.rowView.bucket row) = b →
      HoldsBuckets PgStore.rowView.bucket (Function.update buckets key b)
        (rows.upsert key row fun _ => row) := by
    intro b row key hb
    refine h.update key ?_
    cases rows key <;> exact hb
  cases op with
  | increment key options =>
    refine ⟨?_, hset key ?_⟩
    · show StoreReply.result _ = StoreReply.result _
      rw [← h key]
      exact congrArg StoreReply.result (PgStore.bucketUpsert_answer o now _ _)
    · rw [← h key]
      exact congrArg some (PgStore.bucketUpsert_eq o now _ _).1
  | decrement key options =>
    refine ⟨rfl, h.update key ?_⟩
    rw [← h key]
    cases rows key <;> rfl
  | get key =>
    refine ⟨?_, h⟩
    show StoreReply.snapshot _ = StoreReply.snapshot _
    rw [← h key, Option.map_map]
    rfl
  | set key totalHits expiresAt => exact ⟨rfl, hset key rfl⟩
  | reset key => exact ⟨rfl, h.update key rfl⟩
  | housekeeping picked => exact absurd hasked Bool.false_ne_true

/-! ## MongoDB -/

/-- Behind the clock the pipeline answers for the bucket it serves. -/
theorem MongoStore.incrementTokenBucket_answer (o : TokenBucketOptions) (now : ℤ) (key : κ)
    (cost : ℕ) (docs : RowTable κ BucketDocument)
    (hwf : ∀ d ∈ docs key, (MongoStore.rowView.bucket d).Wf o now) :
    (MongoStore.incrementTokenBucket o now key cost docs).2 =
      servedAnswer o
        (Bucket.serve o now cost ((docs key).map MongoStore.rowView.bucket)) := by
  have hstart : MongoStore.storedBucket o now (docs key) =
      Bucket.orFull o now ((docs key).map MongoStore.rowView.bucket) := by
    cases docs key <;> rfl
  have hbucket : (MongoStore.storedBucket o now (docs key)).Wf o now := by
    rw [hstart]
    refine Bucket.wf_orFull fun b hb => ?_
    obtain ⟨d, hd, rfl⟩ := Option.map_eq_some_iff.mp hb
    exact hwf d hd
  rw [MongoStore.incrementTokenBucket, MongoStore.tokenBucketPipeline_eq_ite,
    MongoStore.pipelineRefilled_eq_refill hbucket.tokens_le hbucket.lastRefill_le, hstart,
    Bucket.serve]
  set b := Bucket.orFull o now ((docs key).map MongoStore.rowView.bucket)
  rcases le_or_gt (cost : ℤ) (b.refill o now).tokens with hc | hc
  · rw [Bucket.request_of_le o hc]
    simp [servedAnswer, hc]
  · rw [Bucket.request_of_lt o hc]
    simp [servedAnswer, not_le.mpr hc]

/-- So does MongoDB. -/
theorem MongoStore.bucketsAlike (o : TokenBucketOptions) :
    BucketsAlike o MongoStore.rowView.bucket (MongoStore.bucketRowStep (κ := κ) o) := by
  rintro ⟨now, op⟩ buckets docs hasked h hwf
  have hset : ∀ {b : Option Bucket} {doc : BucketDocument} (key : κ),
      some (MongoStore.rowView.bucket doc) = b →
      HoldsBuckets MongoStore.rowView.bucket (Function.update buckets key b)
        (docs.upsert key doc fun _ => doc) := by
    intro b doc key hb
    refine h.update key ?_
    cases docs key <;> exact hb
  cases op with
  | increment key options =>
    have hdoc : ∀ d ∈ docs key, (MongoStore.rowView.bucket d).Wf o now := by
      intro d hd
      refine hwf key _ ?_
      rw [← h key]
      exact Option.mem_map_of_mem MongoStore.rowView.bucket hd
    refine ⟨?_, hset key ?_⟩
    · show StoreReply.result _ = StoreReply.result _
      rw [← h key]
      exact congrArg StoreReply.result
        (MongoStore.incrementTokenBucket_answer o now key _ docs hdoc)
    · rw [← h key]
      exact congrArg some (MongoStore.tokenBucketPipeline_eq o now _ _ hdoc).1
  | decrement key options =>
    refine ⟨rfl, h.update key ?_⟩
    rw [← h key]
    cases docs key <;> rfl
  | get key =>
    refine ⟨?_, h⟩
    show StoreReply.snapshot _ = StoreReply.snapshot _
    rw [← h key, Option.map_map]
    rfl
  | set key totalHits expiresAt => exact ⟨rfl, hset key rfl⟩
  | reset key => exact ⟨rfl, h.update key rfl⟩
  | housekeeping picked => exact absurd hasked Bool.false_ne_true

/-! ## DynamoDB -/

/-- An increment of DynamoDB serves its bucket. -/
theorem DynamoStore.bucketAlone_answer (o : TokenBucketOptions) (now : ℤ) (cost : ℕ)
    (item : Option DynamoBucketItem) :
    (DynamoStore.bucketAlone o (now, cost) item).2 =
      servedAnswer o (Bucket.serve o now cost (item.map DynamoStore.itemBucket)) := by
  have hstart : DynamoStore.storedBucket o now item =
      Bucket.orFull o now (item.map DynamoStore.itemBucket) := by
    cases item <;> rfl
  rw [DynamoStore.bucketAlone, DynamoStore.bucketAttempt, hstart, Bucket.serve]
  set b := Bucket.orFull o now (item.map DynamoStore.itemBucket)
  rcases le_or_gt (cost : ℤ) (b.refill o now).tokens with hc | hc
  · rw [Bucket.request_of_le o hc]
    simp [servedAnswer, hc]
  · rw [Bucket.request_of_lt o hc]
    simp [servedAnswer, not_le.mpr hc]

/-- The second write takes back what the first added above the size. -/
theorem DynamoStore.map_decrementTokenBucket (o : TokenBucketOptions) (now : ℤ) (cost : ℕ)
    (item : Option DynamoBucketItem) :
    (DynamoStore.decrementTokenBucket o now cost item).map DynamoStore.itemBucket =
      (item.map DynamoStore.itemBucket).map (bucketRefund o cost) := by
  cases item with
  | none => rfl
  | some x =>
    refine congrArg some (congrArg (Bucket.mk · x.lastRefillAt) ?_)
    show (if o.bucketSize < x.tokens + cost then o.bucketSize else x.tokens + cost) =
      min o.bucketSize (x.tokens + cost)
    split <;> omega

/-- So DynamoDB answers as the table does. -/
theorem DynamoStore.bucketsAlike (o : TokenBucketOptions) :
    BucketsAlike o DynamoStore.itemBucket (DynamoStore.bucketRowStep (κ := κ) o) := by
  rintro ⟨now, op⟩ buckets items hasked h hwf
  cases op with
  | increment key options =>
    have hserve := DynamoStore.bucketAlone_eq (o := o) (now, options.sanitizedCost) (items key)
    refine ⟨?_, h.update key ?_⟩
    · show StoreReply.result _ = StoreReply.result _
      rw [← h key]
      exact congrArg StoreReply.result (DynamoStore.bucketAlone_answer o now _ _)
    · rw [← h key]
      exact (congrArg Prod.fst hserve).symm
  | decrement key options =>
    refine ⟨rfl, h.update key ?_⟩
    rw [← h key]
    exact DynamoStore.map_decrementTokenBucket o now _ _
  | get key =>
    refine ⟨?_, h⟩
    show StoreReply.snapshot _ = StoreReply.snapshot _
    rw [← h key, Option.map_map]
    rfl
  | set key totalHits expiresAt => exact ⟨rfl, h.update key rfl⟩
  | reset key => exact ⟨rfl, h.update key rfl⟩
  | housekeeping picked => exact absurd hasked Bool.false_ne_true

/-- **Token buckets are interchangeable.**  Until something is removed behind their back, the
three databases answer the same requests alike, and as a bucket for each key does. -/
theorem bucketRows_answer_alike (o : TokenBucketOptions) {is : List (Timed (RowOp κ))} {t : ℤ}
    (hord : OrderedFrom Timed.time t is) (hasked : ∀ i ∈ is, i.op.isAsked = true) :
    outputs (PgStore.bucketRowStep o) is RowTable.empty =
        outputs (bucketTableStep o) is RowTable.empty ∧
      outputs (MongoStore.bucketRowStep o) is RowTable.empty =
        outputs (bucketTableStep o) is RowTable.empty ∧
      outputs (DynamoStore.bucketRowStep o) is RowTable.empty =
        outputs (bucketTableStep o) is RowTable.empty :=
  ⟨(PgStore.bucketsAlike o).outputs_eq hord hasked,
    (MongoStore.bucketsAlike o).outputs_eq hord hasked,
    (DynamoStore.bucketsAlike o).outputs_eq hord hasked⟩

/-- Key 7 spends its two tokens, is given one back, and is full again an interval later. -/
theorem bucketRows_answer_alike_refunded :
    let is : List (Timed (RowOp ℕ)) := [⟨0, .increment 7 {}⟩, ⟨10, .increment 7 {}⟩,
      ⟨20, .increment 7 {}⟩, ⟨30, .decrement 7 {}⟩, ⟨40, .get 7⟩, ⟨1700, .increment 7 {}⟩]
    outputs (PgStore.bucketRowStep twoTokens) is RowTable.empty =
        outputs (bucketTableStep twoTokens) is RowTable.empty ∧
      outputs (MongoStore.bucketRowStep twoTokens) is RowTable.empty =
        outputs (bucketTableStep twoTokens) is RowTable.empty ∧
      outputs (DynamoStore.bucketRowStep twoTokens) is RowTable.empty =
        outputs (bucketTableStep twoTokens) is RowTable.empty :=
  bucketRows_answer_alike twoTokens (t := 0) (by decide) (by decide)

end RatelimitFlex
