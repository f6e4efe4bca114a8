import RatelimitFlex.Program.MongoStore

/-!
# The aggregation pipelines of `MongoStore`

The token bucket's pipeline writes the shared refill out in aggregation operators, without
its test that an interval has passed: it is the refill as long as the clock has not gone
behind `lastRefillAt` (`tokenBucketPipeline_refills_iff`), and takes tokens away when it has.
The two pipelines of a sliding decrement drop the hits they should; that of `removeNewest`
asks `$slice` for no hits when the cost takes them all, which is an error
(`decrementSliding_removes_iff`).
-/

set_option autoImplicit false

namespace RatelimitFlex

open Library

namespace MongoStore

/-! ## Token bucket -/

/-- The bucket of a document; a missing one is full. -/
def storedBucket (o : TokenBucketOptions) (now : ℤ) (doc : Option BucketDocument) : Bucket :=
  match doc with
  | none => ⟨o.bucketSize, now⟩
  | some d => ⟨d.tokens, d.lastRefillAt⟩

/-- The shared refill, and the cost taken if there is enough: the bucket left, and whether
the request is blocked. -/
def refillThenConsume (o : TokenBucketOptions) (now : ℤ) (cost : ℕ)
    (doc : Option BucketDocument) : Bucket × Bool :=
  let refilled := refillBucketState o now (storedBucket o now doc)
  if (cost : ℤ) ≤ refilled.tokens then (⟨refilled.tokens - cost, refilled.lastRefill⟩, false)
  else (refilled, true)

/-- One application of the pipeline is the shared refill with its consumption, and leaves a
bucket within its bounds. -/
def PipelineRefills (o : TokenBucketOptions) (now : ℤ) (cost : ℕ)
    (doc : Option BucketDocument) : Prop :=
  let r := tokenBucketPipeline o now cost doc
  let s := refillThenConsume o now cost doc
  (r.1.tokens = s.1.tokens ∧ r.1.lastRefillAt = s.1.lastRefill ∧ r.2 = s.2) ∧
    ((∀ d ∈ doc, 0 ≤ d.tokens) → 0 ≤ r.1.tokens) ∧ r.1.tokens ≤ o.bucketSize

section Pipeline

variable {o : TokenBucketOptions} {now : ℤ} {cost : ℕ} {doc : Option BucketDocument}

/-- The bucket the pipeline computes before it takes the cost. -/
def pipelineRefilled (o : TokenBucketOptions) (now : ℤ) (doc : Option BucketDocument) : Bucket :=
  let b := storedBucket o now doc
  let ints := (now - b.lastRefill) / o.interval
  ⟨min o.bucketSize (b.tokens + ints * o.tokensPerInterval), b.lastRefill + ints * o.interval⟩

/-- The fields the last stage computes from it. -/
theorem tokenBucketPipeline_eq_ite :
    tokenBucketPipeline o now cost doc =
      (let b := pipelineRefilled o now doc
       let enough := decide ((cost : ℤ) ≤ b.tokens)
       ({ tokens := if enough then b.tokens - cost else b.tokens
          lastRefillAt := b.lastRefill
          totalHits := if enough then o.bucketSize - (b.tokens - cost) else o.bucketSize
          resetAt := b.lastRefill + o.interval }, !enough)) := by
  cases doc <;> rfl

/-- When the clock is at the last refill or later, it is the shared refill. -/
theorem pipelineRefilled_eq_refill (htokens : (storedBucket o now doc).tokens ≤ o.bucketSize)
    (hlast : (storedBucket o now doc).lastRefill ≤ now) :
    pipelineRefilled o now doc = (storedBucket o now doc).refill o now := by
  have htok := Bucket.tokens_refill htokens hlast
  have hlr := Bucket.lastRefill_refill (p := o) hlast
  rw [pipelineRefilled, ← htok, ← hlr]

/-- When the clock is behind it, the last refill moves back. -/
theorem lastRefill_pipelineRefilled_lt (hlast : now < (storedBucket o now doc).lastRefill) :
    (pipelineRefilled o now doc).lastRefill < (storedBucket o now doc).lastRefill := by
  have hI := o.interval_pos
  have hneg : (now - (storedBucket o now doc).lastRefill) / o.interval < 0 :=
    Int.ediv_neg_of_neg_of_pos (by omega) (by omega)
  have hback := mul_le_mul_of_nonneg_right (Int.le_sub_one_of_lt hneg) (show 0 ≤ o.interval by omega)
  simp only [pipelineRefilled]
  omega

/-- The shared refill does not move it. -/
theorem lastRefill_refillThenConsume (hlast : now < (storedBucket o now doc).lastRefill) :
    (refillThenConsume o now cost doc).1.lastRefill = (storedBucket o now doc).lastRefill := by
  have hI := o.interval_pos
  have hkeep : refillBucketState o now (storedBucket o now doc) = storedBucket o now doc :=
    Bucket.refill_of_lt (by omega)
  simp only [refillThenConsume, hkeep]
  split <;> rfl

/-- A stored bucket is no fuller than its size. -/
theorem tokens_storedBucket_le (now : ℤ) (htokens : ∀ d ∈ doc, d.tokens ≤ o.bucketSize) :
    (storedBucket o now doc).tokens ≤ o.bucketSize := by
  cases doc with
  | none => exact le_rfl
  | some d => exact htokens d rfl

/-- It has no fewer than no tokens. -/
theorem tokens_storedBucket_nonneg (htokens : ∀ d ∈ doc, 0 ≤ d.tokens) :
    0 ≤ (storedBucket o now doc).tokens := by
  cases doc with
  | none =>
    have := o.bucketSize_pos
    simp only [storedBucket]
    omega
  | some d => exact htokens d rfl

/-- Its last refill is in the past when that of the document was. -/
theorem lastRefill_storedBucket_le_iff :
    (storedBucket o now doc).lastRefill ≤ now ↔ ∀ d ∈ doc, d.lastRefillAt ≤ now := by
  cases doc with
  | none => simp [storedBucket]
  | some d => simp [storedBucket]

end Pipeline

/-- The pipeline is the shared refill, and stays within the bounds, exactly when the clock is
not behind the stored last refill. -/
theorem tokenBucketPipeline_refills_iff (o : TokenBucketOptions) (now : ℤ) (cost : ℕ)
    (doc : Option BucketDocument) (htokens : ∀ d ∈ doc, d.tokens ≤ o.bucketSize) :
    PipelineRefills o now cost doc ↔ ∀ d ∈ doc, d.lastRefillAt ≤ now := by
  have hle := tokens_storedBucket_le now htokens
  rw [← lastRefill_storedBucket_le_iff (o := o)]
  constructor
  · rintro ⟨⟨-, hlast, -⟩, -⟩
    by_contra hbehind
    have hmoved := lastRefill_pipelineRefilled_lt (not_le.mp hbehind)
    rw [lastRefill_refillThenConsume (not_le.mp hbehind), tokenBucketPipeline_eq_ite] at hlast
    exact hmoved.ne hlast
  · intro hlast
    have hrefill := pipelineRefilled_eq_refill hle hlast
    have hcap : ((storedBucket o now doc).refill o now).tokens ≤ o.bucketSize :=
      Bucket.tokens_refill_le hle
    have hpos : (∀ d ∈ doc, 0 ≤ d.tokens) →
        0 ≤ ((storedBucket o now doc).refill o now).tokens := fun h =>
      (Bucket.Wf.refill ⟨tokens_storedBucket_nonneg h, hle, hlast⟩ le_rfl).tokens_nonneg
    rw [PipelineRefills, tokenBucketPipeline_eq_ite, hrefill]
    by_cases henough : (cost : ℤ) ≤ ((storedBucket o now doc).refill o now).tokens
    · simp only [refillThenConsume, refillBucketState_eq, henough, decide_true, if_true,
        Bool.not_true, true_and, and_self]
      exact ⟨fun _ => by omega, by omega⟩
    · simp only [refillThenConsume, refillBucketState_eq, henough, decide_false, if_false,
        Bool.false_eq_true, Bool.not_false, true_and, and_self]
      exact ⟨hpos, hcap⟩

/-- A bucket with three tokens, one second after its last refill. -/
theorem tokenBucketPipeline_refills_iff_second :
    (∀ d ∈ some (⟨3, 1000, 2, 2000⟩ : BucketDocument), d.tokens ≤ fiveAtMost.bucketSize) ∧
      PipelineRefills fiveAtMost 2000 1 (some ⟨3, 1000, 2, 2000⟩) := by
  have htokens : ∀ d ∈ some (⟨3, 1000, 2, 2000⟩ : BucketDocument),
      d.tokens ≤ fiveAtMost.bucketSize := by
    rintro d ⟨⟩
    decide
  refine ⟨htokens, (tokenBucketPipeline_refills_iff fiveAtMost 2000 1 _ htokens).mpr ?_⟩
  rintro d ⟨⟩
  decide

/-- One millisecond behind, the bucket's only token is gone and it owes one: the request is
blocked that the shared refill lets through. -/
theorem tokenBucketPipeline_takes_tokens_away :
    (tokenBucketPipeline fiveAtMost 999 1 (some ⟨1, 1000, 4, 2000⟩)).1.tokens = -1 ∧
      (tokenBucketPipeline fiveAtMost 999 1 (some ⟨1, 1000, 4, 2000⟩)).2 = true ∧
      (refillThenConsume fiveAtMost 999 1 (some ⟨1, 1000, 4, 2000⟩)).2 = false ∧
      ¬ PipelineRefills fiveAtMost 999 1 (some ⟨1, 1000, 4, 2000⟩) := by
  refine ⟨by decide, by decide, by decide, ?_⟩
  rintro ⟨⟨-, -, hblocked⟩, -⟩
  exact absurd hblocked (by decide)

/-! ## Sliding decrement -/

/-- The hits without `n` of them, the newest or the oldest. -/
def without (n : ℕ) (removeNewest : Bool) (hits : List ℤ) : List ℤ :=
  if removeNewest then hits.take (hits.length - n) else hits.drop n

variable {κ : Type} [DecidableEq κ]

/-- The decrement succeeds, and a stored document loses exactly `min cost size` of its hits,
from the right end, and counts the rest; nothing else in the collection changes. -/
def DecrementRemoves (key : κ) (cost : ℕ) (removeNewest : Bool)
    (t : RowTable κ SlidingDocument) : Prop :=
  ∃ t', decrementSliding key cost removeNewest t = .ok t' ∧ (∀ k, k ≠ key → t' k = t k) ∧
    t' key = (t key).map fun d =>
      { d with
        hits := without (min cost d.hits.length) removeNewest d.hits
        totalHits := d.hits.length - min cost d.hits.length }

/-- So many hits are left after some were taken. -/
theorem length_without {n : ℕ} (removeNewest : Bool) {hits : List ℤ} (h : n ≤ hits.length) :
    (without n removeNewest hits).length = hits.length - n := by
  cases removeNewest with
  | false => simp [without]
  | true => simp only [without, if_true, List.length_take]; omega

/-- A `$slice` for at least one hit. -/
theorem slice_of_pos {xs : List ℤ} {position : ℕ} {n : ℤ} (h : 0 < n) :
    slice xs position n = .ok ((xs.drop position).take n.toNat) := if_pos h

/-- The server refuses to slice no elements. -/
theorem slice_of_nonpos {xs : List ℤ} {position : ℕ} {n : ℤ} (h : n ≤ 0) :
    slice xs position n = .error "Third argument to $slice must be positive" :=
  if_neg (not_lt.mpr h)

/-- The default pipeline never fails. -/
theorem fifoHits_eq (cost : ℕ) (hits : List ℤ) :
    fifoHits cost hits = .ok (without (min cost hits.length) false hits) := by
  by_cases hall : hits.length ≤ cost
  · rw [fifoHits, if_pos hall, min_eq_right hall]
    simp [without]
  · have hcost : cost ≤ hits.length := by omega
    rw [fifoHits, if_neg hall, slice_of_pos (by omega), min_eq_left hcost]
    -- the count is the whole length of what is left
    have hcount : ((hits.length : ℤ) - cost).toNat = (hits.drop cost).length := by
      rw [List.length_drop]
      omega
    rw [hcount, List.take_length]
    rfl

/-- That of `removeNewest` keeps a hit or fails. -/
theorem lifoHits_of_lt {cost : ℕ} {hits : List ℤ} (h : cost < hits.length) :
    lifoHits cost hits = .ok (without (min cost hits.length) true hits) := by
  rw [lifoHits, slice_of_pos (by omega), min_eq_left h.le, List.drop_zero]
  have hcount : (max 0 ((hits.length : ℤ) - cost)).toNat = hits.length - cost := by omega
  rw [hcount]
  rfl

/-- So it refuses to take all hits from the end. -/
theorem lifoHits_of_le {cost : ℕ} {hits : List ℤ} (h : hits.length ≤ cost) :
    lifoHits cost hits = .error "Third argument to $slice must be positive" := by
  rw [lifoHits, slice_of_nonpos (by omega)]

/-- What the decrement does to a stored document when its pipeline gets through. -/
theorem decrementRemoves_of_hits {key : κ} {cost : ℕ} {removeNewest : Bool}
    {t : RowTable κ SlidingDocument} {d : SlidingDocument} (hd : t key = some d)
    (h : (if removeNewest then lifoHits cost d.hits else fifoHits cost d.hits) =
      .ok (without (min cost d.hits.length) removeNewest d.hits)) :
    DecrementRemoves key cost removeNewest t := by
  refine ⟨Function.update t key (some
    { d with
      hits := without (min cost d.hits.length) removeNewest d.hits
      totalHits := (without (min cost d.hits.length) removeNewest d.hits).length }), ?_, ?_, ?_⟩
  · rw [decrementSliding, hd]
    simp only [h]
    rfl
  · intro k hk
    exact Function.update_of_ne hk _ _
  · rw [Function.update_self, hd, length_without removeNewest (min_le_right _ _)]
    rfl

/-- The decrement does what it should unless `removeNewest` is to take every hit of a stored
document. -/
theorem decrementSliding_removes_iff (key : κ) (cost : ℕ) (removeNewest : Bool)
    (t : RowTable κ SlidingDocument) :
    DecrementRemoves key cost removeNewest t ↔
      ∀ d ∈ t key, removeNewest = true → cost < d.hits.length := by
  constructor
  · rintro ⟨t', hok, -⟩ d hd rfl
    by_contra hall
    rw [decrementSliding, hd] at hok
    simp [lifoHits_of_le (not_lt.mp hall), Except.map] at hok
  · intro hsome
    cases hd : t key with
    | none =>
      refine ⟨t, ?_, fun _ _ => rfl, ?_⟩
      · rw [decrementSliding, hd]
      · rw [hd]
        rfl
    | some d =>
      refine decrementRemoves_of_hits hd ?_
      cases removeNewest with
      | false => exact fifoHits_eq cost d.hits
      | true => exact lifoHits_of_lt (hsome d hd rfl)

/-- Giving the only hit back as the newest one fails, and a store that fails open reports
success and keeps it. -/
theorem decrementSliding_keeps_only_hit :
    ¬ DecrementRemoves () 1 true (fun _ => some ⟨[1000], 1, 2000⟩) ∧
      decrement .failOpen () { removeNewest := true } (fun _ => some ⟨[1000], 1, 2000⟩) =
        (fun _ => some ⟨[1000], 1, 2000⟩, .ok ()) := by
  refine ⟨?_, rfl⟩
  rintro ⟨t', hok, -⟩
  have hfails : decrementSliding () 1 true (fun _ => some ⟨[1000], 1, 2000⟩) =
      .error "Third argument to $slice must be positive" := rfl
  simp [hfails] at hok

end MongoStore

end RatelimitFlex
