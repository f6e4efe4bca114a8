import RatelimitFlex.Library.BucketExpiry
import RatelimitFlex.Program.RowOps

/-!
# One bucket for each key

What the rows of a token bucket are for, without the rows: a bucket for each key, full where there
is none.  Nothing but the operations asked for happens to the buckets (`bucketTableStep`), which
stay within their bounds and behind the clock (`bucketTableStep_wf`).
-/

set_option autoImplicit false

namespace RatelimitFlex

open Library

/-- The answer to a request the bucket was charged for, or not. -/
def servedAnswer (o : TokenBucketOptions) (served : Bucket × Bool) : RateLimitResult where
  totalHits := if served.2 then o.bucketSize - served.1.tokens else o.bucketSize
  remaining := if served.2 then served.1.tokens else 0
  resetTime := served.1.lastRefill + o.interval
  isBlocked := !served.2

/-- What a bucket says without being charged. -/
def bucketReading (o : TokenBucketOptions) (now : ℤ) (b : Bucket) : RateLimitResult :=
  let b := b.refill o now
  { totalHits := o.bucketSize - b.tokens
    remaining := b.tokens
    resetTime := b.lastRefill + o.interval
    isBlocked := decide (b.tokens = 0) && decide (o.bucketSize ≤ o.bucketSize - b.tokens) }

/-- The bucket after some of it was given back. -/
def bucketRefund (o : TokenBucketOptions) (cost : ℕ) (b : Bucket) : Bucket :=
  ⟨min o.bucketSize (b.tokens + cost), b.lastRefill⟩

/-- The tokens that are left when `totalHits` are gone. -/
def tokensLeft (o : TokenBucketOptions) (totalHits : ℤ) : ℤ :=
  if decide (o.bucketSize ≤ max 0 totalHits) then 0 else max 0 (o.bucketSize - max 0 totalHits)

variable {κ : Type} [DecidableEq κ]

/-- One operation on the buckets of all keys. -/
def bucketTableStep (o : TokenBucketOptions) (i : Timed (RowOp κ)) (t : RowTable κ Bucket) :
    RowTable κ Bucket × StoreReply :=
  match i.op with
  | .increment key options =>
    let r := Bucket.serve o i.time options.sanitizedCost (t key)
    (Function.update t key (some r.1), .result (servedAnswer o r))
  | .decrement key options =>
    (Function.update t key ((t key).map (bucketRefund o options.sanitizedCost)), .done)
  | .get key => (t, .snapshot ((t key).map (bucketReading o i.time)))
  | .set key totalHits _ =>
    let blocked := decide (o.bucketSize ≤ max 0 totalHits)
    let tokens := tokensLeft o totalHits
    (Function.update t key (some ⟨tokens, i.time⟩),
      .result
        { totalHits := if blocked then o.bucketSize else max 0 totalHits
          remaining := tokens
          resetTime := i.time + o.interval
          isBlocked := blocked })
  | .reset key => (Function.update t key none, .done)
  | .housekeeping _ => (t, .done)

/-! ## The buckets stay within their bounds -/

/-- Every bucket is within its bounds and behind the clock. -/
def TableWf (o : TokenBucketOptions) (t : ℤ) (buckets : RowTable κ Bucket) : Prop :=
  ∀ k, ∀ b ∈ buckets k, b.Wf o t

section Wf

variable {o : TokenBucketOptions} {t now : ℤ} {buckets : RowTable κ Bucket}

omit [DecidableEq κ] in
/-- Buckets that are well formed stay so as time passes. -/
theorem TableWf.mono (h : TableWf o t buckets) (ht : t ≤ now) : TableWf o now buckets :=
  fun k b hb => (h k b hb).mono ht

/-- A well-formed bucket may take the place of one. -/
theorem TableWf.update (h : TableWf o now buckets) (key : κ) {e : Option Bucket}
    (he : ∀ b ∈ e, b.Wf o now) : TableWf o now (Function.update buckets key e) := by
  intro k
  by_cases hk : k = key
  · subst hk
    rwa [Function.update_self]
  · rw [Function.update_of_ne hk]
    exact h k

/-- A refund keeps a bucket well formed. -/
theorem wf_bucketRefund {b : Bucket} (h : b.Wf o now) (cost : ℕ) :
    (bucketRefund o cost b).Wf o now := by
  have hsize := o.bucketSize_pos
  have htokens := h.tokens_nonneg
  refine ⟨le_min (by omega) (by omega), min_le_left _ _, h.lastRefill_le⟩

/-- So is what a `set` leaves. -/
theorem wf_tokensLeft (o : TokenBucketOptions) (now totalHits : ℤ) :
    Bucket.Wf o now ⟨tokensLeft o totalHits, now⟩ := by
  have hsize := o.bucketSize_pos
  refine ⟨?_, ?_, le_rfl⟩
  · show 0 ≤ tokensLeft o totalHits
    unfold tokensLeft
    split <;> omega
  · show tokensLeft o totalHits ≤ o.bucketSize
    unfold tokensLeft
    split <;> omega

/-- The step lemma. -/
theorem bucketTableStep_wf {i : Timed (RowOp κ)} (h : TableWf o i.time buckets) :
    TableWf o i.time (bucketTableStep o i buckets).1 := by
  obtain ⟨now, op⟩ := i
  cases op with
  | increment key options =>
    refine h.update key fun b hb => ?_
    obtain rfl := Option.some.inj hb
    exact Bucket.wf_serve (h key) options.sanitizedCost
  | decrement key options =>
    refine h.update key fun b hb => ?_
    obtain ⟨b', hb', rfl⟩ := Option.map_eq_some_iff.mp hb
    exact wf_bucketRefund (h key b' hb') options.sanitizedCost
  | get key => exact h
  | set key totalHits expiresAt =>
    refine h.update key fun b hb => ?_
    obtain rfl := Option.some.inj hb
    exact wf_tokensLeft o now totalHits
  | reset key => exact h.update key fun b hb => absurd hb (Option.not_mem_none b)
  | housekeeping picked => exact h

end Wf

end RatelimitFlex
