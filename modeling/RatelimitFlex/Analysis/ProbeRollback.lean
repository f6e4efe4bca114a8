import RatelimitFlex.Analysis.StoreCells

/-!
# What is left of an increment that was taken back

A rollback is an increment and a decrement of the same cost.  One lemma for each strategy
says what it leaves of a cell.  A wall expiry never survives it, and neither does an entry
that is expired or holds nothing.
-/

set_option autoImplicit false

namespace RatelimitFlex

open Library

namespace Cell

/-- An increment, taken back. -/
def probed (now : ℤ) (inc : RateLimitIncrementOptions) (dec : RateLimitDecrementOptions)
    (x : Cell) : Cell :=
  ((x.clearWall now).increment now inc).1.decrement dec

end Cell

section Probed

variable {now : ℤ} {inc : RateLimitIncrementOptions} {dec : RateLimitDecrementOptions}

/-- A probe of a sliding window. -/
theorem probed_sliding (o : WindowOptions) (e : Option SlidingKeyState) :
    (Cell.sliding o e).probed now inc dec =
      (Cell.sliding o (some ⟨heldStamps o now e ++ List.replicate inc.sanitizedCost now,
        none⟩)).decrement dec := rfl

/-- An increment leaves a stamp. -/
theorem append_replicate_cost_ne_nil (l : List ℤ) :
    l ++ List.replicate inc.sanitizedCost now ≠ [] := by
  have hc := inc.one_le_sanitizedCost
  intro h
  have := congrArg List.length h
  simp only [List.length_append, List.length_replicate, List.length_nil] at this
  omega

/-- Taken from the end, the stamps that counted are left. -/
theorem probed_sliding_newest (hcost : dec.sanitizedCost = inc.sanitizedCost)
    (hnewest : dec.removeNewest = true) (o : WindowOptions) (e : Option SlidingKeyState) :
    (Cell.sliding o e).probed now inc dec = .sliding o
      (if heldStamps o now e = [] then none else some ⟨heldStamps o now e, none⟩) := by
  have htake : (heldStamps o now e ++ List.replicate inc.sanitizedCost now).take
      ((heldStamps o now e ++ List.replicate inc.sanitizedCost now).length -
        inc.sanitizedCost) = heldStamps o now e := by
    rw [List.length_append, List.length_replicate, Nat.add_sub_cancel, List.take_left]
  rw [probed_sliding]
  simp only [Cell.decrement, hnewest, if_true, hcost, slidingAfterDecrement, htake,
    if_neg (append_replicate_cost_ne_nil _)]

/-- Taken from the front, the oldest are gone and as many new ones stay. -/
theorem probed_sliding_oldest (hcost : dec.sanitizedCost = inc.sanitizedCost)
    (holdest : dec.removeNewest = false) (o : WindowOptions) (e : Option SlidingKeyState) :
    (Cell.sliding o e).probed now inc dec = .sliding o
      (if heldStamps o now e = [] then none
        else some ⟨(heldStamps o now e ++ List.replicate inc.sanitizedCost now).drop
          inc.sanitizedCost, none⟩) := by
  have hlen : ((heldStamps o now e ++ List.replicate inc.sanitizedCost now).drop
      inc.sanitizedCost).length = (heldStamps o now e).length := by
    rw [List.length_drop, List.length_append, List.length_replicate, Nat.add_sub_cancel]
  have hnil : (heldStamps o now e ++ List.replicate inc.sanitizedCost now).drop
      inc.sanitizedCost = [] ↔ heldStamps o now e = [] := by
    rw [← List.length_eq_zero_iff, hlen, List.length_eq_zero_iff]
  rw [probed_sliding]
  simp only [Cell.decrement, holdest, Bool.false_eq_true, if_false, hcost, slidingAfterDecrement,
    if_neg (append_replicate_cost_ne_nil _), hnil]

/-- A running slice with hits in it is what it was; any other entry goes. -/
theorem probed_fixed (hcost : dec.sanitizedCost = inc.sanitizedCost) {o : WindowOptions}
    {e : Option FixedEntry} (hlegal : (Cell.fixed o e).Legal now) :
    (Cell.fixed o e).probed now inc dec =
      .fixed o (e.filter fun s => decide (now < s.resetTime ∧ 0 < s.count)) := by
  have hc := inc.one_le_sanitizedCost
  have hgone : fixedAfterDecrement inc.sanitizedCost
      (some ⟨inc.sanitizedCost, now + o.windowMs⟩) = none := by
    simp only [fixedAfterDecrement]
    rw [if_neg (by omega), if_pos (by omega)]
  simp only [Cell.probed, Cell.clearWall, Cell.increment, Cell.decrement, hcost]
  cases e with
  | none => rw [fixedAfterIncrement, hgone]; rfl
  | some s =>
    have hcount := hlegal s rfl
    by_cases hexp : s.resetTime ≤ now
    · rw [fixedAfterIncrement, if_pos hexp, hgone]
      simp [Option.filter, not_lt.mpr hexp]
    · rw [fixedAfterIncrement, if_neg hexp]
      simp only [fixedAfterDecrement]
      rw [if_neg (by omega), add_sub_cancel_right]
      by_cases hpos : 0 < s.count
      · rw [if_neg (by omega)]
        simp [Option.filter, lt_of_not_ge hexp, hpos]
      · rw [if_pos (by omega)]
        simp [Option.filter, hpos]

/-- A request that got its tokens gives them back: the refilled bucket is left. -/
theorem probed_bucket_allowed (hcost : dec.sanitizedCost = inc.sanitizedCost)
    {o : TokenBucketOptions} {e : Option BucketEntry} (hlegal : (Cell.bucket o e).Legal now)
    (hallowed : ((Cell.bucket o e).increment now inc).2.isBlocked = false) :
    (Cell.bucket o e).probed now inc dec =
      .bucket o (some ((startBucket o now e).refill o now)) := by
  have hstart : ((startBucket o now e).refill o now).Wf o now := by
    cases e with
    | none => exact (Bucket.wf_full o now).refill le_rfl
    | some b => exact (hlegal b rfl).refill le_rfl
  have hle : (inc.sanitizedCost : ℤ) ≤ ((startBucket o now e).refill o now).tokens := by
    by_contra hlt
    simp only [Cell.increment, isBlocked_bucketResult,
      Bucket.request_of_lt o (lt_of_not_ge hlt)] at hallowed
    exact Bool.noConfusion hallowed
  simp only [Cell.probed, Cell.clearWall, Cell.increment, Cell.decrement,
    Bucket.request_of_le o hle, Option.map_some, hcost, sub_add_cancel]
  rw [min_eq_right hstart.tokens_le]

end Probed

end RatelimitFlex
