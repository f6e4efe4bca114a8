import RatelimitFlex.Analysis.DraftNeutrality
import RatelimitFlex.Analysis.LaterDecisions
import RatelimitFlex.Analysis.ProbeRollback

/-!
# Which cells decide later increments alike

A cell is as good as none (`IsVoid`) when no run of increments tells it from the cell of a key
without an entry.  `RestoresPeek` says the same of a cell and of what an increment by one and
a plain decrement leave of it.
-/

set_option autoImplicit false

namespace RatelimitFlex

open Library

namespace Cell

variable {now t : ℤ} {x y z : Cell}

/-! ## Runs on a cell -/

/-- Cells with the same increments decide alike. -/
theorem SameIncrements.decidedAlike (h : SameIncrements now x y) : DecidedAlike now x y := by
  intro is hord
  cases is with
  | nil => rfl
  | cons i is =>
    have hstep : incrementStep i x = incrementStep i y := by
      unfold incrementStep
      rw [h i.time hord.1 i.op]
    rw [outputs_cons, outputs_cons, hstep]

/-- Decisions carry over a third cell. -/
theorem DecidedAlike.trans (h : DecidedAlike now x y) (h' : DecidedAlike now y z) :
    DecidedAlike now x z :=
  fun is hord => (h is hord).trans (h' is hord)

/-- After an increment the rest is decided alike too. -/
theorem DecidedAlike.increment (h : DecidedAlike now x y) (ht : now ≤ t)
    (options : RateLimitIncrementOptions) :
    ((x.clearWall t).increment t options).2.isBlocked =
        ((y.clearWall t).increment t options).2.isBlocked ∧
      DecidedAlike t ((x.clearWall t).increment t options).1
        ((y.clearWall t).increment t options).1 := by
  refine ⟨(List.cons.inj (h [⟨t, options⟩] ⟨ht, trivial⟩)).1, fun is hord => ?_⟩
  exact (List.cons.inj (h (⟨t, options⟩ :: is) ⟨ht, hord⟩)).2

/-- Requests on a bucket, none in draft mode, are its increments. -/
theorem outputs_cellStep_bucket (o : TokenBucketOptions) (e : Option BucketEntry)
    (is : List (Timed (StoreRequest Unit))) :
    outputs cellStep is (.bucket o e) =
      outputs incrementStep (is.map fun i => ⟨i.time, i.op.options⟩) (.bucket o e) := by
  induction is generalizing e with
  | nil => rfl
  | cons i is ih =>
    rw [List.map_cons, outputs_cons, outputs_cons]
    exact congrArg _ (ih (some ((startBucket o i.time e).request o i.time
      i.op.options.sanitizedCost).1))

/-- Requests that are answered otherwise tell two buckets apart. -/
theorem not_decidedAlike_of_requests {o : TokenBucketOptions} {e e' : Option BucketEntry}
    {is : List (Timed (StoreRequest Unit))} (hord : OrderedFrom Timed.time now is)
    (hne : outputs cellStep is (.bucket o e) ≠ outputs cellStep is (.bucket o e')) :
    ¬ DecidedAlike now (.bucket o e) (.bucket o e') := by
  intro h
  rw [outputs_cellStep_bucket, outputs_cellStep_bucket] at hne
  refine hne (h _ ?_)
  exact orderedFrom_map (fun i : Timed (StoreRequest Unit) =>
    (⟨i.time, i.op.options⟩ : Timed RateLimitIncrementOptions)) (fun _ => rfl) hord

/-! ## What tells cells apart -/

/-- One request with this cap. -/
def capped (n : ℕ) : RateLimitIncrementOptions := { maxRequests := some (JsNumber.ofInt n) }

/-- The window that holds more stamps blocks first. -/
theorem not_decidedAlike_of_stamps {o : WindowOptions} {e e' : Option SlidingKeyState}
    (ht : now ≤ t) (hsafe : (heldStamps o t e).length < maxSafeInteger)
    (hlt : (heldStamps o t e).length < (heldStamps o t e').length) :
    ¬ DecidedAlike now (.sliding o e) (.sliding o e') := by
  intro h
  have hcap : o.cap (capped ((heldStamps o t e).length + 1)).maxRequests =
      (heldStamps o t e).length + 1 :=
    o.cap_ofInt (Nat.le_add_left 1 _) hsafe
  have hone : (capped ((heldStamps o t e).length + 1)).sanitizedCost = 1 := rfl
  have hblocked := (h.increment ht (capped ((heldStamps o t e).length + 1))).1
  have hheld : ∀ e, liveStamps o t (stampsOf (unexpired t e)) = heldStamps o t e := fun _ => rfl
  simp only [clearWall, Cell.increment, hcap, hone, RateLimitResult.isBlocked_ofUsage,
    List.length_append, List.length_replicate, hheld, decide_eq_decide] at hblocked
  omega

/-- Of two slices one counts on and the other starts anew. -/
theorem not_decidedAlike_of_counts {o : WindowOptions} {e e' : Option FixedEntry}
    (ht : now ≤ t) (hcount : (fixedAfterIncrement o t 1 e).count ≤ 1)
    (hcount' : 1 < (fixedAfterIncrement o t 1 e').count) :
    ¬ DecidedAlike now (.fixed o e) (.fixed o e') := by
  intro h
  have hcap : o.cap (capped 1).maxRequests = 1 := o.cap_ofInt le_rfl (by decide)
  have hone : (capped 1).sanitizedCost = 1 := rfl
  have hblocked := (h.increment ht (capped 1)).1
  simp only [clearWall, Cell.increment, hcap, hone, RateLimitResult.isBlocked_ofUsage,
    decide_eq_decide] at hblocked
  omega

/-- The bucket with fewer tokens blocks first. -/
theorem not_decidedAlike_of_tokens {o : TokenBucketOptions} {e e' : Option BucketEntry}
    (hwf : ((startBucket o now e).refill o now).Wf o now)
    (hlt : ((startBucket o now e).refill o now).tokens <
      ((startBucket o now e').refill o now).tokens) :
    ¬ DecidedAlike now (.bucket o e) (.bucket o e') := by
  obtain ⟨r, hr⟩ := Int.eq_ofNat_of_zero_le hwf.tokens_nonneg
  obtain ⟨r', hr'⟩ := Int.eq_ofNat_of_zero_le (hwf.tokens_nonneg.trans hlt.le)
  have hrefill : (startBucket o now e).refill o now =
      ⟨(r : ℤ), ((startBucket o now e).refill o now).lastRefill⟩ := by rw [← hr]
  have hrefill' : (startBucket o now e').refill o now =
      ⟨(r' : ℤ), ((startBucket o now e').refill o now).lastRefill⟩ := by rw [← hr']
  rw [hr, hr'] at hlt
  exact not_decidedAlike_of_requests (orderedFrom_units () le_rfl _)
    (tokens_distinguished hrefill hrefill' () (by exact_mod_cast hlt))

/-- Of two full buckets one is refilled ahead of the other. -/
theorem not_decidedAlike_of_refills {o : TokenBucketOptions} {e e' : Option BucketEntry}
    {last last' : ℤ} (ht : now ≤ t) (h : (startBucket o t e).refill o t = ⟨o.bucketSize, last⟩)
    (h' : (startBucket o t e').refill o t = ⟨o.bucketSize, last'⟩) (hlt : last < last') :
    ¬ DecidedAlike now (.bucket o e) (.bucket o e') := by
  have hS := o.bucketSize_pos
  have hlast := Bucket.lt_lastRefill_refill o t (startBucket o t e)
  rw [h] at hlast
  have hsize : ∀ l : ℤ, (⟨o.bucketSize, l⟩ : Bucket) = ⟨(o.bucketSize.toNat : ℤ), l⟩ := by
    intro l
    rw [Int.toNat_of_nonneg (by omega)]
  refine not_decidedAlike_of_requests ?_ (refill_distinguished (h.trans (hsize last))
    (h'.trans (hsize last')) () rfl (by omega) hlt)
  refine orderedFrom_append.mpr ⟨orderedFrom_units () ht _, ?_, trivial⟩
  refine lastClock_le ?_ fun i hi => ?_
  · show now ≤ last + o.interval
    simp only at hlast
    omega
  · rw [List.eq_of_mem_replicate hi]
    exact hlast.le

/-! ## Cells as good as none -/

/-- The cell decides every later increment as if its key had no entry.  Sliding window: no
stamp counts.  Fixed window: its slice is over, or has no hits and is the one that an
increment of this moment begins.  Token bucket: it is full and refilled every millisecond. -/
def IsVoid (now : ℤ) : Cell → Prop
  | .sliding o e => heldStamps o now e = []
  | .fixed o e => ∀ s ∈ e, s.resetTime ≤ now ∨
      s.count = 0 ∧ o.windowMs = 1 ∧ s.resetTime = now + 1
  | .bucket o e => ∀ b ∈ e, o.interval = 1 ∧ (b.refill o now).tokens = o.bucketSize

/-- Stamps that do not count now never will. -/
theorem heldStamps_eq_nil {o : WindowOptions} {e : Option SlidingKeyState} (ht : now ≤ t)
    (h : heldStamps o now e = []) : heldStamps o t e = [] := by
  cases e with
  | none => rfl
  | some s =>
    rw [heldStamps_later ht s, h]
    split <;> rfl

/-- A void cell has the increments of an empty one. -/
theorem IsVoid.sameIncrements (hlegal : x.Legal now) (h : x.IsVoid now) :
    SameIncrements now x x.cleared := by
  intro t ht options
  cases x with
  | sliding o e =>
    have hheld : liveStamps o t (stampsOf (unexpired t e)) = [] := heldStamps_eq_nil ht h
    simp only [clearWall, cleared, Cell.increment, hheld]
    rfl
  | fixed o e =>
    cases e with
    | none => rfl
    | some s =>
      have hentry : fixedAfterIncrement o t options.sanitizedCost (some s) =
          fixedAfterIncrement o t options.sanitizedCost none := by
        simp only [fixedAfterIncrement]
        rcases h s rfl with hover | ⟨hcount, hone, hreset⟩
        · rw [if_pos (hover.trans ht)]
        · split
          · rfl
          · have hnow : t = now := by omega
            rw [hcount, hreset, hone, hnow]
            simp
      simp only [clearWall, cleared, Cell.increment, hentry]
  | bucket o e =>
    cases e with
    | none => rfl
    | some b =>
      obtain ⟨hone, hfull⟩ := h b rfl
      have hrefill : b.refill o t = (Bucket.full o t).refill o t := by
        have hlast := Bucket.lt_lastRefill_refill o now b
        have hle := ((hlegal b rfl).refill le_rfl).lastRefill_le
        have heq : b.refill o now = Bucket.full o now :=
          calc b.refill o now = ⟨(b.refill o now).tokens, (b.refill o now).lastRefill⟩ := rfl
            _ = Bucket.full o now := by
              rw [hfull, show (b.refill o now).lastRefill = now by omega, Bucket.full]
        rw [← Bucket.refill_refill o ht, heq, refill_full_of_interval_one hone ht,
          refill_full_self]
      simp only [clearWall, cleared, Cell.increment, startBucket, Option.getD_some,
        Option.getD_none, Bucket.request_congr o hrefill]

/-- Two slices without a hit that end at different times are told apart by a hit now and one
when the first of them is over. -/
theorem not_decidedAlike_of_ends {o : WindowOptions} {r r' : ℤ} (ht : now ≤ t) (hr : t < r)
    (hr' : t < r') (hne : r ≠ r') {e e' : Option FixedEntry}
    (he : fixedAfterIncrement o t 1 e = ⟨1, r⟩) (he' : fixedAfterIncrement o t 1 e' = ⟨1, r'⟩) :
    ¬ DecidedAlike now (.fixed o e) (.fixed o e') := by
  intro h
  have hrest := (h.increment ht {}).2
  have hone : ({} : RateLimitIncrementOptions).sanitizedCost = 1 := rfl
  simp only [clearWall, Cell.increment, hone, he, he'] at hrest
  -- at the earlier end one slice starts anew and the other counts on
  have hanew : ∀ a : ℤ, (fixedAfterIncrement o a 1 (some ⟨1, a⟩)).count ≤ 1 := by
    intro a
    rw [fixedAfterIncrement, if_pos le_rfl]
    exact le_rfl
  have hon : ∀ a b : ℤ, a < b → 1 < (fixedAfterIncrement o a 1 (some ⟨1, b⟩)).count := by
    intro a b hab
    rw [fixedAfterIncrement, if_neg (not_le.mpr hab)]
    simp
  rcases lt_or_gt_of_ne hne with hlt | hlt
  · exact not_decidedAlike_of_counts hr.le (hanew r) (hon r r' hlt) hrest
  · exact not_decidedAlike_of_counts hr'.le (hanew r') (hon r' r hlt) hrest.symm

/-- **A cell is as good as none exactly when it is void.** -/
theorem DecidedAlike.isVoid (hlegal : x.Legal now) (h : DecidedAlike now x x.cleared) :
    x.IsVoid now := by
  cases x with
  | sliding o e =>
    by_contra hheld
    have hnone : (heldStamps o now none).length = 0 := rfl
    refine not_decidedAlike_of_stamps le_rfl ?_ ?_ h.symm
    · rw [hnone]
      decide
    · rw [hnone]
      exact List.length_pos_of_ne_nil hheld
  | fixed o e =>
    intro s hs
    obtain rfl : e = some s := hs
    by_contra hvoid
    obtain ⟨hrun, hrest⟩ := not_or.mp hvoid
    have hnone : ∀ t, fixedAfterIncrement o t 1 none = ⟨1, t + o.windowMs⟩ := fun _ => rfl
    have hcount : 0 ≤ s.count := hlegal s rfl
    have hW := o.windowMs_pos
    rcases eq_or_lt_of_le hcount with hzero | hpos
    · -- the slice of a later increment does not end with this one
      have hsome : ∀ t, t < s.resetTime →
          fixedAfterIncrement o t 1 (some s) = ⟨1, s.resetTime⟩ := by
        intro t ht
        rw [fixedAfterIncrement, if_neg (not_le.mpr ht), ← hzero]
        rfl
      by_cases hend : s.resetTime = now + o.windowMs
      · have hlater : now + 1 < s.resetTime := by
          by_contra hle
          exact hrest ⟨hzero.symm, by omega, by omega⟩
        exact not_decidedAlike_of_ends (show now ≤ now + 1 by omega) hlater (by omega) (by omega)
          (hsome _ hlater) (hnone _) h
      · exact not_decidedAlike_of_ends le_rfl (lt_of_not_ge hrun) (by omega) hend
          (hsome _ (lt_of_not_ge hrun)) (hnone _) h
    · have hcounts : 1 < (fixedAfterIncrement o now 1 (some s)).count := by
        rw [fixedAfterIncrement, if_neg hrun]
        simp only [Nat.cast_one]
        omega
      exact not_decidedAlike_of_counts le_rfl (hnone now ▸ le_rfl) hcounts h.symm
  | bucket o e =>
    intro b hb
    obtain rfl : e = some b := hb
    have hr := (hlegal b rfl).refill (le_refl now)
    have hlast := Bucket.lt_lastRefill_refill o now b
    have hnew : ∀ t, (startBucket o t none).refill o t = ⟨o.bucketSize, t⟩ :=
      fun t => refill_full_self o t
    have hfull : (b.refill o now).tokens = o.bucketSize := by
      by_contra hne
      have hlt : ((startBucket o now (some b)).refill o now).tokens <
          ((startBucket o now none).refill o now).tokens := by
        rw [hnew]
        exact lt_of_le_of_ne hr.tokens_le hne
      exact not_decidedAlike_of_tokens hr hlt h
    refine ⟨?_, hfull⟩
    by_contra hone
    have hI := o.interval_pos
    have hold : b.refill o now = ⟨o.bucketSize, (b.refill o now).lastRefill⟩ := by
      rw [← hfull]
    rcases eq_or_lt_of_le hr.lastRefill_le with hnow | hlt
    · have hlater : (startBucket o (now + 1) (some b)).refill o (now + 1) =
          ⟨o.bucketSize, now⟩ := by
        show b.refill o (now + 1) = _
        rw [← Bucket.refill_refill o (show now ≤ now + 1 by omega), hold, hnow]
        exact Bucket.refill_of_lt (by simp only; omega)
      exact not_decidedAlike_of_refills (by omega) hlater (hnew _) (by omega) h
    · exact not_decidedAlike_of_refills le_rfl hold (hnew now) hlt h

/-- A cell is not void at the moment of an increment. -/
theorem not_isVoid_increment (hlegal : x.Legal now) :
    ¬ ((x.clearWall now).increment now {}).1.IsVoid now := by
  have hone : ({} : RateLimitIncrementOptions).sanitizedCost = 1 := rfl
  cases x with
  | sliding o e =>
    intro hvoid
    have hW := o.windowMs_pos
    have hmem : now ∈
        heldStamps o now (some ⟨heldStamps o now e ++ List.replicate 1 now, none⟩) := by
      rw [heldStamps_some]
      exact List.mem_filter.mpr ⟨List.mem_append_right _
        (List.mem_replicate.mpr ⟨one_ne_zero, rfl⟩), decide_eq_true (by omega)⟩
    have hnil : heldStamps o now (some ⟨heldStamps o now e ++ List.replicate 1 now, none⟩) = [] :=
      hvoid
    rw [hnil] at hmem
    exact List.not_mem_nil hmem
  | fixed o e =>
    intro hvoid
    have hW := o.windowMs_pos
    have hentry := hvoid _ rfl
    rw [hone] at hentry
    cases e with
    | none =>
      simp only [fixedAfterIncrement] at hentry
      omega
    | some s =>
      have hcount : 0 ≤ s.count := hlegal s rfl
      by_cases hover : s.resetTime ≤ now
      · simp only [fixedAfterIncrement, if_pos hover] at hentry
        omega
      · simp only [fixedAfterIncrement, if_neg hover] at hentry
        omega
  | bucket o e =>
    intro hvoid
    have hS := o.bucketSize_pos
    have hstart : (startBucket o now e).Wf o now := by
      cases e with
      | none => exact Bucket.wf_full o now
      | some b => exact hlegal b rfl
    have hr := hstart.refill le_rfl
    have hlast := Bucket.lt_lastRefill_refill o now (startBucket o now e)
    have hentry := (hvoid _ rfl).2
    rw [hone] at hentry
    by_cases hle : ((1 : ℕ) : ℤ) ≤ ((startBucket o now e).refill o now).tokens
    · rw [Bucket.request_of_le o hle, Bucket.refill_of_lt (by simpa using hlast)] at hentry
      have := hr.tokens_le
      simp only at hentry
      omega
    · rw [Bucket.request_of_lt o (lt_of_not_ge hle), Bucket.refill_of_lt hlast] at hentry
      omega

/-! ## What a peek leaves of a cell -/

/-- A peek leaves a cell that decides every later increment alike.  Sliding window: no stamp
counts, or all are of this moment and no wall expiry takes them before their window is over.
Fixed window: its slice is over or has hits, or is the one that an increment of this moment
begins.  Token bucket: it has a token; a key without one needs a refill every millisecond. -/
def RestoresPeek (now : ℤ) : Cell → Prop
  | .sliding o e => heldStamps o now e = [] ∨ (∀ ts ∈ heldStamps o now e, ts = now) ∧
      ∀ s ∈ e, ∀ w ∈ s.wallExpiresAt, now + o.windowMs ≤ w
  | .fixed o e => ∀ s ∈ e, s.resetTime ≤ now ∨ 0 < s.count ∨
      o.windowMs = 1 ∧ s.resetTime = now + 1
  | .bucket o (some b) => 1 ≤ (b.refill o now).tokens
  | .bucket o none => o.interval = 1

/-- A peek leaves no entry. -/
def PeekDeletes (now : ℤ) : Cell → Prop
  | .sliding o e => heldStamps o now e = []
  | .fixed _ e => ∀ s ∈ e, s.resetTime ≤ now ∨ s.count ≤ 0
  | .bucket _ _ => False

section Peek

variable {inc : RateLimitIncrementOptions} {dec : RateLimitDecrementOptions}
  (hinc : inc.sanitizedCost = 1) (hdec : dec.sanitizedCost = 1) (hplain : dec.removeNewest = false)
include hinc hdec hplain

/-- A sliding window after a peek: its oldest hit is replaced by the peek. -/
theorem peeked_sliding (o : WindowOptions) (e : Option SlidingKeyState) :
    (Cell.sliding o e).probed now inc dec = .sliding o
      (if heldStamps o now e = [] then none
        else some ⟨(heldStamps o now e).tail ++ [now], none⟩) := by
  rw [probed_sliding_oldest (hdec.trans hinc.symm) hplain, hinc]
  cases heldStamps o now e with
  | nil => rfl
  | cons a l => rfl

/-- A peek leaves nothing exactly when it deletes. -/
theorem isPresent_peeked (hlegal : x.Legal now) :
    (x.probed now inc dec).isPresent = false ↔ x.PeekDeletes now := by
  cases x with
  | sliding o e =>
    rw [peeked_sliding hinc hdec hplain]
    by_cases hheld : heldStamps o now e = []
    · simp [hheld, isPresent, PeekDeletes]
    · simp [hheld, isPresent, PeekDeletes]
  | fixed o e =>
    rw [probed_fixed (hdec.trans hinc.symm) hlegal]
    cases e with
    | none => simp [isPresent, PeekDeletes]
    | some s => simp [isPresent, PeekDeletes, or_iff_not_imp_left]
  | bucket o e => simp [Cell.probed, clearWall, Cell.increment, Cell.decrement, isPresent,
      PeekDeletes]

omit hplain in
/-- A bucket with a token is left refilled. -/
theorem peeked_bucket {o : TokenBucketOptions} {e : Option BucketEntry}
    (hlegal : (Cell.bucket o e).Legal now)
    (htoken : 1 ≤ ((startBucket o now e).refill o now).tokens) :
    (Cell.bucket o e).probed now inc dec =
      .bucket o (some ((startBucket o now e).refill o now)) := by
  refine probed_bucket_allowed (hdec.trans hinc.symm) hlegal ?_
  have hle : (inc.sanitizedCost : ℤ) ≤ ((startBucket o now e).refill o now).tokens := by
    rw [hinc]
    exact_mod_cast htoken
  simp only [Cell.increment, isBlocked_bucketResult, Bucket.request_of_le o hle, Bool.not_true]

omit hplain in
/-- A bucket without a token is given one. -/
theorem peeked_bucket_empty {o : TokenBucketOptions} {b : BucketEntry}
    (hempty : (b.refill o now).tokens = 0) :
    (Cell.bucket o (some b)).probed now inc dec =
      .bucket o (some ⟨1, (b.refill o now).lastRefill⟩) := by
  have hS := o.bucketSize_pos
  have hlt : (b.refill o now).tokens < inc.sanitizedCost := by
    rw [hinc, hempty]
    exact one_pos
  simp only [Cell.probed, clearWall, Cell.increment, Cell.decrement, startBucket,
    Option.getD_some, Bucket.request_of_lt o hlt, Option.map_some, hempty, hdec]
  rw [show min o.bucketSize (0 + ((1 : ℕ) : ℤ)) = 1 by omega]

/-- A restored peek is not decided upon. -/
theorem RestoresPeek.sameIncrements (hlegal : x.Legal now) (h : x.RestoresPeek now) :
    SameIncrements now (x.probed now inc dec) x := by
  cases x with
  | sliding o e =>
    rw [peeked_sliding hinc hdec hplain]
    by_cases hheld : heldStamps o now e = []
    · rw [if_pos hheld]
      exact (IsVoid.sameIncrements hlegal hheld).symm
    · rw [if_neg hheld]
      obtain ⟨hall, hwall⟩ := h.resolve_left hheld
      cases e with
      | none => exact absurd rfl hheld
      | some s =>
        have hback : (heldStamps o now (some s)).tail ++ [now] = heldStamps o now (some s) := by
          rw [List.eq_replicate_of_mem hall]
          obtain ⟨n, hn⟩ : ∃ n, (heldStamps o now (some s)).length = n + 1 :=
            ⟨_, (Nat.succ_pred_eq_of_pos (List.length_pos_of_ne_nil hheld)).symm⟩
          rw [hn, List.replicate_succ, List.tail_cons, ← List.replicate_succ']
          rfl
        intro t ht options
        have hlater : liveStamps o t (heldStamps o now (some s)) =
            liveStamps o t (stampsOf (unexpired t (some s))) := by
          show _ = heldStamps o t (some s)
          rw [heldStamps_later ht s]
          split
          · next hpassed =>
            -- by the time of the wall expiry the stamps have left the window
            obtain ⟨w, hw, hle⟩ := (Option.any_eq_true _ _).mp hpassed
            have hend := hwall s rfl w hw
            have hle : w ≤ t := of_decide_eq_true hle
            refine List.filter_eq_nil_iff.mpr fun ts hts => ?_
            rw [hall ts hts]
            simpa using (by omega : now ≤ t - o.windowMs)
          · rfl
        have hnone : stampsOf (unexpired t (some ⟨heldStamps o now (some s), none⟩)) =
            heldStamps o now (some s) := rfl
        simp only [clearWall, Cell.increment, hback, hnone, hlater]
  | fixed o e =>
    rw [probed_fixed (hdec.trans hinc.symm) hlegal]
    cases e with
    | none => exact SameIncrements.refl now _
    | some s =>
      by_cases hkept : now < s.resetTime ∧ 0 < s.count
      · rw [Option.filter_some_pos (by simpa using hkept)]
        exact SameIncrements.refl now _
      · rw [Option.filter_some_neg (by simpa using hkept)]
        have hcount : 0 ≤ s.count := hlegal s rfl
        have hvoid : (Cell.fixed o (some s)).IsVoid now := by
          rintro _ ⟨⟩
          rcases h s rfl with hover | hpos | hone
          · exact Or.inl hover
          · exact Or.inl (not_lt.mp fun hrun => hkept ⟨hrun, hpos⟩)
          · exact Or.inr ⟨by omega, hone⟩
        exact (hvoid.sameIncrements hlegal).symm
  | bucket o e =>
    have hS := o.bucketSize_pos
    cases e with
    | none =>
      have hnew : (startBucket o now none).refill o now = Bucket.full o now :=
        refill_full_self o now
      rw [peeked_bucket hinc hdec hlegal (by rw [hnew]; exact hS), hnew]
      have hvoid : (Cell.bucket o (some (Bucket.full o now))).IsVoid now := by
        rintro _ ⟨⟩
        rw [refill_full_self]
        exact ⟨h, rfl⟩
      refine hvoid.sameIncrements ?_
      rintro _ ⟨⟩
      exact Bucket.wf_full o now
    | some b =>
      rw [peeked_bucket hinc hdec hlegal h]
      intro t ht options
      have hagain : (b.refill o now).refill o t = b.refill o t := Bucket.refill_refill o ht b
      simp only [clearWall, Cell.increment, startBucket, Option.getD_some,
        Bucket.request_congr o hagain]

/-- **A peek that makes no difference is one of these.** -/
theorem DecidedAlike.restoresPeek (hlegal : x.Legal now) (hfits : x.FitsArray)
    (h : DecidedAlike now (x.probed now inc dec) x) : x.RestoresPeek now := by
  cases x with
  | sliding o e =>
    rw [peeked_sliding hinc hdec hplain] at h
    refine or_iff_not_imp_left.mpr fun hheld => ?_
    rw [if_neg hheld] at h
    have hW := o.windowMs_pos
    cases e with
    | none => exact absurd rfl hheld
    | some s =>
      have hrun : s.wallPassed now = false := by
        by_contra hpassed
        exact hheld (by rw [heldStamps_some, if_pos (Bool.eq_true_of_not_eq_false hpassed)])
      have hlive : heldStamps o now (some s) = liveStamps o now s.stamps := by
        rw [heldStamps_some, hrun]
        rfl
      obtain ⟨hsorted, hpast⟩ := hlegal s rfl
      obtain ⟨a, l, hal⟩ := List.exists_cons_of_ne_nil hheld
      have hpeeked : ∀ t, heldStamps o t (some ⟨l ++ [now], none⟩) =
          liveStamps o t (l ++ [now]) := fun t => by
        rw [heldStamps_some]
        rfl
      rw [hal, List.tail_cons] at h
      have hsafe : ∀ t, (heldStamps o t (some s)).length < maxSafeInteger := by
        intro t
        have hlen : (heldStamps o t (some s)).length ≤ s.stamps.length := by
          rw [heldStamps_some]
          split
          · exact Nat.zero_le _
          · exact List.length_filter_le _ _
        exact hlen.trans_lt (lt_trans hfits (by decide))
      refine ⟨fun ts hts => ?_, fun s' hs' w hw => ?_⟩
      · -- when the oldest stamp has left the window, the one of the peek still counts
        by_contra hne
        have hsub : (heldStamps o now (some s)).Sublist s.stamps := hlive ▸ List.filter_sublist
        have hts' := hpast ts (hsub.subset hts)
        have ha : now - o.windowMs < a := by
          have hmem : a ∈ liveStamps o now s.stamps := by
            rw [← hlive, hal]
            exact List.mem_cons_self
          exact of_decide_eq_true (List.mem_filter.mp hmem).2
        have hle : a ≤ ts := by
          have hsorted' := hsorted.sublist hsub
          rw [hal] at hsorted' hts
          rcases List.mem_cons.mp hts with rfl | hts
          · exact le_rfl
          · exact (List.pairwise_cons.mp hsorted').1 ts hts
        have hold : (heldStamps o (a + o.windowMs) (some s)).length ≤
            (liveStamps o (a + o.windowMs) l).length := by
          rw [heldStamps_later (show now ≤ a + o.windowMs by omega) s, hal]
          split
          · exact Nat.zero_le _
          · rw [liveStamps, List.filter_cons_of_neg (by simp)]
            exact le_rfl
        have hnew : liveStamps o (a + o.windowMs) [now] = [now] :=
          List.filter_eq_self.mpr fun b hb => by
            rw [List.mem_singleton.mp hb]
            exact decide_eq_true (by omega)
        refine not_decidedAlike_of_stamps (show now ≤ a + o.windowMs by omega) (hsafe _) ?_ h.symm
        rw [hpeeked, liveStamps_append, hnew, List.length_append, List.length_singleton]
        omega
      · obtain rfl : s = s' := Option.some.inj hs'
        by_contra hearly
        have hnow : now < w := by
          by_contra hpassed
          rw [SlidingKeyState.wallPassed, Option.mem_def.mp hw] at hrun
          simp [not_lt.mp hpassed] at hrun
        have hgone : heldStamps o w (some s) = [] := by
          rw [heldStamps_some, if_pos]
          rw [SlidingKeyState.wallPassed, Option.mem_def.mp hw]
          exact decide_eq_true le_rfl
        have hstays : now ∈ liveStamps o w (l ++ [now]) :=
          List.mem_filter.mpr ⟨List.mem_append_right _ List.mem_cons_self,
            decide_eq_true (by omega)⟩
        refine not_decidedAlike_of_stamps hnow.le (hsafe w) ?_ h.symm
        rw [hpeeked, hgone]
        exact List.length_pos_of_mem hstays
  | fixed o e =>
    rw [probed_fixed (hdec.trans hinc.symm) hlegal] at h
    intro s hs
    obtain rfl : e = some s := hs
    by_cases hkept : now < s.resetTime ∧ 0 < s.count
    · exact Or.inr (Or.inl hkept.2)
    · rw [Option.filter_some_neg (by simpa using hkept)] at h
      rcases DecidedAlike.isVoid hlegal h.symm s rfl with hover | ⟨-, hone⟩
      · exact Or.inl hover
      · exact Or.inr (Or.inr hone)
  | bucket o e =>
    have hS := o.bucketSize_pos
    cases e with
    | none =>
      have hnew : (startBucket o now none).refill o now = Bucket.full o now :=
        refill_full_self o now
      rw [peeked_bucket hinc hdec hlegal (by rw [hnew]; exact hS), hnew] at h
      have hfull : (Cell.bucket o (some (Bucket.full o now))).Legal now := by
        rintro _ ⟨⟩
        exact Bucket.wf_full o now
      exact (DecidedAlike.isVoid hfull h _ rfl).1
    | some b =>
      have hr := (hlegal b rfl).refill (le_refl now)
      have hlast := Bucket.lt_lastRefill_refill o now b
      by_contra hempty
      have hzero : (b.refill o now).tokens = 0 := by
        have hnonneg := hr.tokens_nonneg
        have hless : ¬ 1 ≤ (b.refill o now).tokens := hempty
        omega
      rw [peeked_bucket_empty hinc hdec hzero] at h
      have hone : (startBucket o now (some ⟨1, (b.refill o now).lastRefill⟩)).refill o now =
          ⟨1, (b.refill o now).lastRefill⟩ := Bucket.refill_of_lt hlast
      have hlt : ((startBucket o now (some b)).refill o now).tokens <
          ((startBucket o now (some ⟨1, (b.refill o now).lastRefill⟩)).refill o now).tokens := by
        rw [hone]
        show (b.refill o now).tokens < 1
        omega
      exact not_decidedAlike_of_tokens hr hlt h.symm

end Peek

end Cell

end RatelimitFlex
