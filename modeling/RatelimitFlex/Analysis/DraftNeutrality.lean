import RatelimitFlex.Analysis.MemoryCells
import RatelimitFlex.Library.TimedRun
import RatelimitFlex.Program.MemoryEngine

/-!
# When a draft violation leaves no trace

In draft mode a blocked increment is taken back by a plain decrement.  Two stores are told
apart by later requests only through the cells of their keys (`request_step`), so the
question is whether the rolled back cell answers every later increment as the old one.
For a fixed window it does.  A sliding window loses its oldest stamps and keeps the new
ones, and a token bucket is given tokens that the blocked increment never took:
`IsNeutral` says when this makes no difference.
-/

set_option autoImplicit false

namespace RatelimitFlex

open Library

variable {ρ κ : Type} [DecidableEq κ]

/-! ## Cells that answer alike -/

namespace Cell

/-- From `t` on every increment answers the same and leaves the same cell. -/
def SameFuture (t : ℤ) (x y : Cell) : Prop :=
  ∀ now, t ≤ now → ∀ options : RateLimitIncrementOptions,
    x.increment now options = y.increment now options

/-- A cell has the future it has. -/
theorem SameFuture.refl (t : ℤ) (x : Cell) : SameFuture t x x := fun _ _ _ => rfl

/-- The same future later is the same. -/
theorem SameFuture.mono {t t' : ℤ} {x y : Cell} (h : SameFuture t x y) (ht : t ≤ t') :
    SameFuture t' x y := fun now hnow => h now (ht.trans hnow)

/-- The cell a draft violation leaves: a blocked increment, taken back. -/
def rolledBack (now : ℤ) (options : RateLimitIncrementOptions) (x : Cell) : Cell :=
  (x.increment now options).1.decrement (matchingDecrementOptions options)

end Cell

/-- Two stores without wall expiries whose every cell answers alike. -/
def StoresAlike (t : ℤ) (s s' : MemoryStore κ) : Prop :=
  s.NoWall ∧ s'.NoWall ∧ ∀ k, Cell.SameFuture t (s.cell k) (s'.cell k)

/-- One request is decided alike in stores that are alike, and leaves them alike. -/
theorem request_step (t : ℤ) (s s' : MemoryStore κ) (i : Timed (StoreRequest κ))
    (h : StoresAlike t s s') (ht : t ≤ i.time) (hroom : RequestHasRoom i s)
    (hroom' : RequestHasRoom i s') :
    (requestStep i s).2 = (requestStep i s').2 ∧
      StoresAlike i.time (requestStep i s).1 (requestStep i s').1 := by
  obtain ⟨hw, hw', hcell⟩ := h
  obtain ⟨now, draft, key, options⟩ := i
  have heq := hcell key now ht options
  have hsnd : (s.increment now key options).2 = (s'.increment now key options).2 := by
    rw [MemoryStore.increment_snd hw, MemoryStore.increment_snd hw', heq]
  have hincr : StoresAlike now (s.increment now key options).1 (s'.increment now key options).1 := by
    refine ⟨hw.increment hroom options, hw'.increment hroom' options, fun k => ?_⟩
    rw [MemoryStore.cell_increment hw hroom, MemoryStore.cell_increment hw' hroom', heq]
    by_cases hk : k = key
    · rw [if_pos hk, if_pos hk]
      exact Cell.SameFuture.refl now _
    · rw [if_neg hk, if_neg hk]
      exact (hcell k).mono ht
  refine ⟨congrArg RateLimitResult.isBlocked hsnd, ?_⟩
  simp only [requestStep, hsnd]
  split
  · refine ⟨hincr.1.decrement _, hincr.2.1.decrement _, fun k => ?_⟩
    rw [MemoryStore.cell_decrement, MemoryStore.cell_decrement,
      MemoryStore.cell_increment_self hw, MemoryStore.cell_increment_self hw', heq]
    by_cases hk : k = key
    · rw [if_pos hk, if_pos hk]
      exact Cell.SameFuture.refl now _
    · rw [if_neg hk, if_neg hk]
      exact hincr.2.2 k
  · exact hincr

/-! ## When the rolled back cell is as good as the old one -/

section Neutral

variable {now : ℤ} {options : RateLimitIncrementOptions}

/-- A fixed window: the count is what it was, or the slice is over or never began. -/
theorem sameFuture_rolledBack_fixed {o : WindowOptions} {e : Option FixedEntry}
    (hwf : (Cell.fixed o e).Wf now) :
    Cell.SameFuture now ((Cell.fixed o e).rolledBack now options) (.fixed o e) := by
  have hcost := options.one_le_sanitizedCost
  have hdec : (Cell.fixed o e).rolledBack now options =
      .fixed o (fixedAfterDecrement options.sanitizedCost
        (some (fixedAfterIncrement o now options.sanitizedCost e))) := by
    simp only [Cell.rolledBack, Cell.increment, Cell.decrement,
      sanitizedCost_matchingDecrementOptions]
  rw [hdec]
  have hgone : fixedAfterDecrement options.sanitizedCost
      (some ⟨options.sanitizedCost, now + o.windowMs⟩) = none := by
    simp only [fixedAfterDecrement]
    rw [if_neg (by omega), if_pos (by omega)]
  cases e with
  | none =>
    rw [fixedAfterIncrement, hgone]
    exact Cell.SameFuture.refl now _
  | some e =>
    by_cases hexp : e.resetTime ≤ now
    · rw [fixedAfterIncrement, if_pos hexp, hgone]
      intro now' hnow' options'
      simp only [Cell.increment, fixedAfterIncrement, if_pos (hexp.trans hnow')]
    · have hpos : 0 < e.count := hwf e rfl
      have hback : fixedAfterDecrement options.sanitizedCost
          (some ⟨e.count + options.sanitizedCost, e.resetTime⟩) = some e := by
        simp only [fixedAfterDecrement]
        rw [if_neg (by omega), if_neg (by omega), add_sub_cancel_right]
      rw [fixedAfterIncrement, if_neg hexp, hback]
      exact Cell.SameFuture.refl now _

/-- A sliding window after a charge and its rollback. -/
theorem rolledBack_sliding {o : WindowOptions} {e : Option SlidingKeyState} :
    (Cell.sliding o e).rolledBack now options =
      .sliding o (slidingAfterDecrement (List.drop options.sanitizedCost)
        (some ⟨liveStamps o now (stampsOf e) ++ List.replicate options.sanitizedCost now,
          none⟩)) := by
  simp only [Cell.rolledBack, Cell.increment, Cell.decrement,
    removeNewest_matchingDecrementOptions, sanitizedCost_matchingDecrementOptions,
    Bool.false_eq_true, if_false]

/-- The stamps of a rolled back sliding window: the oldest are gone. -/
theorem stampsOf_rolledBack {o : WindowOptions} {e : Option SlidingKeyState} :
    stampsOf (slidingAfterDecrement (List.drop options.sanitizedCost)
        (some ⟨liveStamps o now (stampsOf e) ++ List.replicate options.sanitizedCost now,
          none⟩)) =
      (liveStamps o now (stampsOf e) ++
        List.replicate options.sanitizedCost now).drop options.sanitizedCost := by
  rw [stampsOf_slidingAfterDecrement (by simp), stampsOf_some]

/-- A sliding window whose live stamps are all of this moment: which of them go makes no
difference. -/
theorem sameFuture_rolledBack_sliding {o : WindowOptions} {e : Option SlidingKeyState}
    (hall : ∀ ts ∈ liveStamps o now (stampsOf e), ts = now) :
    Cell.SameFuture now ((Cell.sliding o e).rolledBack now options) (.sliding o e) := by
  have hlive := List.eq_replicate_of_mem hall
  have hdrop : (liveStamps o now (stampsOf e) ++
      List.replicate options.sanitizedCost now).drop options.sanitizedCost =
        liveStamps o now (stampsOf e) := by
    rw [hlive, List.replicate_append_replicate, List.drop_replicate, Nat.add_sub_cancel]
  intro now' hnow' options'
  rw [rolledBack_sliding]
  simp only [Cell.increment, stampsOf_rolledBack, hdrop, liveStamps_liveStamps o hnow']

/-- A full bucket overflows: what it is given is lost. -/
theorem sameFuture_rolledBack_bucket {o : TokenBucketOptions} {b : BucketEntry}
    (hfull : (b.refill o now).tokens = o.bucketSize)
    (hblocked : (b.refill o now).tokens < options.sanitizedCost) :
    Cell.SameFuture now ((Cell.bucket o (some b)).rolledBack now options)
      (.bucket o (some b)) := by
  have hcost := options.one_le_sanitizedCost
  have hback : (Cell.bucket o (some b)).rolledBack now options =
      .bucket o (some (b.refill o now)) := by
    simp only [Cell.rolledBack, Cell.increment, Cell.decrement, startBucket, Option.getD_some,
      Bucket.request_of_lt o hblocked, sanitizedCost_matchingDecrementOptions, Option.map_some,
      hfull]
    rw [min_eq_left (by omega), ← hfull]
  intro now' hnow' options'
  simp only [hback, Cell.increment, startBucket, Option.getD_some,
    Bucket.request_congr o (Bucket.refill_refill o hnow' b)]

/-- With one refill every millisecond a full bucket made earlier is a full bucket made
now. -/
theorem refill_full_of_interval_one {o : TokenBucketOptions} (hone : o.interval = 1) {now' : ℤ}
    (hn : now ≤ now') : (Bucket.full o now).refill o now' = Bucket.full o now' := by
  have hR := o.tokensPerInterval_pos
  rcases eq_or_lt_of_le hn with rfl | hlt
  · exact Bucket.refill_of_lt (by simp only [Bucket.full]; omega)
  · rw [Bucket.refill_of_le (by simp only [Bucket.full]; omega)]
    simp only [Bucket.full, hone, Int.ediv_one, mul_one]
    have hgain : 0 ≤ (now' - now) * o.tokensPerInterval := mul_nonneg (by omega) (by omega)
    rw [min_eq_left (by omega), add_sub_cancel]

/-- A full bucket has nothing to refill. -/
theorem refill_full_self (o : TokenBucketOptions) (now : ℤ) :
    (Bucket.full o now).refill o now = Bucket.full o now :=
  Bucket.refill_of_lt (by have := o.interval_pos; simp only [Bucket.full]; omega)

/-- A blocked request to a new key leaves a full bucket made now. -/
theorem rolledBack_bucket_none {o : TokenBucketOptions}
    (hblocked : o.bucketSize < options.sanitizedCost) :
    (Cell.bucket o none).rolledBack now options = .bucket o (some (Bucket.full o now)) := by
  have hlt : ((Bucket.full o now).refill o now).tokens < options.sanitizedCost := by
    rw [refill_full_self]
    exact hblocked
  simp only [Cell.rolledBack, Cell.increment, Cell.decrement, startBucket, Option.getD_none,
    Bucket.request_of_lt o hlt, refill_full_self, sanitizedCost_matchingDecrementOptions,
    Option.map_some]
  have hmin : min o.bucketSize ((Bucket.full o now).tokens + options.sanitizedCost) =
      o.bucketSize := min_eq_left (by simp only [Bucket.full]; omega)
  rw [hmin]
  rfl

/-- At an interval of one millisecond, more than a missing bucket holds leaves it as good as
missing. -/
theorem sameFuture_rolledBack_bucket_none {o : TokenBucketOptions} (hone : o.interval = 1)
    (hblocked : o.bucketSize < options.sanitizedCost) :
    Cell.SameFuture now ((Cell.bucket o none).rolledBack now options) (.bucket o none) := by
  intro now' hnow' options'
  have hrefill := (refill_full_of_interval_one hone hnow').trans (refill_full_self o now').symm
  simp only [rolledBack_bucket_none hblocked, Cell.increment, startBucket, Option.getD_some,
    Option.getD_none, Bucket.request_congr o hrefill]

end Neutral

/-! ## When it is not -/

/-- One request on the cell alone. -/
def cellStep (i : Timed (StoreRequest κ)) (x : Cell) : Cell × Bool :=
  let r := x.increment i.time i.op.options
  (r.1, r.2.isBlocked)

/-- An increment leaves an entry. -/
theorem Cell.isPresent_increment (x : Cell) (now : ℤ) (options : RateLimitIncrementOptions) :
    (x.increment now options).1.isPresent = true := by
  cases x <;> rfl

/-- After an increment the key is there. -/
theorem hasRoom_increment {s : MemoryStore κ} (hwall : s.NoWall) (now : ℤ) (key : κ)
    (options : RateLimitIncrementOptions) : (s.increment now key options).1.HasRoom key := by
  refine hasRoom_of_isPresent ?_
  rw [MemoryStore.cell_increment_self hwall]
  exact Cell.isPresent_increment _ _ _

/-- Requests on one key, none in draft mode, are requests on its cell. -/
theorem outputs_requests {s : MemoryStore κ} (hwall : s.NoWall) {key : κ} (hroom : s.HasRoom key)
    {is : List (Timed (StoreRequest κ))} (hkey : ∀ i ∈ is, i.op.key = key ∧ i.op.draft = false) :
    Guarded RequestHasRoom requestStep is s ∧
      outputs requestStep is s = outputs cellStep is (s.cell key) := by
  induction is generalizing s with
  | nil => exact ⟨trivial, rfl⟩
  | cons i is ih =>
    obtain ⟨now, draft, k, options⟩ := i
    obtain ⟨rfl, rfl⟩ : k = key ∧ draft = false := hkey _ List.mem_cons_self
    have hstep : (requestStep ⟨now, ⟨false, k, options⟩⟩ s).1 = (s.increment now k options).1 := by
      simp [requestStep]
    obtain ⟨hg, hout⟩ := ih (hwall.increment hroom options) (hasRoom_increment hwall now k options)
      fun j hj => hkey j (List.mem_cons_of_mem _ hj)
    refine ⟨⟨hroom, ?_⟩, ?_⟩
    · rw [hstep]
      exact hg
    · rw [outputs_cons, outputs_cons, hstep, hout, MemoryStore.cell_increment_self hwall]
      congr 1
      exact congrArg RateLimitResult.isBlocked (MemoryStore.increment_snd hwall options)

/-- Two cells whose requests come out differently are in stores that can be told apart. -/
theorem not_indistinguishable_of_cells {s s' : MemoryStore κ} {t : ℤ} {key : κ}
    (hwall : s.NoWall) (hwall' : s'.NoWall) (hroom : s.HasRoom key) (hroom' : s'.HasRoom key)
    {is : List (Timed (StoreRequest κ))} (hord : OrderedFrom Timed.time t is)
    (hkey : ∀ i ∈ is, i.op.key = key ∧ i.op.draft = false)
    (hne : outputs cellStep is (s.cell key) ≠ outputs cellStep is (s'.cell key)) :
    ¬ Indistinguishable Timed.time RequestHasRoom requestStep t s s' := by
  intro hind
  obtain ⟨hg, hout⟩ := outputs_requests hwall hroom hkey
  obtain ⟨hg', hout'⟩ := outputs_requests hwall' hroom' hkey
  exact hne (by rw [← hout, ← hout', hind is hord hg hg'])

section Sliding

variable {o : WindowOptions} {now : ℤ} {options : RateLimitIncrementOptions}

omit [DecidableEq κ] in
/-- The request that tells the two windows apart: with a cap just over what the old one
holds. -/
theorem sliding_distinguished {e : Option SlidingKeyState} (key : κ)
    (hwf : (Cell.sliding o e).Wf now)
    (hfits : (stampsOf e).length < 2 ^ 32)
    (hold : ∃ ts ∈ liveStamps o now (stampsOf e), ts ≠ now) :
    ∃ is : List (Timed (StoreRequest κ)), OrderedFrom Timed.time now is ∧
      (∀ i ∈ is, i.op.key = key ∧ i.op.draft = false) ∧
      outputs cellStep is ((Cell.sliding o e).rolledBack now options) ≠
        outputs cellStep is (.sliding o e) := by
  have hW := o.windowMs_pos
  obtain ⟨hsorted, hpast⟩ := hwf.liveStamps
  have hlt := length_live_rolledBack_lt (o := o) hsorted hpast hold options.one_le_sanitizedCost
  rw [liveStamps_liveStamps o (by omega)] at hlt
  set t := now + (o.windowMs : ℤ) - 1 with ht
  set q := (liveStamps o t (stampsOf e)).length with hq
  have hq_le : q ≤ (stampsOf e).length := List.length_filter_le _ _
  have hcap : o.cap (some (JsNumber.ofInt ((q + 1 : ℕ) : ℤ))) = q + 1 :=
    o.cap_ofInt (by omega) (by simp only [maxSafeInteger]; omega)
  refine ⟨[⟨t, false, key, { maxRequests := some (JsNumber.ofInt ((q + 1 : ℕ) : ℤ)) }⟩],
    ⟨by simp only; omega, trivial⟩, by simp, ?_⟩
  have hone : ({ maxRequests := some (JsNumber.ofInt ((q + 1 : ℕ) : ℤ)) } :
    RateLimitIncrementOptions).sanitizedCost = 1 := rfl
  simp only [outputs_cons, outputs_nil, cellStep, rolledBack_sliding, Cell.increment,
    stampsOf_rolledBack, hcap, hone, RateLimitResult.isBlocked_ofUsage, List.length_append,
    List.length_replicate, ← hq]
  have h1 : ¬ (((q + 1 : ℕ) : ℤ) < ((q + 1 : ℕ) : ℤ)) := lt_irrefl _
  have h2 : (((q + 1 : ℕ) : ℤ) < (((liveStamps o t ((liveStamps o now (stampsOf e) ++
      List.replicate options.sanitizedCost now).drop options.sanitizedCost)).length + 1 : ℕ) : ℤ)) := by
    exact_mod_cast Nat.succ_lt_succ hlt
  rw [decide_eq_true h2, decide_eq_false h1]
  decide

end Sliding

section Bucket

variable {o : TokenBucketOptions}

/-- A request for one token. -/
def unitRequest (key : κ) (now : ℤ) : Timed (StoreRequest κ) := ⟨now, ⟨false, key, {}⟩⟩

omit [DecidableEq κ] in
/-- One token goes, while no refill is due; without one the request is blocked. -/
theorem unit_step (key : κ) {now last : ℤ} (hlast : now < last + o.interval) (tokens : ℕ) :
    cellStep (unitRequest key now) (.bucket o (some ⟨tokens, last⟩)) =
      (.bucket o (some ⟨((tokens - 1 : ℕ) : ℤ), last⟩), decide (tokens ≤ 0)) := by
  have hrefill : (⟨(tokens : ℤ), last⟩ : Bucket).refill o now = ⟨tokens, last⟩ :=
    Bucket.refill_of_lt hlast
  have hcost : ({} : RateLimitIncrementOptions).sanitizedCost = 1 := rfl
  simp only [cellStep, unitRequest, Cell.increment, startBucket, Option.getD_some, hcost,
    isBlocked_bucketResult]
  cases tokens with
  | zero =>
    rw [Bucket.request_of_lt o (by rw [hrefill]; simp), hrefill]
    rfl
  | succ m =>
    rw [Bucket.request_of_le o (by rw [hrefill]; simp), hrefill]
    simp

omit [DecidableEq κ] in
/-- One token at a time: they go, then every request is blocked. -/
theorem outputs_units (key : κ) {now last : ℤ} (hlast : now < last + o.interval) (n tokens : ℕ) :
    outputs cellStep (List.replicate n (unitRequest key now)) (.bucket o (some ⟨tokens, last⟩)) =
      (List.range n).map fun i => decide (tokens ≤ i) := by
  induction n generalizing tokens with
  | zero => rfl
  | succ n ih =>
    rw [List.replicate_succ, outputs_cons, unit_step key hlast, ih, List.range_succ_eq_map,
      List.map_cons, List.map_map]
    congr 1
    refine List.map_congr_left fun i _ => ?_
    simp only [Function.comp_apply, Nat.succ_eq_add_one, Nat.sub_le_iff_le_add]

omit [DecidableEq κ] in
/-- Requests of one token each empty a bucket. -/
theorem final_units (key : κ) {now last : ℤ} (hlast : now < last + o.interval) (n tokens : ℕ) :
    final cellStep (List.replicate n (unitRequest key now)) (.bucket o (some ⟨tokens, last⟩)) =
      .bucket o (some ⟨((tokens - n : ℕ) : ℤ), last⟩) := by
  induction n generalizing tokens with
  | zero => rfl
  | succ n ih =>
    rw [List.replicate_succ, final_cons, unit_step key hlast, ih, Nat.sub_sub, add_comm 1 n]

omit [DecidableEq κ] in
/-- They are made at one time. -/
theorem orderedFrom_units (key : κ) {t now : ℤ} (ht : t ≤ now) (n : ℕ) :
    OrderedFrom Timed.time t (List.replicate n (unitRequest key now)) := by
  induction n generalizing t with
  | zero => trivial
  | succ n ih => exact ⟨ht, ih le_rfl⟩

omit [DecidableEq κ] in
/-- The same of a bucket that is refilled first. -/
theorem units_refilled (key : κ) {now last : ℤ} {e : Option BucketEntry} {r : ℕ}
    (h : (startBucket o now e).refill o now = ⟨(r : ℤ), last⟩) (n : ℕ) :
    outputs cellStep (List.replicate (n + 1) (unitRequest key now)) (.bucket o e) =
        ((List.range (n + 1)).map fun i => decide (r ≤ i)) ∧
      final cellStep (List.replicate (n + 1) (unitRequest key now)) (.bucket o e) =
        .bucket o (some ⟨((r - (n + 1) : ℕ) : ℤ), last⟩) := by
  have hlast := Bucket.lt_lastRefill_refill o now (startBucket o now e)
  rw [h] at hlast
  have hagain : (startBucket o now e).refill o now = (⟨(r : ℤ), last⟩ : Bucket).refill o now := by
    rw [← h, Bucket.refill_refill o le_rfl]
  have hsame : cellStep (unitRequest key now) (.bucket o e) =
      cellStep (unitRequest key now) (.bucket o (some ⟨(r : ℤ), last⟩)) := by
    simp only [cellStep, unitRequest, Cell.increment]
    rw [Bucket.request_congr o hagain]
    rfl
  have houts := outputs_units key hlast (n + 1) r
  have hfinal := final_units key hlast (n + 1) r
  rw [List.replicate_succ] at houts hfinal ⊢
  refine ⟨?_, ?_⟩
  · rw [outputs_cons, hsame, ← outputs_cons, houts]
  · rw [final_cons, hsame, ← final_cons, hfinal]

section Apart

variable {now last last' : ℤ} {e e' : Option BucketEntry} {r r' : ℕ}
  (h : (startBucket o now e).refill o now = ⟨(r : ℤ), last⟩)
  (h' : (startBucket o now e').refill o now = ⟨(r' : ℤ), last'⟩)
include h h'

omit [DecidableEq κ] in
/-- The bucket with more tokens shows them: ask for one more than the other has. -/
theorem tokens_distinguished (key : κ) (hlt : r < r') :
    outputs cellStep (List.replicate (r + 1) (unitRequest key now)) (.bucket o e) ≠
      outputs cellStep (List.replicate (r + 1) (unitRequest key now)) (.bucket o e') := by
  intro heq
  rw [(units_refilled key h r).1, (units_refilled key h' r).1] at heq
  have hr := congrArg (fun l => l[r]?) heq
  simp only [List.getElem?_map, List.getElem?_range (Nat.lt_succ_self r), Option.map_some,
    Option.some.injEq, decide_eq_decide] at hr
  omega

omit [DecidableEq κ] in
/-- Of two buckets with as many tokens one is refilled ahead of the other: empty both, and
ask again when the first is refilled. -/
theorem refill_distinguished (key : κ) (hr : r = r') (hpos : 0 < r) (hlt : last < last') :
    outputs cellStep (List.replicate r (unitRequest key now) ++
        [unitRequest key (last + o.interval)]) (.bucket o e) ≠
      outputs cellStep (List.replicate r (unitRequest key now) ++
        [unitRequest key (last + o.interval)]) (.bucket o e') := by
  subst hr
  obtain ⟨n, rfl⟩ : ∃ n, r = n + 1 := ⟨r - 1, by omega⟩
  have hI := o.interval_pos
  have hS := o.bucketSize_pos
  have hR := o.tokensPerInterval_pos
  have hnew : (cellStep (unitRequest key (last + o.interval))
      (.bucket o (some ⟨((n + 1 - (n + 1) : ℕ) : ℤ), last'⟩))).2 = true := by
    rw [unit_step key (by omega), Nat.sub_self]
    rfl
  have hold : (cellStep (unitRequest key (last + o.interval))
      (.bucket o (some ⟨((n + 1 - (n + 1) : ℕ) : ℤ), last⟩))).2 = false := by
    have hcost : ({} : RateLimitIncrementOptions).sanitizedCost = 1 := rfl
    have htok : ((1 : ℕ) : ℤ) ≤ ((⟨((n + 1 - (n + 1) : ℕ) : ℤ), last⟩ : Bucket).refill o
        (last + o.interval)).tokens := by
      rw [Bucket.refill_of_le (by simp only; omega)]
      simp only [Nat.sub_self, Nat.cast_zero, add_sub_cancel_left, zero_add, Nat.cast_one]
      rw [Int.ediv_self (by omega), one_mul]
      omega
    simp only [cellStep, unitRequest, Cell.increment, startBucket, Option.getD_some, hcost,
      isBlocked_bucketResult, Bucket.request_of_le o htok, Bool.not_true]
  intro heq
  rw [outputs_append, outputs_append, (units_refilled key h n).2, (units_refilled key h' n).2]
    at heq
  have hlast := (List.append_inj' heq rfl).2
  simp only [outputs_cons, outputs_nil, hnew, hold] at hlast
  exact absurd hlast (by decide)

end Apart

/-- A full bucket has its size in tokens. -/
theorem full_eq (o : TokenBucketOptions) (t : ℤ) :
    Bucket.full o t = ⟨(o.bucketSize.toNat : ℤ), t⟩ := by
  have hS := o.bucketSize_pos
  rw [Bucket.full, Int.toNat_of_nonneg (by omega)]

omit [DecidableEq κ] in
/-- A bucket with free room shows the tokens it was given: ask for one more than it had. -/
theorem bucket_distinguished {now : ℤ} {b : BucketEntry} {options : RateLimitIncrementOptions}
    (key : κ) (hwf : b.Wf o now) (hroom : (b.refill o now).tokens ≠ o.bucketSize)
    (hblocked : (b.refill o now).tokens < options.sanitizedCost) :
    ∃ is : List (Timed (StoreRequest κ)), OrderedFrom Timed.time now is ∧
      (∀ i ∈ is, i.op.key = key ∧ i.op.draft = false) ∧
      outputs cellStep is ((Cell.bucket o (some b)).rolledBack now options) ≠
        outputs cellStep is (.bucket o (some b)) := by
  have hr := hwf.refill le_rfl
  have hlast := Bucket.lt_lastRefill_refill o now b
  obtain ⟨r, hrt⟩ := Int.eq_ofNat_of_zero_le hr.tokens_nonneg
  set last := (b.refill o now).lastRefill with hlr
  have hrefill : b.refill o now = ⟨(r : ℤ), last⟩ := by
    rw [hlr, ← hrt]
  obtain ⟨g, hg⟩ : ∃ g : ℕ, min o.bucketSize (r + options.sanitizedCost : ℤ) = g :=
    ⟨(min o.bucketSize (r + options.sanitizedCost : ℤ)).toNat,
      (Int.toNat_of_nonneg (by have := o.bucketSize_pos; omega)).symm⟩
  have hback : (Cell.bucket o (some b)).rolledBack now options =
      .bucket o (some ⟨(g : ℤ), last⟩) := by
    simp only [Cell.rolledBack, Cell.increment, Cell.decrement, startBucket, Option.getD_some,
      Bucket.request_of_lt o hblocked, sanitizedCost_matchingDecrementOptions, Option.map_some,
      hrefill, hg]
  have hgr : r < g := by
    have hle := hr.tokens_le
    have hcost := options.one_le_sanitizedCost
    omega
  refine ⟨List.replicate (r + 1) (unitRequest key now), orderedFrom_units key le_rfl _, ?_, ?_⟩
  · intro i hi
    rw [List.eq_of_mem_replicate hi]
    exact ⟨rfl, rfl⟩
  · have hfuller : (startBucket o now (some ⟨(g : ℤ), last⟩)).refill o now = ⟨(g : ℤ), last⟩ :=
      Bucket.refill_of_lt hlast
    have hold : (startBucket o now (some b)).refill o now = ⟨(r : ℤ), last⟩ := hrefill
    rw [hback]
    exact (tokens_distinguished hold hfuller key hgr).symm

omit [DecidableEq κ] in
/-- A bucket made by a refused request is refilled ahead of one that is made later. -/
theorem absent_bucket_distinguished {now : ℤ} {options : RateLimitIncrementOptions} (key : κ)
    (hint : o.interval ≠ 1) (hblocked : o.bucketSize < options.sanitizedCost) :
    ∃ is : List (Timed (StoreRequest κ)), OrderedFrom Timed.time now is ∧
      (∀ i ∈ is, i.op.key = key ∧ i.op.draft = false) ∧
      outputs cellStep is ((Cell.bucket o none).rolledBack now options) ≠
        outputs cellStep is (.bucket o none) := by
  have hI := o.interval_pos
  have hS := o.bucketSize_pos
  -- one millisecond later neither bucket is due
  refine ⟨List.replicate o.bucketSize.toNat (unitRequest key (now + 1)) ++
    [unitRequest key (now + o.interval)], ?_, ?_, ?_⟩
  · refine orderedFrom_append.mpr ⟨orderedFrom_units key (by omega) _, ?_, trivial⟩
    refine lastClock_le (by simp only [unitRequest]; omega) fun i hi => ?_
    rw [List.eq_of_mem_replicate hi]
    simp only [unitRequest]
    omega
  · intro i hi
    rcases List.mem_append.mp hi with hi | hi
    · rw [List.eq_of_mem_replicate hi]
      exact ⟨rfl, rfl⟩
    · rw [List.mem_singleton.mp hi]
      exact ⟨rfl, rfl⟩
  · have hold : (startBucket o (now + 1) (some (Bucket.full o now))).refill o (now + 1) =
        ⟨(o.bucketSize.toNat : ℤ), now⟩ :=
      (Bucket.refill_of_lt (by simp only [startBucket, Option.getD_some, Bucket.full]; omega)).trans
        (full_eq o now)
    have hnew : (startBucket o (now + 1) none).refill o (now + 1) =
        ⟨(o.bucketSize.toNat : ℤ), now + 1⟩ :=
      (refill_full_self o (now + 1)).trans (full_eq o (now + 1))
    rw [rolledBack_bucket_none hblocked]
    exact refill_distinguished hold hnew key rfl (by omega) (by omega)

end Bucket

/-! ## The condition -/

/-- A draft violation at `now` leaves no trace in this cell.  Fixed window: always.
Sliding window: every live stamp is of this moment.  Token bucket: the refilled bucket is
full; a key without one needs a refill every millisecond. -/
def Cell.IsNeutral (now : ℤ) : Cell → Prop
  | .fixed _ _ => True
  | .sliding o e => ∀ ts ∈ liveStamps o now (stampsOf e), ts = now
  | .bucket o (some b) => (b.refill o now).tokens = o.bucketSize
  | .bucket o none => o.interval = 1

/-- A JavaScript array holds fewer than `2 ^ 32` stamps. -/
def Cell.FitsArray : Cell → Prop
  | .sliding _ e => (stampsOf e).length < 2 ^ 32
  | _ => True

instance : ∀ x : Cell, Decidable x.FitsArray
  | .sliding _ _ => inferInstanceAs (Decidable (_ < _))
  | .fixed _ _ => isTrue trivial
  | .bucket _ _ => isTrue trivial

section Condition

variable {now : ℤ} {options : RateLimitIncrementOptions}

/-- A blocked bucket increment asked for more than there was. -/
theorem lt_cost_of_isBlocked {o : TokenBucketOptions} {e : Option BucketEntry}
    (h : ((Cell.bucket o e).increment now options).2.isBlocked = true) :
    ((startBucket o now e).refill o now).tokens < options.sanitizedCost := by
  by_contra hge
  simp only [Cell.increment, isBlocked_bucketResult,
    Bucket.request_of_le o (not_lt.mp hge)] at h
  exact Bool.noConfusion h

/-- In a neutral cell the rollback undoes the blocked increment. -/
theorem sameFuture_rolledBack {x : Cell} (hwf : x.Wf now)
    (hblocked : (x.increment now options).2.isBlocked = true) (hneutral : x.IsNeutral now) :
    Cell.SameFuture now (x.rolledBack now options) x := by
  cases x with
  | fixed o e => exact sameFuture_rolledBack_fixed hwf
  | sliding o e => exact sameFuture_rolledBack_sliding hneutral
  | bucket o e =>
    have hlt := lt_cost_of_isBlocked hblocked
    cases e with
    | none =>
      simp only [startBucket, Option.getD_none, refill_full_self] at hlt
      exact sameFuture_rolledBack_bucket_none hneutral hlt
    | some b => exact sameFuture_rolledBack_bucket hneutral hlt

omit [DecidableEq κ] in
/-- In any other cell later requests on the key show the difference. -/
theorem rolledBack_distinguished {x : Cell} (key : κ) (hwf : x.Wf now) (hfits : x.FitsArray)
    (hblocked : (x.increment now options).2.isBlocked = true) (hneutral : ¬ x.IsNeutral now) :
    ∃ is : List (Timed (StoreRequest κ)), OrderedFrom Timed.time now is ∧
      (∀ i ∈ is, i.op.key = key ∧ i.op.draft = false) ∧
      outputs cellStep is (x.rolledBack now options) ≠ outputs cellStep is x := by
  cases x with
  | fixed o e => exact absurd trivial hneutral
  | sliding o e =>
    simp only [Cell.IsNeutral, not_forall, exists_prop] at hneutral
    exact sliding_distinguished key hwf hfits hneutral
  | bucket o e =>
    have hlt := lt_cost_of_isBlocked hblocked
    cases e with
    | none =>
      simp only [startBucket, Option.getD_none, refill_full_self] at hlt
      exact absent_bucket_distinguished key hneutral hlt
    | some b => exact bucket_distinguished key (hwf b rfl) hneutral hlt

/-- A cell that is not neutral keeps its entry through the rollback. -/
theorem isPresent_rolledBack {x : Cell} (hneutral : ¬ x.IsNeutral now) :
    (x.rolledBack now options).isPresent = true := by
  cases x with
  | fixed o e => exact absurd trivial hneutral
  | sliding o e =>
    simp only [Cell.IsNeutral, not_forall, exists_prop] at hneutral
    obtain ⟨ts, hts, -⟩ := hneutral
    have hlen : 0 < (liveStamps o now (stampsOf e)).length := List.length_pos_of_mem hts
    have hne : (liveStamps o now (stampsOf e) ++
        List.replicate options.sanitizedCost now).drop options.sanitizedCost ≠ [] := by
      refine List.ne_nil_of_length_pos ?_
      rw [List.length_drop, List.length_append, List.length_replicate]
      omega
    rw [rolledBack_sliding]
    simp only [slidingAfterDecrement, if_neg hne]
    split <;> rfl
  | bucket o e => rfl

end Condition

/-! ## Stores reachable by increments -/

/-- What increments in time order make of a new store by `now`, evictions included. -/
def ReachableByIncrements (now : ℤ) (s : MemoryStore κ) : Prop :=
  ∃ (s₀ : MemoryStore κ) (t₀ : ℤ) (is : List (Timed (StoreOp κ))), s₀.IsNew ∧
    OrderedFrom Timed.time t₀ is ∧ (∀ i ∈ is, i.op.isIncrement = true) ∧
    lastClock Timed.time t₀ is ≤ now ∧ final MemoryStore.step is s₀ = s

/-- Every cell of such a store is well formed. -/
theorem ReachableByIncrements.wf {now : ℤ} {s : MemoryStore κ}
    (h : ReachableByIncrements now s) : s.Wf now := by
  obtain ⟨s₀, t₀, is, hnew, hord, hinc, hnow, rfl⟩ := h
  have hstep : ∀ (t : ℤ) (s : MemoryStore κ) (i : Timed (StoreOp κ)), s.Wf t → t ≤ i.time →
      (True ∧ i.op.isIncrement = true) → (MemoryStore.step i s).1.Wf i.time := by
    rintro t s ⟨time, op⟩ hs ht ⟨-, hop⟩
    cases op with
    | increment key options => exact hs.increment ht options
    | decrement key options => simp [StoreOp.isIncrement] at hop
    | get key => simp [StoreOp.isIncrement] at hop
    | set key totalHits expiresAt => simp [StoreOp.isIncrement] at hop
    | reset key => simp [StoreOp.isIncrement] at hop
    | delete key => simp [StoreOp.isIncrement] at hop
    | purgeExpired => simp [StoreOp.isIncrement] at hop
  have hguard : Guarded (fun _ _ => True) MemoryStore.step is s₀ := guarded_true is s₀
  have hend := final_inv (I := fun t s => MemoryStore.Wf t s) hstep (hnew.wf t₀) hord
    (hguard.and_mem hinc)
  exact fun k => (hend k).mono hnow

/-- **When draft mode is neutral.**  A request that ends in `draftWouldBlock` on a store
reached by increments, evicting nothing, leaves a store that no later requests tell from
the one before, whatever their keys, costs, caps and draft modes, if and only if the cell
of its key is neutral at that moment.  The later requests are those that evict no key; the
timer by which the store purges itself is not among the later steps.
SOURCE: src/strategies/rate-limit-engine.ts:321-369, src/stores/memory-store.ts:832-969 -/
theorem draftViolation_neutral_iff (c : MemoryEngineConfig ρ κ) (key : κ) (req : ρ)
    (w w' : World (MemoryWorld κ) κ) (r : RateLimitConsumeResult)
    (hreach : ReachableByIncrements w.stores.now w.stores.store)
    (hfits : (w.stores.store.cell key).FitsArray) (hroom : w.stores.store.HasRoom key)
    (hconsume : consumeWithKey c.options key req w = (.ok r, w'))
    (hdraft : r.draftWouldBlock = true) :
    Indistinguishable Timed.time RequestHasRoom requestStep w.stores.now w'.stores.store
        w.stores.store ↔
      (w.stores.store.cell key).IsNeutral w.stores.now := by
  have hwf := hreach.wf
  have hwall := hwf.noWall
  obtain ⟨hblocked, hstore⟩ := consumeWithKey_draft hconsume hdraft
  set inc := resolveIncrementOpts c.options req
  set now := w.stores.now
  set s := w.stores.store
  have hwall' : w'.stores.store.NoWall := by
    rw [hstore]
    exact (hwall.increment hroom inc).decrement _
  have hcell : ∀ k, w'.stores.store.cell k =
      if k = key then (s.cell key).rolledBack now inc else s.cell k := by
    intro k
    rw [hstore, MemoryStore.cell_decrement, MemoryStore.cell_increment_self hwall,
      MemoryStore.cell_increment hwall hroom]
    by_cases hk : k = key
    · rw [if_pos hk, if_pos hk]
      rfl
    · rw [if_neg hk, if_neg hk, if_neg hk]
  rw [MemoryStore.increment_snd hwall] at hblocked
  constructor
  · intro hind
    by_contra hneutral
    obtain ⟨is, hord, hkey, hne⟩ := rolledBack_distinguished key (hwf key) hfits hblocked hneutral
    have hroom' : w'.stores.store.HasRoom key := by
      refine hasRoom_of_isPresent ?_
      rw [hcell key, if_pos rfl]
      exact isPresent_rolledBack hneutral
    refine not_indistinguishable_of_cells hwall' hwall hroom' hroom hord hkey ?_ hind
    rw [hcell key, if_pos rfl]
    exact hne
  · intro hneutral
    refine indistinguishable_of_bisimulation (R := StoresAlike)
      (fun t s s' i hR ht hg hg' => request_step t s s' i hR ht hg hg') ⟨hwall', hwall, fun k => ?_⟩
    rw [hcell k]
    by_cases hk : k = key
    · subst hk
      rw [if_pos rfl]
      exact sameFuture_rolledBack (hwf k) hblocked hneutral
    · rw [if_neg hk]
      exact Cell.SameFuture.refl now _

/-! ## Two stores -/

/-- A draft engine whose requests have this cap. -/
def draftEngine (strategy : RateLimitStrategy) (cap : JsNumber) : MemoryEngineConfig Unit ℕ where
  strategy := strategy
  maxRequests := some (.value cap)
  draft := true

/-- A store after these increments of key `7`, read at `now`. -/
def afterHits (s₀ : MemoryStore ℕ) (hits : List ℤ) (now : ℤ) : World (MemoryWorld ℕ) ℕ :=
  ⟨{}, ⟨final MemoryStore.step (hits.map fun t => ⟨t, .increment 7 {}⟩) s₀, now⟩⟩

/-- The consume that draft mode lets pass on a fixed window with two hits. -/
theorem draftViolation_neutral_iff_fixed :
    Indistinguishable Timed.time RequestHasRoom requestStep 900
      (consumeWithKey (draftEngine .fixedWindow 2).options 7 ()
        (afterHits (.fixed twoASecond (KeyTable.new 0)) [0, 500] 900)).2.stores.store
      (afterHits (.fixed twoASecond (KeyTable.new 0)) [0, 500] 900).stores.store :=
  (draftViolation_neutral_iff (draftEngine .fixedWindow 2) 7 ()
    (afterHits (.fixed twoASecond (KeyTable.new 0)) [0, 500] 900) _
    { totalHits := 3, remaining := 0, resetTime := 1000, isBlocked := false
      draftWouldBlock := true }
    ⟨.fixed twoASecond (KeyTable.new 0), 0, _, ⟨0, rfl⟩, by decide +kernel, by decide +kernel,
      by decide +kernel, rfl⟩
    trivial (Or.inl rfl) (Prod.ext (by decide +kernel) rfl) rfl).mpr trivial

/-- On a sliding window with hits at `0` and `500` a draft violation at `900` takes away
the older hit and leaves its own: a request at `1100` that would be the second in its window
is then the third. -/
theorem draftViolation_leaves_trace :
    ¬ ∀ (c : MemoryEngineConfig Unit ℕ) (key : ℕ) (w w' : World (MemoryWorld ℕ) ℕ)
      (r : RateLimitConsumeResult), ReachableByIncrements w.stores.now w.stores.store →
      (w.stores.store.cell key).FitsArray → w.stores.store.HasRoom key →
      consumeWithKey c.options key () w = (.ok r, w') → r.draftWouldBlock = true →
      Indistinguishable Timed.time RequestHasRoom requestStep w.stores.now w'.stores.store
        w.stores.store := by
  intro h
  have := h (draftEngine .slidingWindow 2) 7
    (afterHits (.sliding twoASecond (KeyTable.new 0)) [0, 500] 900) _
    { totalHits := 3, remaining := 0, resetTime := 1000, isBlocked := false
      draftWouldBlock := true }
    ⟨.sliding twoASecond (KeyTable.new 0), 0, _, ⟨0, rfl⟩, by decide +kernel, by decide +kernel,
      by decide +kernel, rfl⟩
    (by decide +kernel) (Or.inl rfl) (Prod.ext (by decide +kernel) rfl) rfl
    [⟨1100, false, 7, {}⟩] (by decide +kernel) ⟨Or.inl rfl, trivial⟩ ⟨Or.inl rfl, trivial⟩
  revert this
  decide +kernel

end RatelimitFlex
