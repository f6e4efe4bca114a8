import RatelimitFlex.Analysis.DynamoSlidingCommits
import RatelimitFlex.Analysis.HeldBlocks

/-!
# How long a table rejects a key that was set to the cap

`DynamoStore` keeps no expiry for a `set`: a fixed window ends on the wall clock, and so does the
window of a sliding count, whose hits then weigh on the next one for a while
(`weighted_le_iff`).  After a `set` to less than the cap a first hit is allowed at once.
-/

set_option autoImplicit false

namespace RatelimitFlex

open Library

/-! ## DynamoDB -/

namespace DynamoStore

variable {o : WindowOptions} {t now ends hits : ℤ} {options : RateLimitIncrementOptions}

/-- An item of this window or an earlier one is incremented as simulated. -/
theorem incrementSliding_of_le (options : RateLimitIncrementOptions)
    (item : Option DynamoSlidingItem)
    (h : ∀ x ∈ item, x.currentWindowStart ≤ fixedWindowBoundaryMs now o.windowMs) :
    ∃ new : DynamoSlidingItem,
      new.toWeightedWindowState = simulated now o.windowMs options.sanitizedCost item ∧
      incrementSliding o now options item =
        (some new, some (slidingResultFromAttributes o now (o.cap options.maxRequests)
          new.toWeightedWindowState)) := by
  obtain ⟨new, hnew, halone⟩ := DynamoSlidingKey.alone_of_le options h
  refine ⟨new, hnew, ?_⟩
  rw [DynamoSlidingKey.alone] at halone
  simp only [incrementSliding, halone, DynamoSlidingKey.clients_withPhase]
  rfl

/-- At `now` the hits in the window before, with one more, still weigh too much. -/
def StillWeighs (o : WindowOptions) (hits t now : ℤ) : Prop :=
  hits * (now - (fixedWindowBoundaryMs t o.windowMs + o.windowMs)) <
    (hits + 1 - o.maxRequests) * o.windowMs

/-- They weigh nothing when the next window is over. -/
theorem StillWeighs.lt (h : StillWeighs o hits t now) (hhits : o.maxRequests ≤ hits) :
    now < fixedWindowBoundaryMs t o.windowMs + 2 * o.windowMs := by
  have hcap := o.maxRequests_pos
  have hW := o.windowMs_pos
  unfold StillWeighs at h
  by_contra hle
  have hge : (o.windowMs : ℤ) ≤ now - (fixedWindowBoundaryMs t o.windowMs + o.windowMs) := by
    omega
  have hmul := mul_le_mul_of_nonneg_left hge (show 0 ≤ hits by omega)
  have hless := mul_le_mul_of_nonneg_right (show hits + 1 - o.maxRequests ≤ hits by omega)
    (show (0 : ℤ) ≤ o.windowMs by omega)
  omega

/-- What weighs too much later did so before. -/
theorem StillWeighs.mono {u : ℤ} (h : StillWeighs o hits t u) (hhits : o.maxRequests ≤ hits)
    (hle : now ≤ u) : StillWeighs o hits t now := by
  have hmul := mul_le_mul_of_nonneg_left
    (show now - (fixedWindowBoundaryMs t o.windowMs + o.windowMs) ≤
      u - (fixedWindowBoundaryMs t o.windowMs + o.windowMs) by omega)
    (show (0 : ℤ) ≤ hits by omega)
  exact hmul.trans_lt h

/-- One hit in a window and the cap or more in the window before it. -/
theorem weighted_le_iff {start : ℤ} (hhits : o.maxRequests ≤ hits)
    (hlt : now < start + o.windowMs) :
    weightedSlidingCount hits 1 now o.windowMs start ≤ o.maxRequests ↔
      (hits + 1 - o.maxRequests) * (o.windowMs : ℤ) ≤ hits * (now - start) := by
  have hcap := o.maxRequests_pos
  have hW := o.windowMs_pos
  have hWq : (0 : ℚ) < o.windowMs := by exact_mod_cast hW
  have hhitsq : (o.maxRequests : ℚ) ≤ hits := by exact_mod_cast hhits
  rw [weightedSlidingCount, slidingWeight]
  by_cases hle : now - start ≤ 0
  · simp only [if_pos hle]
    refine iff_of_false ?_ ?_
    · push_cast
      linarith
    · have hmul := mul_le_mul_of_nonneg_left hle (show (0 : ℤ) ≤ hits by omega)
      have hpos := mul_pos (show (0 : ℤ) < hits + 1 - o.maxRequests by omega)
        (show (0 : ℤ) < o.windowMs by omega)
      omega
  · simp only [if_neg hle, if_neg (show ¬ (o.windowMs : ℤ) ≤ now - start by omega)]
    have hexpand : (hits : ℚ) * (1 - ((now - start : ℤ) : ℚ) / o.windowMs) +
        (1 : ℤ) = o.maxRequests +
          ((hits + 1 - o.maxRequests) * (o.windowMs : ℚ) - hits * (now - start : ℤ)) /
            o.windowMs := by
      field_simp
      push_cast
      ring
    rw [hexpand, add_le_iff_nonpos_right, div_nonpos_iff]
    have hcast : ((hits + 1 - o.maxRequests) * (o.windowMs : ℚ) - hits * (now - start : ℤ) ≤ 0) ↔
        (hits + 1 - o.maxRequests) * (o.windowMs : ℤ) ≤ hits * (now - start) := by
      rw [sub_nonpos]
      exact_mod_cast Iff.rfl
    rw [← hcast]
    constructor
    · rintro (⟨-, h⟩ | ⟨h, -⟩)
      · exact absurd h (not_le.mpr hWq)
      · exact h
    · exact fun h => Or.inr ⟨h, hWq.le⟩

/-- The weighted count grows with both counts. -/
theorem weightedSlidingCount_mono {p p' c c' start : ℤ} (hp : p ≤ p') (hc : c ≤ c') :
    weightedSlidingCount p c now o.windowMs start ≤
      weightedSlidingCount p' c' now o.windowMs start := by
  have hweight := slidingWeight_nonneg now o.windowMs start
  have hpq : (p : ℚ) ≤ p' := by exact_mod_cast hp
  have hcq : (c : ℚ) ≤ c' := by exact_mod_cast hc
  exact add_le_add (mul_le_mul_of_nonneg_right hpq hweight) hcq

/-- The window is that of the block with its hits, or the next one with that many in the window
before. -/
structure FullSince (windowMs : ℕ) (hits t now : ℤ) (x : WeightedWindowState) : Prop where
  start_le : x.currentWindowStart ≤ fixedWindowBoundaryMs now windowMs
  previousCount_nonneg : 0 ≤ x.previousCount
  one_le_currentCount : 1 ≤ x.currentCount
  full : x.currentWindowStart = fixedWindowBoundaryMs t windowMs ∧ hits ≤ x.currentCount ∨
    x.currentWindowStart = fixedWindowBoundaryMs t windowMs + windowMs ∧ hits ≤ x.previousCount

/-- Up to the end of that next window it stays so; in the window of the block there is a hit
more. -/
theorem FullSince.simulate {windowMs cost : ℕ} {clock : ℤ} {x : WeightedWindowState}
    (h : FullSince windowMs hits t clock x) (hW : 1 ≤ windowMs) (hclock : clock ≤ now)
    (hlt : now < fixedWindowBoundaryMs t windowMs + 2 * windowMs) (hcost : 1 ≤ cost) :
    FullSince windowMs hits t now (simulateWeightedIncrement (some x) now windowMs cost) ∧
      ((simulateWeightedIncrement (some x) now windowMs cost).currentWindowStart =
        fixedWindowBoundaryMs t windowMs →
        hits < (simulateWeightedIncrement (some x) now windowMs cost).currentCount) := by
  obtain ⟨start, count, prev⟩ := x
  obtain ⟨hstart, hprev, hcount, hfull⟩ := h
  have hmono := fixedWindowBoundaryMs_mono hW hclock
  have hnow := fixedWindowBoundaryMs_le hW now
  have hnext := fixedWindowBoundaryMs_add hW t
  have hgap := @fixedWindowBoundaryMs_add_le windowMs hW t now
  have hgap' := @fixedWindowBoundaryMs_add_le windowMs hW (t + windowMs) now
  simp only at hstart hprev hcount hfull
  by_cases hsame : start = fixedWindowBoundaryMs now windowMs
  · simp only [simulateWeightedIncrement, if_pos hsame]
    refine ⟨⟨hsame.le, hprev, ?_, ?_⟩, ?_⟩
    · simp only
      omega
    · simp only
      omega
    · omega
  -- only the window right after the block's is left
  · have hroll : start + windowMs = fixedWindowBoundaryMs now windowMs := by omega
    simp only [simulateWeightedIncrement, if_neg hsame, if_pos hroll]
    refine ⟨⟨le_rfl, zero_le_one.trans hcount, ?_, ?_⟩, ?_⟩
    · simp only
      omega
    · simp only
      omega
    · omega

/-- What an increment leaves weighs more than the cap. -/
theorem FullSince.lt_weighted {x : WeightedWindowState} (h : FullSince o.windowMs hits t now x)
    (hmore : x.currentWindowStart = fixedWindowBoundaryMs t o.windowMs → hits < x.currentCount)
    (hhits : o.maxRequests ≤ hits) (hstill : StillWeighs o hits t now) :
    (o.maxRequests : ℚ) < weightedSlidingCount x.previousCount x.currentCount now o.windowMs
      x.currentWindowStart := by
  have hlt := hstill.lt hhits
  rcases h.full with ⟨hwindow, -⟩ | ⟨hwindow, hfull⟩
  · have hcount := hmore hwindow
    refine lt_of_lt_of_le ?_ (weightedSlidingCount_mono h.previousCount_nonneg
      (show (o.maxRequests + 1 : ℤ) ≤ x.currentCount by omega))
    simp [weightedSlidingCount]
  · refine lt_of_lt_of_le ?_ (weightedSlidingCount_mono hfull h.one_le_currentCount)
    rw [← not_le, weighted_le_iff hhits (by omega), not_le, hwindow]
    exact hstill

/-- An increment is rejected, and leaves the item full. -/
theorem FullSince.increment {clock : ℤ} {x : DynamoSlidingItem}
    (h : FullSince o.windowMs hits t clock x.toWeightedWindowState) (hclock : clock ≤ now)
    (hhits : o.maxRequests ≤ hits) (hstill : StillWeighs o hits t now)
    (hcap : o.cap options.maxRequests = o.maxRequests) :
    (∃ new, (incrementSliding o now options (some x)).1 = some new ∧
      FullSince o.windowMs hits t now new.toWeightedWindowState) ∧
      ∃ r, (incrementSliding o now options (some x)).2 = some r ∧ r.isBlocked = true := by
  have hmono := fixedWindowBoundaryMs_mono o.windowMs_pos hclock
  have hstart : ∀ y ∈ some x, y.currentWindowStart ≤ fixedWindowBoundaryMs now o.windowMs := by
    rintro _ ⟨⟩
    exact h.start_le.trans hmono
  obtain ⟨new, hnew, hincr⟩ := incrementSliding_of_le options (some x) hstart
  obtain ⟨hfull, hmore⟩ := h.simulate o.windowMs_pos hclock (hstill.lt hhits)
    options.one_le_sanitizedCost
  rw [simulated, Option.map_some] at hnew
  rw [← hnew] at hfull hmore
  rw [hincr]
  refine ⟨⟨new, rfl, hfull⟩, _, rfl, ?_⟩
  simp only [slidingResultFromAttributes, hcap, decide_eq_true_eq]
  exact hfull.lt_weighted hmore hhits hstill

/-- What the `set` leaves is full. -/
theorem fullSince_setSliding (o : WindowOptions) (t : ℤ) (hpos : 1 ≤ hits) :
    FullSince o.windowMs hits t t (setSliding o t hits).1.toWeightedWindowState := by
  refine ⟨le_rfl, le_rfl, ?_, Or.inl ⟨rfl, ?_⟩⟩
  · simp only [setSliding]
    omega
  · simp only [setSliding]
    omega

/-- What an increment of one hit answers after a `set`, by what it stores. -/
theorem allowed_setSliding {u : ℤ} (new : WeightedWindowState) (hpos : 0 ≤ hits)
    (hle : fixedWindowBoundaryMs t o.windowMs ≤ fixedWindowBoundaryMs u o.windowMs)
    (hnew : simulateWeightedIncrement (some ⟨fixedWindowBoundaryMs t o.windowMs, hits, 0⟩) u
      o.windowMs 1 = new)
    (hweight : weightedSlidingCount new.previousCount new.currentCount u o.windowMs
      new.currentWindowStart ≤ o.maxRequests) :
    ∃ r, (incrementSliding o u {} (some (setSliding o t hits).1)).2 = some r ∧
      r.isBlocked = false := by
  have hone : ({} : RateLimitIncrementOptions).sanitizedCost = 1 := rfl
  have hset : (setSliding o t hits).1.toWeightedWindowState =
      ⟨fixedWindowBoundaryMs t o.windowMs, hits, 0⟩ := by
    simp only [setSliding, WeightedWindowState.mk.injEq, true_and, and_true]
    omega
  have hstart : ∀ y ∈ some (setSliding o t hits).1,
      y.currentWindowStart ≤ fixedWindowBoundaryMs u o.windowMs := by
    rintro _ ⟨⟩
    exact hle
  obtain ⟨item, hitem, hsome⟩ := incrementSliding_of_le {} _ hstart
  refine ⟨_, congrArg Prod.snd hsome, ?_⟩
  rw [simulated, Option.map_some, hset, hone, hnew] at hitem
  simp only [slidingResultFromAttributes, hitem, WindowOptions.cap_none,
    decide_eq_false_iff_not]
  exact not_lt.mpr hweight

/-- Set to less than the cap, a first hit at that moment is allowed. -/
theorem exists_allowed_setSliding_of_lt (hhits : hits < o.maxRequests) (hpos : 0 ≤ hits) :
    ∃ r, (incrementSliding o t {} (some (setSliding o t hits).1)).2 = some r ∧
      r.isBlocked = false := by
  refine allowed_setSliding ⟨fixedWindowBoundaryMs t o.windowMs, hits + 1, 0⟩ hpos le_rfl ?_ ?_
  · simp [simulateWeightedIncrement]
  · have hq : ((hits + 1 : ℤ) : ℚ) ≤ (o.maxRequests : ℤ) := by exact_mod_cast hhits
    simpa [weightedSlidingCount] using hq

/-- The weight is gone at a moment of the next window, or with that window. -/
theorem exists_allowed_setSliding (hhits : o.maxRequests ≤ hits)
    (h : ¬ StillWeighs o hits t (ends - 1)) :
    ∃ u, t ≤ u ∧ u < ends ∧ ∃ r,
      (incrementSliding o u {} (some (setSliding o t hits).1)).2 = some r ∧
        r.isBlocked = false := by
  have hW := o.windowMs_pos
  have hcap := o.maxRequests_pos
  have hnonneg : 0 ≤ hits := by omega
  have hnext := fixedWindowBoundaryMs_add hW t
  have hpos : 0 < ends - 1 - (fixedWindowBoundaryMs t o.windowMs + o.windowMs) := by
    by_contra hle
    have hmul := mul_le_mul_of_nonneg_left (not_lt.mp hle) hnonneg
    have hweight := mul_pos (show (0 : ℤ) < hits + 1 - o.maxRequests by omega)
      (show (0 : ℤ) < o.windowMs by omega)
    exact h (by unfold StillWeighs; omega)
  have ht := lt_fixedWindowBoundaryMs_add hW t
  rcases lt_or_ge (ends - 1) (fixedWindowBoundaryMs t o.windowMs + 2 * o.windowMs) with hlt | hge
  · have hle := fixedWindowBoundaryMs_le hW (ends - 1)
    have hgt := lt_fixedWindowBoundaryMs_add hW (ends - 1)
    have hgap := @fixedWindowBoundaryMs_add_le o.windowMs hW t (ends - 1)
    have hgap' := @fixedWindowBoundaryMs_add_le o.windowMs hW (t + o.windowMs) (ends - 1)
    have hwindow : fixedWindowBoundaryMs (ends - 1) o.windowMs =
        fixedWindowBoundaryMs t o.windowMs + o.windowMs := by omega
    refine ⟨ends - 1, by omega, by omega, allowed_setSliding
      ⟨fixedWindowBoundaryMs t o.windowMs + o.windowMs, 1, hits⟩ hnonneg (by omega)
      ?_ ?_⟩
    · simp only [simulateWeightedIncrement, hwindow]
      rw [if_neg (by omega), if_pos trivial]
      rfl
    · refine (weighted_le_iff hhits ?_).mpr (not_lt.mp h)
      simp only
      omega
  · set u := fixedWindowBoundaryMs t o.windowMs + 2 * o.windowMs with hu
    have hgt := lt_fixedWindowBoundaryMs_add hW u
    have hgap := @fixedWindowBoundaryMs_add_le o.windowMs hW (t + o.windowMs) u (by omega)
    refine ⟨u, by omega, by omega, allowed_setSliding
      ⟨fixedWindowBoundaryMs u o.windowMs, 1, 0⟩ hnonneg (by omega) ?_ ?_⟩
    · simp only [simulateWeightedIncrement]
      rw [if_neg (by omega), if_neg (by omega), if_pos (by omega)]
      rfl
    · simpa [weightedSlidingCount] using hcap

/-! ### Fixed window -/

section Fixed

variable {item : Option DynamoFixedItem}

/-- After its answer an increment sends nothing more. -/
theorem final_of_answered {s : DynamoFixedKey} {result : RateLimitResult}
    (h : s.clients 0 = some ⟨now, .answered result⟩) (n : ℕ) :
    final (DynamoFixedKey.step o) (List.replicate n (.send 0)) s = s := by
  induction n with
  | zero => rfl
  | succ n ih =>
    have hidle : DynamoFixedKey.step o (.send 0) s = (s, none) := by
      simp only [DynamoFixedKey.step, DynamoFixedKey.send, h]
    rw [List.replicate_succ, final_cons, hidle]
    exact ih

/-- A key with one increment in the given phase. -/
def fixedWith (now : ℤ) (phase : FixedPhase) (item : Option DynamoFixedItem) : DynamoFixedKey :=
  ({ item := item } : DynamoFixedKey).move 0 now phase

/-- The client of the run, in its phase. -/
@[simp] theorem clients_fixedWith (now : ℤ) (phase : FixedPhase) (item : Option DynamoFixedItem) :
    (fixedWith now phase item).clients 0 = some ⟨now, phase⟩ := by
  simp [fixedWith, DynamoFixedKey.move]

/-- Moving on changes its phase alone. -/
@[simp] theorem move_fixedWith (now : ℤ) (phase phase' : FixedPhase)
    (item : Option DynamoFixedItem) :
    (fixedWith now phase item).move 0 now phase' = fixedWith now phase' item := by
  simp [fixedWith, DynamoFixedKey.move]

/-- The increment is answered with the item it writes. -/
theorem answer_fixedWith (options : RateLimitIncrementOptions) (phase : FixedPhase)
    (item : Option DynamoFixedItem) (new : DynamoFixedItem) :
    ((fixedWith now phase item).answer o 0 now options new).1 =
      fixedWith now (.answered (fixedResultFromAttributes o (o.cap options.maxRequests) new))
        (some new) := by
  rw [DynamoFixedKey.answer, move_fixedWith]
  rfl

/-- An increment whose client is done after some writes leaves what it stored. -/
theorem incrementFixed_eq (options : RateLimitIncrementOptions) (item : Option DynamoFixedItem)
    {new : DynamoFixedItem} {k : ℕ} (hk : k ≤ 2 * maxAttempts)
    (h : final (DynamoFixedKey.step o) (List.replicate k (.send 0))
        (fixedWith now (.adding options 0) item) =
      fixedWith now (.answered (fixedResultFromAttributes o (o.cap options.maxRequests) new))
        (some new)) :
    incrementFixed o now options item =
      (some new, some (fixedResultFromAttributes o (o.cap options.maxRequests) new)) := by
  have hstart : (DynamoFixedKey.step o (.increment 0 now options) { item := item }).1 =
      fixedWith now (.adding options 0) item := rfl
  have hrequests : List.replicate (2 * maxAttempts) (FixedEvent.send 0) =
      List.replicate k (.send 0) ++ List.replicate (2 * maxAttempts - k) (.send 0) := by
    rw [List.replicate_append_replicate, Nat.add_sub_cancel' hk]
  unfold incrementFixed
  rw [final_cons, hstart, hrequests, final_append, h, final_of_answered (clients_fixedWith _ _ _)]
  simp only [clients_fixedWith]
  rfl

/-- An item of this window is added to by the first request. -/
theorem incrementFixed_of_eq (options : RateLimitIncrementOptions) {x : DynamoFixedItem}
    (h : x.windowStart = fixedWindowBoundaryMs now o.windowMs) :
    let new : DynamoFixedItem :=
      { x with
        totalHits := x.totalHits + options.sanitizedCost
        ttl := ttlEpochSeconds now o.windowMs }
    incrementFixed o now options (some x) =
      (some new, some (fixedResultFromAttributes o (o.cap options.maxRequests) new)) := by
  intro new
  refine incrementFixed_eq options (some x) (k := 1) (by decide) ?_
  have hitem : (fixedWith now (.adding options 0) (some x)).item = some x := rfl
  simp only [List.replicate_one, final_cons, final_nil, DynamoFixedKey.step, DynamoFixedKey.send,
    clients_fixedWith, DynamoFixedKey.sendAdd, hitem, if_pos h]
  exact answer_fixedWith options _ _ new

/-- An item of an earlier window is replaced by the second request. -/
theorem incrementFixed_of_lt (options : RateLimitIncrementOptions) {x : DynamoFixedItem}
    (h : x.windowStart < fixedWindowBoundaryMs now o.windowMs) :
    let new : DynamoFixedItem :=
      { totalHits := options.sanitizedCost
        windowStart := fixedWindowBoundaryMs now o.windowMs
        ttl := ttlEpochSeconds now o.windowMs }
    incrementFixed o now options (some x) =
      (some new, some (fixedResultFromAttributes o (o.cap options.maxRequests) new)) := by
  intro new
  refine incrementFixed_eq options (some x) (k := 1 + 1) (by decide) ?_
  have hadd : (DynamoFixedKey.step o (.send 0) (fixedWith now (.adding options 0) (some x))).1 =
      fixedWith now (.setting options 0) (some x) := by
    have hitem : (fixedWith now (.adding options 0) (some x)).item = some x := rfl
    simp only [DynamoFixedKey.step, DynamoFixedKey.send, clients_fixedWith,
      DynamoFixedKey.sendAdd, hitem, if_neg h.ne, move_fixedWith]
  have hold : ∀ y ∈ (fixedWith now (.setting options 0) (some x)).item,
      y.windowStart < fixedWindowBoundaryMs now o.windowMs := by
    rintro _ ⟨⟩
    exact h
  rw [List.replicate_succ, final_cons, hadd]
  simp only [List.replicate_one, final_cons, final_nil, DynamoFixedKey.step, DynamoFixedKey.send,
    clients_fixedWith, DynamoFixedKey.sendSet, if_pos hold]
  exact answer_fixedWith options _ _ new

/-- The cap or more is counted, in the window of the block. -/
def FixedFull (o : WindowOptions) (cap : ℕ) (t : ℤ) (x : DynamoFixedItem) : Prop :=
  x.windowStart = fixedWindowBoundaryMs t o.windowMs ∧ cap ≤ x.totalHits

/-- All moments of a window have one boundary. -/
theorem fixedWindowBoundaryMs_eq_of_lt (ht : t ≤ now)
    (hlt : now < fixedWindowBoundaryMs t o.windowMs + o.windowMs) :
    fixedWindowBoundaryMs now o.windowMs = fixedWindowBoundaryMs t o.windowMs := by
  have hW := o.windowMs_pos
  have hmono := fixedWindowBoundaryMs_mono hW ht
  have hle := fixedWindowBoundaryMs_le hW now
  have hgap := @fixedWindowBoundaryMs_add_le o.windowMs hW t now
  omega

/-- An increment is rejected, and leaves the item full. -/
theorem FixedFull.increment {x : DynamoFixedItem} (h : FixedFull o o.maxRequests t x) (ht : t ≤ now)
    (hlt : now < fixedWindowBoundaryMs t o.windowMs + o.windowMs)
    (hcap : o.cap options.maxRequests = o.maxRequests) :
    (∃ new, (incrementFixed o now options (some x)).1 = some new ∧
      FixedFull o o.maxRequests t new) ∧
      ∃ r, (incrementFixed o now options (some x)).2 = some r ∧ r.isBlocked = true := by
  obtain ⟨hwindow, hhits⟩ := h
  have hcost := options.one_le_sanitizedCost
  have hsame := fixedWindowBoundaryMs_eq_of_lt ht hlt
  rw [incrementFixed_of_eq options (hwindow.trans hsame.symm)]
  refine ⟨⟨_, rfl, hwindow, ?_⟩, _, rfl, ?_⟩
  · simp only
    omega
  · simp only [fixedResultFromAttributes, hcap, RateLimitResult.isBlocked_ofUsage,
      decide_eq_true_eq]
    omega

/-- What the `set` leaves is full. -/
theorem fixedFull_setFixed (o : WindowOptions) (t : ℤ) (expiresAt : Option ℤ)
    (hhits : o.maxRequests ≤ hits) :
    FixedFull o o.maxRequests t (setFixed o t hits expiresAt).1 := by
  refine ⟨rfl, ?_⟩
  simp only [setFixed]
  omega

/-- Set to less than the cap, a first hit at that moment is allowed. -/
theorem exists_allowed_setFixed_of_lt (expiresAt : Option ℤ) (hhits : hits < o.maxRequests)
    (hpos : 0 ≤ hits) :
    ∃ r, (incrementFixed o t {} (some (setFixed o t hits expiresAt).1)).2 = some r ∧
      r.isBlocked = false := by
  have hwindow : (setFixed o t hits expiresAt).1.windowStart =
      fixedWindowBoundaryMs t o.windowMs := rfl
  refine ⟨_, congrArg Prod.snd (incrementFixed_of_eq {} hwindow), ?_⟩
  have hone : ({} : RateLimitIncrementOptions).sanitizedCost = 1 := rfl
  simp only [fixedResultFromAttributes, RateLimitResult.isBlocked_ofUsage, WindowOptions.cap_none,
    hone, setFixed, decide_eq_false_iff_not]
  omega

/-- In the next window a first hit is allowed. -/
theorem exists_allowed_setFixed (hits : ℤ) (expiresAt : Option ℤ)
    (h : fixedWindowBoundaryMs t o.windowMs + o.windowMs < ends) :
    ∃ u, t ≤ u ∧ u < ends ∧ ∃ r,
      (incrementFixed o u {} (some (setFixed o t hits expiresAt).1)).2 = some r ∧
        r.isBlocked = false := by
  have hW := o.windowMs_pos
  have hcap := o.maxRequests_pos
  have ht := lt_fixedWindowBoundaryMs_add hW t
  have hgt := lt_fixedWindowBoundaryMs_add hW (fixedWindowBoundaryMs t o.windowMs + o.windowMs)
  have hold : (setFixed o t hits expiresAt).1.windowStart <
      fixedWindowBoundaryMs (fixedWindowBoundaryMs t o.windowMs + o.windowMs) o.windowMs := by
    simp only [setFixed]
    omega
  refine ⟨_, ht.le, h, _, congrArg Prod.snd (incrementFixed_of_lt {} hold), ?_⟩
  have hone : ({} : RateLimitIncrementOptions).sanitizedCost = 1 := rfl
  simp only [fixedResultFromAttributes, RateLimitResult.isBlocked_ofUsage, WindowOptions.cap_none,
    hone, decide_eq_false_iff_not]
  omega

end Fixed

/-! ### Token bucket -/

section Bucket

variable {o : TokenBucketOptions} {cost : ℕ}

/-- There are no tokens, and none come back before `ends`. -/
def EmptyUntil (o : TokenBucketOptions) (ends : ℤ) (x : DynamoBucketItem) : Prop :=
  x.tokens ≤ 0 ∧ ends ≤ x.lastRefillAt + o.interval

/-- An increment finds an empty bucket and leaves it empty. -/
theorem EmptyUntil.increment {x : DynamoBucketItem} (h : EmptyUntil o ends x) (hnow : now < ends)
    (hcost : 1 ≤ cost) :
    (∃ new, (bucketAlone o (now, cost) (some x)).1 = some new ∧ EmptyUntil o ends new) ∧
      (bucketAlone o (now, cost) (some x)).2.isBlocked = true := by
  obtain ⟨htokens, hrefill⟩ := h
  have hsame : refillBucketState o now (storedBucket o now (some x)) =
      ⟨x.tokens, x.lastRefillAt⟩ := by
    rw [refillBucketState_eq]
    exact Bucket.refill_of_lt (b := ⟨x.tokens, x.lastRefillAt⟩) (hnow.trans_le hrefill)
  have hblocked : (!decide ((cost : ℤ) ≤ x.tokens)) = true := by
    simp only [Bool.not_eq_true', decide_eq_false_iff_not]
    omega
  simp only [bucketAlone, bucketAttempt, hsame, hblocked, if_true]
  exact ⟨⟨_, rfl, htokens, hrefill⟩, trivial⟩

/-- A `set` to its size leaves a bucket empty until the next interval. -/
theorem emptyUntil_setTokenBucket {totalHits : ℤ} (hsize : o.bucketSize ≤ totalHits)
    (hinterval : ends ≤ t + o.interval) : EmptyUntil o ends (setTokenBucket o t totalHits).1 :=
  ⟨(bucketTokens_of_le hsize).le, hinterval⟩

/-- Set to less than the size, a first hit at that moment is allowed. -/
theorem isBlocked_bucketAlone_of_lt {totalHits : ℤ} (hhits : totalHits < o.bucketSize) :
    (bucketAlone o (t, 1) (some (setTokenBucket o t totalHits).1)).2.isBlocked = false := by
  have hone : 1 ≤ (refillBucketState o t (storedBucket o t
      (some (setTokenBucket o t totalHits).1))).tokens := by
    rw [refillBucketState_eq]
    exact Bucket.one_le_tokens_of_lt hhits
  simp only [bucketAlone, bucketAttempt, Nat.cast_one, decide_eq_true hone, Bool.not_true]

/-- An interval after the `set` there is a token. -/
theorem isBlocked_bucketAlone_setTokenBucket (o : TokenBucketOptions) (t totalHits : ℤ) :
    (bucketAlone o (t + o.interval, 1) (some (setTokenBucket o t totalHits).1)).2.isBlocked =
      false := by
  have hone : 1 ≤ (refillBucketState o (t + o.interval) (storedBucket o (t + o.interval)
      (some (setTokenBucket o t totalHits).1))).tokens := by
    rw [refillBucketState_eq]
    exact Bucket.one_le_tokens_refill (b := ⟨bucketTokens o totalHits, t⟩)
      (bucketTokens_nonneg o totalHits) le_rfl
  simp only [bucketAlone, bucketAttempt, Nat.cast_one, decide_eq_true hone, Bool.not_true]

end Bucket

end DynamoStore

end RatelimitFlex
