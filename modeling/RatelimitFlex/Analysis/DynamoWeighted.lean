import RatelimitFlex.Analysis.DynamoSlidingCommits
import RatelimitFlex.Library.HitLog

/-!
# The weighted window of `DynamoStore`

`simulateWeightedIncrement` keeps the costs of the current aligned sub-window and of the one
just before it (`Tallies`), so the weighted count misses the exact cost of the moving window
by at most what the weight is off by (`weightedCount_error_bound`).  A `get` weighs the
counters as they are stored, an increment rolls them first: the two agree while the stored
sub-window is the clock's, and once both are forgotten (`dynamoGet_consistent_iff`).
-/

set_option autoImplicit false

namespace RatelimitFlex

open Library

namespace DynamoStore

/-! ## Aligned sub-windows -/

section Boundary

variable {windowMs : ℕ} (hW : 1 ≤ windowMs) {now now' : ℤ}

include hW

/-- A window starts in the past. -/
theorem fixedWindowBoundaryMs_le (now : ℤ) : fixedWindowBoundaryMs now windowMs ≤ now :=
  Int.ediv_mul_le now (by omega)

/-- It ends in the future. -/
theorem lt_fixedWindowBoundaryMs_add (now : ℤ) :
    now < fixedWindowBoundaryMs now windowMs + windowMs := by
  have hlt := Int.lt_ediv_add_one_mul_self now (show (0 : ℤ) < windowMs by omega)
  rw [add_mul, one_mul] at hlt
  exact hlt

/-- A later time is in the same window or a later one. -/
theorem fixedWindowBoundaryMs_mono (h : now ≤ now') :
    fixedWindowBoundaryMs now windowMs ≤ fixedWindowBoundaryMs now' windowMs :=
  mul_le_mul_of_nonneg_right (Int.ediv_le_ediv (by omega) h) (by omega)

/-- Two boundaries that are not the same are a window apart or more. -/
theorem fixedWindowBoundaryMs_add_le
    (h : fixedWindowBoundaryMs now windowMs < fixedWindowBoundaryMs now' windowMs) :
    fixedWindowBoundaryMs now windowMs + windowMs ≤ fixedWindowBoundaryMs now' windowMs := by
  have hq : now / windowMs < now' / windowMs :=
    lt_of_mul_lt_mul_right h (show (0 : ℤ) ≤ windowMs by omega)
  calc
    fixedWindowBoundaryMs now windowMs + windowMs = (now / windowMs + 1) * windowMs := by
      rw [fixedWindowBoundaryMs]
      ring
    _ ≤ now' / windowMs * windowMs := mul_le_mul_of_nonneg_right hq (by omega)

/-- One window later, the boundary is one window later. -/
theorem fixedWindowBoundaryMs_add (now : ℤ) :
    fixedWindowBoundaryMs (now + windowMs) windowMs = fixedWindowBoundaryMs now windowMs + windowMs := by
  rw [fixedWindowBoundaryMs, fixedWindowBoundaryMs, Int.add_ediv_of_dvd_right dvd_rfl,
    Int.ediv_self (by omega), add_mul, one_mul]

end Boundary

/-! ## The weight -/

section Weight

variable {windowMs : ℕ} {now start : ℤ}

/-- A weight is not negative. -/
theorem slidingWeight_nonneg (now : ℤ) (windowMs : ℕ) (start : ℤ) :
    0 ≤ slidingWeight now windowMs start := by
  simp only [slidingWeight]
  split_ifs with hearly hlate
  · exact zero_le_one
  · exact le_rfl
  · have hpos : (0 : ℚ) < windowMs := by exact_mod_cast (show 0 < windowMs by omega)
    have hle : ((now - start : ℤ) : ℚ) ≤ windowMs := by exact_mod_cast (by omega)
    have := (div_le_one hpos).mpr hle
    linarith

end Weight

/-! ## The counters of the simulation -/

/-- A sequence of increments, folded through the simulation. -/
def simulateAll (windowMs : ℕ) (hits : List Hit) : Option WeightedWindowState :=
  hits.foldl (fun s h => some (simulateWeightedIncrement s h.time windowMs h.cost)) none

/-- After increments up to the time `t`, the state counts those of the sub-window of `t` and
those of the sub-window just before. -/
structure Tallies (windowMs : ℕ) (hits : List Hit) (t : ℤ) (s : WeightedWindowState) : Prop where
  past : ∀ h ∈ hits, h.time ≤ t
  start : s.currentWindowStart = fixedWindowBoundaryMs t windowMs
  current : s.currentCount = Hit.windowCost (s.currentWindowStart - 1)
    (s.currentWindowStart + windowMs - 1) hits
  previous : s.previousCount = Hit.windowCost (s.currentWindowStart - windowMs - 1)
    (s.currentWindowStart - 1) hits

section Simulation

variable {windowMs : ℕ} {hits : List Hit} {t now : ℤ} {s : WeightedWindowState}

/-- The new hit lies in the sub-window of its own time, and in none before. -/
theorem windowCost_append_current (hW : 1 ≤ windowMs) (hits : List Hit) (h : Hit) :
    let b := fixedWindowBoundaryMs h.time windowMs
    Hit.windowCost (b - 1) (b + windowMs - 1) (hits ++ [h]) =
        Hit.windowCost (b - 1) (b + windowMs - 1) hits + h.cost ∧
      Hit.windowCost (b - windowMs - 1) (b - 1) (hits ++ [h]) =
        Hit.windowCost (b - windowMs - 1) (b - 1) hits := by
  intro b
  have hle : b ≤ h.time := fixedWindowBoundaryMs_le hW h.time
  have hlt : h.time < b + windowMs := lt_fixedWindowBoundaryMs_add hW h.time
  constructor
  · rw [Hit.windowCost_append, Hit.windowCost_singleton, if_pos (by omega)]
  · rw [Hit.windowCost_append, Hit.windowCost_singleton, if_neg (by omega), add_zero]

/-- The first increment. -/
theorem tallies_first (hW : 1 ≤ windowMs) (h : Hit) :
    Tallies windowMs [h] h.time (simulateWeightedIncrement none h.time windowMs h.cost) := by
  obtain ⟨hcur, hprev⟩ := windowCost_append_current hW [] h
  simp only [List.nil_append, Hit.windowCost_nil, zero_add] at hcur hprev
  refine ⟨by simp, rfl, ?_, ?_⟩
  · simp [simulateWeightedIncrement, hcur]
  · simp [simulateWeightedIncrement, hprev]

/-- A later one: the counters stay, roll over, or are dropped, as the clock has gone. -/
theorem Tallies.increment (hW : 1 ≤ windowMs) (ht : Tallies windowMs hits t s) (h : Hit)
    (hle : t ≤ h.time) :
    Tallies windowMs (hits ++ [h]) h.time
      (simulateWeightedIncrement (some s) h.time windowMs h.cost) := by
  obtain ⟨start, current, previous⟩ := s
  obtain ⟨hpast, hstart, hcurrent, hprevious⟩ := ht
  simp only at hstart hcurrent hprevious
  obtain ⟨hcur, hprev⟩ := windowCost_append_current hW hits h
  set b := fixedWindowBoundaryMs h.time windowMs with hb
  have hpast' : ∀ x ∈ hits ++ [h], x.time ≤ h.time := by
    intro x hx
    rcases List.mem_append.mp hx with hx | hx
    · exact (hpast x hx).trans hle
    · rw [List.mem_singleton.mp hx]
  -- the old hits end before the next sub-window
  have hend : ∀ x ∈ hits, x.time < start + windowMs := by
    intro x hx
    have := lt_fixedWindowBoundaryMs_add hW t
    have := hpast x hx
    omega
  have hmono : start ≤ b := hstart ▸ fixedWindowBoundaryMs_mono hW hle
  by_cases hsame : start = b
  · have hnew : simulateWeightedIncrement (some ⟨start, current, previous⟩) h.time windowMs
        h.cost = ⟨start, current + h.cost, previous⟩ := by
      simp only [simulateWeightedIncrement, ← hb]
      rw [if_pos hsame]
    rw [hnew]
    refine ⟨hpast', hsame, ?_, ?_⟩
    · simp only
      rw [hsame, hcur, hcurrent, hsame, Nat.cast_add]
    · simp only
      rw [hsame, hprev, hprevious, hsame]
  have hapart : start + windowMs ≤ b := by
    rw [hstart] at hsame hmono ⊢
    exact fixedWindowBoundaryMs_add_le hW (lt_of_le_of_ne hmono hsame)
  have hnone : Hit.windowCost (b - 1) (b + windowMs - 1) hits = 0 :=
    Hit.windowCost_eq_zero fun x hx hin => by
      have := hend x hx
      omega
  by_cases hnext : start + windowMs = b
  · have hnew : simulateWeightedIncrement (some ⟨start, current, previous⟩) h.time windowMs
        h.cost = ⟨b, h.cost, current⟩ := by
      simp only [simulateWeightedIncrement, ← hb]
      rw [if_neg hsame, if_pos hnext]
    rw [hnew]
    refine ⟨hpast', rfl, ?_, ?_⟩
    · simp only
      rw [hcur, hnone, zero_add]
    · simp only
      rw [hprev, hcurrent, ← hnext]
      congr 2
      omega
  · have hnew : simulateWeightedIncrement (some ⟨start, current, previous⟩) h.time windowMs
        h.cost = ⟨b, h.cost, 0⟩ := by
      simp only [simulateWeightedIncrement, ← hb]
      rw [if_neg hsame, if_neg hnext, if_pos (by omega)]
    rw [hnew]
    have hskipped : start + windowMs + windowMs ≤ b := by
      rw [hstart, ← fixedWindowBoundaryMs_add hW t] at hnext hapart ⊢
      exact fixedWindowBoundaryMs_add_le hW (lt_of_le_of_ne hapart hnext)
    have hgap : Hit.windowCost (b - windowMs - 1) (b - 1) hits = 0 :=
      Hit.windowCost_eq_zero fun x hx hin => by
        have := hend x hx
        omega
    refine ⟨hpast', rfl, ?_, ?_⟩
    · simp only
      rw [hcur, hnone, zero_add]
    · simp only
      rw [hprev, hgap, Nat.cast_zero]

/-- The state after a whole sequence. -/
theorem simulateAll_tallies (hW : 1 ≤ windowMs) (hits : List Hit) (last : Hit)
    (hordered : ((hits ++ [last]).map Hit.time).Pairwise (· ≤ ·)) :
    ∃ s, simulateAll windowMs (hits ++ [last]) = some s ∧
      Tallies windowMs (hits ++ [last]) last.time s := by
  induction hits using List.reverseRecOn generalizing last with
  | nil => exact ⟨_, rfl, tallies_first hW last⟩
  | append_singleton hits x ih =>
    rw [List.map_append, List.pairwise_append] at hordered
    obtain ⟨hbefore, -, hafter⟩ := hordered
    obtain ⟨s, hs, htallies⟩ := ih x hbefore
    have hle : x.time ≤ last.time := hafter _ (by simp) _ (by simp)
    refine ⟨_, ?_, htallies.increment hW last hle⟩
    rw [simulateAll, List.foldl_append, ← simulateAll, hs]
    rfl

end Simulation

/-! ## The error of the estimate -/

/-- The exact cost of the moving window: the current sub-window, and of the one before what
the moving window still reaches. -/
theorem Tallies.windowCost_eq {windowMs : ℕ} {hits : List Hit} {t : ℤ} {s : WeightedWindowState}
    (hW : 1 ≤ windowMs) (h : Tallies windowMs hits t s) :
    ∃ p : ℕ, (p : ℤ) ≤ s.previousCount ∧
      (Hit.windowCost (t - windowMs) t hits : ℤ) = p + s.currentCount := by
  have hle := fixedWindowBoundaryMs_le hW t
  have hlt := lt_fixedWindowBoundaryMs_add hW t
  rw [← h.start] at hle hlt
  set b := s.currentWindowStart with hb
  refine ⟨Hit.windowCost (t - windowMs) (b - 1) hits, ?_, ?_⟩
  · rw [h.previous]
    exact_mod_cast Hit.windowCost_anti_lo (show b - windowMs - 1 ≤ t - windowMs by omega) _ _
  · rw [h.current, Hit.windowCost_split (show t - windowMs ≤ b - 1 by omega)
      (show b - 1 ≤ t by omega), Hit.windowCost_split (show b - 1 ≤ t by omega)
      (show t ≤ b + windowMs - 1 by omega)]
    have hnone : Hit.windowCost t (b + windowMs - 1) hits = 0 :=
      Hit.windowCost_eq_zero fun x hx hin => not_lt.mpr (h.past x hx) hin.1
    rw [hnone]
    push_cast
    ring

end DynamoStore

/-- **The error of the weighted count.**  After any increments at times that do not go back,
the counters are the costs of the current aligned sub-window and of the one before it, and the
weighted count at the last increment misses the exact cost of the moving window by no more
than the previous count times the weight above, and times the rest of the weight below.
SOURCE: src/stores/dynamo/sliding-weighted.ts:7-101 -/
theorem weightedCount_error_bound (windowMs : ℕ) (hW : 0 < windowMs) (hits : List Hit) (last : Hit)
    (hordered : ((hits ++ [last]).map Hit.time).Pairwise (· ≤ ·)) :
    ∃ s, DynamoStore.simulateAll windowMs (hits ++ [last]) = some s ∧
      let b := DynamoStore.fixedWindowBoundaryMs last.time windowMs
      let w := DynamoStore.slidingWeight last.time windowMs s.currentWindowStart
      let weighted := DynamoStore.weightedSlidingCount s.previousCount s.currentCount last.time
        windowMs s.currentWindowStart
      let exactCost := Hit.windowCost (last.time - windowMs) last.time (hits ++ [last])
      s.currentWindowStart = b ∧
        s.currentCount = Hit.windowCost (b - 1) (b + windowMs - 1) (hits ++ [last]) ∧
        s.previousCount = Hit.windowCost (b - windowMs - 1) (b - 1) (hits ++ [last]) ∧
        -(s.previousCount * (1 - w)) ≤ weighted - exactCost ∧
        weighted - exactCost ≤ s.previousCount * w := by
  obtain ⟨s, hs, htallies⟩ := DynamoStore.simulateAll_tallies hW hits last hordered
  obtain ⟨p, hp, hexact⟩ := htallies.windowCost_eq hW
  refine ⟨s, hs, htallies.start, ?_, ?_, ?_⟩
  · rw [htallies.current, htallies.start]
  · rw [htallies.previous, htallies.start]
  · have hexactQ : (Hit.windowCost (last.time - windowMs) last.time (hits ++ [last]) : ℚ) =
        p + s.currentCount := by exact_mod_cast hexact
    have hpQ : (p : ℚ) ≤ s.previousCount := by exact_mod_cast hp
    have hp0 : (0 : ℚ) ≤ p := Nat.cast_nonneg p
    rw [hexactQ, DynamoStore.weightedSlidingCount]
    constructor
    · linarith
    · linarith

/-- Two units early in one window and one late, then three in the next: the estimate counts
`3 * 4/5` of the earlier units, the moving window all but the two. -/
theorem weightedCount_error_bound_two_windows :
    ∃ s, DynamoStore.simulateAll 1000 [⟨100, 2⟩, ⟨900, 1⟩, ⟨1200, 3⟩] = some s ∧
      s.currentWindowStart = 1000 ∧ s.currentCount = 3 ∧ s.previousCount = 3 := by
  obtain ⟨s, hs, hstart, hcurrent, hprevious, -⟩ :=
    weightedCount_error_bound 1000 (by decide) [⟨100, 2⟩, ⟨900, 1⟩] ⟨1200, 3⟩ (by decide)
  exact ⟨s, hs, hstart, hcurrent, hprevious⟩

/-! ## A `get` beside an increment -/

namespace DynamoStore

variable (o : WindowOptions) (now : ℤ)

/-- The exact usage that stored counters stand for. -/
def exactUsage (attrs : WeightedWindowState) : ℚ :=
  weightedSlidingCount attrs.previousCount attrs.currentCount now o.windowMs
    attrs.currentWindowStart

/-- The exact usage behind the answer of a `get`; `null` counts as nothing. -/
def usageOfGet (got : Option DynamoSlidingItem) : ℚ :=
  ((getSliding o now got).bind fun _ =>
    got.map fun x => exactUsage o now x.toWeightedWindowState).getD 0

/-- The exact usage behind the answer of an increment that nothing runs beside. -/
def usageOfIncrement (options : RateLimitIncrementOptions) (item : Option DynamoSlidingItem) :
    Option ℚ :=
  match (DynamoSlidingKey.alone o now options item).clients 0 with
  | some ⟨_, _, .committed attributes⟩ =>
    some (exactUsage o now attributes.toWeightedWindowState)
  | _ => none

/-- An increment reports what a `get` does and its own cost, and a `get` a reset that is still
to come. -/
def GetConsistent (item : Option DynamoSlidingItem) : Prop :=
  (∀ options : RateLimitIncrementOptions, usageOfIncrement o now options item =
      some (usageOfGet o now item + options.sanitizedCost)) ∧
    ∀ r ∈ getSliding o now item, now < r.resetTime

end DynamoStore

namespace DynamoSlidingKey

open DynamoStore

variable {o : WindowOptions} {now : ℤ}

/-- The clocks of the increments have not passed `now`, and neither has the sub-window of
the item. -/
structure Aligned (o : WindowOptions) (now : ℤ) (s : DynamoSlidingKey) : Prop where
  item : ∀ x ∈ s.item, ∃ t ≤ now, x.currentWindowStart = fixedWindowBoundaryMs t o.windowMs
  clients : ∀ i c, s.clients i = some c → c.now ≤ now

/-- A client that moves on keeps the windows aligned. -/
theorem Aligned.move {s : DynamoSlidingKey} (h : Aligned o now s) (i : ℕ) {c : SlidingClient}
    (hc : c.now ≤ now) : Aligned o now (s.move i c) where
  item := h.item
  clients := by
    intro j c' hj
    by_cases hji : j = i
    · subst hji
      simp only [DynamoSlidingKey.move, Function.update_self] at hj
      exact Option.some.inj hj ▸ hc
    · simp only [DynamoSlidingKey.move, Function.update_of_ne hji] at hj
      exact h.clients j c' hj

/-- What a commit writes is of the sub-window of its clock. -/
theorem currentWindowStart_slidingUpdated (t : ℤ) (windowMs cost : ℕ) (u : SlidingUpdate)
    (item : Option DynamoSlidingItem) :
    (slidingUpdated t windowMs cost u item).currentWindowStart =
      fixedWindowBoundaryMs t windowMs := by
  cases u <;> rfl

/-- A request, or the start of an increment whose clock has not passed `now`. -/
theorem Aligned.step {s : DynamoSlidingKey} (h : Aligned o now s) (e : SlidingEvent)
    (he : ∀ i t options, e = .start i t options → t ≤ now) :
    Aligned o now (DynamoSlidingKey.step o e s).1 := by
  cases e with
  | start i t options =>
    simp only [DynamoSlidingKey.step, start]
    split
    · exact h.move i (he i t options rfl)
    · exact h
  | error i message =>
    simp only [DynamoSlidingKey.step, error]
    split
    · next t options attempt u hi =>
        have ht : t ≤ now := h.clients i _ hi
        exact h.move i ht
    · exact h
  | send i =>
    by_cases hsending :
        ∀ t options attempt u, s.clients i ≠ some ⟨t, options, .sending attempt u⟩
    · rw [DynamoSlidingKey.step, send_of_idle hsending]
      exact h
    · push Not at hsending
      obtain ⟨t, options, attempt, u, hi⟩ := hsending
      have ht : t ≤ now := h.clients i _ hi
      rw [DynamoSlidingKey.step, send_of_sending hi]
      split
      · refine ⟨?_, (h.move i ht).clients⟩
        rintro x ⟨⟩
        exact ⟨t, ht, currentWindowStart_slidingUpdated t _ _ u s.item⟩
      · exact h.move i ht

/-- A run of increments that have started by `now`. -/
theorem aligned_final (es : List SlidingEvent)
    (hclock : ∀ i t options, SlidingEvent.start i t options ∈ es → t ≤ now)
    {s : DynamoSlidingKey} (h : Aligned o now s) :
    Aligned o now (final (DynamoSlidingKey.step o) es s) := by
  induction es generalizing s with
  | nil => exact h
  | cons e es ih =>
    refine ih (fun i t options hmem => hclock i t options (List.mem_cons_of_mem e hmem))
      (h.step e fun i t options he => hclock i t options ?_)
    rw [he]
    exact List.mem_cons_self

end DynamoSlidingKey

namespace DynamoStore

variable {o : WindowOptions} {now : ℤ} {item : Option DynamoSlidingItem}

/-- The usage an increment reports is that of the simulated state. -/
theorem usageOfIncrement_eq (options : RateLimitIncrementOptions)
    (h : ∀ x ∈ item, x.currentWindowStart ≤ fixedWindowBoundaryMs now o.windowMs) :
    usageOfIncrement o now options item =
      some (exactUsage o now (simulated now o.windowMs options.sanitizedCost item)) := by
  obtain ⟨new, hnew, halone⟩ := DynamoSlidingKey.alone_of_le options h
  have hclient : (DynamoSlidingKey.alone o now options item).clients 0 =
      some ⟨now, options, .committed new⟩ := by
    rw [halone, DynamoSlidingKey.clients_withPhase]
  unfold usageOfIncrement
  generalize (DynamoSlidingKey.alone o now options item).clients 0 = c at hclient
  subst hclient
  exact congrArg (fun state => some (exactUsage o now state)) hnew

/-- A start from nothing uses its own cost. -/
theorem exactUsage_fresh (o : WindowOptions) (now start : ℤ) (cost : ℕ) :
    exactUsage o now ⟨start, cost, 0⟩ = cost := by
  simp [exactUsage, weightedSlidingCount]

/-- An item of long ago weighs nothing. -/
theorem usageOfGet_of_le {x : DynamoSlidingItem}
    (h : x.currentWindowStart + 2 * o.windowMs ≤ now) : usageOfGet o now (some x) = 0 := by
  rw [usageOfGet, getSliding, if_pos h]
  rfl

/-- Any other item is answered as it weighs. -/
theorem getSliding_of_lt {x : DynamoSlidingItem}
    (h : now < x.currentWindowStart + 2 * o.windowMs) :
    getSliding o now (some x) =
      some (slidingResultFromAttributes o now o.maxRequests x.toWeightedWindowState) :=
  if_neg (not_le.mpr h)

/-- Its usage is the exact one. -/
theorem usageOfGet_of_lt {x : DynamoSlidingItem}
    (h : now < x.currentWindowStart + 2 * o.windowMs) :
    usageOfGet o now (some x) = exactUsage o now x.toWeightedWindowState := by
  rw [usageOfGet, getSliding_of_lt h]
  rfl

/-- A key without an item. -/
theorem getConsistent_none (o : WindowOptions) (now : ℤ) : GetConsistent o now none := by
  refine ⟨fun options => ?_, by simp [getSliding]⟩
  rw [usageOfIncrement_eq options (by simp), simulated, Option.map_none]
  simp only [simulateWeightedIncrement, exactUsage_fresh, usageOfGet, getSliding]
  simp

/-- The stored sub-window is the clock's. -/
theorem getConsistent_of_current {x : DynamoSlidingItem}
    (hstart : x.currentWindowStart = fixedWindowBoundaryMs now o.windowMs) :
    GetConsistent o now (some x) := by
  have hlt : now < x.currentWindowStart + o.windowMs :=
    hstart ▸ lt_fixedWindowBoundaryMs_add o.windowMs_pos now
  have hlive : now < x.currentWindowStart + 2 * o.windowMs := by omega
  constructor
  · intro options
    have hle : ∀ y ∈ some x, y.currentWindowStart ≤ fixedWindowBoundaryMs now o.windowMs := by
      rintro y ⟨⟩
      exact hstart.le
    have hnew : simulated now o.windowMs options.sanitizedCost (some x) =
        ⟨x.currentWindowStart, x.currentCount + options.sanitizedCost, x.previousCount⟩ := by
      simp only [simulated, Option.map_some, simulateWeightedIncrement]
      rw [if_pos hstart]
    rw [usageOfIncrement_eq options hle, hnew, usageOfGet_of_lt hlive]
    simp only [exactUsage, weightedSlidingCount]
    push_cast
    ring_nf
  · rw [getSliding_of_lt hlive]
    rintro r ⟨⟩
    exact hlt

/-- The stored sub-window and the next are over: an increment starts afresh. -/
theorem getConsistent_of_over {x : DynamoSlidingItem}
    (hover : x.currentWindowStart + 2 * o.windowMs ≤ now) : GetConsistent o now (some x) := by
  obtain ⟨⟨start, current, previous⟩, ttl⟩ := x
  simp only at hover
  have hW := o.windowMs_pos
  have hlt := lt_fixedWindowBoundaryMs_add hW now
  refine ⟨fun options => ?_, ?_⟩
  · have hle : ∀ y ∈ some (⟨⟨start, current, previous⟩, ttl⟩ : DynamoSlidingItem),
        y.currentWindowStart ≤ fixedWindowBoundaryMs now o.windowMs := by
      rintro y ⟨⟩
      simp only
      omega
    have hnew : simulated now o.windowMs options.sanitizedCost
        (some ⟨⟨start, current, previous⟩, ttl⟩) =
          ⟨fixedWindowBoundaryMs now o.windowMs, options.sanitizedCost, 0⟩ := by
      simp only [simulated, Option.map_some, simulateWeightedIncrement]
      rw [if_neg (by omega), if_neg (by omega), if_pos (by omega)]
    rw [usageOfIncrement_eq options hle, hnew, exactUsage_fresh, usageOfGet_of_le hover, zero_add]
  · rw [getSliding, if_pos hover]
    simp

/-- Between the two, the reset a `get` reports is over. -/
theorem not_getConsistent {x : DynamoSlidingItem}
    (hended : x.currentWindowStart + o.windowMs ≤ now)
    (hlive : now < x.currentWindowStart + 2 * o.windowMs) : ¬ GetConsistent o now (some x) := by
  rintro ⟨-, hreset⟩
  have hlater := hreset _ (getSliding_of_lt hlive)
  exact absurd hlater (not_lt.mpr hended)

end DynamoStore

/-- **A `get` beside an increment.**  In every state that any interleaving of increments with
clocks up to `now` reaches, an increment at `now` reports the usage of a `get` at `now` and its
own cost, and the `get` a later reset, exactly when the stored sub-window is not over at `now`
or ended at least a window before.
SOURCE: src/stores/dynamo/DynamoStore.ts:460-492, 692-719 -/
theorem dynamoGet_consistent_iff (o : WindowOptions) (now : ℤ) (es : List SlidingEvent)
    (hclock : ∀ i t options, SlidingEvent.start i t options ∈ es → t ≤ now) :
    let s := final (DynamoSlidingKey.step o) es { item := none }
    DynamoStore.GetConsistent o now s.item ↔
      ∀ x ∈ s.item, now < x.currentWindowStart + o.windowMs ∨
        x.currentWindowStart + 2 * o.windowMs ≤ now := by
  intro s
  have haligned : DynamoSlidingKey.Aligned o now s :=
    DynamoSlidingKey.aligned_final es hclock ⟨by simp, by simp⟩
  cases hitem : s.item with
  | none => exact iff_of_true (DynamoStore.getConsistent_none o now) (by simp)
  | some x =>
    constructor
    · rintro hconsistent y ⟨⟩
      by_contra hbetween
      push Not at hbetween
      exact DynamoStore.not_getConsistent hbetween.1 hbetween.2 hconsistent
    · intro h
      rcases h x rfl with hcurrent | hover
      · obtain ⟨t, ht, hstart⟩ := haligned.item x hitem
        apply DynamoStore.getConsistent_of_current
        -- no boundary lies between the item's and the clock's
        have hmono := DynamoStore.fixedWindowBoundaryMs_mono o.windowMs_pos ht
        by_contra hne
        rw [hstart] at hne hcurrent
        have hapart := DynamoStore.fixedWindowBoundaryMs_add_le o.windowMs_pos
          (lt_of_le_of_ne hmono hne)
        have hle := DynamoStore.fixedWindowBoundaryMs_le o.windowMs_pos now
        omega
      · exact DynamoStore.getConsistent_of_over hover

/-- One increment at 100, read at 900. -/
theorem dynamoGet_consistent_iff_same_window :
    let s := final (DynamoSlidingKey.step tenASecond)
      [.start 0 100 {}, .send 0, .send 0, .send 0] { item := none }
    s.stored = some ⟨0, 1, 0⟩ ∧ DynamoStore.GetConsistent tenASecond 900 s.item := by
  intro s
  have hitem : s.item = some ⟨⟨0, 1, 0⟩, 4⟩ := by decide
  refine ⟨by decide, (dynamoGet_consistent_iff tenASecond 900 _ ?_).mpr ?_⟩
  · intro i t options hmem
    simp only [List.mem_cons, SlidingEvent.start.injEq, reduceCtorEq, List.not_mem_nil,
      or_false] at hmem
    omega
  · intro x hx
    rw [show final _ _ _ = s from rfl, hitem] at hx
    obtain rfl := Option.some.inj hx
    exact Or.inl (by decide)

/-- Three units at 100, read half a second into the next sub-window: the reset reported is half
a second past, and the usage three; an increment of one reports two and a half. -/
theorem dynamoGet_inconsistent :
    let s := final (DynamoSlidingKey.step tenASecond)
      [.start 0 100 { cost := some 3 }, .send 0, .send 0, .send 0] { item := none }
    (DynamoStore.getSliding tenASecond 1500 s.item).map (fun r => (r.totalHits, r.resetTime)) =
        some (3, 1000) ∧
      DynamoStore.usageOfIncrement tenASecond 1500 {} s.item = some (5 / 2) ∧
      ¬ DynamoStore.GetConsistent tenASecond 1500 s.item := by
  intro s
  have hitem : s.item = some ⟨⟨0, 3, 0⟩, 4⟩ := by decide
  rw [hitem]
  refine ⟨?_, ?_, DynamoStore.not_getConsistent (by decide) (by decide)⟩
  · -- the sub-window is over, so the previous count, zero, weighs nothing
    have husage : DynamoStore.exactUsage tenASecond 1500 ⟨0, 3, 0⟩ = 3 :=
      DynamoStore.exactUsage_fresh tenASecond 1500 0 3
    simp only [DynamoStore.exactUsage] at husage
    rw [DynamoStore.getSliding_of_lt (by decide)]
    simp only [DynamoStore.slidingResultFromAttributes, husage]
    rfl
  · have hrolled : DynamoStore.simulated 1500 1000 1 (some ⟨⟨0, 3, 0⟩, 4⟩) = ⟨1000, 1, 3⟩ := by
      decide
    have hcost : ({} : RateLimitIncrementOptions).sanitizedCost = 1 := rfl
    rw [DynamoStore.usageOfIncrement_eq {} (by decide), hcost,
      show DynamoStore.simulated 1500 tenASecond.windowMs _ _ = _ from hrolled]
    norm_num [DynamoStore.exactUsage, DynamoStore.weightedSlidingCount,
      DynamoStore.slidingWeight, tenASecond]

end RatelimitFlex
