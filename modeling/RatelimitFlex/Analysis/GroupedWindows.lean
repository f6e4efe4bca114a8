import RatelimitFlex.Program.RateLimitEngine

/-!
# Grouped windows: when the decision is the slots' decision

The slot loop stops at the first slot that blocks, and `mergeGroupedResults` prefers the
first slot that was unavailable.  The two rules disagree exactly when a slot was
unavailable without blocking and a later one blocks: the request is then allowed.
-/

set_option autoImplicit false

namespace RatelimitFlex

open Library

variable {ρ σ κ : Type}

/-! ## The results the loop collects -/

/-- The results of the slots that are incremented: in order, up to the first that blocks,
or the error that ends them. -/
def incrementedResults (key : κ) (incOpts : RateLimitIncrementOptions) :
    List (WindowSlot σ κ) → σ → Except StoreError (List RateLimitResult)
  | [], _ => .ok []
  | g :: rest, s =>
    match g.store.increment key
        { maxRequests := some (JsNumber.ofInt g.maxRequests), cost := incOpts.cost } s with
    | (.error e, _) => .error e
    | (.ok r, s) =>
      if r.isBlocked then .ok [r]
      else (incrementedResults key incOpts rest s).map (r :: ·)

/-- Only the last result may block. -/
def StopsAtBlock : List RateLimitResult → Prop
  | [] => True
  | r :: rs => (r.isBlocked = true → rs = []) ∧ StopsAtBlock rs

/-- Some slot answers that it is unavailable without blocking, and a later slot blocks. -/
def unavailableBeforeBlock : List RateLimitResult → Bool
  | [] => false
  | r :: rs =>
    (r.storeUnavailable && !r.isBlocked && rs.any fun x => x.isBlocked) ||
      unavailableBeforeBlock rs

/-- The slots are asked up to the first that blocks. -/
theorem stopsAtBlock_incrementedResults {key : κ} {incOpts : RateLimitIncrementOptions}
    {slots : List (WindowSlot σ κ)} {s : σ} {results : List RateLimitResult}
    (h : incrementedResults key incOpts slots s = .ok results) : StopsAtBlock results := by
  induction slots generalizing s results with
  | nil =>
    obtain rfl : [] = results := by simpa [incrementedResults] using h
    trivial
  | cons g rest ih =>
    simp only [incrementedResults] at h
    split at h
    · simp at h
    · next r s' heq =>
      split at h
      · obtain rfl : [r] = results := by simpa using h
        exact ⟨fun _ => rfl, trivial⟩
      · next hr =>
        cases hrest : incrementedResults key incOpts rest s' with
        | error e => simp [hrest, Except.map] at h
        | ok rs =>
          obtain rfl : r :: rs = results := by simpa [hrest, Except.map] using h
          exact ⟨fun hb => absurd hb hr, ih hrest⟩

/-- Without draft mode the loop answers the merge of what the slots answered. -/
theorem groupedWindowsLoop_result (clock : σ → ℤ) {key : κ} (grouped : List (WindowSlot σ κ))
    {incOpts : RateLimitIncrementOptions} {rest : List (WindowSlot σ κ)}
    (done : List RateLimitResult) {results : List RateLimitResult} {s : σ}
    (h : incrementedResults key incOpts rest s = .ok results) :
    ∃ g s' now, groupedWindowsLoop clock key grouped false incOpts rest done s = (.ok g, s') ∧
      g.result = mergeGroupedResults now (done ++ results) := by
  induction rest generalizing done results s with
  | nil =>
    obtain rfl : [] = results := by simpa [incrementedResults] using h
    exact ⟨_, _, clock s, rfl, by simp⟩
  | cons g rest ih =>
    cases hinc : g.store.increment key
        { maxRequests := some (JsNumber.ofInt g.maxRequests), cost := incOpts.cost } s with
    | mk answer s' =>
    simp only [incrementedResults, hinc] at h
    simp only [groupedWindowsLoop, hinc]
    cases answer with
    | error e => simp at h
    | ok r =>
      by_cases hr : r.isBlocked = true
      · obtain rfl : [r] = results := by simpa [hr] using h
        simp only [hr, if_true]
        exact ⟨_, _, _, rfl, rfl⟩
      · cases hrest : incrementedResults key incOpts rest s' with
        | error e => simp [hr, hrest, Except.map] at h
        | ok rs =>
          obtain rfl : r :: rs = results := by simpa [hr, hrest, Except.map] using h
          obtain ⟨g', s'', now, hloop, hg⟩ := ih (done ++ [r]) hrest
          refine ⟨g', s'', now, ?_, ?_⟩
          · simp only [hr]
            exact hloop
          · rw [hg, List.append_assoc]
            rfl

/-! ## The merge -/

/-- The first unavailable result decides, else any block. -/
theorem isBlocked_mergeGroupedResults (now : ℤ) (results : List RateLimitResult) :
    (mergeGroupedResults now results).isBlocked =
      match results.find? fun r => r.storeUnavailable with
      | some u => u.isBlocked
      | none => results.any fun r => r.isBlocked := by
  cases results with
  | nil => rfl
  | cons r₀ rs =>
    simp only [mergeGroupedResults]
    cases (r₀ :: rs).find? fun r => r.storeUnavailable with
    | some u => rfl
    | none =>
      cases hb : (r₀ :: rs).find? fun r => r.isBlocked with
      | some r =>
        have : ((r₀ :: rs).any fun r => r.isBlocked) = true :=
          List.any_eq_true.mpr ⟨r, List.mem_of_find?_eq_some hb, List.find?_some hb⟩
        simp only [this]
      | none =>
        have : ((r₀ :: rs).any fun r => r.isBlocked) = false :=
          List.any_eq_false.mpr (List.find?_eq_none.mp hb)
        simp only [this]

/-- A slot that is unavailable before a block has one behind it. -/
theorem any_of_unavailableBeforeBlock {results : List RateLimitResult}
    (h : unavailableBeforeBlock results = true) :
    (results.any fun r => r.isBlocked) = true := by
  induction results with
  | nil => simp [unavailableBeforeBlock] at h
  | cons r rs ih =>
    simp only [unavailableBeforeBlock, Bool.or_eq_true, Bool.and_eq_true] at h
    rw [List.any_cons, Bool.or_eq_true]
    rcases h with h | h
    · exact Or.inr h.2
    · exact Or.inr (ih h)

/-- The merge of results that stop at a block is blocked when one of them is, unless an
unavailable one comes before it. -/
theorem merge_agrees_iff (now : ℤ) {results : List RateLimitResult}
    (h : StopsAtBlock results) :
    (mergeGroupedResults now results).isBlocked = (results.any fun r => r.isBlocked) ↔
      unavailableBeforeBlock results = false := by
  rw [isBlocked_mergeGroupedResults]
  induction results with
  | nil => simp [unavailableBeforeBlock]
  | cons r rs ih =>
    have hrs := ih h.2
    cases hb : r.isBlocked with
    | true =>
      -- the loop stopped here: nothing comes after
      obtain rfl : rs = [] := h.1 hb
      cases hu : r.storeUnavailable <;> simp [unavailableBeforeBlock, hb, hu]
    | false =>
      cases hu : r.storeUnavailable with
      | true =>
        simp only [List.find?_cons, hu, hb, List.any_cons, Bool.false_or,
          unavailableBeforeBlock, Bool.not_false, Bool.and_self, Bool.true_and]
        constructor
        · intro hany
          have hno : unavailableBeforeBlock rs ≠ true := fun hbad => by
            rw [any_of_unavailableBeforeBlock hbad] at hany
            exact Bool.noConfusion hany
          simpa [← hany] using hno
        · intro hnone
          rw [Bool.or_eq_false_iff] at hnone
          exact hnone.1.symm
      | false =>
        simpa [List.find?_cons, hu, hb, unavailableBeforeBlock] using hrs

/-! ## The consume -/

section Consume

variable [DecidableEq κ] {o : RateLimitOptions ρ σ κ} {key : κ} {req : ρ} {w : World σ κ}

/-- A consume that reaches the slots increments them and settles the outcome. -/
theorem consumeWithKey_grouped {w₁ : World σ κ} {results : List RateLimitResult}
    (hdraft : o.draft = false) (hwin : isWindowOpts o = true)
    (hslots : o.groupedWindowStores ≠ []) (hpol : policyResult o key req w = (none, w₁))
    (hres : incrementedResults key (resolveIncrementOpts o req) o.groupedWindowStores w₁.stores =
      .ok results) :
    ∃ (g : IncrementOutcome) (w₂ : World σ κ) (now : ℤ),
      consumeWithKey o key req w = settle o key req g w₂ ∧
        g.result = mergeGroupedResults now results := by
  obtain ⟨g, s', now, hloop, hg⟩ := groupedWindowsLoop_result o.clock
    o.groupedWindowStores [] hres
  refine ⟨g, { w₁ with stores := s' }, now, ?_, by simpa using hg⟩
  simp only [consumeWithKey, arrive, hpol, incrementStores, hwin, hslots, consumeGroupedWindows,
    hdraft, hloop, ne_eq, not_false_eq_true, and_self, if_true]

/-- Without draft mode, whatever a settled outcome answers is blocked as its result is. -/
theorem settle_isBlocked {g : IncrementOutcome} {r : RateLimitConsumeResult}
    (hdraft : o.draft = false) (h : (settle o key req g w).1 = .ok r) :
    r.isBlocked = g.result.isBlocked := by
  have hr : consumeResult g = r := by
    simp only [settle, hdraft, Bool.and_false, Bool.false_and] at h
    split at h
    · contradiction
    · split at h
      · split at h
        · simp at h
        · split at h
          · simp at h
          · simpa using h
      · simpa using h
  rw [← hr]
  rfl

/-- A settled outcome is answered unless an application callback throws. -/
theorem settle_ok {g : IncrementOutcome} (hdraft : o.draft = false)
    (hlayers : g.result.isBlocked = true → g.result.storeUnavailable = false →
      g.result.layers = none)
    (hhook : ∀ r, callHook o.onLimitReached req r = .ok ()) :
    ∃ r, (settle o key req g w).1 = .ok r := by
  simp only [settle, hdraft, Bool.and_false, Bool.false_and]
  split
  · contradiction
  · split
    · next h =>
      simp only [Bool.and_eq_true, Bool.not_eq_true'] at h
      have hl : maybeOnLayerBlocks o req g.result = .ok () := by
        unfold maybeOnLayerBlocks
        rw [hlayers h.1 h.2]
        split <;> simp_all
      rw [hl, hhook]
      exact ⟨_, rfl⟩
    · exact ⟨_, rfl⟩

/-- A merge that blocks without being unavailable carries no layers. -/
theorem layers_mergeGroupedResults (now : ℤ) (results : List RateLimitResult)
    (hu : (mergeGroupedResults now results).storeUnavailable = false) :
    (mergeGroupedResults now results).layers = none := by
  unfold mergeGroupedResults at *
  cases results with
  | nil => rfl
  | cons r₀ rs =>
    simp only at hu ⊢
    cases hf : (r₀ :: rs).find? fun r => r.storeUnavailable with
    | some u =>
      have := List.find?_some hf
      simp [hf, this] at hu
    | none => cases (r₀ :: rs).find? fun r => r.isBlocked <;> rfl

/-- **When grouped windows decide as their slots do.**  A consume of an engine without
draft mode that reaches its slots, none of which throws, is blocked if and only if an
incremented slot blocked, exactly when no slot was unavailable without blocking before a
slot that blocked.  It does answer, unless the `onLimitReached` callback throws.
SOURCE: src/strategies/rate-limit-engine.ts:309-347, 595-644, 688-732 -/
theorem grouped_decision_agrees_iff (w₁ : World σ κ) (results : List RateLimitResult)
    (hdraft : o.draft = false) (hwin : isWindowOpts o = true)
    (hslots : o.groupedWindowStores ≠ []) (hpol : policyResult o key req w = (none, w₁))
    (hres : incrementedResults key (resolveIncrementOpts o req) o.groupedWindowStores w₁.stores =
      .ok results) :
    ((∀ r, (consumeWithKey o key req w).1 = .ok r →
        (r.isBlocked = true ↔ ∃ x ∈ results, x.isBlocked = true)) ↔
      unavailableBeforeBlock results = false) ∧
    ((∀ r, callHook o.onLimitReached req r = .ok ()) →
      ∃ r, (consumeWithKey o key req w).1 = .ok r) := by
  obtain ⟨g, w₂, now, hcon, hg⟩ := consumeWithKey_grouped hdraft hwin hslots hpol hres
  have hmerge := merge_agrees_iff now (stopsAtBlock_incrementedResults hres)
  have hany : (∃ x ∈ results, x.isBlocked = true) ↔
      (results.any fun r => r.isBlocked) = true := List.any_eq_true.symm
  rw [hcon]
  refine ⟨⟨fun hall => ?_, fun hcond r hr => ?_⟩, fun hhook => ?_⟩
  · -- an allowed outcome is always answered, so a disagreement would show
    rw [← hmerge]
    by_contra hne
    have hallowed : (mergeGroupedResults now results).isBlocked = false := by
      by_contra hblk
      rw [Bool.not_eq_false] at hblk
      rw [isBlocked_mergeGroupedResults] at hblk hne
      cases hf : results.find? fun r => r.storeUnavailable with
      | none => simp [hf] at hne
      | some u =>
        rw [hf] at hblk hne
        have : (results.any fun r => r.isBlocked) = true :=
          List.any_eq_true.mpr ⟨u, List.mem_of_find?_eq_some hf, hblk⟩
        exact hne (hblk.trans this.symm)
    have hok : (settle o key req g w₂).1 = .ok (consumeResult g) := by
      simp [settle, hg, hallowed]
    have hiff := hall _ hok
    rw [hany] at hiff
    have : (consumeResult g).isBlocked = (mergeGroupedResults now results).isBlocked := by
      rw [← hg]
      rfl
    exact hne (Bool.eq_iff_iff.mpr (this ▸ hiff))
  · rw [settle_isBlocked hdraft hr, hg, hmerge.mpr hcond, hany]
  · refine settle_ok hdraft (fun _ hu => ?_) hhook
    rw [hg] at hu ⊢
    exact layers_mergeGroupedResults now results hu

end Consume

/-! ## Stores with one answer -/

/-- A store that answers every increment with `r`. -/
def constantStore (r : RateLimitResult) : RateLimitStore Unit ℕ where
  increment _ _ s := (.ok r, s)
  decrement _ _ s := s

/-- A store that let the request pass because its database is down. -/
def failedOpen : RateLimitResult := ⟨0, 10, 1000, false, true, none, none, none⟩

/-- A store whose window is used up. -/
def usedUp : RateLimitResult := ⟨11, 0, 1000, true, false, none, none, none⟩

/-- An engine over two slots with these answers. -/
def twoSlots (r₁ r₂ : RateLimitResult) : RateLimitOptions Unit Unit ℕ where
  clock _ := 0
  store := constantStore r₁
  groupedWindowStores := [⟨1000, 10, constantStore r₁⟩, ⟨60000, 10, constantStore r₂⟩]

/-- A slot that blocks first decides, whatever the availability of the slots after it. -/
theorem grouped_decision_agrees_iff_twoSlots :
    unavailableBeforeBlock [usedUp] = false ∧
      ∀ r, (consumeWithKey (twoSlots usedUp failedOpen) 7 () ⟨{}, ()⟩).1 = .ok r →
        (r.isBlocked = true ↔ ∃ x ∈ [usedUp], x.isBlocked = true) :=
  ⟨rfl, (grouped_decision_agrees_iff (o := twoSlots usedUp failedOpen) ⟨{}, ()⟩ [usedUp] rfl
    (by decide) (by simp [twoSlots]) rfl rfl).1.mpr rfl⟩

/-- A slot that failed open hides the block of a later slot: the request is allowed. -/
theorem grouped_decision_hides_block :
    ¬ ∀ (o : RateLimitOptions Unit Unit ℕ) (key : ℕ) (w w₁ : World Unit ℕ)
      (results : List RateLimitResult), o.draft = false → isWindowOpts o = true →
      o.groupedWindowStores ≠ [] → policyResult o key () w = (none, w₁) →
      incrementedResults key (resolveIncrementOpts o ()) o.groupedWindowStores w₁.stores =
        .ok results →
      ∀ r, (consumeWithKey o key () w).1 = .ok r →
        (r.isBlocked = true ↔ ∃ x ∈ results, x.isBlocked = true) := by
  intro h
  have := h (twoSlots failedOpen usedUp) 7 ⟨{}, ()⟩ ⟨{}, ()⟩ [failedOpen, usedUp] rfl (by decide)
    (by simp [twoSlots]) rfl rfl { toRateLimitResult := failedOpen, bindingSlotIndex := some 1 } rfl
  simp [failedOpen, usedUp] at this

end RatelimitFlex
