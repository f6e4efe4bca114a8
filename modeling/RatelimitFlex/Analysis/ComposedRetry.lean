import RatelimitFlex.Analysis.ComposedSteps

/-!
# When a blocked increment of mode `all` may be repeated

Over fixed windows a layer is a slice: what it counts, when it ends, and its cap
(`SliceView`).  A blocked result names the earliest end among the slices that block.  From
then on only that slice has made room: `EndTogether` says when all of them have.
-/

set_option autoImplicit false

namespace RatelimitFlex

open Library

variable {κ : Type} [DecidableEq κ]

/-! ## The least and the greatest of a list -/

/-- A running minimum is below every number it has seen. -/
theorem foldl_min_le (xs : List ℤ) (a : ℤ) : xs.foldl min a ≤ a ∧ ∀ x ∈ xs, xs.foldl min a ≤ x := by
  induction xs generalizing a with
  | nil => simp
  | cons x xs ih =>
    obtain ⟨hle, hall⟩ := ih (min a x)
    refine ⟨hle.trans (min_le_left _ _), fun y hy => ?_⟩
    rcases List.mem_cons.mp hy with rfl | hy
    · exact hle.trans (min_le_right _ _)
    · exact hall y hy

/-- It is one of them. -/
theorem foldl_min_mem (xs : List ℤ) (a : ℤ) : xs.foldl min a = a ∨ xs.foldl min a ∈ xs := by
  induction xs generalizing a with
  | nil => exact Or.inl rfl
  | cons x xs ih =>
    rcases ih (min a x) with h | h
    · rcases min_choice a x with hm | hm
      · exact Or.inl (h.trans hm)
      · right
        rw [List.foldl_cons, h, hm]
        exact List.mem_cons_self
    · exact Or.inr (List.mem_cons_of_mem _ h)

/-- The minimum is below every number. -/
theorem minimum_le {xs : List ℤ} {x : ℤ} (h : x ∈ xs) : minimum xs ≤ x := by
  cases xs with
  | nil => simp at h
  | cons y ys =>
    obtain ⟨hy, hys⟩ := foldl_min_le ys y
    rcases List.mem_cons.mp h with rfl | h
    · exact hy
    · exact hys x h

/-- It is one of them. -/
theorem minimum_mem {xs : List ℤ} (h : xs ≠ []) : minimum xs ∈ xs := by
  cases xs with
  | nil => exact absurd rfl h
  | cons y ys =>
    rcases foldl_min_mem ys y with heq | hmem
    · rw [minimum, heq]
      exact List.mem_cons_self
    · exact List.mem_cons_of_mem _ hmem

/-! ## A layer's slice -/

/-- What is counted in a slice, when it ends, and the cap. -/
structure SliceView where
  count : ℤ
  ends : ℤ
  cap : ℕ

/-- The slice an increment at `now` counts in; a new one where none is open. -/
def SliceView.of (o : WindowOptions) (now : ℤ) (maxOverride : Option JsNumber)
    (e : Option FixedEntry) : SliceView :=
  match e.filter fun x => decide (now < x.resetTime) with
  | some x => ⟨x.count, x.resetTime, o.cap maxOverride⟩
  | none => ⟨0, now + o.windowMs, o.cap maxOverride⟩

namespace SliceView

variable {o : WindowOptions} {now t : ℤ} {maxOverride : Option JsNumber} {e : Option FixedEntry}

/-- A slice that is over counts nothing and starts anew. -/
theorem of_some (x : FixedEntry) :
    of o now maxOverride (some x) =
      if now < x.resetTime then ⟨x.count, x.resetTime, o.cap maxOverride⟩
      else ⟨0, now + o.windowMs, o.cap maxOverride⟩ := by
  by_cases hx : now < x.resetTime <;> simp [of, Option.filter, hx]

/-- An increment adds its cost to the slice. -/
theorem fixedAfterIncrement_eq_of (cost : ℕ) :
    fixedAfterIncrement o now cost e =
      ⟨(of o now maxOverride e).count + cost, (of o now maxOverride e).ends⟩ := by
  cases e with
  | none => simp [fixedAfterIncrement, of]
  | some x =>
    by_cases hx : x.resetTime ≤ now
    · simp [fixedAfterIncrement, of, Option.filter, hx, not_lt.mpr hx]
    · simp [fixedAfterIncrement, of, Option.filter, hx, not_le.mp hx]

/-- A slice counts no less than nothing. -/
theorem count_nonneg (h : (Cell.fixed o e).Legal now) : 0 ≤ (of o now maxOverride e).count := by
  cases e with
  | none => simp [of]
  | some x =>
    by_cases hx : now < x.resetTime
    · simpa [of, Option.filter, hx] using h x rfl
    · simp [of, Option.filter, hx]

/-- What is counted later, by what the increment left. -/
theorem count_charged (cost : ℕ) :
    (of o t maxOverride (some (fixedAfterIncrement o now cost e))).count =
      if t < (of o now maxOverride e).ends then (of o now maxOverride e).count + cost else 0 := by
  rw [@fixedAfterIncrement_eq_of o now maxOverride e, of_some]
  split <;> rfl

/-- Charged and restored, a slice counts what it did until it ends. -/
theorem count_restored {cost : ℕ} (hcost : 1 ≤ cost) (hcount : 0 ≤ (of o now maxOverride e).count) :
    (of o t maxOverride (fixedAfterDecrement cost
      (some (fixedAfterIncrement o now cost e)))).count =
      if t < (of o now maxOverride e).ends then (of o now maxOverride e).count else 0 := by
  rw [@fixedAfterIncrement_eq_of o now maxOverride e]
  set v := of o now maxOverride e
  rw [fixedAfterDecrement, if_neg (by simp only; omega)]
  by_cases h0 : v.count = 0
  · rw [if_pos (by simp only; omega), h0, ite_self]
    rfl
  · rw [if_neg (by simp only; omega), add_sub_cancel_right, of_some]
    split <;> rfl

/-- The cap of a slice is the one asked for. -/
theorem cap_of : (of o t maxOverride e).cap = o.cap maxOverride := by
  unfold of
  split <;> rfl

end SliceView

namespace MemoryStore

/-- The store is a fixed window. -/
def IsFixed : MemoryStore κ → Prop
  | .fixed _ _ => True
  | _ => False

/-- The slice of a key that an increment with these options counts in. -/
def slice (now : ℤ) (key : κ) (options : RateLimitIncrementOptions) : MemoryStore κ → SliceView
  | .fixed o t => SliceView.of o now options.maxRequests (t.state.lookup key)
  | _ => ⟨0, 0, 0⟩

variable {m : MemoryStore κ} {now t : ℤ} {key : κ} {options : RateLimitIncrementOptions}

/-- The answer of a fixed window, by its slice. -/
theorem increment_snd_of_slice (h : m.IsFixed) :
    (m.increment now key options).2 =
      RateLimitResult.ofUsage ((m.slice now key options).count + options.sanitizedCost)
        (m.slice now key options).cap (m.slice now key options).ends := by
  cases m with
  | sliding o table => exact h.elim
  | bucket o table => exact h.elim
  | fixed o table =>
    simp only [increment, incrementFixed_snd, slice,
      @SliceView.fixedAfterIncrement_eq_of o now options.maxRequests, SliceView.cap_of]

/-- Stores with the same cell of a key have the same slice of it. -/
theorem slice_congr {m' : MemoryStore κ} (h : m.cell key = m'.cell key) :
    m.slice t key options = m'.slice t key options := by
  cases m <;> cases m' <;> simp_all [cell, slice]

/-- A charged layer counts its cost more until the slice ends. -/
theorem slice_charged (h : m.IsFixed) :
    ((m.increment now key options).1.slice t key options).count =
      (if t < (m.slice now key options).ends then
        (m.slice now key options).count + options.sanitizedCost else 0) ∧
    ((m.increment now key options).1.slice t key options).cap =
      (m.slice now key options).cap := by
  cases m with
  | sliding o table => exact h.elim
  | bucket o table => exact h.elim
  | fixed o table =>
    simp only [increment, slice, lookup_incrementFixed_self]
    exact ⟨SliceView.count_charged _, by rw [SliceView.cap_of, SliceView.cap_of]⟩

/-- A restored layer counts what it did. -/
theorem slice_restored {dec : RateLimitDecrementOptions} (h : m.IsFixed)
    (hcost : dec.sanitizedCost = options.sanitizedCost) (hlegal : (m.cell key).Legal now) :
    (((m.increment now key options).1.decrement key dec).slice t key options).count =
      (if t < (m.slice now key options).ends then (m.slice now key options).count else 0) ∧
    (((m.increment now key options).1.decrement key dec).slice t key options).cap =
      (m.slice now key options).cap := by
  cases m with
  | sliding o table => exact h.elim
  | bucket o table => exact h.elim
  | fixed o table =>
    simp only [increment, decrement, slice, lookup_decrementFixed, if_true,
      lookup_incrementFixed_self, hcost]
    exact ⟨SliceView.count_restored options.one_le_sanitizedCost (SliceView.count_nonneg hlegal),
      by rw [SliceView.cap_of, SliceView.cap_of]⟩

/-- A store with a fixed window has one when its cell is the same. -/
theorem isFixed_of_cell {m' : MemoryStore κ} (h : m.cell key = m'.cell key) (hm : m.IsFixed) :
    m'.IsFixed := by
  cases m <;> cases m' <;> simp_all [cell, IsFixed]

/-- An increment, whatever it does to a layer, leaves a fixed window. -/
theorem isFixed_apply (h : m.IsFixed) (dec : RateLimitDecrementOptions) (e : LayerEffect) :
    (e.apply now key options dec m).IsFixed := by
  cases m with
  | sliding o table => exact h.elim
  | bucket o table => exact h.elim
  | fixed o table => cases e <;> trivial

end MemoryStore

/-! ## The answer of mode `all` -/

namespace Composition

variable {c : Composition κ} {key : κ} {options : RateLimitIncrementOptions}

/-- The answer, from what the layers answer. -/
theorem increment_all_fst (hmode : c.mode = .all) (st : ComposedState (StoreBank κ) κ) :
    (c.store.increment key options st).1 =
      .ok (if isRefused (c.answers key options st.inner) then
          c.store.blockedAll st.inner.now (c.answers key options st.inner)
        else c.store.allowedAll st.inner.now (c.answers key options st.inner)) := by
  have hne : c.mode ≠ .overflow := by simp [hmode]
  have hm : c.store.mode = .all := hmode
  have hlayers : c.store.layers = layersFrom 0 c.specs := rfl
  have hclock : c.store.clock = StoreBank.now := rfl
  simp only [ComposedStore.increment, hm, ComposedStore.incrementAll, hlayers,
    incrementLayers_bank, hclock, StoreBank.now_mapStores]
  rw [← answers_eq hne, show ((c.answers key options st.inner).any isRejected ||
    (c.answers key options st.inner).any blocks) = isRefused (c.answers key options st.inner)
    from rfl]
  cases isRefused (c.answers key options st.inner) <;> rfl

/-- No layer rejects. -/
def Up (c : Composition κ) (s : StoreBank κ) : Prop :=
  ∀ j spec, c.specs[j]? = some spec → s.failing j = none

/-- Where every store works, a layer answers with the increment of its store. -/
theorem answer_of_up {s : StoreBank κ} (hup : c.Up s) {j : ℕ} {spec : LayerSpec κ}
    (hspec : c.specs[j]? = some spec) :
    c.answer key options s j spec = .ok ((s.stores j).increment s.now (c.targetKey key j spec)
      (spec.incrementOptions options)).2 := by
  simp only [answer, hup j spec hspec]

/-- The answers are those of the layers. -/
theorem mem_answers {s : StoreBank κ} {a : Except StoreError RateLimitResult} :
    a ∈ c.answers key options s ↔
      ∃ j spec, c.specs[j]? = some spec ∧ a = c.answer key options s j spec := by
  rw [List.mem_iff_getElem?]
  constructor
  · rintro ⟨j, hj⟩
    rw [getElem?_answers] at hj
    obtain ⟨spec, hspec, rfl⟩ := Option.map_eq_some_iff.mp hj
    exact ⟨j, spec, hspec, rfl⟩
  · rintro ⟨j, spec, hspec, rfl⟩
    exact ⟨j, by rw [getElem?_answers, hspec, Option.map_some]⟩

/-- When no layer rejects the increment is refused just when a layer blocks. -/
theorem isRefused_of_up {s : StoreBank κ} (hup : c.Up s) :
    isRefused (c.answers key options s) = true ↔
      ∃ j spec, c.specs[j]? = some spec ∧ ((s.stores j).increment s.now (c.targetKey key j spec)
        (spec.incrementOptions options)).2.isBlocked = true := by
  rw [isRefused, Bool.or_eq_true, List.any_eq_true, List.any_eq_true]
  constructor
  · rintro (⟨a, ha, hrej⟩ | ⟨a, ha, hb⟩)
    · obtain ⟨j, spec, hspec, rfl⟩ := mem_answers.mp ha
      rw [answer_of_up hup hspec] at hrej
      simp [isRejected] at hrej
    · obtain ⟨j, spec, hspec, rfl⟩ := mem_answers.mp ha
      rw [answer_of_up hup hspec] at hb
      exact ⟨j, spec, hspec, hb⟩
  · rintro ⟨j, spec, hspec, hb⟩
    exact Or.inr ⟨_, mem_answers.mpr ⟨j, spec, hspec, rfl⟩, by rw [answer_of_up hup hspec]; exact hb⟩

/-- The reset time of a refusal is the earliest among the layers that block. -/
theorem resetTime_blockedAll {s : StoreBank κ} (hup : c.Up s)
    (hrefused : isRefused (c.answers key options s) = true) (now : ℤ) :
    (∀ j spec, c.specs[j]? = some spec → ((s.stores j).increment s.now (c.targetKey key j spec)
        (spec.incrementOptions options)).2.isBlocked = true →
      (c.store.blockedAll now (c.answers key options s)).resetTime ≤
        ((s.stores j).increment s.now (c.targetKey key j spec)
          (spec.incrementOptions options)).2.resetTime) ∧
    ∃ j spec, c.specs[j]? = some spec ∧ ((s.stores j).increment s.now (c.targetKey key j spec)
        (spec.incrementOptions options)).2.isBlocked = true ∧
      (c.store.blockedAll now (c.answers key options s)).resetTime =
        ((s.stores j).increment s.now (c.targetKey key j spec)
          (spec.incrementOptions options)).2.resetTime := by
  have hmem : ∀ r, r ∈ (ComposedStore.fulfilled (c.answers key options s)).filter
      (fun r => r.isBlocked) ↔ ∃ j spec, c.specs[j]? = some spec ∧ r.isBlocked = true ∧
        r = ((s.stores j).increment s.now (c.targetKey key j spec)
          (spec.incrementOptions options)).2 := by
    intro r
    rw [List.mem_filter, ComposedStore.fulfilled, List.mem_filterMap]
    constructor
    · rintro ⟨⟨a, ha, hr⟩, hb⟩
      obtain ⟨j, spec, hspec, rfl⟩ := mem_answers.mp ha
      rw [answer_of_up hup hspec] at hr
      exact ⟨j, spec, hspec, hb, (Option.some.inj hr).symm⟩
    · rintro ⟨j, spec, hspec, hb, rfl⟩
      exact ⟨⟨_, mem_answers.mpr ⟨j, spec, hspec, rfl⟩, by rw [answer_of_up hup hspec]; rfl⟩, hb⟩
  obtain ⟨j₀, spec₀, hspec₀, hb₀⟩ := (isRefused_of_up hup).mp hrefused
  have hne : (ComposedStore.fulfilled (c.answers key options s)).filter
      (fun r => r.isBlocked) ≠ [] :=
    List.ne_nil_of_mem ((hmem _).mpr ⟨j₀, spec₀, hspec₀, hb₀, rfl⟩)
  simp only [ComposedStore.blockedAll, if_pos hne]
  constructor
  · intro j spec hspec hb
    apply minimum_le
    exact List.mem_map.mpr ⟨_, (hmem _).mpr ⟨j, spec, hspec, hb, rfl⟩, rfl⟩
  · obtain ⟨r, hr, heq⟩ := List.mem_map.mp (minimum_mem (fun h => hne (List.map_eq_nil_iff.mp h)))
    obtain ⟨j, spec, hspec, hb, rfl⟩ := (hmem r).mp hr
    exact ⟨j, spec, hspec, hb, heq.symm⟩

/-! ## The condition -/

variable (c key options) in
/-- The slice that layer `j` counts the increment in. -/
def slice (s : StoreBank κ) (j : ℕ) (spec : LayerSpec κ) : SliceView :=
  (s.stores j).slice s.now (c.targetKey key j spec) (spec.incrementOptions options)

variable (c key options) in
/-- With this increment the layer's slice is over its cap. -/
def Over (s : StoreBank κ) (j : ℕ) (spec : LayerSpec κ) : Prop :=
  ((c.slice key options s j spec).cap : ℤ) <
    (c.slice key options s j spec).count + options.sanitizedCost

instance (s : StoreBank κ) (j : ℕ) (spec : LayerSpec κ) :
    Decidable (c.Over key options s j spec) := inferInstanceAs (Decidable (_ < _))

variable (c key options) in
/-- The slices that are over their caps end together; and without rollback a slice with
room ends by then too, or has room for the increment twice. -/
def EndTogether (s : StoreBank κ) : Prop :=
  ∀ j spec, c.specs[j]? = some spec → c.Over key options s j spec →
    ∀ j' spec', c.specs[j']? = some spec' →
      (c.slice key options s j' spec').ends ≤ (c.slice key options s j spec).ends ∨
      ¬ c.Over key options s j' spec' ∧ (c.rollbackOnBlock = true ∨
        (c.slice key options s j' spec').count + 2 * options.sanitizedCost ≤
          (c.slice key options s j' spec').cap)

variable (c key) in
/-- Nothing has touched the key in between. -/
def Untouched (st st' : ComposedState (StoreBank κ) κ) : Prop :=
  c.Up st'.inner ∧ ∀ j spec, c.specs[j]? = some spec →
    (st'.inner.stores j).cell (c.targetKey key j spec) =
      (st.inner.stores j).cell (c.targetKey key j spec)

variable (c key options) in
/-- From `t` on the same increment is allowed. -/
def RetryAllowed (t : ℤ) (st : ComposedState (StoreBank κ) κ) : Prop :=
  ∀ st', c.Untouched key st st' → t ≤ st'.inner.now →
    ∃ r, (c.store.increment key options st').1 = .ok r ∧ r.isBlocked = false

section Retry

variable {st : ComposedState (StoreBank κ) κ} {j : ℕ} {spec : LayerSpec κ}

/-- A layer of fixed windows blocks just when its slice goes over the cap. -/
theorem isBlocked_iff_over {s : StoreBank κ} (hfixed : (s.stores j).IsFixed) :
    ((s.stores j).increment s.now (c.targetKey key j spec)
      (spec.incrementOptions options)).2.isBlocked = true ↔ c.Over key options s j spec := by
  rw [MemoryStore.increment_snd_of_slice hfixed, RateLimitResult.isBlocked_ofUsage,
    decide_eq_true_eq]
  rfl

/-- What a refused increment leaves of a layer's slice. -/
theorem slice_of_refused (hmode : c.mode = .all) (hup : c.Up st.inner)
    (hspec : c.specs[j]? = some spec) (hfixed : (st.inner.stores j).IsFixed)
    (hlegal : ((st.inner.stores j).cell (c.targetKey key j spec)).Legal st.inner.now)
    (hrefused : isRefused (c.answers key options st.inner) = true) (t : ℤ) :
    let v := c.slice key options st.inner j spec
    let v' := (((c.store.increment key options st).2).inner.stores j).slice t
      (c.targetKey key j spec) (spec.incrementOptions options)
    v'.cap = v.cap ∧ v'.count =
      if t < v.ends then
        if c.rollbackOnBlock = true ∧ ¬ c.Over key options st.inner j spec then v.count
        else v.count + options.sanitizedCost
      else 0 := by
  have hstep := (stepped_increment c key options st).stores j spec hspec
  have hanswer := @answer_of_up _ _ _ key options _ hup _ _ hspec
  have hover := @isBlocked_iff_over _ _ c key options _ spec _ hfixed
  simp only [effect, getElem?_answers, hspec, Option.map_some, Option.all_some, Option.any_some,
    hmode, hrefused, Bool.and_true, hanswer, isRejected, Bool.false_eq_true, if_false,
    allows] at hstep
  have hcost : (spec.rollbackOptions options).sanitizedCost =
      (spec.incrementOptions options).sanitizedCost :=
    sanitizedCost_matchingDecrementOptions (spec.incrementOptions options)
  by_cases hroll : c.rollbackOnBlock = true ∧ ¬ c.Over key options st.inner j spec
  · have hallow : ((st.inner.stores j).increment st.inner.now (c.targetKey key j spec)
        (spec.incrementOptions options)).2.isBlocked = false := by
      rw [← Bool.not_eq_true, hover]
      exact hroll.2
    rw [hroll.1, hallow] at hstep
    simp only [Bool.not_false, Bool.and_true, if_true, LayerEffect.apply] at hstep
    obtain ⟨hcount, hcap⟩ := MemoryStore.slice_restored (t := t) hfixed hcost hlegal
    rw [hstep]
    refine ⟨hcap, hcount.trans ?_⟩
    rw [if_pos hroll]
    rfl
  · have hcharged : (c.rollbackOnBlock && !((st.inner.stores j).increment st.inner.now
        (c.targetKey key j spec) (spec.incrementOptions options)).2.isBlocked) = false := by
      rw [Bool.and_eq_false_iff, Bool.not_eq_false', hover]
      by_cases hon : c.rollbackOnBlock = true
      · exact Or.inr (by_contra fun hno => hroll ⟨hon, hno⟩)
      · exact Or.inl (Bool.not_eq_true _ ▸ hon)
    rw [hcharged] at hstep
    simp only [Bool.false_eq_true, if_false, LayerEffect.apply] at hstep
    obtain ⟨hcount, hcap⟩ := @MemoryStore.slice_charged _ _ _ st.inner.now t
      (c.targetKey key j spec) (spec.incrementOptions options) hfixed
    rw [hstep]
    refine ⟨hcap, hcount.trans ?_⟩
    rw [if_neg hroll]
    rfl

/-- An increment over fixed windows is allowed exactly when none of them goes over its cap. -/
theorem allowed_iff_not_over (hmode : c.mode = .all) (hup : c.Up st.inner)
    (hfixed : ∀ j spec, c.specs[j]? = some spec → (st.inner.stores j).IsFixed) :
    (∃ r, (c.store.increment key options st).1 = .ok r ∧ r.isBlocked = false) ↔
      ∀ j spec, c.specs[j]? = some spec → ¬ c.Over key options st.inner j spec := by
  have hblocks : isRefused (c.answers key options st.inner) = true ↔
      ∃ j spec, c.specs[j]? = some spec ∧ c.Over key options st.inner j spec := by
    rw [isRefused_of_up hup]
    apply exists_congr
    intro j
    apply exists_congr
    intro spec
    exact and_congr_right fun hspec => isBlocked_iff_over (hfixed j spec hspec)
  rw [increment_all_fst hmode]
  constructor
  · rintro ⟨r, hr, hok⟩ j spec hspec hover
    rw [if_pos (hblocks.mpr ⟨j, spec, hspec, hover⟩)] at hr
    rw [← Except.ok.inj hr] at hok
    simp [ComposedStore.blockedAll] at hok
  · intro hall
    rw [if_neg]
    · exact ⟨_, rfl, rfl⟩
    · intro hrefused
      obtain ⟨j, spec, hspec, hover⟩ := hblocks.mp hrefused
      exact hall j spec hspec hover

end Retry

/-! ## A refusal -/

variable (c key options) in
/-- A refused increment, by the slices before it: its reset time is the earliest end of one that
is over its cap, and what it leaves of each as long as nothing touches the key. -/
structure Refusal (st st₁ : ComposedState (StoreBank κ) κ) (resetTime : ℤ) : Prop where
  up : c.Up st₁.inner
  least : ∀ {j spec}, c.specs[j]? = some spec → c.Over key options st.inner j spec →
    resetTime ≤ (c.slice key options st.inner j spec).ends
  attained : ∃ j spec, c.specs[j]? = some spec ∧ c.Over key options st.inner j spec ∧
    resetTime = (c.slice key options st.inner j spec).ends
  isFixed : ∀ {st'}, c.Untouched key st₁ st' → ∀ j spec, c.specs[j]? = some spec →
    (st'.inner.stores j).IsFixed
  later : ∀ {st'}, c.Untouched key st₁ st' → ∀ {j spec}, c.specs[j]? = some spec →
    let v := c.slice key options st.inner j spec
    (c.slice key options st'.inner j spec).cap = v.cap ∧
    (c.slice key options st'.inner j spec).count =
      if st'.inner.now < v.ends then
        if c.rollbackOnBlock = true ∧ ¬ c.Over key options st.inner j spec then v.count
        else v.count + options.sanitizedCost
      else 0

section Refusals

variable {st st₁ : ComposedState (StoreBank κ) κ} {r : RateLimitResult}

/-- The reset time of a refusal is the earliest end of a slice that is over its cap. -/
theorem resetTime_refused (hmode : c.mode = .all) (hup : c.Up st.inner)
    (hfixed : ∀ j spec, c.specs[j]? = some spec → (st.inner.stores j).IsFixed)
    (hinc : (c.store.increment key options st).1 = .ok r)
    (hrefused : isRefused (c.answers key options st.inner) = true) :
    (∀ {j spec}, c.specs[j]? = some spec → c.Over key options st.inner j spec →
      r.resetTime ≤ (c.slice key options st.inner j spec).ends) ∧
    ∃ j spec, c.specs[j]? = some spec ∧ c.Over key options st.inner j spec ∧
      r.resetTime = (c.slice key options st.inner j spec).ends := by
  have hr := (increment_all_fst hmode st).symm.trans hinc
  rw [if_pos hrefused] at hr
  obtain ⟨hleast, j₀, spec₀, hspec₀, hb₀, heq₀⟩ :=
    @resetTime_blockedAll _ _ _ key options _ hup hrefused st.inner.now
  rw [Except.ok.inj hr] at hleast heq₀
  have hends : ∀ {j spec}, c.specs[j]? = some spec →
      ((st.inner.stores j).increment st.inner.now (c.targetKey key j spec)
        (spec.incrementOptions options)).2.resetTime = (c.slice key options st.inner j spec).ends := by
    intro j spec hspec
    rw [MemoryStore.increment_snd_of_slice (hfixed j spec hspec)]
    rfl
  constructor
  · intro j spec hspec hover
    rw [← hends hspec]
    exact hleast j spec hspec ((isBlocked_iff_over (hfixed j spec hspec)).mpr hover)
  · exact ⟨j₀, spec₀, hspec₀, (isBlocked_iff_over (hfixed j₀ spec₀ hspec₀)).mp hb₀,
      heq₀.trans (hends hspec₀)⟩

/-- **A blocked increment over fixed windows is a refusal.** -/
theorem refusal_of_blocked (hmode : c.mode = .all) (hup : c.Up st.inner)
    (hfixed : ∀ j spec, c.specs[j]? = some spec → (st.inner.stores j).IsFixed ∧
      Reachable st.inner.now (st.inner.stores j))
    (hinc : c.store.increment key options st = (.ok r, st₁)) (hblocked : r.isBlocked = true) :
    c.Refusal key options st st₁ r.resetTime := by
  have hfst : (c.store.increment key options st).1 = .ok r := by rw [hinc]
  have hst₁ : (c.store.increment key options st).2 = st₁ := by rw [hinc]
  have hstep := stepped_increment c key options st
  have hrefused : isRefused (c.answers key options st.inner) = true := by
    by_contra hno
    have hr := (increment_all_fst hmode st).symm.trans hfst
    rw [if_neg hno] at hr
    rw [← Except.ok.inj hr] at hblocked
    simp [ComposedStore.allowedAll] at hblocked
  obtain ⟨hleast, hattained⟩ := resetTime_refused hmode hup (fun j spec h => (hfixed j spec h).1)
    hfst hrefused
  refine ⟨?_, hleast, hattained, ?_, ?_⟩
  · intro j spec hspec
    rw [← hst₁, hstep.failing]
    exact hup j spec hspec
  · intro st' huntouched j spec hspec
    refine MemoryStore.isFixed_of_cell (huntouched.2 j spec hspec).symm ?_
    rw [← hst₁, hstep.stores j spec hspec]
    exact MemoryStore.isFixed_apply (hfixed j spec hspec).1 _ _
  · intro st' huntouched j spec hspec
    have hview := @slice_of_refused _ _ _ key options _ _ _ hmode hup hspec
      (hfixed j spec hspec).1 ((hfixed j spec hspec).2.legal _) hrefused st'.inner.now
    rw [hst₁, ← MemoryStore.slice_congr (huntouched.2 j spec hspec)] at hview
    exact hview

variable {resetTime : ℤ}

/-- Repeated at the reset time itself, the increment is allowed only if the slices end together. -/
theorem Refusal.endTogether (h : c.Refusal key options st st₁ resetTime) (hmode : c.mode = .all)
    (hretry : c.RetryAllowed key options resetTime st₁) : c.EndTogether key options st.inner := by
  intro j spec hspec hover j' spec' hspec'
  let st' : ComposedState (StoreBank κ) κ :=
    { st₁ with inner := { st₁.inner with now := resetTime } }
  have huntouched : c.Untouched key st₁ st' := ⟨h.up, fun j spec hspec => rfl⟩
  have hnot := (allowed_iff_not_over hmode huntouched.1 (h.isFixed huntouched)).mp
    (hretry st' huntouched le_rfl) j' spec' hspec'
  obtain ⟨hcap, hcount⟩ := h.later huntouched hspec'
  by_cases hends' : (c.slice key options st.inner j' spec').ends ≤
      (c.slice key options st.inner j spec).ends
  · exact Or.inl hends'
  · right
    have hle := h.least hspec hover
    rw [Over, hcap, hcount, if_pos (show st'.inner.now < _ by simp only [st']; omega)] at hnot
    by_cases hover' : c.Over key options st.inner j' spec'
    · rw [if_neg (fun h => h.2 hover')] at hnot
      simp only [Over] at hover'
      omega
    · refine ⟨hover', ?_⟩
      by_cases hroll : c.rollbackOnBlock = true
      · exact Or.inl hroll
      · rw [if_neg (fun h => hroll h.1)] at hnot
        right
        omega

/-- If they do, no slice is over its cap from then on. -/
theorem Refusal.retryAllowed (h : c.Refusal key options st st₁ resetTime) (hmode : c.mode = .all)
    (hcost : ∀ j spec, c.specs[j]? = some spec →
      options.sanitizedCost ≤ (c.slice key options st.inner j spec).cap)
    (htogether : c.EndTogether key options st.inner) :
    c.RetryAllowed key options resetTime st₁ := by
  intro st' huntouched hnow
  rw [allowed_iff_not_over hmode huntouched.1 (h.isFixed huntouched)]
  intro j' spec' hspec'
  obtain ⟨j₀, spec₀, hspec₀, hover₀, hreset⟩ := h.attained
  obtain ⟨hcap, hcount⟩ := h.later huntouched hspec'
  have hfits := hcost j' spec' hspec'
  rw [Over, hcap, hcount]
  rcases htogether j₀ spec₀ hspec₀ hover₀ j' spec' hspec' with hends' | ⟨hover', hroll | hroom⟩
  · rw [if_neg (by omega)]
    omega
  · rw [if_pos (And.intro hroll hover')]
    simp only [Over] at hover'
    split <;> omega
  · simp only [Over] at hover'
    by_cases hroll : c.rollbackOnBlock = true ∧ ¬ c.Over key options st.inner j' spec'
    · rw [if_pos hroll]
      split <;> omega
    · rw [if_neg hroll]
      split <;> omega

end Refusals

/-- **When a refused increment may be repeated.**  In mode `all` over fixed windows, with a
cost that no cap excludes, the increment is allowed at any time from the reset time of the
refusal on if and only if the slices that were over their caps end together.
SOURCE: src/composition/ComposedStore.ts:433-495, src/stores/memory-store.ts:869-907 -/
theorem composedAll_retry_iff (c : Composition κ) (hmode : c.mode = .all) (key : κ)
    (options : RateLimitIncrementOptions) (st : ComposedState (StoreBank κ) κ)
    (hup : c.Up st.inner)
    (hfixed : ∀ j spec, c.specs[j]? = some spec → (st.inner.stores j).IsFixed ∧
      Reachable st.inner.now (st.inner.stores j))
    (hcost : ∀ j spec, c.specs[j]? = some spec →
      options.sanitizedCost ≤ (c.slice key options st.inner j spec).cap)
    {r : RateLimitResult} {st₁ : ComposedState (StoreBank κ) κ}
    (hinc : c.store.increment key options st = (.ok r, st₁)) (hblocked : r.isBlocked = true) :
    c.RetryAllowed key options r.resetTime st₁ ↔ c.EndTogether key options st.inner := by
  have hrefusal := refusal_of_blocked hmode hup hfixed hinc hblocked
  exact ⟨hrefusal.endTogether hmode, hrefusal.retryAllowed hmode hcost⟩

end Composition

/-! ## Two slices -/

/-- Two fixed windows that must both allow, of one second and of one minute. -/
def secondAndMinute : Composition ℕ where
  mode := .all
  specs := [{ label := "second" }, { label := "minute" }]
  specs_ne := List.cons_ne_nil _ _
  labels_nodup := by decide
  overflow_two := nofun

/-- A fixed window after hits of key `7` at `0`. -/
def hitAtZero (o : WindowOptions) (cost : JsNumber) : MemoryStore ℕ :=
  (MemoryStore.step ⟨0, .increment 7 { cost := some cost }⟩ (.fixed o (KeyTable.new 0))).1

/-- A window hit at zero is a fixed one, in a state that can be reached. -/
theorem hitAtZero_spec (o : WindowOptions) (cost : JsNumber) :
    (hitAtZero o cost).IsFixed ∧ Reachable 500 (hitAtZero o cost) := by
  refine ⟨trivial, .fixed o (KeyTable.new 0), 0, [⟨0, .increment 7 { cost := some cost }⟩],
    ⟨0, rfl⟩, ⟨le_rfl, trivial⟩, ⟨?_, trivial⟩, by simp, rfl⟩
  intro key _
  exact Or.inl rfl

/-- Both windows after those hits, read at `500`. -/
def hitWindows (second minute : WindowOptions) (cost : JsNumber) :
    ComposedState (StoreBank ℕ) ℕ where
  inner :=
    { stores := fun j => if j = 0 then hitAtZero second cost else hitAtZero minute cost
      now := 500 }

/-- So are the two windows that were hit. -/
theorem hitWindows_spec (second minute : WindowOptions) (cost : JsNumber) (j : ℕ) :
    ((hitWindows second minute cost).inner.stores j).IsFixed ∧
      Reachable 500 ((hitWindows second minute cost).inner.stores j) := by
  by_cases hj : j = 0
  · simp only [hitWindows, hj, if_true]
    exact hitAtZero_spec second cost
  · simp only [hitWindows, hj, if_false]
    exact hitAtZero_spec minute cost

/-- The layers of the example, one by one. -/
theorem forall_secondAndMinute {P : ℕ → LayerSpec ℕ → Prop} (h0 : P 0 { label := "second" })
    (h1 : P 1 { label := "minute" }) :
    ∀ j spec, secondAndMinute.specs[j]? = some spec → P j spec := by
  intro j spec hspec
  match j, hspec with
  | 0, hspec =>
    obtain rfl := Option.some.inj hspec
    exact h0
  | 1, hspec =>
    obtain rfl := Option.some.inj hspec
    exact h1

/-- Two windows of a second, both used up: at its end a hit fits again. -/
theorem composedAll_retry_iff_seconds :
    secondAndMinute.RetryAllowed 7 {} 1000
      (secondAndMinute.store.increment 7 {} (hitWindows oneASecond twoASecond 2)).2 := by
  have hends : ∀ j spec, secondAndMinute.specs[j]? = some spec →
      (secondAndMinute.slice 7 {} (hitWindows oneASecond twoASecond 2).inner j spec).ends = 1000 :=
    forall_secondAndMinute (by decide +kernel) (by decide +kernel)
  refine (Composition.composedAll_retry_iff secondAndMinute rfl 7 {}
    (hitWindows oneASecond twoASecond 2) (fun _ _ _ => rfl)
    (fun j _ _ => hitWindows_spec oneASecond twoASecond 2 j)
    (forall_secondAndMinute (by decide +kernel) (by decide +kernel))
    (r :=
      { totalHits := 3, remaining := 0, resetTime := 1000, isBlocked := true, mode := some "all"
        decidingLayer := some "second"
        layers := some [("second", ⟨3, 0, 1000, true, true, none⟩),
          ("minute", ⟨3, 0, 1000, true, true, none⟩)] })
    (Prod.ext (by decide +kernel) rfl) rfl).mpr ?_
  intro j spec hspec _ j' spec' hspec'
  left
  rw [hends j spec hspec, hends j' spec' hspec']

/-- With ten hits in a second and in a minute both windows refuse the next, and the result
names the end of the second, when the minute still refuses. -/
theorem composedAll_retry_too_early :
    ¬ ∀ (c : Composition ℕ) (key : ℕ) (st : ComposedState (StoreBank ℕ) ℕ) (r : RateLimitResult)
      (st₁ : ComposedState (StoreBank ℕ) ℕ), c.mode = .all → c.Up st.inner →
      (∀ j spec, c.specs[j]? = some spec → (st.inner.stores j).IsFixed ∧
        Reachable st.inner.now (st.inner.stores j)) →
      (∀ j spec, c.specs[j]? = some spec → 1 ≤ (c.slice key {} st.inner j spec).cap) →
      c.store.increment key {} st = (.ok r, st₁) → r.isBlocked = true →
      c.RetryAllowed key {} r.resetTime st₁ := by
  intro h
  have hretry := h secondAndMinute 7 (hitWindows tenASecond tenAMinute 10)
    { totalHits := 11, remaining := 0, resetTime := 1000, isBlocked := true, mode := some "all"
      decidingLayer := some "second"
      layers := some [("second", ⟨11, 0, 1000, true, true, none⟩),
        ("minute", ⟨11, 0, 60000, true, true, none⟩)] } _ rfl (fun _ _ _ => rfl)
    (fun j _ _ => hitWindows_spec tenASecond tenAMinute 10 j)
    (forall_secondAndMinute (by decide +kernel) (by decide +kernel))
    (Prod.ext (by decide +kernel) rfl) rfl
  let st₁ := (secondAndMinute.store.increment 7 {} (hitWindows tenASecond tenAMinute 10)).2
  obtain ⟨r, hr, hok⟩ := hretry { st₁ with inner := { st₁.inner with now := 1000 } }
    ⟨fun _ _ _ => rfl, fun _ _ _ => rfl⟩ le_rfl
  have hblocked : ((secondAndMinute.store.increment 7 {}
      { st₁ with inner := { st₁.inner with now := 1000 } }).1.toOption.map
        RateLimitResult.isBlocked) = some true := by
    decide +kernel
  rw [hr] at hblocked
  simp only [Except.toOption, Option.map_some, hok] at hblocked
  exact absurd hblocked (by decide)

end RatelimitFlex
