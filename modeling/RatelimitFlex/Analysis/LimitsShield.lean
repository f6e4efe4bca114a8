import RatelimitFlex.Analysis.BindingWindow
import RatelimitFlex.Analysis.ComposedRetry
import RatelimitFlex.Analysis.ShieldBlocks
import RatelimitFlex.Program.ShieldedLimits

/-!
# The blocks of a shield over several windows

The shield in front of `limits` compares the largest count of the windows with the smallest
cap and blocks for the length of the shortest window.  While it blocks a key, no request of
the key reaches the stores, so a window that would refuse one more request at the block's last
millisecond would refuse it before (`MemoryStore.overCapAt_of_le`).  That such a window is there when the block
begins, and that no store evicts the key meanwhile, is what the code does not check.
-/

set_option autoImplicit false

namespace RatelimitFlex

open Library InMemoryShield

/-! ## Refusals -/

namespace Cell

/-- A request of cost one that comes at `u` is over the cap. -/
def OverCapAt (u : ℤ) (x : Cell) : Prop := (x.increment u {}).2.isBlocked = true

variable {o : WindowOptions} {t u : ℤ} {x : Cell}

/-- A sliding window is over its cap when it holds that many live stamps. -/
theorem overCapAt_sliding {e : Option SlidingKeyState} :
    (Cell.sliding o e).OverCapAt u ↔
      (o.maxRequests : ℤ) ≤ (liveStamps o u (stampsOf e)).length := by
  have hcost : RateLimitIncrementOptions.sanitizedCost {} = 1 := by decide
  simp only [OverCapAt, increment, RateLimitResult.isBlocked_ofUsage, hcost, WindowOptions.cap_none,
    List.length_append, List.length_replicate, decide_eq_true_eq, Nat.cast_add, Nat.cast_one]
  omega

/-- A fixed window refuses while a used up slice runs. -/
theorem overCapAt_fixed {e : Option FixedEntry} :
    (Cell.fixed o e).OverCapAt u ↔ ∃ s ∈ e, u < s.resetTime ∧ (o.maxRequests : ℤ) ≤ s.count := by
  have hcost : RateLimitIncrementOptions.sanitizedCost {} = 1 := by decide
  have hcap := o.maxRequests_pos
  simp only [OverCapAt, increment, RateLimitResult.isBlocked_ofUsage, hcost, WindowOptions.cap_none,
    decide_eq_true_eq]
  cases e with
  | none =>
    simp [fixedAfterIncrement]
    omega
  | some s =>
    by_cases hs : s.resetTime ≤ u
    · simp [fixedAfterIncrement, hs]
      omega
    · simp [fixedAfterIncrement, hs]
      omega

/-- A refusing cell has an entry. -/
theorem OverCapAt.isPresent_sliding {e : Option SlidingKeyState}
    (h : (Cell.sliding o e).OverCapAt u) : e.isSome = true := by
  have hcap := o.maxRequests_pos
  rw [overCapAt_sliding] at h
  cases e with
  | none =>
    simp [liveStamps] at h
    omega
  | some s => rfl

/-- No `set` has left a wall expiry. -/
def NoWall : Cell → Prop
  | .sliding _ e => ∀ s ∈ e, s.wallExpiresAt = none
  | _ => True

/-- After an increment a cell has no wall expiry. -/
theorem noWall_increment {inc : RateLimitIncrementOptions} : (x.increment t inc).1.NoWall := by
  cases x with
  | sliding o e =>
    rintro s ⟨⟩
    rfl
  | fixed o e => trivial
  | bucket o e => trivial

/-- A cell without an entry has none. -/
theorem noWall_cleared : x.cleared.NoWall := by
  cases x with
  | sliding o e => exact fun s hs => by cases hs
  | fixed o e => trivial
  | bucket o e => trivial

end Cell

/-! ## Refusals of a window's store -/

namespace MemoryStore

variable {κ : Type} [DecidableEq κ] {m : MemoryStore κ} {o : WindowOptions} {now t u : ℤ}
  {key k : κ} {inc : RateLimitIncrementOptions}

/-- What refuses at a later time refuses at an earlier one. -/
theorem overCapAt_of_le (hwindow : m.windowOptions? = some o) (ht : t ≤ u)
    (h : (m.cell k).OverCapAt u) : (m.cell k).OverCapAt t := by
  cases m with
  | sliding o' table =>
    refine Cell.overCapAt_sliding.mpr ((Cell.overCapAt_sliding.mp h).trans ?_)
    have hsub : (liveStamps o' u (stampsOf (table.state.lookup k))).Sublist
        (liveStamps o' t (stampsOf (table.state.lookup k))) := by
      apply List.monotone_filter_right
      intro ts hts
      have := of_decide_eq_true hts
      exact decide_eq_true (by omega)
    exact_mod_cast hsub.length_le
  | fixed o' table =>
    obtain ⟨s, hs, hlt, hcap⟩ := Cell.overCapAt_fixed.mp h
    exact Cell.overCapAt_fixed.mpr ⟨s, hs, ht.trans_lt hlt, hcap⟩
  | bucket o' table => cases hwindow

/-- A purge does not change what is refused from then on. -/
theorem overCapAt_purgeExpired (hwindow : m.windowOptions? = some o) (hwall : m.NoWall)
    (hn : now ≤ u) (h : (m.cell k).OverCapAt u) : ((m.purgeExpired now).cell k).OverCapAt u := by
  cases m with
  | sliding o' table =>
    have hstamps := stampsOf_purgeSliding o' now k table (hwall k)
    have hpurged : ((MemoryStore.sliding o' table).purgeExpired now).cell k =
        .sliding o' ((purgeSliding o' now table).state.lookup k) := rfl
    rw [hpurged, Cell.overCapAt_sliding, hstamps, liveStamps_liveStamps o' hn]
    exact Cell.overCapAt_sliding.mp h
  | fixed o' table =>
    obtain ⟨s, hs, hlt, hcap⟩ := Cell.overCapAt_fixed.mp h
    rw [cell_purgeExpired]
    refine Cell.overCapAt_fixed.mpr ⟨s, ?_, hlt, hcap⟩
    have hlook : table.state.lookup k = some s := hs
    simp [hlook, not_le.mpr (hn.trans_lt hlt)]
  | bucket o' table => cases hwindow

/-- A refused key is there. -/
theorem mem_keys_of_overCapAt (hwindow : m.windowOptions? = some o) (h : (m.cell k).OverCapAt u) :
    k ∈ m.keys := by
  rw [mem_keys]
  cases m with
  | sliding o' table => exact h.isPresent_sliding
  | fixed o' table =>
    obtain ⟨s, hs, -⟩ := Cell.overCapAt_fixed.mp h
    exact Option.isSome_iff_exists.mpr ⟨s, hs⟩
  | bucket o' table => cases hwindow

/-- An increment of one hit at the store's own cap is blocked exactly when the window is over it. -/
theorem isBlocked_iff_overCapAt (hwall : m.NoWall) (hcost : inc.sanitizedCost = 1)
    (hmax : inc.maxRequests = none) :
    (m.increment u key inc).2.isBlocked = true ↔ (m.cell key).OverCapAt u := by
  rw [increment_snd hwall]
  have hone : RateLimitIncrementOptions.sanitizedCost {} = 1 := by decide
  have hsame : ((m.cell key).increment u inc).2 = ((m.cell key).increment u {}).2 := by
    cases m <;> simp only [cell, Cell.increment, hcost, hone, hmax]
  rw [hsame, Cell.OverCapAt]

/-- A purge sets no wall expiry. -/
theorem NoWall.purgeExpired (hwall : m.NoWall) (now : ℤ) : (m.purgeExpired now).NoWall := by
  cases m with
  | sliding o table => exact fun k => wall_purgeSliding o now k table (hwall k)
  | fixed o table => trivial
  | bucket o table => trivial

/-- A store without wall expiries is one whose cells have none. -/
theorem noWall_iff : m.NoWall ↔ ∀ k, (m.cell k).NoWall := by
  cases m with
  | sliding o table => exact Iff.rfl
  | fixed o table => exact ⟨fun _ _ => trivial, fun _ => trivial⟩
  | bucket o table => exact ⟨fun _ _ => trivial, fun _ => trivial⟩

/-- An increment sets no wall expiry, with or without room. -/
theorem NoWall.increment_any (hwall : m.NoWall) : (m.increment now key inc).1.NoWall := by
  rw [noWall_iff]
  intro k
  by_cases hk : k = key
  · subst hk
    rw [cell_increment_self hwall]
    exact Cell.noWall_increment
  · rcases cell_increment_of_ne hwall now inc hk with h | h
    · rw [h]
      exact noWall_iff.mp hwall k
    · rw [h]
      exact Cell.noWall_cleared

/-- What an operation on `key` does to a store as other keys see it: nothing, unless it evicts. -/
structure Frames (evicts : Prop) (key : κ) (m m' : MemoryStore κ) : Prop where
  noWall : m'.NoWall
  cell : ∀ k, k ≠ key → m'.cell k = m.cell k ∨ evicts ∧ m'.cell k = (m.cell k).cleared

/-- What does nothing frames every key. -/
theorem frames_refl {evicts : Prop} (hwall : m.NoWall) : Frames evicts key m m :=
  ⟨hwall, fun _ _ => Or.inl rfl⟩

/-- An increment frames every other key, and may evict. -/
theorem frames_increment (hwall : m.NoWall) : Frames True key m (m.increment now key inc).1 := by
  refine ⟨hwall.increment_any, fun k hk => ?_⟩
  rcases cell_increment_of_ne hwall now inc hk with h | h
  · exact Or.inl h
  · exact Or.inr ⟨trivial, h⟩

/-- A decrement after it frames every other key too. -/
theorem Frames.decrement {evicts : Prop} {m' : MemoryStore κ} (h : Frames evicts key m m')
    (dec : RateLimitDecrementOptions) : Frames evicts key m (m'.decrement key dec) := by
  refine ⟨h.noWall.decrement dec, fun k hk => ?_⟩
  rw [cell_decrement, if_neg hk]
  exact h.cell k hk

/-- So does whatever a composed increment does to a layer. -/
theorem frames_apply (hwall : m.NoWall) (e : LayerEffect) (dec : RateLimitDecrementOptions) :
    Frames True key m (e.apply now key inc dec m) := by
  cases e with
  | untouched => exact frames_refl hwall
  | charged => exact frames_increment hwall
  | restored => exact (frames_increment hwall).decrement dec

/-- A key that is still there is refused as before. -/
theorem Frames.overCapAt {evicts : Prop} {m' : MemoryStore κ} (h : Frames evicts key m m')
    (hk : k ≠ key) (hkept : evicts → k ∈ m'.keys) (hover : (m.cell k).OverCapAt u) :
    (m'.cell k).OverCapAt u := by
  rcases h.cell k hk with heq | ⟨hevicts, hcleared⟩
  · rw [heq]
    exact hover
  · have hkept := hkept hevicts
    rw [mem_keys, hcleared] at hkept
    cases hcell : m.cell k <;> rw [hcell] at hkept <;> cases hkept

end MemoryStore

/-! ## Operations of the composed store -/

section Composed

variable {κ : Type} [DecidableEq κ]

/-- What an operation on `key` does to the first `n` stores of a bank. -/
structure BankFrames (evicts : Prop) (n : ℕ) (key : κ) (s s' : StoreBank κ) : Prop where
  same : SameWindows s s'
  frames : ∀ j < n, (s.stores j).NoWall →
    MemoryStore.Frames evicts key (s.stores j) (s'.stores j)

variable {evicts : Prop} {n : ℕ} {key : κ} {s s' : StoreBank κ}

/-- A bank that is left as it is frames every key. -/
theorem bankFrames_refl : BankFrames evicts n key s s :=
  ⟨SameWindows.refl s, fun _ _ hwall => MemoryStore.frames_refl hwall⟩

/-- A decrement of one of its stores frames every other key. -/
theorem BankFrames.decrement (h : BankFrames evicts n key s s') (i : ℕ)
    (dec : RateLimitDecrementOptions) :
    BankFrames evicts n key s ((bankStore i).decrement key dec s') := by
  refine ⟨h.same.trans (sameWindows_decrement_bankStore key i dec s'), fun j hj hwall => ?_⟩
  have hframes := h.frames j hj hwall
  by_cases hi : j = i
  · subst hi
    show MemoryStore.Frames evicts key _ ((s'.put j _).stores j)
    rw [StoreBank.stores_put_self]
    exact hframes.decrement dec
  · show MemoryStore.Frames evicts key _ ((s'.put i _).stores j)
    rw [StoreBank.stores_put_of_ne hi]
    exact hframes

variable (limits : List WindowLimitSpec) (hne : limits ≠ [])

/-- An increment in all layers frames every other key. -/
theorem bankFrames_increment (inc : RateLimitIncrementOptions)
    (st : ComposedState (StoreBank κ) κ) :
    BankFrames True limits.length key st.inner
      ((limitsToComposedStore limits hne).store.increment key inc st).2.inner := by
  have hstepped := @Composition.stepped_all κ _ (limitsToComposedStore limits hne) key inc rfl st
  refine ⟨sameWindows_increment _ key st rfl inc, fun j hj hwall => ?_⟩
  rw [hstepped.stores j _ (getElem?_specs hne hj)]
  exact MemoryStore.frames_apply hwall _ _

/-- A decrement of a layer frames every other key. -/
theorem bankFrames_decrementLayer (dec : RateLimitDecrementOptions) (i : ℕ)
    (st : ComposedState (StoreBank κ) κ) (h : BankFrames evicts n key s st.inner) :
    BankFrames evicts n key s
      ((limitsToComposedStore limits hne).store.decrementLayer key dec i st).inner := by
  unfold ComposedStore.decrementLayer
  split
  · next layer hlayer =>
    have hget : (layersFrom 0 (limitsToComposedStore limits hne).specs)[i]? = some layer := hlayer
    rw [getElem?_layersFrom] at hget
    obtain ⟨spec, hspec, rfl⟩ := Option.map_eq_some_iff.mp hget
    have hplain : spec.keyTransform = none := by
      rw [limitsToComposedStore, List.getElem?_map] at hspec
      obtain ⟨k, -, rfl⟩ := Option.map_eq_some_iff.mp hspec
      rfl
    simp only [CompositionLayer.layerKey, hplain, Option.getD_none, id_eq]
    exact h.decrement _ dec
  · exact h

/-- A decrement of the composed store frames them, and evicts nothing. -/
theorem bankFrames_decrement (dec : RateLimitDecrementOptions)
    (st : ComposedState (StoreBank κ) κ) :
    BankFrames False n key st.inner
      ((limitsToComposedStore limits hne).store.decrement key dec st).inner := by
  have hfold : ∀ (frame : List ℕ) (st' : ComposedState (StoreBank κ) κ),
      BankFrames False n key st.inner st'.inner →
      BankFrames False n key st.inner (frame.foldl (fun st index =>
        (limitsToComposedStore limits hne).store.decrementLayer key dec index st) st').inner := by
    intro frame
    induction frame with
    | nil => exact fun st' h => h
    | cons index rest ih =>
      exact fun st' h => ih _ (bankFrames_decrementLayer limits hne dec index st' h)
  have hmode : (limitsToComposedStore (κ := κ) limits hne).store.mode = .all := rfl
  simp only [ComposedStore.decrement, hmode, ComposedStore.popFrame]
  cases hstack : st.decrementStacks key with
  | nil => exact bankFrames_refl
  | cons frame rest => exact hfold frame _ bankFrames_refl

omit [DecidableEq κ] in
/-- A bound is below a running maximum when it is below one of the numbers. -/
theorem le_foldl_max_iff {a b : ℤ} {xs : List ℤ} :
    a ≤ xs.foldl max b ↔ a ≤ b ∨ ∃ x ∈ xs, a ≤ x := by
  induction xs generalizing b with
  | nil => simp
  | cons x xs ih => rw [List.foldl_cons, ih, le_max_iff, List.exists_mem_cons_iff, or_assoc]

omit [DecidableEq κ] in
/-- It is below the maximum when it is below one of the numbers. -/
theorem le_maximum_iff {a : ℤ} {xs : List ℤ} (hne : xs ≠ []) :
    a ≤ maximum xs ↔ ∃ x ∈ xs, a ≤ x := by
  cases xs with
  | nil => exact absurd rfl hne
  | cons x xs => rw [maximum, le_foldl_max_iff, List.exists_mem_cons_iff]

/-- An answer counts at least `a` when a window does. -/
theorem le_totalHits_iff {a : ℤ} {inc : RateLimitIncrementOptions}
    {st : ComposedState (StoreBank κ) κ} (hbuilt : BuiltFrom limits st.inner)
    {r : RateLimitResult}
    (hr : ((limitsToComposedStore limits hne).store.increment key inc st).1 = .ok r) :
    a ≤ r.totalHits ↔ ∃ j < limits.length, a ≤ (slotAnswer key inc st.inner j).totalHits := by
  have hanswers : (limitsToComposedStore limits hne).answers key inc st.inner =
      (List.range limits.length).map fun j => .ok (slotAnswer key inc st.inner j) := by
    rw [Composition.answers_eq (c := limitsToComposedStore limits hne) CompositionMode.noConfusion]
    exact answersFrom_limits hne hbuilt
  have hfulfilled : ComposedStore.fulfilled
      ((limitsToComposedStore limits hne).answers key inc st.inner) =
        (List.range limits.length).map (slotAnswer key inc st.inner) := by
    rw [hanswers, ComposedStore.fulfilled, List.filterMap_map]
    exact congrFun List.filterMap_eq_map _
  have htotal : r.totalHits = maximum (((List.range limits.length).map
      (slotAnswer key inc st.inner)).map RateLimitResult.totalHits) := by
    rw [Composition.increment_all_fst (c := limitsToComposedStore limits hne) rfl] at hr
    obtain rfl := Except.ok.inj hr
    rw [← hfulfilled]
    split <;> rfl
  have hlen : limits.length ≠ 0 := fun h => hne (List.length_eq_zero_iff.mp h)
  rw [htotal, le_maximum_iff (by simpa using hlen)]
  simp only [List.mem_map, List.mem_range, exists_exists_and_eq_and]

end Composed

/-! ## The shield -/

/-- The shield of the limits keeps a block for the shortest of their windows. -/
theorem blockEnd_shieldOptions {ρ τ κ : Type} [DecidableEq κ] (c : LimitsConfig ρ τ κ) (now : ℤ)
    (result : RateLimitResult) :
    blockEnd c.shieldOptions now result = now + minimum c.windows := by
  have hwindows := c.one_le_minimum_windows
  exact if_pos (by omega)

section Holds

variable {ρ τ κ : Type} [DecidableEq κ] {c : LimitsConfig ρ τ κ} {t now : ℤ} {key : κ}
  {inc : RateLimitIncrementOptions} {s : Shielded (ComposedState (StoreBank κ) κ) κ}

/-- Some window refuses the key up to a moment. -/
def OverCapUntil (c : LimitsConfig ρ τ κ) (k : κ) (ends : ℤ)
    (st : ComposedState (StoreBank κ) κ) : Prop :=
  ∃ j < c.limits.length, ((st.inner.stores j).cell k).OverCapAt (ends - 1)

/-- Every key whose block has not ended has a window that refuses it to the end. -/
structure ShieldHolds (c : LimitsConfig ρ τ κ) (t : ℤ)
    (s : Shielded (ComposedState (StoreBank κ) κ) κ) : Prop where
  built : BuiltFrom c.limits s.inner.inner
  noWall : ∀ j < c.limits.length, (s.inner.inner.stores j).NoWall
  vouches : Vouches (OverCapUntil c) t s

/-- A block that holds until later holds now. -/
theorem ShieldHolds.mono (h : ShieldHolds c t s) (ht : t ≤ now) : ShieldHolds c now s :=
  ⟨h.built, h.noWall, h.vouches.mono ht⟩

/-- Each limit has a window store. -/
theorem BuiltFrom.exists_windowOptions {limits : List WindowLimitSpec} {b : StoreBank κ}
    (h : BuiltFrom limits b) {j : ℕ} (hj : j < limits.length) :
    ∃ o, (b.stores j).windowOptions? = some o :=
  ⟨_, h.windowOptions j _ (List.getElem?_eq_getElem hj)⟩

/-- When an increment brings a window to the smallest cap, some window refuses one more at the
end of the block that begins. -/
def BlockLasts (c : LimitsConfig ρ τ κ) (key : κ) (inc : RateLimitIncrementOptions)
    (s : Shielded (ComposedState (StoreBank κ) κ) κ) : Prop :=
  let bank := s.inner.inner
  let after := (c.composed.increment key inc s.inner).2.inner
  (∃ j < c.limits.length, minimum c.caps ≤ (slotAnswer key inc bank j).totalHits) →
    ∃ j < c.limits.length, (slotAnswer key inc
      { after with now := bank.now + minimum c.windows - 1 } j).isBlocked = true

/-- An increment evicts no key whose block has not ended. -/
def KeepsShielded (c : LimitsConfig ρ τ κ) (key : κ) (inc : RateLimitIncrementOptions)
    (s : Shielded (ComposedState (StoreBank κ) κ) κ) : Prop :=
  let bank := s.inner.inner
  let after := (c.composed.increment key inc s.inner).2.inner
  ∀ k, isShielded bank.now k s.cache = true → ∀ j < c.limits.length,
    k ∈ (bank.stores j).keys → k ∈ (after.stores j).keys

/-- An increment begins a block that lasts, if any, and takes none away. -/
theorem ShieldHolds.increment (h : ShieldHolds c s.inner.inner.now s)
    (hcost : inc.sanitizedCost = 1) (hmax : inc.maxRequests = none)
    (hstep : isShielded s.inner.inner.now key s.cache = false →
      BlockLasts c key inc s ∧ KeepsShielded c key inc s) :
    ShieldHolds c s.inner.inner.now (InMemoryShield.increment c.shieldOptions c.composed.toStore
      (fun st => st.inner.now) key inc s).2 := by
  have hframes := @bankFrames_increment κ _ key c.limits c.limits_ne inc s.inner
  have hwalls : ∀ j < c.limits.length,
      ((c.composed.increment key inc s.inner).2.inner.stores j).NoWall :=
    fun j hj => (hframes.frames j hj (h.noWall j hj)).noWall
  have hvouches : Vouches (OverCapUntil c) s.inner.inner.now (InMemoryShield.increment
      c.shieldOptions c.composed.toStore (fun st => st.inner.now) key inc s).2 := by
    refine Vouches.increment c.shieldOptions c.composed.toStore (fun st => st.inner.now) rfl
      h.vouches ?_ ?_
    · rintro hfree k ends hne hk ⟨j, hj, hover⟩
      obtain ⟨o, hwindow⟩ := h.built.exists_windowOptions hj
      have hkept := (hstep hfree).2 k hk j hj (MemoryStore.mem_keys_of_overCapAt hwindow hover)
      exact ⟨j, hj, (hframes.frames j hj (h.noWall j hj)).overCapAt hne (fun _ => hkept) hover⟩
    · intro hfree r hanswer hreached
      have hnow : (c.composed.increment key inc s.inner).2.inner.now = s.inner.inner.now :=
        (@Composition.stepped_all κ _ (limitsToComposedStore c.limits c.limits_ne) key inc rfl
          s.inner).now
      obtain ⟨j, hj, hblocked⟩ := (hstep hfree).1
        ((le_totalHits_iff c.limits c.limits_ne h.built hanswer).mp hreached)
      refine ⟨j, hj, ?_⟩
      have hover := (MemoryStore.isBlocked_iff_overCapAt (hwalls j hj) hcost hmax).mp hblocked
      rw [blockEnd_shieldOptions]
      show (MemoryStore.cell key _).OverCapAt ((c.composed.increment key inc s.inner).2.inner.now +
        minimum c.windows - 1)
      rw [hnow]
      exact hover
  rcases increment_cases c.shieldOptions c.composed.toStore (fun st => st.inner.now) key inc s
    with ⟨-, hsame⟩ | ⟨-, hasked⟩
  · rw [hsame]
    exact h
  · rw [hasked] at hvouches ⊢
    exact ⟨h.built.same hframes.same, hwalls, hvouches⟩

/-- When no window would refuse a request at the end of the block that begins, the shield
rejects it all the same. -/
theorem shielded_within_caps (hbuilt : BuiltFrom c.limits s.inner.inner)
    (hfree : isShielded s.inner.inner.now key s.cache = false)
    (hlasts : ¬ BlockLasts c key inc s) :
    let s' := (InMemoryShield.increment c.shieldOptions c.composed.toStore (fun st => st.inner.now)
      key inc s).2
    let last := s.inner.inner.now + minimum c.windows - 1
    isShielded last key s'.cache = true ∧ ∀ j < c.limits.length,
      (slotAnswer key inc { s'.inner.inner with now := last } j).isBlocked = false := by
  intro s' last
  have hwindows := c.one_le_minimum_windows
  obtain ⟨hreached, hfits⟩ := Classical.not_imp.mp hlasts
  rcases increment_cases c.shieldOptions c.composed.toStore (fun st => st.inner.now) key inc s
    with ⟨hshielded, -⟩ | ⟨-, hasked⟩
  · exact absurd hshielded (by rw [hfree]; exact Bool.false_ne_true)
  · have hs' : s' = _ := hasked
    have hstepped := @Composition.stepped_all κ _ (limitsToComposedStore c.limits c.limits_ne)
      key inc rfl s.inner
    rw [hs']
    constructor
    · cases hanswer : (c.composed.increment key inc s.inner).1 with
      | error e =>
        rw [Composition.increment_all_fst (c := limitsToComposedStore c.limits c.limits_ne) rfl]
          at hanswer
        cases hanswer
      | ok r =>
        have hle : minimum c.caps ≤ r.totalHits :=
          (le_totalHits_iff c.limits c.limits_ne hbuilt hanswer).mpr hreached
        simp only [ComposedStore.toStore, hanswer]
        obtain ⟨entry, hentry, hends⟩ := exists_entry_afterAnswer c.shieldOptions
          (c.composed.increment key inc s.inner).2.inner.now key (s.cache.erase key) hle
        apply isShielded_of_lookup hentry
        rw [hends, blockEnd_shieldOptions, hstepped.now]
        omega
    · intro j hj
      rw [← Bool.not_eq_true]
      exact fun hblocked => hfits ⟨j, hj, hblocked⟩

/-- A decrement ends the block of its key. -/
theorem ShieldHolds.decrement (h : ShieldHolds c t s) (dec : RateLimitDecrementOptions) :
    ShieldHolds c t (InMemoryShield.decrement c.composed.toStore key dec s) := by
  have hframes := @bankFrames_decrement κ _ c.limits.length key c.limits c.limits_ne dec s.inner
  refine ⟨h.built.same hframes.same,
    fun j hj => (hframes.frames j hj (h.noWall j hj)).noWall, ?_⟩
  apply h.vouches.decrement
  rintro k ends hne ⟨j, hj, hover⟩
  exact ⟨j, hj, (hframes.frames j hj (h.noWall j hj)).overCapAt hne False.elim hover⟩

/-- A purge of a layer takes no hits out of a window that is still running. -/
theorem ShieldHolds.cleanup (h : ShieldHolds c t s) (ht : t ≤ now) (slot : ℕ) :
    ShieldHolds c now { s with inner := { s.inner with
      inner := s.inner.inner.put slot ((s.inner.inner.stores slot).purgeExpired now) } } := by
  have hstore : ∀ j, ((s.inner.inner.put slot
      ((s.inner.inner.stores slot).purgeExpired now)).stores j) =
        if j = slot then (s.inner.inner.stores j).purgeExpired now else s.inner.inner.stores j := by
    intro j
    split
    · next hj => rw [hj, StoreBank.stores_put_self]
    · next hj => exact StoreBank.stores_put_of_ne hj _ _
  refine ⟨h.built.same (sameWindows_put (MemoryStore.windowOptions?_purgeExpired _ _)),
    fun j hj => ?_, fun k entry hk hlive => ?_⟩
  · show (StoreBank.stores _ j).NoWall
    rw [hstore]
    split
    · exact (h.noWall j hj).purgeExpired now
    · exact h.noWall j hj
  · obtain ⟨j, hj, hover⟩ := h.vouches k entry hk (ht.trans_lt hlive)
    obtain ⟨o, hwindow⟩ := h.built.exists_windowOptions hj
    refine ⟨j, hj, ?_⟩
    show ((StoreBank.stores _ j).cell k).OverCapAt _
    rw [hstore]
    split
    · exact MemoryStore.overCapAt_purgeExpired hwindow (h.noWall j hj) (by omega) hover
    · exact hover

/-- The shield's own sweep drops blocks that are over. -/
theorem ShieldHolds.sweep (h : ShieldHolds c t s) (ht : t ≤ now) :
    ShieldHolds c now { s with cache := InMemoryShield.sweep now s.cache } :=
  ⟨h.built, h.noWall, (h.vouches.mono ht).sweep⟩

/-- A block that lasts: some window's count with the request is over its cap. -/
theorem ShieldHolds.exists_over (h : ShieldHolds c s.inner.inner.now s)
    (hcost : inc.sanitizedCost = 1) (hmax : inc.maxRequests = none)
    (hshielded : isShielded s.inner.inner.now key s.cache = true) :
    ∃ j entry, c.limits[j]? = some entry ∧ (sanitizeRateLimitCap (some entry.max) 100 : ℤ) <
      (slotAnswer key inc s.inner.inner j).totalHits := by
  obtain ⟨ends, hlive, j, hj, hlast⟩ := h.vouches.of_isShielded hshielded
  have hbuilt := h.built.windowOptions j _ (List.getElem?_eq_getElem hj)
  have hover := MemoryStore.overCapAt_of_le hbuilt
    (show s.inner.inner.now ≤ ends - 1 by omega) hlast
  have hblocked := (MemoryStore.isBlocked_iff_overCapAt (h.noWall j hj) hcost hmax).mpr hover
  obtain ⟨hits, reset, heq⟩ := MemoryStore.increment_ofUsage hbuilt s.inner.inner.now key inc
  refine ⟨j, _, List.getElem?_eq_getElem hj, ?_⟩
  rw [heq, RateLimitResult.isBlocked_ofUsage, hmax, WindowOptions.cap_none,
    maxRequests_windowOptions] at hblocked
  rw [slotAnswer, heq, RateLimitResult.totalHits_ofUsage]
  exact of_decide_eq_true hblocked

end Holds

/-! ## The engine -/

section Engine

variable {ρ σ κ : Type} [DecidableEq κ]

/-- Where a consume leaves a store without a draft rollback of its own. -/
theorem stores_consumeWithKey {o : RateLimitOptions ρ σ κ} (hgrouped : o.groupedWindowStores = [])
    (hroll : o.store.rollbackDraftForBlockedIncrement = none) (key : κ) (req : ρ)
    (w : World σ κ) :
    let found := (policyResult o key req w).2.stores
    let asked := (o.store.increment key (resolveIncrementOpts o req) found).2
    (policyResult o key req w).1.isSome = true ∧ (consumeWithKey o key req w).2.stores = found ∨
      (policyResult o key req w).1 = none ∧ ((consumeWithKey o key req w).2.stores = asked ∨
        ∃ dec, (consumeWithKey o key req w).2.stores = o.store.decrement key dec asked) := by
  intro found asked
  have hnot : ¬ (isWindowOpts o = true ∧ o.groupedWindowStores ≠ []) := fun h => h.2 hgrouped
  cases hpolicy : policyResult o key req w with
  | mk decided w₁ =>
    have hfound : found = w₁.stores := congrArg (fun r => r.2.stores) hpolicy
    cases decided with
    | some out =>
      refine Or.inl ⟨rfl, ?_⟩
      simp only [consumeWithKey, arrive, hpolicy, hfound]
    | none =>
      refine Or.inr ⟨rfl, ?_⟩
      cases hinc : o.store.increment key (resolveIncrementOpts o req) w₁.stores with
      | mk answer s =>
        have hasked : asked = s := by
          show (o.store.increment key (resolveIncrementOpts o req) found).2 = s
          rw [hfound, hinc]
        cases answer with
        | error e =>
          left
          simp only [consumeWithKey, arrive, hpolicy, incrementStores, if_neg hnot, hinc, hasked]
        | ok r =>
          have hcon : consumeWithKey o key req w = settle o key req
              { result := r, bindingSlotIndex := bindingSlotIndexForComposedResult o r }
              { w₁ with stores := s } := by
            simp only [consumeWithKey, arrive, hpolicy, incrementStores, if_neg hnot, hinc]
          rw [hcon, hasked]
          rcases (settle_spec o key req
              { result := r, bindingSlotIndex := bindingSlotIndexForComposedResult o r }
              { w₁ with stores := s }).1 with heq | ⟨dec, heq⟩
          · exact Or.inl heq
          · refine Or.inr ⟨dec, heq.trans ?_⟩
            simp only [rollbackDraft, if_neg hnot, hroll]

end Engine

section Steps

variable {ρ τ κ : Type} [DecidableEq κ] (c : LimitsConfig ρ τ κ)

/-- The engine asks the shield. -/
def AsksShield (key : κ) (req : ρ) (w : World (ShieldedState τ κ) κ) : Prop :=
  (policyResult (resolveStoreWithInMemoryShield c) key req w).1 = none

/-- A request that the shield rejects is over the cap of some window. -/
def RejectsSoundly : ShieldedLimitsEvent ρ τ κ → World (ShieldedState τ κ) κ → Prop
  | .consume time manager key req, w =>
    let found := ShieldedState.arriveAt time manager w.stores
    AsksShield c key req { w with stores := found } → isShielded time key found.1.cache = true →
      ∃ j entry, c.limits[j]? = some entry ∧ (sanitizeRateLimitCap (some entry.max) 100 : ℤ) <
        (slotAnswer key (resolveIncrementOpts (resolveStoreWithInMemoryShield c) req)
          found.1.inner.inner j).totalHits
  | _, _ => True

/-- A request that the shield lets through begins a block that lasts, if any, and takes none
away. -/
def StepLasts : ShieldedLimitsEvent ρ τ κ → World (ShieldedState τ κ) κ → Prop
  | .consume time manager key req, w =>
    let found := ShieldedState.arriveAt time manager w.stores
    let inc := resolveIncrementOpts (resolveStoreWithInMemoryShield c) req
    AsksShield c key req { w with stores := found } → isShielded time key found.1.cache = false →
      BlockLasts c key inc found.1 ∧ KeepsShielded c key inc found.1
  | _, _ => True

variable {c}

/-- A policy that decides alone leaves the shield and the stores. -/
theorem fst_policyResult (key : κ) (req : ρ) (w : World (ShieldedState τ κ) κ) :
    (policyResult (resolveStoreWithInMemoryShield c) key req w).2.stores.1 = w.stores.1 := by
  refine policyResult_keeps Prod.fst (fun km hkm s => ?_) (fun km hkm s => ?_) w
  · obtain ⟨km', -, rfl⟩ := Option.map_eq_some_iff.mp hkm
    rfl
  · obtain ⟨km', -, rfl⟩ := Option.map_eq_some_iff.mp hkm
    rfl

/-- **Every event keeps what the shield has cached true**, and what it rejects is blocked. -/
theorem shieldHolds_step {t : ℤ}
    (hcost : ∀ req, (resolveIncrementOpts (resolveStoreWithInMemoryShield c) req).sanitizedCost = 1)
    (e : ShieldedLimitsEvent ρ τ κ) (w : World (ShieldedState τ κ) κ)
    (h : ShieldHolds c t w.stores.1) (ht : t ≤ e.time) (hlasts : StepLasts c e w) :
    RejectsSoundly c e w ∧ ShieldHolds c e.time (shieldedLimitsStep c e w).1.stores.1 := by
  cases e with
  | consume time manager key req =>
    have hmax : (resolveIncrementOpts (resolveStoreWithInMemoryShield c) req).maxRequests = none :=
      maxRequests_resolveIncrementOpts c req
    have hfound : ShieldHolds c time (ShieldedState.arriveAt time manager w.stores).1 := by
      have hlater := h.mono ht
      exact ⟨⟨hlater.built.failing, hlater.built.windowOptions⟩, hlater.noWall, hlater.vouches⟩
    refine ⟨fun _ hshielded => hfound.exists_over (hcost req) hmax hshielded, ?_⟩
    show ShieldHolds c time (consumeWithKey _ key req
      { w with stores := ShieldedState.arriveAt time manager w.stores }).2.stores.1
    have hpolicy := fst_policyResult (c := c) key req
      { w with stores := ShieldedState.arriveAt time manager w.stores }
    rcases stores_consumeWithKey (o := resolveStoreWithInMemoryShield c) rfl rfl key req
      { w with stores := ShieldedState.arriveAt time manager w.stores } with
      ⟨-, heq⟩ | ⟨hnone, hstores⟩
    · rw [heq, hpolicy]
      exact hfound
    · have hasked : ShieldHolds c time ((resolveStoreWithInMemoryShield c).store.increment key
          (resolveIncrementOpts (resolveStoreWithInMemoryShield c) req)
          (policyResult (resolveStoreWithInMemoryShield c) key req
            { w with stores := ShieldedState.arriveAt time manager w.stores }).2.stores).2.1 := by
        show ShieldHolds c time (InMemoryShield.increment c.shieldOptions c.composed.toStore
          (fun st => st.inner.now) key _ _).2
        rw [hpolicy]
        exact hfound.increment (hcost req) hmax (hlasts hnone)
      rcases hstores with heq | ⟨dec, heq⟩
      · rw [heq]
        exact hasked
      · rw [heq]
        exact hasked.decrement dec
  | undo time key options => exact ⟨trivial, (h.mono ht).decrement options⟩
  | cleanup time slot => exact ⟨trivial, h.cleanup ht slot⟩
  | sweep time => exact ⟨trivial, h.sweep ht⟩

/-- A new engine's shield holds no key. -/
theorem shieldHolds_start (c : LimitsConfig ρ τ κ) (now : ℤ) (manager : τ) :
    ShieldHolds c now (c.startShielded now manager).stores.1 where
  built := builtFrom_limitsBank c.strategy now
  noWall j _ := by
    show (newWindowStore c.strategy _).NoWall
    unfold newWindowStore
    split
    · trivial
    · intro k s hs
      cases hs
  vouches k entry hk := by cases hk

end Steps

/-! ## Main result -/

/-- **What the shield rejects, some window rejects, as long as the blocks last.**  In every run
of requests of cost one over options with `limits` and `inMemoryBlock: true`: if every request
that the shield lets through leaves, whenever it brings a window to the smallest cap, a window
that would refuse one more at the last millisecond of the block that begins, and evicts from no
window's store a key whose block has not ended, then at every request that the shield rejects
some window's own count including that request is over its cap.
SOURCE: src/middleware/merge-options.ts:28-41, 247-268, src/shield/InMemoryShield.ts:100-169,
src/composition/ComposedStore.ts:404-524 -/
theorem limits_shield_sound {ρ τ κ : Type} [DecidableEq κ] (c : LimitsConfig ρ τ κ)
    (now : ℤ) (manager : τ) (es : List (ShieldedLimitsEvent ρ τ κ))
    (hcost : ∀ req, (resolveIncrementOpts (resolveStoreWithInMemoryShield c) req).sanitizedCost = 1)
    (hord : OrderedFrom ShieldedLimitsEvent.time now es)
    (hlasts : Guarded (StepLasts c) (shieldedLimitsStep c) es (c.startShielded now manager)) :
    Guarded (RejectsSoundly c) (shieldedLimitsStep c) es (c.startShielded now manager) := by
  have hstep : ∀ (t : ℤ) (w : World (ShieldedState τ κ) κ) (e : ShieldedLimitsEvent ρ τ κ),
      ShieldHolds c t w.stores.1 → t ≤ e.time → StepLasts c e w →
        RejectsSoundly c e w ∧ ShieldHolds c e.time (shieldedLimitsStep c e w).1.stores.1 :=
    fun t w e h ht hlasts => shieldHolds_step hcost e w h ht hlasts
  exact guarded_of_inv hstep (shieldHolds_start c now manager) hord hlasts

/-- The minute's window refuses the second request, and so does the shield. -/
theorem limits_shield_sound_minute :
    Guarded (RejectsSoundly twoThenOne) (shieldedLimitsStep twoThenOne)
      [.consume 0 () 0 (), .consume 500 () 0 ()] (twoThenOne.startShielded 0 ()) := by
  refine limits_shield_sound twoThenOne 0 () _ (fun () => by decide) (by decide) ⟨?_, ?_, trivial⟩
  · refine fun _ _ => ⟨fun _ => ⟨1, by decide, by decide +kernel⟩, fun k hk => ?_⟩
    cases hk
  · intro _ hfree
    exact absurd hfree (by decide +kernel)

/-- Two requests a second and a hundred a minute. -/
def twoThenHundred : LimitsConfig Unit Unit ℕ where
  limits := [⟨1000, 2⟩, ⟨60000, 100⟩]
  strategy_window h := RateLimitStrategy.noConfusion h
  limits_ne h := List.cons_ne_nil _ _ h

/-- The second of two allowed requests begins a block of a second; half of it later the first is
out of the second's window. -/
theorem limits_shield_rejects_within_caps :
    (∀ req, (resolveIncrementOpts (resolveStoreWithInMemoryShield twoThenHundred)
      req).sanitizedCost = 1) ∧
    OrderedFrom ShieldedLimitsEvent.time (0 : ℤ)
      ([.consume 0 () 0 (), .consume 600 () 0 (), .consume 1100 () 0 ()] :
        List (ShieldedLimitsEvent Unit Unit ℕ)) ∧
    ¬ Guarded (RejectsSoundly twoThenHundred) (shieldedLimitsStep twoThenHundred)
      [.consume 0 () 0 (), .consume 600 () 0 (), .consume 1100 () 0 ()]
      (twoThenHundred.startShielded 0 ()) := by
  refine ⟨fun () => by decide, by decide, ?_⟩
  rintro ⟨-, -, h, -⟩
  obtain ⟨j, entry, hentry, hover⟩ := h rfl (by decide +kernel)
  match j, hentry with
  | 0, hentry =>
    obtain rfl := Option.some.inj hentry
    exact absurd hover (by decide +kernel)
  | 1, hentry =>
    obtain rfl := Option.some.inj hentry
    exact absurd hover (by decide +kernel)
  | j + 2, hentry => cases hentry

end RatelimitFlex
