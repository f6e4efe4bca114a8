import RatelimitFlex.Analysis.ComposedUndo

/-!
# Undo frames and the hits they stand for

`Tracked` is the composed store with an account of one key beside it: which increments were
allowed, which ones have a frame on the stack, and which increment each hit in a window
belongs to.  `Mirrors` says that the account is the stores' own: a sliding window's stamps
are its hits' times, a fixed window's count is their number.  A frame goes with a decrement
or a reset, a hit also when its window ends; `FramesCovered` says when no frame is left
over.  `FramesLive` is the plain way to be so: no frame outlives its hits.  Without decrements
it is the only one.
-/

set_option autoImplicit false

namespace RatelimitFlex

open Library

variable {κ : Type} [DecidableEq κ]

/-! ## Hits and the increments they belong to -/

/-- A hit, and the number of the increment that made it. -/
structure OwnedHit where
  time : ℤ
  owner : ℕ
  deriving DecidableEq

namespace Cell

/-- Of the hits a window holds those inside it at `now`. -/
def inside (now : ℤ) (hits : List OwnedHit) : Cell → List OwnedHit
  | .sliding o _ => hits.filter fun h => decide (now - o.windowMs < h.time)
  | .fixed _ e => if e.any fun s => decide (now < s.resetTime) then hits else []
  | .bucket _ _ => []

/-- The hits a decrement leaves: from a sliding window it takes the oldest unless told
otherwise, a fixed window keeps no order and is taken to lose the newest. -/
def takenBack (options : RateLimitDecrementOptions) (hits : List OwnedHit) :
    Cell → List OwnedHit
  | .sliding _ _ =>
    if options.removeNewest then hits.take (hits.length - options.sanitizedCost)
    else hits.drop options.sanitizedCost
  | _ => hits.take (hits.length - options.sanitizedCost)

/-- A window that holds these hits, and no wall expiry. -/
def Holds (hits : List OwnedHit) : Cell → Prop
  | .sliding _ e => (∀ s ∈ e, s.wallExpiresAt = none) ∧ stampsOf e = hits.map OwnedHit.time
  | .fixed _ e => (e.map FixedEntry.count).getD 0 = hits.length
  | .bucket _ _ => False

end Cell

/-- The hits of a layer after an increment by `owner`. -/
def LayerEffect.hits (now : ℤ) (owner : ℕ) (inc : RateLimitIncrementOptions)
    (dec : RateLimitDecrementOptions) (x : Cell) (hits : List OwnedHit) :
    LayerEffect → List OwnedHit
  | .untouched => hits
  | .charged => x.inside now hits ++ List.replicate inc.sanitizedCost ⟨now, owner⟩
  | .restored =>
    x.takenBack dec (x.inside now hits ++ List.replicate inc.sanitizedCost ⟨now, owner⟩)

/-! ## The tracked store -/

inductive ComposedOp where
  | increment (call : ComposedCall)
  | decrement (options : RateLimitDecrementOptions)
  | reset

/-- The composed store and the account of one key; `framed` has the stack's top first. -/
structure Tracked (κ : Type) [DecidableEq κ] where
  store : ComposedState (StoreBank κ) κ
  made : ℕ := 0
  allowed : Finset ℕ := ∅
  framed : List ℕ := []
  held : ℕ → List OwnedHit := fun _ => []

/-- The increments of the frames on a stack of height `n`, when `last` is the newest. -/
def retained (last n : ℕ) (framed : List ℕ) : List ℕ :=
  if framed.length < n then last :: framed else framed.drop (framed.length - n)

namespace Composition

variable (c : Composition κ) (key : κ)

/-- SOURCE: src/composition/ComposedStore.ts:880-894 -/
def reset (st : ComposedState (StoreBank κ) κ) : ComposedState (StoreBank κ) κ where
  inner := StoreBank.mapStores (fun j spec m => m.reset st.inner.now (c.targetKey key j spec)) 0
    c.specs st.inner
  decrementStacks := Function.update st.decrementStacks key []
  firstAvailableWinner := Function.update st.firstAvailableWinner key none
  overflowRoute := Function.update st.overflowRoute key none
  overflowRouteExpiryMs := Function.update st.overflowRouteExpiryMs key none

/-- The key's cell in layer `j`. -/
def layerCell (j : ℕ) (spec : LayerSpec κ) (st : ComposedState (StoreBank κ) κ) : Cell :=
  (st.inner.stores j).cell (c.targetKey key j spec)

/-- One operation, and what it does to the account. -/
def trackedStep (i : Timed ComposedOp) (a : Tracked κ) : Tracked κ × Unit :=
  match i.op with
  | .increment call =>
    let bank := bankAt ⟨i.time, call⟩ a.store
    let r := c.callStep key ⟨i.time, call⟩ a.store
    ({ store := r.1
       made := a.made + 1
       allowed := if allows r.2 then insert a.made a.allowed else a.allowed
       framed := retained a.made (r.1.decrementStacks key).length a.framed
       held := fun j => match c.specs[j]? with
         | some spec => (c.effect key call.options bank j).hits i.time a.made
             (spec.incrementOptions call.options) (spec.rollbackOptions call.options)
             (c.layerCell key j spec a.store) (a.held j)
         | none => [] }, ())
  | .decrement options =>
    let store := c.store.decrement key options a.store
    ({ a with
       store
       framed := retained a.made (store.decrementStacks key).length a.framed
       held := fun j => match c.specs[j]? with
         | some spec =>
           if j ∈ c.decrementTargets key a.store then
             (c.layerCell key j spec a.store).takenBack options (a.held j)
           else a.held j
         | none => [] }, ())
  | .reset =>
    let store := c.reset key { a.store with inner := { a.store.inner with now := i.time } }
    ({ a with
       store
       framed := retained a.made (store.decrementStacks key).length a.framed
       held := fun _ => [] }, ())

/-- The increments with hits inside some layer's window. -/
def insiders (now : ℤ) (a : Tracked κ) : Finset ℕ :=
  (c.specs.zipIdx.flatMap fun p =>
    ((c.layerCell key p.2 p.1 a.store).inside now (a.held p.2)).map OwnedHit.owner).toFinset

/-- The allowed increments whose hits are still inside some layer's current window. -/
def live (now : ℤ) (a : Tracked κ) : Finset ℕ := a.allowed ∩ c.insiders key now a

/-- After each increment the key has at most as many frames as it has live increments. -/
def FramesBounded (is : List (Timed ComposedOp)) (a : Tracked κ) : Prop :=
  Guarded (fun i a => match i.op with
    | .increment _ =>
      let a' := (c.trackedStep key i a).1
      (a'.store.decrementStacks key).length ≤ (c.live key i.time a').card
    | _ => True) (c.trackedStep key) is a

/-- The race is decided by a layer that blocks. -/
def winnerBlocks (options : RateLimitIncrementOptions) (s : StoreBank κ) : Bool :=
  (c.winner key options s).any fun w => !w.2

/-- The frames that have outlived their hits. -/
def outlived (now : ℤ) (a : Tracked κ) : Finset ℕ := a.framed.toFinset \ c.live key now a

/-- The live increments that a decrement has taken the frame of. -/
def unframed (now : ℤ) (a : Tracked κ) : Finset ℕ := c.live key now a \ a.framed.toFinset

/-- Whenever an increment comes, the frames that have outlived their hits, and the one a
blocked winner would add, make up for live increments without a frame. -/
def FramesCovered (is : List (Timed ComposedOp)) (a : Tracked κ) : Prop :=
  Guarded (fun i a => match i.op with
    | .increment call =>
      (c.outlived key i.time a).card +
          (if c.winnerBlocks key call.options (bankAt ⟨i.time, call⟩ a.store) then 1 else 0) ≤
        (c.unframed key i.time a).card
    | _ => True) (c.trackedStep key) is a

/-- Whenever an increment comes, no frame has outlived its hits, and no race is decided by a layer
that blocks. -/
def FramesLive (is : List (Timed ComposedOp)) (a : Tracked κ) : Prop :=
  Guarded (fun i a => match i.op with
    | .increment call =>
      c.outlived key i.time a = ∅ ∧
        c.winnerBlocks key call.options (bankAt ⟨i.time, call⟩ a.store) = false
    | _ => True) (c.trackedStep key) is a

/-- Every allowed increment that a window still has hits of has its frame. -/
def AllFramed (a : Tracked κ) : Prop :=
  ∀ n ∈ a.allowed, (∃ j spec, c.specs[j]? = some spec ∧ n ∈ (a.held j).map OwnedHit.owner) →
    n ∈ a.framed

/-- The account is that of the stores and the stack. -/
structure Mirrors (a : Tracked κ) : Prop where
  frames : a.framed.length = (a.store.decrementStacks key).length
  distinct : a.framed.Nodup
  framed_made : ∀ n ∈ a.framed, n < a.made
  allowed_made : ∀ n ∈ a.allowed, n < a.made
  stack_nodup : ∀ f ∈ a.store.decrementStacks key, f.Nodup
  held : ∀ j spec, c.specs[j]? = some spec → (c.layerCell key j spec a.store).Holds (a.held j)

end Composition

/-! ## One window -/

namespace Cell

variable {now : ℤ} {owner : ℕ} {x : Cell} {hits : List OwnedHit}

/-- Nothing is inside a window without hits. -/
theorem inside_nil (x : Cell) : x.inside now [] = [] := by
  cases x with
  | sliding o e => rfl
  | fixed o e => simp only [inside, ite_self]
  | bucket o e => rfl

/-- What is inside a window is among its hits. -/
theorem inside_subset (x : Cell) : x.inside now hits ⊆ hits := by
  cases x with
  | sliding o e => exact List.filter_subset_self _
  | fixed o e =>
    simp only [inside]
    split
    · exact List.Subset.refl _
    · exact List.nil_subset _
  | bucket o e => exact List.nil_subset _

/-- What a decrement leaves was there. -/
theorem takenBack_subset (x : Cell) {options : RateLimitDecrementOptions} :
    x.takenBack options hits ⊆ hits := by
  cases x with
  | sliding o e =>
    simp only [takenBack]
    split
    · exact List.take_subset _ _
    · exact List.drop_subset _ _
  | fixed o e => exact List.take_subset _ _
  | bucket o e => exact List.take_subset _ _

/-- Hits put at the end are taken off the end. -/
theorem take_length_sub_replicate (l : List OwnedHit) (n : ℕ) (h : OwnedHit) :
    (l ++ List.replicate n h).take ((l ++ List.replicate n h).length - n) = l := by
  rw [List.length_append, List.length_replicate, Nat.add_sub_cancel, List.take_left']
  rfl

/-- A charged window holds what was inside it, and the new hits. -/
theorem Holds.charged (h : x.Holds hits) (inc : RateLimitIncrementOptions) :
    ((x.clearWall now).increment now inc).1.Holds
        (x.inside now hits ++ List.replicate inc.sanitizedCost ⟨now, owner⟩) ∧
      ((x.clearWall now).increment now inc).1.inside now
          (x.inside now hits ++ List.replicate inc.sanitizedCost ⟨now, owner⟩) =
        x.inside now hits ++ List.replicate inc.sanitizedCost ⟨now, owner⟩ := by
  cases x with
  | sliding o e =>
    have hW := o.windowMs_pos
    obtain ⟨hwall, hstamps⟩ := h
    simp only [clearWall, unexpired_of_none now hwall, Cell.increment, inside, Holds]
    refine ⟨⟨by simp, ?_⟩, ?_⟩
    · rw [stampsOf_some, hstamps, List.map_append, List.map_replicate, liveStamps,
        List.filter_map]
      rfl
    · rw [List.filter_append, List.filter_filter]
      simp only [Bool.and_self]
      congr 1
      apply List.filter_eq_self.mpr
      intro a ha
      rw [List.eq_of_mem_replicate ha]
      simp only [decide_eq_true_eq]
      omega
  | fixed o e =>
    have hW := o.windowMs_pos
    simp only [Holds] at h
    simp only [clearWall, Cell.increment, inside, Holds, Option.map_some, Option.getD_some,
      Option.any_some, List.length_append, List.length_replicate]
    cases e with
    | none =>
      simp [fixedAfterIncrement]
      omega
    | some s =>
      by_cases hend : s.resetTime ≤ now
      · simp [fixedAfterIncrement, hend]
        omega
      · rw [Option.map_some, Option.getD_some] at h
        simp [fixedAfterIncrement, hend, lt_of_not_ge hend, h]
  | bucket o e => exact h.elim

/-- After a decrement a window holds what it leaves. -/
theorem Holds.decrement (h : x.Holds hits) (options : RateLimitDecrementOptions) :
    (x.decrement options).Holds (x.takenBack options hits) := by
  cases x with
  | sliding o e =>
    obtain ⟨hwall, hstamps⟩ := h
    cases hnew : options.removeNewest with
    | true =>
      simp only [Cell.decrement, takenBack, hnew, if_true, Holds]
      refine ⟨wall_slidingAfterDecrement _ hwall, ?_⟩
      rw [stampsOf_slidingAfterDecrement (by simp), hstamps, List.length_map, List.map_take]
    | false =>
      simp only [Cell.decrement, takenBack, hnew, Bool.false_eq_true, if_false, Holds]
      refine ⟨wall_slidingAfterDecrement _ hwall, ?_⟩
      rw [stampsOf_slidingAfterDecrement List.drop_nil, hstamps, List.map_drop]
  | fixed o e =>
    simp only [Holds] at h
    simp only [Cell.decrement, takenBack, Holds, List.length_take]
    have hc := options.one_le_sanitizedCost
    cases e with
    | none =>
      simp only [Option.map_none, Option.getD_none] at h
      simp only [fixedAfterDecrement, Option.map_none, Option.getD_none]
      omega
    | some s =>
      simp only [Option.map_some, Option.getD_some] at h
      simp only [fixedAfterDecrement]
      split
      · simp only [Option.map_some, Option.getD_some]
        omega
      · split
        · simp only [Option.map_none, Option.getD_none]
          omega
        · simp only [Option.map_some, Option.getD_some]
          omega
  | bucket o e => exact h.elim

/-- After a reset it holds nothing. -/
theorem Holds.reset (h : x.Holds hits) : (x.reset now).Holds [] := by
  cases x with
  | sliding o e => exact ⟨by simp, rfl⟩
  | fixed o e => rfl
  | bucket o e => exact h.elim

/-- A window that is charged and restored holds what was inside it. -/
theorem Holds.restored (h : x.Holds hits) {inc : RateLimitIncrementOptions}
    {dec : RateLimitDecrementOptions} (hcost : dec.sanitizedCost = inc.sanitizedCost)
    (hnew : dec.removeNewest = true) :
    x.takenBack dec (x.inside now hits ++ List.replicate inc.sanitizedCost ⟨now, owner⟩) =
        x.inside now hits ∧
      (((x.clearWall now).increment now inc).1.decrement dec).Holds (x.inside now hits) ∧
      (((x.clearWall now).increment now inc).1.decrement dec).inside now (x.inside now hits) =
        x.inside now hits := by
  have hback : x.takenBack dec
      (x.inside now hits ++ List.replicate inc.sanitizedCost ⟨now, owner⟩) =
        x.inside now hits := by
    cases x with
    | sliding o e =>
      simp only [takenBack, hnew, if_true, hcost]
      exact take_length_sub_replicate _ _ _
    | fixed o e =>
      simp only [takenBack, hcost]
      exact take_length_sub_replicate _ _ _
    | bucket o e => exact h.elim
  have hsame : ((x.clearWall now).increment now inc).1.takenBack dec
      (x.inside now hits ++ List.replicate inc.sanitizedCost ⟨now, owner⟩) =
        x.inside now hits := by
    refine Eq.trans ?_ hback
    cases x <;> rfl
  refine ⟨hback, ?_, ?_⟩
  · have hheld := (@Holds.charged now owner x hits h inc).1.decrement dec
    rw [hsame] at hheld
    exact hheld
  · cases x with
    | sliding o e =>
      simp only [clearWall, Cell.increment, Cell.decrement, hnew, if_true, inside,
        List.filter_filter, Bool.and_self]
    | fixed o e =>
      -- a slice that has hits runs on, as its count stays positive
      simp only [Holds] at h
      cases e with
      | none => exact inside_nil _
      | some s =>
        by_cases hend : now < s.resetTime
        · rcases hits.eq_nil_or_concat with rfl | ⟨l, a, rfl⟩
          · rw [inside_nil]
            exact inside_nil _
          · have hc := inc.one_le_sanitizedCost
            simp only [Option.map_some, Option.getD_some, List.length_concat] at h
            simp only [clearWall, Cell.increment, Cell.decrement, fixedAfterIncrement,
              if_neg (not_le.mpr hend), fixedAfterDecrement, hcost]
            rw [if_neg (by omega), if_neg (by omega)]
            simp [inside, hend]
        · have hout : (Cell.fixed o (some s)).inside now hits = [] := by
            simp [inside, hend]
          rw [hout]
          exact inside_nil _
    | bucket o e => exact h.elim

/-- An increment, whatever it does to a window: the hits are those of the window after it,
and inside it are the old ones and, if it is charged, the new ones. -/
theorem Holds.effect {m : MemoryStore κ} {k : κ} (h : (m.cell k).Holds hits)
    {inc : RateLimitIncrementOptions} {dec : RateLimitDecrementOptions}
    (hcost : dec.sanitizedCost = inc.sanitizedCost) (hnew : dec.removeNewest = true)
    (e : LayerEffect) :
    ((e.apply now k inc dec m).cell k).Holds (e.hits now owner inc dec (m.cell k) hits) ∧
      ((e.apply now k inc dec m).cell k).inside now
          (e.hits now owner inc dec (m.cell k) hits) =
        (m.cell k).inside now hits ++
          if e = .charged then List.replicate inc.sanitizedCost ⟨now, owner⟩ else [] := by
  cases e with
  | untouched => simp [LayerEffect.apply, LayerEffect.hits, h]
  | charged =>
    simp only [LayerEffect.apply, LayerEffect.hits, MemoryStore.cell_increment_own, if_true]
    exact h.charged inc
  | restored =>
    obtain ⟨hback, hheld, hinside⟩ := @Holds.restored now owner _ _ h inc dec hcost hnew
    simp only [LayerEffect.apply, LayerEffect.hits, MemoryStore.cell_decrement_own,
      MemoryStore.cell_increment_own, hback, reduceCtorEq, if_false, List.append_nil]
    exact ⟨hheld, hinside⟩

end Cell

/-! ## The frames' increments -/

section Retained

variable {last n : ℕ} {framed : List ℕ}

/-- There are as many retained increments as frames. -/
theorem length_retained (h : n ≤ framed.length + 1) : (retained last n framed).length = n := by
  unfold retained
  split
  · rw [List.length_cons]
    omega
  · rw [List.length_drop]
    omega

/-- A retained increment is the newest or was there. -/
theorem mem_of_mem_retained {a : ℕ} (h : a ∈ retained last n framed) : a = last ∨ a ∈ framed := by
  unfold retained at h
  split at h
  · exact List.mem_cons.mp h
  · exact Or.inr (List.mem_of_mem_drop h)

/-- None is retained twice. -/
theorem nodup_retained (hnodup : framed.Nodup) (hlast : last ∉ framed) :
    (retained last n framed).Nodup := by
  unfold retained
  split
  · exact List.nodup_cons.mpr ⟨hlast, hnodup⟩
  · exact hnodup.sublist (List.drop_sublist _ _)

end Retained

namespace Composition

variable {c : Composition κ} {key : κ} {a : Tracked κ}

/-- An increment is inside when a layer's window has a hit of it. -/
theorem mem_insiders {now : ℤ} {n : ℕ} :
    n ∈ c.insiders key now a ↔ ∃ j spec, c.specs[j]? = some spec ∧
      n ∈ ((c.layerCell key j spec a.store).inside now (a.held j)).map OwnedHit.owner := by
  simp only [insiders, List.mem_toFinset, List.mem_flatMap, Prod.exists,
    List.mem_zipIdx_iff_getElem?]
  exact ⟨fun ⟨spec, j, h⟩ => ⟨j, spec, h⟩, fun ⟨j, spec, h⟩ => ⟨spec, j, h⟩⟩

/-- A granted increment is granted by one of the layers. -/
theorem exists_lt_of_granted {options : RateLimitIncrementOptions} {s : StoreBank κ}
    {frame : List ℕ} (h : c.grantedFrame key options s = some frame) :
    ∃ j ∈ frame, j < c.specs.length := by
  have hlen : (c.answers key options s).length = c.specs.length := by simp [answers]
  have hpos : 0 < c.specs.length := List.length_pos_iff.mpr c.specs_ne
  cases hmode : c.mode with
  | all =>
    simp only [grantedFrame, pushedFrame, hmode] at h
    split at h
    · simp at h
    · obtain rfl := Option.some.inj h
      exact ⟨0, List.mem_range.mpr hpos, hpos⟩
  | overflow =>
    have htwo := c.overflow_two hmode
    simp only [grantedFrame, pushedFrame, hmode] at h
    split at h
    · obtain rfl := Option.some.inj h
      exact ⟨0, List.mem_singleton_self 0, hpos⟩
    · split at h
      · obtain rfl := Option.some.inj h
        exact ⟨1, List.mem_singleton_self 1, by omega⟩
      · simp at h
  | firstAvailable =>
    simp only [grantedFrame, pushedFrame, winner, hmode, Option.map_map] at h
    obtain ⟨w, hw, rfl⟩ := Option.map_eq_some_iff.mp h
    obtain ⟨hlt, -, -⟩ := List.findIdx?_eq_some_iff_getElem.mp hw
    exact ⟨w, List.mem_singleton_self w, hlen ▸ hlt⟩
  | race =>
    simp only [grantedFrame, winner, hmode] at h
    obtain ⟨p, hp, rfl⟩ := Option.map_eq_some_iff.mp h
    obtain ⟨hmap, -⟩ := Option.filter_eq_some_iff.mp hp
    obtain ⟨⟨w, r⟩, hw, rfl⟩ := Option.map_eq_some_iff.mp hmap
    obtain ⟨first, -, hwin⟩ := Option.bind_eq_some_iff.mp hw
    obtain ⟨hlt, -⟩ := List.getElem?_eq_some_iff.mp (raceWinner_eq_some hwin)
    exact ⟨w, List.mem_singleton_self w, hlen ▸ hlt⟩

/-- A frame is pushed for an allowed increment, and for a blocked winner of a race. -/
theorem isSome_pushedFrame (options : RateLimitIncrementOptions) (s : StoreBank κ) :
    (c.pushedFrame key options s).isSome =
        ((c.grantedFrame key options s).isSome || c.winnerBlocks key options s) ∧
      ((c.grantedFrame key options s).isSome = true →
        c.winnerBlocks key options s = false) := by
  cases hmode : c.mode with
  | all => simp [grantedFrame, winnerBlocks, winner, hmode]
  | overflow => simp [grantedFrame, winnerBlocks, winner, hmode]
  | firstAvailable =>
    have hallow : c.winnerBlocks key options s = false := by
      simp only [winnerBlocks, winner, hmode]
      cases (c.answers key options s).findIdx? allows <;> rfl
    simp [grantedFrame, hmode, hallow]
  | race =>
    simp only [pushedFrame, grantedFrame, winnerBlocks, hmode]
    cases c.winner key options s with
    | none => simp
    | some w => cases h : w.2 <;> simp [Option.filter, h]

/-! ## One operation -/

section Step

variable {t : ℤ}

section Increment

variable (call : ComposedCall)

/-- What an increment does to a window: it holds the hits of the account, and inside it are the
old ones and, if it is charged, the new ones. -/
theorem Mirrors.layerCell_increment (h : c.Mirrors key a) {j : ℕ} {spec : LayerSpec κ}
    (hspec : c.specs[j]? = some spec) :
    let a' := (c.trackedStep key ⟨t, .increment call⟩ a).1
    (c.layerCell key j spec a'.store).Holds (a'.held j) ∧
      (c.layerCell key j spec a'.store).inside t (a'.held j) =
        (c.layerCell key j spec a.store).inside t (a.held j) ++
          if c.effect key call.options (bankAt ⟨t, call⟩ a.store) j = .charged then
            List.replicate (spec.incrementOptions call.options).sanitizedCost ⟨t, a.made⟩
          else [] := by
  intro a'
  have hstep := stepped_increment c key call.options
    { a.store with inner := bankAt ⟨t, call⟩ a.store }
  have hheld : a'.held j = (c.effect key call.options (bankAt ⟨t, call⟩ a.store) j).hits t a.made
      (spec.incrementOptions call.options) (spec.rollbackOptions call.options)
      (c.layerCell key j spec a.store) (a.held j) := by
    simp only [a', trackedStep, hspec]
  have hstore : a'.store.inner.stores j =
      (c.effect key call.options (bankAt ⟨t, call⟩ a.store) j).apply t
        (c.targetKey key j spec) (spec.incrementOptions call.options)
        (spec.rollbackOptions call.options) (a.store.inner.stores j) := hstep.stores j spec hspec
  have hcost : (spec.rollbackOptions call.options).sanitizedCost =
      (spec.incrementOptions call.options).sanitizedCost :=
    sanitizedCost_matchingDecrementOptions (spec.incrementOptions call.options)
  rw [hheld, show c.layerCell key j spec a'.store =
    (a'.store.inner.stores j).cell (c.targetKey key j spec) from rfl, hstore]
  exact (h.held j spec hspec).effect hcost rfl _

/-- An increment is allowed when it is granted, and pushes at most one frame. -/
theorem trackedStep_increment (c : Composition κ) (key : κ) (a : Tracked κ)
    (call : ComposedCall) :
    let a' := (c.trackedStep key ⟨t, .increment call⟩ a).1
    let bank := bankAt ⟨t, call⟩ a.store
    a'.allowed = (if (c.grantedFrame key call.options bank).isSome then
        insert a.made a.allowed else a.allowed) ∧
      a'.store.decrementStacks key =
        (c.pushedFrame key call.options bank).toList ++ a.store.decrementStacks key := by
  intro a' bank
  have hstep := stepped_increment c key call.options { a.store with inner := bank }
  have hallows : allows (c.callStep key ⟨t, call⟩ a.store).2 =
      (c.grantedFrame key call.options bank).isSome := by
    rw [← isSome_grants (c := c)]
    exact congrArg Option.isSome hstep.grants
  refine ⟨?_, hstep.stack⟩
  rw [← hallows]
  rfl

/-- The frames after an increment. -/
theorem Mirrors.length_increment (h : c.Mirrors key a) :
    ((c.trackedStep key ⟨t, .increment call⟩ a).1.store.decrementStacks key).length =
      a.framed.length +
        (if (c.pushedFrame key call.options (bankAt ⟨t, call⟩ a.store)).isSome then 1 else 0) := by
  rw [(trackedStep_increment c key a call).2, List.length_append, h.frames]
  cases c.pushedFrame key call.options (bankAt ⟨t, call⟩ a.store) <;> simp [Nat.add_comm]

/-- The account of an increment is that of the stores and the stack. -/
theorem Mirrors.increment (h : c.Mirrors key a) :
    c.Mirrors key (c.trackedStep key ⟨t, .increment call⟩ a).1 := by
  obtain ⟨hallowed, hstack⟩ := @trackedStep_increment _ _ t c key a call
  have hle : ((c.trackedStep key ⟨t, .increment call⟩ a).1.store.decrementStacks key).length ≤
      a.framed.length + 1 := by
    rw [h.length_increment]
    split <;> omega
  have hfresh : a.made ∉ a.framed := fun hmem => lt_irrefl _ (h.framed_made _ hmem)
  refine ⟨length_retained hle, nodup_retained h.distinct hfresh, ?_, ?_, ?_,
    fun j spec hspec => (h.layerCell_increment call hspec).1⟩
  · intro n hn
    rcases mem_of_mem_retained hn with rfl | hn
    · exact Nat.lt_succ_self _
    · exact (h.framed_made n hn).trans (Nat.lt_succ_self _)
  · intro n hn
    rw [hallowed] at hn
    have hold : n ∈ a.allowed → n < a.made + 1 := fun hn =>
      (h.allowed_made n hn).trans (Nat.lt_succ_self _)
    split at hn
    · rcases Finset.mem_insert.mp hn with rfl | hn
      · exact Nat.lt_succ_self _
      · exact hold hn
    · exact hold hn
  · intro f hf
    rw [hstack] at hf
    rcases List.mem_append.mp hf with hf | hf
    · exact (pushedFrame_spec (Option.mem_toList.mp hf)).1
    · exact h.stack_nodup f hf

/-- Inside some window are then the old increments, and the new one if a window is charged. -/
theorem Mirrors.mem_insiders_increment (h : c.Mirrors key a) (n : ℕ) :
    n ∈ c.insiders key t (c.trackedStep key ⟨t, .increment call⟩ a).1 ↔
      n ∈ c.insiders key t a ∨ n = a.made ∧ ∃ j spec, c.specs[j]? = some spec ∧
        c.effect key call.options (bankAt ⟨t, call⟩ a.store) j = .charged := by
  rw [mem_insiders, mem_insiders]
  constructor
  · rintro ⟨j, spec, hspec, hn⟩
    rw [(h.layerCell_increment call hspec).2, List.map_append, List.mem_append] at hn
    rcases hn with hn | hn
    · exact Or.inl ⟨j, spec, hspec, hn⟩
    · split at hn
      · next hcharged =>
        obtain ⟨x, hx, rfl⟩ := List.mem_map.mp hn
        rw [List.eq_of_mem_replicate hx]
        exact Or.inr ⟨rfl, j, spec, hspec, hcharged⟩
      · simp at hn
  · rintro (⟨j, spec, hspec, hn⟩ | ⟨rfl, j, spec, hspec, hcharged⟩)
    · refine ⟨j, spec, hspec, ?_⟩
      rw [(h.layerCell_increment call hspec).2, List.map_append]
      exact List.mem_append_left _ hn
    · refine ⟨j, spec, hspec, ?_⟩
      have hc := (spec.incrementOptions call.options).one_le_sanitizedCost
      rw [(h.layerCell_increment call hspec).2, if_pos hcharged, List.map_append,
        List.map_replicate]
      exact List.mem_append_right _ (List.mem_replicate.mpr ⟨by omega, rfl⟩)

/-- The live increments stay and, if it is allowed, the new one is one of them. -/
theorem Mirrors.card_live_increment (h : c.Mirrors key a) :
    (c.live key t (c.trackedStep key ⟨t, .increment call⟩ a).1).card =
      (c.live key t a).card +
        (if (c.grantedFrame key call.options (bankAt ⟨t, call⟩ a.store)).isSome then 1
          else 0) := by
  have hallowed := (@trackedStep_increment _ _ t c key a call).1
  have hinsiders := h.mem_insiders_increment (t := t) call
  have hnot : a.made ∉ a.allowed := fun hmem => lt_irrefl _ (h.allowed_made _ hmem)
  cases hgranted : c.grantedFrame key call.options (bankAt ⟨t, call⟩ a.store) with
  | none =>
    have hsame : c.live key t (c.trackedStep key ⟨t, .increment call⟩ a).1 = c.live key t a := by
      ext n
      simp only [live, Finset.mem_inter, hallowed, hgranted, Option.isSome_none,
        Bool.false_eq_true, if_false, hinsiders]
      refine and_congr_right fun hn => or_iff_left ?_
      rintro ⟨rfl, -⟩
      exact hnot hn
    rw [hsame]
    rfl
  | some frame =>
    obtain ⟨j, hj, hlt⟩ := exists_lt_of_granted hgranted
    have hadd : c.live key t (c.trackedStep key ⟨t, .increment call⟩ a).1 =
        insert a.made (c.live key t a) := by
      ext n
      simp only [live, Finset.mem_inter, Finset.mem_insert, hallowed, hgranted,
        Option.isSome_some, if_true, hinsiders]
      constructor
      · rintro ⟨rfl | hn, hin⟩
        · exact Or.inl rfl
        · rcases hin with hin | ⟨rfl, -⟩
          · exact Or.inr ⟨hn, hin⟩
          · exact Or.inl rfl
      · rintro (rfl | ⟨hn, hin⟩)
        · exact ⟨Or.inl rfl, Or.inr ⟨rfl, j, _, List.getElem?_eq_getElem hlt,
            effect_of_granted hgranted hj hlt⟩⟩
        · exact ⟨Or.inr hn, Or.inl hin⟩
    have hnew : a.made ∉ c.live key t a := fun hmem => hnot (Finset.mem_inter.mp hmem).1
    rw [hadd, Finset.card_insert_of_notMem hnew]
    rfl

end Increment

/-- A decrement takes the hits of one frame out of the account and out of the windows. -/
theorem Mirrors.decrement (h : c.Mirrors key a) (options : RateLimitDecrementOptions) :
    c.Mirrors key (c.trackedStep key ⟨t, .decrement options⟩ a).1 := by
  have hframe : ∀ f ∈ (a.store.decrementStacks key).head?, f.Nodup := fun f hf =>
    h.stack_nodup f (List.mem_of_mem_head? hf)
  have htargets : (c.decrementTargets key a.store).Nodup := by
    have hhead : ((a.store.decrementStacks key).head?.getD []).Nodup := by
      cases hf : (a.store.decrementStacks key).head? with
      | none => exact List.nodup_nil
      | some f => exact hframe f hf
    cases hmode : c.mode with
    | all => simpa [decrementTargets, hmode] using hhead
    | overflow =>
      simp only [decrementTargets, hmode]
      exact hhead.sublist (List.take_sublist _ _)
    | firstAvailable => simp [decrementTargets, hmode]
    | race => simpa [decrementTargets, hmode] using hhead
  have hdec := decremented_decrement options a.store htargets
  have hsub : ((c.store.decrement key options a.store).decrementStacks key).Sublist
      (a.store.decrementStacks key) := by
    rw [hdec.stack]
    split
    · exact List.Sublist.refl _
    · exact List.tail_sublist _
  have hle : ((c.store.decrement key options a.store).decrementStacks key).length ≤
      a.framed.length := h.frames ▸ hsub.length_le
  refine ⟨length_retained (hle.trans (Nat.le_succ _)), ?_, ?_, h.allowed_made,
    fun f hf => h.stack_nodup f (hsub.subset hf), ?_⟩
  · exact nodup_retained h.distinct fun hmem => lt_irrefl _ (h.framed_made _ hmem)
  · intro n hn
    have hkept : (c.trackedStep key ⟨t, .decrement options⟩ a).1.framed =
        a.framed.drop (a.framed.length -
          ((c.store.decrement key options a.store).decrementStacks key).length) :=
      if_neg (by omega)
    rw [hkept] at hn
    exact h.framed_made n (List.mem_of_mem_drop hn)
  · intro j spec hspec
    have hheld := h.held j spec hspec
    simp only [trackedStep, hspec, layerCell, hdec.stores j spec hspec]
    split
    · rw [MemoryStore.cell_decrement_own]
      exact hheld.decrement options
    · exact hheld

/-- A reset takes all of them. -/
theorem Mirrors.reset (h : c.Mirrors key a) :
    c.Mirrors key (c.trackedStep key ⟨t, .reset⟩ a).1 := by
  have hempty : (c.trackedStep key ⟨t, .reset⟩ a).1.framed = [] := by
    simp [trackedStep, Composition.reset, retained]
  have hstack : (c.trackedStep key ⟨t, .reset⟩ a).1.store.decrementStacks key = [] := by
    simp [trackedStep, Composition.reset]
  refine ⟨by rw [hempty, hstack]; rfl, by rw [hempty]; exact List.nodup_nil, by simp [hempty],
    h.allowed_made, by simp [hstack], ?_⟩
  intro j spec hspec
  have hstore := StoreBank.stores_mapStores
    (fun j spec m => m.reset t (c.targetKey key j spec)) 0 c.specs
    { a.store.inner with now := t } j
  simp only [Nat.zero_add, hspec] at hstore
  have hcell : c.layerCell key j spec (c.trackedStep key ⟨t, .reset⟩ a).1.store =
      (c.layerCell key j spec a.store).reset t := by
    simp only [layerCell, trackedStep, Composition.reset, hstore, MemoryStore.cell_reset,
      if_true]
  rw [hcell]
  exact (h.held j spec hspec).reset

/-- Every operation keeps the account. -/
theorem Mirrors.step (h : c.Mirrors key a) (i : Timed ComposedOp) :
    c.Mirrors key (c.trackedStep key i a).1 := by
  obtain ⟨t, op⟩ := i
  cases op with
  | increment call => exact h.increment call
  | decrement options => exact h.decrement options
  | reset => exact h.reset

end Step

/-! ## Runs -/

/-- A key without frames, in windows that hold nothing of it. -/
def Unused (c : Composition κ) (key : κ) (st : ComposedState (StoreBank κ) κ) : Prop :=
  st.decrementStacks key = [] ∧
    ∀ j spec, c.specs[j]? = some spec → (c.layerCell key j spec st).Holds []

/-- The account of an unused key is that of its stores. -/
theorem Unused.mirrors {st : ComposedState (StoreBank κ) κ} (h : c.Unused key st) :
    c.Mirrors key { store := st } :=
  { frames := by rw [h.1]; rfl
    distinct := List.nodup_nil
    framed_made := by simp
    allowed_made := by simp
    stack_nodup := by simp [h.1]
    held := h.2 }

/-- **The account is that of the stores after every run.** -/
theorem mirrors_final {st : ComposedState (StoreBank κ) κ} (h : c.Unused key st) {t : ℤ}
    {is : List (Timed ComposedOp)} (hord : OrderedFrom Timed.time t is) :
    c.Mirrors key (final (c.trackedStep key) is { store := st }) :=
  final_inv (I := fun _ a => c.Mirrors key a) (fun _ _ i ha _ _ => ha.step i) h.mirrors hord
    (guarded_true is _)

/-- The frames are those of live increments and those that have outlived their hits. -/
theorem length_framed (h : c.Mirrors key a) (now : ℤ) :
    a.framed.length + (c.unframed key now a).card =
      (c.live key now a).card + (c.outlived key now a).card := by
  have hframed := Finset.card_sdiff_add_card_inter a.framed.toFinset (c.live key now a)
  have hlive := Finset.card_sdiff_add_card_inter (c.live key now a) a.framed.toFinset
  rw [List.toFinset_card_of_nodup h.distinct] at hframed
  rw [Finset.inter_comm] at hlive
  rw [unframed, outlived]
  omega

/-- **When frames are bounded by live usage.**  In all four modes, for every run of
increments, decrements and resets on a key.  Frames that are live are covered
(`FramesLive.covered`); without decrements no others are (`Unused.framesCovered_iff`).
SOURCE: src/composition/ComposedStore.ts:286-305, 508-511, 548-552, 826-894 -/
theorem composed_frames_bounded_iff (c : Composition κ) (key : κ)
    (st : ComposedState (StoreBank κ) κ) (hst : c.Unused key st) (t : ℤ)
    (is : List (Timed ComposedOp)) (hord : OrderedFrom Timed.time t is) :
    c.FramesBounded key is { store := st } ↔ c.FramesCovered key is { store := st } := by
  apply guarded_congr_of_inv (I := fun _ a => c.Mirrors key a) (fun _ _ i ha _ => ha.step i) ?_
    hst.mirrors hord
  rintro - a ⟨now, op⟩ ha -
  cases op with
  | increment call =>
    have hframes := ha.length_increment (t := now) call
    have hlive := ha.card_live_increment (t := now) call
    have hsplit := length_framed ha now
    obtain ⟨hpushed, hnot⟩ := @isSome_pushedFrame _ _ c key call.options
      (bankAt ⟨now, call⟩ a.store)
    simp only [hframes, hlive, hpushed]
    cases hgranted : (c.grantedFrame key call.options (bankAt ⟨now, call⟩ a.store)).isSome with
    | true =>
      rw [hnot hgranted]
      simp only [Bool.true_or, if_true, Bool.false_eq_true, if_false]
      omega
    | false =>
      simp only [Bool.false_or, Bool.false_eq_true, if_false]
      omega
  | decrement options => exact Iff.rfl
  | reset => exact Iff.rfl

/-! ### The plain condition -/

/-- **Frames that are live are covered.** -/
theorem FramesLive.covered {is : List (Timed ComposedOp)} (h : c.FramesLive key is a) :
    c.FramesCovered key is a := by
  refine h.mono ?_
  rintro ⟨now, op⟩ a hlive
  cases op with
  | increment call =>
    obtain ⟨hout, hblocks⟩ := hlive
    simp only [hout, hblocks, Finset.card_empty, Bool.false_eq_true, if_false]
    exact Nat.zero_le _
  | decrement options => trivial
  | reset => trivial

/-- The hits of an increment after it were there before, or are its own. -/
theorem owner_hits {e : LayerEffect} {now : ℤ} {owner n : ℕ} {inc : RateLimitIncrementOptions}
    {dec : RateLimitDecrementOptions} {x : Cell} {hits : List OwnedHit}
    (h : n ∈ (e.hits now owner inc dec x hits).map OwnedHit.owner) :
    n ∈ hits.map OwnedHit.owner ∨ n = owner := by
  obtain ⟨hit, hmem, rfl⟩ := List.mem_map.mp h
  have hcharged : hit ∈ x.inside now hits ++ List.replicate inc.sanitizedCost ⟨now, owner⟩ →
      hit.owner ∈ hits.map OwnedHit.owner ∨ hit.owner = owner := fun hmem => by
    rcases List.mem_append.mp hmem with hmem | hmem
    · exact Or.inl (List.mem_map_of_mem (x.inside_subset hmem))
    · exact Or.inr (by rw [List.eq_of_mem_replicate hmem])
  cases e with
  | untouched => exact Or.inl (List.mem_map_of_mem hmem)
  | charged => exact hcharged hmem
  | restored => exact hcharged (x.takenBack_subset hmem)

/-- An increment gets its frame when it is allowed, and takes none away. -/
theorem AllFramed.increment (hm : c.Mirrors key a) (h : c.AllFramed a) (call : ComposedCall)
    (now : ℤ) : c.AllFramed (c.trackedStep key ⟨now, .increment call⟩ a).1 := by
  rintro n hn ⟨j, spec, hspec, hheld⟩
  have hallowed := (@trackedStep_increment _ _ now c key a call).1
  have hlen := hm.length_increment (t := now) call
  have hframed : (c.trackedStep key ⟨now, .increment call⟩ a).1.framed =
      retained a.made
        ((c.trackedStep key ⟨now, .increment call⟩ a).1.store.decrementStacks key).length
        a.framed := rfl
  rw [hframed, hlen]
  rw [hallowed] at hn
  simp only [trackedStep, hspec] at hheld
  have hold : n ∈ a.allowed → ∀ d, n ∈ retained a.made (a.framed.length + d) a.framed := by
    intro hmem d
    have hne : n ≠ a.made := fun heq => lt_irrefl _ (heq ▸ hm.allowed_made n hmem)
    have hin := h n hmem ⟨j, spec, hspec, (owner_hits hheld).resolve_right hne⟩
    rw [retained, Nat.sub_eq_zero_of_le (Nat.le_add_right _ _), List.drop_zero]
    split
    · exact List.mem_cons_of_mem _ hin
    · exact hin
  split at hn
  · next hgranted =>
    rcases Finset.mem_insert.mp hn with rfl | hn
    · rw [(isSome_pushedFrame call.options _).1, hgranted, Bool.true_or, if_pos rfl, retained,
        if_pos (Nat.lt_succ_self _)]
      exact List.mem_cons_self
    · exact hold hn _
  · exact hold hn _

/-- A live increment has its frame. -/
theorem AllFramed.unframed_eq (h : c.AllFramed a) (now : ℤ) : c.unframed key now a = ∅ := by
  refine Finset.sdiff_eq_empty_iff_subset.mpr fun n hn => ?_
  obtain ⟨hallowed, hin⟩ := Finset.mem_inter.mp hn
  obtain ⟨j, spec, hspec, hmem⟩ := mem_insiders.mp hin
  refine List.mem_toFinset.mpr (h n hallowed ⟨j, spec, hspec, ?_⟩)
  exact List.map_subset _ (Cell.inside_subset _) hmem

/-- Only a decrement takes the frame of an increment that has hits left. -/
theorem AllFramed.step (hm : c.Mirrors key a) (h : c.AllFramed a) (i : Timed ComposedOp)
    (hi : ∀ options, i.op ≠ .decrement options) : c.AllFramed (c.trackedStep key i a).1 := by
  obtain ⟨now, op⟩ := i
  cases op with
  | increment call => exact h.increment hm call now
  | decrement options => exact absurd rfl (hi options)
  | reset =>
    rintro n - ⟨j, spec, -, hheld⟩
    exact absurd hheld List.not_mem_nil

/-- **Without decrements the plain condition is exact.**  In a run of increments and resets the
frames are covered exactly when none has outlived its hits as an increment comes, and no race is
decided by a layer that blocks. -/
theorem framesCovered_iff_framesLive {is : List (Timed ComposedOp)} (hm : c.Mirrors key a)
    (h : c.AllFramed a) (hnone : ∀ i ∈ is, ∀ options, i.op ≠ .decrement options) :
    c.FramesCovered key is a ↔ c.FramesLive key is a := by
  induction is generalizing a with
  | nil => exact Iff.rfl
  | cons i is ih =>
    have hrest := ih (hm.step i) (h.step hm i (hnone i List.mem_cons_self)) fun j hj =>
      hnone j (List.mem_cons_of_mem _ hj)
    refine and_congr ?_ hrest
    obtain ⟨now, op⟩ := i
    cases op with
    | increment call =>
      simp only [h.unframed_eq, Finset.card_empty, Nat.le_zero, Nat.add_eq_zero_iff,
        Finset.card_eq_zero, ite_eq_right_iff, one_ne_zero, imp_false, Bool.not_eq_true]
    | decrement options => exact Iff.rfl
    | reset => exact Iff.rfl

/-- So it is for a key that was not used before. -/
theorem Unused.framesCovered_iff {st : ComposedState (StoreBank κ) κ} (hst : c.Unused key st)
    {is : List (Timed ComposedOp)} (hnone : ∀ i ∈ is, ∀ options, i.op ≠ .decrement options) :
    c.FramesCovered key is { store := st } ↔ c.FramesLive key is { store := st } :=
  framesCovered_iff_framesLive hst.mirrors (by simp [AllFramed]) hnone

end Composition

/-! ## Two windows of a second -/

/-- A sliding and a fixed window of a second, both new. -/
def slidingThenFixed : ComposedState (StoreBank ℕ) ℕ where
  inner :=
    { stores := fun j =>
        if j = 0 then .sliding tenASecond (KeyTable.new 0) else .fixed tenASecond (KeyTable.new 0)
      now := 0 }

/-- Of the two new windows no key was used. -/
theorem slidingThenFixed_unused (c : Composition ℕ) (key : ℕ) :
    c.Unused key slidingThenFixed := by
  refine ⟨rfl, fun j spec _ => ?_⟩
  unfold Composition.layerCell slidingThenFixed
  by_cases hj : j = 0
  · simp only [if_pos hj]
    exact ⟨by simp [KeyTable.new], rfl⟩
  · simp only [if_neg hj]
    rfl

/-- Increments of cost one at these times. -/
def incrementsAt (times : List ℤ) : List (Timed ComposedOp) :=
  times.map fun t => ⟨t, .increment { options := {} }⟩

/-- Two increments in one second, one of them taken back, a reset, and an increment two
seconds later. -/
theorem composed_frames_bounded_iff_reset :
    (firstAndSecond .all).FramesBounded 7
      (incrementsAt [0, 500] ++ [⟨600, .decrement {}⟩, ⟨2000, .reset⟩] ++ incrementsAt [2500])
      { store := slidingThenFixed } :=
  (Composition.composed_frames_bounded_iff (firstAndSecond .all) 7 slidingThenFixed
    (slidingThenFixed_unused _ 7) 0 _ (by decide)).mpr
    ⟨by decide +kernel, by decide +kernel, trivial, trivial, by decide +kernel, trivial⟩

/-- In any mode, of two allowed increments two seconds apart only one is in a window, and
both have a frame. -/
theorem twoSeconds_unbounded (mode : CompositionMode) :
    ¬ (firstAndSecond mode).FramesBounded 7 (incrementsAt [0, 2000])
      { store := slidingThenFixed } := by
  intro h
  have hsecond := h.2.1
  revert hsecond
  cases mode <;> decide +kernel

/-- A frame outlives its hits: an increment, and one after its window, make two frames of one live
increment. -/
theorem composed_frames_unbounded :
    ¬ ∀ (c : Composition ℕ) (key : ℕ) (st : ComposedState (StoreBank ℕ) ℕ) (t : ℤ)
      (is : List (Timed ComposedOp)), c.Unused key st → OrderedFrom Timed.time t is →
      c.FramesBounded key is { store := st } := by
  intro h
  apply twoSeconds_unbounded .all
  exact h (firstAndSecond .all) 7 slidingThenFixed 0 (incrementsAt [0, 2000])
    (slidingThenFixed_unused _ 7) (by decide)

end RatelimitFlex
