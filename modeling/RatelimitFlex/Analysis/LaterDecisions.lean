import RatelimitFlex.Analysis.StoreOrder

/-!
# What later increments decide

Two stores decide all later increments alike if their cells answer alike and if, of the keys
whose cells are not as good as none, uses keep the same in both (`decidedAlike_of_alike`).
Conversely, after any uses of keys at this moment every cell must answer alike
(`DecidedAlike.cells`): that is how a key that only one store loses is noticed.
-/

set_option autoImplicit false

namespace RatelimitFlex

open Library RecencyOrder

/-! ## One cell -/

namespace Cell

/-- An increment and whether it is blocked. -/
def incrementStep (i : Timed RateLimitIncrementOptions) (x : Cell) : Cell × Bool :=
  let r := (x.clearWall i.time).increment i.time i.op
  (r.1, r.2.isBlocked)

/-- From `t` on every increment answers the same and leaves the same cell. -/
def SameIncrements (t : ℤ) (x y : Cell) : Prop :=
  ∀ now, t ≤ now → ∀ options : RateLimitIncrementOptions,
    (x.clearWall now).increment now options = (y.clearWall now).increment now options

/-- All increments from `t` on are decided alike. -/
def DecidedAlike (t : ℤ) (x y : Cell) : Prop :=
  ∀ is : List (Timed RateLimitIncrementOptions), OrderedFrom Timed.time t is →
    outputs incrementStep is x = outputs incrementStep is y

variable {t t' : ℤ} {x y z : Cell}

/-- A cell decides as itself. -/
theorem SameIncrements.refl (t : ℤ) (x : Cell) : SameIncrements t x x := fun _ _ _ => rfl

/-- The relation goes both ways. -/
theorem SameIncrements.symm (h : SameIncrements t x y) : SameIncrements t y x :=
  fun now hnow options => (h now hnow options).symm

/-- It carries over a third cell. -/
theorem SameIncrements.trans (h : SameIncrements t x y) (h' : SameIncrements t y z) :
    SameIncrements t x z :=
  fun now hnow options => (h now hnow options).trans (h' now hnow options)

/-- It holds later when it holds now. -/
theorem SameIncrements.mono (h : SameIncrements t x y) (ht : t ≤ t') : SameIncrements t' x y :=
  fun now hnow => h now (ht.trans hnow)

/-- The relation goes both ways. -/
theorem DecidedAlike.symm (h : DecidedAlike t x y) : DecidedAlike t y x :=
  fun is hord => (h is hord).symm

end Cell

/-! ## A store -/

variable {κ : Type} [DecidableEq κ]

/-- An increment and whether it is blocked. -/
def incrementStep (i : Timed (κ × RateLimitIncrementOptions)) (s : MemoryStore κ) :
    MemoryStore κ × Bool :=
  let r := s.increment i.time i.op.1 i.op.2
  (r.1, r.2.isBlocked)

/-- All increments from `t` on, of any keys, are decided alike. -/
def DecidedAlike (t : ℤ) (s s' : MemoryStore κ) : Prop :=
  ∀ is : List (Timed (κ × RateLimitIncrementOptions)), OrderedFrom Timed.time t is →
    outputs incrementStep is s = outputs incrementStep is s'

variable {s s' : MemoryStore κ} {t now : ℤ} {k : κ}

/-- An increment is decided from the cell of its key. -/
theorem isBlocked_incrementStep (i : Timed (κ × RateLimitIncrementOptions)) (s : MemoryStore κ) :
    (incrementStep i s).2 =
      (((s.cell i.op.1).clearWall i.time).increment i.time i.op.2).2.isBlocked :=
  congrArg RateLimitResult.isBlocked (MemoryStore.increment_snd_cleared i.time i.op.1 i.op.2)

/-- An increment of this key. -/
def onKey (key : κ) (i : Timed RateLimitIncrementOptions) :
    Timed (κ × RateLimitIncrementOptions) :=
  ⟨i.time, (key, i.op)⟩

/-- Increments of one key are increments of its cell. -/
theorem outputs_ownKey (key : κ) (is : List (Timed RateLimitIncrementOptions))
    (s : MemoryStore κ) :
    outputs incrementStep (is.map (onKey key)) s =
      outputs Cell.incrementStep is (s.cell key) := by
  induction is generalizing s with
  | nil => rfl
  | cons i is ih =>
    rw [List.map_cons, outputs_cons, outputs_cons, ih, isBlocked_incrementStep]
    congr 2
    exact MemoryStore.cell_increment_own s i.time key i.op

/-! ## Stores that are alike -/

/-- The cells of the two stores answer alike, and of the keys whose cells are not as good as
none uses keep the same. -/
structure StoresDecideAlike (t : ℤ) (s s' : MemoryStore κ) : Prop where
  blank : s'.blank = s.blank
  maxKeys : s'.maxKeys = s.maxKeys
  fits : s.SlidingFits
  fits' : s'.SlidingFits
  cells : ∀ k, Cell.SameIncrements t (s.cell k) (s'.cell k)
  order : s.maxKeys = 0 ∨
    Alike s.maxKeys (fun k => Cell.SameIncrements t (s.cell k) s.blank) s.keys s'.keys

/-- Without a bound no other cell is touched. -/
theorem MemoryStore.cell_increment_unbounded (hm : s.maxKeys = 0) (now : ℤ) (key : κ)
    (options : RateLimitIncrementOptions) (hk : k ≠ key) :
    (s.increment now key options).1.cell k = s.cell k := by
  have hfits : s.Fits key := (s.fits_iff key).mpr (Or.inl hm)
  rw [cell_increment_fits hfits options k, if_neg hk]

/-- An increment is decided alike and keeps the stores alike. -/
theorem StoresDecideAlike.step (h : StoresDecideAlike t s s')
    (i : Timed (κ × RateLimitIncrementOptions)) (ht : t ≤ i.time) :
    (incrementStep i s).2 = (incrementStep i s').2 ∧
      StoresDecideAlike i.time (incrementStep i s).1 (incrementStep i s').1 := by
  obtain ⟨now, key, options⟩ := i
  have hown := h.cells key now ht options
  refine ⟨?_, ?_⟩
  · rw [isBlocked_incrementStep, isBlocked_incrementStep, hown]
  show StoresDecideAlike now (s.increment now key options).1 (s'.increment now key options).1
  have hself : Cell.SameIncrements now ((s.increment now key options).1.cell key)
      ((s'.increment now key options).1.cell key) := by
    rw [MemoryStore.cell_increment_own, MemoryStore.cell_increment_own, hown]
    exact Cell.SameIncrements.refl now _
  have hblank := MemoryStore.blank_increment (s := s) now key options
  have hblank' := MemoryStore.blank_increment (s := s') now key options
  have hmax := MemoryStore.maxKeys_increment now key options s
  have hmax' := MemoryStore.maxKeys_increment now key options s'
  suffices hrest : (∀ k, k ≠ key → Cell.SameIncrements now
      ((s.increment now key options).1.cell k) ((s'.increment now key options).1.cell k)) ∧
      (s.maxKeys = 0 ∨ Alike s.maxKeys
        (fun k => Cell.SameIncrements now ((s.increment now key options).1.cell k) s.blank)
        (s.increment now key options).1.keys (s'.increment now key options).1.keys) by
    refine
      { blank := hblank'.trans (h.blank.trans hblank.symm)
        maxKeys := hmax'.trans (h.maxKeys.trans hmax.symm)
        fits := h.fits.step ⟨now, .increment key options⟩
        fits' := h.fits'.step ⟨now, .increment key options⟩
        cells := fun k => ?_
        order := ?_ }
    · by_cases hk : k = key
      · exact hk ▸ hself
      · exact hrest.1 k hk
    · rw [hmax, hblank]
      exact hrest.2
  rcases Nat.eq_zero_or_pos s.maxKeys with hzero | hm
  · refine ⟨fun k hk => ?_, Or.inl hzero⟩
    rw [MemoryStore.cell_increment_unbounded hzero now key options hk,
      MemoryStore.cell_increment_unbounded (h.maxKeys.trans hzero) now key options hk]
    exact (h.cells k).mono ht
  · have horder := h.order.resolve_left (by omega)
    have hm' : 1 ≤ s'.maxKeys := h.maxKeys.symm ▸ hm
    have hother := fun k (hk : k ≠ key) =>
      MemoryStore.cell_increment_other hm h.fits now options hk
    have hother' := fun k (hk : k ≠ key) =>
      MemoryStore.cell_increment_other hm' h.fits' now options hk
    simp only [h.maxKeys] at hother'
    refine ⟨fun k hk => ?_, Or.inr ?_⟩
    · rw [hother k hk, hother' k hk, h.blank]
      rcases horder.mem_touch s.nodup_keys s'.nodup_keys hk with hdead | hiff
      · -- a cell as good as none: it makes no difference who keeps it
        have hdead := hdead.mono ht
        have hdead' := ((h.cells k).symm.mono ht).trans hdead
        split
        · split
          · exact (h.cells k).mono ht
          · exact hdead
        · split
          · exact hdead'.symm
          · exact Cell.SameIncrements.refl now _
      · by_cases hmem : k ∈ touch s.maxKeys key s.keys
        · rw [if_pos hmem, if_pos (hiff.mp hmem)]
          exact (h.cells k).mono ht
        · rw [if_neg hmem, if_neg fun hmem' => hmem (hiff.mpr hmem')]
          exact Cell.SameIncrements.refl now _
    · rw [MemoryStore.keys_increment hm h.fits, MemoryStore.keys_increment hm' h.fits', h.maxKeys]
      refine horder.touched s.nodup_keys s'.nodup_keys hm fun k hk hdead => ?_
      rw [hother k hk]
      split
      · exact hdead.mono ht
      · exact Cell.SameIncrements.refl now _

/-- **Stores that are alike decide all later increments alike.** -/
theorem StoresDecideAlike.decidedAlike (h : StoresDecideAlike t s s') : DecidedAlike t s s' := by
  intro is hord
  exact indistinguishable_of_bisimulation (R := StoresDecideAlike)
    (fun t s s' i hR ht _ _ => hR.step i ht) h is hord (guarded_true is s) (guarded_true is s')

/-! ## Telling stores apart -/

/-- One increment of each of these keys. -/
def uses (now : ℤ) (ks : List κ) : List (Timed (κ × RateLimitIncrementOptions)) :=
  ks.map fun k => ⟨now, (k, {})⟩

omit [DecidableEq κ] in
/-- Uses are made at one time. -/
theorem orderedFrom_uses (now : ℤ) (ks : List κ) : OrderedFrom Timed.time now (uses now ks) := by
  induction ks with
  | nil => trivial
  | cons k ks ih => exact ⟨le_rfl, ih⟩

omit [DecidableEq κ] in
/-- They end at that time. -/
theorem lastClock_uses (now : ℤ) (ks : List κ) :
    lastClock Timed.time now (uses now ks) = now := by
  induction ks with
  | nil => rfl
  | cons k ks ih => exact ih

/-- Whatever keys are used first, the cells then decide alike. -/
theorem DecidedAlike.cells (h : DecidedAlike now s s') (ks : List κ) (k : κ) :
    Cell.DecidedAlike now ((final incrementStep (uses now ks) s).cell k)
      ((final incrementStep (uses now ks) s').cell k) := by
  intro is hord
  have hord' : OrderedFrom Timed.time now
      (uses now ks ++ is.map (onKey k)) := by
    refine orderedFrom_append.mpr ⟨orderedFrom_uses now ks, ?_⟩
    rw [lastClock_uses]
    exact orderedFrom_map (onKey k) (fun _ => rfl) hord
  have hout := h _ hord'
  rw [outputs_append, outputs_append] at hout
  have hlen : (outputs incrementStep (uses now ks) s).length =
      (outputs incrementStep (uses now ks) s').length := by
    rw [length_outputs, length_outputs]
  have htail := (List.append_inj hout hlen).2
  rw [outputs_ownKey, outputs_ownKey] at htail
  exact htail

/-- They keep what an empty cell is. -/
theorem blank_uses (now : ℤ) (ks : List κ) (s : MemoryStore κ) :
    (final incrementStep (uses now ks) s).blank = s.blank := by
  induction ks generalizing s with
  | nil => rfl
  | cons k ks ih => exact (ih _).trans (MemoryStore.blank_increment now k {})

section Uses

variable (hm : 1 ≤ s.maxKeys) (hfits : s.SlidingFits)
include hm hfits

/-- Uses put their keys at the end. -/
theorem keys_uses (ks : List κ) :
    (final incrementStep (uses now ks) s).keys = touchAll s.maxKeys ks s.keys := by
  induction ks generalizing s with
  | nil => rfl
  | cons k ks ih =>
    have hmax := MemoryStore.maxKeys_increment now k {} s
    have hrest := ih (s := (s.increment now k {}).1) (hmax.symm ▸ hm)
      (hfits.step ⟨now, .increment k {}⟩)
    rw [hmax, MemoryStore.keys_increment hm hfits] at hrest
    exact hrest

/-- A key that is not among them keeps its cell, or is driven out. -/
theorem cell_uses_of_notMem (now : ℤ) {ks : List κ} (hk : k ∉ ks) :
    (final incrementStep (uses now ks) s).cell k =
      if k ∈ touchAll s.maxKeys ks s.keys then s.cell k else s.blank := by
  induction ks generalizing s with
  | nil =>
    show s.cell k = if k ∈ s.keys then s.cell k else s.blank
    split
    · rfl
    · next hmem => exact MemoryStore.cell_of_notMem hmem
  | cons j ks ih =>
    obtain ⟨hne, hks⟩ := not_or.mp (List.mem_cons.not.mp hk)
    have hmax := MemoryStore.maxKeys_increment now j {} s
    have hrest := ih (s := (s.increment now j {}).1) (hmax.symm ▸ hm)
      (hfits.step ⟨now, .increment j {}⟩) hks
    rw [hmax, MemoryStore.keys_increment hm hfits, MemoryStore.blank_increment,
      MemoryStore.cell_increment_other hm hfits now {} hne] at hrest
    refine hrest.trans ?_
    show _ = if k ∈ touchAll s.maxKeys ks (touch s.maxKeys j s.keys) then s.cell k else s.blank
    by_cases hmem : k ∈ touchAll s.maxKeys ks (touch s.maxKeys j s.keys)
    · rw [if_pos hmem, if_pos hmem, if_pos (mem_of_mem_touchAll hmem hks)]
    · rw [if_neg hmem, if_neg hmem]

/-- A key that is among them and stays has the cell of an increment. -/
theorem cell_uses_of_mem (hlegal : ∀ k, (s.cell k).Legal now) {ks : List κ} (hk : k ∈ ks)
    (hmem : k ∈ touchAll s.maxKeys ks s.keys) :
    ∃ x : Cell, x.Legal now ∧
      (final incrementStep (uses now ks) s).cell k = ((x.clearWall now).increment now {}).1 := by
  induction ks generalizing s with
  | nil => exact absurd hk List.not_mem_nil
  | cons j ks ih =>
    have hmax := MemoryStore.maxKeys_increment now j {} s
    have hkeys := MemoryStore.keys_increment hm hfits now j {}
    have hm' : 1 ≤ (s.increment now j {}).1.maxKeys := hmax.symm ▸ hm
    have hfits' := hfits.step ⟨now, .increment j {}⟩
    have hlegal' : ∀ k, ((s.increment now j {}).1.cell k).Legal now :=
      legal_step ⟨now, .increment j {}⟩ le_rfl hlegal
    have hmem' : k ∈ touchAll (s.increment now j {}).1.maxKeys ks
        (s.increment now j {}).1.keys := by
      rw [hmax, hkeys]
      exact hmem
    by_cases hks : k ∈ ks
    · exact ih hm' hfits' hlegal' hks hmem'
    · obtain rfl : k = j := (List.mem_cons.mp hk).resolve_right hks
      refine ⟨s.cell k, hlegal k, ?_⟩
      have hcell := cell_uses_of_notMem hm' hfits' now hks
      rw [if_pos hmem', MemoryStore.cell_increment_own] at hcell
      exact hcell

end Uses

end RatelimitFlex
