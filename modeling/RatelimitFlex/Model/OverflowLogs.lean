import RatelimitFlex.Model.SlidingLog
import RatelimitFlex.Program.ComposedStore

/-!
# The two logs an overflow composition stands for

The abstract model of mode `overflow` over two sliding windows.  Every hit is recorded in
the primary log, and stays there when the primary cap refuses it; only a refused hit is
recorded in the burst log, too.  A hit is routed to the log whose cap admits it.

`admitted_le` is the bound: the hits of one key that either log admits within one primary
window weigh at most both caps together.
-/

set_option autoImplicit false

namespace RatelimitFlex

open Library

variable {κ : Type} [DecidableEq κ]

/-- A hit of one key, with the keys it is recorded under and the caps it meets. -/
structure OverflowHit (κ : Type) where
  key : κ
  primaryKey : κ
  burstKey : κ
  cost : ℕ
  primaryCap : ℕ
  burstCap : ℕ

structure OverflowLogs (κ : Type) where
  primary : SlidingLog κ := fun _ => []
  burst : SlidingLog κ := fun _ => []

/-- The hit in a log. -/
def Timed.hit (i : Timed (OverflowHit κ)) : Hit := ⟨i.time, i.op.cost⟩

namespace OverflowLogs

/-- One hit, and the log that admits it. -/
def step (p b : WindowOptions) (i : Timed (OverflowHit κ)) (L : OverflowLogs κ) :
    OverflowLogs κ × Option OverflowRoute :=
  let primary := L.primary i.op.primaryKey ++ [i.hit]
  let burst := L.burst i.op.burstKey ++ [i.hit]
  if SlidingLog.liveCost p i.time primary ≤ i.op.primaryCap then
    ({ L with primary := Function.update L.primary i.op.primaryKey primary }, some .primary)
  else
    (⟨Function.update L.primary i.op.primaryKey primary,
        Function.update L.burst i.op.burstKey burst⟩,
      if SlidingLog.liveCost b i.time burst ≤ i.op.burstCap then some .burst else none)

/-- The hits that meet `recorded`, each with whether `k` made it and it took route `r`. -/
def routed (k : κ) (recorded : Timed (OverflowHit κ) × Option OverflowRoute → Bool)
    (r : OverflowRoute) (is : List (Timed (OverflowHit κ))) (rs : List (Option OverflowRoute)) :
    List (Hit × Bool) :=
  ((is.zip rs).filter recorded).map fun q =>
    (q.1.hit, decide (q.1.op.key = k) && decide (q.2 = some r))

/-- The hits of `k`, each with whether it was admitted. -/
def charges (k : κ) (is : List (Timed (OverflowHit κ))) (oks : List Bool) : List (Hit × Bool) :=
  ((is.zip oks).filter fun q => decide (q.1.op.key = k)).map fun q => (q.1.hit, q.2)

/-- The hits recorded in the primary log under `pk`. -/
def inPrimary (pk : κ) (q : Timed (OverflowHit κ) × Option OverflowRoute) : Bool :=
  decide (q.1.op.primaryKey = pk)

/-- The hits recorded in the burst log under `bk`. -/
def inBurst (bk : κ) (q : Timed (OverflowHit κ) × Option OverflowRoute) : Bool :=
  decide (q.1.op.burstKey = bk) && decide (q.2 ≠ some .primary)

section Bound

variable {p b : WindowOptions} {k pk bk : κ} {P B : ℕ} {is : List (Timed (OverflowHit κ))}

/-- Every hit is recorded in the primary log. -/
theorem primary_step (i : Timed (OverflowHit κ)) (L : OverflowLogs κ) :
    (step p b i L).1.primary = Function.update L.primary i.op.primaryKey
      (L.primary i.op.primaryKey ++ [i.hit]) := by
  simp only [step]
  split <;> rfl

/-- A hit that fits goes into the first log. -/
theorem step_of_fits {i : Timed (OverflowHit κ)} {L : OverflowLogs κ}
    (h : SlidingLog.liveCost p i.time (L.primary i.op.primaryKey ++ [i.hit]) ≤ i.op.primaryCap) :
    (step p b i L).1.burst = L.burst ∧ (step p b i L).2 = some .primary := by
  simp only [step, if_pos h, true_and]

/-- Any other goes into the second. -/
theorem step_of_over {i : Timed (OverflowHit κ)} {L : OverflowLogs κ}
    (h : ¬ SlidingLog.liveCost p i.time (L.primary i.op.primaryKey ++ [i.hit]) ≤
      i.op.primaryCap) :
    (step p b i L).1.burst = Function.update L.burst i.op.burstKey
        (L.burst i.op.burstKey ++ [i.hit]) ∧
      (step p b i L).2 =
        if SlidingLog.liveCost b i.time (L.burst i.op.burstKey ++ [i.hit]) ≤ i.op.burstCap then
          some .burst
        else none := by
  simp only [step, if_neg h, true_and]

/-- The primary log admits what fits it. -/
theorem step_eq_primary {i : Timed (OverflowHit κ)} {L : OverflowLogs κ} :
    (step p b i L).2 = some .primary ↔
      SlidingLog.liveCost p i.time (L.primary i.op.primaryKey ++ [i.hit]) ≤ i.op.primaryCap := by
  by_cases h : SlidingLog.liveCost p i.time (L.primary i.op.primaryKey ++ [i.hit]) ≤
      i.op.primaryCap
  · exact iff_of_true (step_of_fits h).2 h
  · refine iff_of_false ?_ h
    rw [(step_of_over h).2]
    split <;> simp

/-- What the primary log admits fits its own window. -/
theorem admittedWithin_primary
    (hkey : ∀ i ∈ is, i.op.key = k → i.op.primaryKey = pk ∧ i.op.primaryCap = P)
    (L : OverflowLogs κ) :
    Hit.AdmittedWithin p.windowMs P (L.primary pk)
      (routed k (inPrimary pk) .primary is (outputs (step p b) is L)) := by
  induction is generalizing L with
  | nil => trivial
  | cons i is ih =>
    have hrest := ih (fun j hj => hkey j (List.mem_cons_of_mem i hj)) (step p b i L).1
    simp only [routed, outputs_cons, List.zip_cons_cons, List.filter_cons, inPrimary,
      decide_eq_true_eq] at hrest ⊢
    by_cases hpk : i.op.primaryKey = pk
    · have hlog : (step p b i L).1.primary pk = L.primary pk ++ [i.hit] := by
        rw [primary_step, hpk, Function.update_self]
      rw [hlog] at hrest
      rw [if_pos hpk, List.map_cons]
      refine ⟨fun hok => ?_, hrest⟩
      obtain ⟨hk, hroute⟩ : i.op.key = k ∧ (step p b i L).2 = some .primary := by
        simpa using hok
      obtain ⟨-, hP⟩ := hkey i List.mem_cons_self hk
      have hfits := step_eq_primary.mp hroute
      rw [hpk, hP] at hfits
      exact hfits
    · have hlog : (step p b i L).1.primary pk = L.primary pk := by
        rw [primary_step, Function.update_of_ne (Ne.symm hpk)]
      rw [hlog] at hrest
      rw [if_neg hpk]
      exact hrest

/-- What the burst log admits fits its own window. -/
theorem admittedWithin_burst
    (hkey : ∀ i ∈ is, i.op.key = k → i.op.burstKey = bk ∧ i.op.burstCap = B)
    (L : OverflowLogs κ) :
    Hit.AdmittedWithin b.windowMs B (L.burst bk)
      (routed k (inBurst bk) .burst is (outputs (step p b) is L)) := by
  induction is generalizing L with
  | nil => trivial
  | cons i is ih =>
    have hrest := ih (fun j hj => hkey j (List.mem_cons_of_mem i hj)) (step p b i L).1
    simp only [routed, outputs_cons, List.zip_cons_cons, List.filter_cons, inBurst,
      Bool.and_eq_true, decide_eq_true_eq] at hrest ⊢
    by_cases hin : i.op.burstKey = bk ∧ (step p b i L).2 ≠ some .primary
    · obtain ⟨hbk, hroute⟩ := hin
      rw [if_pos ⟨hbk, hroute⟩, List.map_cons]
      obtain ⟨hburst, hadmits⟩ := step_of_over (b := b) fun hfits =>
        hroute (step_eq_primary.mpr hfits)
      have hlog : (step p b i L).1.burst bk = L.burst bk ++ [i.hit] := by
        rw [hburst, hbk, Function.update_self]
      rw [hlog] at hrest
      refine ⟨fun hok => ?_, hrest⟩
      obtain ⟨hk, htaken⟩ : i.op.key = k ∧ (step p b i L).2 = some .burst := by
        simpa using hok
      obtain ⟨-, hB⟩ := hkey i List.mem_cons_self hk
      rw [hadmits, hbk, hB] at htaken
      split at htaken
      · assumption
      · simp at htaken
    · have hlog : (step p b i L).1.burst bk = L.burst bk := by
        by_cases hfits : SlidingLog.liveCost p i.time (L.primary i.op.primaryKey ++ [i.hit]) ≤
            i.op.primaryCap
        · rw [(step_of_fits hfits).1]
        · have hbk : i.op.burstKey ≠ bk := fun hbk =>
            hin ⟨hbk, fun hroute => hfits (step_eq_primary.mp hroute)⟩
          rw [(step_of_over hfits).1, Function.update_of_ne (Ne.symm hbk)]
      rw [hlog] at hrest
      rw [if_neg hin]
      exact hrest

/-- An admitted hit of `k` is admitted by one of the logs. -/
theorem windowCost_charges_le (lo hi : ℤ)
    (hkey : ∀ i ∈ is, i.op.key = k → i.op.primaryKey = pk ∧ i.op.burstKey = bk)
    (rs : List (Option OverflowRoute)) :
    Hit.windowCost lo hi (Hit.admitted (charges k is (rs.map Option.isSome))) ≤
      Hit.windowCost lo hi (Hit.admitted (routed k (inPrimary pk) .primary is rs)) +
        Hit.windowCost lo hi (Hit.admitted (routed k (inBurst bk) .burst is rs)) := by
  induction is generalizing rs with
  | nil => simp [charges]
  | cons i is ih =>
    cases rs with
    | nil => simp [charges]
    | cons r rs =>
      have hrest := ih (fun j hj => hkey j (List.mem_cons_of_mem i hj)) rs
      simp only [charges, routed, List.map_cons, List.zip_cons_cons, List.filter_cons, inPrimary,
        inBurst, Bool.and_eq_true, decide_eq_true_eq] at hrest ⊢
      have hcons : ∀ l : List (Hit × Bool), Hit.windowCost lo hi (i.hit :: Hit.admitted l) =
          Hit.windowCost lo hi [i.hit] + Hit.windowCost lo hi (Hit.admitted l) := fun l =>
        Hit.windowCost_append lo hi [i.hit] _
      by_cases hk : i.op.key = k
      · obtain ⟨hpk, hbk⟩ := hkey i List.mem_cons_self hk
        rw [if_pos hk, if_pos hpk]
        match r with
        | none =>
          rw [if_pos ⟨hbk, by simp⟩]
          simpa using hrest
        | some .primary =>
          rw [if_neg (by simp)]
          simp only [List.map_cons, Option.isSome_some, hk, decide_true, Bool.and_self,
            Hit.admitted_cons_true, hcons]
          omega
        | some .burst =>
          rw [if_pos ⟨hbk, by simp⟩]
          simp only [List.map_cons, Option.isSome_some, hk, decide_true, Bool.and_self,
            Hit.admitted_cons_true, hcons, reduceCtorEq, Option.some.injEq, decide_false,
            Bool.and_false, Hit.admitted_cons_false]
          omega
      · rw [if_neg hk]
        refine hrest.trans (add_le_add ?_ ?_)
        · split
          · simp [hk]
          · exact le_rfl
        · split
          · simp [hk]
          · exact le_rfl

/-- Routed hits are in order. -/
theorem orderedFrom_routed {t : ℤ} (hord : OrderedFrom Timed.time t is) (k : κ)
    (recorded : Timed (OverflowHit κ) × Option OverflowRoute → Bool) (r : OverflowRoute)
    (rs : List (Option OverflowRoute)) :
    OrderedFrom (fun q : Hit × Bool => q.1.time) t (routed k recorded r is rs) := by
  induction is generalizing t rs with
  | nil => trivial
  | cons i is ih =>
    cases rs with
    | nil => trivial
    | cons a rs =>
      have hrest := ih hord.2 rs
      simp only [routed, List.zip_cons_cons, List.filter_cons] at hrest ⊢
      split
      · exact ⟨hord.1, hrest⟩
      · exact hrest.mono hord.1

/-- **The bound of an overflow composition.**  Under constant caps, and with a burst window
at least as long as the primary one, the hits of `k` that are admitted within one primary
window weigh at most both caps together. -/
theorem admitted_le (hW : p.windowMs ≤ b.windowMs) {t₀ : ℤ}
    (hord : OrderedFrom Timed.time t₀ is)
    (hkey : ∀ i ∈ is, i.op.key = k → (i.op.primaryKey = pk ∧ i.op.primaryCap = P) ∧
      i.op.burstKey = bk ∧ i.op.burstCap = B) (t : ℤ) :
    Hit.windowCost (t - p.windowMs) t (Hit.admitted (charges k is
      ((outputs (step p b) is {}).map Option.isSome))) ≤ P + B := by
  have hprimary := @Hit.admitted_window_le _ _ _ _ [] (by simp)
    (orderedFrom_routed hord k (inPrimary pk) .primary (outputs (step p b) is {}))
    (admittedWithin_primary (fun i hi hk => (hkey i hi hk).1) {}) t
  have hburst := @Hit.admitted_window_le _ _ _ _ [] (by simp)
    (orderedFrom_routed hord k (inBurst bk) .burst (outputs (step p b) is {}))
    (admittedWithin_burst (fun i hi hk => (hkey i hi hk).2) {}) t
  have hlonger := Hit.windowCost_anti_lo (show t - (b.windowMs : ℤ) ≤ t - p.windowMs by omega) t
    (Hit.admitted (routed k (inBurst bk) .burst is (outputs (step p b) is {})))
  exact (windowCost_charges_le _ _ (fun i hi hk => ⟨(hkey i hi hk).1.1, (hkey i hi hk).2.1⟩)
    _).trans (add_le_add hprimary (hlonger.trans hburst))

end Bound

end OverflowLogs

end RatelimitFlex
