import RatelimitFlex.Analysis.DynamoWeighted
import RatelimitFlex.Library.TimedRun

/-!
# What the weighted window admits

Refused increments are counted too, so the counters of a sub-window are at least what it
admits.  The last increment admitted in a sub-window saw all that it admits
(`allowed_le_of_last`); a moving window meets two sub-windows.
-/

set_option autoImplicit false

namespace RatelimitFlex

open Library

namespace DynamoStore

/-- One increment, and whether it is allowed. -/
def weightedStep (o : WindowOptions) (cap : ℕ) (h : Hit) (state : Option WeightedWindowState) :
    Option WeightedWindowState × (Hit × Bool) :=
  let s := simulateWeightedIncrement state h.time o.windowMs h.cost
  (some s, h, !(slidingResultFromAttributes o h.time cap s).isBlocked)

/-- A sequence of increments, each with whether it is allowed. -/
def weightedRun (o : WindowOptions) (cap : ℕ) (hits : List Hit) : List (Hit × Bool) :=
  outputs (weightedStep o cap) hits none

section Run

variable {o : WindowOptions} {cap : ℕ}

/-- The item after a run is that of all its hits. -/
theorem final_weightedStep (hits : List Hit) :
    final (weightedStep o cap) hits none = simulateAll o.windowMs hits := by
  have hfold : ∀ s, final (weightedStep o cap) hits s = hits.foldl
      (fun s h => some (simulateWeightedIncrement s h.time o.windowMs h.cost)) s := by
    induction hits with
    | nil => exact fun s => rfl
    | cons h hits ih => exact fun s => ih _
  exact hfold none

/-- The hits of a run are its inputs. -/
theorem map_fst_weightedRun (o : WindowOptions) (cap : ℕ) (hits : List Hit) :
    (weightedRun o cap hits).map Prod.fst = hits := by
  have hmap : ∀ s, (outputs (weightedStep o cap) hits s).map Prod.fst = hits := by
    induction hits with
    | nil => exact fun s => rfl
    | cons h hits ih =>
      intro s
      rw [outputs_cons, List.map_cons, ih]
      rfl
  exact hmap none

/-- The run of two stretches. -/
theorem weightedRun_append (o : WindowOptions) (cap : ℕ) (hits rest : List Hit) :
    weightedRun o cap (hits ++ rest) = weightedRun o cap hits ++
      outputs (weightedStep o cap) rest (simulateAll o.windowMs hits) := by
  rw [weightedRun, outputs_append, final_weightedStep]
  rfl

/-- An increment that is allowed saw, with itself, no more than the cap. -/
theorem weighted_le_of_allowed {hits : List Hit} {pre post : List (Hit × Bool)} {u : Hit}
    (hord : (hits.map Hit.time).Pairwise (· ≤ ·))
    (hrun : weightedRun o cap hits = pre ++ (u, true) :: post) :
    let b := fixedWindowBoundaryMs u.time o.windowMs
    (Hit.windowCost (b - o.windowMs - 1) (b - 1) (pre.map Prod.fst ++ [u]) : ℚ) *
        slidingWeight u.time o.windowMs b +
      Hit.windowCost (b - 1) (b + o.windowMs - 1) (pre.map Prod.fst ++ [u]) ≤ cap := by
  intro b
  have hhits : hits = pre.map Prod.fst ++ u :: post.map Prod.fst := by
    rw [← map_fst_weightedRun o cap hits, hrun, List.map_append, List.map_cons]
  have hord' : ((pre.map Prod.fst ++ [u]).map Hit.time).Pairwise (· ≤ ·) := by
    refine hord.sublist (List.Sublist.map _ ?_)
    rw [hhits]
    exact (List.Sublist.refl _).append (List.singleton_sublist.mpr List.mem_cons_self)
  obtain ⟨s, hs, htallies⟩ := simulateAll_tallies o.windowMs_pos _ u hord'
  -- the answer to `u` is read off the state that it leaves
  have hallowed : (weightedStep o cap u (simulateAll o.windowMs (pre.map Prod.fst))).2 =
      (u, true) := by
    have hsplit := weightedRun_append o cap (pre.map Prod.fst)
      (u :: post.map Prod.fst)
    rw [← hhits, hrun, outputs_cons] at hsplit
    have hlen : pre.length = (weightedRun o cap (pre.map Prod.fst)).length := by
      rw [weightedRun, length_outputs, List.length_map]
    exact (List.cons.inj (List.append_inj hsplit hlen).2).1.symm
  have hstate : simulateAll o.windowMs (pre.map Prod.fst ++ [u]) =
      some (simulateWeightedIncrement (simulateAll o.windowMs (pre.map Prod.fst)) u.time
        o.windowMs u.cost) := by
    rw [simulateAll, List.foldl_append]
    rfl
  obtain rfl := Option.some.inj (hstate.symm.trans hs)
  have hle := (Prod.mk.inj hallowed).2
  simp only [slidingResultFromAttributes, Bool.not_eq_true', decide_eq_false_iff_not, not_lt,
    weightedSlidingCount, htallies.start, htallies.previous, htallies.current] at hle
  exact_mod_cast hle

/-- A time in the sub-window of another has its boundary. -/
theorem fixedWindowBoundaryMs_eq {windowMs : ℕ} (hW : 1 ≤ windowMs) {t x : ℤ}
    (hle : fixedWindowBoundaryMs t windowMs ≤ x)
    (hlt : x < fixedWindowBoundaryMs t windowMs + windowMs) :
    fixedWindowBoundaryMs x windowMs = fixedWindowBoundaryMs t windowMs := by
  have hx := fixedWindowBoundaryMs_le hW x
  have hx' := lt_fixedWindowBoundaryMs_add hW x
  rcases lt_trichotomy (fixedWindowBoundaryMs x windowMs) (fixedWindowBoundaryMs t windowMs)
    with h | h | h
  · have := fixedWindowBoundaryMs_add_le hW h
    omega
  · exact h
  · have := fixedWindowBoundaryMs_add_le hW h
    omega

/-- **All that a sub-window admits was counted when its last increment was allowed.** -/
theorem allowed_le_of_last (o : WindowOptions) (pre : List (Hit × Bool)) (u : Hit)
    (post : List (Hit × Bool))
    (hlast : ∀ p ∈ post, p.2 = true →
      fixedWindowBoundaryMs p.1.time o.windowMs ≠ fixedWindowBoundaryMs u.time o.windowMs) :
    let b := fixedWindowBoundaryMs u.time o.windowMs
    Hit.windowCost (b - 1) (b + o.windowMs - 1) (Hit.admitted (pre ++ (u, true) :: post)) ≤
      Hit.windowCost (b - 1) (b + o.windowMs - 1) (pre.map Prod.fst ++ [u]) := by
  intro b
  have hadm : Hit.admitted (pre ++ (u, true) :: post) =
      (Hit.admitted pre ++ [u]) ++ Hit.admitted post := by
    simp [Hit.admitted]
  have hnone : Hit.windowCost (b - 1) (b + o.windowMs - 1) (Hit.admitted post) = 0 := by
    refine Hit.windowCost_eq_zero fun x hx hin => ?_
    obtain ⟨p, hp, rfl⟩ := List.mem_map.mp hx
    obtain ⟨hmem, hok⟩ := List.mem_filter.mp hp
    exact hlast p hmem hok (fixedWindowBoundaryMs_eq o.windowMs_pos (by omega) (by omega))
  rw [hadm, Hit.windowCost_append, hnone, add_zero]
  refine Hit.windowCost_sublist _ _ (List.Sublist.append ?_ (List.Sublist.refl _))
  exact List.Sublist.map _ List.filter_sublist

/-- The last of those with a property. -/
theorem exists_last {α : Type} {p : α → Prop} {l : List α} (h : ∃ x ∈ l, p x) :
    ∃ pre x post, l = pre ++ x :: post ∧ p x ∧ ∀ y ∈ post, ¬ p y := by
  induction l using List.reverseRecOn with
  | nil =>
    obtain ⟨x, hx, -⟩ := h
    exact absurd hx List.not_mem_nil
  | append_singleton l a ih =>
    by_cases ha : p a
    · exact ⟨l, a, [], rfl, ha, fun y hy => absurd hy List.not_mem_nil⟩
    · obtain ⟨x, hx, hpx⟩ := h
      have hmem : x ∈ l := by
        rcases List.mem_append.mp hx with hx | hx
        · exact hx
        · exact absurd (List.mem_singleton.mp hx ▸ hpx) ha
      obtain ⟨pre, y, post, rfl, hy, hpost⟩ := ih ⟨x, hmem, hpx⟩
      refine ⟨pre, y, post ++ [a], by simp, hy, fun z hz => ?_⟩
      rcases List.mem_append.mp hz with hz | hz
      · exact hpost z hz
      · exact List.mem_singleton.mp hz ▸ ha

/-- **A sub-window admits no more than the cap.** -/
theorem subwindow_le (o : WindowOptions) (cap : ℕ) {hits : List Hit}
    (hord : (hits.map Hit.time).Pairwise (· ≤ ·)) (t : ℤ) :
    let b := fixedWindowBoundaryMs t o.windowMs
    Hit.windowCost (b - 1) (b + o.windowMs - 1) (Hit.admitted (weightedRun o cap hits)) ≤ cap := by
  intro b
  by_cases hex : ∃ p ∈ weightedRun o cap hits,
      p.2 = true ∧ fixedWindowBoundaryMs p.1.time o.windowMs = b
  · obtain ⟨pre, ⟨u, ok⟩, post, hrun, ⟨hok, hb⟩, hlast⟩ := exists_last hex
    obtain rfl : ok = true := hok
    have hb : fixedWindowBoundaryMs u.time o.windowMs = b := hb
    have hle := weighted_le_of_allowed hord hrun
    have hcounted := allowed_le_of_last o pre u post
      fun p hp hp' heq => hlast p hp ⟨hp', heq.trans hb⟩
    simp only [hb] at hle hcounted
    rw [hrun]
    have hweight := mul_nonneg (Nat.cast_nonneg (α := ℚ) (Hit.windowCost (b - o.windowMs - 1)
      (b - 1) (pre.map Prod.fst ++ [u]))) (slidingWeight_nonneg u.time o.windowMs b)
    have hcur : (Hit.windowCost (b - 1) (b + o.windowMs - 1) (pre.map Prod.fst ++ [u]) : ℚ) ≤
        cap := by linarith
    exact hcounted.trans (by exact_mod_cast hcur)
  · rw [Hit.windowCost_eq_zero]
    · exact Nat.zero_le _
    · intro x hx hin
      obtain ⟨p, hp, rfl⟩ := List.mem_map.mp hx
      obtain ⟨hmem, hok⟩ := List.mem_filter.mp hp
      exact hex ⟨p, hmem, hok, fixedWindowBoundaryMs_eq o.windowMs_pos (by omega) (by omega)⟩

end Run

end DynamoStore

/-- **What the weighted window admits.**  For increments in time order, each allowed when the
exact weighted count with it is within the cap: any interval `(t - windowMs, t]` admits at
most twice the cap, and an aligned sub-window at most the cap less the full count of the one
before it, weighed at the last increment it admits.
SOURCE: src/stores/dynamo/DynamoStore.ts:460-492, src/stores/dynamo/sliding-weighted.ts:7-101 -/
theorem weighted_admission_bound (o : WindowOptions) (cap : ℕ) (hits : List Hit)
    (hord : (hits.map Hit.time).Pairwise (· ≤ ·)) :
    let run := DynamoStore.weightedRun o cap hits
    (∀ t, Hit.windowCost (t - o.windowMs) t (Hit.admitted run) ≤ 2 * cap) ∧
      ∀ pre u post, run = pre ++ (u, true) :: post →
        let b := DynamoStore.fixedWindowBoundaryMs u.time o.windowMs
        (∀ p ∈ post, p.2 = true →
          DynamoStore.fixedWindowBoundaryMs p.1.time o.windowMs ≠ b) →
        (Hit.windowCost (b - 1) (b + o.windowMs - 1) (Hit.admitted run) : ℚ) ≤
          cap - Hit.windowCost (b - o.windowMs - 1) (b - 1) hits *
            DynamoStore.slidingWeight u.time o.windowMs b := by
  intro run
  have hW := o.windowMs_pos
  constructor
  · -- the interval meets the sub-window of its end and the one before
    intro t
    have hle := DynamoStore.fixedWindowBoundaryMs_le hW t
    have hlt := DynamoStore.lt_fixedWindowBoundaryMs_add hW t
    have hbefore := DynamoStore.fixedWindowBoundaryMs_add hW (t - o.windowMs)
    rw [sub_add_cancel] at hbefore
    have hcur := DynamoStore.subwindow_le o cap hord t
    have hprev := DynamoStore.subwindow_le o cap hord (t - o.windowMs)
    simp only at hcur hprev
    set b := DynamoStore.fixedWindowBoundaryMs t o.windowMs with hb
    set b' := DynamoStore.fixedWindowBoundaryMs (t - o.windowMs) o.windowMs with hb'
    calc Hit.windowCost (t - o.windowMs) t (Hit.admitted run)
        = Hit.windowCost (t - o.windowMs) (b - 1) (Hit.admitted run) +
          Hit.windowCost (b - 1) t (Hit.admitted run) :=
          Hit.windowCost_split (by omega) (by omega) _
      _ ≤ Hit.windowCost (b' - 1) (b' + o.windowMs - 1) (Hit.admitted run) +
          Hit.windowCost (b - 1) (b + o.windowMs - 1) (Hit.admitted run) := by
        refine Nat.add_le_add ?_ ?_
        · rw [show b - 1 = b' + o.windowMs - 1 by omega]
          exact Hit.windowCost_anti_lo (by omega) _ _
        · rw [Hit.windowCost_split (show b - 1 ≤ t by omega)
            (show t ≤ b + o.windowMs - 1 by omega)]
          exact Nat.le_add_right _ _
      _ ≤ cap + cap := Nat.add_le_add hprev hcur
      _ = 2 * cap := (two_mul cap).symm
  · intro pre u post hrun b hlast
    have hle := DynamoStore.weighted_le_of_allowed hord hrun
    have hcounted := DynamoStore.allowed_le_of_last o pre u post hlast
    have hhits : hits = (pre.map Prod.fst ++ [u]) ++ post.map Prod.fst := by
      rw [← DynamoStore.map_fst_weightedRun o cap hits]
      show run.map Prod.fst = _
      rw [hrun]
      simp
    -- what came after is not of the sub-window before
    have hfull : Hit.windowCost (b - o.windowMs - 1) (b - 1) hits =
        Hit.windowCost (b - o.windowMs - 1) (b - 1) (pre.map Prod.fst ++ [u]) := by
      rw [hhits, Hit.windowCost_append _ _ (pre.map Prod.fst ++ [u])]
      rw [Nat.add_eq_left]
      apply Hit.windowCost_eq_zero
      intro x hx hin
      have hbu := DynamoStore.fixedWindowBoundaryMs_le hW u.time
      rw [hhits, List.append_assoc, List.map_append, List.pairwise_append] at hord
      have hux := (List.pairwise_cons.mp hord.2.1).1 x.time (List.mem_map_of_mem hx)
      omega
    have hcountedQ : (Hit.windowCost (b - 1) (b + o.windowMs - 1) (Hit.admitted run) : ℚ) ≤
        Hit.windowCost (b - 1) (b + o.windowMs - 1) (pre.map Prod.fst ++ [u]) := by
      rw [hrun]
      exact_mod_cast hcounted
    rw [hfull]
    simp only at hle
    linarith

/-- Two units early in a sub-window and three in the next, of which the last is refused. -/
theorem weighted_admission_bound_two_windows :
    Hit.windowCost (1600 - 1000) 1600 (Hit.admitted (DynamoStore.weightedRun twoASecond 2
      [⟨100, 1⟩, ⟨900, 1⟩, ⟨1500, 1⟩, ⟨1600, 1⟩])) ≤ 2 * 2 :=
  (weighted_admission_bound twoASecond 2 [⟨100, 1⟩, ⟨900, 1⟩, ⟨1500, 1⟩, ⟨1600, 1⟩]
    (by decide)).1 1600

end RatelimitFlex
