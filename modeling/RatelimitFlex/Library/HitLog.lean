import RatelimitFlex.Library.TimedRun

/-!
# Logs of weighted hits and moving windows

A `Hit` is a time and a weight.  `windowCost lo hi l` is the total weight of the hits of
`l` in the half-open interval `(lo, hi]`.  `expand l` writes every hit out as that many
copies of its time, which is how an implementation that counts stamps stores a log.

`admitted_window_le` is the admission bound of any limiter that records every hit and
admits one only while its own window, the hit included, stays within the cap: then the
admitted hits of every window stay within the cap.
-/

set_option autoImplicit false

namespace RatelimitFlex.Library

/-- A weighted hit. -/
structure Hit where
  time : ℤ
  cost : ℕ
  deriving DecidableEq

namespace Hit

/-- The hits of `l` in `(lo, hi]`. -/
def window (lo hi : ℤ) (l : List Hit) : List Hit :=
  l.filter fun h => decide (lo < h.time) && decide (h.time ≤ hi)

/-- The total weight of the hits of `l` in `(lo, hi]`. -/
def windowCost (lo hi : ℤ) (l : List Hit) : ℕ := ((window lo hi l).map Hit.cost).sum

/-- No hits cost nothing. -/
@[simp] theorem windowCost_nil (lo hi : ℤ) : windowCost lo hi [] = 0 := rfl

/-- The hits of a window are those of the log inside it. -/
theorem mem_window {lo hi : ℤ} {l : List Hit} {h : Hit} :
    h ∈ window lo hi l ↔ h ∈ l ∧ lo < h.time ∧ h.time ≤ hi := by
  simp [window]

/-- The costs of two logs. -/
theorem windowCost_append (lo hi : ℤ) (l₁ l₂ : List Hit) :
    windowCost lo hi (l₁ ++ l₂) = windowCost lo hi l₁ + windowCost lo hi l₂ := by
  simp [windowCost, window]

/-- The cost of one hit, inside or outside. -/
theorem windowCost_singleton (lo hi : ℤ) (h : Hit) :
    windowCost lo hi [h] = if lo < h.time ∧ h.time ≤ hi then h.cost else 0 := by
  unfold windowCost window
  by_cases hw : lo < h.time ∧ h.time ≤ hi
  · simp [hw]
  · rw [if_neg hw, List.filter_cons_of_neg (by simpa using hw)]
    rfl

/-- Fewer hits cost no more. -/
theorem windowCost_sublist (lo hi : ℤ) {l₁ l₂ : List Hit} (h : l₁.Sublist l₂) :
    windowCost lo hi l₁ ≤ windowCost lo hi l₂ :=
  ((h.filter _).map _).sum_le_sum fun _ _ => Nat.zero_le _

/-- A window that starts earlier weighs at least as much when it ends after every hit. -/
theorem windowCost_le_of_lo_le {lo lo' hi hi' : ℤ} {l : List Hit} (hlo : lo' ≤ lo)
    (hhi : ∀ h ∈ l, h.time ≤ hi') : windowCost lo hi l ≤ windowCost lo' hi' l := by
  have hsub : (window lo hi l).Sublist (window lo' hi' l) := by
    have hcut : window lo' hi' l = l.filter fun h => decide (lo' < h.time) := by
      refine List.filter_congr fun h hh => ?_
      simp [hhi h hh]
    rw [hcut]
    refine List.monotone_filter_right l fun h hh => ?_
    simp only [Bool.and_eq_true, decide_eq_true_eq] at hh ⊢
    omega
  exact (hsub.map _).sum_le_sum fun _ _ => Nat.zero_le _

/-- A window that starts earlier and ends with another weighs at least as much. -/
theorem windowCost_anti_lo {lo lo' : ℤ} (hlo : lo' ≤ lo) (hi : ℤ) (l : List Hit) :
    windowCost lo hi l ≤ windowCost lo' hi l := by
  have hsub : (window lo hi l).Sublist (window lo' hi l) := by
    apply List.monotone_filter_right l
    intro h hh
    simp only [Bool.and_eq_true, decide_eq_true_eq] at hh ⊢
    exact ⟨hlo.trans_lt hh.1, hh.2⟩
  exact (hsub.map _).sum_le_sum fun _ _ => Nat.zero_le _

/-- A window weighs what its two parts weigh. -/
theorem windowCost_split {lo mid hi : ℤ} (hlo : lo ≤ mid) (hhi : mid ≤ hi) (l : List Hit) :
    windowCost lo hi l = windowCost lo mid l + windowCost mid hi l := by
  induction l with
  | nil => rfl
  | cons h l ih =>
    have hone : windowCost lo hi [h] = windowCost lo mid [h] + windowCost mid hi [h] := by
      simp only [windowCost_singleton]
      split_ifs <;> omega
    rw [← List.singleton_append, windowCost_append, windowCost_append lo mid,
      windowCost_append mid hi, ih, hone]
    omega

/-- A window that no hit lies in weighs nothing. -/
theorem windowCost_eq_zero {lo hi : ℤ} {l : List Hit} (h : ∀ x ∈ l, ¬ (lo < x.time ∧ x.time ≤ hi)) :
    windowCost lo hi l = 0 := by
  have hnone : window lo hi l = [] := by
    rw [window, List.filter_eq_nil_iff]
    intro x hx
    simpa using h x hx
  rw [windowCost, hnone]
  rfl

/-! ## Stamps -/

/-- Every hit as that many copies of its time. -/
def expand (l : List Hit) : List ℤ := l.flatMap fun h => List.replicate h.cost h.time

/-- No hits have no units. -/
@[simp] theorem expand_nil : expand [] = [] := rfl

/-- A hit has one unit for each of its cost. -/
@[simp] theorem expand_cons (h : Hit) (l : List Hit) :
    expand (h :: l) = List.replicate h.cost h.time ++ expand l := rfl

/-- The units of two logs. -/
theorem expand_append (l₁ l₂ : List Hit) : expand (l₁ ++ l₂) = expand l₁ ++ expand l₂ :=
  List.flatMap_append

/-- There are as many units as the hits cost. -/
theorem length_expand (l : List Hit) : (expand l).length = (l.map Hit.cost).sum := by
  simp [expand, List.length_flatMap]

/-- A unit has the time of its hit. -/
theorem mem_expand {l : List Hit} {t : ℤ} (ht : t ∈ expand l) : ∃ h ∈ l, h.time = t := by
  obtain ⟨h, hl, hr⟩ := List.mem_flatMap.mp ht
  exact ⟨h, hl, (List.eq_of_mem_replicate hr).symm⟩

/-- Filtering the stamps by time is expanding the filtered hits. -/
theorem filter_expand (p : ℤ → Bool) (l : List Hit) :
    (expand l).filter p = expand (l.filter fun h => p h.time) := by
  induction l with
  | nil => rfl
  | cons h l ih =>
    rw [expand_cons, List.filter_append, ih, List.filter_replicate]
    by_cases hp : p h.time <;> simp [hp]

/-- The oldest stamp is the oldest hit, when no hit weighs nothing. -/
theorem head?_expand {l : List Hit} (hpos : ∀ h ∈ l, 1 ≤ h.cost) :
    (expand l).head? = (l.map Hit.time).head? := by
  cases l with
  | nil => rfl
  | cons h l =>
    obtain ⟨c, hc⟩ := Nat.exists_eq_add_of_le' (hpos h (by simp))
    simp [hc, List.replicate_succ]

/-- The stamps of a log in time order are in order. -/
theorem pairwise_expand {l : List Hit} (h : (l.map Hit.time).Pairwise (· ≤ ·)) :
    (expand l).Pairwise (· ≤ ·) := by
  induction l with
  | nil => exact List.Pairwise.nil
  | cons x l ih =>
    rw [List.map_cons, List.pairwise_cons] at h
    rw [expand_cons, List.pairwise_append]
    refine ⟨List.pairwise_replicate.mpr (Or.inr le_rfl), ih h.2, ?_⟩
    intro a ha b hb
    obtain ⟨y, hy, rfl⟩ := mem_expand hb
    rw [List.eq_of_mem_replicate ha]
    exact h.1 _ (List.mem_map_of_mem hy)

/-- The units of the reversed log. -/
theorem expand_reverse (l : List Hit) : expand l.reverse = (expand l).reverse := by
  induction l with
  | nil => rfl
  | cons h l ih => simp [expand_append, ih]

/-- Hits that cost something have units. -/
theorem eq_nil_of_expand_eq_nil {l : List Hit} (hpos : ∀ h ∈ l, 1 ≤ h.cost)
    (h : expand l = []) : l = [] := by
  cases l with
  | nil => rfl
  | cons x l =>
    have := hpos x List.mem_cons_self
    rw [expand_cons, List.append_eq_nil_iff, List.replicate_eq_nil_iff] at h
    omega

/-! ## Taking units back -/

/-- The log without its first `n` units of weight. -/
def dropUnits : ℕ → List Hit → List Hit
  | _, [] => []
  | n, h :: l => if h.cost ≤ n then dropUnits (n - h.cost) l else ⟨h.time, h.cost - n⟩ :: l

/-- Dropping units off the hits drops them off the front. -/
theorem expand_dropUnits (n : ℕ) (l : List Hit) : expand (dropUnits n l) = (expand l).drop n := by
  induction l generalizing n with
  | nil => simp [dropUnits]
  | cons h l ih =>
    rw [dropUnits, expand_cons, List.drop_append, List.drop_replicate, List.length_replicate]
    split
    · rename_i hle
      simp [ih, Nat.sub_eq_zero_of_le hle]
    · rename_i hlt
      simp [Nat.sub_eq_zero_of_le (by omega : n ≤ h.cost)]

/-- Taking units back keeps the times, in order. -/
theorem map_time_dropUnits_sublist (n : ℕ) (l : List Hit) :
    ((dropUnits n l).map Hit.time).Sublist (l.map Hit.time) := by
  induction l generalizing n with
  | nil => exact List.Sublist.refl _
  | cons h l ih =>
    rw [dropUnits]
    split
    · exact (ih _).cons _
    · exact List.Sublist.refl _

/-- What is left of a hit costs something. -/
theorem one_le_cost_dropUnits {n : ℕ} {l : List Hit} (hpos : ∀ h ∈ l, 1 ≤ h.cost) :
    ∀ h ∈ dropUnits n l, 1 ≤ h.cost := by
  induction l generalizing n with
  | nil => simp [dropUnits]
  | cons x l ih =>
    intro h hh
    rw [dropUnits] at hh
    split at hh
    · exact ih (fun y hy => hpos y (List.mem_cons_of_mem x hy)) h hh
    · rcases List.mem_cons.mp hh with rfl | hh
      · simp only
        omega
      · exact hpos h (List.mem_cons_of_mem x hh)

/-! ## Admission -/

/-- The hits that were admitted. -/
def admitted (l : List (Hit × Bool)) : List Hit := (l.filter Prod.snd).map Prod.fst

/-- Nothing was admitted of nothing. -/
@[simp] theorem admitted_nil : admitted [] = [] := rfl

/-- An allowed hit is admitted. -/
@[simp] theorem admitted_cons_true (h : Hit) (l : List (Hit × Bool)) :
    admitted ((h, true) :: l) = h :: admitted l := rfl

/-- A blocked one is not. -/
@[simp] theorem admitted_cons_false (h : Hit) (l : List (Hit × Bool)) :
    admitted ((h, false) :: l) = admitted l := rfl

/-- After the hits `acc`, every hit of `l` that is admitted fits its own window: all the
recorded hits of the last `W`, itself included, weigh at most `cap`. -/
def AdmittedWithin (W : ℤ) (cap : ℕ) : List Hit → List (Hit × Bool) → Prop
  | _, [] => True
  | acc, (h, ok) :: l =>
    (ok = true → windowCost (h.time - W) h.time (acc ++ [h]) ≤ cap) ∧
      AdmittedWithin W cap (acc ++ [h]) l

/-- The admission bound, started in the middle of a log: `A` is what was admitted of the
hits `acc` recorded so far. -/
theorem admitted_window_le_aux {W : ℤ} {cap : ℕ} {t₀ : ℤ} {l : List (Hit × Bool)}
    {acc A : List Hit} (hsub : A.Sublist acc) (hacc : ∀ h ∈ acc, h.time ≤ t₀)
    (hord : OrderedFrom (fun p : Hit × Bool => p.1.time) t₀ l)
    (hin : AdmittedWithin W cap acc l) (t : ℤ) (hA : windowCost (t - W) t A ≤ cap) :
    windowCost (t - W) t (A ++ admitted l) ≤ cap := by
  induction l generalizing acc A t₀ with
  | nil => simpa using hA
  | cons p l ih =>
    obtain ⟨h, ok⟩ := p
    have hacc' : ∀ x ∈ acc ++ [h], x.time ≤ h.time := by
      intro x hx
      rcases List.mem_append.mp hx with hx | hx
      · exact (hacc x hx).trans hord.1
      · rw [List.mem_singleton.mp hx]
    cases ok with
    | false =>
      exact ih (hsub.trans (List.sublist_append_left acc [h])) hacc' hord.2 hin.2 hA
    | true =>
      have hsub' : (A ++ [h]).Sublist (acc ++ [h]) := hsub.append (List.Sublist.refl _)
      have hA' : windowCost (t - W) t (A ++ [h]) ≤ cap := by
        by_cases hw : t - W < h.time ∧ h.time ≤ t
        · -- everything admitted in the window at `t` lies in the window that ends at `h`
          calc windowCost (t - W) t (A ++ [h])
              ≤ windowCost (t - W) t (acc ++ [h]) := windowCost_sublist _ _ hsub'
            _ ≤ windowCost (h.time - W) h.time (acc ++ [h]) :=
              windowCost_le_of_lo_le (by omega) hacc'
            _ ≤ cap := hin.1 rfl
        · rw [windowCost_append, windowCost_singleton, if_neg hw]
          exact hA
      have := ih hsub' hacc' hord.2 hin.2 hA'
      rwa [List.append_assoc] at this

/-- **The admission bound.**  If every admitted hit fits its own window, the admitted
hits of every window of length `W` weigh at most the cap. -/
theorem admitted_window_le {W : ℤ} {cap : ℕ} {t₀ : ℤ} {l : List (Hit × Bool)}
    {acc : List Hit} (hacc : ∀ h ∈ acc, h.time ≤ t₀)
    (hord : OrderedFrom (fun p : Hit × Bool => p.1.time) t₀ l)
    (hin : AdmittedWithin W cap acc l) (t : ℤ) :
    windowCost (t - W) t (admitted l) ≤ cap := by
  simpa using admitted_window_le_aux (List.nil_sublist acc) hacc hord hin t (by simp)

end Hit

end RatelimitFlex.Library
