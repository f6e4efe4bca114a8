import Mathlib.Tactic

/-!
# The element of a rank

`IsRank l k v` says that `v` is what stands at place `k` when `l` is sorted, by counting: no more
than `k` elements are below `v`, and more than `k` are not above it.  It does not depend on the
order of `l`, holds of one value at most, and is read off a list whose elements before place `k`
are not above the one at `k`, and those after it not below.
-/

set_option autoImplicit false

namespace RatelimitFlex.Library

variable {α : Type*} [LinearOrder α]

/-- The value of rank `k`, from 0. -/
structure IsRank (l : List α) (k : ℕ) (v : α) : Prop where
  below : l.countP (· < v) ≤ k
  notAbove : k < l.countP (· ≤ v)

/-- The rank of a value is that in any order of the list. -/
theorem IsRank.perm {l l' : List α} {k : ℕ} {v : α} (h : IsRank l k v) (hp : l.Perm l') :
    IsRank l' k v where
  below := by
    rw [← hp.countP_eq]
    exact h.below
  notAbove := by
    rw [← hp.countP_eq]
    exact h.notAbove

/-- Of two values the lesser is counted among those below the other. -/
theorem IsRank.not_lt_of {l : List α} {k : ℕ} {v w : α} (hv : IsRank l k v) (hw : IsRank l k w) :
    ¬ v < w := by
  intro hlt
  have hle : l.countP (· ≤ v) ≤ l.countP (· < w) := by
    refine List.countP_mono_left fun x _ hx => ?_
    exact decide_eq_true ((of_decide_eq_true hx).trans_lt hlt)
  have hk := hv.notAbove
  have hk' := hw.below
  omega

/-- Only one value has the rank. -/
theorem IsRank.unique {l : List α} {k : ℕ} {v w : α} (hv : IsRank l k v) (hw : IsRank l k w) :
    v = w :=
  le_antisymm (not_lt.mp (hw.not_lt_of hv)) (not_lt.mp (hv.not_lt_of hw))

/-- The element that splits a list at its own place. -/
theorem isRank_of_split {l : List α} {k : ℕ} {v : α} (hv : l[k]? = some v)
    (hbefore : ∀ i x, i < k → l[i]? = some x → x ≤ v)
    (hafter : ∀ i x, k < i → l[i]? = some x → v ≤ x) : IsRank l k v := by
  obtain ⟨hk, hget⟩ := List.getElem?_eq_some_iff.mp hv
  constructor
  · have hdrop : (l.drop k).countP (· < v) = 0 := by
      refine List.countP_eq_zero.mpr fun x hx => ?_
      obtain ⟨i, hi⟩ := List.mem_iff_getElem?.mp hx
      rw [List.getElem?_drop] at hi
      refine fun hlt => absurd (of_decide_eq_true hlt) (not_lt.mpr ?_)
      rcases Nat.eq_zero_or_pos i with rfl | hpos
      · rw [Nat.add_zero, hv] at hi
        exact (Option.some.inj hi).le
      · exact hafter (k + i) x (by omega) hi
    calc l.countP (· < v)
        = (l.take k).countP (· < v) + (l.drop k).countP (· < v) := by
          rw [← List.countP_append, List.take_append_drop]
      _ = (l.take k).countP (· < v) := by rw [hdrop, Nat.add_zero]
      _ ≤ (l.take k).length := List.countP_le_length
      _ ≤ k := List.length_take_le k l
  · have htake : (l.take (k + 1)).countP (· ≤ v) = (l.take (k + 1)).length := by
      refine List.countP_eq_length.mpr fun x hx => ?_
      obtain ⟨i, hi⟩ := List.mem_iff_getElem?.mp hx
      have hlt : i < k + 1 := by
        obtain ⟨hlength, -⟩ := List.getElem?_eq_some_iff.mp hi
        rw [List.length_take] at hlength
        omega
      rw [List.getElem?_take_of_lt hlt] at hi
      refine decide_eq_true ?_
      rcases Nat.lt_or_eq_of_le (Nat.lt_succ_iff.mp hlt) with hlt | rfl
      · exact hbefore i x hlt hi
      · rw [hv] at hi
        exact (Option.some.inj hi).ge
    calc k < (l.take (k + 1)).length := by rw [List.length_take]; omega
      _ = (l.take (k + 1)).countP (· ≤ v) := htake.symm
      _ ≤ l.countP (· ≤ v) := (List.take_sublist _ l).countP_le

/-- The elements of a sorted list are of the ranks of their places. -/
theorem isRank_of_pairwise {l : List α} (h : l.Pairwise (· ≤ ·)) {k : ℕ} {v : α}
    (hv : l[k]? = some v) : IsRank l k v := by
  obtain ⟨hk, rfl⟩ := List.getElem?_eq_some_iff.mp hv
  have hsorted := List.pairwise_iff_getElem.mp h
  refine isRank_of_split hv ?_ ?_
  · intro i x hi hx
    obtain ⟨hlength, rfl⟩ := List.getElem?_eq_some_iff.mp hx
    exact hsorted i k hlength hk hi
  · intro i x hi hx
    obtain ⟨hlength, rfl⟩ := List.getElem?_eq_some_iff.mp hx
    exact hsorted k i hk hlength hi

end RatelimitFlex.Library
