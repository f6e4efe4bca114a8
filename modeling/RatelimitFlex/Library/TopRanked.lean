import Mathlib.Tactic

/-!
# The first few of a ranking

`topRanked f k xs` are the `k` entries of a list with the greatest `f`, in a stable order.  None
that is left out is above one that is listed (`le_of_notMem_topRanked`).
-/

set_option autoImplicit false

namespace RatelimitFlex.Library

variable {α : Type*} {f : α → ℕ} {k : ℕ} {xs : List α}

/-- The entries with the greatest `f`. -/
def topRanked (f : α → ℕ) (k : ℕ) (xs : List α) : List α :=
  (xs.mergeSort fun a b => decide (f b ≤ f a)).take k

/-- A ranking goes down. -/
theorem pairwise_ranking (f : α → ℕ) (xs : List α) :
    (xs.mergeSort fun a b => decide (f b ≤ f a)).Pairwise fun a b => f b ≤ f a := by
  have hsorted : (xs.mergeSort fun a b => decide (f b ≤ f a)).Pairwise
      fun a b => decide (f b ≤ f a) = true := by
    refine List.pairwise_mergeSort (fun a b c hab hbc => ?_) (fun a b => ?_) xs
    · exact decide_eq_true ((of_decide_eq_true hbc).trans (of_decide_eq_true hab))
    · simpa using le_total (f b) (f a)
  exact hsorted.imp fun hab => of_decide_eq_true hab

/-- So do its first places. -/
theorem pairwise_topRanked (f : α → ℕ) (k : ℕ) (xs : List α) :
    (topRanked f k xs).Pairwise fun a b => f b ≤ f a :=
  (pairwise_ranking f xs).sublist (List.take_sublist k _)

/-- There are no more places than asked for. -/
theorem length_topRanked_le (f : α → ℕ) (k : ℕ) (xs : List α) : (topRanked f k xs).length ≤ k :=
  List.length_take_le k _

/-- Who has a place was ranked. -/
theorem mem_of_mem_topRanked {x : α} (h : x ∈ topRanked f k xs) : x ∈ xs :=
  List.mem_mergeSort.mp (List.mem_of_mem_take h)

/-- What is different in the list is different in the ranking. -/
theorem nodup_map_topRanked {β : Type*} {g : α → β} (h : (xs.map g).Nodup) :
    ((topRanked f k xs).map g).Nodup := by
  have hperm := (List.mergeSort_perm xs fun a b => decide (f b ≤ f a)).map g
  exact (hperm.nodup_iff.mpr h).sublist ((List.take_sublist k _).map g)

/-- What is left out is not above what is listed, and only left out when the list is full. -/
theorem le_of_notMem_topRanked {x : α} (hx : x ∈ xs) (hout : x ∉ topRanked f k xs) :
    (topRanked f k xs).length = k ∧ ∀ y ∈ topRanked f k xs, f x ≤ f y := by
  have hsplit : x ∈ (xs.mergeSort fun a b => decide (f b ≤ f a)).drop k := by
    have hmem : x ∈ xs.mergeSort fun a b => decide (f b ≤ f a) := List.mem_mergeSort.mpr hx
    rw [← List.take_append_drop k (xs.mergeSort _), List.mem_append] at hmem
    exact hmem.resolve_left hout
  constructor
  · have hlong := List.length_pos_of_mem hsplit
    rw [List.length_drop] at hlong
    rw [topRanked, List.length_take]
    omega
  · intro y hy
    have hsorted := pairwise_ranking f xs
    rw [← List.take_append_drop k (xs.mergeSort _), List.pairwise_append] at hsorted
    exact hsorted.2.2 y hy x hsplit

end RatelimitFlex.Library
