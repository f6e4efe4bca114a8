import Mathlib.Tactic

/-!
# Search for the first place of a predicate

Binary search in a half-open interval for the first place at which a predicate holds that, once it
holds, holds from there on.
-/

set_option autoImplicit false

namespace RatelimitFlex.Library

/-- The interval is halved until it is empty. -/
def partitionPoint (p : ℕ → Bool) (lo hi : ℕ) : ℕ :=
  if lo < hi then
    if p ((lo + hi) / 2) then partitionPoint p lo ((lo + hi) / 2)
    else partitionPoint p ((lo + hi) / 2 + 1) hi
  else lo
termination_by hi - lo

/-- `m` is where `p` begins to hold below `n`. -/
structure IsPartitionPoint (p : ℕ → Bool) (n m : ℕ) : Prop where
  le : m ≤ n
  before : ∀ j, j < m → p j = false
  after : ∀ j, m ≤ j → j < n → p j = true

/-- An index with the property at it and not before it is the point. -/
theorem IsPartitionPoint.eq_of {p : ℕ → Bool} {n m i : ℕ} (h : IsPartitionPoint p n m) (hi : i ≤ n)
    (hbefore : ∀ j, i = j + 1 → p j = false) (hafter : i < n → p i = true) : m = i := by
  rcases lt_trichotomy m i with hlt | heq | hlt
  · obtain ⟨j, rfl⟩ : ∃ j, i = j + 1 := ⟨i - 1, by omega⟩
    have htrue := h.after j (by omega) (by omega)
    rw [hbefore j rfl] at htrue
    cases htrue
  · exact heq
  · have hfalse := h.before i hlt
    have hle := h.le
    rw [hafter (by omega)] at hfalse
    cases hfalse

/-- **The search finds it**: what lies before the interval does not satisfy the predicate, what
lies after it does. -/
theorem isPartitionPoint_partitionPoint {p : ℕ → Bool} {n : ℕ}
    (hmono : ∀ i j, i ≤ j → j < n → p i = true → p j = true) (lo hi : ℕ) (hle : lo ≤ hi)
    (hn : hi ≤ n) (hbefore : ∀ j, j < lo → p j = false)
    (hafter : ∀ j, hi ≤ j → j < n → p j = true) :
    IsPartitionPoint p n (partitionPoint p lo hi) := by
  induction lo, hi using partitionPoint.induct p with
  | case1 lo hi hlt hmid ih =>
    rw [partitionPoint, if_pos hlt, if_pos hmid]
    refine ih (by omega) (by omega) hbefore fun j hj hjn => ?_
    exact hmono _ j hj hjn hmid
  | case2 lo hi hlt hmid ih =>
    rw [partitionPoint, if_pos hlt, if_neg hmid]
    refine ih (by omega) hn (fun j hj => ?_) hafter
    rw [Bool.eq_false_iff]
    exact fun htrue => hmid (hmono j _ (by omega) (by omega) htrue)
  | case3 lo hi hge =>
    rw [partitionPoint, if_neg hge]
    obtain rfl : lo = hi := by omega
    exact ⟨hn, hbefore, hafter⟩

end RatelimitFlex.Library
