import Mathlib.Tactic

/-!
# The end of a growing list

`recent w xs` is what is left of a list when only `w` entries are kept: a new entry is put at the
end and the first one dropped (`recent_concat`).  When the list is that of the differences of a
series, its end adds up to the difference over the whole window (`sum_recent_differences`).
-/

set_option autoImplicit false

namespace RatelimitFlex.Library

variable {α : Type*}

/-- The last `w` entries. -/
def recent (w : ℕ) (xs : List α) : List α := xs.drop (xs.length - w)

/-- Nothing is recent in nothing. -/
@[simp] theorem recent_nil (w : ℕ) : recent w ([] : List α) = [] := List.drop_nil

/-- No more are recent than the window has places. -/
@[simp] theorem length_recent (w : ℕ) (xs : List α) :
    (recent w xs).length = min w xs.length := by
  rw [recent, List.length_drop]
  omega

/-- All entries but those that are too many. -/
theorem recent_concat (w : ℕ) (xs : List α) (v : α) :
    recent w (xs ++ [v]) = (recent w xs ++ [v]).drop ((recent w xs ++ [v]).length - w) := by
  have hlen : (recent w xs ++ [v]).length = min w xs.length + 1 := by
    rw [List.length_append, length_recent, List.length_singleton]
  have hkept : recent w xs ++ [v] = (xs ++ [v]).drop (xs.length - w) := by
    rw [recent, List.drop_append_of_le_length (by omega)]
  rw [hlen, hkept, List.drop_drop, recent, List.length_append, List.length_singleton]
  congr 1
  omega

/-- Nothing has to go, or the first one. -/
theorem recent_concat_eq_ite (w : ℕ) (xs : List α) (v : α) :
    recent w (xs ++ [v]) =
      if w < (recent w xs ++ [v]).length then (recent w xs ++ [v]).drop 1
      else recent w xs ++ [v] := by
  have hlen : (recent w xs ++ [v]).length = min w xs.length + 1 := by
    rw [List.length_append, length_recent, List.length_singleton]
  rw [recent_concat]
  split
  · next hmore =>
    have hone : (recent w xs ++ [v]).length - w = 1 := by omega
    rw [hone]
  · next hfits =>
    have hnone : (recent w xs ++ [v]).length - w = 0 := by omega
    rw [hnone, List.drop_zero]

/-! ## Differences -/

/-- The differences of neighbours, the first one to `a`. -/
def differences (a : ℤ) : List ℤ → List ℤ
  | [] => []
  | x :: xs => (x - a) :: differences x xs

/-- Each number has a difference. -/
@[simp] theorem length_differences (a : ℤ) (xs : List ℤ) :
    (differences a xs).length = xs.length := by
  induction xs generalizing a with
  | nil => rfl
  | cons x xs ih => rw [differences, List.length_cons, List.length_cons, ih]

/-- A new number adds its difference to the last one. -/
theorem differences_concat (a : ℤ) (xs : List ℤ) (v : ℤ) :
    differences a (xs ++ [v]) = differences a xs ++ [v - xs.getLastD a] := by
  induction xs generalizing a with
  | nil => rfl
  | cons x xs ih =>
    rw [List.cons_append, differences, ih, differences, List.cons_append, List.getLastD_cons]

/-- They telescope. -/
theorem sum_differences (a : ℤ) (xs : List ℤ) : (differences a xs).sum = xs.getLastD a - a := by
  induction xs generalizing a with
  | nil => exact (sub_self a).symm
  | cons x xs ih =>
    rw [differences, List.sum_cons, ih, List.getLastD_cons]
    ring

/-- Over a window they add up to the difference to what was there before it. -/
theorem sum_drop_differences (a : ℤ) (xs : List ℤ) (n : ℕ) (hn : n ≤ xs.length) :
    ((differences a xs).drop n).sum = xs.getLastD a - (a :: xs).getD n 0 := by
  induction n generalizing a xs with
  | zero => exact sum_differences a xs
  | succ n ih =>
    cases xs with
    | nil => exact absurd hn (Nat.not_succ_le_zero n)
    | cons x xs =>
      rw [differences, List.drop_succ_cons, ih x xs (Nat.le_of_succ_le_succ hn),
        List.getLastD_cons, List.getD_cons_succ]

/-- Recent differences add up to the growth since they began. -/
theorem sum_recent_differences (w : ℕ) (a : ℤ) (xs : List ℤ) :
    (recent w (differences a xs)).sum =
      xs.getLastD a - (a :: xs).getD (xs.length - w) 0 := by
  rw [recent, length_differences]
  exact sum_drop_differences a xs _ (Nat.sub_le _ _)

end RatelimitFlex.Library
