import RatelimitFlex.Library.TimedRun

/-!
# Tables of rows with a primary key

A table is a partial map from keys to rows.  `upsert` is `INSERT … ON CONFLICT (key) DO
UPDATE`, `modify` an update that may also drop the row, and `deleteWhere` a `DELETE` with
a condition over the whole table.  The lemmas say what each does to one key.

`remembering step` runs a machine over a table beside the rows it has had: a key that has
lost its row keeps it there, until it gets a new one.
-/

set_option autoImplicit false

namespace RatelimitFlex.Library

/-- At most one row for each key. -/
abbrev RowTable (κ ρ : Type*) := κ → Option ρ

namespace RowTable

variable {κ ρ : Type*}

/-- The table without rows. -/
def empty : RowTable κ ρ := fun _ => none

/-- The empty table has no row. -/
@[simp] theorem empty_apply (k : κ) : (empty : RowTable κ ρ) k = none := rfl

/-- `DELETE … WHERE p`. -/
def deleteWhere (p : κ → ρ → Bool) (t : RowTable κ ρ) : RowTable κ ρ :=
  fun k => (t k).filter fun r => !p k r

/-- What a deletion leaves does not match it. -/
theorem deleteWhere_eq_some {p : κ → ρ → Bool} {t : RowTable κ ρ} {k : κ} {r : ρ} :
    t.deleteWhere p k = some r ↔ t k = some r ∧ p k r = false := by
  simp [deleteWhere, Option.filter_eq_some_iff]

/-- A row is missing after the deletion when it was missing before or was deleted. -/
theorem deleteWhere_eq_none {p : κ → ρ → Bool} {t : RowTable κ ρ} {k : κ} :
    t.deleteWhere p k = none ↔ t k = none ∨ ∃ r, t k = some r ∧ p k r = true := by
  cases h : t k with
  | none => simp [deleteWhere, h]
  | some r => cases hp : p k r <;> simp [deleteWhere, h, hp]

/-- A row that is gone after the deletion met its condition. -/
theorem of_deleteWhere_eq_none {p : κ → ρ → Bool} {t : RowTable κ ρ} {k : κ} {r : ρ}
    (hr : t k = some r) (h : t.deleteWhere p k = none) : p k r = true := by
  rcases deleteWhere_eq_none.mp h with hnone | ⟨x, hx, hp⟩
  · rw [hr] at hnone
    simp at hnone
  · obtain rfl := Option.some.inj (hr.symm.trans hx)
    exact hp

variable [DecidableEq κ]

/-- The statement for `key`: `insert` when there is no row, else `update` of the row. -/
def upsert (key : κ) (insert : ρ) (update : ρ → ρ) (t : RowTable κ ρ) : RowTable κ ρ :=
  Function.update t key (some ((t key).elim insert update))

/-- The row of `key` is replaced, or dropped when `f` answers nothing. -/
def modify (key : κ) (f : ρ → Option ρ) (t : RowTable κ ρ) : RowTable κ ρ :=
  Function.update t key ((t key).bind f)

/-- `DELETE … WHERE key = …`. -/
def delete (key : κ) (t : RowTable κ ρ) : RowTable κ ρ := Function.update t key none

section Lemmas

variable (t : RowTable κ ρ) {key k : κ} (insert : ρ) (update : ρ → ρ) (f : ρ → Option ρ)

/-- An upsert inserts the row or updates it. -/
@[simp] theorem upsert_self :
    t.upsert key insert update key = some ((t key).elim insert update) := by
  simp [upsert]

/-- A change of a row that is there. -/
@[simp] theorem modify_self : t.modify key f key = (t key).bind f := by
  simp [modify]

/-- A row that is deleted is gone. -/
@[simp] theorem delete_self : t.delete key key = none := by
  simp [delete]

/-- An upsert touches its row alone. -/
@[simp] theorem upsert_of_ne (h : k ≠ key) : t.upsert key insert update k = t k := by
  simp [upsert, h]

/-- So does a change. -/
@[simp] theorem modify_of_ne (h : k ≠ key) : t.modify key f k = t k := by
  simp [modify, h]

/-- So does a deletion. -/
@[simp] theorem delete_of_ne (h : k ≠ key) : t.delete key k = t k := by
  simp [delete, h]

end Lemmas

/-! ## Remembered rows -/

section Remember

omit [DecidableEq κ]

variable {ι ο : Type*}

/-- The row of a key, or the one it had. -/
def remember (past t : RowTable κ ρ) : RowTable κ ρ := fun k => (t k).or (past k)

/-- One step, on the table and on the rows remembered. -/
def remembering (step : ι → RowTable κ ρ → RowTable κ ρ × ο) (i : ι)
    (s : RowTable κ ρ × RowTable κ ρ) : (RowTable κ ρ × RowTable κ ρ) × ο :=
  let r := step i s.1
  ((r.1, remember s.2 r.1), r.2)

variable {step : ι → RowTable κ ρ → RowTable κ ρ × ο}

/-- A row that is there is remembered as it is. -/
@[simp] theorem remember_of_some {past t : RowTable κ ρ} {k : κ} {r : ρ} (h : t k = some r) :
    remember past t k = some r := by
  simp [remember, h]

/-- One that is gone is remembered as it was. -/
@[simp] theorem remember_of_none {past t : RowTable κ ρ} {k : κ} (h : t k = none) :
    remember past t k = past k := by
  simp [remember, h]

/-- The machine runs as it does alone. -/
theorem fst_final_remembering (is : List ι) (s : RowTable κ ρ × RowTable κ ρ) :
    (final (remembering step) is s).1 = final step is s.1 := by
  induction is generalizing s with
  | nil => rfl
  | cons i is ih => exact ih _

/-- A guard on the table is one on it and its past. -/
theorem guarded_remembering {G : ι → RowTable κ ρ → Prop} {is : List ι}
    {s : RowTable κ ρ × RowTable κ ρ} (h : Guarded G step is s.1) :
    Guarded (fun i s => G i s.1) (remembering step) is s := by
  induction is generalizing s with
  | nil => trivial
  | cons i is ih => exact ⟨h.1, ih h.2⟩

/-- Whoever has a row remembers that row. -/
theorem remembered_eq {is : List ι} {s : RowTable κ ρ × RowTable κ ρ}
    (h : ∀ k r, s.1 k = some r → s.2 k = some r) {k : κ} {r : ρ}
    (hr : (final (remembering step) is s).1 k = some r) :
    (final (remembering step) is s).2 k = some r := by
  induction is generalizing s with
  | nil => exact h k r hr
  | cons i is ih => exact ih (fun _ _ hk => remember_of_some hk) hr

end Remember

end RowTable

end RatelimitFlex.Library
