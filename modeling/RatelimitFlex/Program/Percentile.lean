import Mathlib.Tactic

/-!
# Percentiles of samples

`src/metrics/percentile.ts` and the rank index of `src/metrics/stats.ts`, over any linear order.
The loops are counted: a definition gives `none` when its count is used up, and when it reads or
writes outside the range it is to stay in.  `share p n` is what `(p / 100) * n` evaluates to;
index differences are below 2 ^ 31, so that `>> 1` halves them.
-/

set_option autoImplicit false

namespace RatelimitFlex

variable {α : Type} [LinearOrder α]

/-! ## Hoare's partition -/

/-- `arr[i]`, for an `i` in the range. -/
def readWithin (arr : List α) (left right i : ℤ) : Option α :=
  if left ≤ i ∧ i ≤ right then arr[i.toNat]? else none

/-- SOURCE: src/metrics/percentile.ts:1-5 -/
def swap (arr : List α) (left right i j : ℤ) : Option (List α) := do
  let t ← readWithin arr left right i
  let u ← readWithin arr left right j
  return (arr.set i.toNat u).set j.toNat t

/-- `do i++ while (arr[i] < pivot)`.
SOURCE: src/metrics/percentile.ts:16-18 -/
def scanUp (arr : List α) (left right : ℤ) (pivot : α) : ℕ → ℤ → Option ℤ
  | 0, _ => none
  | fuel + 1, i =>
    match readWithin arr left right (i + 1) with
    | none => none
    | some x => if x < pivot then scanUp arr left right pivot fuel (i + 1) else some (i + 1)

/-- `do j-- while (arr[j] > pivot)`.
SOURCE: src/metrics/percentile.ts:19-21 -/
def scanDown (arr : List α) (left right : ℤ) (pivot : α) : ℕ → ℤ → Option ℤ
  | 0, _ => none
  | fuel + 1, j =>
    match readWithin arr left right (j - 1) with
    | none => none
    | some x => if pivot < x then scanDown arr left right pivot fuel (j - 1) else some (j - 1)

/-- The outer loop.
SOURCE: src/metrics/percentile.ts:15-24 -/
def hoareLoop (left right : ℤ) (pivot : α) : ℕ → ℤ → ℤ → List α → Option (ℤ × List α)
  | 0, _, _, _ => none
  | fuel + 1, i, j, arr => do
    let i ← scanUp arr left right pivot (arr.length + 1) i
    let j ← scanDown arr left right pivot (arr.length + 1) j
    if j ≤ i then return (j, arr)
    let arr ← swap arr left right i j
    hoareLoop left right pivot fuel i j arr

/-- `>> 1` is the half, rounded down, of a difference below `2 ^ 31`: no array is longer here.
SOURCE: src/metrics/percentile.ts:11-25 -/
def hoarePartition (arr : List α) (left right : ℤ) : Option (ℤ × List α) := do
  let pivot ← readWithin arr left right (left + (right - left) / 2)
  hoareLoop left right pivot (arr.length + 1) (left - 1) (right + 1) arr

/-! ## `percentile` -/

/-- A range of the array that is still looked at. -/
structure SelectRange (α : Type) where
  arr : List α
  left : ℤ
  right : ℤ

/-- One turn of the loop of `quickselect`, when `left !== right`.
SOURCE: src/metrics/percentile.ts:36-41 -/
def quickselectStep (k : ℤ) (s : SelectRange α) : Option (SelectRange α) :=
  (hoarePartition s.arr s.left s.right).map fun r =>
    if k ≤ r.1 then ⟨r.2, s.left, r.1⟩ else ⟨r.2, r.1 + 1, s.right⟩

/-- SOURCE: src/metrics/percentile.ts:31-43 -/
def quickselect (k : ℤ) : ℕ → SelectRange α → Option (α × List α)
  | 0, _ => none
  | fuel + 1, s =>
    if s.left = s.right then
      (readWithin s.arr s.left s.right s.left).map fun x => (x, s.arr)
    else (quickselectStep k s).bind (quickselect k fuel)

/-- SOURCE: src/metrics/stats.ts:7-10 -/
def percentileRankIndex (share : ℚ → ℕ → ℚ) (n : ℕ) (p : ℚ) : ℤ :=
  min (n - 1) (max 0 (⌈share p n⌉ - 1))

/-- The answer, and the array as it is left.
SOURCE: src/metrics/percentile.ts:50-55 -/
def percentile [Zero α] (share : ℚ → ℕ → ℚ) (arr : List α) (p : ℚ) : Option (α × List α) :=
  if arr.length = 0 then some (0, arr)
  else quickselect (percentileRankIndex share arr.length p) arr.length ⟨arr, 0, arr.length - 1⟩

/-! ## `percentilesQuick` -/

/-- SOURCE: src/metrics/stats.ts:16-27 -/
def percentilesQuick [Zero α] (share : ℚ → ℕ → ℚ) (samples : List α) (ps : List ℚ) : List α :=
  if samples.length = 0 then ps.map fun _ => 0
  else
    let a := samples.mergeSort (· ≤ ·)
    ps.map fun p => (a[(percentileRankIndex share samples.length p).toNat]?).getD 0

/-- SOURCE: src/metrics/stats.ts:32-37 -/
def percentileQuick [Zero α] (share : ℚ → ℕ → ℚ) (samples : List α) (p : ℚ) : Option α :=
  if samples.length = 0 then some 0 else (percentile share samples p).map Prod.fst

end RatelimitFlex
