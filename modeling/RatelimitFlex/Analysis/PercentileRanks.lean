import RatelimitFlex.Library.OrderStatistic
import RatelimitFlex.Program.Percentile

/-!
# `percentile` selects by rank

One turn of the partition loop stops both scans at elements that are known to be there: the pivot
itself at first, later the two elements that were swapped last.  The range that is left always
holds the rank looked for, and whatever stands before it is not above what stands in it or after
it; so the one element that remains is the element of that rank (`percentile_eq_sorted`).
-/

set_option autoImplicit false

namespace RatelimitFlex

open Library

variable {α : Type}

/-! ## Reading and swapping -/

/-- A read inside the range finds the entry. -/
theorem readWithin_eq_some {arr : List α} {left right : ℤ} {m : ℕ} {x : α} (hleft : left ≤ m)
    (hright : (m : ℤ) ≤ right) (hx : arr[m]? = some x) : readWithin arr left right m = some x := by
  rw [readWithin, if_pos ⟨hleft, hright⟩, Int.toNat_natCast, hx]

/-- Every index below the length has an entry. -/
theorem exists_getElem? {arr : List α} {m : ℕ} (h : m < arr.length) : ∃ x, arr[m]? = some x :=
  ⟨arr[m], List.getElem?_eq_getElem h⟩

/-- What a swap in the range leaves. -/
structure Swapped (arr arr' : List α) (i j : ℕ) : Prop where
  perm : arr'.Perm arr
  first : arr'[i]? = arr[j]?
  second : arr'[j]? = arr[i]?
  others : ∀ m, m ≠ i → m ≠ j → arr'[m]? = arr[m]?

/-- A swap inside the range exchanges two entries. -/
theorem swap_spec {arr : List α} {left right : ℤ} {i j : ℕ} (hleft : left ≤ i) (hij : i < j)
    (hright : (j : ℤ) ≤ right) (hlength : j < arr.length) :
    ∃ arr', swap arr left right i j = some arr' ∧ Swapped arr arr' i j := by
  obtain ⟨x, hx⟩ := exists_getElem? (hij.trans hlength)
  obtain ⟨y, hy⟩ := exists_getElem? hlength
  obtain ⟨hi, rfl⟩ := List.getElem?_eq_some_iff.mp hx
  obtain ⟨hj, rfl⟩ := List.getElem?_eq_some_iff.mp hy
  refine ⟨(arr.set i arr[j]).set j arr[i], ?_, ?_⟩
  · rw [swap, readWithin_eq_some hleft (by omega) hx, readWithin_eq_some (by omega) hright hy]
    rfl
  · constructor
    · exact List.set_set_perm hi hj
    · rw [List.getElem?_set_ne (by omega), List.getElem?_set_self hi, hy]
    · rw [List.getElem?_set_self (by rwa [List.length_set]), hx]
    · intro m hmi hmj
      rw [List.getElem?_set_ne (Ne.symm hmj), List.getElem?_set_ne (Ne.symm hmi)]

variable [LinearOrder α]

/-! ## The scans -/

/-- The upward scan ends at the latest at an element that is not below the pivot. -/
theorem scanUp_spec {arr : List α} {left right : ℤ} {pivot : α} {m : ℕ} {y : α}
    (hm : (m : ℤ) ≤ right) (hy : arr[m]? = some y) (hstop : pivot ≤ y) (fuel : ℕ) {i : ℤ}
    (hleft : left ≤ i + 1) (hi : -1 ≤ i) (him : i < m) (hfuel : m - i ≤ fuel) :
    ∃ (i' : ℕ) (x : α), scanUp arr left right pivot fuel i = some (i' : ℤ) ∧ i < i' ∧ i' ≤ m ∧
      arr[i']? = some x ∧ pivot ≤ x ∧
      ∀ (t : ℕ) (z : α), i < t → t < i' → arr[t]? = some z → z ≤ pivot := by
  induction fuel generalizing i with
  | zero => omega
  | succ fuel ih =>
    obtain ⟨n, hn⟩ := Int.eq_ofNat_of_zero_le (show 0 ≤ i + 1 by omega)
    obtain ⟨hlength, -⟩ := List.getElem?_eq_some_iff.mp hy
    obtain ⟨x, hx⟩ := exists_getElem? (show n < arr.length by omega)
    have hread : readWithin arr left right (i + 1) = some x := by
      rw [hn]
      exact readWithin_eq_some (by omega) (by omega) hx
    unfold scanUp
    simp only [hread]
    by_cases hlt : x < pivot
    · -- the sentinel itself does not let the scan pass
      have hne : n ≠ m := by
        rintro rfl
        rw [hx] at hy
        rw [Option.some.inj hy] at hlt
        exact absurd hstop (not_le.mpr hlt)
      rw [if_pos hlt]
      obtain ⟨i', x', hscan, hlower, hupper, hx', hpivot, hpassed⟩ :=
        ih (i := i + 1) (by omega) (by omega) (by omega) (by omega)
      refine ⟨i', x', hscan, by omega, hupper, hx', hpivot, fun t z hit hti hz => ?_⟩
      rcases Nat.lt_or_eq_of_le (show n ≤ t by omega) with hnt | rfl
      · exact hpassed t z (by omega) hti hz
      · rw [hx] at hz
        rw [← Option.some.inj hz]
        exact hlt.le
    · rw [if_neg hlt]
      refine ⟨n, x, by rw [hn], by omega, by omega, hx, not_lt.mp hlt, fun t z hit hti _ => ?_⟩
      omega

/-- The downward scan ends at the latest at an element that is not above the pivot. -/
theorem scanDown_spec {arr : List α} {left right : ℤ} {pivot : α} {m : ℕ} {y : α}
    (hm : left ≤ m) (hy : arr[m]? = some y) (hstop : y ≤ pivot) (fuel : ℕ) {j : ℤ}
    (hright : j - 1 ≤ right) (hlength : j ≤ arr.length) (hmj : m < j) (hfuel : j - m ≤ fuel) :
    ∃ (j' : ℕ) (x : α), scanDown arr left right pivot fuel j = some (j' : ℤ) ∧ j' < j ∧ m ≤ j' ∧
      arr[j']? = some x ∧ x ≤ pivot ∧
      ∀ (t : ℕ) (z : α), j' < t → t < j → arr[t]? = some z → pivot ≤ z := by
  induction fuel generalizing j with
  | zero => omega
  | succ fuel ih =>
    obtain ⟨n, hn⟩ := Int.eq_ofNat_of_zero_le (show 0 ≤ j - 1 by omega)
    obtain ⟨x, hx⟩ := exists_getElem? (show n < arr.length by omega)
    have hread : readWithin arr left right (j - 1) = some x := by
      rw [hn]
      exact readWithin_eq_some (by omega) (by omega) hx
    unfold scanDown
    simp only [hread]
    by_cases hlt : pivot < x
    · have hne : n ≠ m := by
        rintro rfl
        rw [hx] at hy
        rw [Option.some.inj hy] at hlt
        exact absurd hstop (not_le.mpr hlt)
      rw [if_pos hlt]
      obtain ⟨j', x', hscan, hupper, hlower, hx', hpivot, hpassed⟩ :=
        ih (j := j - 1) (by omega) (by omega) (by omega) (by omega)
      refine ⟨j', x', hscan, by omega, hlower, hx', hpivot, fun t z hjt htj hz => ?_⟩
      rcases Nat.lt_or_eq_of_le (show t ≤ n by omega) with htn | rfl
      · exact hpassed t z hjt (by omega) hz
      · rw [hx] at hz
        rw [← Option.some.inj hz]
        exact hlt.le
    · rw [if_neg hlt]
      refine ⟨n, x, by rw [hn], by omega, by omega, hx, not_lt.mp hlt, fun t z hjt htj _ => ?_⟩
      omega

/-! ## The partition -/

/-- Between two turns of the partition loop: the range is split at the pivot up to `i` and from
`j` on, each scan has an element ahead that stops it, and nothing has moved in or out. -/
structure Partitioning (arr₀ : List α) (left right : ℤ) (pivot : α) (i j : ℤ) (arr : List α) :
    Prop where
  perm : arr.Perm arr₀
  outside : ∀ m : ℕ, (m : ℤ) < left ∨ right < m → arr[m]? = arr₀[m]?
  inside : ∀ (m : ℕ) (x : α), left ≤ m → (m : ℤ) ≤ right → arr[m]? = some x →
    ∃ m' : ℕ, left ≤ m' ∧ (m' : ℤ) ≤ right ∧ arr₀[m']? = some x
  lower : ∀ (m : ℕ) (x : α), left ≤ m → m ≤ i → arr[m]? = some x → x ≤ pivot
  upper : ∀ (m : ℕ) (x : α), j ≤ m → m ≤ right → arr[m]? = some x → pivot ≤ x
  bounds : left - 1 ≤ i ∧ i < j ∧ j ≤ right + 1
  stopUp : ∃ (m : ℕ) (x : α), i < m ∧ (m : ℤ) ≤ right ∧ arr[m]? = some x ∧ pivot ≤ x ∧
    (j ≤ right ∨ (m : ℤ) < right)
  stopDown : ∃ (m : ℕ) (x : α), left ≤ m ∧ (m : ℤ) < j ∧ arr[m]? = some x ∧ x ≤ pivot

/-- What the partition leaves. -/
structure PartitionedAt (arr₀ : List α) (left right p : ℤ) (arr : List α) : Prop where
  perm : arr.Perm arr₀
  outside : ∀ m : ℕ, (m : ℤ) < left ∨ right < m → arr[m]? = arr₀[m]?
  inside : ∀ (m : ℕ) (x : α), left ≤ m → (m : ℤ) ≤ right → arr[m]? = some x →
    ∃ m' : ℕ, left ≤ m' ∧ (m' : ℤ) ≤ right ∧ arr₀[m']? = some x
  proper : left ≤ p ∧ p < right
  split : ∃ pivot, (∀ (m : ℕ) (x : α), left ≤ m → m ≤ p → arr[m]? = some x → x ≤ pivot) ∧
    ∀ (m : ℕ) (x : α), p < m → m ≤ right → arr[m]? = some x → pivot ≤ x

section Partition

variable {arr₀ : List α} {left right : ℤ} {pivot : α}

/-- A turn whose scans have not met swaps the two elements that stopped them. -/
theorem Partitioning.swap {i j : ℤ} {arr arr' : List α}
    (h : Partitioning arr₀ left right pivot i j arr) {i' j' : ℕ} {x y : α} (hi : i < i')
    (hij : i' < j') (hj : j' < j) (hx : arr[i']? = some x) (hy : arr[j']? = some y)
    (hpivotx : pivot ≤ x) (hypivot : y ≤ pivot)
    (hup : ∀ (t : ℕ) (z : α), i < t → t < i' → arr[t]? = some z → z ≤ pivot)
    (hdown : ∀ (t : ℕ) (z : α), j' < t → t < j → arr[t]? = some z → pivot ≤ z)
    (hswap : Swapped arr arr' i' j') : Partitioning arr₀ left right pivot i' j' arr' := by
  obtain ⟨hlower, hlt, hupper⟩ := h.bounds
  have hfirst : arr'[i']? = some y := hswap.first.trans hy
  have hsecond : arr'[j']? = some x := hswap.second.trans hx
  constructor
  · exact hswap.perm.trans h.perm
  · intro m hm
    rw [hswap.others m (by omega) (by omega)]
    exact h.outside m hm
  · intro m z hleft hright hz
    by_cases hmi : m = i'
    · rw [hmi, hswap.first] at hz
      exact h.inside j' z (by omega) (by omega) hz
    · by_cases hmj : m = j'
      · rw [hmj, hswap.second] at hz
        exact h.inside i' z (by omega) (by omega) hz
      · rw [hswap.others m hmi hmj] at hz
        exact h.inside m z hleft hright hz
  · intro m z hleft hm hz
    rcases Nat.lt_or_eq_of_le (show m ≤ i' by omega) with hmi | rfl
    · rw [hswap.others m (by omega) (by omega)] at hz
      by_cases hold : (m : ℤ) ≤ i
      · exact h.lower m z hleft hold hz
      · exact hup m z (by omega) hmi hz
    · rw [hfirst] at hz
      rwa [← Option.some.inj hz]
  · intro m z hm hright hz
    rcases Nat.lt_or_eq_of_le (show j' ≤ m by omega) with hmj | rfl
    · rw [hswap.others m (by omega) (by omega)] at hz
      by_cases hold : j ≤ m
      · exact h.upper m z hold hright hz
      · exact hdown m z hmj (by omega) hz
    · rw [hsecond] at hz
      rwa [← Option.some.inj hz]
  · omega
  · exact ⟨j', x, by omega, by omega, hsecond, hpivotx, Or.inl (by omega)⟩
  · exact ⟨i', y, by omega, by omega, hfirst, hypivot⟩

/-- A turn whose scans have met leaves the range split at the lower of them. -/
theorem Partitioning.stop {i j : ℤ} {arr : List α}
    (h : Partitioning arr₀ left right pivot i j arr) {i' j' : ℕ} {y : α}
    (hmet : j' ≤ i') (hy : arr[j']? = some y) (hypivot : y ≤ pivot)
    (hup : ∀ (t : ℕ) (z : α), i < t → t < i' → arr[t]? = some z → z ≤ pivot)
    (hdown : ∀ (t : ℕ) (z : α), j' < t → t < j → arr[t]? = some z → pivot ≤ z)
    (hproper : left ≤ j' ∧ (j' : ℤ) < right) : PartitionedAt arr₀ left right j' arr := by
  refine ⟨h.perm, h.outside, h.inside, hproper, pivot, ?_, ?_⟩
  · intro m z hleft hm hz
    by_cases hold : (m : ℤ) ≤ i
    · exact h.lower m z hleft hold hz
    · rcases Nat.lt_or_eq_of_le (show m ≤ i' by omega) with hmi | rfl
      · exact hup m z (by omega) hmi hz
      · -- the scans met on one element, which stopped both
        have heq : j' = m := by omega
        rw [← heq, hy] at hz
        rwa [← Option.some.inj hz]
  · intro m z hm hright hz
    by_cases hold : j ≤ m
    · exact h.upper m z hold hright hz
    · exact hdown m z (by omega) (by omega) hz

/-- **The loop ends**, and never leaves the range. -/
theorem hoareLoop_spec (hleft : 0 ≤ left) (hright : right < arr₀.length) (fuel : ℕ) {i j : ℤ}
    {arr : List α} (h : Partitioning arr₀ left right pivot i j arr) (hfuel : j - i ≤ fuel) :
    ∃ p arr', hoareLoop left right pivot fuel i j arr = some (p, arr') ∧
      PartitionedAt arr₀ left right p arr' := by
  induction fuel generalizing i j arr with
  | zero =>
    have hbounds := h.bounds
    omega
  | succ fuel ih =>
    obtain ⟨hlower, hlt, hupper⟩ := h.bounds
    have hlength := h.perm.length_eq
    obtain ⟨up, u, hiup, hup, hu, hpivotu, hprogress⟩ := h.stopUp
    obtain ⟨down, d, hdown, hdownj, hd, hdpivot⟩ := h.stopDown
    obtain ⟨i', x, hscanUp, hi', hi'up, hx, hpivotx, hpassedUp⟩ :=
      scanUp_spec hup hu hpivotu (arr.length + 1) (show left ≤ i + 1 by omega) (by omega) hiup
        (by omega)
    obtain ⟨j', y, hscanDown, hj', hdownj', hy, hypivot, hpassedDown⟩ :=
      scanDown_spec hdown hd hdpivot (arr.length + 1) (show j - 1 ≤ right by omega) (by omega)
        hdownj (by omega)
    unfold hoareLoop
    simp only [hscanUp, hscanDown, Option.bind_eq_bind, Option.bind_some]
    by_cases hmet : (j' : ℤ) ≤ i'
    · rw [if_pos hmet]
      refine ⟨j', arr, rfl, h.stop (by omega) hy hypivot hpassedUp hpassedDown ?_⟩
      omega
    · rw [if_neg hmet]
      obtain ⟨arr', hswap, hswapped⟩ := swap_spec (show left ≤ i' by omega)
        (show i' < j' by omega) (show (j' : ℤ) ≤ right by omega)
        (show j' < arr.length by omega)
      rw [hswap, Option.bind_some]
      exact ih (h.swap hi' (by omega) hj' hx hy hpivotx hypivot hpassedUp hpassedDown hswapped)
        (by omega)

end Partition

/-- **The partition of a range of two elements or more** reads and writes in the range only, and
splits it into two parts that are not empty. -/
theorem hoarePartition_spec {arr : List α} {left right : ℤ} (hleft : 0 ≤ left)
    (hlt : left < right) (hright : right < arr.length) :
    ∃ p arr', hoarePartition arr left right = some (p, arr') ∧
      PartitionedAt arr left right p arr' := by
  obtain ⟨mid, hmid⟩ := Int.eq_ofNat_of_zero_le (show 0 ≤ left + (right - left) / 2 by omega)
  obtain ⟨pivot, hpivot⟩ := exists_getElem? (show mid < arr.length by omega)
  have hread : readWithin arr left right (left + (right - left) / 2) = some pivot := by
    rw [hmid]
    exact readWithin_eq_some (by omega) (by omega) hpivot
  have hinit : Partitioning arr left right pivot (left - 1) (right + 1) arr := by
    constructor
    · exact List.Perm.refl arr
    · exact fun m _ => rfl
    · exact fun m x hl hr hx => ⟨m, hl, hr, hx⟩
    · intro m x hl hm
      omega
    · intro m x hm hr
      omega
    · omega
    · exact ⟨mid, pivot, by omega, by omega, hpivot, le_rfl, Or.inr (by omega)⟩
    · exact ⟨mid, pivot, by omega, by omega, hpivot, le_rfl⟩
  obtain ⟨p, arr', hloop, hsplit⟩ := hoareLoop_spec hleft hright (arr.length + 1) hinit (by omega)
  refine ⟨p, arr', ?_, hsplit⟩
  rw [hoarePartition, hread]
  exact hloop

/-! ## The selection -/

/-- Nothing before place `c` is above anything from there on. -/
def SplitAt (arr : List α) (c : ℤ) : Prop :=
  ∀ (a b : ℕ) (x y : α), a < c → c ≤ b → arr[a]? = some x → arr[b]? = some y → x ≤ y

/-- Where an element was before the partition. -/
theorem PartitionedAt.source {arr arr' : List α} {left right p : ℤ}
    (h : PartitionedAt arr left right p arr') {m : ℕ} {x : α} (hx : arr'[m]? = some x) :
    ∃ m' : ℕ, arr[m']? = some x ∧
      (m' = m ∨ left ≤ m ∧ m ≤ right ∧ left ≤ m' ∧ (m' : ℤ) ≤ right) := by
  by_cases hm : (m : ℤ) < left ∨ right < m
  · rw [h.outside m hm] at hx
    exact ⟨m, hx, Or.inl rfl⟩
  · obtain ⟨m', hleft, hright, hx'⟩ := h.inside m x (by omega) (by omega) hx
    exact ⟨m', hx', Or.inr ⟨by omega, by omega, hleft, hright⟩⟩

/-- The bounds of the range stay places where the array is split. -/
theorem PartitionedAt.splitAt_bound {arr arr' : List α} {left right p c : ℤ}
    (h : PartitionedAt arr left right p arr') (hc : c ≤ left ∨ right < c)
    (hsplit : SplitAt arr c) : SplitAt arr' c := by
  intro a b x y ha hb hx hy
  obtain ⟨a', hx', hsource⟩ := h.source hx
  obtain ⟨b', hy', hsource'⟩ := h.source hy
  exact hsplit a' b' x y (by omega) (by omega) hx' hy'

/-- So is the place after the point of partition. -/
theorem PartitionedAt.splitAt_point {arr arr' : List α} {left right p : ℤ}
    (h : PartitionedAt arr left right p arr') (hleft : SplitAt arr left)
    (hright : SplitAt arr (right + 1)) : SplitAt arr' (p + 1) := by
  obtain ⟨hproper, hproper'⟩ := h.proper
  obtain ⟨pivot, hlower, hupper⟩ := h.split
  intro a b x y ha hb hx hy
  by_cases hal : (a : ℤ) < left
  · exact h.splitAt_bound (Or.inl le_rfl) hleft a b x y hal (by omega) hx hy
  · by_cases hbr : right < b
    · exact h.splitAt_bound (Or.inr (by omega)) hright a b x y (by omega) (by omega) hx hy
    · calc x ≤ pivot := hlower a x (by omega) (by omega) hx
        _ ≤ y := hupper b y (by omega) (by omega) hy

/-- What is known of a range in which the element of rank `k` is looked for. -/
structure Selecting (arr₀ : List α) (k : ℤ) (s : SelectRange α) : Prop where
  perm : s.arr.Perm arr₀
  bounds : 0 ≤ s.left ∧ s.left ≤ k ∧ k ≤ s.right ∧ s.right < arr₀.length
  before : SplitAt s.arr s.left
  after : SplitAt s.arr (s.right + 1)

section Select

variable {arr₀ : List α} {k : ℤ}

/-- A turn succeeds, keeps the rank in the range and makes the range smaller. -/
theorem Selecting.step {s : SelectRange α} (h : Selecting arr₀ k s) (hne : s.left ≠ s.right) :
    ∃ s', quickselectStep k s = some s' ∧ Selecting arr₀ k s' ∧ s.left ≤ s'.left ∧
      s'.right ≤ s.right ∧ s'.right - s'.left < s.right - s.left := by
  obtain ⟨hleft, hlk, hkr, hright⟩ := h.bounds
  have hlength := h.perm.length_eq
  obtain ⟨p, arr', hpartition, hsplit⟩ :=
    hoarePartition_spec hleft (show s.left < s.right by omega)
      (show s.right < s.arr.length by omega)
  obtain ⟨hproper, hproper'⟩ := hsplit.proper
  have hpoint := hsplit.splitAt_point h.before h.after
  unfold quickselectStep
  rw [hpartition, Option.map_some]
  by_cases hkp : k ≤ p
  · refine ⟨_, by rw [if_pos hkp], ⟨hsplit.perm.trans h.perm, ?_, ?_, hpoint⟩, ?_⟩
    · exact ⟨hleft, hlk, hkp, by show p < _; omega⟩
    · exact hsplit.splitAt_bound (Or.inl le_rfl) h.before
    · show s.left ≤ s.left ∧ p ≤ s.right ∧ p - s.left < s.right - s.left
      omega
  · refine ⟨_, by rw [if_neg hkp], ⟨hsplit.perm.trans h.perm, ?_, hpoint, ?_⟩, ?_⟩
    · exact ⟨by show 0 ≤ p + 1; omega, by show p + 1 ≤ k; omega, hkr, hright⟩
    · exact hsplit.splitAt_bound (Or.inr (show s.right < s.right + 1 by omega)) h.after
    · show s.left ≤ p + 1 ∧ s.right ≤ s.right ∧ s.right - (p + 1) < s.right - s.left
      omega

/-- **The selection ends at the element of rank `k`.** -/
theorem Selecting.quickselect_spec (fuel : ℕ) {s : SelectRange α} (h : Selecting arr₀ k s)
    (hfuel : s.right - s.left < fuel) :
    ∃ v arr', quickselect k fuel s = some (v, arr') ∧ arr'.Perm arr₀ ∧
      IsRank arr₀ k.toNat v := by
  induction fuel generalizing s with
  | zero =>
    have hbounds := h.bounds
    omega
  | succ fuel ih =>
    unfold quickselect
    by_cases heq : s.left = s.right
    · obtain ⟨hleft, hlk, hkr, hright⟩ := h.bounds
      have hlength := h.perm.length_eq
      obtain ⟨n, hn⟩ := Int.eq_ofNat_of_zero_le hleft
      obtain ⟨v, hv⟩ := exists_getElem? (show n < s.arr.length by omega)
      have hread : readWithin s.arr s.left s.right s.left = some v := by
        rw [hn]
        exact readWithin_eq_some (by omega) (by omega) hv
      rw [if_pos heq, hread, Option.map_some]
      refine ⟨v, s.arr, rfl, h.perm, ?_⟩
      -- one element is left, and it splits the array on both sides
      have hrank : IsRank s.arr n v := by
        apply isRank_of_split hv
        · exact fun i x hi hx => h.before i n x v (by omega) (by omega) hx hv
        · exact fun i x hi hx => h.after n i v x (by omega) (by omega) hv hx
      have hkn : k.toNat = n := by omega
      rw [hkn]
      exact hrank.perm h.perm
    · obtain ⟨s', hstep, hs', hl, hr, hshrink⟩ := h.step heq
      rw [if_neg heq, hstep, Option.bind_some]
      exact ih hs' (by omega)

end Select

/-! ## The percentile -/

/-- The rank of a percentile is an index of the array. -/
theorem percentileRankIndex_bounds (share : ℚ → ℕ → ℚ) {n : ℕ} (hn : 0 < n) (p : ℚ) :
    0 ≤ percentileRankIndex share n p ∧ percentileRankIndex share n p < n := by
  unfold percentileRankIndex
  omega

/-- One turn of `quickselect`. -/
def SelectTurn (k : ℤ) (s s' : SelectRange α) : Prop :=
  s.left ≠ s.right ∧ quickselectStep k s = some s'

/-- The turns of a selection keep what it has found out. -/
theorem Selecting.reaches {arr₀ : List α} {k : ℤ} {s s' : SelectRange α}
    (h : Selecting arr₀ k s) (hreach : Relation.ReflTransGen (SelectTurn k) s s') :
    Selecting arr₀ k s' := by
  induction hreach with
  | refl => exact h
  | tail _ hturn ih =>
    obtain ⟨hne, hstep⟩ := hturn
    obtain ⟨s'', hstep', hs'', -⟩ := ih.step hne
    rw [hstep] at hstep'
    rwa [Option.some.inj hstep']

/-- The whole array is a range to select from. -/
theorem selecting_whole {arr : List α} {k : ℤ} (hk : 0 ≤ k) (hlt : k < arr.length) :
    Selecting arr k ⟨arr, 0, arr.length - 1⟩ := by
  refine ⟨List.Perm.refl arr, ?_, ?_, ?_⟩
  · show (0 : ℤ) ≤ 0 ∧ 0 ≤ k ∧ k ≤ (arr.length : ℤ) - 1 ∧ (arr.length : ℤ) - 1 < arr.length
    omega
  · intro a b x y ha
    have hneg : (a : ℤ) < 0 := ha
    omega
  · intro a b x y _ hb _ hy
    obtain ⟨hlength, -⟩ := List.getElem?_eq_some_iff.mp hy
    have hbound : (arr.length : ℤ) - 1 + 1 ≤ b := hb
    have hinside : b < arr.length := hlength
    omega

/-- The element of the sorted array. -/
theorem isRank_mergeSort {arr : List α} {k : ℕ} (hk : k < arr.length) :
    ∃ v, (arr.mergeSort (· ≤ ·))[k]? = some v ∧ IsRank arr k v := by
  have hperm : (arr.mergeSort (· ≤ ·)).Perm arr := List.mergeSort_perm arr _
  obtain ⟨v, hv⟩ := exists_getElem? (show k < (arr.mergeSort (· ≤ ·)).length by
    rwa [hperm.length_eq])
  have hsorted : (arr.mergeSort (· ≤ ·)).Pairwise (· ≤ ·) := List.pairwise_mergeSort' _ _
  exact ⟨v, hv, (isRank_of_pairwise hsorted hv).perm hperm⟩

/-- **`percentile` of an array with elements** reads nothing outside the range it looks at, which
holds the rank and shrinks at every turn, keeps the elements, and gives the element of the sorted
array at the rank's index, as `percentilesQuick` does. -/
theorem percentile_eq_sorted [Zero α] (share : ℚ → ℕ → ℚ) {arr : List α} (hne : arr ≠ [])
    (p : ℚ) :
    (∀ s, Relation.ReflTransGen (SelectTurn (percentileRankIndex share arr.length p))
        ⟨arr, 0, arr.length - 1⟩ s →
      s.arr.Perm arr ∧ 0 ≤ s.left ∧ s.right < arr.length ∧
      s.left ≤ percentileRankIndex share arr.length p ∧
      percentileRankIndex share arr.length p ≤ s.right ∧
      (s.left ≠ s.right →
        ∃ s', quickselectStep (percentileRankIndex share arr.length p) s = some s' ∧
          s.left ≤ s'.left ∧ s'.right ≤ s.right ∧ s'.right - s'.left < s.right - s.left)) ∧
    ∃ v arr', percentile share arr p = some (v, arr') ∧ arr'.Perm arr ∧
      (arr.mergeSort (· ≤ ·))[(percentileRankIndex share arr.length p).toNat]? = some v ∧
      (∀ (ps : List ℚ) (i : ℕ), ps[i]? = some p → (percentilesQuick share arr ps)[i]? = some v) ∧
      percentileQuick share arr p = some v := by
  have hlength : 0 < arr.length := List.length_pos_iff.mpr hne
  obtain ⟨hk, hlt⟩ := percentileRankIndex_bounds share hlength p
  have hwhole := selecting_whole hk hlt
  constructor
  · intro s hreach
    have hs := hwhole.reaches hreach
    obtain ⟨hleft, hlk, hkr, hright⟩ := hs.bounds
    refine ⟨hs.perm, hleft, hright, hlk, hkr, fun hne => ?_⟩
    obtain ⟨s', hstep, -, hshrink⟩ := hs.step hne
    exact ⟨s', hstep, hshrink⟩
  · obtain ⟨v, arr', hselect, hperm, hrank⟩ := hwhole.quickselect_spec arr.length (by
      show (arr.length : ℤ) - 1 - 0 < arr.length
      omega)
    obtain ⟨w, hw, hwrank⟩ := isRank_mergeSort
      (show (percentileRankIndex share arr.length p).toNat < arr.length by omega)
    obtain rfl := hrank.unique hwrank
    have hpercentile : percentile share arr p = some (v, arr') := by
      rw [percentile, if_neg hlength.ne', hselect]
    refine ⟨v, arr', hpercentile, hperm, hw, ?_, ?_⟩
    · intro ps i hi
      unfold percentilesQuick
      rw [if_neg hlength.ne']
      show (ps.map _)[i]? = some v
      rw [List.getElem?_map, hi, Option.map_some, hw, Option.getD_some]
    · rw [percentileQuick, if_neg hlength.ne', hpercentile, Option.map_some]

/-- The median of three samples, two of them equal. -/
theorem percentile_median_of_three :
    ∃ v arr', percentile (fun p n => p / 100 * n) ([5, 1, 5] : List ℤ) 50 = some (v, arr') ∧
      arr'.Perm [5, 1, 5] ∧
      percentileQuick (fun p n => p / 100 * n) ([5, 1, 5] : List ℤ) 50 = some v := by
  have hne : ([5, 1, 5] : List ℤ) ≠ [] := by decide
  obtain ⟨v, arr', hpercentile, hperm, -, -, hquick⟩ :=
    (percentile_eq_sorted (fun p n => p / 100 * n) hne 50).2
  exact ⟨v, arr', hpercentile, hperm, hquick⟩

end RatelimitFlex
