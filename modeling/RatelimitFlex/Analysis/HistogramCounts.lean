import RatelimitFlex.Program.Histogram

/-!
# What a histogram counts

The binary search finds the first bound above a value, so a value that is a number goes to the
slot that its comparisons name.  For `NaN` every comparison is false: it goes to the overflow slot,
whose lower bound it does not reach (`histogram_slots_iff`).
-/

set_option autoImplicit false

namespace RatelimitFlex

open Library

namespace JsNumber

/-- Addition is associative, the infinities and NaN included. -/
theorem add_add_assoc (a b c : JsNumber) : (a.add b).add c = a.add (b.add c) := by
  cases a <;> cases b <;> cases c <;> simp [add, add_assoc]

/-- Zero adds nothing on the left. -/
theorem zero_add (a : JsNumber) : add 0 a = a := by
  show (JsNumber.finite ((0 : ℤ) : ℚ)).add a = a
  cases a <;> simp [add]

/-- Zero adds nothing on the right. -/
theorem add_zero (a : JsNumber) : a.add 0 = a := by
  show a.add (JsNumber.finite ((0 : ℤ) : ℚ)) = a
  cases a <;> simp [add]

end JsNumber

namespace Histogram

/-- `buckets[i - 1] <= v < buckets[i]`, with no lower bound for the first slot and no upper bound
for the last. -/
def InSlot (buckets : List JsNumber) (i : ℕ) (v : JsNumber) : Bool :=
  (i == 0 || (buckets[i - 1]?).any fun b => b.le v) && (buckets[i]?).all fun b => v.lt b

/-- The values one after another. -/
def observeAll (h : Histogram) (vs : List JsNumber) : Histogram := vs.foldl observe h

/-! ## Accepted bounds -/

/-- Pairs of neighbours in relation make a chain. -/
theorem isChain_of_zip_tail {α : Type} {R : α → α → Prop} {l : List α}
    (h : ∀ b ∈ l.zip l.tail, R b.1 b.2) : l.IsChain R := by
  induction l with
  | nil => exact List.IsChain.nil
  | cons a l ih =>
    cases l with
    | nil => exact List.IsChain.singleton a
    | cons b l =>
      have hab : R a b := h (a, b) List.mem_cons_self
      exact List.IsChain.cons_cons hab (ih fun c hc => h c (List.mem_cons_of_mem _ hc))

/-- Bounds that are accepted are finite numbers in ascending order. -/
theorem finite_of_accepted {buckets : List JsNumber}
    (h : assertHistogramBucketBounds buckets = .ok ()) :
    ∃ qs : List ℚ, buckets = qs.map JsNumber.finite ∧ qs ≠ [] ∧ qs.Pairwise (· < ·) := by
  unfold assertHistogramBucketBounds at h
  split at h
  · cases h
  · next hne =>
    split at h
    · cases h
    · next hpositive =>
      split at h
      · cases h
      · next hascending =>
        have hfinite : ∀ b ∈ buckets, ∃ q, JsNumber.finite q = b := by
          intro b hb
          have hcheck := List.findIdx?_eq_none_iff.mp hpositive b hb
          cases b with
          | finite q => exact ⟨q, rfl⟩
          | nan => cases hcheck
          | posInfinity => cases hcheck
          | negInfinity => cases hcheck
        have hrange : buckets ∈ Set.range (List.map JsNumber.finite) := by
          rw [Set.range_list_map]
          exact hfinite
        obtain ⟨qs, hqs⟩ := hrange
        have hchain : qs.IsChain (· < ·) := by
          apply isChain_of_zip_tail
          intro b hb
          have hpair : (JsNumber.finite b.1, JsNumber.finite b.2) ∈ buckets.zip buckets.tail := by
            rw [← hqs, ← List.map_tail, List.zip_map]
            exact List.mem_map_of_mem hb
          have hcheck := List.findIdx?_eq_none_iff.mp hascending _ hpair
          exact not_le.mp (of_decide_eq_false hcheck)
        refine ⟨qs, hqs.symm, ?_, List.isChain_iff_pairwise.mp hchain⟩
        rintro rfl
        exact hne (by rw [← hqs, List.map_nil, List.length_nil])

/-! ## The slot of a value -/

/-- What is below a bound is below every higher one. -/
theorem lt_finite_of_lt {v : JsNumber} {a b : ℚ} (hab : a ≤ b)
    (h : v.lt (.finite a) = true) : v.lt (.finite b) = true := by
  cases v with
  | finite q => exact decide_eq_true ((of_decide_eq_true h).trans_le hab)
  | negInfinity => rfl
  | nan => cases h
  | posInfinity => cases h

/-- A number is at least a bound exactly when it is not below it. -/
theorem le_finite_iff_not_lt {v : JsNumber} (hv : v ≠ .nan) (q : ℚ) :
    (JsNumber.finite q).le v = true ↔ v.lt (.finite q) = false := by
  cases v with
  | finite p => simp [JsNumber.le, JsNumber.lt]
  | negInfinity => simp [JsNumber.le, JsNumber.lt]
  | nan => exact absurd rfl hv
  | posInfinity => simp [JsNumber.le, JsNumber.lt]

variable {qs : List ℚ}

/-- The test against the bound of a slot. -/
theorem any_lt_map_finite (v : JsNumber) {i : ℕ} (hi : i < qs.length) :
    (((qs.map JsNumber.finite)[i]?).any fun b => v.lt b) = v.lt (.finite qs[i]) := by
  rw [List.getElem?_map, List.getElem?_eq_getElem hi, Option.map_some, Option.any_some]

/-- **The binary search ends** at the first bound that is above the value. -/
theorem isPartitionPoint_bucketIndex (hqs : qs.Pairwise (· < ·)) (v : JsNumber) :
    IsPartitionPoint (fun i => ((qs.map JsNumber.finite)[i]?).any fun b => v.lt b) qs.length
      (bucketIndex v (qs.map JsNumber.finite)) := by
  unfold bucketIndex
  rw [List.length_map]
  apply isPartitionPoint_partitionPoint
  · intro i j hij hj hi
    rw [any_lt_map_finite v (by omega)] at hi
    rw [any_lt_map_finite v hj]
    rcases Nat.lt_or_eq_of_le hij with hlt | rfl
    · exact lt_finite_of_lt (List.pairwise_iff_getElem.mp hqs i j _ hj hlt).le hi
    · exact hi
  · exact Nat.zero_le _
  · exact le_rfl
  · exact fun j hj => absurd hj (Nat.not_lt_zero j)
  · exact fun j hj hn => absurd hj (not_le.mpr hn)

/-- A value is in a slot when it is at least the bound before it and below its own. -/
theorem inSlot_map_finite_iff {v : JsNumber} (hv : v ≠ .nan) {i : ℕ} (hi : i ≤ qs.length) :
    InSlot (qs.map JsNumber.finite) i v = true ↔
      (∀ j, i = j + 1 → ((qs.map JsNumber.finite)[j]?).any (fun b => v.lt b) = false) ∧
      (i < qs.length → ((qs.map JsNumber.finite)[i]?).any (fun b => v.lt b) = true) := by
  unfold InSlot
  rw [Bool.and_eq_true]
  apply and_congr
  · cases i with
    | zero => exact iff_of_true rfl fun j hj => absurd hj (by omega)
    | succ j =>
      have hj : j < qs.length := by omega
      have hbound : (qs.map JsNumber.finite)[j]? = some (.finite qs[j]) := by
        rw [List.getElem?_map, List.getElem?_eq_getElem hj, Option.map_some]
      have hstep : (j + 1 == 0) = false := rfl
      rw [hstep, Bool.false_or, Nat.add_sub_cancel, hbound, Option.any_some,
        le_finite_iff_not_lt hv]
      constructor
      · intro h j' hj'
        obtain rfl : j = j' := by omega
        rw [any_lt_map_finite v hj, h]
      · intro h
        rw [← any_lt_map_finite v hj, h j rfl]
  · by_cases hlt : i < qs.length
    · rw [any_lt_map_finite v hlt, List.getElem?_map, List.getElem?_eq_getElem hlt,
        Option.map_some, Option.all_some]
      exact ⟨fun h _ => h, fun h => h hlt⟩
    · have hnone : (qs.map JsNumber.finite)[i]? = none := by
        rw [List.getElem?_eq_none_iff, List.length_map]
        omega
      rw [hnone]
      exact iff_of_true rfl fun h => absurd h hlt

/-- **A value that is not `NaN` goes to the slot that holds it.** -/
theorem bucketIndex_eq_iff (hqs : qs.Pairwise (· < ·)) {v : JsNumber} (hv : v ≠ .nan) {i : ℕ}
    (hi : i ≤ qs.length) :
    bucketIndex v (qs.map JsNumber.finite) = i ↔ InSlot (qs.map JsNumber.finite) i v = true := by
  have hpoint := isPartitionPoint_bucketIndex hqs v
  rw [inSlot_map_finite_iff hv hi]
  constructor
  · rintro rfl
    exact ⟨fun j hj => hpoint.before j (by omega), fun hlt => hpoint.after _ le_rfl hlt⟩
  · rintro ⟨hbefore, hafter⟩
    exact hpoint.eq_of hi hbefore hafter

/-- `NaN` goes to the last slot. -/
theorem bucketIndex_nan (hqs : qs.Pairwise (· < ·)) :
    bucketIndex .nan (qs.map JsNumber.finite) = qs.length := by
  apply (isPartitionPoint_bucketIndex hqs .nan).eq_of le_rfl
  · intro j hj
    rw [any_lt_map_finite .nan (by omega)]
    rfl
  · exact fun h => absurd h (lt_irrefl _)

/-- NaN is not in the last slot. -/
theorem inSlot_nan (hne : qs ≠ []) :
    InSlot (qs.map JsNumber.finite) qs.length .nan = false := by
  have hpos : 0 < qs.length := List.length_pos_iff.mpr hne
  have hlast : (qs.map JsNumber.finite)[qs.length - 1]? =
      some (.finite (qs.get ⟨qs.length - 1, by omega⟩)) := by
    rw [List.getElem?_map, List.getElem?_eq_getElem (by omega), Option.map_some]
    rfl
  have hzero : (qs.length == 0) = false := beq_eq_false_iff_ne.mpr hpos.ne'
  unfold InSlot
  rw [hzero, hlast, Option.any_some]
  rfl

/-! ## Sequences of values -/

/-- Nothing is observed. -/
@[simp] theorem observeAll_nil (h : Histogram) : h.observeAll [] = h := rfl

/-- Values are observed one after the other. -/
theorem observeAll_cons (h : Histogram) (v : JsNumber) (vs : List JsNumber) :
    h.observeAll (v :: vs) = (h.observe v).observeAll vs := rfl

/-- The bounds stay. -/
@[simp] theorem observeAll_buckets (h : Histogram) (vs : List JsNumber) :
    (h.observeAll vs).buckets = h.buckets := by
  induction vs generalizing h with
  | nil => rfl
  | cons v vs ih => rw [observeAll_cons, ih]; rfl

/-- Each value is counted once in all. -/
@[simp] theorem observeAll_totalCount (h : Histogram) (vs : List JsNumber) :
    (h.observeAll vs).totalCount = h.totalCount + vs.length := by
  induction vs generalizing h with
  | nil => rfl
  | cons v vs ih =>
    rw [observeAll_cons, ih, List.length_cons]
    show h.totalCount + 1 + vs.length = _
    omega

/-- The sum is that of the values, added in their order. -/
@[simp] theorem observeAll_sum (h : Histogram) (vs : List JsNumber) :
    (h.observeAll vs).sum = vs.foldl JsNumber.add h.sum := by
  induction vs generalizing h with
  | nil => rfl
  | cons v vs ih => rw [observeAll_cons, ih]; rfl

/-- A slot grows by the number of values that the search puts there. -/
theorem observeAll_counts (h : Histogram) (vs : List JsNumber) (i : ℕ) :
    (h.observeAll vs).counts[i]? =
      (h.counts[i]?).map (· + vs.countP fun v => bucketIndex v h.buckets == i) := by
  induction vs generalizing h with
  | nil => rw [observeAll_nil]; cases h.counts[i]? <;> rfl
  | cons v vs ih =>
    rw [observeAll_cons, ih]
    show ((h.counts.modify (bucketIndex v h.buckets) (· + 1))[i]?).map
      (· + vs.countP fun v => bucketIndex v h.buckets == i) = _
    rw [List.getElem?_modify, List.countP_cons]
    cases h.counts[i]? with
    | none => rfl
    | some n =>
      show some ((if bucketIndex v h.buckets = i then n + 1 else n) +
        vs.countP fun v => bucketIndex v h.buckets == i) = some (n + _)
      by_cases heq : bucketIndex v h.buckets = i
      · rw [if_pos heq, if_pos (beq_iff_eq.mpr heq), Nat.add_assoc, Nat.add_comm 1]
      · rw [if_neg heq, if_neg (fun hbeq => heq (beq_iff_eq.mp hbeq)), Nat.add_zero]

/-! ## Distributions -/

/-- The cumulative counts of the rows, beside what they start from. -/
theorem cumulative_distributionRows (buckets : List JsNumber) (counts : List ℕ) (i n : ℕ) :
    ((distributionRows buckets i n counts).map DistributionRow.cumulative).Pairwise (· ≤ ·) ∧
      (∀ c ∈ (distributionRows buckets i n counts).map DistributionRow.cumulative, n ≤ c) ∧
      (counts ≠ [] →
        ((distributionRows buckets i n counts).map DistributionRow.cumulative).getLast? =
          some (n + counts.sum)) := by
  induction counts generalizing i n with
  | nil => exact ⟨List.Pairwise.nil, fun c hc => absurd hc List.not_mem_nil, fun h => absurd rfl h⟩
  | cons c counts ih =>
    obtain ⟨hsorted, hlower, hlast⟩ := ih (i + 1) (n + c)
    rw [distributionRows, List.map_cons]
    refine ⟨List.Pairwise.cons hlower hsorted, ?_, fun _ => ?_⟩
    · intro m hm
      rcases List.mem_cons.mp hm with rfl | hm
      · exact Nat.le_add_right n c
      · exact (Nat.le_add_right n c).trans (hlower m hm)
    · cases counts with
      | nil => rfl
      | cons d counts =>
        have hlast' := hlast (List.cons_ne_nil d counts)
        rw [distributionRows, List.map_cons] at hlast' ⊢
        rw [List.getLast?_cons_cons, hlast', Nat.add_assoc, ← List.sum_cons]

/-- The rows carry the counts. -/
@[simp] theorem count_distributionRows (buckets : List JsNumber) (counts : List ℕ) (i n : ℕ) :
    (distributionRows buckets i n counts).map DistributionRow.count = counts := by
  induction counts generalizing i n with
  | nil => rfl
  | cons c counts ih => rw [distributionRows, List.map_cons, ih]

/-! ## A new histogram -/

/-- A new histogram is empty and has the bounds it was made with. -/
theorem emptied_of_ofBuckets {buckets : List JsNumber} {h : Histogram}
    (hnew : ofBuckets buckets = .ok h) : h = h.emptied ∧ h.buckets = buckets := by
  unfold ofBuckets at hnew
  split at hnew
  · cases hnew
  · obtain rfl := Except.ok.inj hnew
    exact ⟨rfl, rfl⟩

/-- Each slot counts the values whose index it is. -/
theorem counts_emptied_observeAll (h : Histogram) (vs : List JsNumber) :
    (h.emptied.observeAll vs).counts =
      (List.range (h.buckets.length + 1)).map
        fun i => vs.countP fun v => bucketIndex v h.buckets == i := by
  apply List.ext_getElem?
  intro i
  rw [observeAll_counts, List.getElem?_map]
  show ((List.replicate (h.buckets.length + 1) 0)[i]?).map _ = _
  by_cases hi : i < h.buckets.length + 1
  · rw [List.getElem?_replicate_of_lt hi, List.getElem?_range hi, Option.map_some, Option.map_some,
      Nat.zero_add]
    rfl
  · rw [List.getElem?_eq_none (by rw [List.length_replicate]; omega),
      List.getElem?_eq_none (by rw [List.length_range]; omega)]
    rfl

/-- Every observation adds one to one slot. -/
theorem sum_modify_succ {counts : List ℕ} {i : ℕ} (hi : i < counts.length) :
    (counts.modify i (· + 1)).sum = counts.sum + 1 := by
  induction counts generalizing i with
  | nil => exact absurd hi (Nat.not_lt_zero i)
  | cons c counts ih =>
    cases i with
    | zero =>
      rw [List.modify_zero_cons, List.sum_cons, List.sum_cons]
      omega
    | succ i =>
      rw [List.modify_succ_cons, List.sum_cons, List.sum_cons,
        ih (Nat.lt_of_succ_lt_succ hi), Nat.add_assoc]

/-- Every value has a slot. -/
theorem bucketIndex_lt_length (h : Histogram) (v : JsNumber) :
    bucketIndex v h.buckets < h.counts.length := by
  obtain ⟨qs, hqs, -, hascending⟩ := finite_of_accepted h.bounds
  have hle := (isPartitionPoint_bucketIndex hascending v).le
  rw [h.slots, hqs, List.length_map]
  omega

/-- **The counts of the slots add up to the total.** -/
theorem sum_counts_observeAll {h : Histogram} (hsum : h.counts.sum = h.totalCount)
    (vs : List JsNumber) : (h.observeAll vs).counts.sum = (h.observeAll vs).totalCount := by
  induction vs generalizing h with
  | nil => exact hsum
  | cons v vs ih =>
    rw [observeAll_cons]
    apply ih
    show (h.counts.modify (bucketIndex v h.buckets) (· + 1)).sum = h.totalCount + 1
    rw [sum_modify_succ (bucketIndex_lt_length h v), hsum]

/-- **The slots hold what they are to hold exactly when no value is `NaN`.** -/
theorem slots_emptied_iff (h : Histogram) (vs : List JsNumber) :
    (h.emptied.observeAll vs).counts =
        (List.range (h.buckets.length + 1)).map (fun i => vs.countP (InSlot h.buckets i)) ↔
      JsNumber.nan ∉ vs := by
  obtain ⟨qs, hqs, hne, hascending⟩ := finite_of_accepted h.bounds
  rw [counts_emptied_observeAll]
  constructor
  · intro hslots hnan
    -- the last slot counts `NaN` besides every value that belongs there
    have hlast : (vs.countP fun v => bucketIndex v h.buckets == h.buckets.length) =
        vs.countP (InSlot h.buckets h.buckets.length) :=
      List.map_inj_left.mp hslots _ (List.mem_range.mpr (Nat.lt_succ_self _))
    obtain ⟨before, after, rfl⟩ := List.append_of_mem hnan
    have hmono : ∀ ws : List JsNumber, ws.countP (InSlot h.buckets h.buckets.length) ≤
        ws.countP fun v => bucketIndex v h.buckets == h.buckets.length := by
      intro ws
      refine List.countP_mono_left fun v _ hv => ?_
      rw [hqs, List.length_map] at hv ⊢
      have hnumber : v ≠ .nan := by
        rintro rfl
        rw [inSlot_nan hne] at hv
        cases hv
      exact beq_iff_eq.mpr ((bucketIndex_eq_iff hascending hnumber le_rfl).mpr hv)
    have hindex : (bucketIndex .nan h.buckets == h.buckets.length) = true := by
      rw [hqs, List.length_map]
      exact beq_iff_eq.mpr (bucketIndex_nan hascending)
    have hslot : InSlot h.buckets h.buckets.length .nan = false := by
      rw [hqs, List.length_map]
      exact inSlot_nan hne
    rw [List.countP_append, List.countP_append, List.countP_cons, List.countP_cons, if_pos hindex,
      if_neg (by rw [hslot]; exact Bool.false_ne_true)] at hlast
    have hbefore := hmono before
    have hafter := hmono after
    omega
  · intro hnan
    refine List.map_congr_left fun i hi => ?_
    refine List.countP_congr fun v hv => ?_
    have hnumber : v ≠ .nan := fun heq => hnan (heq ▸ hv)
    have hle : i ≤ qs.length := by
      rw [List.mem_range, hqs, List.length_map] at hi
      omega
    rw [beq_iff_eq, hqs]
    exact bucketIndex_eq_iff hascending hnumber hle

/-! ## Merging -/

/-- A sum may be started from any number. -/
theorem foldl_add_eq (x : JsNumber) (vs : List JsNumber) :
    vs.foldl JsNumber.add x = x.add (vs.foldl JsNumber.add 0) := by
  induction vs generalizing x with
  | nil => exact (JsNumber.add_zero x).symm
  | cons v vs ih =>
    rw [List.foldl_cons, List.foldl_cons, ih, ih (JsNumber.add 0 v), JsNumber.zero_add,
      JsNumber.add_add_assoc]

/-- A list agrees with itself at every place. -/
theorem not_any_zip_self (l : List JsNumber) : ¬ ((l.zip l).any fun b => b.1 ≠ b.2) = true := by
  intro hany
  obtain ⟨b, hb, hne⟩ := List.any_eq_true.mp hany
  rw [List.zip, List.zipWith_self] at hb
  obtain ⟨a, -, rfl⟩ := List.mem_map.mp hb
  exact of_decide_eq_true hne rfl

/-- **The merged histogram** is that of the values one after another. -/
theorem merge_observeAll (h : Histogram) (vs ws : List JsNumber) :
    (h.emptied.observeAll vs).merge (h.emptied.observeAll ws) =
      .ok (h.emptied.observeAll (vs ++ ws)) := by
  have hbuckets : ∀ us, (h.emptied.observeAll us).buckets = h.buckets := observeAll_buckets _
  have hlengths : ¬ (h.emptied.observeAll vs).buckets.length ≠
      (h.emptied.observeAll ws).buckets.length := by
    rw [hbuckets, hbuckets]
    exact not_not.mpr rfl
  have hboundaries : ¬ (((h.emptied.observeAll vs).buckets.zip
      (h.emptied.observeAll ws).buckets).any fun b => b.1 ≠ b.2) = true := by
    rw [hbuckets, hbuckets]
    exact not_any_zip_self h.buckets
  unfold merge
  rw [dif_neg hlengths, if_neg hboundaries]
  apply congrArg Except.ok
  apply Histogram.ext
  · show (h.emptied.observeAll vs).buckets = _
    rw [hbuckets, hbuckets]
  · show List.zipWith (· + ·) (h.emptied.observeAll vs).counts (h.emptied.observeAll ws).counts = _
    rw [counts_emptied_observeAll, counts_emptied_observeAll, counts_emptied_observeAll,
      List.zipWith_map_left, List.zipWith_map_right, List.zipWith_self]
    exact List.map_congr_left fun i _ => List.countP_append.symm
  · show (h.emptied.observeAll vs).totalCount + (h.emptied.observeAll ws).totalCount = _
    rw [observeAll_totalCount, observeAll_totalCount, observeAll_totalCount, List.length_append]
    show 0 + vs.length + (0 + ws.length) = 0 + (vs.length + ws.length)
    omega
  · show (h.emptied.observeAll vs).sum.add (h.emptied.observeAll ws).sum = _
    rw [observeAll_sum, observeAll_sum, observeAll_sum, List.foldl_append]
    exact (foldl_add_eq _ ws).symm

/-! ## All together -/

/-- **A histogram of accepted bounds.**  Its slots hold what they are to hold exactly when no value
is `NaN`; whatever the values are, the counts sum to their number, the cumulative counts ascend to
it, and merging is observing one after another. -/
theorem histogram_slots_iff {buckets : List JsNumber} {h : Histogram}
    (hnew : ofBuckets buckets = .ok h) :
    (∀ vs, (h.observeAll vs).counts =
        (List.range (buckets.length + 1)).map (fun i => vs.countP (InSlot buckets i)) ↔
      JsNumber.nan ∉ vs) ∧
    (∀ vs, (h.observeAll vs).counts.sum = vs.length ∧
      (h.observeAll vs).totalCount = vs.length ∧
      (h.observeAll vs).getDistribution.map DistributionRow.count = (h.observeAll vs).counts ∧
      ((h.observeAll vs).getDistribution.map DistributionRow.cumulative).Pairwise (· ≤ ·) ∧
      ((h.observeAll vs).getDistribution.map DistributionRow.cumulative).getLast? =
        some vs.length) ∧
    ∀ vs ws, (h.observeAll vs).merge (h.observeAll ws) = .ok (h.observeAll (vs ++ ws)) := by
  obtain ⟨hempty, hbuckets⟩ := emptied_of_ofBuckets hnew
  have htotal : ∀ vs, (h.observeAll vs).totalCount = vs.length := by
    intro vs
    rw [observeAll_totalCount, hempty]
    exact Nat.zero_add _
  have hsum : ∀ vs, (h.observeAll vs).counts.sum = vs.length := by
    intro vs
    rw [← htotal vs]
    apply sum_counts_observeAll
    rw [hempty]
    show (List.replicate (h.buckets.length + 1) 0).sum = 0
    rw [List.sum_replicate, smul_zero]
  refine ⟨fun vs => ?_, fun vs => ⟨hsum vs, htotal vs, ?_⟩, fun vs ws => ?_⟩
  · have hslots := slots_emptied_iff h vs
    rwa [← hempty, hbuckets] at hslots
  · obtain ⟨hsorted, -, hlast⟩ :=
      cumulative_distributionRows (h.observeAll vs).buckets (h.observeAll vs).counts 0 0
    have hne : (h.observeAll vs).counts ≠ [] := by
      rw [← List.length_pos_iff, (h.observeAll vs).slots]
      exact Nat.succ_pos _
    refine ⟨count_distributionRows _ _ _ _, hsorted, ?_⟩
    rw [getDistribution, hlast hne, hsum, Nat.zero_add]
  · rw [hempty]
    exact merge_observeAll h vs ws

/-! ## Two buckets -/

/-- One and five are bounds. -/
theorem accepted_one_five :
    assertHistogramBucketBounds [JsNumber.finite 1, JsNumber.finite 5] = .ok () := by
  rfl

/-- Upper bounds 1 and 5. -/
def oneFive : Histogram where
  buckets := [.finite 1, .finite 5]
  counts := [0, 0, 0]
  totalCount := 0
  sum := 0
  bounds := accepted_one_five
  slots := rfl

/-- They make a histogram. -/
theorem ofBuckets_one_five : ofBuckets [.finite 1, .finite 5] = .ok oneFive := rfl

/-- A value on a bound goes to the slot above it. -/
theorem oneFive_bound_counted :
    (oneFive.observeAll [1, 5, 0]).counts =
      (List.range 3).map fun i => [1, 5, 0].countP (InSlot [.finite 1, .finite 5] i) :=
  ((histogram_slots_iff ofBuckets_one_five).1 [1, 5, 0]).mpr (by decide)

/-- `NaN` is counted in the overflow slot, and is not at least 5. -/
theorem oneFive_nan_miscounted :
    (oneFive.observeAll [.nan]).counts ≠
      (List.range 3).map fun i => [JsNumber.nan].countP (InSlot [.finite 1, .finite 5] i) := by
  intro hcounts
  have hslots := (slots_emptied_iff oneFive [.nan]).mp hcounts
  exact hslots List.mem_cons_self

end Histogram

end RatelimitFlex
