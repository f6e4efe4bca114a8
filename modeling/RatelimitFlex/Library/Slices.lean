import RatelimitFlex.Library.HitLog

/-!
# Slices that begin with a hit

A fixed window need not be aligned: a slice of length `W` begins with the first hit after the
slice before it was over, and counts every hit that falls into it.  `sliceRun W cur l` gives
each hit with the slice it falls into, counted up to it; `cur` is the slice before.

`spent_le` bounds what one slice admits when a hit is admitted only while the count is within
the cap, `windowCost_admitted_le` what any interval of length `W` does: it meets two slices at
most.
-/

set_option autoImplicit false

namespace RatelimitFlex.Library

/-- A slice and what it has counted. -/
structure Slice where
  start : ℤ
  count : ℕ
  deriving DecidableEq

namespace Slice

/-- The hit falls into the slice, or begins the next one. -/
def charge (W : ℤ) (cur : Option Slice) (h : Hit) : Slice :=
  match cur with
  | none => ⟨h.time, h.cost⟩
  | some s => if s.start + W ≤ h.time then ⟨h.time, h.cost⟩ else ⟨s.start, s.count + h.cost⟩

/-- Every hit with its slice. -/
def sliceRun (W : ℤ) : Option Slice → List Hit → List (Hit × Slice)
  | _, [] => []
  | cur, h :: l => (h, charge W cur h) :: sliceRun W (some (charge W cur h)) l

/-- The slice has begun by `t`. -/
def Begun (t : ℤ) (cur : Option Slice) : Prop := ∀ s ∈ cur, s.start ≤ t

variable {W : ℤ} {cap : ℕ} {cur : Option Slice} {t : ℤ} {l : List Hit}

/-- A hit falls into its slice. -/
theorem charge_spec (hW : 1 ≤ W) (hcur : Begun t cur) (h : Hit) (ht : t ≤ h.time) :
    (charge W cur h).start ≤ h.time ∧ h.time < (charge W cur h).start + W := by
  cases cur with
  | none => exact ⟨le_rfl, by simp only [charge]; omega⟩
  | some s =>
    have hs := hcur s rfl
    simp only [charge]
    split
    · exact ⟨le_rfl, by simp only; omega⟩
    · exact ⟨by simp only; omega, by simp only; omega⟩

/-- A charge begins its slice in the past. -/
theorem begun_charge (hW : 1 ≤ W) (hcur : Begun t cur) (h : Hit) (ht : t ≤ h.time) :
    Begun h.time (some (charge W cur h)) := by
  rintro _ ⟨⟩
  exact (charge_spec hW hcur h ht).1

/-- A slice that is not the one before begins when that is over, with its hit. -/
theorem charge_of_ne {s : Slice} {h : Hit} (hne : (charge W (some s) h).start ≠ s.start) :
    s.start + W ≤ h.time ∧ (charge W (some s) h).start = h.time := by
  simp only [charge] at hne ⊢
  split
  · next hover => exact ⟨hover, rfl⟩
  · next hrun =>
    rw [if_neg hrun] at hne
    exact absurd rfl hne

section Ordered

variable (hW : 1 ≤ W)
include hW

/-- Every hit falls into its slice. -/
theorem mem_sliceRun (hcur : Begun t cur) (hord : OrderedFrom Hit.time t l)
    {p : Hit × Slice} (hp : p ∈ sliceRun W cur l) :
    p.2.start ≤ p.1.time ∧ p.1.time < p.2.start + W := by
  induction l generalizing cur t with
  | nil => exact absurd hp List.not_mem_nil
  | cons h l ih =>
    rcases List.mem_cons.mp hp with rfl | hp
    · exact charge_spec hW hcur h hord.1
    · exact ih (begun_charge hW hcur h hord.1) hord.2 hp

/-- Later slices are the one before, or begin when it is over. -/
theorem start_sliceRun {s : Slice} (hcur : Begun t (some s)) (hord : OrderedFrom Hit.time t l)
    {p : Hit × Slice} (hp : p ∈ sliceRun W (some s) l) :
    p.2.start = s.start ∨ s.start + W ≤ p.2.start := by
  induction l generalizing s t with
  | nil => exact absurd hp List.not_mem_nil
  | cons h l ih =>
    have hnext : (charge W (some s) h).start = s.start ∨
        s.start + W ≤ (charge W (some s) h).start := by
      refine or_iff_not_imp_left.mpr fun hne => ?_
      obtain ⟨hover, hstart⟩ := charge_of_ne hne
      omega
    rcases List.mem_cons.mp hp with rfl | hp
    · exact hnext
    · rcases ih (begun_charge hW hcur h hord.1) hord.2 hp with heq | hle
      · rw [heq]
        exact hnext
      · rcases hnext with h' | h' <;> omega

/-- **Slices are disjoint**: of two hits in order, the second falls into the slice of the
first, or into one that begins when that is over. -/
theorem pairwise_sliceRun (hcur : Begun t cur) (hord : OrderedFrom Hit.time t l) :
    (sliceRun W cur l).Pairwise fun p q =>
      q.2.start = p.2.start ∨ p.2.start + W ≤ q.2.start := by
  induction l generalizing cur t with
  | nil => exact List.Pairwise.nil
  | cons h l ih =>
    have hnext := begun_charge hW hcur h hord.1
    exact List.pairwise_cons.mpr ⟨fun q hq => start_sliceRun hW hnext hord.2 hq, ih hnext hord.2⟩

/-- **A slice begins with the first hit after the one before it.** -/
theorem isChain_sliceRun (hcur : Begun t cur) (hord : OrderedFrom Hit.time t l) :
    (sliceRun W cur l).IsChain fun p q =>
      if p.2.start + W ≤ q.1.time then q.2.start = q.1.time else q.2.start = p.2.start := by
  induction l generalizing cur t with
  | nil => exact List.IsChain.nil
  | cons h l ih =>
    have hnext := begun_charge hW hcur h hord.1
    cases l with
    | nil => exact List.IsChain.singleton _
    | cons h' l =>
      refine List.IsChain.cons_cons ?_ (ih hnext hord.2)
      generalize charge W cur h = s
      show if s.start + W ≤ h'.time then (charge W (some s) h').start = h'.time
        else (charge W (some s) h').start = s.start
      split
      · next hover => rw [charge, if_pos hover]
      · next hrun => rw [charge, if_neg hrun]

end Ordered

/-! ## What is admitted -/

/-- The hits admitted: those that leave the count of their slice within the cap. -/
def admissions (cap : ℕ) (l : List (Hit × Slice)) : List (Hit × Bool) :=
  l.map fun p => (p.1, decide (p.2.count ≤ cap))

/-- The cost admitted into the slice that began at `start`. -/
def spent (cap : ℕ) (start : ℤ) : List (Hit × Slice) → ℕ
  | [] => 0
  | p :: l => (if p.2.start = start ∧ p.2.count ≤ cap then p.1.cost else 0) + spent cap start l

/-- What the slice before has counted already, when it is the one that began at `start`. -/
def counted (start : ℤ) (cur : Option Slice) : ℕ :=
  match cur with
  | none => 0
  | some s => if s.start = start then s.count else 0

variable {start : ℤ}

/-- A slice that no hit began has spent nothing. -/
theorem spent_eq_zero {L : List (Hit × Slice)} (h : ∀ p ∈ L, p.2.start ≠ start) :
    spent cap start L = 0 := by
  induction L with
  | nil => rfl
  | cons p L ih =>
    rw [spent, if_neg fun hp => h p List.mem_cons_self hp.1,
      ih fun q hq => h q (List.mem_cons_of_mem p hq)]

/-- The count of a slice is what it had counted and the hit. -/
theorem counted_charge (hW : 1 ≤ W) {h : Hit} (hstart : (charge W cur h).start = start) :
    counted start cur + h.cost = (charge W cur h).count := by
  cases cur with
  | none => simp [counted, charge]
  | some s =>
    by_cases hover : s.start + W ≤ h.time
    · rw [charge, if_pos hover] at hstart ⊢
      rw [counted, if_neg (show s.start ≠ start by simp only at hstart; omega), zero_add]
    · rw [charge, if_neg hover] at hstart ⊢
      rw [counted, if_pos hstart]

/-- What a slice admits stays within the cap, together with what it had counted before. -/
theorem spent_sliceRun (hW : 1 ≤ W) (hcur : Begun t cur) (hord : OrderedFrom Hit.time t l) :
    spent cap start (sliceRun W cur l) = 0 ∨
      counted start cur + spent cap start (sliceRun W cur l) ≤ cap := by
  induction l generalizing cur t with
  | nil => exact Or.inl rfl
  | cons h l ih =>
    have hnext := begun_charge hW hcur h hord.1
    have hrest := ih hnext hord.2
    rw [sliceRun, spent]
    by_cases hstart : (charge W cur h).start = start
    · have hcount := counted_charge hW hstart
      have hcur' : counted start (some (charge W cur h)) = (charge W cur h).count :=
        if_pos hstart
      rw [hcur'] at hrest
      by_cases hcap : (charge W cur h).count ≤ cap
      · rw [if_pos ⟨hstart, hcap⟩]
        right
        show counted start cur + (h.cost + spent cap start _) ≤ cap
        rcases hrest with hzero | hle
        · omega
        · omega
      · rw [if_neg fun hp => hcap hp.2, zero_add]
        rcases hrest with hzero | hle
        · exact Or.inl hzero
        · omega
    · rw [if_neg fun hp => hstart hp.1, zero_add]
      cases cur with
      | none =>
        rcases hrest with hzero | hle
        · exact Or.inl hzero
        · right
          simp only [counted]
          omega
      | some s =>
        by_cases hs : s.start = start
        · -- the slice before is over, and none later begins with it
          refine Or.inl (spent_eq_zero fun p hp => ?_)
          obtain ⟨hover, hbegin⟩ := charge_of_ne (hs ▸ hstart)
          rcases start_sliceRun hW hnext hord.2 hp with heq | hle <;> omega
        · have hzero : counted start (some s) = 0 := if_neg hs
          rw [hzero, zero_add]
          rcases hrest with hrest | hle
          · exact Or.inl hrest
          · right
            omega

/-- **A slice admits no more than the cap.** -/
theorem spent_le (hW : 1 ≤ W) (hord : OrderedFrom Hit.time t l) :
    spent cap start (sliceRun W none l) ≤ cap := by
  have hnone : Begun t none := fun s hs => absurd hs (Option.not_mem_none s)
  have h : spent cap start (sliceRun W none l) = 0 ∨
      counted start none + spent cap start (sliceRun W none l) ≤ cap :=
    spent_sliceRun hW hnone hord
  simp only [counted] at h
  omega

/-- What is admitted in an interval is admitted into the slices that meet it. -/
theorem windowCost_admissions_le {lo hi : ℤ} {L : List (Hit × Slice)} (S : Finset ℤ)
    (h : ∀ p ∈ L, lo < p.1.time → p.1.time ≤ hi → p.2.start ∈ S) :
    Hit.windowCost lo hi (Hit.admitted (admissions cap L)) ≤ ∑ s ∈ S, spent cap s L := by
  induction L with
  | nil => simp [admissions]
  | cons p L ih =>
    have hrest := ih fun q hq => h q (List.mem_cons_of_mem p hq)
    simp only [spent, Finset.sum_add_distrib]
    by_cases hcap : p.2.count ≤ cap
    · have hcons : Hit.admitted (admissions cap (p :: L)) =
          [p.1] ++ Hit.admitted (admissions cap L) := by
        simp [admissions, Hit.admitted, hcap]
      rw [hcons, Hit.windowCost_append, Hit.windowCost_singleton]
      refine Nat.add_le_add ?_ hrest
      split
      · next hin =>
        have hmem := h p List.mem_cons_self hin.1 hin.2
        rw [← Finset.sum_filter_add_sum_filter_not S (fun s => p.2.start = s)]
        refine le_trans ?_ (Nat.le_add_right _ _)
        have hone : p.2.start ∈ S.filter fun s => p.2.start = s :=
          Finset.mem_filter.mpr ⟨hmem, rfl⟩
        refine le_trans ?_ (Finset.single_le_sum (fun _ _ => Nat.zero_le _) hone)
        rw [if_pos ⟨rfl, hcap⟩]
      · exact Nat.zero_le _
    · have hcons : Hit.admitted (admissions cap (p :: L)) =
          Hit.admitted (admissions cap L) := by
        simp [admissions, Hit.admitted, hcap]
      rw [hcons]
      exact hrest.trans (Nat.le_add_left _ _)

section Bounds

variable (hW : 1 ≤ W) (hord : OrderedFrom Hit.time t l)
include hW hord

/-- Two slices are the same, or one is over when the other begins. -/
theorem apart_sliceRun {p q : Hit × Slice} (hp : p ∈ sliceRun W none l)
    (hq : q ∈ sliceRun W none l) :
    p.2.start = q.2.start ∨ p.2.start + W ≤ q.2.start ∨ q.2.start + W ≤ p.2.start := by
  have hnone : Begun t none := fun s hs => absurd hs (Option.not_mem_none s)
  have hpair := pairwise_sliceRun hW hnone hord
  refine List.Pairwise.forall_of_forall_of_flip (R := fun p q : Hit × Slice =>
    p.2.start = q.2.start ∨ p.2.start + W ≤ q.2.start ∨ q.2.start + W ≤ p.2.start)
    (fun p _ => Or.inl rfl) (hpair.imp ?_) (hpair.imp ?_) hp hq
  · rintro a b (heq | hle)
    · exact Or.inl heq.symm
    · exact Or.inr (Or.inl hle)
  · rintro a b (heq | hle)
    · exact Or.inl heq
    · exact Or.inr (Or.inr hle)

/-- **What is admitted while a slice lasts is within the cap.** -/
theorem windowCost_slice_le (cap : ℕ) {p : Hit × Slice} (hp : p ∈ sliceRun W none l) :
    Hit.windowCost (p.2.start - 1) (p.2.start + W - 1)
      (Hit.admitted (admissions cap (sliceRun W none l))) ≤ cap := by
  have hnone : Begun t none := fun s hs => absurd hs (Option.not_mem_none s)
  refine (windowCost_admissions_le {p.2.start} fun q hq hlo hhi => ?_).trans ?_
  · have hin := mem_sliceRun hW hnone hord hq
    rw [Finset.mem_singleton]
    rcases apart_sliceRun hW hord hp hq with heq | hle | hle <;> omega
  · rw [Finset.sum_singleton]
    exact spent_le hW hord

omit hW hord in
/-- The slices of a kind, when there is at most one. -/
theorem exists_start {Q : ℤ → Prop}
    (huniq : ∀ p ∈ sliceRun W none l, ∀ q ∈ sliceRun W none l, Q p.2.start → Q q.2.start →
      p.2.start = q.2.start) :
    ∃ s, ∀ p ∈ sliceRun W none l, Q p.2.start → p.2.start = s := by
  by_cases hex : ∃ q ∈ sliceRun W none l, Q q.2.start
  · obtain ⟨q, hq, hQ⟩ := hex
    exact ⟨q.2.start, fun p hp hp' => huniq p hp q hq hp' hQ⟩
  · exact ⟨0, fun p hp hQ => absurd ⟨p, hp, hQ⟩ hex⟩

/-- **Any interval of length `W` admits at most twice the cap**: it meets the slice that is
running when it begins and the next one. -/
theorem windowCost_admitted_le (cap : ℕ) (a : ℤ) :
    Hit.windowCost a (a + W) (Hit.admitted (admissions cap (sliceRun W none l))) ≤ 2 * cap := by
  have hnone : Begun t none := fun s hs => absurd hs (Option.not_mem_none s)
  obtain ⟨s₁, h₁⟩ := exists_start (Q := fun s => s ≤ a ∧ a < s + W)
    fun p hp q hq hQ hQ' => by
      rcases apart_sliceRun hW hord hp hq with heq | hle | hle <;> omega
  obtain ⟨s₂, h₂⟩ := exists_start (Q := fun s => a < s ∧ s ≤ a + W)
    fun p hp q hq hQ hQ' => by
      rcases apart_sliceRun hW hord hp hq with heq | hle | hle <;> omega
  have hmeets : ∀ p ∈ sliceRun W none l, a < p.1.time → p.1.time ≤ a + W →
      p.2.start ∈ ({s₁, s₂} : Finset ℤ) := by
    intro p hp hlo hhi
    have hin := mem_sliceRun hW hnone hord hp
    rw [Finset.mem_insert, Finset.mem_singleton]
    rcases le_or_gt p.2.start a with hle | hlt
    · exact Or.inl (h₁ p hp ⟨hle, by omega⟩)
    · exact Or.inr (h₂ p hp ⟨hlt, by omega⟩)
  refine (windowCost_admissions_le _ hmeets).trans ?_
  calc ∑ s ∈ ({s₁, s₂} : Finset ℤ), spent cap s (sliceRun W none l)
      ≤ ({s₁, s₂} : Finset ℤ).card • cap := Finset.sum_le_card_nsmul _ _ _ fun _ _ =>
        spent_le hW hord
    _ ≤ 2 * cap := by
      rw [smul_eq_mul]
      exact Nat.mul_le_mul_right cap Finset.card_le_two

end Bounds

end Slice

end RatelimitFlex.Library
