import RatelimitFlex.Analysis.SkipAccounting
import RatelimitFlex.Analysis.StoreCells

/-!
# Counts of window cells that nothing expires from

`Cell.count` is what a read reports.  Between `t` and the horizon `u` a cell is
`Steady t u` when nothing it counts at `t` expires by `u`; an increment in between makes it
`Pruned u`: all it holds counts until `u`.  On such a cell an increment adds its cost, and a
decrement takes its cost off, from either end, as long as that much is counted.
-/

set_option autoImplicit false

namespace RatelimitFlex

variable {κ : Type} [DecidableEq κ]

namespace Cell

/-- The hits a read of the cell reports. -/
def count (now : ℤ) (x : Cell) : ℤ :=
  (((x.clearWall now).snapshot now).map RateLimitResult.totalHits).getD 0

/-- A window whose counted hits at `t` all count until `u`, within one length of it. -/
def Steady (t u : ℤ) : Cell → Prop
  | .sliding o e => u < t + o.windowMs ∧ heldStamps o u e = heldStamps o t e
  | .fixed o e => u < t + o.windowMs ∧ ∀ s ∈ e, 0 ≤ s.count ∧ (t < s.resetTime → u < s.resetTime)
  | .bucket _ _ => False

/-- Such a window that holds nothing but what counts until `u`. -/
def Pruned (t u : ℤ) : Cell → Prop
  | .sliding o e => u < t + o.windowMs ∧
      ∀ s ∈ e, s.wallExpiresAt = none ∧ ∀ ts ∈ s.stamps, u - o.windowMs < ts
  | .fixed o e => u < t + o.windowMs ∧ ∀ s ∈ e, 0 ≤ s.count ∧ u < s.resetTime
  | .bucket _ _ => False

variable {t now u : ℤ} {x : Cell}

/-- A sliding window counts the hits it holds. -/
theorem count_sliding (o : WindowOptions) (e : Option SlidingKeyState) :
    (Cell.sliding o e).count now = (heldStamps o now e).length := by
  simp only [count, clearWall, snapshot, heldStamps]
  cases liveStamps o now (stampsOf (unexpired now e)) <;> rfl

/-- A fixed window counts its slice until it ends. -/
theorem count_fixed (o : WindowOptions) (e : Option FixedEntry) :
    (Cell.fixed o e).count now =
      match e with
      | none => 0
      | some s => if s.resetTime ≤ now then 0 else s.count := by
  cases e with
  | none => rfl
  | some s =>
    simp only [count, clearWall, snapshot, Option.bind_some]
    split <;> rfl

/-! ## What counts between `t` and `u` -/

/-- What counts all along counts in between. -/
theorem heldStamps_between {o : WindowOptions} {e : Option SlidingKeyState}
    (h : heldStamps o u e = heldStamps o t e) (ht : t ≤ now) (hu : now ≤ u) :
    heldStamps o now e = heldStamps o u e := by
  cases e with
  | none => rfl
  | some s =>
    have hshrink : ∀ {a b : ℤ}, a ≤ b →
        (heldStamps o b (some s)).Sublist (heldStamps o a (some s)) := by
      intro a b hab
      rw [heldStamps_later hab]
      split
      · exact List.nil_sublist _
      · exact List.filter_sublist
    apply List.Sublist.eq_of_length_le
    · rw [h]
      exact hshrink ht
    · exact (hshrink hu).length_le

/-- A pruned cell holds all its stamps. -/
theorem Pruned.heldStamps_eq {o : WindowOptions} {e : Option SlidingKeyState}
    (h : (Cell.sliding o e).Pruned t u) (hu : now ≤ u) : heldStamps o now e = stampsOf e := by
  cases e with
  | none => rfl
  | some s =>
    obtain ⟨hwall, hlive⟩ := h.2 s rfl
    have hnot : s.wallPassed now = false := by simp [SlidingKeyState.wallPassed, hwall]
    rw [heldStamps_some, hnot]
    apply List.filter_eq_self.mpr
    intro ts hts
    have := hlive ts hts
    simp only [decide_eq_true_eq]
    omega

/-- It stands still until `u`. -/
theorem Pruned.steady (h : x.Pruned t u) (ht : t ≤ u) : x.Steady t u := by
  cases x with
  | sliding o e => exact ⟨h.1, by rw [h.heldStamps_eq le_rfl, h.heldStamps_eq ht]⟩
  | fixed o e => exact ⟨h.1, fun s hs => ⟨(h.2 s hs).1, fun _ => (h.2 s hs).2⟩⟩
  | bucket o e => exact h.elim

/-- A steady window counts the same at any moment until `u`. -/
theorem Steady.count_eq (h : x.Steady t u) (ht : t ≤ now) (hu : now ≤ u) :
    x.count now = x.count u := by
  cases x with
  | sliding o e => rw [count_sliding, count_sliding, heldStamps_between h.2 ht hu]
  | fixed o e =>
    rw [count_fixed, count_fixed]
    cases e with
    | none => rfl
    | some s =>
      have hrun := (h.2 s rfl).2
      simp only
      by_cases hs : s.resetTime ≤ t
      · rw [if_pos (by omega), if_pos (by omega)]
      · have := hrun (by omega)
        rw [if_neg (by omega), if_neg (by omega)]
  | bucket o e => exact h.elim

/-- A cell that stands still counts no less than nothing. -/
theorem Steady.count_nonneg (h : x.Steady t u) : 0 ≤ x.count now := by
  cases x with
  | sliding o e =>
    rw [count_sliding]
    exact Int.natCast_nonneg _
  | fixed o e =>
    rw [count_fixed]
    cases e with
    | none => exact le_rfl
    | some s =>
      have := (h.2 s rfl).1
      simp only
      split <;> omega
  | bucket o e => exact h.elim

/-! ## The operations -/

/-- An increment prunes the window and adds its cost. -/
theorem Steady.increment (h : x.Steady t u) (ht : t ≤ now) (hu : now ≤ u)
    (options : RateLimitIncrementOptions) :
    ((x.clearWall now).increment now options).1.Pruned t u ∧
      ((x.clearWall now).increment now options).1.count u =
        x.count u + options.sanitizedCost := by
  cases x with
  | sliding o e =>
    have hheld := heldStamps_between h.2 ht hu
    have hpruned : ((Cell.sliding o e).clearWall now |>.increment now options).1.Pruned t u := by
      refine ⟨h.1, ?_⟩
      rintro _ ⟨⟩
      refine ⟨rfl, fun ts hts => ?_⟩
      rcases List.mem_append.mp hts with hts | hts
      · replace hts : ts ∈ heldStamps o now e := hts
        rw [hheld] at hts
        exact of_decide_eq_true (List.mem_filter.mp hts).2
      · have := h.1
        rw [List.eq_of_mem_replicate hts]
        omega
    refine ⟨hpruned, ?_⟩
    have hstamps := hpruned.heldStamps_eq (le_refl u)
    simp only [clearWall, Cell.increment] at hstamps ⊢
    rw [count_sliding, count_sliding, hstamps, stampsOf_some, List.length_append,
      List.length_replicate, ← hheld]
    push_cast
    rfl
  | fixed o e =>
    obtain ⟨hW, he⟩ := h
    cases e with
    | none =>
      refine ⟨⟨hW, ?_⟩, ?_⟩
      · rintro _ ⟨⟩
        exact ⟨Int.natCast_nonneg _, by simp only [fixedAfterIncrement]; omega⟩
      · simp only [clearWall, Cell.increment, fixedAfterIncrement, count_fixed]
        rw [if_neg (by omega), zero_add]
    | some s =>
      obtain ⟨hcount, hrun⟩ := he s rfl
      by_cases hs : s.resetTime ≤ now
      · refine ⟨⟨hW, ?_⟩, ?_⟩
        · rintro _ ⟨⟩
          simp only [fixedAfterIncrement, if_pos hs]
          exact ⟨Int.natCast_nonneg _, by omega⟩
        · simp only [clearWall, Cell.increment, fixedAfterIncrement, count_fixed, if_pos hs]
          rw [if_neg (by omega), if_pos (by omega), zero_add]
      · have hlate := hrun (by omega)
        refine ⟨⟨hW, ?_⟩, ?_⟩
        · rintro _ ⟨⟩
          simp only [fixedAfterIncrement, if_neg hs]
          exact ⟨by omega, hlate⟩
        · simp only [clearWall, Cell.increment, fixedAfterIncrement, count_fixed, if_neg hs]
          rw [if_neg (by omega), if_neg (by omega)]
  | bucket o e => exact h.elim

/-- What is left of the stamps when at most as many go as there are. -/
theorem Pruned.sliding_decrement {o : WindowOptions} {e : Option SlidingKeyState}
    (h : (Cell.sliding o e).Pruned t u) {f : List ℤ → List ℤ} (hf : ∀ l, (f l).Sublist l) :
    (Cell.sliding o (slidingAfterDecrement f e)).Pruned t u ∧
      (Cell.sliding o (slidingAfterDecrement f e)).count u = (f (stampsOf e)).length := by
  have hpruned : (Cell.sliding o (slidingAfterDecrement f e)).Pruned t u := by
    refine ⟨h.1, ?_⟩
    cases e with
    | none => exact h.2
    | some cur =>
      simp only [slidingAfterDecrement]
      split
      · exact h.2
      · split
        · simp
        · rintro _ ⟨⟩
          obtain ⟨hwall, hlive⟩ := h.2 cur rfl
          exact ⟨hwall, fun ts hts => hlive ts ((hf _).subset hts)⟩
  refine ⟨hpruned, ?_⟩
  rw [count_sliding, hpruned.heldStamps_eq le_rfl,
    stampsOf_slidingAfterDecrement (List.sublist_nil.mp (hf []))]

/-- A decrement takes its cost off what a pruned window counts, never more or less. -/
theorem Pruned.decrement (h : x.Pruned t u) {options : RateLimitDecrementOptions}
    (hle : (options.sanitizedCost : ℤ) ≤ x.count u) :
    (x.decrement options).Pruned t u ∧
      (x.decrement options).count u = x.count u - options.sanitizedCost := by
  have hcost := options.one_le_sanitizedCost
  cases x with
  | sliding o e =>
    rw [count_sliding, h.heldStamps_eq le_rfl] at hle ⊢
    simp only [Cell.decrement]
    split
    · obtain ⟨hpruned, hcount⟩ := h.sliding_decrement fun l =>
        List.take_sublist (l.length - options.sanitizedCost) l
      refine ⟨hpruned, ?_⟩
      rw [hcount, List.length_take]
      omega
    · obtain ⟨hpruned, hcount⟩ := h.sliding_decrement fun l =>
        List.drop_sublist options.sanitizedCost l
      refine ⟨hpruned, ?_⟩
      rw [hcount, List.length_drop]
      omega
  | fixed o e =>
    obtain ⟨hW, he⟩ := h
    cases e with
    | none =>
      rw [count_fixed] at hle
      simp only at hle
      omega
    | some s =>
      obtain ⟨hcount, hrun⟩ := he s rfl
      rw [count_fixed] at hle ⊢
      simp only [if_neg (show ¬ s.resetTime ≤ u by omega)] at hle ⊢
      simp only [Cell.decrement, fixedAfterDecrement, if_neg (show ¬ s.count ≤ 0 by omega)]
      split
      · refine ⟨⟨hW, by simp⟩, ?_⟩
        rw [count_fixed]
        simp only
        omega
      · refine ⟨⟨hW, ?_⟩, ?_⟩
        · rintro _ ⟨⟩
          exact ⟨by simp only; omega, hrun⟩
        · rw [count_fixed]
          simp only [if_neg (show ¬ s.resetTime ≤ u by omega)]
  | bucket o e => exact h.elim

end Cell

/-- A store counts a key as its cell does. -/
theorem storeCount_eq (now : ℤ) (k : κ) (s : MemoryStore κ) :
    storeCount now k s = (s.cell k).count now := by
  rw [storeCount, MemoryStore.get_snd, Cell.count]

end RatelimitFlex
