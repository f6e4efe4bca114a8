import Mathlib.Data.List.ReduceOption
import RatelimitFlex.Library.TimedRun

/-!
# Runs without a clock

The invariant rule (`final_of_invariant`), its form for a relation to an abstraction
(`final_of_abstraction`), the stuttering rule for final states (`final_of_filter`) and the rules
for a machine that publishes something now and then (`forall_emitted_of_invariant`,
`emitted_of_invariant`), for machines whose inputs carry no time.
-/

set_option autoImplicit false

namespace RatelimitFlex.Library

variable {σ ι ο : Type*} {step : ι → σ → σ × ο}

/-- What a step on an allowed input preserves, a run on allowed inputs preserves. -/
theorem final_of_invariant {P : ι → Prop} {I : σ → Prop}
    (hstep : ∀ i s, I s → P i → I (step i s).1) {is : List ι} {s : σ} (hs : I s)
    (his : ∀ i ∈ is, P i) : I (final step is s) := by
  induction is generalizing s with
  | nil => exact hs
  | cons i is ih =>
    exact ih (hstep i s hs (his i List.mem_cons_self)) fun j hj =>
      his j (List.mem_cons_of_mem i hj)

/-- A run stays related to what an abstraction makes of its inputs one by one. -/
theorem final_of_abstraction {τ : Type*} {abs : τ → ι → τ} {R : σ → τ → Prop}
    (hstep : ∀ i s t, R s t → R (step i s).1 (abs t i)) {is : List ι} {s : σ} {t : τ}
    (hs : R s t) : R (final step is s) (is.foldl abs t) := by
  induction is generalizing s t with
  | nil => exact hs
  | cons i is ih =>
    apply ih
    exact hstep i s t hs

/-- A run and the run that leaves some inputs out stay related, when a step of both on an input
that is kept and a step of the first on one that is not keep the relation. -/
theorem final_of_filter {keep : ι → Bool} {R : σ → σ → Prop}
    (hkept : ∀ i s s', R s s' → keep i = true → R (step i s).1 (step i s').1)
    (hleft : ∀ i s s', R s s' → keep i = false → R (step i s).1 s') {is : List ι} {s s' : σ}
    (hs : R s s') : R (final step is s) (final step (is.filter keep) s') := by
  induction is generalizing s s' with
  | nil => exact hs
  | cons i is ih =>
    cases hi : keep i with
    | true =>
      rw [List.filter_cons_of_pos hi]
      exact ih (hkept i s s' hs hi)
    | false =>
      rw [List.filter_cons_of_neg (by simp [hi])]
      exact ih (hleft i s s' hs hi)

/-- What the machine published in a run. -/
def emitted {α : Type*} (step : ι → σ → σ × Option α) (is : List ι) (s : σ) : List α :=
  (outputs step is s).reduceOption

/-- What an invariant says of whatever is published, holds of all that a run publishes. -/
theorem forall_emitted_of_invariant {α : Type*} {step : ι → σ → σ × Option α} {I : σ → Prop}
    {Q : α → Prop}
    (hstep : ∀ i s, I s → I (step i s).1 ∧ ∀ r, (step i s).2 = some r → Q r)
    {is : List ι} {s : σ} (hs : I s) : ∀ r ∈ emitted step is s, Q r := by
  intro r hr
  rw [emitted, List.reduceOption_mem_iff] at hr
  induction is generalizing s with
  | nil => exact absurd hr List.not_mem_nil
  | cons i is ih =>
    obtain ⟨hnext, hQ⟩ := hstep i s hs
    rw [outputs_cons, List.mem_cons] at hr
    rcases hr with hnow | hlater
    · exact hQ r hnow.symm
    · exact ih hnext hlater

/-- The invariant rule with a history: the invariant speaks of all that was published so far, and
`Q` of what is published next. -/
theorem emitted_of_invariant {α : Type*} {step : ι → σ → σ × Option α} {P : ι → Prop}
    {I : σ → List α → Prop} {Q : List α → α → Prop}
    (hsilent : ∀ i s past, I s past → P i → (step i s).2 = none → I (step i s).1 past)
    (hemit : ∀ i s past r, I s past → P i → (step i s).2 = some r →
      Q past r ∧ I (step i s).1 (past ++ [r]))
    {is : List ι} {s : σ} {past : List α} (hs : I s past) (his : ∀ i ∈ is, P i) :
    I (final step is s) (past ++ emitted step is s) ∧
      ∀ q r rest, emitted step is s = q ++ r :: rest → Q (past ++ q) r := by
  induction is generalizing s past with
  | nil =>
    refine ⟨?_, fun q r rest heq => ?_⟩
    · rw [emitted, outputs_nil, List.reduceOption_nil, List.append_nil]
      exact hs
    · exact absurd heq.symm (List.append_ne_nil_of_right_ne_nil q (List.cons_ne_nil r rest))
  | cons i is ih =>
    have hi := his i List.mem_cons_self
    have hlater := fun j hj => his j (List.mem_cons_of_mem i hj)
    cases hr : (step i s).2 with
    | none =>
      have hsame : emitted step (i :: is) s = emitted step is (step i s).1 := by
        rw [emitted, outputs_cons, hr, List.reduceOption_cons_of_none]
        rfl
      rw [hsame, final_cons]
      exact ih (hsilent i s past hs hi hr) hlater
    | some r =>
      have hmore : emitted step (i :: is) s = r :: emitted step is (step i s).1 := by
        rw [emitted, outputs_cons, hr, List.reduceOption_cons_of_some]
        rfl
      obtain ⟨hQ, hnext⟩ := hemit i s past r hs hi hr
      obtain ⟨hfinal, hall⟩ := ih hnext hlater
      rw [hmore, final_cons]
      refine ⟨by rwa [List.append_assoc] at hfinal, fun q r' rest heq => ?_⟩
      cases q with
      | nil =>
        obtain ⟨rfl, -⟩ := List.cons.inj heq
        rwa [List.append_nil]
      | cons r'' q =>
        obtain ⟨rfl, htail⟩ := List.cons.inj heq
        have hq := hall q r' rest htail
        rwa [List.append_assoc] at hq

end RatelimitFlex.Library
