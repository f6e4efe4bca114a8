import Mathlib.Tactic

/-!
# Runs of a machine whose inputs carry a clock

A machine is a step function `step : ι → σ → σ × ο`: one input, the next state, one
answer.  `run` folds it over a list of inputs, `final` and `outputs` are its two halves.
Inputs carry a clock reading; `OrderedFrom clock t is` says the readings never go back
and start at `t` or later, and `Guarded G step is s` says every input meets the guard `G`
in the state it is given to.

Eight rules carry the inductions over a run: `final_inv` (an invariant indexed by the time
it was last known to hold), `guarded_of_inv` (what it gives at every input),
`final_of_coupling` (a relation between two machines), `outputs_eq_of_simulation` (one that
forces equal answers), `indistinguishable_of_bisimulation` (a relation between two states of
one machine), `keptOutputs_eq_of_stuttering` (inputs that are left out),
`keptOutputs_eq_of_guarded_stuttering` (when the state says which) and
`keptOutputs_eq_of_translation` (inputs that another machine takes in other words).
-/

set_option autoImplicit false

namespace RatelimitFlex.Library

section Run

variable {σ σ' ι ο τ : Type*}

/-- The machine's run: the state reached and the answers given, in order. -/
def run (step : ι → σ → σ × ο) : List ι → σ → σ × List ο
  | [], s => (s, [])
  | i :: is, s =>
    let r := step i s
    let rest := run step is r.1
    (rest.1, r.2 :: rest.2)

/-- The state a run ends in. -/
def final (step : ι → σ → σ × ο) (is : List ι) (s : σ) : σ := (run step is s).1

/-- The answers of a run, one for each input. -/
def outputs (step : ι → σ → σ × ο) (is : List ι) (s : σ) : List ο := (run step is s).2

variable (step : ι → σ → σ × ο)

/-- A run without inputs ends where it starts. -/
@[simp] theorem final_nil (s : σ) : final step [] s = s := rfl

/-- A run ends where the rest of it ends after its first step. -/
@[simp] theorem final_cons (i : ι) (is : List ι) (s : σ) :
    final step (i :: is) s = final step is (step i s).1 := rfl

/-- It has no outputs. -/
@[simp] theorem outputs_nil (s : σ) : outputs step [] s = [] := rfl

/-- Its outputs are that of the first step and those of the rest. -/
@[simp] theorem outputs_cons (i : ι) (is : List ι) (s : σ) :
    outputs step (i :: is) s = (step i s).2 :: outputs step is (step i s).1 := rfl

/-- Two runs, one after the other. -/
theorem final_append (is js : List ι) (s : σ) :
    final step (is ++ js) s = final step js (final step is s) := by
  induction is generalizing s with
  | nil => rfl
  | cons i is ih => simp [ih]

/-- Their outputs. -/
theorem outputs_append (is js : List ι) (s : σ) :
    outputs step (is ++ js) s = outputs step is s ++ outputs step js (final step is s) := by
  induction is generalizing s with
  | nil => rfl
  | cons i is ih => simp [ih]

/-- Each input has an output. -/
@[simp] theorem length_outputs (is : List ι) (s : σ) :
    (outputs step is s).length = is.length := by
  induction is generalizing s with
  | nil => rfl
  | cons i is ih => simp [ih]

/-- A run on inputs that are read through `h`. -/
theorem outputs_map {ι' : Type*} (h : ι' → ι) (is : List ι') (s : σ) :
    outputs step (is.map h) s = outputs (fun i => step (h i)) is s := by
  induction is generalizing s with
  | nil => rfl
  | cons i is ih => rw [List.map_cons, outputs_cons, outputs_cons, ih]

/-- A machine seen through a view of its states and of its answers. -/
theorem run_view {ο' : Type*} {step' : ι → σ' → σ' × ο'} (g : σ → σ') (f : ο → ο')
    (h : ∀ i s, step' i (g s) = (g (step i s).1, f (step i s).2)) (is : List ι) (s : σ) :
    outputs step' is (g s) = (outputs step is s).map f ∧
      final step' is (g s) = g (final step is s) := by
  induction is generalizing s with
  | nil => exact ⟨rfl, rfl⟩
  | cons i is ih =>
    obtain ⟨hout, hfin⟩ := ih (step i s).1
    refine ⟨?_, ?_⟩
    · rw [outputs_cons, outputs_cons, h, List.map_cons, hout]
    · rw [final_cons, final_cons, h, hfin]

end Run

section Clock

variable {ι τ : Type*} [Preorder τ] (clock : ι → τ)

/-- The clock readings start at `t` or later and never go back. -/
def OrderedFrom : τ → List ι → Prop
  | _, [] => True
  | t, i :: is => t ≤ clock i ∧ OrderedFrom (clock i) is

/-- The reading of the last input, or `t` when there is none. -/
def lastClock : τ → List ι → τ
  | t, [] => t
  | _, i :: is => lastClock (clock i) is

variable {clock}

omit [Preorder τ] in
/-- Without inputs the clock stays. -/
@[simp] theorem lastClock_nil (t : τ) : lastClock clock t [] = t := rfl

omit [Preorder τ] in
/-- The clock of the first input is the start of the rest. -/
@[simp] theorem lastClock_cons (t : τ) (i : ι) (is : List ι) :
    lastClock clock t (i :: is) = lastClock clock (clock i) is := rfl

omit [Preorder τ] in
/-- The last clock of two stretches. -/
theorem lastClock_append (t : τ) (is js : List ι) :
    lastClock clock t (is ++ js) = lastClock clock (lastClock clock t is) js := by
  induction is generalizing t with
  | nil => rfl
  | cons i is ih => exact ih _

/-- No inputs are in order. -/
@[simp] theorem orderedFrom_nil (t : τ) : OrderedFrom clock t [] := trivial

/-- The first comes at the start or later, the rest no earlier than the first. -/
@[simp] theorem orderedFrom_cons {t : τ} {i : ι} {is : List ι} :
    OrderedFrom clock t (i :: is) ↔ t ≤ clock i ∧ OrderedFrom clock (clock i) is := Iff.rfl

instance decidableOrderedFrom [DecidableLE τ] :
    ∀ (t : τ) (is : List ι), Decidable (OrderedFrom clock t is)
  | _, [] => isTrue trivial
  | t, i :: is =>
    have := decidableOrderedFrom (clock i) is
    inferInstanceAs (Decidable (t ≤ clock i ∧ OrderedFrom clock (clock i) is))

/-- An order from a time is one from every earlier time. -/
theorem OrderedFrom.mono {t t' : τ} {is : List ι} (h : OrderedFrom clock t is) (ht : t' ≤ t) :
    OrderedFrom clock t' is := by
  cases is with
  | nil => trivial
  | cons i is => exact ⟨ht.trans h.1, h.2⟩

/-- Two stretches are in order when the second starts no earlier than the first ends. -/
theorem orderedFrom_append {t : τ} {is js : List ι} :
    OrderedFrom clock t (is ++ js) ↔
      OrderedFrom clock t is ∧ OrderedFrom clock (lastClock clock t is) js := by
  induction is generalizing t with
  | nil => simp [lastClock]
  | cons i is ih => simp [lastClock, ih, and_assoc]

/-- Inputs read through a function that keeps their times. -/
theorem orderedFrom_map {ι' : Type*} {clock' : ι' → τ} (h : ι' → ι)
    (hclock : ∀ i, clock (h i) = clock' i) {t : τ} {is : List ι'}
    (hord : OrderedFrom clock' t is) : OrderedFrom clock t (is.map h) := by
  induction is generalizing t with
  | nil => trivial
  | cons i is ih =>
    refine ⟨?_, ?_⟩
    · rw [hclock]
      exact hord.1
    · rw [hclock]
      exact ih hord.2

/-- The last clock is no earlier than the start. -/
theorem OrderedFrom.le_lastClock {t : τ} {is : List ι} (h : OrderedFrom clock t is) :
    t ≤ lastClock clock t is := by
  induction is generalizing t with
  | nil => exact le_rfl
  | cons i is ih => exact h.1.trans (ih h.2)

/-- No input comes later than the last clock. -/
theorem OrderedFrom.clock_le_lastClock {t : τ} {is : List ι} (h : OrderedFrom clock t is) :
    ∀ i ∈ is, clock i ≤ lastClock clock t is := by
  induction is generalizing t with
  | nil => exact fun i hi => absurd hi List.not_mem_nil
  | cons i is ih =>
    intro j hj
    rcases List.mem_cons.mp hj with rfl | hj
    · exact h.2.le_lastClock
    · exact ih h.2 j hj

/-- A bound on every clock bounds the last one. -/
theorem lastClock_le {t u : τ} {is : List ι} (ht : t ≤ u) (h : ∀ i ∈ is, clock i ≤ u) :
    lastClock clock t is ≤ u := by
  induction is generalizing t with
  | nil => exact ht
  | cons i is ih =>
    exact ih (h i List.mem_cons_self) fun j hj => h j (List.mem_cons_of_mem i hj)

end Clock

section Rules

variable {σ σ' ι ο τ : Type*}

/-- Every input meets the guard `G` in the state it is given to. -/
def Guarded (G : ι → σ → Prop) (step : ι → σ → σ × ο) : List ι → σ → Prop
  | [], _ => True
  | i :: is, s => G i s ∧ Guarded G step is (step i s).1

variable {G : ι → σ → Prop} {step : ι → σ → σ × ο}

/-- A run without inputs is guarded. -/
@[simp] theorem guarded_nil (s : σ) : Guarded G step [] s := trivial

/-- A run is guarded at its first step and over the rest. -/
@[simp] theorem guarded_cons {i : ι} {is : List ι} {s : σ} :
    Guarded G step (i :: is) s ↔ G i s ∧ Guarded G step is (step i s).1 := Iff.rfl

instance decidableGuarded [∀ i s, Decidable (G i s)] :
    ∀ (is : List ι) (s : σ), Decidable (Guarded G step is s)
  | [], _ => isTrue trivial
  | i :: is, s =>
    have := decidableGuarded is (step i s).1
    inferInstanceAs (Decidable (G i s ∧ Guarded G step is (step i s).1))

/-- So are two runs, one after the other. -/
theorem guarded_append {is js : List ι} {s : σ} :
    Guarded G step (is ++ js) s ↔ Guarded G step is s ∧ Guarded G step js (final step is s) := by
  induction is generalizing s with
  | nil => simp
  | cons i is ih => simp [ih, and_assoc]

/-- A run that is not guarded has a first input that misses the guard. -/
theorem exists_first_unguarded {is : List ι} {s : σ} (h : ¬ Guarded G step is s) :
    ∃ p i rest, is = p ++ i :: rest ∧ Guarded G step p s ∧ ¬ G i (final step p s) := by
  induction is generalizing s with
  | nil => exact absurd trivial h
  | cons i is ih =>
    by_cases hi : G i s
    · have htail : ¬ Guarded G step is (step i s).1 := fun hg => h ⟨hi, hg⟩
      obtain ⟨p, j, rest, rfl, hp, hj⟩ := ih htail
      exact ⟨i :: p, j, rest, rfl, ⟨hi, hp⟩, hj⟩
    · exact ⟨[], i, is, rfl, trivial, hi⟩

/-- Every run meets the guard that asks nothing. -/
theorem guarded_true (is : List ι) (s : σ) : Guarded (fun _ _ => True) step is s := by
  induction is generalizing s with
  | nil => trivial
  | cons i is ih => exact ⟨trivial, ih _⟩

/-- A weaker guard is met too. -/
theorem Guarded.mono {G' : ι → σ → Prop} (hG : ∀ i s, G i s → G' i s) {is : List ι} {s : σ}
    (h : Guarded G step is s) : Guarded G' step is s := by
  induction is generalizing s with
  | nil => trivial
  | cons i is ih => exact ⟨hG i s h.1, ih h.2⟩

/-- A property of the inputs alone joins the guard. -/
theorem Guarded.and_mem {P : ι → Prop} {is : List ι} {s : σ} (h : Guarded G step is s)
    (hP : ∀ i ∈ is, P i) : Guarded (fun i s => G i s ∧ P i) step is s := by
  induction is generalizing s with
  | nil => trivial
  | cons i is ih =>
    exact ⟨⟨h.1, hP i List.mem_cons_self⟩, ih h.2 fun j hj => hP j (List.mem_cons_of_mem i hj)⟩

/-- A property of all answers is a guard on the inputs. -/
theorem forall_outputs_iff {P : ο → Prop} {is : List ι} {s : σ} :
    (∀ r ∈ outputs step is s, P r) ↔ Guarded (fun i s => P (step i s).2) step is s := by
  induction is generalizing s with
  | nil => simp
  | cons i is ih => rw [outputs_cons, guarded_cons, List.forall_mem_cons, ih]

/-- A view `v` of the states folds the answers after every prefix of a run exactly when every
step does its part of the fold. -/
theorem forall_prefix_fold_iff {β : Type*} {v : σ → β} {f : β → ο → β} {is : List ι} {s : σ} :
    (∀ p, p <+: is → v (final step p s) = (outputs step p s).foldl f (v s)) ↔
      Guarded (fun i s => v (step i s).1 = f (v s) (step i s).2) step is s := by
  induction is generalizing s with
  | nil => simp
  | cons i is ih =>
    rw [guarded_cons, ← ih]
    constructor
    · intro h
      have hhead : v (step i s).1 = f (v s) (step i s).2 :=
        h [i] (List.prefix_append [i] is)
      refine ⟨hhead, fun p hp => ?_⟩
      rw [hhead]
      exact h (i :: p) ((List.prefix_cons_inj i).mpr hp)
    · rintro ⟨hhead, htail⟩ p hp
      rcases List.prefix_cons_iff.mp hp with rfl | ⟨q, rfl, hq⟩
      · rfl
      · rw [final_cons, outputs_cons, List.foldl_cons, ← hhead]
        exact htail q hq

variable [Preorder τ] {clock : ι → τ}

/-- The invariant rule: what one guarded step preserves, a guarded run preserves. -/
theorem final_inv {I : τ → σ → Prop}
    (hstep : ∀ t s i, I t s → t ≤ clock i → G i s → I (clock i) (step i s).1)
    {t : τ} {is : List ι} {s : σ} (hs : I t s) (hord : OrderedFrom clock t is)
    (hg : Guarded G step is s) :
    I (lastClock clock t is) (final step is s) := by
  induction is generalizing t s with
  | nil => exact hs
  | cons i is ih => exact ih (hstep t s i hs hord.1 hg.1) hord.2 hg.2

/-- What an invariant gives at every input, it gives at every input of the run. -/
theorem guarded_of_inv {G' : ι → σ → Prop} {I : τ → σ → Prop}
    (hstep : ∀ t s i, I t s → t ≤ clock i → G i s → G' i s ∧ I (clock i) (step i s).1)
    {t : τ} {is : List ι} {s : σ} (hs : I t s) (hord : OrderedFrom clock t is)
    (hg : Guarded G step is s) : Guarded G' step is s := by
  induction is generalizing t s with
  | nil => trivial
  | cons i is ih =>
    obtain ⟨hi, hI⟩ := hstep t s i hs hord.1 hg.1
    exact ⟨hi, ih hI hord.2 hg.2⟩

/-- Two guards that agree wherever the run can get are the same guard on the run. -/
theorem guarded_congr_of_inv {G' : ι → σ → Prop} {I : τ → σ → Prop}
    (hstep : ∀ t s i, I t s → t ≤ clock i → I (clock i) (step i s).1)
    (hG : ∀ t s i, I t s → t ≤ clock i → (G i s ↔ G' i s))
    {t : τ} {is : List ι} {s : σ} (hs : I t s) (hord : OrderedFrom clock t is) :
    Guarded G step is s ↔ Guarded G' step is s := by
  induction is generalizing t s with
  | nil => exact Iff.rfl
  | cons i is ih =>
    exact and_congr (hG t s i hs hord.1) (ih (hstep t s i hs hord.1) hord.2)

/-- The simulation rule: a relation that a guarded step preserves and that forces equal
answers, read through `f`, forces equal answers over the whole run. -/
theorem outputs_eq_of_simulation {ο' : Type*} (f : ο → ο') {step' : ι → σ' → σ' × ο'}
    {R : τ → σ → σ' → Prop}
    (hstep : ∀ t s s' i, R t s s' → t ≤ clock i → G i s →
      f (step i s).2 = (step' i s').2 ∧ R (clock i) (step i s).1 (step' i s').1)
    {t : τ} {is : List ι} {s : σ} {s' : σ'} (hs : R t s s') (hord : OrderedFrom clock t is)
    (hg : Guarded G step is s) :
    (outputs step is s).map f = outputs step' is s' ∧
      R (lastClock clock t is) (final step is s) (final step' is s') := by
  induction is generalizing t s s' with
  | nil => exact ⟨rfl, hs⟩
  | cons i is ih =>
    obtain ⟨hout, hR⟩ := hstep t s s' i hs hord.1 hg.1
    obtain ⟨htail, hend⟩ := ih hR hord.2 hg.2
    exact ⟨by simp [hout, htail], hend⟩

/-- The coupling rule: a relation between two machines that a guarded step of both
preserves still holds when both have run. -/
theorem final_of_coupling {ο' : Type*} {step' : ι → σ' → σ' × ο'} {R : τ → σ → σ' → Prop}
    (hstep : ∀ t s s' i, R t s s' → t ≤ clock i → G i s → R (clock i) (step i s).1 (step' i s').1)
    {t : τ} {is : List ι} {s : σ} {s' : σ'} (hs : R t s s') (hord : OrderedFrom clock t is)
    (hg : Guarded G step is s) :
    R (lastClock clock t is) (final step is s) (final step' is s') := by
  induction is generalizing t s s' with
  | nil => exact hs
  | cons i is ih => exact ih (hstep t s s' i hs hord.1 hg.1) hord.2 hg.2

/-- From `t` on no guarded run tells the two states apart. -/
def Indistinguishable (clock : ι → τ) (G : ι → σ → Prop) (step : ι → σ → σ × ο) (t : τ)
    (s s' : σ) : Prop :=
  ∀ is, OrderedFrom clock t is → Guarded G step is s → Guarded G step is s' →
    outputs step is s = outputs step is s'

/-- Related states are indistinguishable when a guarded step forces equal answers and
keeps the relation. -/
theorem indistinguishable_of_bisimulation {R : τ → σ → σ → Prop}
    (hstep : ∀ t s s' i, R t s s' → t ≤ clock i → G i s → G i s' →
      (step i s).2 = (step i s').2 ∧ R (clock i) (step i s).1 (step i s').1)
    {t : τ} {s s' : σ} (hs : R t s s') : Indistinguishable clock G step t s s' := by
  intro is hord hg hg'
  induction is generalizing t s s' with
  | nil => rfl
  | cons i is ih =>
    obtain ⟨hout, hR⟩ := hstep t s s' i hs hord.1 hg.1 hg'.1
    rw [outputs_cons, outputs_cons, hout, ih hR hord.2 hg.2 hg'.2]

/-- The answers of a run to the inputs that `keep` selects. -/
def keptOutputs (keep : ι → Bool) (step : ι → σ → σ × ο) : List ι → σ → List ο
  | [], _ => []
  | i :: is, s =>
    let r := step i s
    let rest := keptOutputs keep step is r.1
    if keep i then r.2 :: rest else rest

/-- The stuttering rule: the run that leaves the other inputs out answers the kept ones
alike, when a relation survives a kept input in both runs and one left out in the second. -/
theorem keptOutputs_eq_of_stuttering {keep : ι → Bool} {R : τ → σ → σ → Prop}
    (hkept : ∀ t s s' i, R t s s' → t ≤ clock i → keep i = true → G i s →
      (step i s).2 = (step i s').2 ∧ R (clock i) (step i s).1 (step i s').1)
    (hleft : ∀ t s s' i, R t s s' → t ≤ clock i → keep i = false → R (clock i) s (step i s').1)
    {t : τ} {is : List ι} {s s' : σ} (hs : R t s s') (hord : OrderedFrom clock t is)
    (hg : Guarded G step (is.filter keep) s) :
    keptOutputs keep step is s' = outputs step (is.filter keep) s := by
  induction is generalizing t s s' with
  | nil => rfl
  | cons i is ih =>
    cases hi : keep i with
    | true =>
      rw [List.filter_cons_of_pos hi] at hg ⊢
      obtain ⟨hout, hR⟩ := hkept t s s' i hs hord.1 hi hg.1
      rw [outputs_cons, hout, ← ih hR hord.2 hg.2]
      simp only [keptOutputs, hi, if_true]
    | false =>
      rw [List.filter_cons_of_neg (by simp [hi])] at hg ⊢
      rw [← ih (hleft t s s' i hs hord.1 hi) hord.2 hg]
      simp only [keptOutputs, hi, Bool.false_eq_true, if_false]

/-- The same rule when what is left out may depend on the state it is left out in: the guard
is that of the longer run. -/
theorem keptOutputs_eq_of_guarded_stuttering {keep : ι → Bool} {R : τ → σ → σ → Prop}
    (hkept : ∀ t s s' i, R t s s' → t ≤ clock i → keep i = true → G i s' →
      (step i s).2 = (step i s').2 ∧ R (clock i) (step i s).1 (step i s').1)
    (hleft : ∀ t s s' i, R t s s' → t ≤ clock i → keep i = false → G i s' →
      R (clock i) s (step i s').1)
    {t : τ} {is : List ι} {s s' : σ} (hs : R t s s') (hord : OrderedFrom clock t is)
    (hg : Guarded G step is s') :
    keptOutputs keep step is s' = outputs step (is.filter keep) s := by
  induction is generalizing t s s' with
  | nil => rfl
  | cons i is ih =>
    cases hi : keep i with
    | true =>
      obtain ⟨hout, hR⟩ := hkept t s s' i hs hord.1 hi hg.1
      rw [List.filter_cons_of_pos hi, outputs_cons, hout, ← ih hR hord.2 hg.2]
      simp only [keptOutputs, hi, if_true]
    | false =>
      rw [List.filter_cons_of_neg (by simp [hi]),
        ← ih (hleft t s s' i hs hord.1 hi hg.1) hord.2 hg.2]
      simp only [keptOutputs, hi, Bool.false_eq_true, if_false]

/-- The translation rule: the inputs that `f` translates are answered as the second machine
answers their translations, when a relation survives a translated input in both machines and
one without a translation in the first. -/
theorem keptOutputs_eq_of_translation {ι' : Type*} {f : ι → Option ι'}
    {step' : ι' → σ' → σ' × ο} {R : τ → σ → σ' → Prop}
    (hkept : ∀ t s s' i j, R t s s' → t ≤ clock i → f i = some j →
      (step i s).2 = (step' j s').2 ∧ R (clock i) (step i s).1 (step' j s').1)
    (hleft : ∀ t s s' i, R t s s' → t ≤ clock i → f i = none → R (clock i) (step i s).1 s')
    {t : τ} {is : List ι} {s : σ} {s' : σ'} (hs : R t s s') (hord : OrderedFrom clock t is) :
    keptOutputs (fun i => (f i).isSome) step is s = outputs step' (is.filterMap f) s' := by
  induction is generalizing t s s' with
  | nil => rfl
  | cons i is ih =>
    cases hi : f i with
    | some j =>
      obtain ⟨hout, hR⟩ := hkept t s s' i j hs hord.1 hi
      rw [List.filterMap_cons_some hi, outputs_cons, ← hout, ← ih hR hord.2]
      simp only [keptOutputs, hi, Option.isSome_some, if_true]
    | none =>
      rw [List.filterMap_cons_none hi, ← ih (hleft t s s' i hs hord.1 hi) hord.2]
      simp only [keptOutputs, hi, Option.isSome_none, Bool.false_eq_true, if_false]

end Rules

end RatelimitFlex.Library
