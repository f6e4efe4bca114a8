import RatelimitFlex.Analysis.ComposedUndo
import RatelimitFlex.Program.MemoryEngine
import RatelimitFlex.Program.RaceConcurrency

/-!
# What a race leaves charged

Whatever order the layers settle in, every store was asked for the increment once, and for
the rollback once if its layer lost and allowed (`Accounted`).  The continuation after the
timeout asks for no rollback: what the layers count for it stays.
-/

set_option autoImplicit false

namespace RatelimitFlex

open Library

variable {σ κ : Type}

/-! ## What a request was charged -/

/-- What the store of layer `j` was asked for. -/
def callsOn (j : ℕ) (calls : List (ℕ × LayerCall κ)) : List (LayerCall κ) :=
  calls.filterMap fun p => if p.1 = j then some p.2 else none

/-- A call is one on its layer. -/
theorem callsOn_append_self (j : ℕ) (calls : List (ℕ × LayerCall κ)) (call : LayerCall κ) :
    callsOn j (calls ++ [(j, call)]) = callsOn j calls ++ [call] := by
  simp [callsOn]

/-- It is none on another. -/
theorem callsOn_append_of_ne {j k : ℕ} (h : k ≠ j) (calls : List (ℕ × LayerCall κ))
    (call : LayerCall κ) : callsOn j (calls ++ [(k, call)]) = callsOn j calls := by
  simp [callsOn, h]

/-- The calls on a layer are its own. -/
theorem mem_callsOn {j : ℕ} {calls : List (ℕ × LayerCall κ)} {call : LayerCall κ} :
    call ∈ callsOn j calls ↔ (j, call) ∈ calls := by
  simp only [callsOn, List.mem_filterMap, Option.ite_none_right_eq_some, Option.some.injEq]
  constructor
  · rintro ⟨⟨k, call'⟩, hmem, rfl, rfl⟩
    exact hmem
  · exact fun h => ⟨(j, call), h, rfl, rfl⟩

/-- The units a call charges, where the store keeps an increment it has so answered. -/
def LayerCall.units (keeps : RateLimitResult → Bool) : LayerCall κ → ℤ
  | .increment _ options (.ok r) => if keeps r then options.sanitizedCost else 0
  | .increment _ _ (.error _) => 0
  | .decrement _ options => -(options.sanitizedCost : ℤ)

/-- The units layer `j` is charged for the request, all calls taken together. -/
def RaceRun.charge (keeps : ℕ → RateLimitResult → Bool) (j : ℕ) (s : RaceRun σ κ) : ℤ :=
  ((callsOn j s.calls).map (LayerCall.units (keeps j))).sum

/-- All increments have settled, and the race has been answered. -/
def RaceRun.Over (n : ℕ) (s : RaceRun σ κ) : Prop :=
  (∀ j, j < n → (s.answers j).isSome = true) ∧ s.phase.result?.isSome = true

namespace CompositionLayer

variable (layer : CompositionLayer σ κ) (s : RaceRun σ κ)

/-- The increment that a race asks of a layer, with its answer. -/
def raceIncrement (answer : Except StoreError RateLimitResult) : LayerCall κ :=
  .increment (layer.layerKey s.key) (mergeIncOpts layer s.options) answer

/-- The decrement that undoes it. -/
def raceRollback : LayerCall κ :=
  .decrement (layer.layerKey s.key)
    { matchingDecrementOptions (mergeIncOpts layer s.options) with removeNewest := true }

end CompositionLayer

namespace ComposedStore

variable [DecidableEq κ] (c : ComposedStore σ κ)

/-- A race that timed out has left no layer charged; one with a winner has taken its cost
off every other layer that allowed it, once. -/
def ChargesAtMostWinner (keeps : ℕ → RateLimitResult → Bool) (s : RaceRun σ κ) : Prop :=
  match s.phase with
  | .timedOut _ => ∀ j, s.charge keeps j = 0
  | .answered _ (some winner) _ => ∀ j layer r, j ≠ winner → c.layers[j]? = some layer →
      s.answers j = some (.ok r) → r.isBlocked = false →
      callsOn j s.calls = [layer.raceIncrement s (.ok r), layer.raceRollback s]
  | _ => True

/-- No store keeps an increment of the race. -/
def NoneKept (keeps : ℕ → RateLimitResult → Bool) (s : RaceRun σ κ) : Prop :=
  ∀ j key options r, (j, LayerCall.increment key options (.ok r)) ∈ s.calls → keeps j r = false

/-- `raceEvent` as a step of a run. -/
def raceStep (ev : RaceEvent σ κ) (s : RaceRun σ κ) : RaceRun σ κ × Unit := (c.raceEvent ev s, ())

end ComposedStore

/-- The timer fires only when a layer has settled. -/
def RaceEvent.InTime (ev : RaceEvent σ κ) (s : RaceRun σ κ) : Prop :=
  match ev with
  | .timeout => ∃ j, (s.answers j).isSome = true
  | _ => True

namespace RacePhase

/-- The layers still to be rolled back. -/
def due : RacePhase → List ℕ
  | .rollingBack _ _ _ layers => layers
  | _ => []

/-- All answers, when the race has a winner. -/
def settled? : RacePhase → Option (List (Except StoreError RateLimitResult) × ℕ)
  | .rollingBack settled winner _ _ => some (settled, winner)
  | .answered settled (some winner) _ => some (settled, winner)
  | _ => none

/-- The layers that allowed and lost. -/
def losers (phase : RacePhase) : List ℕ :=
  match phase.settled? with
  | some (settled, winner) => (allowedLayers settled).filter fun j => decide (j ≠ winner)
  | none => []

def isTimedOut : RacePhase → Bool
  | .timedOut _ => true
  | _ => false

/-- As long as nothing is settled nobody has lost. -/
theorem losers_of_none {phase : RacePhase} (h : phase.settled? = none) : phase.losers = [] := by
  rw [losers, h]

/-- The losers are the layers that have allowed and not won. -/
theorem mem_losers {phase : RacePhase} {settled : List (Except StoreError RateLimitResult)}
    {winner j : ℕ} (h : phase.settled? = some (settled, winner)) :
    j ∈ phase.losers ↔ (∃ r, settled[j]? = some r ∧ allows r = true) ∧ j ≠ winner := by
  rw [losers, h]
  simp only [List.mem_filter, mem_allowedLayers, decide_eq_true_eq]

end RacePhase

/-- No rollback is refused. -/
def RaceEvent.Obeyed (ev : RaceEvent σ κ) (s : RaceRun σ κ) : Prop :=
  match ev with
  | .refuse => s.phase.due = []
  | _ => True

/-! ## The invariant -/

section Invariant

variable (c : ComposedStore σ κ)

/-- Layer `j` was rolled back. -/
def RaceRun.Undone (j : ℕ) (s : RaceRun σ κ) : Prop :=
  j ∈ s.phase.losers ∧ j ∉ s.phase.due ∧ j ∉ s.refused

instance (j : ℕ) (s : RaceRun σ κ) : Decidable (s.Undone j) :=
  inferInstanceAs (Decidable (_ ∧ _))

/-- What the store of a layer was asked for, as the race stands. -/
def ComposedStore.accountOf (s : RaceRun σ κ) (j : ℕ) : List (LayerCall κ) :=
  match s.counted j, c.layers[j]? with
  | some answer, some layer =>
    layer.raceIncrement s answer :: if s.Undone j then [layer.raceRollback s] else []
  | _, _ => []

/-- What the moments of a race keep. -/
structure Accounted (s : RaceRun σ κ) : Prop where
  answered : ∀ j r, s.answers j = some (.ok r) → s.counted j = some (.ok r)
  gathered : ∀ settled winner, s.phase.settled? = some (settled, winner) →
    gather s.answers c.layers.length = some settled
  due_subset : s.phase.due ⊆ s.phase.losers
  due_nodup : s.phase.due.Nodup
  refused_subset : s.refused ⊆ s.phase.losers
  refused_not_due : ∀ j ∈ s.refused, j ∉ s.phase.due
  waits : s.phase = .waiting → ∀ j, s.answers j = none
  begun : s.phase = .waiting ∨ s.phase.isTimedOut = true ∨ ∃ j, (s.answers j).isSome = true
  calls : ∀ j, callsOn j s.calls = c.accountOf s j

namespace Accounted

variable {c} {s : RaceRun σ κ} {j : ℕ}

/-- Once all are gathered each has answered. -/
theorem isSome_of_gather {answers : ℕ → Option (Except StoreError RateLimitResult)} {n : ℕ}
    {settled : List (Except StoreError RateLimitResult)} (h : gather answers n = some settled)
    (hj : j < n) : (answers j).isSome = true := by
  rw [← getElem?_gather h hj, List.getElem?_eq_getElem (by rw [length_gather h]; exact hj)]
  rfl

/-- A layer that lost has answered, and allowed. -/
theorem answers_of_loser (h : Accounted c s) (hj : j ∈ s.phase.losers) :
    j < c.layers.length ∧ ∃ r, s.answers j = some (.ok r) ∧ r.isBlocked = false := by
  cases hsettled : s.phase.settled? with
  | none =>
    rw [RacePhase.losers_of_none hsettled] at hj
    simp at hj
  | some p =>
    obtain ⟨settled, winner⟩ := p
    obtain ⟨⟨x, hx, hallows⟩, -⟩ := (RacePhase.mem_losers hsettled).mp hj
    have hgather := h.gathered settled winner hsettled
    have hlt : j < c.layers.length := by
      rw [← length_gather hgather]
      exact (List.getElem?_eq_some_iff.mp hx).1
    refine ⟨hlt, ?_⟩
    rw [← getElem?_gather hgather hlt, hx]
    cases x with
    | error e => simp [allows] at hallows
    | ok r => exact ⟨r, rfl, by simpa [allows] using hallows⟩

/-- A layer that allowed and is not the winner lost. -/
theorem loser_of_answers (h : Accounted c s) {settled : List (Except StoreError RateLimitResult)}
    {winner : ℕ} (hsettled : s.phase.settled? = some (settled, winner)) (hj : j < c.layers.length)
    (hne : j ≠ winner) {r : RateLimitResult} (hr : s.answers j = some (.ok r))
    (hallowed : r.isBlocked = false) : j ∈ s.phase.losers := by
  rw [RacePhase.mem_losers hsettled]
  refine ⟨⟨.ok r, ?_, by simp [allows, hallowed]⟩, hne⟩
  rw [getElem?_gather (h.gathered settled winner hsettled) hj, hr]

/-- Before there is a winner nothing is refused. -/
theorem refused_of_none (h : Accounted c s) (hnone : s.phase.settled? = none) :
    s.refused = [] := by
  have hsub := h.refused_subset
  rw [RacePhase.losers_of_none hnone] at hsub
  exact List.subset_nil.mp hsub

/-- At the start nothing is charged. -/
theorem start (composed : ComposedState σ κ) (key : κ) (options : RateLimitIncrementOptions) :
    Accounted c { composed, key, options } where
  answered := by simp
  gathered := by simp [RacePhase.settled?]
  due_subset := by simp [RacePhase.due]
  due_nodup := by simp [RacePhase.due]
  refused_subset := by simp
  refused_not_due := by simp
  waits := fun _ _ => rfl
  begun := Or.inl rfl
  calls := fun _ => rfl

/-- A layer's store takes the increment. -/
theorem count (h : Accounted c s) (hnone : s.counted j = none) {layer : CompositionLayer σ κ}
    (hlayer : c.layers[j]? = some layer) (answer : Except StoreError RateLimitResult)
    (composed : ComposedState σ κ) :
    Accounted c { s with
      composed
      counted := Function.update s.counted j (some answer)
      calls := s.calls ++ [(j, layer.raceIncrement s answer)] } where
  answered := by
    intro k r hk
    have hcounted := h.answered k r hk
    have hne : k ≠ j := by
      rintro rfl
      rw [hnone] at hcounted
      simp at hcounted
    exact (Function.update_of_ne hne _ _).trans hcounted
  gathered := h.gathered
  due_subset := h.due_subset
  due_nodup := h.due_nodup
  refused_subset := h.refused_subset
  refused_not_due := h.refused_not_due
  waits := h.waits
  begun := h.begun
  calls := by
    intro k
    by_cases hk : k = j
    · subst hk
      have hbefore : callsOn k s.calls = [] := by
        rw [h.calls, ComposedStore.accountOf, hnone]
      have hnot : ¬ s.Undone k := by
        rintro ⟨hloser, -⟩
        obtain ⟨-, r, hr, -⟩ := h.answers_of_loser hloser
        have hcounted := h.answered k r hr
        rw [hnone] at hcounted
        simp at hcounted
      rw [callsOn_append_self, hbefore, ComposedStore.accountOf]
      simp only [Function.update_self, hlayer]
      change [] ++ [layer.raceIncrement s answer] = layer.raceIncrement s answer ::
        if s.Undone k then [layer.raceRollback s] else []
      rw [if_neg hnot, List.nil_append]
    · rw [callsOn_append_of_ne (Ne.symm hk), h.calls, ComposedStore.accountOf,
        ComposedStore.accountOf]
      simp only [Function.update_of_ne hk]
      rfl

/-- The phase moves on while the same layers have lost, are due and were rolled back. -/
theorem move (h : Accounted c s) {s' : RaceRun σ κ}
    (hsame : s'.calls = s.calls ∧ s'.counted = s.counted ∧ s'.key = s.key ∧
      s'.options = s.options)
    (hanswered : ∀ j r, s'.answers j = some (.ok r) → s.counted j = some (.ok r))
    (hgathered : ∀ settled winner, s'.phase.settled? = some (settled, winner) →
      gather s'.answers c.layers.length = some settled)
    (hdue : s'.phase.due ⊆ s'.phase.losers) (hnodup : s'.phase.due.Nodup)
    (hrefused : s'.refused ⊆ s'.phase.losers) (hnotdue : ∀ j ∈ s'.refused, j ∉ s'.phase.due)
    (hwaits : s'.phase = .waiting → ∀ j, s'.answers j = none)
    (hbegun : s'.phase = .waiting ∨ s'.phase.isTimedOut = true ∨
      ∃ j, (s'.answers j).isSome = true)
    (hundone : ∀ j, s'.Undone j ↔ s.Undone j) : Accounted c s' where
  answered := by
    rw [hsame.2.1]
    exact hanswered
  gathered := hgathered
  due_subset := hdue
  due_nodup := hnodup
  refused_subset := hrefused
  refused_not_due := hnotdue
  waits := hwaits
  begun := hbegun
  calls := by
    intro j
    obtain ⟨hcalls, hcounted, hkey, hoptions⟩ := hsame
    rw [hcalls, h.calls, ComposedStore.accountOf, ComposedStore.accountOf, hcounted]
    simp only [CompositionLayer.raceIncrement, CompositionLayer.raceRollback, hkey, hoptions,
      hundone j]

/-- A promise settles that has not settled before. -/
theorem settle (h : Accounted c s) (hnone : s.answers j = none)
    {answer : Except StoreError RateLimitResult}
    (hcount : ∀ r, answer = .ok r → s.counted j = some (.ok r)) :
    Accounted c (s.settle j answer) := by
  have hself : (s.settle j answer).answers j = some answer := Function.update_self _ _ _
  have hother : ∀ k, k ≠ j → (s.settle j answer).answers k = s.answers k :=
    fun k hk => Function.update_of_ne hk _ _
  -- the phase changes only from waiting to decided, where no layer has lost
  have hphase : (s.settle j answer).phase = s.phase ∨
      s.phase = .waiting ∧ (s.settle j answer).phase = .decided j := by
    unfold RaceRun.settle
    cases s.phase <;> simp
  have hsettled : (s.settle j answer).phase.settled? = s.phase.settled? := by
    rcases hphase with heq | ⟨hwaiting, hdecided⟩
    · rw [heq]
    · rw [hwaiting, hdecided]
      rfl
  have hlosers : (s.settle j answer).phase.losers = s.phase.losers := by
    rw [RacePhase.losers, RacePhase.losers, hsettled]
  have hdue : (s.settle j answer).phase.due = s.phase.due := by
    rcases hphase with heq | ⟨hwaiting, hdecided⟩
    · rw [heq]
    · rw [hwaiting, hdecided]
      rfl
  apply h.move
  · exact ⟨rfl, rfl, rfl, rfl⟩
  · intro k r hk
    by_cases hkj : k = j
    · subst hkj
      rw [hself] at hk
      exact hcount r (Option.some.inj hk)
    · rw [hother k hkj] at hk
      exact h.answered k r hk
  · intro settled winner hs
    rw [hsettled] at hs
    have hgather := h.gathered settled winner hs
    rw [← hgather]
    refine gather_congr fun k hk => hother k ?_
    rintro rfl
    have hsome := isSome_of_gather hgather hk
    rw [hnone] at hsome
    simp at hsome
  · rw [hdue, hlosers]
    exact h.due_subset
  · rw [hdue]
    exact h.due_nodup
  · rw [hlosers]
    exact h.refused_subset
  · rw [hdue]
    exact h.refused_not_due
  · intro hwaiting
    rcases hphase with heq | ⟨-, hdecided⟩
    · unfold RaceRun.settle at hwaiting
      cases hs : s.phase <;> simp [hs] at hwaiting
    · rw [hdecided] at hwaiting
      simp at hwaiting
  · exact Or.inr (Or.inr ⟨j, by rw [hself]; rfl⟩)
  · intro k
    unfold RaceRun.Undone
    rw [hlosers, hdue]
    rfl

/-- The timer fires before any layer has settled. -/
theorem timeout (h : Accounted c s) (hwaiting : s.phase = .waiting) (result : RateLimitResult) :
    Accounted c { s with phase := .timedOut result } := by
  have hrefused := h.refused_of_none (by rw [hwaiting]; rfl)
  apply h.move
  · exact ⟨rfl, rfl, rfl, rfl⟩
  · exact h.answered
  · simp [RacePhase.settled?]
  · simp [RacePhase.due]
  · simp [RacePhase.due]
  · simp [hrefused]
  · simp [hrefused]
  · simp
  · exact Or.inr (Or.inl rfl)
  · intro k
    simp [RaceRun.Undone, hwaiting, RacePhase.losers, RacePhase.settled?]

/-- All have settled. -/
theorem resume (h : Accounted c s) {first : ℕ} (hdecided : s.phase = .decided first)
    {settled : List (Except StoreError RateLimitResult)}
    (hgather : gather s.answers c.layers.length = some settled) {phase : RacePhase}
    (hphase : (∃ result, phase = .answered settled none result) ∨
      ∃ winner result, phase = .rollingBack settled winner result
        ((allowedLayers settled).filter fun j => decide (j ≠ winner))) :
    Accounted c { s with phase } := by
  have hnone : s.phase.settled? = none := by rw [hdecided]; rfl
  have hrefused := h.refused_of_none hnone
  have hbegun : ∃ j, (s.answers j).isSome = true := by
    rcases h.begun with hwaiting | htimeout | hsome
    · rw [hdecided] at hwaiting
      simp at hwaiting
    · rw [hdecided] at htimeout
      simp [RacePhase.isTimedOut] at htimeout
    · exact hsome
  have hundone : ∀ k, ¬ s.Undone k := by
    rintro k ⟨hk, -⟩
    rw [RacePhase.losers_of_none hnone] at hk
    simp at hk
  rcases hphase with ⟨result, rfl⟩ | ⟨winner, result, rfl⟩
  · apply h.move
    · exact ⟨rfl, rfl, rfl, rfl⟩
    · exact h.answered
    · simp [RacePhase.settled?]
    · simp [RacePhase.due]
    · simp [RacePhase.due]
    · simp [hrefused]
    · simp [hrefused]
    · simp
    · exact Or.inr (Or.inr hbegun)
    · intro k
      refine iff_of_false ?_ (hundone k)
      simp [RaceRun.Undone, RacePhase.losers, RacePhase.settled?]
  · apply h.move
    · exact ⟨rfl, rfl, rfl, rfl⟩
    · exact h.answered
    · rintro _ _ ⟨⟩
      exact hgather
    · exact fun _ hk => hk
    · exact (nodup_allowedLayers settled).filter _
    · simp [hrefused]
    · simp [hrefused]
    · simp
    · exact Or.inr (Or.inr hbegun)
    · intro k
      refine iff_of_false ?_ (hundone k)
      rintro ⟨hloser, hnotdue, -⟩
      exact hnotdue hloser

variable {settled : List (Except StoreError RateLimitResult)} {winner : ℕ}
  {result : RateLimitResult} {rest : List ℕ}

/-- The layer that is due first is a loser that is due no more, and was not refused. -/
theorem due_head (h : Accounted c s) (hphase : s.phase = .rollingBack settled winner result (j :: rest)) :
    j ∈ s.phase.losers ∧ j ∉ rest ∧ j ∉ s.refused ∧ rest ⊆ s.phase.losers ∧ rest.Nodup := by
  have hdue : s.phase.due = j :: rest := by
    rw [hphase]
    rfl
  have hsub := h.due_subset
  have hnodup := h.due_nodup
  rw [hdue] at hsub hnodup
  obtain ⟨hj, hrest⟩ := List.nodup_cons.mp hnodup
  refine ⟨hsub List.mem_cons_self, hj, ?_, (List.cons_subset.mp hsub).2, hrest⟩
  intro hrefused
  apply h.refused_not_due j hrefused
  rw [hdue]
  exact List.mem_cons_self

/-- The layer that is due first is rolled back. -/
theorem rollback (h : Accounted c s)
    (hphase : s.phase = .rollingBack settled winner result (j :: rest))
    {layer : CompositionLayer σ κ} (hlayer : c.layers[j]? = some layer)
    (composed : ComposedState σ κ) :
    Accounted c { s with
      composed
      phase := .rollingBack settled winner result rest
      calls := s.calls ++ [(j, layer.raceRollback s)] } := by
  obtain ⟨hloser, hnotrest, hnotrefused, hsub, hnodup⟩ := h.due_head hphase
  have hdue : s.phase.due = j :: rest := by
    rw [hphase]
    rfl
  have hlosers : (RacePhase.rollingBack settled winner result rest).losers = s.phase.losers := by
    rw [hphase]
    rfl
  exact
    { answered := h.answered
      gathered := by
        rintro _ _ ⟨⟩
        exact h.gathered settled winner (by rw [hphase]; rfl)
      due_subset := by
        rw [hlosers]
        exact hsub
      due_nodup := hnodup
      refused_subset := by
        rw [hlosers]
        exact h.refused_subset
      refused_not_due := by
        intro k hk hrest
        apply h.refused_not_due k hk
        rw [hdue]
        exact List.mem_cons_of_mem _ hrest
      waits := by simp
      begun := by
        rcases h.begun with hwaiting | htimeout | hsome
        · simp [hphase] at hwaiting
        · simp [hphase, RacePhase.isTimedOut] at htimeout
        · exact Or.inr (Or.inr hsome)
      calls := by
        obtain ⟨hlt, r, hr, -⟩ := h.answers_of_loser hloser
        have hcounted := h.answered j r hr
        have hbefore : ¬ s.Undone j := by
          rintro ⟨-, hnotdue, -⟩
          exact hnotdue (hdue ▸ List.mem_cons_self)
        intro k
        by_cases hk : k = j
        · subst hk
          rw [callsOn_append_self, h.calls, ComposedStore.accountOf, ComposedStore.accountOf]
          simp only [hcounted, hlayer, if_neg hbefore]
          rw [if_pos]
          · rfl
          · exact ⟨hlosers.symm ▸ hloser, hnotrest, hnotrefused⟩
        · have hundone : RaceRun.Undone k { s with
              composed
              phase := .rollingBack settled winner result rest
              calls := s.calls ++ [(j, layer.raceRollback s)] } ↔ s.Undone k := by
            unfold RaceRun.Undone
            rw [hlosers, hdue]
            simp [RacePhase.due, hk]
          rw [callsOn_append_of_ne (Ne.symm hk), h.calls, ComposedStore.accountOf,
            ComposedStore.accountOf]
          simp only [hundone]
          rfl }

/-- The store of the layer that is due first refuses. -/
theorem refuse (h : Accounted c s)
    (hphase : s.phase = .rollingBack settled winner result (j :: rest)) :
    Accounted c { s with
      phase := .rollingBack settled winner result rest
      refused := s.refused ++ [j] } := by
  obtain ⟨hloser, hnotrest, hnotrefused, hsub, hnodup⟩ := h.due_head hphase
  have hdue : s.phase.due = j :: rest := by
    rw [hphase]
    rfl
  have hlosers : (RacePhase.rollingBack settled winner result rest).losers = s.phase.losers := by
    rw [hphase]
    rfl
  apply h.move
  · exact ⟨rfl, rfl, rfl, rfl⟩
  · exact h.answered
  · rintro _ _ ⟨⟩
    exact h.gathered settled winner (by rw [hphase]; rfl)
  · rw [hlosers]
    exact hsub
  · exact hnodup
  · rw [hlosers]
    exact List.append_subset.mpr ⟨h.refused_subset, List.cons_subset.mpr ⟨hloser, List.nil_subset _⟩⟩
  · intro k hk
    rcases List.mem_append.mp hk with hk | hk
    · intro hrest
      apply h.refused_not_due k hk
      rw [hdue]
      exact List.mem_cons_of_mem _ hrest
    · rw [List.mem_singleton.mp hk]
      exact hnotrest
  · simp
  · rcases h.begun with hwaiting | htimeout | hsome
    · simp [hphase] at hwaiting
    · simp [hphase, RacePhase.isTimedOut] at htimeout
    · exact Or.inr (Or.inr hsome)
  · intro k
    unfold RaceRun.Undone
    rw [hlosers, hdue]
    simp only [RacePhase.due, List.mem_cons, List.mem_append, List.not_mem_nil, or_false, not_or]
    tauto

/-- The last rollback is done. -/
theorem answer (h : Accounted c s) (hphase : s.phase = .rollingBack settled winner result [])
    (composed : ComposedState σ κ) :
    Accounted c { s with composed, phase := .answered settled (some winner) result } := by
  have hlosers : (RacePhase.answered settled (some winner) result).losers = s.phase.losers := by
    rw [hphase]
    rfl
  apply h.move
  · exact ⟨rfl, rfl, rfl, rfl⟩
  · exact h.answered
  · rintro _ _ ⟨⟩
    exact h.gathered settled winner (by rw [hphase]; rfl)
  · simp [RacePhase.due]
  · simp [RacePhase.due]
  · rw [hlosers]
    exact h.refused_subset
  · simp [RacePhase.due]
  · simp
  · rcases h.begun with hwaiting | htimeout | hsome
    · simp [hphase] at hwaiting
    · simp [hphase, RacePhase.isTimedOut] at htimeout
    · exact Or.inr (Or.inr hsome)
  · intro k
    unfold RaceRun.Undone
    rw [hlosers]
    simp [hphase, RacePhase.due]

/-- **Every moment of a race keeps its accounts.** -/
theorem step [DecidableEq κ] (h : Accounted c s) (ev : RaceEvent σ κ) :
    Accounted c (c.raceEvent ev s) := by
  cases ev with
  | count j =>
    simp only [ComposedStore.raceEvent]
    split
    · next layer hnone hlayer => exact h.count hnone hlayer _ _
    · exact h
  | fulfil j =>
    simp only [ComposedStore.raceEvent]
    split
    · next answer hnone hcounted =>
      exact h.settle hnone fun r hr => by rw [hcounted, hr]
    · exact h
  | reject j e =>
    simp only [ComposedStore.raceEvent]
    split
    · next hnone _ => exact h.settle hnone fun r hr => by simp at hr
    · exact h
  | timeout =>
    simp only [ComposedStore.raceEvent]
    split
    · next hwaiting => exact h.timeout hwaiting _
    · exact h
  | resume =>
    simp only [ComposedStore.raceEvent]
    split
    · next first settled hdecided hgather =>
      split
      · exact h.resume hdecided hgather (Or.inr ⟨_, _, rfl⟩)
      · exact h.resume hdecided hgather (Or.inl ⟨_, rfl⟩)
    · exact h
  | rollback =>
    simp only [ComposedStore.raceEvent]
    split
    · next hphase => exact h.answer hphase _
    · next hphase =>
      split
      · next hlayer => exact h.rollback hphase hlayer _
      · exact h
    · exact h
  | refuse =>
    simp only [ComposedStore.raceEvent]
    split
    · next hphase => exact h.refuse hphase
    · exact h
  | other f =>
    exact ⟨h.answered, h.gathered, h.due_subset, h.due_nodup, h.refused_subset,
      h.refused_not_due, h.waits, h.begun, h.calls⟩

end Accounted

end Invariant

/-! ## Runs -/

section Runs

variable [DecidableEq κ] {c : ComposedStore σ κ} {s : RaceRun σ κ}

/-- A rollback is refused when its event is not obeyed, and at no other. -/
theorem refused_raceEvent (ev : RaceEvent σ κ) :
    (c.raceEvent ev s).refused = [] ↔ s.refused = [] ∧ ev.Obeyed s := by
  cases ev with
  | count j =>
    simp only [ComposedStore.raceEvent, RaceEvent.Obeyed, and_true]
    split <;> rfl
  | fulfil j =>
    simp only [ComposedStore.raceEvent, RaceEvent.Obeyed, and_true]
    split <;> rfl
  | reject j e =>
    simp only [ComposedStore.raceEvent, RaceEvent.Obeyed, and_true]
    split <;> rfl
  | timeout =>
    simp only [ComposedStore.raceEvent, RaceEvent.Obeyed, and_true]
    split <;> rfl
  | resume =>
    simp only [ComposedStore.raceEvent, RaceEvent.Obeyed, and_true]
    split
    · split <;> rfl
    · rfl
  | rollback =>
    simp only [ComposedStore.raceEvent, RaceEvent.Obeyed, and_true]
    split
    · rfl
    · split <;> rfl
    · rfl
  | other f => simp [ComposedStore.raceEvent, RaceEvent.Obeyed]
  | refuse =>
    simp only [ComposedStore.raceEvent, RaceEvent.Obeyed]
    cases hphase : s.phase with
    | rollingBack settled winner result layers => cases layers <;> simp [RacePhase.due]
    | waiting => simp [RacePhase.due]
    | decided first => simp [RacePhase.due]
    | answered settled winner result => simp [RacePhase.due]
    | timedOut result => simp [RacePhase.due]

/-- A race times out when the timer fires before a layer has settled, and at no other
event. -/
theorem isTimedOut_raceEvent (h : Accounted c s) (ev : RaceEvent σ κ) :
    (c.raceEvent ev s).phase.isTimedOut = true ↔
      s.phase.isTimedOut = true ∨ ¬ ev.InTime s := by
  cases ev with
  | count j =>
    simp only [ComposedStore.raceEvent, RaceEvent.InTime, not_true, or_false]
    split <;> rfl
  | fulfil j =>
    simp only [ComposedStore.raceEvent, RaceEvent.InTime, not_true, or_false, RaceRun.settle]
    split
    · cases s.phase <;> rfl
    · rfl
  | reject j e =>
    simp only [ComposedStore.raceEvent, RaceEvent.InTime, not_true, or_false, RaceRun.settle]
    split
    · cases s.phase <;> rfl
    · rfl
  | resume =>
    simp only [ComposedStore.raceEvent, RaceEvent.InTime, not_true, or_false]
    split
    · next hdecided _ =>
      rw [hdecided]
      split <;> rfl
    · rfl
  | rollback =>
    simp only [ComposedStore.raceEvent, RaceEvent.InTime, not_true, or_false]
    split
    · next hphase =>
      rw [hphase]
      rfl
    · next hphase =>
      rw [hphase]
      split
      · rfl
      · rw [hphase]
    · rfl
  | refuse =>
    simp only [ComposedStore.raceEvent, RaceEvent.InTime, not_true, or_false]
    split
    · next hphase =>
      rw [hphase]
      rfl
    · rfl
  | other f => simp [ComposedStore.raceEvent, RaceEvent.InTime]
  | timeout =>
    simp only [ComposedStore.raceEvent, RaceEvent.InTime]
    split
    · next hwaiting =>
      refine iff_of_true rfl (Or.inr ?_)
      rintro ⟨j, hj⟩
      rw [h.waits hwaiting] at hj
      simp at hj
    · next hnot =>
      rcases h.begun with hwaiting | htimeout | hsome
      · exact absurd hwaiting hnot
      · exact iff_of_true htimeout (Or.inl htimeout)
      · simp [hsome]

/-- The accounts of a whole race, when it timed out, and when it was refused a rollback. -/
theorem raceEvents_spec (h : Accounted c s) (evs : List (RaceEvent σ κ)) :
    Accounted c (c.raceEvents evs s) ∧
      ((c.raceEvents evs s).phase.isTimedOut = true ↔
        s.phase.isTimedOut = true ∨ ¬ Guarded RaceEvent.InTime c.raceStep evs s) ∧
      ((c.raceEvents evs s).refused = [] ↔
        s.refused = [] ∧ Guarded RaceEvent.Obeyed c.raceStep evs s) := by
  induction evs generalizing s with
  | nil => exact ⟨h, by simp [ComposedStore.raceEvents], by simp [ComposedStore.raceEvents]⟩
  | cons ev evs ih =>
    obtain ⟨hfinal, htimedOut, hrefused⟩ := ih (h.step ev)
    refine ⟨hfinal, htimedOut.trans ?_, hrefused.trans ?_⟩
    · rw [isTimedOut_raceEvent h, guarded_cons, not_and_or, or_assoc]
      rfl
    · rw [refused_raceEvent, guarded_cons, and_assoc]
      rfl

omit [DecidableEq κ] in
/-- While nothing is rolled back, a layer is charged for what its store keeps. -/
theorem charge_eq_zero_iff (h : Accounted c s) (hnone : s.phase.settled? = none)
    (keeps : ℕ → RateLimitResult → Bool) :
    (∀ j, s.charge keeps j = 0) ↔ ComposedStore.NoneKept keeps s := by
  have hnot : ∀ j, ¬ s.Undone j := by
    rintro j ⟨hj, -⟩
    rw [RacePhase.losers_of_none hnone] at hj
    simp at hj
  constructor
  · intro hzero j key options r hmem
    replace hmem := mem_callsOn.mpr hmem
    have hcharge := hzero j
    rw [RaceRun.charge, h.calls, ComposedStore.accountOf] at hcharge
    rw [h.calls, ComposedStore.accountOf] at hmem
    split at hmem
    · next answer layer hcounted hlayer =>
      rw [if_neg (hnot j), List.mem_singleton] at hmem
      simp only [hcounted, hlayer, if_neg (hnot j), ← hmem, List.map_cons, List.map_nil,
        List.sum_singleton, LayerCall.units] at hcharge
      have hcost := options.one_le_sanitizedCost
      by_contra hkeeps
      rw [if_pos (by simpa using hkeeps)] at hcharge
      omega
    · simp at hmem
  · intro hkept j
    rw [RaceRun.charge, h.calls, ComposedStore.accountOf]
    split
    · next answer layer hcounted hlayer =>
      rw [if_neg (hnot j), List.map_singleton, List.sum_singleton]
      cases answer with
      | error e => rfl
      | ok r =>
        have hmem : (j, layer.raceIncrement s (.ok r)) ∈ s.calls := by
          rw [← mem_callsOn, h.calls, ComposedStore.accountOf]
          simp only [hcounted, hlayer, if_neg (hnot j), List.mem_singleton]
        simp only [CompositionLayer.raceIncrement, LayerCall.units] at hmem ⊢
        rw [hkept j _ _ r hmem]
        rfl
    · rfl

omit [DecidableEq κ] in
/-- With a winner, every other layer that allowed has its cost removed once, unless its
store refuses. -/
theorem removedOnce_iff (h : Accounted c s)
    {settled : List (Except StoreError RateLimitResult)} {winner : ℕ} {result : RateLimitResult}
    (hphase : s.phase = .answered settled (some winner) result) :
    (∀ j layer r, j ≠ winner → c.layers[j]? = some layer → s.answers j = some (.ok r) →
      r.isBlocked = false →
      callsOn j s.calls = [layer.raceIncrement s (.ok r), layer.raceRollback s]) ↔
      s.refused = [] := by
  have hsettled : s.phase.settled? = some (settled, winner) := by rw [hphase]; rfl
  have hdue : s.phase.due = [] := by rw [hphase]; rfl
  constructor
  · intro hremoved
    by_contra hrefused
    obtain ⟨j, hj⟩ := List.exists_mem_of_ne_nil _ hrefused
    have hloser := h.refused_subset hj
    obtain ⟨hlt, r, hr, hallowed⟩ := h.answers_of_loser hloser
    have hlayer := List.getElem?_eq_getElem hlt
    have honce := hremoved j _ r ((RacePhase.mem_losers hsettled).mp hloser).2 hlayer hr hallowed
    have hnot : ¬ s.Undone j := fun hundone => hundone.2.2 hj
    rw [h.calls, ComposedStore.accountOf, h.answered j r hr, hlayer] at honce
    simp [if_neg hnot] at honce
  · intro hrefused j layer r hne hlayer hr hallowed
    have hlt := (List.getElem?_eq_some_iff.mp hlayer).1
    have hundone : s.Undone j :=
      ⟨h.loser_of_answers hsettled hlt hne hr hallowed, by simp [hdue], by simp [hrefused]⟩
    rw [h.calls, ComposedStore.accountOf, h.answered j r hr, hlayer]
    simp only [if_pos hundone]

/-- **A race charges at most its winner**, in whatever order its layers count, settle, the
timer fires and other requests come between, exactly when a layer settles before the timer
fires or no store keeps its increment, and no store refuses a rollback.
SOURCE: src/composition/ComposedStore.ts:307-321, 664-799 -/
theorem race_charges_iff (c : ComposedStore σ κ) (keeps : ℕ → RateLimitResult → Bool)
    (st : ComposedState σ κ) (key : κ) (options : RateLimitIncrementOptions)
    (evs : List (RaceEvent σ κ))
    (hover : (c.raceEvents evs { composed := st, key, options }).Over c.layers.length) :
    c.ChargesAtMostWinner keeps (c.raceEvents evs { composed := st, key, options }) ↔
      (Guarded RaceEvent.InTime c.raceStep evs { composed := st, key, options } ∨
        ComposedStore.NoneKept keeps (c.raceEvents evs { composed := st, key, options })) ∧
      Guarded RaceEvent.Obeyed c.raceStep evs { composed := st, key, options } := by
  obtain ⟨h, htimedOut, hrefused⟩ := raceEvents_spec (Accounted.start (c := c) st key options) evs
  replace htimedOut := htimedOut.trans (or_iff_right (by simp [RacePhase.isTimedOut]))
  replace hrefused := hrefused.trans (and_iff_right rfl)
  set s := c.raceEvents evs { composed := st, key, options }
  rw [← hrefused, ← not_iff_not.mpr htimedOut |>.trans not_not]
  unfold ComposedStore.ChargesAtMostWinner
  obtain ⟨-, hanswered⟩ := hover
  cases hphase : s.phase with
  | waiting => simp [hphase, RacePhase.result?] at hanswered
  | decided first => simp [hphase, RacePhase.result?] at hanswered
  | rollingBack settled winner result layers => simp [hphase, RacePhase.result?] at hanswered
  | timedOut result =>
    have hsettled : s.phase.settled? = none := by rw [hphase]; rfl
    simp only [RacePhase.isTimedOut, not_true, false_or, h.refused_of_none hsettled, and_true]
    exact charge_eq_zero_iff h hsettled keeps
  | answered settled winner result =>
    cases winner with
    | none =>
      have hsettled : s.phase.settled? = none := by rw [hphase]; rfl
      simp [RacePhase.isTimedOut, h.refused_of_none hsettled]
    | some winner =>
      simp only [RacePhase.isTimedOut, Bool.false_eq_true, not_false_eq_true, true_or, true_and]
      exact removedOnce_iff h hphase

end Runs

/-! ## Two layers -/

/-- An increment of two windows at `0`, by the moments of its race. -/
def raceOfTwo (evs : List (RaceEvent (StoreBank ℕ) ℕ)) : RaceRun (StoreBank ℕ) ℕ :=
  (firstAndSecond .race).store.raceEvents evs { composed := oneThenTen, key := 7, options := {} }

/-- The second layer settles first, and the first one is rolled back. -/
theorem race_charges_iff_won :
    (firstAndSecond .race).store.ChargesAtMostWinner (fun _ _ => true)
      (raceOfTwo [.count 0, .count 1, .fulfil 1, .timeout, .fulfil 0, .resume, .rollback,
        .rollback]) := by
  apply (race_charges_iff (firstAndSecond .race).store (fun _ _ => true) oneThenTen 7 {}
    [.count 0, .count 1, .fulfil 1, .timeout, .fulfil 0, .resume, .rollback, .rollback]
    ⟨by decide +kernel, by decide +kernel⟩).mpr
  refine ⟨Or.inl ?_, ?_⟩
  · exact ⟨trivial, trivial, trivial, ⟨1, rfl⟩, trivial, trivial, trivial, trivial, trivial⟩
  · exact ⟨trivial, trivial, trivial, trivial, trivial, trivial, trivial, trivial, trivial⟩

/-- Both layers allow, after the timeout: both stay charged for a request that was blocked. -/
theorem race_timeout_charges :
    (¬ ∀ (c : ComposedStore (StoreBank ℕ) ℕ) (st : ComposedState (StoreBank ℕ) ℕ) (key : ℕ)
      (options : RateLimitIncrementOptions) (evs : List (RaceEvent (StoreBank ℕ) ℕ)),
      (c.raceEvents evs { composed := st, key, options }).Over c.layers.length →
      c.ChargesAtMostWinner (fun _ r => !r.isBlocked)
        (c.raceEvents evs { composed := st, key, options })) ∧
    ∀ j, j < 2 → storeCount 0 7 ((raceOfTwo [.count 0, .count 1, .timeout, .fulfil 0,
      .fulfil 1]).composed.inner.stores j) = 1 := by
  refine ⟨?_, by decide +kernel⟩
  intro h
  have hzero := h (firstAndSecond .race).store oneThenTen 7 {}
    [.count 0, .count 1, .timeout, .fulfil 0, .fulfil 1] ⟨by decide +kernel, by decide +kernel⟩ 0
  revert hzero
  decide +kernel

end RatelimitFlex
