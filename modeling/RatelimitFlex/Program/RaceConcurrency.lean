import RatelimitFlex.Program.ComposedConcurrency

/-!
# One call of mode `race`, moment by moment

`incrementRace` sends its increment to every layer and answers by the first that settles,
once all have.  When the timeout comes first it answers at once, and the layers settle
after that.  A layer's store may count the increment and its promise reject all the same;
`other` is whatever other requests do meanwhile.  `calls` records what the request asked of
which layer.  A race that nothing comes between is `incrementRace`
(`alone_eq_incrementRace`).
-/

set_option autoImplicit false

namespace RatelimitFlex

/-- A call of a layer's store that took place. -/
inductive LayerCall (κ : Type) where
  | increment (key : κ) (options : RateLimitIncrementOptions)
      (answer : Except StoreError RateLimitResult)
  | decrement (key : κ) (options : RateLimitDecrementOptions)

/-- Where the call stands: nothing has settled; a layer has settled first, but not all have;
the layers other than the winner that are still to be rolled back; the answer, of the winner
or because all rejected, or because the timeout came first. -/
inductive RacePhase where
  | waiting
  | decided (first : ℕ)
  | rollingBack (settled : List (Except StoreError RateLimitResult)) (winner : ℕ)
      (result : RateLimitResult) (layers : List ℕ)
  | answered (settled : List (Except StoreError RateLimitResult)) (winner : Option ℕ)
      (result : RateLimitResult)
  | timedOut (result : RateLimitResult)

/-- A race, what the layers' stores have counted for it, which of its increments have
settled, and the layers whose store refused the rollback. -/
structure RaceRun (σ κ : Type) where
  composed : ComposedState σ κ
  key : κ
  options : RateLimitIncrementOptions
  counted : ℕ → Option (Except StoreError RateLimitResult) := fun _ => none
  answers : ℕ → Option (Except StoreError RateLimitResult) := fun _ => none
  phase : RacePhase := .waiting
  calls : List (ℕ × LayerCall κ) := []
  refused : List ℕ := []

/-- What can happen next: a layer's store takes the increment, its promise settles, the
timer fires, `Promise.allSettled` resolves, a rollback is taken or refused. -/
inductive RaceEvent (σ κ : Type) where
  | count (j : ℕ)
  | fulfil (j : ℕ)
  | reject (j : ℕ) (e : StoreError)
  | timeout
  | resume
  | rollback
  | refuse
  | other (f : ComposedState σ κ → ComposedState σ κ)

namespace RaceRun

variable {σ κ : Type}

/-- A promise settles; the first one decides the race. -/
def settle (j : ℕ) (answer : Except StoreError RateLimitResult) (s : RaceRun σ κ) : RaceRun σ κ :=
  { s with
    answers := Function.update s.answers j (some answer)
    phase := match s.phase with
      | .waiting => .decided j
      | phase => phase }

end RaceRun

namespace ComposedStore

variable {σ κ : Type} [DecidableEq κ] (c : ComposedStore σ κ)

/-- SOURCE: src/composition/ComposedStore.ts:702-725 -/
def raceTimedOut (now : ℤ) : RateLimitResult where
  totalHits := 0
  remaining := 0
  resetTime := now
  isBlocked := true
  mode := some "race"
  decidingLayer := some "timeout"
  layers := some (c.layers.map fun l => (l.label, emptyRow now true (some "pending")))

/-- SOURCE: src/composition/ComposedStore.ts:756-769 -/
def raceRejected (now : ℤ) (settled : List (Except StoreError RateLimitResult)) :
    RateLimitResult where
  totalHits := 0
  remaining := 0
  resetTime := now
  isBlocked := true
  storeUnavailable := true
  mode := some "race"
  decidingLayer := some c.primary.label
  layers := some (c.rows now settled)

/-- SOURCE: src/composition/ComposedStore.ts:791-797 -/
def raceWon (now : ℤ) (settled : List (Except StoreError RateLimitResult)) (winner : ℕ)
    (r : RateLimitResult) : RateLimitResult :=
  { r with
    mode := some "race"
    decidingLayer :=
      some ((c.layers[winner]?.map CompositionLayer.label).getD c.primary.label)
    layers := some (c.rows now settled) }

/-- One moment of the race; what is not possible does nothing.
SOURCE: src/composition/ComposedStore.ts:307-321, 664-799 -/
def raceEvent (ev : RaceEvent σ κ) (s : RaceRun σ κ) : RaceRun σ κ :=
  match ev with
  | .count j =>
    match s.counted j, c.layers[j]? with
    | none, some layer =>
      let options := mergeIncOpts layer s.options
      let r := layer.store.increment (layer.layerKey s.key) options s.composed.inner
      { s with
        composed := { s.composed with inner := r.2 }
        counted := Function.update s.counted j (some r.1)
        calls := s.calls ++ [(j, .increment (layer.layerKey s.key) options r.1)] }
    | _, _ => s
  | .fulfil j =>
    match s.answers j, s.counted j with
    | none, some answer => s.settle j answer
    | _, _ => s
  | .reject j e =>
    match s.answers j, c.layers[j]? with
    | none, some _ => s.settle j (.error e)
    | _, _ => s
  | .timeout =>
    match s.phase with
    | .waiting => { s with phase := .timedOut (c.raceTimedOut (c.clock s.composed.inner)) }
    | _ => s
  | .resume =>
    match s.phase, gather s.answers c.layers.length with
    | .decided first, some settled =>
      let now := c.clock s.composed.inner
      match raceWinner settled first with
      | some (winner, r) =>
        { s with
          phase := .rollingBack settled winner (c.raceWon now settled winner r)
            ((allowedLayers settled).filter fun j => decide (j ≠ winner)) }
      | none => { s with phase := .answered settled none (c.raceRejected now settled) }
    | _, _ => s
  | .rollback =>
    match s.phase with
    | .rollingBack settled winner result [] =>
      { s with
        composed := pushFrame s.key [winner] s.composed
        phase := .answered settled (some winner) result }
    | .rollingBack settled winner result (j :: rest) =>
      match c.layers[j]? with
      | some layer =>
        let dec := { matchingDecrementOptions (mergeIncOpts layer s.options) with
          removeNewest := true }
        { s with
          composed := { s.composed with
            inner := layer.store.decrement (layer.layerKey s.key) dec s.composed.inner }
          phase := .rollingBack settled winner result rest
          calls := s.calls ++ [(j, .decrement (layer.layerKey s.key) dec)] }
      | none => s
    | _ => s
  | .refuse =>
    match s.phase with
    | .rollingBack settled winner result (j :: rest) =>
      { s with
        phase := .rollingBack settled winner result rest
        refused := s.refused ++ [j] }
    | _ => s
  | .other f => { s with composed := f s.composed }

/-- The moments of a race, one after the other. -/
def raceEvents (evs : List (RaceEvent σ κ)) (s : RaceRun σ κ) : RaceRun σ κ :=
  evs.foldl (fun s ev => c.raceEvent ev s) s

/-- The events of two stretches. -/
theorem raceEvents_append (evs evs' : List (RaceEvent σ κ)) (s : RaceRun σ κ) :
    c.raceEvents (evs ++ evs') s = c.raceEvents evs' (c.raceEvents evs s) :=
  List.foldl_append

/-! ## A race that nothing comes between -/

variable {c} {key : κ} {options : RateLimitIncrementOptions}

/-- Counting the layers that are left, in order, is their `incrementLayers`. -/
theorem raceEvents_count {pre rest : List (CompositionLayer σ κ)}
    (hlayers : c.layers = pre ++ rest) (s : RaceRun σ κ)
    {front : List (Except StoreError RateLimitResult)}
    (hfront : gather s.counted pre.length = some front)
    (hnone : ∀ j, pre.length ≤ j → s.counted j = none) :
    ∃ counted calls, gather counted c.layers.length =
        some (front ++ (incrementLayers s.key s.options rest s.composed.inner).1) ∧
      c.raceEvents ((List.range' pre.length rest.length).map RaceEvent.count) s =
        { s with
          composed := { s.composed with
            inner := (incrementLayers s.key s.options rest s.composed.inner).2 }
          counted, calls } := by
  induction rest generalizing pre s front with
  | nil =>
    refine ⟨s.counted, s.calls, ?_, rfl⟩
    simpa [hlayers, incrementLayers] using hfront
  | cons layer rest ih =>
    have hlayer : c.layers[pre.length]? = some layer := by simp [hlayers]
    set r := layer.store.increment (layer.layerKey s.key) (mergeIncOpts layer s.options)
      s.composed.inner
    set s' := c.raceEvent (.count pre.length) s with hs'
    have hstep : s' = { s with
        composed := { s.composed with inner := r.2 }
        counted := Function.update s.counted pre.length (some r.1)
        calls := s.calls ++ [(pre.length, .increment (layer.layerKey s.key)
          (mergeIncOpts layer s.options) r.1)] } := by
      simp only [hs', raceEvent, hnone _ le_rfl, hlayer]
      rfl
    have hgather : gather s'.counted (pre ++ [layer]).length = some (front ++ [r.1]) := by
      have hsame : gather (Function.update s.counted pre.length (some r.1)) pre.length =
          gather s.counted pre.length :=
        gather_congr fun j hj => Function.update_of_ne (by omega) _ _
      rw [hstep, List.length_append, List.length_singleton, gather, hsame, hfront]
      simp
    obtain ⟨counted, calls, hall, hrun⟩ := @ih (pre ++ [layer]) (by simp [hlayers]) s' (front ++ [r.1]) hgather
      (by
        intro j hj
        rw [List.length_append, List.length_singleton] at hj
        rw [hstep]
        exact (Function.update_of_ne (by omega) _ _).trans (hnone j (by omega)))
    refine ⟨counted, calls, ?_, ?_⟩
    · rw [hall, hstep, List.append_assoc]
      rfl
    · rw [List.length_cons, List.range'_succ, List.map_cons, raceEvents, List.foldl_cons]
      rw [List.length_append, List.length_singleton] at hrun
      refine hrun.trans ?_
      rw [hstep]
      rfl

/-- The promises of counted layers settle, when the race is decided. -/
theorem raceEvents_fulfil (js : List ℕ) (s : RaceRun σ κ) {first : ℕ}
    (hphase : s.phase = .decided first) :
    c.raceEvents (js.map RaceEvent.fulfil) s =
      { s with answers := fun j => if j ∈ js then (s.answers j).or (s.counted j)
        else s.answers j } := by
  induction js generalizing s with
  | nil => simp [raceEvents]
  | cons j js ih =>
    have hstep : c.raceEvent (.fulfil j) s =
        { s with answers := Function.update s.answers j ((s.answers j).or (s.counted j)) } := by
      by_cases hsettles : s.answers j = none ∧ (s.counted j).isSome = true
      · obtain ⟨hans, hcounted⟩ := hsettles
        obtain ⟨answer, hcount⟩ := Option.isSome_iff_exists.mp hcounted
        simp only [raceEvent, hans, hcount, RaceRun.settle, hphase, Option.none_or]
      · have hsame : (s.answers j).or (s.counted j) = s.answers j := by
          cases hans : s.answers j with
          | some answer => rfl
          | none =>
            cases hcount : s.counted j with
            | none => rfl
            | some answer => exact absurd ⟨hans, by rw [hcount]; rfl⟩ hsettles
        rw [hsame, Function.update_eq_self]
        simp only [raceEvent]
        split
        · next answer hans hcount => exact absurd ⟨hans, by rw [hcount]; rfl⟩ hsettles
        · rfl
    rw [List.map_cons, raceEvents, List.foldl_cons, hstep]
    refine (ih { s with
      answers := Function.update s.answers j ((s.answers j).or (s.counted j)) } hphase).trans ?_
    congr 1
    funext k
    by_cases hk : k = j
    · subst hk
      simp
      cases s.answers k <;> simp
    · simp [hk]

/-- Rolling back the marked layers that are left, in order, is `rollbackAllowed`. -/
theorem raceEvents_rollback {settled marks : List (Except StoreError RateLimitResult)} {w : ℕ}
    {result : RateLimitResult} {pre rest : List (CompositionLayer σ κ)}
    (hlayers : c.layers = pre ++ rest) (hlen : marks.length = c.layers.length)
    (s : RaceRun σ κ)
    (hphase : s.phase = .rollingBack settled w result
      ((List.range' pre.length rest.length).filter fun j => marks[j]?.any allows)) :
    ∃ n calls, c.raceEvents (List.replicate n .rollback) s =
      { s with
        composed := pushFrame s.key [w] { s.composed with
          inner := rollbackAllowed s.key s.options (rest.zip (marks.drop pre.length))
            s.composed.inner }
        phase := .answered settled (some w) result
        calls } := by
  induction rest generalizing pre s with
  | nil =>
    refine ⟨1, s.calls, ?_⟩
    simp [raceEvents, raceEvent, hphase, rollbackAllowed]
  | cons layer rest ih =>
    have hlayer : c.layers[pre.length]? = some layer := by simp [hlayers]
    have hj : pre.length < marks.length := by simp [hlen, hlayers]
    have hih := @ih (pre ++ [layer]) (by simp [hlayers])
    rw [List.length_append, List.length_singleton] at hih
    rw [List.length_cons, List.range'_succ] at hphase
    rw [List.drop_eq_getElem_cons hj, List.zip_cons_cons, rollbackAllowed]
    cases hallow : allows marks[pre.length] with
    | false =>
      rw [List.filter_cons_of_neg (by simp [List.getElem?_eq_getElem hj, hallow])] at hphase
      simp only [Bool.false_eq_true, if_false]
      exact hih s hphase
    | true =>
      rw [List.filter_cons_of_pos (by simp [List.getElem?_eq_getElem hj, hallow])] at hphase
      rw [if_pos rfl]
      obtain ⟨n, calls, hn⟩ := hih (c.raceEvent .rollback s) (by
        simp only [raceEvent, hphase, hlayer])
      refine ⟨n + 1, calls, ?_⟩
      rw [List.replicate_succ, raceEvents, List.foldl_cons]
      refine hn.trans ?_
      simp only [raceEvent, hphase, hlayer]
      rfl

/-- A race that the winner itself decides is won as one that a rejection decides. -/
theorem raceWinner_winner {settled : List (Except StoreError RateLimitResult)} (first : ℕ) :
    raceWinner settled (((raceWinner settled first).map Prod.fst).getD 0) =
      raceWinner settled first := by
  cases hwinner : raceWinner settled first with
  | none =>
    by_contra hne
    obtain ⟨p, hp⟩ := Option.ne_none_iff_exists'.mp hne
    exact raceWinner_eq_none hwinner (raceWinner_eq_some hp)
  | some p =>
    simp only [Option.map_some, Option.getD_some]
    unfold raceWinner
    rw [raceWinner_eq_some hwinner]

omit [DecidableEq κ] in
/-- Rolling back all layers but the winner, as the winner had not answered. -/
theorem rollbackAllowed_eraseIdx (layers : List (CompositionLayer σ κ))
    (settled : List (Except StoreError RateLimitResult)) (w : ℕ) (e : StoreError) (s : σ) :
    rollbackAllowed key options ((layers.zip settled).eraseIdx w) s =
      rollbackAllowed key options (layers.zip (settled.set w (.error e))) s := by
  induction layers generalizing settled w s with
  | nil => simp
  | cons layer layers ih =>
    cases settled with
    | nil => simp
    | cons r settled =>
      cases w with
      | zero => simp [rollbackAllowed, allows]
      | succ w =>
        simp only [List.zip_cons_cons, List.eraseIdx_cons_succ, List.set_cons_succ,
          rollbackAllowed, ih]

/-- The allowed layers but the winner are those of the answers without it. -/
theorem filter_allowedLayers (settled : List (Except StoreError RateLimitResult)) (w : ℕ)
    (e : StoreError) :
    ((allowedLayers settled).filter fun j => decide (j ≠ w)) =
      (List.range settled.length).filter fun j => (settled.set w (.error e))[j]?.any allows := by
  rw [allowedLayers, List.filter_filter]
  refine List.filter_congr fun j hj => ?_
  by_cases hw : j = w
  · subst hw
    rw [List.getElem?_set_self (List.mem_range.mp hj)]
    simp [allows]
  · rw [List.getElem?_set_ne (Ne.symm hw)]
    simp [hw]

end ComposedStore

/-- The answer to the caller, when there is one. -/
def RacePhase.result? : RacePhase → Option RateLimitResult
  | .answered _ _ result => some result
  | .timedOut result => some result
  | _ => none

namespace ComposedStore

variable {σ κ : Type} [DecidableEq κ] {c : ComposedStore σ κ} {key : κ}
  {options : RateLimitIncrementOptions}

/-- A race whose moments nothing comes between is `incrementRace`. -/
theorem alone_eq_incrementRace (st : ComposedState σ κ) :
    ∃ evs, (c.raceEvents evs { composed := st, key, options }).composed =
        (c.incrementRace key options st).2 ∧
      (c.raceEvents evs { composed := st, key, options }).phase.result? =
        some (c.incrementRace key options st).1 := by
  obtain ⟨counted, calls, hgather, hcount⟩ := @raceEvents_count _ _ _ c [] c.layers rfl
    { composed := st, key, options } [] rfl fun _ _ => rfl
  rw [List.nil_append] at hgather
  set settled := (incrementLayers key options c.layers st.inner).1 with hsettled
  set inner := (incrementLayers key options c.layers st.inner).2 with hinner
  set evs : List (RaceEvent σ κ) := (List.range' 0 c.layers.length).map RaceEvent.count
  set s₁ : RaceRun σ κ :=
    { composed := { st with inner }, key, options, counted, calls } with hs₁
  replace hcount : c.raceEvents evs { composed := st, key, options } = s₁ := hcount
  have hlen := length_gather hgather
  cases hf : c.settledFirst st.inner with
  | none =>
    refine ⟨evs ++ [.timeout], ?_⟩
    rw [raceEvents_append, hcount]
    simp only [raceEvents, List.foldl_cons, List.foldl_nil, raceEvent, hs₁, incrementRace, hf,
      ← hinner]
    exact ⟨trivial, rfl⟩
  | some first =>
    set j₀ := ((raceWinner settled first).map Prod.fst).getD 0 with hj₀
    have hlt : j₀ < c.layers.length := by
      rw [hj₀]
      cases hwinner : raceWinner settled first with
      | none => exact List.length_pos_iff.mpr c.layers_ne
      | some p =>
        rw [← hlen]
        exact (List.getElem?_eq_some_iff.mp (raceWinner_eq_some hwinner)).1
    -- the layer that decides settles first, and then all the others
    have hcounted : counted j₀ = some settled[j₀] := by
      rw [← getElem?_gather hgather hlt]
      exact List.getElem?_eq_getElem (by omega)
    set s₂ : RaceRun σ κ :=
      { s₁ with
        answers := Function.update (fun _ => none) j₀ (counted j₀)
        phase := .decided j₀ } with hs₂
    have hfirst : c.raceEvents [.fulfil j₀] s₁ = s₂ := by
      simp only [raceEvents, List.foldl_cons, List.foldl_nil, raceEvent, hs₁, hcounted,
        RaceRun.settle, hs₂]
    have hothers := @raceEvents_fulfil _ _ _ c (List.range c.layers.length) s₂ j₀ rfl
    set s₃ := c.raceEvents ((List.range c.layers.length).map RaceEvent.fulfil) s₂
    have hall : gather s₃.answers c.layers.length = some settled := by
      rw [← hgather, hothers]
      refine gather_congr fun j hj => ?_
      simp only [List.mem_range, hj, if_true, hs₂]
      by_cases hjj : j = j₀
      · subst hjj
        rw [Function.update_self, Option.or_self]
      · rw [Function.update_of_ne hjj, Option.none_or]
    have hphase : s₃.phase = .decided j₀ := by rw [hothers]
    have hcomposed : s₃.composed = { st with inner } := by rw [hothers]
    have hdecided := @raceWinner_winner settled first
    rw [← hj₀] at hdecided
    suffices hrest : ∃ evs', (c.raceEvents evs' s₃).composed =
          (c.incrementRace key options st).2 ∧
        (c.raceEvents evs' s₃).phase.result? = some (c.incrementRace key options st).1 by
      obtain ⟨evs', hevs⟩ := hrest
      refine ⟨evs ++ ([.fulfil j₀] ++ ((List.range c.layers.length).map RaceEvent.fulfil ++ evs')),
        ?_⟩
      rw [raceEvents_append, hcount, raceEvents_append, hfirst, raceEvents_append]
      exact hevs
    cases hwinner : raceWinner settled first with
    | none =>
      refine ⟨[.resume], ?_⟩
      simp only [raceEvents, List.foldl_cons, List.foldl_nil, raceEvent, hphase, hall, hdecided,
        hwinner, hcomposed, incrementRace, hf, ← hsettled, ← hinner]
      exact ⟨trivial, rfl⟩
    | some p =>
      obtain ⟨w, r⟩ := p
      have hresume : c.raceEvents [.resume] s₃ = { s₃ with
          phase := .rollingBack settled w (c.raceWon (c.clock inner) settled w r)
            ((allowedLayers settled).filter fun j => decide (j ≠ w)) } := by
        simp only [raceEvents, List.foldl_cons, List.foldl_nil, raceEvent, hphase, hall, hdecided,
          hwinner, hcomposed]
      have hmarks := filter_allowedLayers settled w ⟨""⟩
      rw [hlen, List.range_eq_range'] at hmarks
      obtain ⟨n, calls', hroll⟩ := @raceEvents_rollback _ _ _ c settled
        (settled.set w (.error ⟨""⟩)) w _ [] c.layers rfl (by rw [List.length_set, hlen])
        (c.raceEvents [.resume] s₃) (by rw [hresume, hmarks]; rfl)
      refine ⟨[.resume] ++ List.replicate n .rollback, ?_⟩
      rw [raceEvents_append, hroll, hresume]
      simp only [incrementRace, hf, ← hsettled, ← hinner, hwinner, hcomposed]
      rw [rollbackAllowed_eraseIdx _ _ _ ⟨""⟩]
      exact ⟨by rw [hothers]; rfl, rfl⟩

end ComposedStore

end RatelimitFlex
