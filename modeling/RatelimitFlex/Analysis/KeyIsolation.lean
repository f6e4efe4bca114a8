import RatelimitFlex.Analysis.PenaltyBox
import RatelimitFlex.Analysis.StoreCells
import RatelimitFlex.Analysis.KeyOrder
import RatelimitFlex.Program.StoreBank

/-!
# A key is answered for its own requests alone

The engine keeps two maps over all keys and sweeps them now and then, and its stores hold all
keys in one table.  Two engines look alike to a key (`AlikeFor`) when they have the same
penalty running for it and the same violations in its window, from now on.  A store keeps the
keys apart (`Isolated`) when its operations on a key are answered alike by states related for
that key, and those on another key change nothing there; `SameCells` is that relation for a
bank of `MemoryStore`s with room for the keys in play.  So a key's requests are answered as if
the others never came (`answers_of_key_alone`).
-/

set_option autoImplicit false

namespace RatelimitFlex

open Library

variable {ρ σ κ : Type}

/-! ## Stores that keep the keys apart -/

/-- Operations on `k` are answered alike by related states and keep them related, operations on
another key of `P` change nothing that relates to `k`.  `R` relates the states between requests,
`Q` those within one, where the surroundings are the same too. -/
structure Isolated (k : κ) (P : κ → Prop) (R Q : σ → σ → Prop) (st : RateLimitStore σ κ) :
    Prop where
  increment : ∀ options s s', Q s s' →
    (st.increment k options s).1 = (st.increment k options s').1 ∧
      Q (st.increment k options s).2 (st.increment k options s').2
  decrement : ∀ options s s', Q s s' → Q (st.decrement k options s) (st.decrement k options s')
  rollback : ∀ f ∈ st.rollbackDraftForBlockedIncrement, ∀ result options s s', Q s s' →
    (f k result options s).1 = (f k result options s').1 ∧
      Q (f k result options s).2 (f k result options s').2
  incrementOther : ∀ key, P key → key ≠ k →
    ∀ options s s', R s s' → R s (st.increment key options s').2
  decrementOther : ∀ key, P key → key ≠ k →
    ∀ options s s', R s s' → R s (st.decrement key options s')
  rollbackOther : ∀ f ∈ st.rollbackDraftForBlockedIncrement, ∀ key, P key →
    key ≠ k → ∀ result options s s', R s s' → R s (f key result options s').2

/-- A request takes no time. -/
structure SteadyClock (clock : σ → ℤ) (st : RateLimitStore σ κ) : Prop where
  increment : ∀ key options s, clock (st.increment key options s).2 = clock s
  decrement : ∀ key options s, clock (st.decrement key options s) = clock s

/-- The same of everything an engine without a key manager is given. -/
structure IsolatedOptions (o : RateLimitOptions ρ σ κ) (k : κ) (P : κ → Prop)
    (R Q : σ → σ → Prop) : Prop where
  clock : ∀ s s', Q s s' → o.clock s = o.clock s'
  store : Isolated k P R Q o.store
  slots : ∀ g ∈ o.groupedWindowStores, Isolated k P R Q g.store
  steady : ∀ key options s, o.clock (o.store.increment key options s).2 = o.clock s
  steadySlots : ∀ g ∈ o.groupedWindowStores, SteadyClock o.clock g.store
  unmanaged : o.keyManager = none

section Slots

variable {k key : κ} {P : κ → Prop} {R Q : σ → σ → Prop} {s s' : σ}

/-- A rollback of the key's own increments. -/
theorem Isolated.rollbackSlots {slots : List (WindowSlot σ κ)}
    (h : ∀ g ∈ slots, Isolated k P R Q g.store) (dec : RateLimitDecrementOptions) (hs : Q s s') :
    Q (rollbackSlots k dec slots s) (RatelimitFlex.rollbackSlots k dec slots s') := by
  induction slots generalizing s s' with
  | nil => exact hs
  | cons g rest ih =>
    exact ih (fun g' hg' => h g' (List.mem_cons_of_mem g hg'))
      ((h g List.mem_cons_self).decrement dec s s' hs)

/-- Taking back the hits of another key leaves the state of this one. -/
theorem Isolated.rollbackSlotsOther {slots : List (WindowSlot σ κ)}
    (h : ∀ g ∈ slots, Isolated k P R Q g.store) (hkey : P key) (hne : key ≠ k)
    (dec : RateLimitDecrementOptions) (hs : R s s') :
    R s (RatelimitFlex.rollbackSlots key dec slots s') := by
  induction slots generalizing s' with
  | nil => exact hs
  | cons g rest ih =>
    exact ih (fun g' hg' => h g' (List.mem_cons_of_mem g hg'))
      ((h g List.mem_cons_self).decrementOther key hkey hne dec s s' hs)

/-- The first slots of isolated ones are isolated. -/
theorem isolated_take {slots : List (WindowSlot σ κ)} (h : ∀ g ∈ slots, Isolated k P R Q g.store)
    (n : ℕ) : ∀ g ∈ slots.take n, Isolated k P R Q g.store :=
  fun g hg => h g (List.mem_of_mem_take hg)

variable {clock : σ → ℤ} {grouped : List (WindowSlot σ κ)} {draft : Bool}
  {incOpts : RateLimitIncrementOptions}

/-- The slot loop, slot by slot. -/
theorem Isolated.groupedWindowsLoop (hclock : ∀ s s', Q s s' → clock s = clock s')
    (h : ∀ g ∈ grouped, Isolated k P R Q g.store) {rest : List (WindowSlot σ κ)}
    (hrest : ∀ g ∈ rest, Isolated k P R Q g.store) (done : List RateLimitResult) (hs : Q s s') :
    let r := RatelimitFlex.groupedWindowsLoop clock k grouped draft incOpts rest done s
    let r' := RatelimitFlex.groupedWindowsLoop clock k grouped draft incOpts rest done s'
    r.1 = r'.1 ∧ Q r.2 r'.2 := by
  induction rest generalizing done s s' with
  | nil =>
    refine ⟨?_, hs⟩
    simp only [RatelimitFlex.groupedWindowsLoop, hclock s s' hs]
  | cons g rest ih =>
    obtain ⟨hout, hafter⟩ := (hrest g List.mem_cons_self).increment
      { maxRequests := some (JsNumber.ofInt g.maxRequests), cost := incOpts.cost } s s' hs
    have hback := Isolated.rollbackSlots (isolated_take h done.length)
      (matchingDecrementOptions incOpts) hafter
    dsimp only
    rw [RatelimitFlex.groupedWindowsLoop, RatelimitFlex.groupedWindowsLoop]
    dsimp only at hout hafter ⊢
    revert hout hafter hback
    generalize g.store.increment k _ s = r
    generalize g.store.increment k _ s' = r'
    obtain ⟨a, s₁⟩ := r
    obtain ⟨a', s₁'⟩ := r'
    intro hout hafter hback
    obtain rfl : a = a' := hout
    cases a with
    | error e => exact ⟨rfl, hback⟩
    | ok r =>
      dsimp only
      split
      · split
        · exact ⟨by rw [hclock _ _ hafter], hafter⟩
        · exact ⟨by rw [hclock _ _ hback], hback⟩
      · exact ih (fun g' hg' => hrest g' (List.mem_cons_of_mem g hg')) _ hafter

/-- The windows of another key leave the state of this one. -/
theorem Isolated.groupedWindowsLoopOther (h : ∀ g ∈ grouped, Isolated k P R Q g.store)
    {rest : List (WindowSlot σ κ)} (hrest : ∀ g ∈ rest, Isolated k P R Q g.store) (hkey : P key)
    (hne : key ≠ k) (done : List RateLimitResult) (hs : R s s') :
    R s (RatelimitFlex.groupedWindowsLoop clock key grouped draft incOpts rest done s').2 := by
  induction rest generalizing done s' with
  | nil => exact hs
  | cons g rest ih =>
    have hafter := (hrest g List.mem_cons_self).incrementOther key hkey hne
      { maxRequests := some (JsNumber.ofInt g.maxRequests), cost := incOpts.cost } s s' hs
    have hback := Isolated.rollbackSlotsOther (isolated_take h done.length) hkey hne
      (matchingDecrementOptions incOpts) hafter
    rw [RatelimitFlex.groupedWindowsLoop]
    dsimp only at hafter ⊢
    revert hafter hback
    generalize g.store.increment key _ s' = r'
    obtain ⟨a, s₁⟩ := r'
    intro hafter hback
    cases a with
    | error e => exact hback
    | ok r =>
      dsimp only
      split
      · split
        · exact hafter
        · exact hback
      · exact ih (fun g' hg' => hrest g' (List.mem_cons_of_mem g hg')) _ hafter

/-- Taking hits back does not move the clock. -/
theorem SteadyClock.rollbackSlots {slots : List (WindowSlot σ κ)}
    (h : ∀ g ∈ slots, SteadyClock clock g.store) (dec : RateLimitDecrementOptions) (s : σ) :
    clock (rollbackSlots key dec slots s) = clock s := by
  induction slots generalizing s with
  | nil => rfl
  | cons g rest ih =>
    exact (ih (fun g' hg' => h g' (List.mem_cons_of_mem g hg')) _).trans
      ((h g List.mem_cons_self).decrement key dec s)

/-- Nor do the windows of a group. -/
theorem SteadyClock.groupedWindowsLoop (h : ∀ g ∈ grouped, SteadyClock clock g.store)
    {rest : List (WindowSlot σ κ)} (hrest : ∀ g ∈ rest, SteadyClock clock g.store)
    (done : List RateLimitResult) (s : σ) :
    clock (groupedWindowsLoop clock key grouped draft incOpts rest done s).2 = clock s := by
  induction rest generalizing done s with
  | nil => rfl
  | cons g rest ih =>
    have hafter := (hrest g List.mem_cons_self).increment key
      { maxRequests := some (JsNumber.ofInt g.maxRequests), cost := incOpts.cost } s
    have hback : ∀ s, clock (RatelimitFlex.rollbackSlots key (matchingDecrementOptions incOpts)
        (grouped.take done.length) s) = clock s :=
      SteadyClock.rollbackSlots (fun g hg => h g (List.mem_of_mem_take hg)) _
    rw [RatelimitFlex.groupedWindowsLoop]
    dsimp only at hafter ⊢
    revert hafter
    generalize g.store.increment key _ s = r
    obtain ⟨a, s₁⟩ := r
    intro hafter
    cases a with
    | error e => exact (hback s₁).trans hafter
    | ok r =>
      dsimp only
      split
      · split
        · exact hafter
        · exact (hback s₁).trans hafter
      · exact (ih (fun g' hg' => hrest g' (List.mem_cons_of_mem g hg')) _ s₁).trans hafter

end Slots

section Increments

variable {o : RateLimitOptions ρ σ κ} {k key : κ} {P : κ → Prop} {R Q : σ → σ → Prop}

namespace IsolatedOptions

variable (h : IsolatedOptions o k P R Q)
include h

/-- The increments of a request of the key. -/
theorem incrementStores (incOpts : RateLimitIncrementOptions) {s s' : σ} (hs : Q s s') :
    (incrementStores o k incOpts s).1 = (RatelimitFlex.incrementStores o k incOpts s').1 ∧
      Q (RatelimitFlex.incrementStores o k incOpts s).2
        (RatelimitFlex.incrementStores o k incOpts s').2 := by
  unfold RatelimitFlex.incrementStores
  split
  · exact Isolated.groupedWindowsLoop h.clock h.slots h.slots [] hs
  · have hinc := h.store.increment incOpts s s' hs
    revert hinc
    generalize o.store.increment k incOpts s = r
    generalize o.store.increment k incOpts s' = r'
    obtain ⟨a, s₁⟩ := r
    obtain ⟨a', s₁'⟩ := r'
    rintro ⟨hout, hafter⟩
    obtain rfl : a = a' := hout
    cases a with
    | error e => exact ⟨rfl, hafter⟩
    | ok r => exact ⟨rfl, hafter⟩

/-- Increments of another key leave the state of this one. -/
theorem incrementStoresOther (hkey : P key) (hne : key ≠ k)
    (incOpts : RateLimitIncrementOptions) {s s' : σ} (hs : R s s') :
    R s (RatelimitFlex.incrementStores o key incOpts s').2 := by
  unfold RatelimitFlex.incrementStores
  split
  · exact Isolated.groupedWindowsLoopOther h.slots h.slots hkey hne [] hs
  · have hafter := h.store.incrementOther key hkey hne incOpts s s' hs
    revert hafter
    generalize o.store.increment key incOpts s' = r'
    obtain ⟨a, s₁⟩ := r'
    intro hafter
    cases a with
    | error e => exact hafter
    | ok r => exact hafter

/-- They do not move the clock. -/
theorem clock_incrementStores (key : κ) (incOpts : RateLimitIncrementOptions) (s : σ) :
    o.clock (RatelimitFlex.incrementStores o key incOpts s).2 = o.clock s := by
  unfold RatelimitFlex.incrementStores
  split
  · exact SteadyClock.groupedWindowsLoop h.steadySlots h.steadySlots [] s
  · have hafter := h.steady key incOpts s
    revert hafter
    generalize o.store.increment key incOpts s = r
    obtain ⟨a, s₁⟩ := r
    intro hafter
    cases a with
    | error e => exact hafter
    | ok r => exact hafter

/-- The rollback of a blocked increment in draft mode. -/
theorem rollbackDraft (dec : RateLimitDecrementOptions) (g : IncrementOutcome) {s s' : σ}
    (hs : Q s s') :
    (rollbackDraft o k dec g s).1 = (RatelimitFlex.rollbackDraft o k dec g s').1 ∧
      Q (RatelimitFlex.rollbackDraft o k dec g s).2
        (RatelimitFlex.rollbackDraft o k dec g s').2 := by
  unfold RatelimitFlex.rollbackDraft
  split
  · cases g.blockedAtIndex with
    | none => exact ⟨rfl, hs⟩
    | some i => exact ⟨rfl, Isolated.rollbackSlots (isolated_take h.slots (i + 1)) dec hs⟩
  · split
    · next f hf => exact h.store.rollback f hf g.result dec s s' hs
    · exact ⟨rfl, h.store.decrement dec s s' hs⟩

/-- Taking back the draft of another key leaves the state of this one. -/
theorem rollbackDraftOther (hkey : P key) (hne : key ≠ k) (dec : RateLimitDecrementOptions)
    (g : IncrementOutcome) {s s' : σ} (hs : R s s') :
    R s (RatelimitFlex.rollbackDraft o key dec g s').2 := by
  unfold RatelimitFlex.rollbackDraft
  split
  · cases g.blockedAtIndex with
    | none => exact hs
    | some i => exact Isolated.rollbackSlotsOther (isolated_take h.slots (i + 1)) hkey hne dec hs
  · split
    · next f hf => exact h.store.rollbackOther f hf key hkey hne g.result dec s s' hs
    · exact h.store.decrementOther key hkey hne dec s s' hs

end IsolatedOptions

end Increments

variable [DecidableEq κ]

/-! ## The maps of the engine -/

/-- The penalty of a key that still runs at `t`. -/
def runningPenalty (k : κ) (t : ℤ) (e : EngineState κ) : Option ℤ :=
  (e.penaltyUntil.lookup k).filter fun u => decide (t < u)

/-- From `now` on the two engines hold the same penalty and the same violations of `k`. -/
structure AlikeFor (box : Option PenaltyBoxOptions) (k : κ) (now : ℤ) (e e' : EngineState κ) :
    Prop where
  penalty : ∀ t, now ≤ t → runningPenalty k t e = runningPenalty k t e'
  violations : ∀ cfg ∈ box, ∀ t, now ≤ t →
    stillInWindow cfg.terms.windowMs t ((e.violationTimestamps.lookup k).getD []) =
      stillInWindow cfg.terms.windowMs t ((e'.violationTimestamps.lookup k).getD [])

namespace AlikeFor

variable {box : Option PenaltyBoxOptions} {k : κ} {now : ℤ} {e e' e'' : EngineState κ}

/-- An engine is like itself. -/
theorem refl (box : Option PenaltyBoxOptions) (k : κ) (now : ℤ) (e : EngineState κ) :
    AlikeFor box k now e e :=
  ⟨fun _ _ => rfl, fun _ _ _ _ => rfl⟩

/-- The relation goes both ways. -/
theorem symm (h : AlikeFor box k now e e') : AlikeFor box k now e' e :=
  ⟨fun t ht => (h.penalty t ht).symm, fun cfg hcfg t ht => (h.violations cfg hcfg t ht).symm⟩

/-- Engines like a third are like each other. -/
theorem trans (h : AlikeFor box k now e e') (h' : AlikeFor box k now e' e'') :
    AlikeFor box k now e e'' :=
  ⟨fun t ht => (h.penalty t ht).trans (h'.penalty t ht),
    fun cfg hcfg t ht => (h.violations cfg hcfg t ht).trans (h'.violations cfg hcfg t ht)⟩

/-- What is alike now is so later. -/
theorem mono (h : AlikeFor box k now e e') {now' : ℤ} (ht : now ≤ now') :
    AlikeFor box k now' e e' :=
  ⟨fun t htime => h.penalty t (ht.trans htime),
    fun cfg hcfg t htime => h.violations cfg hcfg t (ht.trans htime)⟩

/-- Penalties that have run out leave their map. -/
theorem dropped (hlookup : e'.penaltyUntil.lookup k = e.penaltyUntil.lookup k ∨
      e'.penaltyUntil.lookup k = none ∧ ∀ u, e.penaltyUntil.lookup k = some u → u ≤ now)
    (hstamps : e'.violationTimestamps = e.violationTimestamps) : AlikeFor box k now e e' := by
  refine ⟨fun t ht => ?_, fun cfg _ t _ => by rw [hstamps]⟩
  unfold runningPenalty
  rcases hlookup with hsame | ⟨hnone, hout⟩
  · rw [hsame]
  · rw [hnone]
    cases hu : e.penaltyUntil.lookup k with
    | none => rfl
    | some u =>
      have hle := hout u hu
      exact Option.filter_eq_none_iff.mpr fun v hv => by
        obtain rfl := Option.some.inj hv
        simp only [decide_eq_true_eq]
        omega

end AlikeFor

section Maps

variable (box : Option PenaltyBoxOptions) (k : κ) (now : ℤ) (e : EngineState κ)

/-- The sweep of the penalties. -/
theorem alikeFor_sweep : AlikeFor box k now e (maybeSweepExpiredPenaltyEntries now e) := by
  unfold maybeSweepExpiredPenaltyEntries
  split
  · exact .refl box k now e
  · dsimp only
    split
    · refine .dropped ?_ rfl
      rw [InsertionMap.lookup_filterMapValues]
      cases e.penaltyUntil.lookup k with
      | none => exact .inl rfl
      | some u =>
        by_cases hu : u ≤ now
        · refine .inr ⟨by simp [hu], fun u' hu' => ?_⟩
          obtain rfl := Option.some.inj hu'
          exact hu
        · exact .inl (by simp [hu])
    · exact .dropped (.inl rfl) rfl

/-- The penalty check, for any key. -/
theorem alikeFor_check (key : κ) : AlikeFor box k now e (isPenaltyActive now key e).2 := by
  unfold isPenaltyActive
  cases hk : e.penaltyUntil.lookup key with
  | none => exact .refl box k now e
  | some u =>
    dsimp only
    split
    · next hu =>
      refine .dropped ?_ rfl
      rw [InsertionMap.lookup_erase']
      by_cases hkey : k = key
      · subst hkey
        refine .inr ⟨if_pos rfl, fun u' hu' => ?_⟩
        rw [hk] at hu'
        obtain rfl := Option.some.inj hu'
        exact hu
      · exact .inl (if_neg hkey)
    · exact .refl box k now e

/-- What the check answers, and what a blocked request then reads. -/
theorem isPenaltyActive_eq (key : κ) :
    (isPenaltyActive now key e).1 = (runningPenalty key now e).isSome ∧
      ((isPenaltyActive now key e).1 = true →
        (isPenaltyActive now key e).2.penaltyUntil.lookup key = runningPenalty key now e) := by
  unfold isPenaltyActive runningPenalty
  cases hk : e.penaltyUntil.lookup key with
  | none => exact ⟨rfl, nofun⟩
  | some u =>
    dsimp only
    split
    · next hu => exact ⟨by simp [hu], nofun⟩
    · next hu =>
      have hlt : now < u := not_le.mp hu
      exact ⟨by simp [hlt], fun _ => hk.trans (if_pos (decide_eq_true hlt)).symm⟩

end Maps

section Record

variable {o : RateLimitOptions ρ σ κ} {k : κ} {now : ℤ} {e e' : EngineState κ}

/-- Without a penalty box no violation is recorded. -/
theorem recordViolation_of_none (h : o.penaltyBox = none) (now : ℤ) (key : κ) (e : EngineState κ) :
    recordViolation o now key e = e := by
  unfold recordViolation
  rw [h]

/-- A violation of another key. -/
theorem alikeFor_record_other {key : κ} (hne : k ≠ key) (now : ℤ) (e : EngineState κ) :
    AlikeFor o.penaltyBox k now e (recordViolation o now key e) := by
  cases hbox : o.penaltyBox with
  | none =>
    rw [recordViolation_of_none hbox]
    exact .refl none k now e
  | some cfg =>
    obtain ⟨hpenalty, hstamps⟩ := recordViolation_lookup hbox now key e
    refine ⟨fun t _ => ?_, fun cfg' hcfg t ht => ?_⟩
    · rw [runningPenalty, runningPenalty, hpenalty k, if_neg fun hand => hne hand.1]
    · obtain rfl := Option.some.inj hcfg
      rw [hstamps k t ht, if_neg hne]

/-- A violation of the key itself. -/
theorem AlikeFor.record (h : AlikeFor o.penaltyBox k now e e') :
    AlikeFor o.penaltyBox k now (recordViolation o now k e) (recordViolation o now k e') := by
  cases hbox : o.penaltyBox with
  | none =>
    rw [recordViolation_of_none hbox, recordViolation_of_none hbox]
    exact hbox ▸ h
  | some cfg =>
    obtain ⟨hpenalty, hstamps⟩ := recordViolation_lookup hbox now k e
    obtain ⟨hpenalty', hstamps'⟩ := recordViolation_lookup hbox now k e'
    have hwindow := h.violations cfg hbox now le_rfl
    refine ⟨fun t ht => ?_, fun cfg' hcfg t ht => ?_⟩
    · rw [runningPenalty, runningPenalty, hpenalty k, hpenalty' k, hwindow]
      split
      · rfl
      · exact h.penalty t ht
    · obtain rfl := Option.some.inj hcfg
      rw [hstamps k t ht, hstamps' k t ht, if_pos rfl, if_pos rfl, hwindow]

end Record

/-! ## One request -/

section Engine

variable {o : RateLimitOptions ρ σ κ} {k key : κ} {P : κ → Prop} {R Q : σ → σ → Prop}

namespace IsolatedOptions

variable (h : IsolatedOptions o k P R Q)
include h

/-- The checks before the increments. -/
theorem policyResult (req : ρ) {now : ℤ} {w w' : World σ κ}
    (he : AlikeFor o.penaltyBox k now w.engine w'.engine) (hs : Q w.stores w'.stores)
    (hnow : o.clock w.stores = now) :
    (policyResult o k req w).1 = (RatelimitFlex.policyResult o k req w').1 ∧
      AlikeFor o.penaltyBox k now (RatelimitFlex.policyResult o k req w).2.engine
        (RatelimitFlex.policyResult o k req w').2.engine ∧
      (RatelimitFlex.policyResult o k req w).2.stores = w.stores ∧
      (RatelimitFlex.policyResult o k req w').2.stores = w'.stores := by
  have hclock : o.clock w'.stores = now := (h.clock _ _ hs).symm.trans hnow
  have hswept := (alikeFor_sweep o.penaltyBox k now w.engine).symm.trans
    (he.trans (alikeFor_sweep o.penaltyBox k now w'.engine))
  simp only [RatelimitFlex.policyResult, h.unmanaged, buildPassthroughResult,
    buildPolicyBlockResult, hnow, hclock]
  generalize maybeSweepExpiredPenaltyEntries now w.engine = e at hswept ⊢
  generalize maybeSweepExpiredPenaltyEntries now w'.engine = e' at hswept ⊢
  split
  · exact ⟨rfl, hswept, rfl, rfl⟩
  split
  · exact ⟨rfl, hswept, rfl, rfl⟩
  split
  · exact ⟨rfl, hswept, rfl, rfl⟩
  obtain ⟨hactive, hlookup⟩ := isPenaltyActive_eq now e k
  obtain ⟨hactive', hlookup'⟩ := isPenaltyActive_eq now e' k
  have hchecked := (alikeFor_check o.penaltyBox k now e k).symm.trans
    (hswept.trans (alikeFor_check o.penaltyBox k now e' k))
  have hrunning := hswept.penalty now le_rfl
  have hsame : (isPenaltyActive now k e').1 = (isPenaltyActive now k e).1 := by
    rw [hactive, hactive', hrunning]
  rw [hsame]
  cases ha : (isPenaltyActive now k e).1 with
  | true =>
    rw [hlookup ha, hlookup' (hsame.trans ha), hrunning]
    exact ⟨rfl, hchecked, rfl, rfl⟩
  | false => exact ⟨rfl, hchecked, rfl, rfl⟩

/-- The policy for another key changes neither the engine for this one nor the clock. -/
theorem policyResultOther (key : κ) (req : ρ) {now : ℤ} {w w' : World σ κ}
    (he : AlikeFor o.penaltyBox k now w.engine w'.engine) (hnow : o.clock w'.stores = now) :
    AlikeFor o.penaltyBox k now w.engine (RatelimitFlex.policyResult o key req w').2.engine ∧
      (RatelimitFlex.policyResult o key req w').2.stores = w'.stores := by
  have hswept := he.trans (alikeFor_sweep o.penaltyBox k now w'.engine)
  simp only [RatelimitFlex.policyResult, h.unmanaged, hnow]
  generalize maybeSweepExpiredPenaltyEntries now w'.engine = e' at hswept ⊢
  have hchecked := hswept.trans (alikeFor_check o.penaltyBox k now e' key)
  split
  · exact ⟨hswept, rfl⟩
  split
  · exact ⟨hswept, rfl⟩
  split
  · exact ⟨hswept, rfl⟩
  split
  · exact ⟨hchecked, rfl⟩
  · exact ⟨hchecked, rfl⟩

/-- What follows the increments. -/
theorem settle (req : ρ) (g : IncrementOutcome) {now : ℤ} {w w' : World σ κ}
    (he : AlikeFor o.penaltyBox k now w.engine w'.engine) (hs : Q w.stores w'.stores)
    (hnow : o.clock w.stores = now) :
    (settle o k req g w).1 = (RatelimitFlex.settle o k req g w').1 ∧
      AlikeFor o.penaltyBox k now (RatelimitFlex.settle o k req g w).2.engine
        (RatelimitFlex.settle o k req g w').2.engine ∧
      Q (RatelimitFlex.settle o k req g w).2.stores
        (RatelimitFlex.settle o k req g w').2.stores := by
  have hclock : o.clock w'.stores = now := (h.clock _ _ hs).symm.trans hnow
  simp only [RatelimitFlex.settle, hnow, hclock]
  split
  · cases maybeOnLayerBlocks o req g.result with
    | error e => exact ⟨rfl, he, hs⟩
    | ok _ =>
      obtain ⟨hout, hback⟩ := h.rollbackDraft
        (matchingDecrementOptions (resolveIncrementOpts o req)) g hs
      revert hout hback
      generalize RatelimitFlex.rollbackDraft o k _ g w.stores = r
      generalize RatelimitFlex.rollbackDraft o k _ g w'.stores = r'
      obtain ⟨a, s₁⟩ := r
      obtain ⟨a', s₁'⟩ := r'
      intro hout hback
      obtain rfl : a = a' := hout
      cases a with
      | error e => exact ⟨rfl, he, hback⟩
      | ok _ =>
        dsimp only
        cases callHook o.onDraftViolation req g.result with
        | error e => exact ⟨rfl, he, hback⟩
        | ok _ => exact ⟨rfl, he, hback⟩
  · split
    · have hrecorded := he.record
      cases maybeOnLayerBlocks o req g.result with
      | error e => exact ⟨rfl, hrecorded, hs⟩
      | ok _ =>
        dsimp only
        cases callHook o.onLimitReached req g.result with
        | error e => exact ⟨rfl, hrecorded, hs⟩
        | ok _ => exact ⟨rfl, hrecorded, hs⟩
    · exact ⟨rfl, he, hs⟩

/-- What follows the increment of another key leaves the state of this one. -/
theorem settleOther (hkey : P key) (hne : key ≠ k) (req : ρ) (g : IncrementOutcome) {now : ℤ}
    (w w' : World σ κ)
    (he : AlikeFor o.penaltyBox k now w.engine w'.engine) (hs : R w.stores w'.stores)
    (hnow : o.clock w'.stores = now) :
    AlikeFor o.penaltyBox k now w.engine (RatelimitFlex.settle o key req g w').2.engine ∧
      R w.stores (RatelimitFlex.settle o key req g w').2.stores := by
  simp only [RatelimitFlex.settle, hnow]
  split
  · cases maybeOnLayerBlocks o req g.result with
    | error e => exact ⟨he, hs⟩
    | ok _ =>
      have hback := h.rollbackDraftOther hkey hne
        (matchingDecrementOptions (resolveIncrementOpts o req)) g hs
      revert hback
      generalize RatelimitFlex.rollbackDraft o key _ g w'.stores = r'
      obtain ⟨a', s₁'⟩ := r'
      intro hback
      cases a' with
      | error e => exact ⟨he, hback⟩
      | ok _ =>
        dsimp only
        cases callHook o.onDraftViolation req g.result with
        | error e => exact ⟨he, hback⟩
        | ok _ => exact ⟨he, hback⟩
  · split
    · have hrecorded := he.trans (alikeFor_record_other hne.symm now w'.engine)
      cases maybeOnLayerBlocks o req g.result with
      | error e => exact ⟨hrecorded, hs⟩
      | ok _ =>
        dsimp only
        cases callHook o.onLimitReached req g.result with
        | error e => exact ⟨hrecorded, hs⟩
        | ok _ => exact ⟨hrecorded, hs⟩
    · exact ⟨he, hs⟩

/-- A request of the key. -/
theorem consumeWithKey (req : ρ) {now : ℤ} (w w' : World σ κ)
    (he : AlikeFor o.penaltyBox k now w.engine w'.engine) (hs : Q w.stores w'.stores)
    (hnow : o.clock w.stores = now) :
    (consumeWithKey o k req w).1 = (RatelimitFlex.consumeWithKey o k req w').1 ∧
      AlikeFor o.penaltyBox k now (RatelimitFlex.consumeWithKey o k req w).2.engine
        (RatelimitFlex.consumeWithKey o k req w').2.engine ∧
      Q (RatelimitFlex.consumeWithKey o k req w).2.stores
        (RatelimitFlex.consumeWithKey o k req w').2.stores := by
  obtain ⟨hout, hchecked, hkeep, hkeep'⟩ := h.policyResult req he hs hnow
  simp only [RatelimitFlex.consumeWithKey, arrive]
  revert hout hchecked hkeep hkeep'
  generalize RatelimitFlex.policyResult o k req w = p
  generalize RatelimitFlex.policyResult o k req w' = p'
  obtain ⟨decided, e, s⟩ := p
  obtain ⟨decided', e', s'⟩ := p'
  rintro hout hchecked hkeep hkeep'
  obtain rfl : decided = decided' := hout
  obtain rfl : s = w.stores := hkeep
  obtain rfl : s' = w'.stores := hkeep'
  cases decided with
  | some out => exact ⟨rfl, hchecked, hs⟩
  | none =>
    have hsteady := h.clock_incrementStores k (resolveIncrementOpts o req) w.stores
    obtain ⟨hinc, hafter⟩ := h.incrementStores (resolveIncrementOpts o req) hs
    dsimp only
    revert hsteady hinc hafter
    generalize RatelimitFlex.incrementStores o k _ w.stores = r
    generalize RatelimitFlex.incrementStores o k _ w'.stores = r'
    obtain ⟨a, s₁⟩ := r
    obtain ⟨a', s₁'⟩ := r'
    intro hsteady hinc hafter
    obtain rfl : a = a' := hinc
    cases a with
    | error err => exact ⟨rfl, hchecked, hafter⟩
    | ok g => exact h.settle req g hchecked hafter (hsteady.trans hnow)

/-- A request of another key. -/
theorem consumeWithKeyOther (hkey : P key) (hne : key ≠ k) (req : ρ) {now : ℤ} (w w' : World σ κ)
    (he : AlikeFor o.penaltyBox k now w.engine w'.engine) (hs : R w.stores w'.stores)
    (hnow : o.clock w'.stores = now) :
    AlikeFor o.penaltyBox k now w.engine (RatelimitFlex.consumeWithKey o key req w').2.engine ∧
      R w.stores (RatelimitFlex.consumeWithKey o key req w').2.stores := by
  obtain ⟨hchecked, hkeep⟩ := h.policyResultOther key req he hnow
  simp only [RatelimitFlex.consumeWithKey, arrive]
  revert hchecked hkeep
  generalize RatelimitFlex.policyResult o key req w' = p'
  obtain ⟨decided', e', s'⟩ := p'
  intro hchecked hkeep
  obtain rfl : s' = w'.stores := hkeep
  cases decided' with
  | some out => exact ⟨hchecked, hs⟩
  | none =>
    have hsteady := h.clock_incrementStores key (resolveIncrementOpts o req) w'.stores
    have hafter := h.incrementStoresOther hkey hne (resolveIncrementOpts o req) hs
    dsimp only
    revert hsteady hafter
    generalize RatelimitFlex.incrementStores o key _ w'.stores = r'
    obtain ⟨a', s₁'⟩ := r'
    intro hsteady hafter
    cases a' with
    | error err => exact ⟨hchecked, hafter⟩
    | ok g =>
      exact h.settleOther hkey hne req g w ⟨e', s₁'⟩ hchecked hafter (hsteady.trans hnow)

end IsolatedOptions

/-! ## Runs -/

/-- A request, when it comes and what the stores' surroundings are then. -/
structure EngineRequest (ρ ε κ : Type) where
  time : ℤ
  around : ε
  key : κ
  req : ρ

/-- One request, in the surroundings that `enter` makes of the stores. -/
def serveRequest {ε : Type} (o : RateLimitOptions ρ σ κ) (enter : ℤ → ε → σ → σ)
    (i : EngineRequest ρ ε κ) (w : World σ κ) :
    World σ κ × Except StoreError RateLimitConsumeResult :=
  let r := consumeWithKey o i.key i.req { w with stores := enter i.time i.around w.stores }
  (r.2, r.1)

/-- The surroundings of a request tell no key apart. -/
structure Surroundings {ε : Type} (clock : σ → ℤ) (R Q : σ → σ → Prop) (enter : ℤ → ε → σ → σ) :
    Prop where
  clock : ∀ time a s, clock (enter time a s) = time
  entered : ∀ time a s s', R s s' → Q (enter time a s) (enter time a s')
  enteredOther : ∀ time a s s', R s s' → R s (enter time a s')
  within : ∀ s s', Q s s' → R s s'

/-- In every run the requests of a key are answered as in the run of these requests alone. -/
theorem IsolatedOptions.keptOutputs {ε : Type} {enter : ℤ → ε → σ → σ}
    (h : IsolatedOptions o k P R Q) (hsur : Surroundings o.clock R Q enter)
    {is : List (EngineRequest ρ ε κ)} {t : ℤ} (hord : OrderedFrom EngineRequest.time t is)
    (hkeys : ∀ i ∈ is, P i.key) {e : EngineState κ} {s : σ} (hs : R s s) :
    keptOutputs (fun i => decide (i.key = k)) (serveRequest o enter) is ⟨e, s⟩ =
      outputs (serveRequest o enter) (is.filter fun i => decide (i.key = k)) ⟨e, s⟩ := by
  refine keptOutputs_eq_of_guarded_stuttering (G := fun i _ => True ∧ P i.key)
    (R := fun t (w w' : World σ κ) => AlikeFor o.penaltyBox k t w.engine w'.engine ∧
      R w.stores w'.stores) ?_ ?_ ⟨.refl _ k t e, hs⟩ hord ((guarded_true is _).and_mem hkeys)
  · rintro t w w' i ⟨he, hR⟩ ht hi -
    obtain ⟨hout, hengine, hstores⟩ := h.consumeWithKey i.req
      { w with stores := enter i.time i.around w.stores }
      { w' with stores := enter i.time i.around w'.stores }
      (he.mono ht) (hsur.entered _ _ _ _ hR) (hsur.clock _ _ _)
    obtain rfl := of_decide_eq_true hi
    exact ⟨hout, hengine, hsur.within _ _ hstores⟩
  · rintro t w w' i ⟨he, hR⟩ ht hi hg
    exact h.consumeWithKeyOther hg.2 (of_decide_eq_false hi) i.req w
      { w' with stores := enter i.time i.around w'.stores }
      (he.mono ht) (hsur.enteredOther _ _ _ _ hR) (hsur.clock _ _ _)

end Engine

/-! ## Banks of `MemoryStore`s -/

/-- No key of `U` evicts another one. -/
def MemoryStore.Roomy (U : List κ) (m : MemoryStore κ) : Prop :=
  m.maxKeys = 0 ∨ m.keys ⊆ U ∧ U.length ≤ m.maxKeys

namespace MemoryStore.Roomy

variable {U : List κ} {m : MemoryStore κ} {key : κ}

/-- In a store with room for its keys each of them fits. -/
theorem fits (h : m.Roomy U) (hkey : key ∈ U) : m.Fits key := by
  rw [fits_iff]
  rcases h with h | ⟨hsub, hmax⟩
  · exact Or.inl h
  · have hle := (m.nodup_keys.subperm hsub).length_le
    by_cases hmem : key ∈ m.keys
    · exact Or.inr (Or.inr ⟨hmem, hle.trans hmax⟩)
    · have hcons : (key :: m.keys).Nodup := List.nodup_cons.mpr ⟨hmem, m.nodup_keys⟩
      have hlt := (hcons.subperm (List.cons_subset.mpr ⟨hkey, hsub⟩)).length_le
      rw [List.length_cons] at hlt
      exact Or.inr (Or.inl (by omega))

/-- An increment of one of them leaves the room. -/
theorem increment (h : m.Roomy U) (hkey : key ∈ U) (now : ℤ) (options : RateLimitIncrementOptions) :
    (m.increment now key options).1.Roomy U := by
  refine h.imp (fun h => (maxKeys_increment now key options m).trans h) fun h' => ⟨?_, ?_⟩
  · intro j hj
    by_cases hjk : j = key
    · exact hjk ▸ hkey
    · rw [mem_keys, cell_increment_fits (h.fits hkey), if_neg hjk] at hj
      exact h'.1 ((m.mem_keys j).mpr hj)
  · rw [maxKeys_increment]
    exact h'.2

/-- So does a decrement. -/
theorem decrement (h : m.Roomy U) (key : κ) (options : RateLimitDecrementOptions) :
    (m.decrement key options).Roomy U := by
  refine h.imp (fun h => (maxKeys_decrement key options m).trans h) fun h' => ⟨?_, ?_⟩
  · exact fun j hj => h'.1 ((keys_decrement_sublist key options m).subset hj)
  · rw [maxKeys_decrement]
    exact h'.2

end MemoryStore.Roomy

/-- In both banks store `j` has room for the keys `U j`, and the cell of `keys j` is the same. -/
structure SameCells (U : ℕ → List κ) (keys : ℕ → κ) (s s' : StoreBank κ) : Prop where
  roomy : ∀ j, (s.stores j).Roomy (U j)
  roomy' : ∀ j, (s'.stores j).Roomy (U j)
  cells : ∀ j, (s.stores j).cell (keys j) = (s'.stores j).cell (keys j)

/-- What is around a bank when a request comes. -/
structure BankSurroundings where
  failing : ℕ → Option StoreError := fun _ => none
  firstSettled : Option ℕ := some 0

/-- The bank as a request finds it. -/
def StoreBank.enter (time : ℤ) (a : BankSurroundings) (s : StoreBank κ) : StoreBank κ :=
  { s with now := time, failing := a.failing, firstSettled := a.firstSettled }

/-- The same, with the same surroundings. -/
structure SameWithin (U : ℕ → List κ) (keys : ℕ → κ) (s s' : StoreBank κ) : Prop
    extends SameCells U keys s s' where
  now : s.now = s'.now
  failing : s.failing = s'.failing
  firstSettled : s.firstSettled = s'.firstSettled

section Bank

variable {U : ℕ → List κ} {keys : ℕ → κ} {s s' : StoreBank κ}

/-- Another store as number `j`, in both banks. -/
theorem SameCells.put (h : SameCells U keys s s') (j : ℕ) {m m' : MemoryStore κ}
    (hm : m.Roomy (U j)) (hm' : m'.Roomy (U j)) (hcell : m.cell (keys j) = m'.cell (keys j)) :
    SameCells U keys (s.put j m) (s'.put j m') := by
  refine ⟨fun i => ?_, fun i => ?_, fun i => ?_⟩ <;> by_cases hi : i = j
  · subst hi
    rwa [StoreBank.stores_put_self]
  · rw [StoreBank.stores_put_of_ne hi]
    exact h.roomy i
  · subst hi
    rwa [StoreBank.stores_put_self]
  · rw [StoreBank.stores_put_of_ne hi]
    exact h.roomy' i
  · subst hi
    rwa [StoreBank.stores_put_self, StoreBank.stores_put_self]
  · rw [StoreBank.stores_put_of_ne hi, StoreBank.stores_put_of_ne hi]
    exact h.cells i

/-- Another store as number `j`, in the second bank alone. -/
theorem SameCells.putRight (h : SameCells U keys s s') (j : ℕ) {m' : MemoryStore κ}
    (hm' : m'.Roomy (U j)) (hcell : (s'.stores j).cell (keys j) = m'.cell (keys j)) :
    SameCells U keys s (s'.put j m') := by
  have hput := h.put j (h.roomy j) hm' ((h.cells j).trans hcell)
  rwa [StoreBank.put_stores_self] at hput

/-- Stores that agree on the key may take the places of two that do. -/
theorem SameWithin.put (h : SameWithin U keys s s') (j : ℕ) {m m' : MemoryStore κ}
    (hm : m.Roomy (U j)) (hm' : m'.Roomy (U j)) (hcell : m.cell (keys j) = m'.cell (keys j)) :
    SameWithin U keys (s.put j m) (s'.put j m') :=
  { h.toSameCells.put j hm hm' hcell with
    now := h.now
    failing := h.failing
    firstSettled := h.firstSettled }

/-- A `MemoryStore` keeps its keys apart while it has room for those in play. -/
theorem isolated_bankStore {j : ℕ} (hkey : keys j ∈ U j) :
    Isolated (keys j) (fun key => key ∈ U j) (SameCells U keys) (SameWithin U keys)
      (bankStore j) where
  increment options s s' h := by
    simp only [bankStore, ← h.failing, ← h.now]
    cases s.failing j with
    | some e => exact ⟨rfl, h⟩
    | none =>
      have hresult : ((s.stores j).increment s.now (keys j) options).2 =
          ((s'.stores j).increment s.now (keys j) options).2 := by
        rw [MemoryStore.increment_snd_cleared, MemoryStore.increment_snd_cleared, h.cells j]
      refine ⟨congrArg Except.ok hresult, h.put j ((h.roomy j).increment hkey _ _)
        ((h.roomy' j).increment hkey _ _) ?_⟩
      rw [MemoryStore.cell_increment_fits ((h.roomy j).fits hkey),
        MemoryStore.cell_increment_fits ((h.roomy' j).fits hkey), h.cells j]
  decrement options s s' h := by
    refine h.put j ((h.roomy j).decrement _ _) ((h.roomy' j).decrement _ _) ?_
    rw [MemoryStore.cell_decrement, MemoryStore.cell_decrement, h.cells j]
  rollback f hf := nomatch hf
  incrementOther key hmem hne options s s' h := by
    simp only [bankStore]
    cases s'.failing j with
    | some e => exact h
    | none =>
      refine h.putRight j ((h.roomy' j).increment hmem _ _) ?_
      rw [MemoryStore.cell_increment_fits ((h.roomy' j).fits hmem), if_neg hne.symm]
  decrementOther key _ hne options s s' h := by
    refine h.putRight j ((h.roomy' j).decrement _ _) ?_
    rw [MemoryStore.cell_decrement, if_neg hne.symm]
  rollbackOther f hf := nomatch hf

/-- A store of the bank does not move the clock. -/
theorem steadyClock_bankStore (j : ℕ) :
    SteadyClock (StoreBank.now : StoreBank κ → ℤ) (bankStore j) where
  increment key options s := by
    simp only [bankStore]
    cases s.failing j <;> rfl
  decrement _ _ _ := rfl

/-- The cells of the stores are what surrounds a key, as times pass. -/
theorem surroundings_bank (U : ℕ → List κ) (keys : ℕ → κ) :
    Surroundings StoreBank.now (SameCells U keys) (SameWithin U keys) StoreBank.enter where
  clock _ _ _ := rfl
  entered _ _ _ _ h := ⟨⟨h.roomy, h.roomy', h.cells⟩, rfl, rfl, rfl⟩
  enteredOther _ _ _ _ h := ⟨h.roomy, h.roomy', h.cells⟩
  within _ _ h := h.toSameCells

end Bank

/-- The engine's stores are those of a bank, and no key manager decides. -/
structure OverBank (o : RateLimitOptions ρ (StoreBank κ) κ) : Prop where
  clock : o.clock = StoreBank.now
  store : ∃ j, o.store = bankStore j
  slots : ∀ g ∈ o.groupedWindowStores, ∃ j, g.store = bankStore j
  unmanaged : o.keyManager = none

/-- **Key isolation.**  An engine over `MemoryStore`s with room for the keys in play answers
the requests of a key, in any run, as it answers the run of these requests alone. -/
theorem answers_of_key_alone {o : RateLimitOptions ρ (StoreBank κ) κ} (h : OverBank o)
    {U : List κ} (k : κ) (e : EngineState κ) {s : StoreBank κ}
    (hroom : ∀ j, (s.stores j).Roomy U) {is : List (EngineRequest ρ BankSurroundings κ)} {t : ℤ}
    (hord : OrderedFrom EngineRequest.time t is) (hkeys : ∀ i ∈ is, i.key ∈ U) (hk : k ∈ U) :
    keptOutputs (fun i => decide (i.key = k)) (serveRequest o StoreBank.enter) is ⟨e, s⟩ =
      outputs (serveRequest o StoreBank.enter) (is.filter fun i => decide (i.key = k)) ⟨e, s⟩ := by
  have hbank : ∀ j, Isolated k (fun key => key ∈ U) (SameCells (fun _ => U) fun _ => k)
      (SameWithin (fun _ => U) fun _ => k) (bankStore j) :=
    fun j => @isolated_bankStore κ _ (fun _ => U) (fun _ => k) j hk
  have hopts : IsolatedOptions o k (fun key => key ∈ U) (SameCells (fun _ => U) fun _ => k)
      (SameWithin (fun _ => U) fun _ => k) := by
    refine ⟨fun s s' hs => ?_, ?_, fun g hg => ?_, ?_, fun g hg => ?_, h.unmanaged⟩
    · rw [h.clock]
      exact hs.now
    · obtain ⟨j, hj⟩ := h.store
      rw [hj]
      exact hbank j
    · obtain ⟨j, hj⟩ := h.slots g hg
      rw [hj]
      exact hbank j
    · obtain ⟨j, hj⟩ := h.store
      rw [h.clock, hj]
      exact (steadyClock_bankStore j).increment
    · obtain ⟨j, hj⟩ := h.slots g hg
      rw [h.clock, hj]
      exact steadyClock_bankStore j
  refine hopts.keptOutputs ?_ hord hkeys ⟨hroom, hroom, fun _ => rfl⟩
  rw [h.clock]
  exact surroundings_bank _ _

/-- A penalty of a minute for the first request over one a second. -/
def strictBank : RateLimitOptions Unit (StoreBank ℕ) ℕ where
  clock := StoreBank.now
  store := bankStore 0
  maxRequests := some (.value 1)
  penaltyBox := some { violationsThreshold := 1, penaltyDurationMs := 60000 }

/-- Key 8 is blocked and penalized in between. -/
theorem answers_of_key_alone_penalized :
    let bank : StoreBank ℕ :=
      ⟨fun _ => .sliding oneASecond (KeyTable.new 0), 0, fun _ => none, none⟩
    let run : List (EngineRequest Unit BankSurroundings ℕ) :=
      [⟨0, {}, 7, ()⟩, ⟨1, {}, 8, ()⟩, ⟨2, {}, 8, ()⟩, ⟨3, {}, 8, ()⟩, ⟨4, {}, 7, ()⟩]
    keptOutputs (fun i => decide (i.key = 7)) (serveRequest strictBank StoreBank.enter) run
        ⟨{}, bank⟩ =
      outputs (serveRequest strictBank StoreBank.enter)
        (run.filter fun i => decide (i.key = 7)) ⟨{}, bank⟩ :=
  answers_of_key_alone (o := strictBank) ⟨rfl, ⟨0, rfl⟩, nofun, rfl⟩ (U := [7, 8]) 7 {}
    (fun _ => Or.inl rfl) (t := 0) (by decide) (by decide) (by decide)

end RatelimitFlex
