import RatelimitFlex.Library.TimedRun
import RatelimitFlex.Model.PenaltyLog
import RatelimitFlex.Program.MemoryEngine

/-!
# The penalty box of the engine

The engine keeps two maps, `penaltyUntil` and `violationTimestamps`; each is trimmed when its
key comes by, and swept over all keys now and then.  `Matches` says what the maps have in
common with the log of all violations: at every time from now on they give the same running
penalties and the same violations still in the window.  Every operation on the maps keeps
that (`Matches.sweepPenalties`, `Matches.checked`, `Matches.record`), so a consume that comes
to the penalty check is refused exactly when the log has a penalty running
(`penaltyBox_follows_log`).
-/

set_option autoImplicit false

namespace RatelimitFlex

open Library

variable {ρ σ κ : Type} [DecidableEq κ]

/-! ## Windows -/

/-- The times still inside the window at `t`, as the engine trims them. -/
def stillInWindow (windowMs t : ℤ) (times : List ℤ) : List ℤ :=
  times.filter fun v => decide (t - windowMs < v)

/-- What an earlier trim dropped is outside the window anyway. -/
theorem stillInWindow_stillInWindow {windowMs t now : ℤ} (h : now ≤ t) (times : List ℤ) :
    stillInWindow windowMs t (stillInWindow windowMs now times) = stillInWindow windowMs t times := by
  unfold stillInWindow
  rw [List.filter_filter]
  apply List.filter_congr
  intro v _
  rw [← Bool.decide_and]
  apply decide_eq_decide.mpr
  omega

/-- The violations in the window of two stretches. -/
theorem stillInWindow_append (windowMs t : ℤ) (times times' : List ℤ) :
    stillInWindow windowMs t (times ++ times') =
      stillInWindow windowMs t times ++ stillInWindow windowMs t times' :=
  List.filter_append ..

/-- Up to `t` the window that ends at `t` is what is still inside. -/
theorem inWindow_eq_stillInWindow {windowMs t : ℤ} {times : List ℤ} (h : ∀ v ∈ times, v ≤ t) :
    inWindow windowMs t times = stillInWindow windowMs t times := by
  apply List.filter_congr
  intro v hv
  have hle := h v hv
  apply decide_eq_decide.mpr
  omega

/-! ## The maps and the log -/

/-- `t` is not before any of these readings of the clock. -/
def NotBefore (readings : List ℤ) (t : ℤ) : Prop := ∀ r ∈ readings, r ≤ t

/-- Readings that are in the past are so without the later ones. -/
theorem NotBefore.left {readings more : List ℤ} {t : ℤ} (h : NotBefore (readings ++ more) t) :
    NotBefore readings t := fun r hr => h r (List.mem_append_left _ hr)

/-- The maps of the engine and the violations of each key, after these readings. -/
structure Matches (box : Option PenaltyBoxOptions) (readings : List ℤ) (e : EngineState κ)
    (violations : κ → List ℤ) : Prop where
  penalized : ∀ k t, NotBefore readings t →
    ((∃ u, e.penaltyUntil.lookup k = some u ∧ t < u) ↔ Penalized box (violations k) t)
  since : ∀ cfg ∈ box, ∀ k t, NotBefore readings t →
    stillInWindow cfg.terms.windowMs t ((e.violationTimestamps.lookup k).getD []) =
      stillInWindow cfg.terms.windowMs t (penaltyLog cfg.terms (violations k)).since
  past : ∀ k t, NotBefore readings t → ∀ v ∈ violations k, v ≤ t

namespace Matches

variable {box : Option PenaltyBoxOptions} {readings : List ℤ} {e : EngineState κ}
  {violations : κ → List ℤ}

/-- The engine starts without violations. -/
theorem start : Matches box [] ({} : EngineState κ) fun _ => [] where
  penalized k t _ := by
    refine iff_of_false ?_ ?_
    · rintro ⟨u, hu, -⟩
      cases hu
    · rintro ⟨cfg, -, s, hs, -⟩
      cases hs
  since _ _ _ _ _ := rfl
  past _ _ _ v hv := absurd hv List.not_mem_nil

/-- Time goes on. -/
theorem read (h : Matches box readings e violations) (more : List ℤ) :
    Matches box (readings ++ more) e violations where
  penalized k t ht := h.penalized k t ht.left
  since cfg hcfg k t ht := h.since cfg hcfg k t ht.left
  past k t ht := h.past k t ht.left

/-- A penalty that has run out may leave its map. -/
theorem dropPenalties (h : Matches box readings e violations) {now : ℤ}
    {e' : EngineState κ}
    (hlookup : ∀ k, e'.penaltyUntil.lookup k = e.penaltyUntil.lookup k ∨
      e'.penaltyUntil.lookup k = none ∧ ∀ u, e.penaltyUntil.lookup k = some u → u ≤ now)
    (hstamps : e'.violationTimestamps = e.violationTimestamps) :
    Matches box (readings ++ [now]) e' violations where
  penalized k t ht := by
    rw [← h.penalized k t ht.left]
    have hnow : now ≤ t := ht now (List.mem_append_right _ (List.mem_singleton_self now))
    rcases hlookup k with hsame | ⟨hnone, hout⟩
    · rw [hsame]
    · refine iff_of_false ?_ ?_
      · rintro ⟨u, hu, -⟩
        rw [hnone] at hu
        cases hu
      · rintro ⟨u, hu, hlt⟩
        have := hout u hu
        omega
  since cfg hcfg k t ht := by
    rw [hstamps]
    exact h.since cfg hcfg k t ht.left
  past k t ht := h.past k t ht.left

/-- A sweep of the penalties drops nothing that is running. -/
theorem sweepPenalties (h : Matches box readings e violations) (now : ℤ) :
    Matches box (readings ++ [now]) (maybeSweepExpiredPenaltyEntries now e) violations := by
  unfold maybeSweepExpiredPenaltyEntries
  split
  · exact h.read [now]
  · dsimp only
    split
    · refine h.dropPenalties (fun k => ?_) rfl
      rw [InsertionMap.lookup_filterMapValues]
      cases hk : e.penaltyUntil.lookup k with
      | none => exact .inl rfl
      | some u =>
        by_cases hu : u ≤ now
        · refine .inr ⟨by simp [hu], fun u' hu' => ?_⟩
          obtain rfl := Option.some.inj hu'
          exact hu
        · exact .inl (by simp [hu])
    · exact h.dropPenalties (fun k => .inl rfl) rfl

/-- So does a check of a key. -/
theorem checked (h : Matches box readings e violations) (now : ℤ) (key : κ) :
    Matches box (readings ++ [now]) (isPenaltyActive now key e).2 violations := by
  unfold isPenaltyActive
  cases hk : e.penaltyUntil.lookup key with
  | none => exact h.read [now]
  | some u =>
    dsimp only
    split
    · next hu =>
      refine h.dropPenalties (fun k => ?_) rfl
      rw [InsertionMap.lookup_erase']
      by_cases hkey : k = key
      · subst hkey
        refine .inr ⟨if_pos rfl, fun u' hu' => ?_⟩
        rw [hk] at hu'
        obtain rfl := Option.some.inj hu'
        exact hu
      · exact .inl (if_neg hkey)
    · exact h.read [now]

/-- The check answers what the log says. -/
theorem isPenaltyActive_iff (h : Matches box readings e violations) {now : ℤ}
    (hnow : NotBefore readings now) (key : κ) :
    (isPenaltyActive now key e).1 = true ↔ Penalized box (violations key) now := by
  rw [← h.penalized key now hnow]
  unfold isPenaltyActive
  cases hk : e.penaltyUntil.lookup key with
  | none => exact iff_of_false nofun (by rintro ⟨u, hu, -⟩; cases hu)
  | some u =>
    dsimp only
    split
    · next hu =>
      refine iff_of_false nofun ?_
      rintro ⟨u', hu', hlt⟩
      obtain rfl := Option.some.inj hu'
      omega
    · next hu => exact iff_of_true rfl ⟨u, rfl, by omega⟩

end Matches

/-! ## Recording a violation -/

/-- The sweep trims every key to the window of `now`. -/
theorem maybeSweepExpiredViolationEntries_getD (cfg : PenaltyBoxOptions) (now : ℤ)
    (e : EngineState κ) (k : κ) :
    ((maybeSweepExpiredViolationEntries cfg now e).violationTimestamps.lookup k).getD [] =
      stillInWindow cfg.terms.windowMs now ((e.violationTimestamps.lookup k).getD []) := by
  show ((InsertionMap.filterMapValues _ e.violationTimestamps).lookup k).getD [] = _
  rw [InsertionMap.lookup_filterMapValues]
  cases e.violationTimestamps.lookup k with
  | none => rfl
  | some times =>
    rw [Option.bind_some, Option.getD_some]
    split
    · next hnil => exact hnil.symm
    · rfl

/-- What `recordViolation` leaves of the two maps, under one key and under the others. -/
theorem recordViolation_lookup {o : RateLimitOptions ρ σ κ} {cfg : PenaltyBoxOptions}
    (hbox : o.penaltyBox = some cfg) (now : ℤ) (key : κ) (e : EngineState κ) :
    let trimmed := stillInWindow cfg.terms.windowMs now
      ((e.violationTimestamps.lookup key).getD []) ++ [now]
    let e' := recordViolation o now key e
    (∀ k, e'.penaltyUntil.lookup k =
      if k = key ∧ cfg.terms.threshold ≤ trimmed.length then some (now + cfg.terms.durationMs)
      else e.penaltyUntil.lookup k) ∧
    ∀ k t, now ≤ t → stillInWindow cfg.terms.windowMs t ((e'.violationTimestamps.lookup k).getD []) =
      stillInWindow cfg.terms.windowMs t
        (if k = key then (if cfg.terms.threshold ≤ trimmed.length then [] else trimmed)
        else (e.violationTimestamps.lookup k).getD []) := by
  intro trimmed e'
  have hstamps : ∀ k, ((e.violationTimestamps.set key trimmed).lookup k).getD [] =
      if k = key then trimmed else (e.violationTimestamps.lookup k).getD [] := by
    intro k
    rw [InsertionMap.lookup_set]
    split <;> rfl
  by_cases hfull : cfg.terms.threshold ≤ trimmed.length
  · have he' : e' = { e with
        penaltyUntil := e.penaltyUntil.set key (now + cfg.terms.durationMs)
        violationTimestamps := (e.violationTimestamps.set key trimmed).erase key } := by
      show recordViolation o now key e = _
      unfold recordViolation
      rw [hbox]
      exact if_pos hfull
    refine ⟨fun k => ?_, fun k t ht => ?_⟩
    · rw [he']
      show (e.penaltyUntil.set key _).lookup k = _
      rw [InsertionMap.lookup_set]
      simp only [hfull, and_true]
    · rw [he', if_pos hfull]
      show stillInWindow _ t ((((e.violationTimestamps.set key trimmed).erase key).lookup k).getD [])
        = _
      rw [InsertionMap.lookup_erase']
      by_cases hk : k = key
      · rw [if_pos hk, if_pos hk]
        rfl
      · rw [if_neg hk, if_neg hk, hstamps, if_neg hk]
  · have he' : e' = if 10000 < (e.violationTimestamps.set key trimmed).size then
        maybeSweepExpiredViolationEntries cfg now
          { e with violationTimestamps := e.violationTimestamps.set key trimmed }
        else { e with violationTimestamps := e.violationTimestamps.set key trimmed } := by
      show recordViolation o now key e = _
      unfold recordViolation
      rw [hbox]
      exact if_neg hfull
    refine ⟨fun k => ?_, fun k t ht => ?_⟩
    · have hnot : ¬ (k = key ∧ cfg.terms.threshold ≤ trimmed.length) := fun h => hfull h.2
      rw [if_neg hnot, he']
      split <;> rfl
    · rw [if_neg hfull, ← hstamps, he']
      split
      · rw [maybeSweepExpiredViolationEntries_getD]
        exact stillInWindow_stillInWindow ht _
      · rfl

/-- The log after one more violation, which is not before the others. -/
theorem penaltyLog_append_past (p : PenaltyTerms) {violations : List ℤ} {s : ℤ}
    (hpast : ∀ v ∈ violations, v ≤ s) :
    penaltyLog p (violations ++ [s]) =
      if p.threshold ≤ (stillInWindow p.windowMs s (penaltyLog p violations).since ++ [s]).length then
        { since := [], penalties := (penaltyLog p violations).penalties ++ [s] }
      else
        { since := (penaltyLog p violations).since ++ [s]
          penalties := (penaltyLog p violations).penalties } := by
  have hlast : stillInWindow p.windowMs s [s] = [s] := by
    have := p.one_le_windowMs
    exact List.filter_cons_of_pos (by simp only [decide_eq_true_eq]; omega)
  have hwindow : inWindow p.windowMs s ((penaltyLog p violations).since ++ [s]) =
      stillInWindow p.windowMs s (penaltyLog p violations).since ++ [s] := by
    rw [inWindow_eq_stillInWindow, stillInWindow_append, hlast]
    intro v hv
    rcases List.mem_append.mp hv with hv | hv
    · exact hpast v (mem_violations_of_mem_penaltyLog (.inl hv))
    · exact (List.mem_singleton.mp hv).le
  rw [penaltyLog_append, PenaltyLog.record, hwindow]

/-- A violation is recorded in the log and in the box. -/
theorem Matches.record {o : RateLimitOptions ρ σ κ} {readings : List ℤ} {e : EngineState κ}
    {violations : κ → List ℤ} (h : Matches o.penaltyBox readings e violations) {now : ℤ}
    (hnow : NotBefore readings now) (key : κ) :
    Matches o.penaltyBox (readings ++ [now]) (recordViolation o now key e)
      (Function.update violations key (violations key ++ [now])) where
  past k t ht v hv := by
    have hle : now ≤ t := ht now (List.mem_append_right _ (List.mem_singleton_self now))
    by_cases hk : k = key
    · subst hk
      rw [Function.update_self] at hv
      rcases List.mem_append.mp hv with hv | hv
      · exact h.past k t ht.left v hv
      · rw [List.mem_singleton.mp hv]
        exact hle
    · rw [Function.update_of_ne hk] at hv
      exact h.past k t ht.left v hv
  since cfg hcfg k t ht := by
    have hle : now ≤ t := ht now (List.mem_append_right _ (List.mem_singleton_self now))
    rw [(recordViolation_lookup hcfg now key e).2 k t hle]
    by_cases hk : k = key
    · subst hk
      rw [if_pos rfl, Function.update_self, penaltyLog_append_past _ (h.past k now hnow),
        h.since cfg hcfg k now hnow]
      split
      · rfl
      · rw [stillInWindow_append, stillInWindow_append, stillInWindow_stillInWindow hle]
    · rw [if_neg hk, Function.update_of_ne hk]
      exact h.since cfg hcfg k t ht.left
  penalized k t ht := by
    have hle : now ≤ t := ht now (List.mem_append_right _ (List.mem_singleton_self now))
    have hold := h.penalized k t ht.left
    cases hbox : o.penaltyBox with
    | none =>
      rw [hbox] at hold
      have hsame : recordViolation o now key e = e := by
        unfold recordViolation
        rw [hbox]
      rw [hsame, hold]
      refine iff_of_false ?_ ?_ <;> rintro ⟨cfg, hcfg, -⟩ <;> cases hcfg
    | some cfg =>
      rw [(recordViolation_lookup hbox now key e).1 k]
      rw [hbox] at hold
      have hthis : ∀ vs, Penalized (some cfg) vs t ↔
          ∃ s ∈ (penaltyLog cfg.terms vs).penalties, t < s + cfg.terms.durationMs := by
        intro vs
        constructor
        · rintro ⟨cfg', hcfg', hs⟩
          cases hcfg'
          exact hs
        · exact fun hs => ⟨cfg, rfl, hs⟩
      by_cases hk : k = key
      · subst hk
        rw [Function.update_self, hthis, penaltyLog_append_past _ (h.past k now hnow),
          h.since cfg (by rw [hbox]; rfl) k now hnow]
        simp only [true_and]
        split
        · constructor
          · rintro ⟨u, hu, hlt⟩
            obtain rfl := Option.some.inj hu
            exact ⟨now, List.mem_append_right _ (List.mem_singleton_self now), hlt⟩
          · -- an older penalty ends before the new one does
            rintro ⟨s, hs, hlt⟩
            refine ⟨_, rfl, ?_⟩
            rcases List.mem_append.mp hs with hs | hs
            · have := h.past k now hnow s (mem_violations_of_mem_penaltyLog (.inr hs))
              omega
            · rw [← List.mem_singleton.mp hs]
              exact hlt
        · exact hold.trans (hthis _)
      · rw [if_neg (fun hc => hk hc.1), Function.update_of_ne hk]
        exact hold

/-! ## Runs of consumes -/

/-- A consume, and what it finds in the stores. -/
structure ConsumeInput (ρ σ κ : Type) where
  key : κ
  req : ρ
  stores : σ

/-- What can be said of a consume: when it came to the penalty check, when it violated the
limit, its answer, and the readings of the clock in between. -/
structure ConsumeReport (κ : Type) where
  key : κ
  checkedAt : Option ℤ
  violatedAt : Option ℤ
  answer : Except StoreError RateLimitConsumeResult
  readings : List ℤ

variable (o : RateLimitOptions ρ σ κ)

/-- The stores when a request comes to the penalty check, if skip, the two lists and the key
manager let it pass. -/
def penaltyCheckStores (key : κ) (req : ρ) (s : σ) : Option σ :=
  if o.skip req ∨ key ∈ o.allowlist ∨ key ∈ o.blocklist then none
  else
    match o.keyManager with
    | none => some s
    | some km =>
      let (blocked, s) := km.isBlocked key s
      if blocked then none else some s

/-- The stores when a consume records a violation. -/
def violationStores (key : κ) (req : ρ) (w : World σ κ) : Option σ :=
  match arrive o key req w with
  | (.incremented g, w) =>
    if g.result.isBlocked && !g.result.storeUnavailable then some w.stores else none
  | _ => none

/-- One consume of a run. -/
def consumeStep (i : ConsumeInput ρ σ κ) (w : World σ κ) : World σ κ × ConsumeReport κ :=
  let w := { w with stores := i.stores }
  let r := consumeWithKey o i.key i.req w
  let checkedAt := (penaltyCheckStores o i.key i.req w.stores).map o.clock
  let violatedAt := (violationStores o i.key i.req w).map o.clock
  (r.2,
    { key := i.key
      checkedAt
      violatedAt
      answer := r.1
      readings := o.clock w.stores :: checkedAt.toList ++ violatedAt.toList })

/-- The violations of a key in a run. -/
def violationsOf (key : κ) (reports : List (ConsumeReport κ)) : List ℤ :=
  reports.filterMap fun r => if r.key = key then r.violatedAt else none

/-- The consume was refused by the penalty box. -/
def ConsumeReport.isPenalty (r : ConsumeReport κ) : Prop :=
  ∃ out, r.answer = .ok out ∧ out.blockReason = some .penalty

/-! ## One consume -/

/-- The policy checks: other decisions, then the penalty check. -/
theorem policyResult_cases (key : κ) (req : ρ) (w : World σ κ) :
    let swept := maybeSweepExpiredPenaltyEntries (o.clock w.stores) w.engine
    match penaltyCheckStores o key req w.stores with
    | none => ∃ out s, policyResult o key req w = (some out, ⟨swept, s⟩) ∧
        out.blockReason ≠ some .penalty
    | some s =>
      let checked := isPenaltyActive (o.clock s) key swept
      if checked.1 then
        ∃ out, policyResult o key req w = (some out, ⟨checked.2, s⟩) ∧
          out.blockReason = some .penalty
      else policyResult o key req w = (none, ⟨checked.2, s⟩) := by
  intro swept
  unfold policyResult penaltyCheckStores
  by_cases hskip : o.skip req = true
  · rw [if_pos hskip, if_pos (.inl hskip)]
    exact ⟨_, _, rfl, nofun⟩
  by_cases hallow : key ∈ o.allowlist
  · rw [if_neg hskip, if_pos hallow, if_pos (.inr (.inl hallow))]
    exact ⟨_, _, rfl, nofun⟩
  by_cases hblock : key ∈ o.blocklist
  · rw [if_neg hskip, if_neg hallow, if_pos hblock, if_pos (.inr (.inr hblock))]
    exact ⟨_, _, rfl, nofun⟩
  rw [if_neg hskip, if_neg hallow, if_neg hblock, if_neg (by tauto)]
  cases o.keyManager with
  | none =>
    dsimp only
    split
    · exact ⟨_, rfl, rfl⟩
    · rfl
  | some km =>
    dsimp only
    cases hb : (km.isBlocked key w.stores).1 with
    | true =>
      rw [if_pos rfl, if_pos rfl]
      exact ⟨_, _, rfl, nofun⟩
    | false =>
      rw [if_neg Bool.false_ne_true, if_neg Bool.false_ne_true]
      dsimp only
      split
      · exact ⟨_, rfl, rfl⟩
      · rfl

variable {o} {readings : List ℤ} {violations : κ → List ℤ}

/-- What is left to do after an increment does not refuse for a penalty. -/
theorem settle_not_penalty (hdraft : o.draft = false) (key : κ) (req : ρ) (g : IncrementOutcome)
    (w : World σ κ) :
    (∀ out, (settle o key req g w).1 = .ok out → out.blockReason ≠ some .penalty) ∧
      (settle o key req g w).2.engine =
        if g.result.isBlocked && !g.result.storeUnavailable then
          recordViolation o (o.clock w.stores) key w.engine
        else w.engine := by
  have hreason : (consumeResult g).blockReason ≠ some .penalty := by
    unfold consumeResult
    dsimp only
    split
    · split <;> exact nofun
    · exact nofun
  unfold settle
  rw [hdraft, Bool.and_false, Bool.false_and, if_neg Bool.false_ne_true]
  generalize recordViolation o (o.clock w.stores) key w.engine = recorded
  split
  · cases maybeOnLayerBlocks o req g.result with
    | error e =>
      refine ⟨fun out hout => ?_, rfl⟩
      cases hout
    | ok _ =>
      dsimp only
      cases callHook o.onLimitReached req g.result with
      | error e =>
        refine ⟨fun out hout => ?_, rfl⟩
        cases hout
      | ok _ =>
        refine ⟨fun out hout => ?_, rfl⟩
        obtain rfl := Except.ok.inj hout
        exact hreason
  · refine ⟨fun out hout => ?_, rfl⟩
    obtain rfl := Except.ok.inj hout
    exact hreason

/-- What a consume does to the maps: decided before the penalty check, refused by it, let
through without a violation or with one. -/
inductive ConsumeCase (o : RateLimitOptions ρ σ κ) (i : ConsumeInput ρ σ κ) (e e' : EngineState κ)
    (r : ConsumeReport κ) : Prop where
  | decided (hat : r.checkedAt = none) (hviolated : r.violatedAt = none)
      (hengine : e' = maybeSweepExpiredPenaltyEntries (o.clock i.stores) e)
  | refused (t : ℤ) (hat : r.checkedAt = some t) (hviolated : r.violatedAt = none)
      (hpenalty : r.isPenalty)
      (hactive : (isPenaltyActive t i.key
        (maybeSweepExpiredPenaltyEntries (o.clock i.stores) e)).1 = true)
      (hengine : e' = (isPenaltyActive t i.key
        (maybeSweepExpiredPenaltyEntries (o.clock i.stores) e)).2)
  | passed (t : ℤ) (hat : r.checkedAt = some t) (hpenalty : ¬ r.isPenalty)
      (hactive : (isPenaltyActive t i.key
        (maybeSweepExpiredPenaltyEntries (o.clock i.stores) e)).1 ≠ true)
      (hengine : e' = match r.violatedAt with
        | none => (isPenaltyActive t i.key
            (maybeSweepExpiredPenaltyEntries (o.clock i.stores) e)).2
        | some s => recordViolation o s i.key (isPenaltyActive t i.key
            (maybeSweepExpiredPenaltyEntries (o.clock i.stores) e)).2)

/-- A request reads the penalties, and records a violation at most. -/
theorem consumeStep_cases (hdraft : o.draft = false) (i : ConsumeInput ρ σ κ) (w : World σ κ) :
    ConsumeCase o i w.engine (consumeStep o i w).1.engine (consumeStep o i w).2 := by
  obtain ⟨key, req, stores⟩ := i
  have hpolicy := policyResult_cases o key req { w with stores := stores }
  dsimp only at hpolicy
  cases hcheck : penaltyCheckStores o key req stores with
  | none =>
    rw [hcheck] at hpolicy
    obtain ⟨out, s, hout, -⟩ := hpolicy
    refine .decided ?_ ?_ ?_
    · simp only [consumeStep, hcheck, Option.map_none]
    · simp only [consumeStep, violationStores, arrive, hout, Option.map_none]
    · simp only [consumeStep, consumeWithKey, arrive, hout]
  | some s =>
    rw [hcheck] at hpolicy
    dsimp only at hpolicy
    have hat : (consumeStep o ⟨key, req, stores⟩ w).2.checkedAt = some (o.clock s) := by
      simp only [consumeStep, hcheck, Option.map_some]
    split at hpolicy
    · next hactive =>
      obtain ⟨out, hout, hreason⟩ := hpolicy
      refine .refused (o.clock s) hat ?_ ⟨out, ?_, hreason⟩ hactive ?_
      · simp only [consumeStep, violationStores, arrive, hout, Option.map_none]
      · simp only [consumeStep, consumeWithKey, arrive, hout]
      · simp only [consumeStep, consumeWithKey, arrive, hout]
    · next hactive =>
      cases hinc : incrementStores o key (resolveIncrementOpts o req) s with
      | mk outcome s' =>
        cases outcome with
        | error e =>
          refine .passed (o.clock s) hat ?_ hactive ?_
          · rintro ⟨out, hout, -⟩
            simp only [consumeStep, consumeWithKey, arrive, hpolicy, hinc] at hout
            cases hout
          · simp only [consumeStep, consumeWithKey, violationStores, arrive, hpolicy, hinc,
              Option.map_none]
        | ok g =>
          obtain ⟨hreason, hengine⟩ := settle_not_penalty hdraft key req g ⟨(isPenaltyActive
            (o.clock s) key (maybeSweepExpiredPenaltyEntries (o.clock stores) w.engine)).2, s'⟩
          refine .passed (o.clock s) hat ?_ hactive ?_
          · rintro ⟨out, hout, hpenalty⟩
            simp only [consumeStep, consumeWithKey, arrive, hpolicy, hinc] at hout
            exact hreason out hout hpenalty
          · simp only [consumeStep, consumeWithKey, violationStores, arrive, hpolicy, hinc]
            rw [hengine]
            split <;> rfl

/-- The violations of two stretches. -/
theorem violationsOf_append (k : κ) (reports reports' : List (ConsumeReport κ)) :
    violationsOf k (reports ++ reports') = violationsOf k reports ++ violationsOf k reports' :=
  List.filterMap_append ..

/-- A consume without a violation leaves the violations as they are. -/
theorem violations_of_none {r : ConsumeReport κ} (hr : r.violatedAt = none) :
    (fun k => violations k ++ violationsOf k [r]) = violations := by
  funext k
  have hnil : violationsOf k [r] = [] := by
    simp only [violationsOf, List.filterMap_cons, hr, ite_self, List.filterMap_nil]
  rw [hnil, List.append_nil]

/-- A violation is added to those of its key. -/
theorem violations_of_some {r : ConsumeReport κ} {s : ℤ} (hr : r.violatedAt = some s) :
    (fun k => violations k ++ violationsOf k [r]) =
      Function.update violations r.key (violations r.key ++ [s]) := by
  funext k
  by_cases hk : k = r.key
  · subst hk
    simp [violationsOf, hr]
  · simp [violationsOf, Function.update_of_ne hk, Ne.symm hk]

/-- Readings in order are in the past of what follows. -/
theorem notBefore_of_pairwise (more : List ℤ) {t : ℤ}
    (h : (readings ++ t :: more).Pairwise (· ≤ ·)) : NotBefore readings t :=
  fun r hr => (List.pairwise_append.mp h).2.2 r hr t List.mem_cons_self

/-- One consume: the maps go on matching the log, and the penalty check follows it. -/
theorem Matches.consume (hdraft : o.draft = false) {w : World σ κ}
    (h : Matches o.penaltyBox readings w.engine violations) (i : ConsumeInput ρ σ κ)
    (hord : (readings ++ (consumeStep o i w).2.readings).Pairwise (· ≤ ·)) :
    Matches o.penaltyBox (readings ++ (consumeStep o i w).2.readings) (consumeStep o i w).1.engine
        (fun k => violations k ++ violationsOf k [(consumeStep o i w).2]) ∧
      ∀ t, (consumeStep o i w).2.checkedAt = some t →
        ((consumeStep o i w).2.isPenalty ↔ Penalized o.penaltyBox (violations i.key) t) := by
  have hreadings : (consumeStep o i w).2.readings = o.clock i.stores ::
      (consumeStep o i w).2.checkedAt.toList ++ (consumeStep o i w).2.violatedAt.toList := rfl
  have hkey : (consumeStep o i w).2.key = i.key := rfl
  have hswept := h.sweepPenalties (o.clock i.stores)
  rw [hreadings] at hord ⊢
  cases consumeStep_cases hdraft i w with
  | decided hat hviolated hengine =>
    rw [hat, hviolated, hengine, violations_of_none hviolated]
    exact ⟨hswept, nofun⟩
  | refused t hat hviolated hpenalty hactive hengine =>
    rw [hat, hviolated] at hord ⊢
    have hlate : NotBefore (readings ++ [o.clock i.stores]) t := by
      refine notBefore_of_pairwise [] ?_
      simpa using hord
    have hchecked := hswept.checked t i.key
    rw [hengine, violations_of_none hviolated]
    refine ⟨by simpa using hchecked, fun t' ht' => ?_⟩
    obtain rfl := Option.some.inj ht'
    exact iff_of_true hpenalty ((hswept.isPenaltyActive_iff hlate i.key).mp hactive)
  | passed t hat hpenalty hactive hengine =>
    have hlate : NotBefore (readings ++ [o.clock i.stores]) t := by
      rw [hat] at hord
      refine notBefore_of_pairwise (consumeStep o i w).2.violatedAt.toList ?_
      simpa using hord
    have hchecked := hswept.checked t i.key
    refine ⟨?_, fun t' ht' => ?_⟩
    · rw [hat, hengine]
      cases hviolated : (consumeStep o i w).2.violatedAt with
      | none =>
        rw [violations_of_none hviolated]
        simpa using hchecked
      | some s =>
        have hlast : NotBefore (readings ++ [o.clock i.stores] ++ [t]) s := by
          rw [hat, hviolated] at hord
          refine notBefore_of_pairwise [] ?_
          simpa using hord
        have hrecorded := hchecked.record hlast i.key
        rw [violations_of_some hviolated, hkey]
        simpa using hrecorded
    · rw [hat] at ht'
      obtain rfl := Option.some.inj ht'
      exact iff_of_false hpenalty fun hp =>
        hactive ((hswept.isPenaltyActive_iff hlate i.key).mpr hp)

/-! ## Main result -/

/-- A run: the maps match the violations so far. -/
theorem Matches.run (hdraft : o.draft = false) {w : World σ κ}
    (h : Matches o.penaltyBox readings w.engine violations) (is : List (ConsumeInput ρ σ κ))
    (hord : (readings ++ (outputs (consumeStep o) is w).flatMap ConsumeReport.readings).Pairwise
      (· ≤ ·)) :
    Matches o.penaltyBox
      (readings ++ (outputs (consumeStep o) is w).flatMap ConsumeReport.readings)
      (final (consumeStep o) is w).engine
      (fun k => violations k ++ violationsOf k (outputs (consumeStep o) is w)) := by
  induction is generalizing w readings violations with
  | nil => simpa [violationsOf] using h
  | cons i is ih =>
    rw [outputs_cons, List.flatMap_cons, ← List.append_assoc] at hord ⊢
    have hhead := h.consume hdraft i (List.pairwise_append.mp hord).1
    have htail := ih hhead.1 hord
    have hviolations : (fun k => violations k ++
        violationsOf k ((consumeStep o i w).2 :: outputs (consumeStep o) is (consumeStep o i w).1)) =
        fun k => violations k ++ violationsOf k [(consumeStep o i w).2] ++
          violationsOf k (outputs (consumeStep o) is (consumeStep o i w).1) := by
      funext k
      rw [List.append_assoc, ← violationsOf_append, List.singleton_append]
    rw [hviolations]
    exact htail

/-- In every run of consumes whose clock never goes back, a consume that comes to the penalty
check at `t` is refused by it exactly when some earlier violation of its key brought a penalty
that is still running at `t`. -/
theorem penaltyBox_follows_log (hdraft : o.draft = false) (s₀ : σ)
    (before : List (ConsumeInput ρ σ κ)) (i : ConsumeInput ρ σ κ)
    (hord : ((outputs (consumeStep o) (before ++ [i]) ⟨{}, s₀⟩).flatMap
      ConsumeReport.readings).Pairwise (· ≤ ·)) {t : ℤ}
    (ht : (consumeStep o i (final (consumeStep o) before ⟨{}, s₀⟩)).2.checkedAt = some t) :
    (consumeStep o i (final (consumeStep o) before ⟨{}, s₀⟩)).2.isPenalty ↔
      Penalized o.penaltyBox (violationsOf i.key (outputs (consumeStep o) before ⟨{}, s₀⟩)) t := by
  rw [outputs_append, List.flatMap_append, outputs_cons, outputs_nil, List.flatMap_cons,
    List.flatMap_nil, List.append_nil] at hord
  have hstart : Matches o.penaltyBox [] (⟨{}, s₀⟩ : World σ κ).engine fun _ => [] :=
    Matches.start
  have hrun : Matches o.penaltyBox _ _ _ :=
    hstart.run hdraft before (List.pairwise_append.mp hord).1
  exact (hrun.consume hdraft i hord).2 t ht

/-- One request a second, and a penalty of a minute for the first violation. -/
def strictEngine : MemoryEngineConfig Unit ℕ where
  strategy := .slidingWindow
  maxRequests := some (.value 1)
  penaltyBox := some { violationsThreshold := 1, penaltyDurationMs := 60000 }

/-- A store that has just taken a hit of key 7. -/
def spentStore : MemoryStore ℕ :=
  ((MemoryStore.sliding oneASecond (KeyTable.new 0)).increment 0 7 {}).1

/-- The second request violates the limit; the third comes within the minute. -/
theorem penaltyBox_follows_log_minute :
    (consumeStep strictEngine.options ⟨7, (), ⟨spentStore, 10⟩⟩
      (final (consumeStep strictEngine.options) [⟨7, (), ⟨spentStore, 5⟩⟩]
        ⟨{}, ⟨spentStore, 0⟩⟩)).2.isPenalty :=
  (penaltyBox_follows_log (o := strictEngine.options) rfl ⟨spentStore, 0⟩
    [⟨7, (), ⟨spentStore, 5⟩⟩] ⟨7, (), ⟨spentStore, 10⟩⟩ (by decide +kernel)
    (t := 10) (by decide +kernel)).mpr
    ⟨_, rfl, 5, by decide +kernel, by decide +kernel⟩

end RatelimitFlex
