import Mathlib.Algebra.BigOperators.Group.Finset.Piecewise
import RatelimitFlex.Analysis.CellCounts
import RatelimitFlex.Analysis.QueueSettlement
import RatelimitFlex.Program.QueuedMemory

/-!
# The quota that `RateLimiterQueue` spends

A drain loop that awaits an increment has charged the store for the entry it found at the
head.  When it resumes, the entry is resolved and the charge stays, or the charge is undone,
whichever other loop runs beside it.  So what the store counts for a key is the units of its
resolved entries and those of the increments in flight (`Balanced`, `Conserved`), and a
decrement never asks for more than its own increment added.
-/

set_option autoImplicit false

namespace RatelimitFlex

open Library

variable {κ : Type} [DecidableEq κ]

/-! ## Units -/

/-- What the store counts for the entry.
SOURCE: src/queue/RateLimiterQueue.ts:497-500, src/utils/clamp.ts:27-34 -/
def QueueEntry.units {κ : Type} (e : QueueEntry κ) : ℕ := sanitizeIncrementCost (some e.cost) 1

/-- The units of the entries of a key. -/
def keyUnits (k : κ) (es : List (QueueEntry κ)) : ℤ :=
  (es.map fun e => if e.key = k then (e.units : ℤ) else 0).sum

/-- What an output adds to the store's count of a key, or takes off it. -/
def QueueOutput.charge (k : κ) : QueueOutput κ → ℤ
  | .increment _ key options => if key = k then options.sanitizedCost else 0
  | .decrement _ key options => if key = k then -options.sanitizedCost else 0
  | _ => 0

/-- What the outputs charge a key. -/
def storeCharges (k : κ) (outs : List (QueueOutput κ)) : ℤ :=
  (outs.map (QueueOutput.charge k)).sum

/-- The output is a call of the store. -/
def QueueOutput.isCall {κ : Type} : QueueOutput κ → Bool
  | .increment _ _ _ => true
  | .decrement _ _ _ => true
  | _ => false

/-- The key an output increments. -/
def QueueOutput.incrementKey {κ : Type} : QueueOutput κ → Option κ
  | .increment _ key _ => some key
  | _ => none

/-- What a suspended loop has charged a key for. -/
def phaseUnits (k : κ) : Option (DrainPhase κ) → ℤ
  | some (.incrementing entry) => if entry.key = k then entry.units else 0
  | _ => 0

/-- The units of two stretches of entries. -/
theorem keyUnits_append (k : κ) (es es' : List (QueueEntry κ)) :
    keyUnits k (es ++ es') = keyUnits k es + keyUnits k es' := by
  simp only [keyUnits, List.map_append, List.sum_append]

/-- The charges of one output and those after it. -/
theorem storeCharges_cons (k : κ) (out : QueueOutput κ) (outs : List (QueueOutput κ)) :
    storeCharges k (out :: outs) = out.charge k + storeCharges k outs := by
  simp only [storeCharges, List.map_cons, List.sum_cons]

/-- Only a call of the store charges. -/
theorem QueueOutput.charge_of_not_call (k : κ) {out : QueueOutput κ} (h : out.isCall = false) :
    out.charge k = 0 := by
  cases out with
  | increment l key options => cases h
  | decrement l key options => cases h
  | refused error => rfl
  | accepted entry => rfl
  | settled entry settlement => rfl
  | thrown error => rfl
  | shutdownDone rejected drained => rfl
  | storeShutdown => rfl

/-- Only the calls charge. -/
theorem storeCharges_filter (k : κ) (outs : List (QueueOutput κ)) :
    storeCharges k (outs.filter QueueOutput.isCall) = storeCharges k outs := by
  induction outs with
  | nil => rfl
  | cons out outs ih =>
    rw [storeCharges_cons]
    cases hcall : out.isCall with
    | true => rw [List.filter_cons_of_pos hcall, storeCharges_cons, ih]
    | false =>
      rw [List.filter_cons_of_neg (by simp [hcall]), ih, QueueOutput.charge_of_not_call k hcall,
        zero_add]

/-- Units are not negative. -/
theorem keyUnits_nonneg (k : κ) (es : List (QueueEntry κ)) : 0 ≤ keyUnits k es := by
  refine List.sum_nonneg fun z hz => ?_
  obtain ⟨e, -, rfl⟩ := List.mem_map.mp hz
  split
  · exact Int.natCast_nonneg _
  · exact le_rfl

/-- Nor are those a loop is waiting for. -/
theorem phaseUnits_nonneg (k : κ) (p : Option (DrainPhase κ)) : 0 ≤ phaseUnits k p := by
  unfold phaseUnits
  split
  · split
    · exact Int.natCast_nonneg _
    · exact le_rfl
  · exact le_rfl

omit [DecidableEq κ] in
/-- The units of an integer cost are the cost. -/
theorem QueueEntry.units_of_ofInt {e : QueueEntry κ} {n : ℕ} (hcost : e.cost = JsNumber.ofInt n)
    (h1 : 1 ≤ n) (hn : n ≤ maxSafeInteger) : e.units = n := by
  rw [QueueEntry.units, hcost]
  exact sanitizeAtLeast_ofInt 1 h1 hn

namespace RateLimiterQueue

variable {o : QueueOptions} {s : RateLimiterQueue κ}

/-- The charges that suspended loops have not settled yet. -/
def inFlight (k : κ) (s : RateLimiterQueue κ) : ℤ :=
  ∑ l ∈ Finset.range s.nextLoop, phaseUnits k (s.loops l)

/-- Loops are numbered from zero on. -/
def LoopsFresh (s : RateLimiterQueue κ) : Prop := ∀ l, s.nextLoop ≤ l → s.loops l = none

/-- One run of the queue's code calls the store once at most; a key's new charges are its
resolved units and what is in flight in addition, and a decrement takes off no more than
what is in flight. -/
structure Balanced (s : RateLimiterQueue κ) (r : RateLimiterQueue κ × List (QueueOutput κ)) :
    Prop where
  fresh : LoopsFresh r.1
  balance : ∀ k, inFlight k r.1 + keyUnits k (resolvedEntries r.2) =
    inFlight k s + storeCharges k r.2
  calls : r.2.filter QueueOutput.isCall = [] ∨
    (∃ l key options, r.2.filter QueueOutput.isCall = [.increment l key options]) ∨
    ∃ l key options, r.2.filter QueueOutput.isCall = [.decrement l key options] ∧
      (options.sanitizedCost : ℤ) ≤ inFlight key s

/-- One loop's charge is among those in flight. -/
theorem phaseUnits_le_inFlight (k : κ) {l : ℕ} (hl : l < s.nextLoop) :
    phaseUnits k (s.loops l) ≤ inFlight k s :=
  Finset.single_le_sum (f := fun l => phaseUnits k (s.loops l))
    (fun l _ => phaseUnits_nonneg k (s.loops l)) (Finset.mem_range.mpr hl)

omit [DecidableEq κ] in
/-- A suspended loop has been started. -/
theorem LoopsFresh.lt (h : LoopsFresh s) {l : ℕ} {phase : DrainPhase κ}
    (hl : s.loops l = some phase) : l < s.nextLoop := by
  by_contra hle
  rw [h l (not_lt.mp hle)] at hl
  cases hl

/-- One loop goes on, or ends. -/
theorem inFlight_update {t : RateLimiterQueue κ} {l : ℕ} {p : Option (DrainPhase κ)}
    (hl : l < s.nextLoop) (hloops : t.loops = Function.update s.loops l p)
    (hnext : t.nextLoop = s.nextLoop) (k : κ) :
    inFlight k t + phaseUnits k (s.loops l) = inFlight k s + phaseUnits k p := by
  have hmem : l ∈ Finset.range s.nextLoop := Finset.mem_range.mpr hl
  have hcomp : (fun l' => phaseUnits k (t.loops l')) =
      Function.update (fun l' => phaseUnits k (s.loops l')) l (phaseUnits k p) := by
    rw [hloops]
    exact Function.comp_update (phaseUnits k) s.loops l p
  have hsum := Finset.sum_update_of_mem hmem (fun l' => phaseUnits k (s.loops l')) (phaseUnits k p)
  have hrest := Finset.sum_sdiff (f := fun l' => phaseUnits k (s.loops l'))
    (Finset.singleton_subset_iff.mpr hmem)
  rw [Finset.sum_singleton] at hrest
  have hnew : inFlight k t = phaseUnits k p +
      ∑ l' ∈ Finset.range s.nextLoop \ {l}, phaseUnits k (s.loops l') := by
    rw [← hsum, inFlight, hnext, ← hcomp]
  have hold : inFlight k s = ∑ l' ∈ Finset.range s.nextLoop, phaseUnits k (s.loops l') := rfl
  omega

omit [DecidableEq κ] in
/-- A loop that goes on, or ends, is not a new one. -/
theorem LoopsFresh.update (h : LoopsFresh s) {t : RateLimiterQueue κ} {l : ℕ}
    {p : Option (DrainPhase κ)} (hl : l < s.nextLoop)
    (hloops : t.loops = Function.update s.loops l p) (hnext : t.nextLoop = s.nextLoop) :
    LoopsFresh t := by
  intro l' hl'
  rw [hnext] at hl'
  rw [hloops, Function.update_of_ne (by omega)]
  exact h l' hl'

/-! ## One run of the queue's code -/

/-- Nothing is called, and the loops go on as they were. -/
theorem Balanced.of_loops (hfresh : LoopsFresh s) {s' : RateLimiterQueue κ}
    {outs : List (QueueOutput κ)} (hloops : s'.loops = s.loops) (hnext : s'.nextLoop = s.nextLoop)
    (hresolved : resolvedEntries outs = []) (hcalls : outs.filter QueueOutput.isCall = []) :
    Balanced s (s', outs) where
  fresh l hl := by
    rw [hloops]
    exact hfresh l (hnext ▸ hl)
  balance k := by
    have hcharges : storeCharges k outs = 0 := by
      rw [← storeCharges_filter, hcalls]
      rfl
    rw [hcharges, hresolved, inFlight, inFlight, hloops, hnext]
    rfl
  calls := Or.inl hcalls

/-- An output that is not a call and resolves nothing. -/
theorem Balanced.cons {r : RateLimiterQueue κ × List (QueueOutput κ)} (h : Balanced s r)
    {out : QueueOutput κ} (hresolved : out.resolvedEntry = none) (hcall : out.isCall = false)
    (hcharge : ∀ k, out.charge k = 0) : Balanced s (r.1, out :: r.2) where
  fresh := h.fresh
  balance k := by
    have hrest : resolvedEntries (out :: r.2) = resolvedEntries r.2 :=
      List.filterMap_cons_none hresolved
    rw [storeCharges_cons, hcharge k, zero_add, hrest]
    exact h.balance k
  calls := by
    have hrest : (out :: r.2).filter QueueOutput.isCall = r.2.filter QueueOutput.isCall :=
      List.filter_cons_of_neg (by simp [hcall])
    rw [hrest]
    exact h.calls

/-- The fields besides the loops do not matter. -/
theorem Balanced.congr {s' : RateLimiterQueue κ} {r : RateLimiterQueue κ × List (QueueOutput κ)}
    (h : Balanced s' r) (hloops : s'.loops = s.loops) (hnext : s'.nextLoop = s.nextLoop) :
    Balanced s r := by
  have hflight : ∀ k, inFlight k s' = inFlight k s := by
    intro k
    rw [inFlight, inFlight, hloops, hnext]
  refine ⟨h.fresh, fun k => ?_, ?_⟩
  · rw [← hflight k]
    exact h.balance k
  · simp only [← hflight]
    exact h.calls

/-- A loop at its head calls the increment for the entry it finds, or ends. -/
theorem inFlight_loopHead (o : QueueOptions) {l : ℕ} (hl : l < s.nextLoop) (k : κ) :
    inFlight k (loopHead o l s).1 + phaseUnits k (s.loops l) =
      inFlight k s + storeCharges k (loopHead o l s).2 := by
  unfold loopHead
  split
  · exact inFlight_update (t := s.endLoop l) (p := none) hl rfl rfl k
  · next entry _ =>
    have hupdate := inFlight_update (p := some (.incrementing entry))
      (t := { s with loops := Function.update s.loops l (some (.incrementing entry)) })
      hl rfl rfl k
    exact hupdate.trans (congrArg (inFlight k s + ·) (add_zero _).symm)

omit [DecidableEq κ] in
/-- The head of a loop starts no loop. -/
theorem fresh_loopHead (h : LoopsFresh s) (o : QueueOptions) {l : ℕ} (hl : l < s.nextLoop) :
    LoopsFresh (loopHead o l s).1 := by
  unfold loopHead
  split <;> exact h.update hl rfl rfl

omit [DecidableEq κ] in
/-- It calls the store once at most, for an increment. -/
theorem calls_loopHead (o : QueueOptions) (l : ℕ) (s : RateLimiterQueue κ) :
    (loopHead o l s).2.filter QueueOutput.isCall = [] ∨
      ∃ l' key options, (loopHead o l s).2.filter QueueOutput.isCall =
        [.increment l' key options] := by
  unfold loopHead
  split
  · exact Or.inl rfl
  · exact Or.inr ⟨_, _, _, rfl⟩

/-- A loop that has settled its charge comes to its head. -/
theorem balanced_loopHead (h : LoopsFresh s) (o : QueueOptions) {l : ℕ} (hl : l < s.nextLoop)
    (hphase : ∀ k, phaseUnits k (s.loops l) = 0) : Balanced s (loopHead o l s) where
  fresh := fresh_loopHead h o hl
  balance k := by
    have hhead := inFlight_loopHead o hl k
    rw [hphase k, add_zero] at hhead
    rw [(keepsQueue_loopHead o l s).quiet.2.2, hhead]
    exact add_zero _
  calls := (calls_loopHead o l s).imp_right Or.inl

/-- A drain keeps the balance of charges and units. -/
theorem balanced_drain (h : LoopsFresh s) (o : QueueOptions) : Balanced s (drain o s) := by
  unfold drain
  split
  · exact Balanced.of_loops h rfl rfl rfl rfl
  · let s' : RateLimiterQueue κ := { s with processing := true, nextLoop := s.nextLoop + 1 }
    have hnew : s'.loops s.nextLoop = none := h s.nextLoop le_rfl
    have hfresh : LoopsFresh s' := fun l hl => h l (Nat.le_of_succ_le hl)
    have hhead : Balanced s' (loopHead o s.nextLoop s') := by
      refine balanced_loopHead hfresh o (Nat.lt_succ_self _) fun k => ?_
      rw [hnew]
      rfl
    have hflight : ∀ k, inFlight k s' = inFlight k s := by
      intro k
      have hlast : phaseUnits k (s.loops s.nextLoop) = 0 := by
        rw [h s.nextLoop le_rfl]
        rfl
      have hsum : inFlight k s' = inFlight k s + phaseUnits k (s.loops s.nextLoop) :=
        Finset.sum_range_succ _ _
      rw [hsum, hlast, add_zero]
    refine ⟨hhead.fresh, fun k => ?_, ?_⟩
    · rw [← hflight k]
      exact hhead.balance k
    · simp only [← hflight]
      exact hhead.calls

omit [DecidableEq κ] in
/-- A window strategy undoes an increment with one decrement of the same units. -/
theorem undoCalls_eq (hstrategy : o.strategy ≠ .tokenBucket) (l : ℕ) (entry : QueueEntry κ)
    (isBlocked : Bool) : ∃ options : RateLimitDecrementOptions,
      undoCalls o l entry isBlocked = [.decrement l entry.key options] ∧
        options.sanitizedCost = entry.units := by
  unfold undoCalls
  cases hs : o.strategy with
  | tokenBucket => exact absurd hs hstrategy
  | slidingWindow => exact ⟨_, rfl, rfl⟩
  | fixedWindow => exact ⟨_, rfl, rfl⟩

/-- A loop undoes its increment. -/
theorem balanced_undo (hstrategy : o.strategy ≠ .tokenBucket) (h : LoopsFresh s) {l : ℕ}
    {entry : QueueEntry κ} (hl : s.loops l = some (.incrementing entry)) {phase : DrainPhase κ}
    (hphase : ∀ k, phaseUnits k (some phase) = 0) (isBlocked : Bool) :
    Balanced s ({ s with loops := Function.update s.loops l (some phase) },
      undoCalls o l entry isBlocked) := by
  obtain ⟨options, hundo, hunits⟩ := undoCalls_eq hstrategy l entry isBlocked
  have hlt := h.lt hl
  rw [hundo]
  refine ⟨h.update hlt rfl rfl, fun k => ?_, Or.inr (Or.inr ⟨_, _, _, rfl, ?_⟩)⟩
  · have hupdate := inFlight_update (p := some phase)
      (t := { s with loops := Function.update s.loops l (some phase) }) hlt rfl rfl k
    rw [hphase k, add_zero, hl] at hupdate
    have hcharge : storeCharges k [.decrement l entry.key options] =
        -phaseUnits k (some (.incrementing entry)) := by
      simp only [storeCharges, List.map_cons, List.map_nil, List.sum_cons, List.sum_nil,
        QueueOutput.charge, phaseUnits, hunits]
      split <;> simp
    have hnone : keyUnits k (resolvedEntries [QueueOutput.decrement l entry.key options]) = 0 := rfl
    rw [hcharge, hnone, add_zero]
    exact eq_add_neg_of_add_eq hupdate
  · have hle := phaseUnits_le_inFlight entry.key hlt
    rw [hl, phaseUnits, if_pos rfl] at hle
    rw [hunits]
    exact hle

/-- So does the answer to an increment. -/
theorem balanced_incremented (hstrategy : o.strategy ≠ .tokenBucket) (h : LoopsFresh s) (l : ℕ)
    (result : RateLimitResult) : Balanced s (s.incremented o l result) := by
  unfold RateLimiterQueue.incremented
  split
  · next entry hl =>
    simp only
    split
    · exact balanced_undo hstrategy h hl (fun k => rfl) _
    · split
      · exact balanced_undo hstrategy h hl (fun k => rfl) _
      · let s' : RateLimiterQueue κ := { s with
          queue := (s.queue.unlink entry).1
          timer := Function.update s.timer entry false }
        have hlt : l < s'.nextLoop := h.lt hl
        refine ⟨fresh_loopHead (s := s') h o hlt, fun k => ?_, ?_⟩
        · have hhead := inFlight_loopHead (s := s') o hlt k
          have hphase : phaseUnits k (s'.loops l) = keyUnits k [entry] := by
            have hsame : s'.loops l = some (.incrementing entry) := hl
            simp only [hsame, phaseUnits, keyUnits, List.map_cons, List.map_nil, List.sum_cons,
              List.sum_nil, add_zero]
          have hresolved : resolvedEntries (QueueOutput.settled entry
              (.resolved result.remaining result.resetTime) :: (loopHead o l s').2) = [entry] := by
            have hquiet := (keepsQueue_loopHead o l s').quiet.2.2
            have hsplit := resolvedEntries_append
              [QueueOutput.settled entry (.resolved result.remaining result.resetTime)]
              (loopHead o l s').2
            rw [hquiet] at hsplit
            exact hsplit
          rw [hphase] at hhead
          rw [hresolved, storeCharges_cons]
          have hcharge : QueueOutput.charge k (QueueOutput.settled entry
              (.resolved result.remaining result.resetTime)) = 0 := rfl
          rw [hcharge, zero_add]
          exact hhead
        · exact (calls_loopHead o l s').imp_right Or.inl
  · exact Balanced.of_loops h rfl rfl rfl rfl

/-- So does the answer to a decrement. -/
theorem balanced_undone (h : LoopsFresh s) (o : QueueOptions) (l : ℕ) (now : ℤ) :
    Balanced s (s.undone o l now) := by
  unfold RateLimiterQueue.undone
  split
  · next hl =>
    refine balanced_loopHead h o (h.lt hl) fun k => ?_
    rw [hl]
    rfl
  · next resetTime hl =>
    let t : RateLimiterQueue κ :=
      { s with drainTimer := some (max minBlockRetryDelayMs (resetTime - now)) }.endLoop l
    have hlt := h.lt hl
    refine ⟨h.update (t := t) (p := none) hlt rfl rfl, fun k => ?_, Or.inl rfl⟩
    have hupdate := inFlight_update (t := t) (p := none) hlt rfl rfl k
    rw [hl] at hupdate
    exact hupdate
  · exact Balanced.of_loops h rfl rfl rfl rfl

/-- So does a request that is accepted or refused. -/
theorem balanced_removeTokens (h : LoopsFresh s) (o : QueueOptions) (key : κ) (cost : JsNumber) :
    Balanced s (s.removeTokens o key cost) := by
  unfold RateLimiterQueue.removeTokens
  split
  · exact Balanced.of_loops h rfl rfl rfl rfl
  · let entry : QueueEntry κ := ⟨s.nextEntry, key, cost⟩
    let t : RateLimiterQueue κ := { s with
      queue := s.queue.enqueueTail entry
      timer := Function.update s.timer entry o.timesOut
      nextEntry := s.nextEntry + 1 }
    have hdrain : Balanced t (drain o t) := balanced_drain (s := t) h o
    have hs : Balanced s (drain o t) := hdrain.congr rfl rfl
    have haccepted : (QueueOutput.accepted entry).resolvedEntry = none := rfl
    exact hs.cons haccepted rfl fun k => rfl

/-- So does the timeout of an entry. -/
theorem balanced_queueTimeout (h : LoopsFresh s) (o : QueueOptions) (entry : QueueEntry κ) :
    Balanced s (s.queueTimeout o entry) := by
  unfold RateLimiterQueue.queueTimeout
  split
  · simp only
    split
    · refine Balanced.cons (Balanced.congr (balanced_drain ?_ o) ?_ ?_) rfl rfl fun k => rfl
      · split <;> exact h
      · split <;> rfl
      · split <;> rfl
    · exact Balanced.of_loops h rfl rfl rfl rfl
  · exact Balanced.of_loops h rfl rfl rfl rfl

/-- So does `clear`. -/
theorem balanced_clear (h : LoopsFresh s) : Balanced s s.clear := by
  unfold RateLimiterQueue.clear
  split
  · exact Balanced.of_loops h rfl rfl rfl rfl
  · refine Balanced.of_loops h rfl rfl ?_ ?_
    · simp [resolvedEntries, QueueOutput.resolvedEntry]
    · simp [QueueOutput.isCall]

/-- So does the drain timer. -/
theorem balanced_fireDrainTimer (h : LoopsFresh s) (o : QueueOptions) :
    Balanced s (s.fireDrainTimer o) := by
  unfold RateLimiterQueue.fireDrainTimer
  split
  · let t : RateLimiterQueue κ := { s with drainTimer := none, processing := false }
    have hdrain : Balanced t (drain o t) := balanced_drain (s := t) h o
    exact hdrain.congr rfl rfl
  · exact Balanced.of_loops h rfl rfl rfl rfl

/-! ## Accepted costs -/

/-- A cost the queue lets in. -/
def AcceptableCost (cost : JsNumber) : Prop := ∃ q : ℚ, cost = .finite q ∧ 1 ≤ q

omit [DecidableEq κ] in
/-- A request that is not refused has an acceptable cost. -/
theorem acceptableCost_of_refusal {cost : JsNumber} (h : s.refusal o cost = none) :
    AcceptableCost cost := by
  unfold refusal at h
  split at h
  · cases h
  · split at h
    · cases h
    · split at h
      · next q =>
        split at h
        · cases h
        · next hq => exact ⟨q, rfl, not_lt.mp hq⟩
      · cases h

/-- Every entry that is accepted has one. -/
theorem acceptable_removeTokens (o : QueueOptions) (key : κ) (cost : JsNumber) :
    ∀ e ∈ acceptedEntries (s.removeTokens o key cost).2, AcceptableCost e.cost := by
  unfold RateLimiterQueue.removeTokens
  split
  · exact fun e he => absurd he List.not_mem_nil
  · next hrefusal =>
    let entry : QueueEntry κ := ⟨s.nextEntry, key, cost⟩
    let t : RateLimiterQueue κ := { s with
      queue := s.queue.enqueueTail entry
      timer := Function.update s.timer entry o.timesOut
      nextEntry := s.nextEntry + 1 }
    intro e he
    have he : e ∈ entry :: acceptedEntries (drain o t).2 := he
    rw [(keepsQueue_drain o t).quiet.1, List.mem_singleton] at he
    rw [he]
    exact acceptableCost_of_refusal hrefusal

/-- A timeout accepts no entry. -/
theorem accepted_queueTimeout (o : QueueOptions) (entry : QueueEntry κ) :
    acceptedEntries (s.queueTimeout o entry).2 = [] := by
  unfold RateLimiterQueue.queueTimeout
  split
  · simp only
    split
    · exact (keepsQueue_drain o _).quiet.1
    · rfl
  · rfl

/-- `clear` accepts none. -/
theorem accepted_clear : acceptedEntries s.clear.2 = [] := by
  unfold RateLimiterQueue.clear
  split
  · rfl
  · simp [RateLimiterQueue.clearPending, acceptedEntries, QueueOutput.acceptedEntry]

/-- Nor does the answer to an increment. -/
theorem accepted_incremented (o : QueueOptions) (l : ℕ) (result : RateLimitResult) :
    acceptedEntries (s.incremented o l result).2 = [] := by
  unfold RateLimiterQueue.incremented
  split
  · next entry _ =>
    simp only
    split
    · exact (quiet_undoCalls o l entry _).1
    · split
      · exact (quiet_undoCalls o l entry _).1
      · exact (keepsQueue_loopHead o l _).quiet.1
  · rfl

/-- A call, a timer or a resumption, but no shutdown and no rejected store call. -/
def Plain : QueueEvent κ → Prop
  | .shutdown _ _ => False
  | .shutdownPoll => False
  | .storeRejected _ => False
  | _ => True

/-- **Every event keeps the balance.** -/
theorem balanced_step (hstrategy : o.strategy ≠ .tokenBucket) (h : LoopsFresh s)
    {e : QueueEvent κ} (he : Plain e) : Balanced s (step o e s) := by
  cases e with
  | removeTokens key cost => exact balanced_removeTokens h o key cost
  | clear => exact balanced_clear h
  | shutdown drainTimeoutMs reason => exact he.elim
  | queueTimeout entry => exact balanced_queueTimeout h o entry
  | drainTimer => exact balanced_fireDrainTimer h o
  | shutdownPoll => exact he.elim
  | incremented l result => exact balanced_incremented hstrategy h l result
  | undone l now => exact balanced_undone h o l now
  | storeRejected l => exact he.elim

/-- Every event accepts acceptable costs only. -/
theorem acceptable_step (o : QueueOptions) {e : QueueEvent κ} (he : Plain e) :
    ∀ entry ∈ acceptedEntries (step o e s).2, AcceptableCost entry.cost := by
  have hnone : ∀ {outs : List (QueueOutput κ)}, acceptedEntries outs = [] →
      ∀ entry ∈ acceptedEntries outs, AcceptableCost entry.cost := by
    intro outs houts entry hentry
    rw [houts] at hentry
    exact absurd hentry List.not_mem_nil
  cases e with
  | removeTokens key cost => exact acceptable_removeTokens o key cost
  | clear => exact hnone accepted_clear
  | shutdown drainTimeoutMs reason => exact he.elim
  | queueTimeout entry => exact hnone (accepted_queueTimeout o entry)
  | drainTimer => exact hnone (keepsQueue_fireDrainTimer o s).quiet.1
  | shutdownPoll => exact he.elim
  | incremented l result => exact hnone (accepted_incremented o l result)
  | undone l now => exact hnone (keepsQueue_undone o l now s).quiet.1
  | storeRejected l => exact he.elim

end RateLimiterQueue

/-! ## The store -/

namespace Cell

variable {t u now : ℤ} {x : Cell}

/-- A pruned cell has no wall expiry. -/
theorem Pruned.clearWall (h : x.Pruned t u) : x.clearWall now = x := by
  cases x with
  | sliding o e => rw [Cell.clearWall, unexpired_of_none now fun s hs => (h.2 s hs).1]
  | fixed o e => rfl
  | bucket o e => rfl

/-- A cleanup removes an entry without hits at most. -/
theorem Pruned.purge (h : x.Pruned t u) (hu : now ≤ u) :
    (x.purge now).Pruned t u ∧ (x.purge now).count u = x.count u := by
  cases x with
  | sliding o e =>
    cases e with
    | none => exact ⟨h, rfl⟩
    | some s =>
      have hlive : liveStamps o now s.stamps = s.stamps := by
        refine List.filter_eq_self.mpr fun ts hts => ?_
        have := (h.2 s rfl).2 ts hts
        simp only [decide_eq_true_eq]
        omega
      have hpurge : (Cell.sliding o (some s)).purge now =
          .sliding o (if s.stamps = [] then none else some s) := by
        simp only [Cell.purge, unexpired_of_none now fun s hs => (h.2 s hs).1, Option.bind_some,
          hlive]
        cases hs : s.stamps with
        | nil => rfl
        | cons ts rest =>
          rw [if_neg (List.cons_ne_nil ts rest)]
          simp only
          rw [← hs]
      rw [hpurge]
      split
      · next hs =>
        have hnone : (Cell.sliding o none).Pruned t u := ⟨h.1, by simp⟩
        refine ⟨hnone, ?_⟩
        rw [count_sliding, count_sliding, hnone.heldStamps_eq le_rfl, h.heldStamps_eq le_rfl,
          stampsOf_some, hs]
        rfl
      · exact ⟨h, rfl⟩
  | fixed o e =>
    cases e with
    | none => exact ⟨h, rfl⟩
    | some s =>
      have hrun := (h.2 s rfl).2
      have hpurge : (Cell.fixed o (some s)).purge now = .fixed o (some s) := by
        simp only [Cell.purge, Option.bind_some]
        rw [if_neg (by omega)]
      rw [hpurge]
      exact ⟨h, rfl⟩
  | bucket o e => exact h.elim

end Cell

namespace QueuedMemory

variable {o : QueueOptions} {s : QueuedMemory κ}

/-- No increment of the event evicts a key of the store. -/
def EvictsNothing (o : QueueOptions) (i : Timed (QueuedEvent κ)) (s : QueuedMemory κ) : Prop :=
  ∀ out ∈ (s.queueStep o i).2, ∀ key ∈ out.incrementKey, s.store.HasRoom key

instance (o : QueueOptions) (i : Timed (QueuedEvent κ)) (s : QueuedMemory κ) :
    Decidable (EvictsNothing o i s) :=
  inferInstanceAs (Decidable (∀ out ∈ (s.queueStep o i).2, ∀ key ∈ out.incrementKey,
    s.store.HasRoom key))

/-- Until `u` all that the store holds counts: the resolved entries and the increments in
flight. -/
structure Conserved (o : QueueOptions) (t u : ℤ) (outs : List (QueueOutput κ))
    (s : QueuedMemory κ) : Prop where
  listed : ∃ q, RateLimiterQueue.Listed o outs q s.queue
  costs : ∀ e ∈ acceptedEntries outs, RateLimiterQueue.AcceptableCost e.cost
  fresh : s.queue.LoopsFresh
  pruned : ∀ k, (s.store.cell k).Pruned t u
  count : ∀ k, (s.store.cell k).count u =
    keyUnits k (resolvedEntries outs) + s.queue.inFlight k

/-- Neither has a store of pruned cells. -/
theorem noWall_of_pruned {t u : ℤ} {store : MemoryStore κ}
    (h : ∀ k, (store.cell k).Pruned t u) : store.NoWall := by
  cases store with
  | sliding w m => exact fun k s hs => ((h k).2 s hs).1
  | fixed w m => trivial
  | bucket w m => trivial

/-- Only the calls among the outputs reach the store. -/
theorem foldl_perform_filter (now : ℤ) (outs : List (QueueOutput κ)) (s : QueuedMemory κ) :
    outs.foldl (perform now) s = (outs.filter QueueOutput.isCall).foldl (perform now) s := by
  induction outs generalizing s with
  | nil => rfl
  | cons out outs ih =>
    cases hcall : out.isCall with
    | true => rw [List.filter_cons_of_pos hcall, List.foldl_cons, List.foldl_cons, ih]
    | false =>
      have hkeep : perform now s out = s := by
        cases out with
        | increment l key options => cases hcall
        | decrement l key options => cases hcall
        | refused error => rfl
        | accepted entry => rfl
        | settled entry settlement => rfl
        | thrown error => rfl
        | shutdownDone rejected drained => rfl
        | storeShutdown => rfl
      rw [List.filter_cons_of_neg (by simp [hcall]), List.foldl_cons, hkeep, ih]

/-- The calls of one run of the queue's code keep the store's cells and their counts. -/
theorem count_perform {t u now : ℤ} (queue : RateLimiterQueue κ) {outs : List (QueueOutput κ)}
    (hpruned : ∀ k, (s.store.cell k).Pruned t u) (ht : t ≤ now) (hu : now ≤ u)
    (hroom : ∀ out ∈ outs, ∀ key ∈ out.incrementKey, s.store.HasRoom key)
    (hcalls : outs.filter QueueOutput.isCall = [] ∨
      (∃ l key options, outs.filter QueueOutput.isCall = [.increment l key options]) ∨
      ∃ l key options, outs.filter QueueOutput.isCall = [.decrement l key options] ∧
        (options.sanitizedCost : ℤ) ≤ (s.store.cell key).count u) :
    let s' := outs.foldl (perform now) { s with queue }
    s'.queue = queue ∧ ∀ k, (s'.store.cell k).Pruned t u ∧
      (s'.store.cell k).count u = (s.store.cell k).count u + storeCharges k outs := by
  simp only [← storeCharges_filter _ outs]
  rw [foldl_perform_filter]
  rcases hcalls with hnone | ⟨l, key, options, hcall⟩ | ⟨l, key, options, hcall, hcovered⟩
  · rw [hnone]
    exact ⟨rfl, fun k => ⟨hpruned k, (add_zero _).symm⟩⟩
  · have hmem : QueueOutput.increment l key options ∈ outs :=
      List.mem_of_mem_filter (hcall ▸ List.mem_singleton_self _)
    rw [hcall]
    refine ⟨rfl, fun k => ?_⟩
    have hcell : (s.store.increment now key options).1.cell k =
        if k = key then ((s.store.cell key).increment now options).1 else s.store.cell k :=
      MemoryStore.cell_increment (noWall_of_pruned hpruned) (hroom _ hmem key rfl) options k
    have hstep := ((hpruned key).steady (ht.trans hu)).increment ht hu options
    rw [(hpruned key).clearWall] at hstep
    simp only [List.foldl_cons, List.foldl_nil, perform, hcell, storeCharges, List.map_cons,
      List.map_nil, List.sum_cons, List.sum_nil, add_zero, QueueOutput.charge]
    by_cases hk : k = key
    · subst hk
      rw [if_pos rfl, if_pos rfl]
      exact hstep
    · rw [if_neg hk, if_neg (Ne.symm hk), add_zero]
      exact ⟨hpruned k, rfl⟩
  · rw [hcall]
    refine ⟨rfl, fun k => ?_⟩
    have hcell : (s.store.decrement key options).cell k =
        if k = key then (s.store.cell key).decrement options else s.store.cell k :=
      MemoryStore.cell_decrement options k
    have hstep := (hpruned key).decrement hcovered
    simp only [List.foldl_cons, List.foldl_nil, perform, hcell, storeCharges, List.map_cons,
      List.map_nil, List.sum_cons, List.sum_nil, add_zero, QueueOutput.charge]
    by_cases hk : k = key
    · subst hk
      rw [if_pos rfl, if_pos rfl]
      exact hstep
    · rw [if_neg hk, if_neg (Ne.symm hk), add_zero]
      exact ⟨hpruned k, rfl⟩

/-! ## One event, and a run -/

/-- An event is a run of the queue's code with its calls, a cleanup of the store, or nothing. -/
theorem step_cases (o : QueueOptions) (i : Timed (QueuedEvent κ)) (s : QueuedMemory κ) :
    (∃ e, RateLimiterQueue.Plain e ∧ s.queueStep o i = s.queue.step o e ∧ s.step o i =
      ((s.queueStep o i).2.foldl (perform i.time) { s with queue := (s.queueStep o i).1 },
        (s.queueStep o i).2)) ∨
    s.step o i = ({ s with store := s.store.purgeExpired i.time }, []) ∨ s.step o i = (s, []) := by
  obtain ⟨now, op⟩ := i
  cases op with
  | removeTokens key cost => exact Or.inl ⟨.removeTokens key cost, trivial, rfl, rfl⟩
  | clear => exact Or.inl ⟨.clear, trivial, rfl, rfl⟩
  | queueTimeout entry => exact Or.inl ⟨.queueTimeout entry, trivial, rfl, rfl⟩
  | drainTimer => exact Or.inl ⟨.drainTimer, trivial, rfl, rfl⟩
  | resume l =>
    cases hl : s.queue.loops l with
    | none => exact Or.inl ⟨.undone l now, trivial, by simp only [queueStep, hl], rfl⟩
    | some phase =>
      cases phase with
      | undoingStale calls =>
        exact Or.inl ⟨.undone l now, trivial, by simp only [queueStep, hl], rfl⟩
      | undoingBlocked calls resetTime =>
        exact Or.inl ⟨.undone l now, trivial, by simp only [queueStep, hl], rfl⟩
      | incrementing entry =>
        cases ha : s.answers l with
        | some result =>
          exact Or.inl ⟨.incremented l result, trivial, by simp only [queueStep, hl, ha], rfl⟩
        | none =>
          refine Or.inr (Or.inr ?_)
          simp only [step, queueStep, hl, ha, List.foldl_nil]
  | purgeExpired => exact Or.inr (Or.inl rfl)

/-- A run of the queue's code and its calls. -/
theorem Conserved.perform {t u now : ℤ} {outs : List (QueueOutput κ)}
    (h : Conserved o t u outs s) (ht : t ≤ now) (hu : now ≤ u)
    {r : RateLimiterQueue κ × List (QueueOutput κ)} (hbalanced : s.queue.Balanced r)
    (hlisted : ∀ q, RateLimiterQueue.Listed o outs q s.queue →
      RateLimiterQueue.ListedStep o outs r)
    (hcosts : ∀ e ∈ acceptedEntries r.2, RateLimiterQueue.AcceptableCost e.cost)
    (hroom : ∀ out ∈ r.2, ∀ key ∈ out.incrementKey, s.store.HasRoom key) :
    Conserved o t u (outs ++ r.2)
      (r.2.foldl (QueuedMemory.perform now) { s with queue := r.1 }) := by
  have hcalls : r.2.filter QueueOutput.isCall = [] ∨
      (∃ l key options, r.2.filter QueueOutput.isCall = [.increment l key options]) ∨
      ∃ l key options, r.2.filter QueueOutput.isCall = [.decrement l key options] ∧
        (options.sanitizedCost : ℤ) ≤ (s.store.cell key).count u := by
    refine hbalanced.calls.imp_right (Or.imp_right ?_)
    rintro ⟨l, key, options, hcall, hle⟩
    refine ⟨l, key, options, hcall, hle.trans ?_⟩
    rw [h.count key]
    exact le_add_of_nonneg_left (keyUnits_nonneg _ _)
  obtain ⟨hqueue, hcells⟩ := count_perform r.1 h.pruned ht hu hroom hcalls
  refine ⟨?_, ?_, ?_, fun k => (hcells k).1, fun k => ?_⟩
  · obtain ⟨q, hq⟩ := h.listed
    obtain ⟨q', hq'⟩ := hlisted q hq
    exact ⟨q', hq'.congr (by rw [hqueue]) (by rw [hqueue])⟩
  · intro e he
    rw [acceptedEntries_append] at he
    rcases List.mem_append.mp he with he | he
    · exact h.costs e he
    · exact hcosts e he
  · rw [hqueue]
    exact hbalanced.fresh
  · have hbalance := hbalanced.balance k
    rw [hqueue, (hcells k).2, h.count k, resolvedEntries_append, keyUnits_append]
    omega

/-- A cleanup of the store. -/
theorem Conserved.purgeExpired {t u now : ℤ} {outs : List (QueueOutput κ)}
    (h : Conserved o t u outs s) (hu : now ≤ u) :
    Conserved o t u outs { s with store := s.store.purgeExpired now } := by
  refine ⟨h.listed, h.costs, h.fresh, fun k => ?_, fun k => ?_⟩
  · rw [MemoryStore.cell_purgeExpired]
    exact ((h.pruned k).purge hu).1
  · rw [MemoryStore.cell_purgeExpired, ((h.pruned k).purge hu).2]
    exact h.count k

/-- One event that evicts nothing. -/
theorem Conserved.step {t u : ℤ} {outs : List (QueueOutput κ)} (h : Conserved o t u outs s)
    (hstrategy : o.strategy ≠ .tokenBucket) {i : Timed (QueuedEvent κ)} (ht : t ≤ i.time)
    (hu : i.time ≤ u) (hroom : EvictsNothing o i s) :
    Conserved o t u (outs ++ (step o i s).2) (step o i s).1 := by
  rcases step_cases o i s with ⟨e, hplain, hrun, hstep⟩ | hstep | hstep
  · rw [hstep]
    refine h.perform ht hu ?_ (fun q hq => ?_) ?_ hroom
    · rw [hrun]
      exact RateLimiterQueue.balanced_step hstrategy h.fresh hplain
    · rw [hrun]
      exact hq.step e
    · rw [hrun]
      exact RateLimiterQueue.acceptable_step o hplain
  · rw [hstep, List.append_nil]
    exact h.purgeExpired hu
  · rw [hstep, List.append_nil]
    exact h

/-- What a run of the queue does outside, in order. -/
def runOutputs (o : QueueOptions) (xs : List (Timed (QueuedEvent κ))) (s : QueuedMemory κ) :
    List (QueueOutput κ) :=
  (outputs (step o) xs s).flatten

/-- **Every run conserves the quota**, as long as nothing is evicted. -/
theorem Conserved.run {t u : ℤ} {outs : List (QueueOutput κ)} (h : Conserved o t u outs s)
    (hstrategy : o.strategy ≠ .tokenBucket) {xs : List (Timed (QueuedEvent κ))}
    (htimes : ∀ i ∈ xs, t ≤ i.time ∧ i.time ≤ u)
    (hroom : Guarded (EvictsNothing o) (QueuedMemory.step o) xs s) :
    Conserved o t u (outs ++ runOutputs o xs s) (final (QueuedMemory.step o) xs s) := by
  induction xs generalizing outs s with
  | nil =>
    rw [show runOutputs o [] s = [] from rfl, List.append_nil]
    exact h
  | cons i xs ih =>
    obtain ⟨hi, hxs⟩ := List.forall_mem_cons.mp htimes
    have hnext := ih (h.step hstrategy hi.1 hi.2 hroom.1) hxs hroom.2
    rw [List.append_assoc] at hnext
    exact hnext

/-- A new store holds nothing. -/
theorem conserved_new (o : QueueOptions) (w : WindowOptions) (maxKeys : ℕ)
    {t u : ℤ} (hu : u < t + w.windowMs) :
    Conserved o t u [] (QueuedMemory.new o w maxKeys : QueuedMemory κ) where
  listed := ⟨[], RateLimiterQueue.listed_init o⟩
  costs e he := absurd he List.not_mem_nil
  fresh l hl := rfl
  pruned k := by
    unfold QueuedMemory.new
    cases o.strategy <;> exact ⟨hu, by simp⟩
  count k := by
    unfold QueuedMemory.new
    cases o.strategy <;> rfl

end QueuedMemory

/-! ## Main result -/

/-- **The queue conserves quota.**  Over a window store of its own that evicts no key, with all
events within one window, loops, timeouts and clears interleaved in any order: entries resolve
in the order they were enqueued, and when no drain loop is suspended the store counts for each
key the units of its resolved entries, an integer cost being so many units.
SOURCE: src/queue/RateLimiterQueue.ts:435-536, src/stores/memory-store.ts:795-907 -/
theorem queue_conserves_quota (o : QueueOptions) (w : WindowOptions) (maxKeys : ℕ) (t₀ : ℤ)
    (hstrategy : o.strategy ≠ .tokenBucket) (xs : List (Timed (QueuedEvent κ)))
    (hwindow : ∀ i ∈ xs, t₀ ≤ i.time ∧ i.time < t₀ + w.windowMs)
    (hroom : Guarded (QueuedMemory.EvictsNothing o) (QueuedMemory.step o) xs
      (QueuedMemory.new o w maxKeys)) :
    let s := final (QueuedMemory.step o) xs (QueuedMemory.new o w maxKeys)
    let outs := QueuedMemory.runOutputs o xs (QueuedMemory.new o w maxKeys)
    (acceptedEntries outs).Nodup ∧ (resolvedEntries outs).Sublist (acceptedEntries outs) ∧
      (∀ e ∈ acceptedEntries outs, ∀ n : ℕ, e.cost = JsNumber.ofInt n → n ≤ maxSafeInteger →
        e.units = n) ∧
      ((∀ l, s.queue.loops l = none) → ∀ now k, t₀ ≤ now → now < t₀ + w.windowMs →
        storeCount now k s.store = keyUnits k (resolvedEntries outs)) := by
  intro s outs
  have hnew : QueuedMemory.Conserved o t₀ (t₀ + w.windowMs - 1) []
      (QueuedMemory.new o w maxKeys : QueuedMemory κ) :=
    QueuedMemory.conserved_new o w maxKeys (by omega)
  have hrun := hnew.run hstrategy
    (fun i hi => ⟨(hwindow i hi).1, Int.le_sub_one_of_lt (hwindow i hi).2⟩) hroom
  rw [List.nil_append] at hrun
  obtain ⟨q, hq⟩ := hrun.listed
  refine ⟨hq.nodup, (List.sublist_append_left _ q).trans hq.fifo, ?_, ?_⟩
  · intro e he n hcost hn
    obtain ⟨c, hfinite, hc⟩ := hrun.costs e he
    refine QueueEntry.units_of_ofInt hcost ?_ hn
    rw [hcost, JsNumber.ofInt, JsNumber.finite.injEq] at hfinite
    rw [← hfinite] at hc
    exact_mod_cast hc
  · intro hidle now k ht hu
    have hpos := w.windowMs_pos
    have hsteady := (hrun.pruned k).steady (by omega)
    have hflight : s.queue.inFlight k = 0 :=
      Finset.sum_eq_zero fun l _ => by rw [hidle l]; rfl
    rw [storeCount_eq, hsteady.count_eq ht (by omega), hrun.count k, hflight, add_zero]

/-- A clear leaves the first loop beside a second one; both charge the key for the entry that
came after, the first one's charge is undone. -/
theorem queue_conserves_quota_two_loops :
    let s := final (QueuedMemory.step { maxRequests := 2 })
      [⟨0, .removeTokens 1 1⟩, ⟨1, .clear⟩, ⟨2, .removeTokens 1 1⟩, ⟨3, .resume 0⟩, ⟨4, .resume 0⟩,
        ⟨5, .resume 1⟩, ⟨6, .resume 0⟩, ⟨7, .resume 0⟩]
      (QueuedMemory.new { maxRequests := 2 } twoASecond 1 : QueuedMemory ℕ)
    (∀ l, s.queue.loops l = none) ∧ storeCount 8 1 s.store = 1 := by
  have hquota := queue_conserves_quota (κ := ℕ) { maxRequests := 2 } twoASecond 1 0 (by decide)
    [⟨0, .removeTokens 1 1⟩, ⟨1, .clear⟩, ⟨2, .removeTokens 1 1⟩, ⟨3, .resume 0⟩, ⟨4, .resume 0⟩,
      ⟨5, .resume 1⟩, ⟨6, .resume 0⟩, ⟨7, .resume 0⟩] (by decide) (by decide)
  have hidle : ∀ l, (final (QueuedMemory.step { maxRequests := 2 })
      [⟨0, .removeTokens 1 1⟩, ⟨1, .clear⟩, ⟨2, .removeTokens 1 1⟩, ⟨3, .resume 0⟩, ⟨4, .resume 0⟩,
        ⟨5, .resume 1⟩, ⟨6, .resume 0⟩, ⟨7, .resume 0⟩]
      (QueuedMemory.new { maxRequests := 2 } twoASecond 1 : QueuedMemory ℕ)).queue.loops l =
        none := by
    intro l
    rcases l with _ | _ | l
    · rfl
    · rfl
    · rfl
  refine ⟨hidle, ?_⟩
  rw [hquota.2.2.2 hidle 8 1 (by decide) (by decide)]
  decide

/-- With room for one key only, the entry of the other is resolved and forgotten. -/
theorem queue_quota_evicted :
    let s := final (QueuedMemory.step { maxRequests := 2 })
      [⟨0, .removeTokens 1 1⟩, ⟨1, .resume 0⟩, ⟨2, .removeTokens 2 1⟩, ⟨3, .resume 1⟩]
      (QueuedMemory.new { maxRequests := 2 } twoASecond 1 : QueuedMemory ℕ)
    let outs := QueuedMemory.runOutputs { maxRequests := 2 }
      [⟨0, .removeTokens 1 1⟩, ⟨1, .resume 0⟩, ⟨2, .removeTokens 2 1⟩, ⟨3, .resume 1⟩]
      (QueuedMemory.new { maxRequests := 2 } twoASecond 1 : QueuedMemory ℕ)
    (∀ l, s.queue.loops l = none) ∧ keyUnits 1 (resolvedEntries outs) = 1 ∧
      storeCount 4 1 s.store = 0 := by
  refine ⟨fun l => ?_, by decide, by decide⟩
  rcases l with _ | _ | l
  · rfl
  · rfl
  · rfl

end RatelimitFlex
