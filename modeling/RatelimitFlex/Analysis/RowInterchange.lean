import RatelimitFlex.Model.WindowCounter

/-!
# Postgres and MongoDB are interchangeable

The rows of both stores stand for the same thing, so what an application asks for is answered
alike.  For fixed windows that is one counter a key (`WindowCounter`): a sweep or a pass of the
TTL monitor drops rows whose window is over and is never seen, at whatever moment it comes
(`fixedRows_answer_alike`).
-/

set_option autoImplicit false

namespace RatelimitFlex

open Library WindowCounter

variable {κ : Type} [DecidableEq κ]

/-! ## Fixed windows -/

/-- The counter a row holds. -/
def PgFixedRow.counter (row : PgFixedRow) : WindowCounter := ⟨row.totalHits, row.resetAt⟩

/-- The counter a document holds. -/
def FixedDocument.counter (doc : FixedDocument) : WindowCounter := ⟨doc.totalHits, doc.resetAt⟩

/-- From `t` on every key of the table shows the counter it should. -/
def ShowsCounters {ρ : Type} (view : ρ → WindowCounter) (t : ℤ)
    (counters : RowTable κ WindowCounter) (rows : RowTable κ ρ) : Prop :=
  ∀ k, live t ((rows k).map view) = live t (counters k)

section Shows

variable {ρ : Type} {view : ρ → WindowCounter} {t now : ℤ} {counters : RowTable κ WindowCounter}
  {rows : RowTable κ ρ}

omit [DecidableEq κ] in
/-- Rows that show counters do so later. -/
theorem ShowsCounters.mono (h : ShowsCounters view t counters rows) (ht : t ≤ now) :
    ShowsCounters view now counters rows :=
  fun k => live_mono (h k) ht

/-- The same operation on the row and on the counter of a key. -/
theorem ShowsCounters.update (h : ShowsCounters view now counters rows) (key : κ)
    {row : Option ρ} {c : Option WindowCounter} (hrow : live now (row.map view) = live now c) :
    ShowsCounters view now (Function.update counters key c) (Function.update rows key row) := by
  intro k
  by_cases hk : k = key
  · subst hk
    rwa [Function.update_self, Function.update_self]
  · rw [Function.update_of_ne hk, Function.update_of_ne hk]
    exact h k

omit [DecidableEq κ] in
/-- Rows whose window is over may go. -/
theorem ShowsCounters.deleteWhere (h : ShowsCounters view now counters rows) {p : κ → ρ → Bool}
    (hp : ∀ k r, rows k = some r → p k r = true → (view r).endsAt ≤ now) :
    ShowsCounters view now counters (rows.deleteWhere p) := by
  intro k
  rw [← h k, RowTable.deleteWhere]
  cases hr : rows k with
  | none => rfl
  | some r =>
    cases hpr : p k r with
    | false => rw [Option.filter_some, hpr, Bool.not_false, if_pos rfl]
    | true =>
      have hover := hp k r hr hpr
      rw [Option.filter_some, hpr, Bool.not_true, if_neg Bool.false_ne_true, Option.map_some,
        live_some, if_neg (by omega)]
      rfl

end Shows

/-- A machine over a table answers what is asked as the counters do, and keeps showing them. -/
def CountsAlike {ρ : Type} (o : WindowOptions) (view : ρ → WindowCounter)
    (step : Timed (RowOp κ) → RowTable κ ρ → RowTable κ ρ × StoreReply) : Prop :=
  ∀ i counters rows, ShowsCounters view i.time counters rows →
    (step i rows).2 = (counterStep o i counters).2 ∧
      ShowsCounters view i.time (counterStep o i counters).1 (step i rows).1

/-- The run lemma: housekeeping at any moment is never seen. -/
theorem CountsAlike.keptOutputs {ρ : Type} {o : WindowOptions} {view : ρ → WindowCounter}
    {step : Timed (RowOp κ) → RowTable κ ρ → RowTable κ ρ × StoreReply}
    (h : CountsAlike o view step) {is : List (Timed (RowOp κ))} {t : ℤ}
    (hord : OrderedFrom Timed.time t is) :
    keptOutputs (fun i => i.op.isAsked) step is RowTable.empty =
      outputs (counterStep o) (is.filter fun i => i.op.isAsked) RowTable.empty := by
  have hrun : Library.keptOutputs
        (fun i => (Option.guard (fun i : Timed (RowOp κ) => i.op.isAsked) i).isSome) step is
          RowTable.empty =
      outputs (counterStep o) (is.filterMap (Option.guard fun i => i.op.isAsked))
        RowTable.empty := by
    refine keptOutputs_eq_of_translation (R := fun t rows counters =>
      ShowsCounters view t counters rows) ?_ ?_ (fun k => rfl) hord
    · intro t rows counters i j hR ht hi
      obtain ⟨rfl, -⟩ := Option.guard_eq_some_iff.mp hi
      exact h i counters rows (hR.mono ht)
    · intro t rows counters i hR ht hi
      have hnext := (h i counters rows (hR.mono ht)).2
      have hsame : (counterStep o i counters).1 = counters := by
        obtain ⟨now, op⟩ := i
        cases op with
        | housekeeping picked => rfl
        | _ => simp [Option.guard, RowOp.isAsked] at hi
      rwa [hsame] at hnext
  rw [List.filterMap_eq_filter] at hrun
  simpa only [Option.isSome_guard] using hrun

/-! ### Postgres -/

/-- Postgres counts as the counters do. -/
theorem PgStore.countsAlike_fixed (o : WindowOptions) :
    CountsAlike o PgFixedRow.counter (PgStore.fixedRowStep (κ := κ) o) := by
  rintro ⟨now, op⟩ counters rows h
  cases op with
  | increment key options =>
    have hrow : live now ((rows key).map PgFixedRow.counter) = live now (counters key) := h key
    have hcharge : ((rows key).elim ⟨options.sanitizedCost, now + o.windowMs⟩
        (PgStore.updatedFixedRow o now options.sanitizedCost)).counter =
          WindowCounter.charge o.windowMs now options.sanitizedCost (counters key) := by
      rw [← charge_congr hrow]
      cases rows key with
      | none => rfl
      | some row =>
        simp only [Option.elim_some, Option.map_some, WindowCounter.charge, live_some,
          PgFixedRow.counter, PgStore.updatedFixedRow]
        by_cases hover : row.resetAt ≤ now
        · rw [if_pos hover, if_pos hover, if_neg (by omega)]
        · rw [if_neg hover, if_neg hover, if_pos (by omega)]
    refine ⟨?_, h.update key ?_⟩
    · show StoreReply.result _ = StoreReply.result _
      rw [← hcharge]
      rfl
    · rw [← hcharge]
      rfl
  | decrement key options =>
    refine ⟨rfl, h.update key ?_⟩
    have hrefund := live_refund (h key) options.sanitizedCost
    rw [← hrefund]
    cases rows key <;> rfl
  | get key =>
    refine ⟨?_, h⟩
    have hrow : live now ((rows key).map PgFixedRow.counter) = live now (counters key) := h key
    show StoreReply.snapshot _ = StoreReply.snapshot _
    rw [← hrow, PgStore.getFixed]
    cases rows key with
    | none => rfl
    | some row => exact congrArg StoreReply.snapshot (map_answer_live _ now row.counter).symm
  | set key totalHits expiresAt =>
    refine ⟨rfl, h.update key ?_⟩
    cases rows key <;> rfl
  | reset key => exact ⟨rfl, h.update key rfl⟩
  | housekeeping picked =>
    refine ⟨rfl, h.deleteWhere fun k row _ hp => ?_⟩
    exact (of_decide_eq_true hp).le

/-! ### MongoDB -/

/-- The pipeline charges the counter, from the epoch on. -/
theorem MongoStore.counter_fixedPipeline (o : WindowOptions) (now : ℤ) (cost : ℕ)
    (doc : Option FixedDocument) :
    (MongoStore.fixedPipeline o now cost doc).counter =
      WindowCounter.charge o.windowMs now cost (doc.map FixedDocument.counter) := by
  cases doc with
  | none =>
    simp only [MongoStore.fixedPipeline, Option.map_none, Option.getD_none, WindowCounter.charge,
      live_none, FixedDocument.counter, zero_add, ite_self]
  | some doc =>
    simp only [MongoStore.fixedPipeline, Option.map_some, Option.getD_some, WindowCounter.charge,
      live_some, FixedDocument.counter, decide_eq_true_eq]
    by_cases hended : doc.resetAt ≤ now
    · rw [if_pos hended, if_pos hended, if_neg (by omega)]
    · rw [if_neg hended, if_neg hended, if_pos (by omega)]

/-- The figures MongoDB computes for a window are those of the other stores. -/
theorem MongoStore.windowFigures (totalHits : ℤ) (cap : ℕ) (resetTime : ℤ) :
    ({ totalHits
       remaining := max 0 ((cap : ℤ) - totalHits)
       resetTime
       isBlocked := decide ((cap : ℤ) < totalHits) } : RateLimitResult) =
      .ofUsage totalHits cap resetTime := by
  rw [← RateLimitResult.remaining_ofUsage totalHits cap resetTime]
  rfl

/-- So does MongoDB. -/
theorem MongoStore.countsAlike_fixed (o : WindowOptions) :
    CountsAlike o FixedDocument.counter (MongoStore.fixedRowStep (κ := κ) o) := by
  rintro ⟨now, op⟩ counters rows h
  cases op with
  | increment key options =>
    have hrow : live now ((rows key).map FixedDocument.counter) = live now (counters key) := h key
    have hcharge := (MongoStore.counter_fixedPipeline o now options.sanitizedCost (rows key)).trans
      (charge_congr hrow o.windowMs options.sanitizedCost)
    refine ⟨?_, h.update key ?_⟩
    · show StoreReply.result _ = StoreReply.result _
      rw [← hcharge]
      exact congrArg StoreReply.result (MongoStore.windowFigures _ _ _)
    · rw [← hcharge]
      cases rows key <;> rfl
  | decrement key options =>
    refine ⟨rfl, h.update key ?_⟩
    have hrefund := live_refund (h key) options.sanitizedCost
    rw [← hrefund]
    cases rows key <;> rfl
  | get key =>
    refine ⟨?_, h⟩
    have hrow : live now ((rows key).map FixedDocument.counter) = live now (counters key) := h key
    show StoreReply.snapshot _ = StoreReply.snapshot _
    rw [← hrow, MongoStore.getFixed]
    cases rows key with
    | none => rfl
    | some doc => exact congrArg StoreReply.snapshot (map_answer_live _ now doc.counter).symm
  | set key totalHits expiresAt =>
    refine ⟨rfl, h.update key ?_⟩
    cases rows key <;> rfl
  | reset key => exact ⟨rfl, h.update key rfl⟩
  | housekeeping picked =>
    refine ⟨rfl, h.deleteWhere fun k doc _ hp => ?_⟩
    exact of_decide_eq_true (Bool.and_eq_true_iff.mp hp).2

/-- **Fixed windows are interchangeable.**  Whatever Postgres sweeps and MongoDB's TTL monitor
deletes meanwhile, at whatever moments, both answer the same requests alike, and as one counter a
key does that nothing is ever deleted from. -/
theorem fixedRows_answer_alike (o : WindowOptions) {is js : List (Timed (RowOp κ))} {t : ℤ}
    (his : OrderedFrom Timed.time t is) (hjs : OrderedFrom Timed.time t js)
    (hasked : is.filter (fun i => i.op.isAsked) = js.filter fun i => i.op.isAsked) :
    keptOutputs (fun i => i.op.isAsked) (PgStore.fixedRowStep o) is RowTable.empty =
        keptOutputs (fun i => i.op.isAsked) (MongoStore.fixedRowStep o) js RowTable.empty ∧
      keptOutputs (fun i => i.op.isAsked) (MongoStore.fixedRowStep o) js RowTable.empty =
        outputs (counterStep o) (is.filter fun i => i.op.isAsked) RowTable.empty := by
  have hpg := (PgStore.countsAlike_fixed (κ := κ) o).keptOutputs his
  have hmongo := (MongoStore.countsAlike_fixed (κ := κ) o).keptOutputs hjs
  rw [hpg, hmongo, hasked]
  exact ⟨rfl, rfl⟩

/-- Postgres sweeps the row before key 7 comes back; MongoDB gets round to it later. -/
theorem fixedRows_answer_alike_late_pass :
    let is : List (Timed (RowOp ℕ)) := [⟨0, .increment 7 {}⟩, ⟨1500, .housekeeping fun _ => true⟩,
      ⟨1600, .increment 7 {}⟩, ⟨1700, .get 7⟩]
    let js : List (Timed (RowOp ℕ)) := [⟨0, .increment 7 {}⟩, ⟨1600, .increment 7 {}⟩,
      ⟨1650, .housekeeping fun k => k = 7⟩, ⟨1700, .get 7⟩]
    keptOutputs (fun i => i.op.isAsked) (PgStore.fixedRowStep oneASecond) is RowTable.empty =
        keptOutputs (fun i => i.op.isAsked) (MongoStore.fixedRowStep oneASecond) js
          RowTable.empty ∧
      keptOutputs (fun i => i.op.isAsked) (MongoStore.fixedRowStep oneASecond) js RowTable.empty =
        outputs (counterStep oneASecond) (is.filter fun i => i.op.isAsked) RowTable.empty :=
  fixedRows_answer_alike oneASecond (t := 0) (by decide) (by decide) rfl

end RatelimitFlex
