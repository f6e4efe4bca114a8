import RatelimitFlex.Analysis.MemorySliding
import RatelimitFlex.Model.HeldHits

/-!
# The sweep and the sliding windows of `PgStore`

An insert and a decrement store `reset_at` as the newest hit and the window, the conflict
branch of an increment as the newest hit alone (`RowWf`).  A sweep reads `reset_at` only,
so it deletes a live row exactly when the conflict branch wrote it last and the newest hit
is past but still in the window (`sweepWaits`).  In runs without such a sweep the table
answers as the held hits do (`Held`, `sliding_step_held`).
-/

set_option autoImplicit false

namespace RatelimitFlex

open Library SlidingLog

variable {κ : Type} [DecidableEq κ] {o : WindowOptions} {t now : ℤ}

namespace PgStore

/-! ## `reset_at` -/

/-- The row counts its hits, the newest of which is at most `t`; `reset_at` is the newest
hit, with or without the window. -/
structure RowWf (o : WindowOptions) (t : ℤ) (row : SlidingRow) : Prop where
  totalHits : row.totalHits = row.hits.length
  newest : ∃ m, row.hits.max? = some m ∧ m ≤ t ∧
    (row.resetAt = m ∨ row.resetAt = m + o.windowMs)

/-- Every row is well formed. -/
def TableWf (o : WindowOptions) (t : ℤ) (s : RowTable κ SlidingRow) : Prop :=
  ∀ k row, s k = some row → RowWf o t row

omit [DecidableEq κ] in
/-- No rows are well formed. -/
theorem tableWf_empty (o : WindowOptions) (t : ℤ) :
    TableWf o t (RowTable.empty : RowTable κ SlidingRow) := by
  intro k row h
  simp at h

/-- A well-formed row stays so as time passes. -/
theorem RowWf.mono {row : SlidingRow} (h : RowWf o t row) (ht : t ≤ now) : RowWf o now row := by
  obtain ⟨m, hm, hle, hreset⟩ := h.newest
  exact ⟨h.totalHits, m, hm, hle.trans ht, hreset⟩

/-- Its hits are all in the past. -/
theorem RowWf.le {row : SlidingRow} (h : RowWf o t row) : ∀ x ∈ row.hits, x ≤ t := by
  obtain ⟨m, hm, hle, -⟩ := h.newest
  intro x hx
  exact ((List.max?_eq_some_iff.mp hm).2 x hx).trans hle

/-- With a new hit at `now` and none after it, `now` is the newest. -/
theorem max?_append_replicate {l : List ℤ} {cost : ℕ} (hl : ∀ x ∈ l, x ≤ now) (hcost : 1 ≤ cost) :
    (l ++ List.replicate cost now).max? = some now := by
  refine List.max?_eq_some_iff.mpr ⟨?_, ?_⟩
  · exact List.mem_append_right l (List.mem_replicate.mpr ⟨by omega, rfl⟩)
  · intro x hx
    rcases List.mem_append.mp hx with hx | hx
    · exact hl x hx
    · exact (List.eq_of_mem_replicate hx).le

/-- A row that is inserted is well formed. -/
theorem rowWf_inserted (o : WindowOptions) (now : ℤ) {cost : ℕ} (hcost : 1 ≤ cost) :
    RowWf o now (insertedSlidingRow o now cost) where
  totalHits := by simp [insertedSlidingRow]
  newest :=
    ⟨now, max?_append_replicate (l := []) (by simp) hcost, le_rfl, Or.inr rfl⟩

/-- The newest of the merged hits is the one just made. -/
theorem max?_mergedHits {hits : List ℤ} {cost : ℕ} (hle : ∀ x ∈ hits, x ≤ now)
    (hcost : 1 ≤ cost) : (mergedHits o now cost hits).max? = some now := by
  refine max?_append_replicate (fun x hx => ?_) hcost
  have hmem := ((List.perm_insertionSort (· ≤ ·) _).mem_iff).mp hx
  exact hle x (List.mem_filter.mp hmem).1

/-- A row that is merged stays well formed. -/
theorem RowWf.merged {row : SlidingRow} (h : RowWf o t row) (ht : t ≤ now) {cost : ℕ}
    (hcost : 1 ≤ cost) : RowWf o now (mergedSlidingRow o now cost row) := by
  have hmax := max?_mergedHits (o := o) (fun x hx => (h.le x hx).trans ht) hcost
  refine ⟨rfl, now, hmax, le_rfl, Or.inl ?_⟩
  simp [mergedSlidingRow, hmax]

/-- What a decrement keeps was there. -/
theorem keptHits_subset (cost : ℕ) (removeNewest : Bool) (hits : List ℤ) :
    ∀ x ∈ keptHits cost removeNewest hits, x ∈ hits := by
  intro x hx
  unfold keptHits at hx
  cases removeNewest with
  | false => exact List.mem_of_mem_drop hx
  | true => exact List.mem_of_mem_take hx

/-- It keeps as many as it does not take. -/
theorem length_keptHits {cost : ℕ} {hits : List ℤ} (h : cost ≤ hits.length)
    (removeNewest : Bool) : (keptHits cost removeNewest hits).length = hits.length - cost := by
  unfold keptHits
  cases removeNewest with
  | false =>
    simp only [Bool.false_eq_true, if_false, List.length_drop]
    omega
  | true => simp

/-- A row with more hits than the cost keeps the rest. -/
theorem decrementedSlidingRow_of_lt {row : SlidingRow} {cost : ℕ} (h : cost < row.hits.length)
    (now : ℤ) (removeNewest : Bool) :
    decrementedSlidingRow o now cost removeNewest row =
      some ⟨(keptHits cost removeNewest row.hits).length,
        (keptHits cost removeNewest row.hits).max?.getD now + o.windowMs,
        keptHits cost removeNewest row.hits⟩ := by
  simp only [decrementedSlidingRow]
  rw [if_neg (by omega)]

/-- Any other row is deleted. -/
theorem decrementedSlidingRow_of_le {row : SlidingRow} {cost : ℕ} (h : row.hits.length ≤ cost)
    (now : ℤ) (removeNewest : Bool) :
    decrementedSlidingRow o now cost removeNewest row = none := by
  simp only [decrementedSlidingRow]
  rw [if_pos (Or.inr h)]

/-- A row after a decrement is well formed. -/
theorem RowWf.decremented {row row' : SlidingRow} (h : RowWf o t row) (ht : t ≤ now) {cost : ℕ}
    {removeNewest : Bool} (hrow : decrementedSlidingRow o now cost removeNewest row = some row') :
    RowWf o now row' := by
  rcases Nat.lt_or_ge cost row.hits.length with hlt | hge
  · rw [decrementedSlidingRow_of_lt hlt] at hrow
    obtain rfl := Option.some.inj hrow
    have hlen := length_keptHits hlt.le removeNewest
    cases hm : (keptHits cost removeNewest row.hits).max? with
    | none =>
      rw [List.max?_eq_none_iff.mp hm, List.length_nil] at hlen
      omega
    | some m =>
      have hmem := keptHits_subset cost removeNewest row.hits m (List.max?_eq_some_iff.mp hm).1
      exact ⟨rfl, m, hm, (h.le m hmem).trans ht, Or.inr rfl⟩
  · rw [decrementedSlidingRow_of_le hge] at hrow
    simp at hrow

/-- One step keeps every row well formed, whatever the sweeps do. -/
theorem TableWf.step {s : RowTable κ SlidingRow} (h : TableWf o t s) (i : Timed (PgOp κ))
    (ht : t ≤ i.time) : TableWf o i.time (slidingStep o i s).1 := by
  obtain ⟨now, op⟩ := i
  intro k row hrow
  cases op with
  | increment key options =>
    by_cases hk : k = key
    · subst hk
      simp only [slidingStep, incrementSlidingWindow, RowTable.upsert_self,
        Option.some.injEq] at hrow
      subst hrow
      cases hs : s k with
      | none => exact rowWf_inserted o now options.one_le_sanitizedCost
      | some row => exact (h k row hs).merged ht options.one_le_sanitizedCost
    · simp only [slidingStep, incrementSlidingWindow, RowTable.upsert_of_ne _ _ _ hk] at hrow
      exact (h k row hrow).mono ht
  | decrement key options =>
    by_cases hk : k = key
    · subst hk
      simp only [slidingStep, decrementSliding, RowTable.modify_self,
        Option.bind_eq_some_iff] at hrow
      obtain ⟨row₀, hs, hrow⟩ := hrow
      exact (h k row₀ hs).decremented ht hrow
    · simp only [slidingStep, decrementSliding, RowTable.modify_of_ne _ _ hk] at hrow
      exact (h k row hrow).mono ht
  | reset key =>
    by_cases hk : k = key
    · subst hk
      simp [slidingStep] at hrow
    · simp only [slidingStep, RowTable.delete_of_ne _ hk] at hrow
      exact (h k row hrow).mono ht
  | sweep =>
    simp only [slidingStep, sweepSliding, RowTable.deleteWhere_eq_some] at hrow
    exact (h k row hrow.1).mono ht

/-! ## The sweep -/

/-- No sweep comes while the newest hit of a row is past but still in the window, when the
row was last written by the conflict branch, whose `reset_at` is one of the hits. -/
def sweepWaits (o : WindowOptions) (i : Timed (PgOp κ)) (s : RowTable κ SlidingRow) : Prop :=
  match i.op with
  | .sweep => ∀ k row, s k = some row → row.resetAt ∈ row.hits →
      ¬ (row.resetAt < i.time ∧ i.time < row.resetAt + o.windowMs)
  | _ => True

/-- A sweep deletes no row that holds a live hit. -/
def sweepKeepsLive (o : WindowOptions) (i : Timed (PgOp κ)) (s : RowTable κ SlidingRow) : Prop :=
  match i.op with
  | .sweep => ∀ k row, s k = some row → sweepSliding i.time s k = none →
      ∀ h ∈ row.hits, h ≤ i.time - o.windowMs
  | _ => True

omit [DecidableEq κ] in
/-- The sweep deletes a row exactly when its end is past. -/
theorem sweepSliding_eq_none {s : RowTable κ SlidingRow} {k : κ} {row : SlidingRow}
    (hs : s k = some row) : sweepSliding now s k = none ↔ row.resetAt < now := by
  simp [sweepSliding, RowTable.deleteWhere_eq_none, hs]

omit [DecidableEq κ] in
/-- On well-formed rows the two say the same. -/
theorem sweepWaits_iff {s : RowTable κ SlidingRow} (h : TableWf o t s) (i : Timed (PgOp κ)) :
    sweepWaits o i s ↔ sweepKeepsLive o i s := by
  obtain ⟨now, op⟩ := i
  cases op with
  | increment key options => exact Iff.rfl
  | decrement key options => exact Iff.rfl
  | reset key => exact Iff.rfl
  | sweep =>
    have hW := o.windowMs_pos
    simp only [sweepWaits, sweepKeepsLive]
    refine forall_congr' fun k => forall_congr' fun row => forall_congr' fun hs => ?_
    obtain ⟨m, hm, -, hreset⟩ := (h k row hs).newest
    obtain ⟨hmem, hmax⟩ := List.max?_eq_some_iff.mp hm
    rw [sweepSliding_eq_none hs]
    rcases hreset with hreset | hreset
    · -- the row of a conflict branch
      rw [hreset]
      constructor
      · intro hwait hlt x hx
        have hx := hmax x hx
        have hout : ¬ (m < now ∧ now < m + o.windowMs) := hwait hmem
        omega
      · rintro hlive - ⟨hlt, hend⟩
        have hx := hlive hlt m hmem
        omega
    · -- any other row is over when its `reset_at` is
      rw [hreset]
      constructor
      · intro _ hlt x hx
        have hx := hmax x hx
        omega
      · intro _ habs
        have hx := hmax _ habs
        omega

/-! ## The held hits -/

/-- A key's row matches its held hits at time `t`: they are over by `t`, in time order, of
positive cost, and the row is their stamps; a key without a row has no live hit. -/
structure Held (o : WindowOptions) (t : ℤ) (row : Option SlidingRow) (hits : List Hit) : Prop where
  past : ∀ h ∈ hits, h.time ≤ t
  sorted : (hits.map Hit.time).Pairwise (· ≤ ·)
  pos : ∀ h ∈ hits, 1 ≤ h.cost
  stored : ∀ r ∈ row, r.hits = Hit.expand hits ∧ RowWf o t r
  gone : row = none → ∀ h ∈ hits, h.time ≤ t - o.windowMs

/-- No row holds no hits. -/
theorem held_nil (o : WindowOptions) (t : ℤ) : Held o t none [] where
  past := by simp
  sorted := by simp
  pos := by simp
  stored := by simp
  gone := by simp

/-- Hits that are held stay so as time passes. -/
theorem Held.mono {row : Option SlidingRow} {hits : List Hit} (h : Held o t row hits)
    (ht : t ≤ now) : Held o now row hits where
  past x hx := (h.past x hx).trans ht
  sorted := h.sorted
  pos := h.pos
  stored r hr := ⟨(h.stored r hr).1, (h.stored r hr).2.mono ht⟩
  gone hnone x hx := by
    have := h.gone hnone x hx
    omega

/-- The hits after an increment are in time order and over by now. -/
theorem Held.afterIncrement {row : Option SlidingRow} {hits : List Hit} (h : Held o t row hits)
    (now : ℤ) {cost : ℕ} (hcost : 1 ≤ cost) :
    (∀ x ∈ HeldHits.afterIncrement o now cost hits, x.time ≤ now) ∧
      ((HeldHits.afterIncrement o now cost hits).map Hit.time).Pairwise (· ≤ ·) ∧
      ∀ x ∈ HeldHits.afterIncrement o now cost hits, 1 ≤ x.cost := by
  have hsub : (Hit.window (now - o.windowMs) now hits).Sublist hits := List.filter_sublist
  have hwin : ∀ x ∈ Hit.window (now - o.windowMs) now hits, x.time ≤ now :=
    fun x hx => (Hit.mem_window.mp hx).2.2
  refine ⟨?_, ?_, ?_⟩
  · intro x hx
    rcases List.mem_append.mp hx with hx | hx
    · exact hwin x hx
    · rw [List.mem_singleton.mp hx]
  · rw [HeldHits.afterIncrement, List.map_append, List.pairwise_append]
    refine ⟨h.sorted.sublist (hsub.map _), by simp, ?_⟩
    intro a ha b hb
    obtain ⟨x, hx, rfl⟩ := List.mem_map.mp ha
    simp only [List.map_cons, List.map_nil, List.mem_singleton] at hb
    exact hb ▸ hwin x hx
  · intro x hx
    rcases List.mem_append.mp hx with hx | hx
    · exact h.pos x (hsub.subset hx)
    · rw [List.mem_singleton.mp hx]
      exact hcost

/-- What an increment writes, inserted or merged, are the stamps of the held hits. -/
theorem Held.written {row : Option SlidingRow} {hits : List Hit} (h : Held o t row hits)
    (ht : t ≤ now) (cost : ℕ) :
    (row.elim (insertedSlidingRow o now cost) (mergedSlidingRow o now cost)).hits =
      Hit.expand (HeldHits.afterIncrement o now cost hits) := by
  have hexp : Hit.expand (HeldHits.afterIncrement o now cost hits) =
      (Hit.expand (Hit.window (now - o.windowMs) now hits)) ++ List.replicate cost now := by
    simp [HeldHits.afterIncrement, Hit.expand_append]
  rw [hexp]
  cases hrow : row with
  | none =>
    have hempty : Hit.window (now - o.windowMs) now hits = [] := by
      refine List.filter_eq_nil_iff.mpr fun x hx => ?_
      have := h.gone hrow x hx
      simp only [Bool.and_eq_true, decide_eq_true_eq]
      omega
    simp [hempty, insertedSlidingRow]
  | some r =>
    have hlive : r.hits.filter (fun x => decide (now - o.windowMs < x)) =
        Hit.expand (Hit.window (now - o.windowMs) now hits) := by
      rw [(h.stored r (by simp [hrow])).1]
      exact liveStamps_expand o fun x hx => (h.past x hx).trans ht
    have hsorted : (Hit.expand (Hit.window (now - o.windowMs) now hits)).Pairwise (· ≤ ·) :=
      Hit.pairwise_expand (h.sorted.sublist (List.filter_sublist.map _))
    simp only [Option.elim_some, mergedSlidingRow, mergedHits, hlive,
      List.Pairwise.insertionSort_eq hsorted]

/-- The row an increment writes matches the hits after it, and gives their figures. -/
theorem Held.increment {row : Option SlidingRow} {hits : List Hit} (h : Held o t row hits)
    (ht : t ≤ now) {cost : ℕ} (hcost : 1 ≤ cost) (cap : ℕ) :
    let written := row.elim (insertedSlidingRow o now cost) (mergedSlidingRow o now cost)
    Held o now (some written) (HeldHits.afterIncrement o now cost hits) ∧
      slidingResult o cap now written =
        answer o cap now (HeldHits.afterIncrement o now cost hits) := by
  intro written
  have hwritten : written.hits = Hit.expand (HeldHits.afterIncrement o now cost hits) :=
    h.written ht cost
  obtain ⟨hpast, hsorted, hpos⟩ := h.afterIncrement now hcost
  have hwf : RowWf o now written := by
    cases hrow : row with
    | none =>
      simp only [written, hrow, Option.elim_none]
      exact rowWf_inserted o now hcost
    | some r =>
      simp only [written, hrow, Option.elim_some]
      exact (h.stored r (by simp [hrow])).2.merged ht hcost
  refine ⟨⟨hpast, hsorted, hpos, ?_, by simp⟩, ?_⟩
  · rintro _ ⟨⟩
    exact ⟨hwritten, hwf⟩
  · have hlive : Hit.expand (HeldHits.afterIncrement o now cost hits) =
        liveStamps o now (Hit.expand (HeldHits.afterIncrement o now cost hits)) := by
      symm
      refine List.filter_eq_self.mpr fun x hx => ?_
      obtain ⟨y, hy, rfl⟩ := Hit.mem_expand hx
      have hW := o.windowMs_pos
      rcases List.mem_append.mp hy with hy | hy
      · simpa using (Hit.mem_window.mp hy).2.1
      · rw [List.mem_singleton.mp hy]
        simp only [decide_eq_true_eq]
        omega
    rw [← ofUsage_eq_answer cap hlive hpast hsorted hpos]
    have hreset : resetTimeFromSlidingStamps o.windowMs now written.hits =
        written.hits.head?.getD now + o.windowMs := by
      rw [resetTimeFromSlidingStamps, List.min?_eq_head?]
      · cases written.hits <;> rfl
      · rw [hwritten]
        exact (Hit.pairwise_expand hsorted).imp fun hab => min_eq_left hab
    rw [slidingResult, hreset, hwf.totalHits, hwritten]

/-- A decrement takes the same units back. -/
theorem Held.decrement {row : Option SlidingRow} {hits : List Hit} (h : Held o t row hits)
    (ht : t ≤ now) (cost : ℕ) (removeNewest : Bool) :
    Held o now (row.bind (decrementedSlidingRow o now cost removeNewest))
      (HeldHits.takeBack cost removeNewest hits) := by
  have hsub := HeldHits.map_time_takeBack_sublist cost removeNewest hits
  have hpos := HeldHits.one_le_cost_takeBack cost removeNewest h.pos
  have hmem : ∀ x ∈ HeldHits.takeBack cost removeNewest hits, ∃ y ∈ hits, y.time = x.time :=
    fun x hx => List.mem_map.mp (hsub.subset (List.mem_map_of_mem hx))
  have hpast : ∀ x ∈ HeldHits.takeBack cost removeNewest hits, x.time ≤ now := by
    intro x hx
    obtain ⟨y, hy, hxy⟩ := hmem x hx
    exact hxy ▸ (h.past y hy).trans ht
  have hexp := HeldHits.expand_takeBack cost removeNewest hits
  cases hrow : row with
  | none =>
    refine ⟨hpast, h.sorted.sublist hsub, hpos, by simp, fun _ x hx => ?_⟩
    obtain ⟨y, hy, hxy⟩ := hmem x hx
    have := h.gone hrow y hy
    omega
  | some r =>
    obtain ⟨hhits, hwf⟩ := h.stored r (by simp [hrow])
    rw [Option.bind_some]
    rcases Nat.lt_or_ge cost r.hits.length with hlt | hge
    · refine ⟨hpast, h.sorted.sublist hsub, hpos, fun r' hr' => ⟨?_, hwf.decremented ht hr'⟩, ?_⟩
      · rw [decrementedSlidingRow_of_lt hlt] at hr'
        obtain rfl := Option.some.inj hr'
        rw [hexp, ← hhits]
        simp only [keptHits, show r.hits.length - (r.hits.length - cost) = cost by omega]
      · rw [decrementedSlidingRow_of_lt hlt]
        simp
    · have hnil : HeldHits.takeBack cost removeNewest hits = [] := by
        refine Hit.eq_nil_of_expand_eq_nil hpos ?_
        rw [hexp, ← hhits]
        cases removeNewest with
        | false => simpa using hge
        | true => simp [Nat.sub_eq_zero_of_le hge]
      rw [decrementedSlidingRow_of_le hge, hnil]
      exact held_nil o now

omit [DecidableEq κ] in
/-- A sweep that waits only deletes rows without a live hit. -/
theorem Held.sweep {s : RowTable κ SlidingRow} {k : κ} {hits : List Hit}
    (h : Held o t (s k) hits) (ht : t ≤ now)
    (hkeep : ∀ row, s k = some row → sweepSliding now s k = none →
      ∀ x ∈ row.hits, x ≤ now - o.windowMs) :
    Held o now (sweepSliding now s k) hits := by
  have h' := h.mono ht
  refine ⟨h'.past, h'.sorted, h'.pos, fun r hr => ?_, fun hnone x hx => ?_⟩
  · exact h'.stored r (RowTable.deleteWhere_eq_some.mp hr).1
  · cases hs : s k with
    | none => exact h'.gone hs x hx
    | some row =>
      have hhits := (h'.stored row (by simp [hs])).1
      refine hkeep row hs hnone x.time ?_
      rw [hhits]
      exact List.mem_flatMap.mpr ⟨x, hx, List.mem_replicate.mpr ⟨by have := h.pos x hx; omega, rfl⟩⟩

/-- Every key's row matches its held hits. -/
def TableHeld (o : WindowOptions) (t : ℤ) (s : RowTable κ SlidingRow) (H : HeldHits κ) : Prop :=
  ∀ k, Held o t (s k) (H k)

/-- One step gives the answer of the held hits and keeps the rows matching, as long as the
sweeps keep the live rows. -/
theorem sliding_step_held {s : RowTable κ SlidingRow} {H : HeldHits κ} (i : Timed (PgOp κ))
    (h : TableHeld o t s H) (ht : t ≤ i.time) (hkeep : sweepKeepsLive o i s) :
    (slidingStep o i s).2 = (HeldHits.step o i H).2 ∧
      TableHeld o i.time (slidingStep o i s).1 (HeldHits.step o i H).1 := by
  obtain ⟨now, op⟩ := i
  cases op with
  | increment key options =>
    obtain ⟨hheld, hfigures⟩ := (h key).increment ht options.one_le_sanitizedCost
      (o.cap options.maxRequests)
    refine ⟨congrArg StoreReply.result hfigures, fun k => ?_⟩
    by_cases hk : k = key
    · subst hk
      simp only [slidingStep, incrementSlidingWindow, RowTable.upsert_self, HeldHits.step,
        Function.update_self]
      exact hheld
    · simp only [slidingStep, incrementSlidingWindow, RowTable.upsert_of_ne _ _ _ hk,
        HeldHits.step, Function.update_of_ne hk]
      exact (h k).mono ht
  | decrement key options =>
    refine ⟨rfl, fun k => ?_⟩
    by_cases hk : k = key
    · subst hk
      simp only [slidingStep, decrementSliding, RowTable.modify_self, HeldHits.step,
        Function.update_self]
      exact (h k).decrement ht _ _
    · simp only [slidingStep, decrementSliding, RowTable.modify_of_ne _ _ hk, HeldHits.step,
        Function.update_of_ne hk]
      exact (h k).mono ht
  | reset key =>
    refine ⟨rfl, fun k => ?_⟩
    by_cases hk : k = key
    · subst hk
      simp only [slidingStep, RowTable.delete_self, HeldHits.step, Function.update_self]
      exact held_nil o now
    · simp only [slidingStep, RowTable.delete_of_ne _ hk, HeldHits.step,
        Function.update_of_ne hk]
      exact (h k).mono ht
  | sweep =>
    refine ⟨rfl, fun k => ?_⟩
    exact (h k).sweep ht fun row hs hnone => hkeep k row hs hnone

end PgStore

/-! ## Main results -/

/-- Over any run at nondecreasing times, no sweep deletes a row that holds a live hit exactly
when every sweep waits: none comes while the newest hit of a row that the conflict branch
wrote last is past but still in the window.  In such a run every increment is answered from
the costs of the hits in the window, as if there were no sweeps.
SOURCE: src/stores/postgres/PgStore.ts:274-381, 418-460, 530-543 -/
theorem pgSliding_sweep_keeps_live_iff (o : WindowOptions) (t : ℤ) (is : List (Timed (PgOp κ)))
    (hord : OrderedFrom Timed.time t is) :
    (Guarded (PgStore.sweepWaits o) (PgStore.slidingStep o) is RowTable.empty ↔
      Guarded (PgStore.sweepKeepsLive o) (PgStore.slidingStep o) is RowTable.empty) ∧
    (Guarded (PgStore.sweepWaits o) (PgStore.slidingStep o) is RowTable.empty →
      outputs (PgStore.slidingStep o) is RowTable.empty =
        outputs (HeldHits.step o) is fun _ => []) := by
  have hiff : Guarded (PgStore.sweepWaits o) (PgStore.slidingStep o) is RowTable.empty ↔
      Guarded (PgStore.sweepKeepsLive o) (PgStore.slidingStep o) is RowTable.empty :=
    guarded_congr_of_inv (I := PgStore.TableWf o) (fun t s i h ht => h.step i ht)
      (fun t s i h _ => PgStore.sweepWaits_iff h i) (PgStore.tableWf_empty o t) hord
  refine ⟨hiff, fun hwait => ?_⟩
  have hsim := outputs_eq_of_simulation id
    (fun t s H i h ht hkeep => PgStore.sliding_step_held i h ht hkeep)
    (fun k => PgStore.held_nil o t : PgStore.TableHeld o t RowTable.empty fun _ : κ => [])
    hord (hiff.mp hwait)
  exact (List.map_id _).symm.trans hsim.1

/-- Two hits, a sweep when they have left the window, and another hit. -/
theorem pgSliding_sweep_keeps_live_late :
    outputs (PgStore.slidingStep tenASecond)
      [⟨0, .increment 7 {}⟩, ⟨100, .increment 7 {}⟩, ⟨1100, .sweep⟩, ⟨1200, .increment 7 {}⟩]
      RowTable.empty =
    outputs (HeldHits.step tenASecond)
      [⟨0, .increment 7 {}⟩, ⟨100, .increment 7 {}⟩, ⟨1100, .sweep⟩, ⟨1200, .increment 7 {}⟩]
      (fun _ : ℕ => []) := by
  refine (pgSliding_sweep_keeps_live_iff tenASecond 0 _ (by decide)).2
    ⟨trivial, trivial, ?_, trivial, trivial⟩
  rintro k row hrow - ⟨-, hlt⟩
  have hreset : row.resetAt = 100 := by
    by_cases hk : k = 7
    · subst hk
      obtain rfl := Option.some.inj hrow.symm
      rfl
    · simp [PgStore.slidingStep, PgStore.incrementSlidingWindow, hk] at hrow
  rw [hreset] at hlt
  exact absurd hlt (by decide)

/-- Two hits in one window, a sweep 100 ms later: the row is deleted, and the next
increment in the window counts itself alone, where the held hits are three. -/
theorem pgSliding_sweep_deletes_live :
    let is : List (Timed (PgOp ℕ)) :=
      [⟨0, .increment 7 {}⟩, ⟨100, .increment 7 {}⟩, ⟨200, .sweep⟩, ⟨300, .increment 7 {}⟩]
    (outputs (PgStore.slidingStep tenASecond) is RowTable.empty)[3]? = some (.result
      { totalHits := 1, remaining := 9, resetTime := 1300, isBlocked := false }) ∧
    (outputs (HeldHits.step tenASecond) is fun _ => [])[3]? = some (.result
      { totalHits := 3, remaining := 7, resetTime := 1000, isBlocked := false }) := by
  decide

end RatelimitFlex
