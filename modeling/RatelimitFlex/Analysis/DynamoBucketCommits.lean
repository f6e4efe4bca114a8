import RatelimitFlex.Library.BucketExpiry
import RatelimitFlex.Program.DynamoTokenBucket

/-!
# Concurrent DynamoDB increments in the order of their commits

A write that commits finds the tokens and the last refill that its client has read, and the
item it writes and the answer depend on nothing else of what was read
(`bucketAttempt_congr`).  So each commit is an increment of the item as it is then, whatever
happened to it since it was read: the same tokens come and gone do no harm.
-/

set_option autoImplicit false

namespace RatelimitFlex

open Library Bucket

/-! ## One commit -/

namespace DynamoStore

variable {o : TokenBucketOptions}

/-- The condition pins all that the attempt has used of the item. -/
theorem bucketAttempt_congr {got item : Option DynamoBucketItem}
    (h : bucketConditionHolds got item = true) (now : ℤ) (cost : ℕ) :
    bucketAttempt o now cost got = bucketAttempt o now cost item := by
  have hstored : storedBucket o now got = storedBucket o now item := by
    cases got with
    | none =>
      cases item with
      | none => rfl
      | some x => simp [bucketConditionHolds] at h
    | some g =>
      cases item with
      | none => simp [bucketConditionHolds] at h
      | some x =>
        obtain ⟨htok, hlast⟩ : x.tokens = g.tokens ∧ x.lastRefillAt = g.lastRefillAt := by
          simpa [bucketConditionHolds] using h
        simp only [storedBucket, htok, hlast]
  simp only [bucketAttempt, hstored]

/-- The bucket of an item. -/
def itemBucket (item : DynamoBucketItem) : Bucket := ⟨item.tokens, item.lastRefillAt⟩

/-- An increment alone serves its request. -/
theorem bucketAlone_eq (q : ℤ × ℕ) (item : Option DynamoBucketItem) :
    serveStep o q (item.map itemBucket) =
      ((bucketAlone o q item).1.map itemBucket, !(bucketAlone o q item).2.isBlocked) := by
  obtain ⟨now, cost⟩ := q
  have hstart : storedBucket o now item = orFull o now (item.map itemBucket) := by
    cases item <;> rfl
  simp only [serveStep, serve, bucketAlone, bucketAttempt, hstart, refillBucketState_eq]
  set b := orFull o now (item.map itemBucket)
  rcases le_or_gt (cost : ℤ) (b.refill o now).tokens with h | h
  · rw [request_of_le o h]
    simp [itemBucket, h]
  · rw [request_of_lt o h]
    simp [itemBucket, not_le.mpr h]

end DynamoStore

namespace DynamoBucketKey

open DynamoStore

variable {o : TokenBucketOptions} {e : DynamoEvent} {s : DynamoBucketKey}

/-- Client `i` has been answered. -/
def Answered (s : DynamoBucketKey) (c : DynamoCommit) : Prop :=
  s.clients c.client = some ⟨c.now, c.cost, .committed c.result⟩

/-- The client that moves on, and the others. -/
theorem clients_move (i j : ℕ) (c : DynamoClient) (s : DynamoBucketKey) :
    (s.move i c).clients j = if j = i then some c else s.clients j := by
  simp only [move, Function.update_apply]

/-- A move short of a commit, by a client that is not answered yet, answers nobody. -/
theorem answered_move {i : ℕ} {x : DynamoClient} (hx : ∀ r, x.phase ≠ .committed r)
    (hs : ∀ now cost r, s.clients i ≠ some ⟨now, cost, .committed r⟩) (c : DynamoCommit) :
    (s.move i x).Answered c ↔ s.Answered c := by
  unfold Answered
  rw [clients_move]
  by_cases hc : c.client = i
  · rw [if_pos hc, hc]
    refine iff_of_false (fun h => ?_) (hs _ _ _)
    obtain rfl := Option.some.inj h
    exact hx _ rfl
  · rw [if_neg hc]

/-- What one request does: nothing to the item and to those answered, or one commit, which
is an increment of the item as it is. -/
theorem step_cases (o : TokenBucketOptions) (e : DynamoEvent) (s : DynamoBucketKey) :
    ((step o e s).2 = none ∧ (step o e s).1.item = s.item ∧
        ∀ c, (step o e s).1.Answered c ↔ s.Answered c) ∨
      ∃ x, (step o e s).2 = some x ∧
        bucketAlone o x.request s.item = ((step o e s).1.item, x.result) ∧
        (∀ now cost r, s.clients x.client ≠ some ⟨now, cost, .committed r⟩) ∧
        ∀ c, (step o e s).1.Answered c ↔ s.Answered c ∨ c = x := by
  cases e with
  | start i now cost =>
    refine Or.inl ⟨rfl, ?_⟩
    simp only [step, start]
    cases hi : s.clients i with
    | some x => exact ⟨rfl, fun c => Iff.rfl⟩
    | none => exact ⟨rfl, answered_move (by simp) (by simp [hi])⟩
  | getItem i =>
    refine Or.inl ⟨rfl, ?_⟩
    simp only [step, getItem]
    split
    · next hi => exact ⟨rfl, answered_move (by simp) (by simp [hi])⟩
    · exact ⟨rfl, fun c => Iff.rfl⟩
  | error i =>
    refine Or.inl ⟨rfl, ?_⟩
    simp only [step, error]
    split
    · next hi => exact ⟨rfl, answered_move (by simp) (by simp [hi])⟩
    · next hi => exact ⟨rfl, answered_move (by simp) (by simp [hi])⟩
    · exact ⟨rfl, fun c => Iff.rfl⟩
  | write i =>
    simp only [step, write]
    split
    · next now cost attempt got hi =>
      by_cases hcond : bucketConditionHolds got s.item = true
      · simp only [hcond, if_true]
        refine Or.inr ⟨_, rfl, ?_, by simp [hi], fun c => ?_⟩
        · simp only [bucketAlone, DynamoCommit.request, bucketAttempt_congr hcond]
        · unfold Answered
          rw [clients_move]
          by_cases hc : c.client = i
          · rw [if_pos hc, hc, hi]
            obtain ⟨j, now', cost', r'⟩ := c
            obtain rfl : j = i := hc
            simp [eq_comm]
          · rw [if_neg hc]
            refine (or_iff_left ?_).symm
            rintro rfl
            exact hc rfl
      · simp only [hcond, Bool.false_eq_true, if_false]
        refine Or.inl ⟨trivial, rfl, answered_move (fun r => ?_) (by simp [hi])⟩
        split <;> simp
    · exact Or.inl ⟨rfl, rfl, fun c => Iff.rfl⟩

/-! ## The run -/

/-- No events commit nothing. -/
theorem commits_nil (s : DynamoBucketKey) : commits o [] s = [] := rfl

/-- An event that commits nothing. -/
theorem commits_cons_of_none {es : List DynamoEvent} (h : (step o e s).2 = none) :
    commits o (e :: es) s = commits o es (step o e s).1 := by
  rw [commits, outputs_cons, h, List.reduceOption_cons_of_none]
  rfl

/-- An event that commits. -/
theorem commits_cons_of_some {es : List DynamoEvent} {x : DynamoCommit}
    (h : (step o e s).2 = some x) :
    commits o (e :: es) s = x :: commits o es (step o e s).1 := by
  rw [commits, outputs_cons, h, List.reduceOption_cons_of_some]
  rfl

/-- A run answers those it commits, beside those that were answered before. -/
theorem answered_final (es : List DynamoEvent) (s : DynamoBucketKey) (c : DynamoCommit) :
    (final (step o) es s).Answered c ↔ s.Answered c ∨ c ∈ commits o es s := by
  induction es generalizing s with
  | nil => simp [commits_nil]
  | cons e es ih =>
    rw [final_cons, ih]
    rcases step_cases o e s with ⟨hout, -, hans⟩ | ⟨x, hout, -, -, hans⟩
    · rw [commits_cons_of_none hout, hans c]
    · rw [commits_cons_of_some hout, hans c, List.mem_cons, or_assoc]

/-- Who commits has not been answered before. -/
theorem not_answered_of_mem_commits {es : List DynamoEvent} {c : DynamoCommit}
    (h : c ∈ commits o es s) (now : ℤ) (cost : ℕ) (r : RateLimitResult) :
    s.clients c.client ≠ some ⟨now, cost, .committed r⟩ := by
  induction es generalizing s with
  | nil => simp [commits_nil] at h
  | cons e es ih =>
    intro hs
    have hbefore : s.Answered ⟨c.client, now, cost, r⟩ := hs
    rcases step_cases o e s with ⟨hout, -, hans⟩ | ⟨x, hout, -, hfresh, hans⟩
    · rw [commits_cons_of_none hout] at h
      exact ih h ((hans _).mpr hbefore)
    · rw [commits_cons_of_some hout] at h
      rcases List.mem_cons.mp h with rfl | htail
      · exact hfresh now cost r hs
      · exact ih htail ((hans _).mpr (Or.inl hbefore))

/-- No increment commits twice. -/
theorem nodup_commits (es : List DynamoEvent) (s : DynamoBucketKey) :
    ((commits o es s).map DynamoCommit.client).Nodup := by
  induction es generalizing s with
  | nil => simp [commits_nil]
  | cons e es ih =>
    rcases step_cases o e s with ⟨hout, -, -⟩ | ⟨x, hout, -, -, hans⟩
    · rw [commits_cons_of_none hout]
      exact ih _
    · rw [commits_cons_of_some hout, List.map_cons, List.nodup_cons]
      refine ⟨fun hmem => ?_, ih _⟩
      obtain ⟨c, hc, hclient⟩ := List.mem_map.mp hmem
      refine not_answered_of_mem_commits hc x.now x.cost x.result ?_
      rw [hclient]
      exact (hans x).mpr (Or.inr rfl)

/-- The commits of a run are increments one after the other. -/
theorem commits_alone (es : List DynamoEvent) (s : DynamoBucketKey) :
    (commits o es s).map DynamoCommit.result =
        outputs (bucketAlone o) ((commits o es s).map DynamoCommit.request) s.item ∧
      (final (step o) es s).item =
        final (bucketAlone o) ((commits o es s).map DynamoCommit.request) s.item := by
  induction es generalizing s with
  | nil => exact ⟨rfl, rfl⟩
  | cons e es ih =>
    obtain ⟨hres, hitem⟩ := ih (step o e s).1
    rw [final_cons]
    rcases step_cases o e s with ⟨hout, hsame, -⟩ | ⟨x, hout, halone, -, -⟩
    · rw [commits_cons_of_none hout, ← hsame]
      exact ⟨hres, hitem⟩
    · rw [commits_cons_of_some hout, List.map_cons, List.map_cons, outputs_cons, final_cons,
        halone]
      exact ⟨congrArg _ hres, hitem⟩

end DynamoBucketKey

/-! ## Main result -/

/-- **Concurrent increments of one key.**  In every interleaving of the requests of any
number of increments, those that commit do so once each, and it is they that are answered;
in the order of their commits their answers and the item are those of increments one after
the other.  The cost of those that were allowed is at most the tokens there are between the
earliest and the latest of their clocks.
SOURCE: src/stores/dynamo/DynamoStore.ts:355-458 -/
theorem dynamoBucket_linearizable (o : TokenBucketOptions) (item₀ : Option DynamoBucketItem)
    (es : List DynamoEvent) :
    let s₀ : DynamoBucketKey := { item := item₀ }
    let s := final (DynamoBucketKey.step o) es s₀
    let log := DynamoBucketKey.commits o es s₀
    let requests := log.map DynamoCommit.request
    (log.map DynamoCommit.client).Nodup ∧
      (∀ i now cost r, s.clients i = some ⟨now, cost, .committed r⟩ ↔ ⟨i, now, cost, r⟩ ∈ log) ∧
      log.map DynamoCommit.result = outputs (DynamoStore.bucketAlone o) requests item₀ ∧
      s.item = final (DynamoStore.bucketAlone o) requests item₀ ∧
      ∀ m M, (∀ c ∈ log, m ≤ c.now ∧ c.now ≤ M) → (∀ x ∈ item₀, 0 ≤ x.tokens) →
        servedCost requests (log.map fun c => !c.result.isBlocked) ≤
          available o m M (item₀.map DynamoStore.itemBucket) := by
  intro s₀ s log requests
  obtain ⟨hres, hitem⟩ := DynamoBucketKey.commits_alone (o := o) es s₀
  refine ⟨DynamoBucketKey.nodup_commits es s₀, fun i now cost r => ?_, hres, hitem,
    fun m M hclock htok => ?_⟩
  · have := DynamoBucketKey.answered_final (o := o) es s₀ ⟨i, now, cost, r⟩
    simpa [DynamoBucketKey.Answered, s₀] using this
  · have hview := (run_view (DynamoStore.bucketAlone o) (Option.map DynamoStore.itemBucket)
      (fun r => !r.isBlocked) DynamoStore.bucketAlone_eq requests item₀).1
    have hserved : (log.map fun c => !c.result.isBlocked) =
        outputs (serveStep o) requests (item₀.map DynamoStore.itemBucket) := by
      rw [hview]
      exact (List.map_map (l := log)).symm.trans (congrArg (List.map fun r => !r.isBlocked) hres)
    rw [hserved]
    refine servedCost_le (fun q hq => ?_) fun b hb => ?_
    · obtain ⟨c, hc, rfl⟩ := List.mem_map.mp hq
      exact hclock c hc
    · obtain ⟨x, hx, rfl⟩ := Option.map_eq_some_iff.mp hb
      exact htok x hx

/-- Two increments of a new key for ten tokens each read before either writes: the second
write fails, its next attempt reads the empty bucket and is refused. -/
example : (DynamoBucketKey.commits tenAtMost [.start 0 0 10, .start 1 0 10, .getItem 0,
    .getItem 1, .write 0, .write 1, .getItem 1, .write 1] { item := none }).map
      (fun c => (c.client, c.result.isBlocked)) = [(0, false), (1, true)] := by
  decide

end RatelimitFlex
