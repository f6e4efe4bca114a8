import RatelimitFlex.Analysis.MemorySliding
import RatelimitFlex.Program.MongoStore

/-!
# The sliding window of `MongoStore` refines the timestamp log

A document's `resetAt` is the newest hit and the window, so no stored hit outlives it
(`DocMatches.ttl`) and a TTL pass drops dead hits only.  Each increment then finds the live
part of the log, whatever the server has deleted, and its answer is the log's
(`mongoSliding_refines_log`).
-/

set_option autoImplicit false

namespace RatelimitFlex

open Library SlidingLog

variable {κ : Type} [DecidableEq κ]

namespace MongoStore

/-- A key's document matches its logged hits, and no stored hit is in the window once
`resetAt` has come. -/
structure DocMatches (o : WindowOptions) (t : ℤ) (doc : Option SlidingDocument)
    (hits : List Hit) : Prop where
  log : SlidingMatches o t (doc.map fun d => ⟨d.hits, none⟩) hits
  ttl : ∀ d ∈ doc, ∀ h ∈ d.hits, h + o.windowMs ≤ d.resetAt

variable {o : WindowOptions} {t now : ℤ} {doc : Option SlidingDocument} {hits : List Hit}

/-- No document matches no hits. -/
theorem docMatches_nil (o : WindowOptions) (t : ℤ) : DocMatches o t none [] where
  log := slidingMatches_nil o t
  ttl := by simp

/-- A document that matches does so later. -/
theorem DocMatches.mono (h : DocMatches o t doc hits) (ht : t ≤ now) :
    DocMatches o now doc hits where
  log := h.log.mono ht
  ttl := h.ttl

/-- The hits the pipeline writes are the live ones and the new ones. -/
theorem hits_slidingPipeline (o : WindowOptions) (now : ℤ) (cost : ℕ)
    (doc : Option SlidingDocument) :
    (slidingPipeline o now cost doc).hits =
      liveStamps o now (stampsOf (doc.map fun d => ⟨d.hits, none⟩)) ++
        List.replicate cost now := by
  cases doc <;> rfl

/-- Its live stamps are in the past. -/
theorem le_of_mem_liveStamps (h : DocMatches o t doc hits) (ht : t ≤ now) {x : ℤ}
    (hx : x ∈ liveStamps o now (stampsOf (doc.map fun d => ⟨d.hits, none⟩))) : x ≤ now := by
  rw [h.log.live now ht] at hx
  obtain ⟨y, hy, rfl⟩ := Hit.mem_expand (List.mem_filter.mp hx).1
  exact (h.log.past y hy).trans ht

/-- The document an increment writes matches the extended log. -/
theorem DocMatches.increment (h : DocMatches o t doc hits) (ht : t ≤ now) {cost : ℕ}
    (hcost : 1 ≤ cost) :
    DocMatches o now (some (slidingPipeline o now cost doc)) (hits ++ [⟨now, cost⟩]) where
  log := by
    rw [Option.map_some, hits_slidingPipeline]
    exact h.log.increment ht hcost
  ttl := by
    rintro d ⟨⟩ x hx
    rw [hits_slidingPipeline] at hx
    have hle : x ≤ now := by
      rcases List.mem_append.mp hx with hx | hx
      · exact le_of_mem_liveStamps h ht hx
      · exact (List.eq_of_mem_replicate hx).le
    exact Int.add_le_add_right hle _

/-- Its figures are those of the log. -/
theorem DocMatches.answer_eq (h : DocMatches o t doc hits) (ht : t ≤ now) {cost : ℕ}
    (hcost : 1 ≤ cost) (cap : ℕ) :
    let d := slidingPipeline o now cost doc
    ({ totalHits := d.totalHits
       remaining := max 0 ((cap : ℤ) - d.totalHits)
       resetTime := resetTimeFromSlidingStamps o.windowMs now d.hits
       isBlocked := decide (cap < d.totalHits) } : RateLimitResult) =
      answer o cap now (hits ++ [⟨now, cost⟩]) := by
  intro d
  have hnew := h.log.increment ht hcost
  have hlive : d.hits = liveStamps o now (Hit.expand (hits ++ [⟨now, cost⟩])) := by
    rw [← h.log.trimmed_eq ht cost]
    exact hits_slidingPipeline o now cost doc
  have hlen : d.totalHits = liveCost o now (hits ++ [⟨now, cost⟩]) := by
    rw [← length_live_eq hnew.past, ← hlive]
    rfl
  have hsorted : d.hits.Pairwise (fun a b => min a b = a) := by
    rw [hlive, liveStamps_expand o hnew.past]
    refine (Hit.pairwise_expand ?_).imp fun hab => min_eq_left hab
    exact hnew.sorted.sublist (List.filter_sublist.map _)
  have hreset : resetTimeFromSlidingStamps o.windowMs now d.hits =
      (oldestLive o now (hits ++ [⟨now, cost⟩])).getD now + o.windowMs := by
    rw [← head?_live_eq hnew.past hnew.sorted hnew.pos, ← hlive, resetTimeFromSlidingStamps,
      List.min?_eq_head? hsorted]
    cases d.hits <;> rfl
  rw [hlen, hreset]
  rfl

omit [DecidableEq κ] in
/-- A TTL pass leaves the document or drops hits that have left the window. -/
theorem DocMatches.ttlDelete {tbl : RowTable κ SlidingDocument} {k : κ}
    (h : DocMatches o t (tbl k) hits) (ht : t ≤ now) (picked : κ → Bool) :
    DocMatches o now (ttlDeleteSliding now picked tbl k) hits := by
  cases hdoc : ttlDeleteSliding now picked tbl k with
  | some d =>
    have hd := (RowTable.deleteWhere_eq_some.mp hdoc).1
    rw [hd] at h
    exact h.mono ht
  | none =>
    refine ⟨h.log.of_stamps ht ?_ (by simp), by simp⟩
    cases hd : tbl k with
    | none => rfl
    | some d =>
      have hover : d.resetAt ≤ now := by
        have hp := RowTable.of_deleteWhere_eq_none hd hdoc
        simp only [Bool.and_eq_true, decide_eq_true_eq] at hp
        exact hp.2
      symm
      refine List.filter_eq_nil_iff.mpr fun x hx => ?_
      have hx := h.ttl d (by simp [hd]) x hx
      simp only [decide_eq_true_eq]
      omega

/-- Every key's document matches the log. -/
def TableMatches (o : WindowOptions) (t : ℤ) (tbl : RowTable κ SlidingDocument)
    (L : SlidingLog κ) : Prop :=
  ∀ k, DocMatches o t (tbl k) (L k)

/-- What an operation is to the log; a TTL pass is nothing. -/
def logOp (i : Timed (MongoSlidingOp κ)) : Option (Timed (StoreOp κ)) :=
  match i.op with
  | .increment key options => some ⟨i.time, .increment key options⟩
  | .reset key => some ⟨i.time, .reset key⟩
  | .ttlDelete _ => none

/-- An operation answers as the log does, and keeps the match. -/
theorem TableMatches.step {tbl : RowTable κ SlidingDocument} {L : SlidingLog κ}
    (h : TableMatches o t tbl L) {i : Timed (MongoSlidingOp κ)} {j : Timed (StoreOp κ)}
    (ht : t ≤ i.time) (hj : logOp i = some j) :
    (slidingStep o i tbl).2 = (SlidingLog.step o j L).2 ∧
      TableMatches o i.time (slidingStep o i tbl).1 (SlidingLog.step o j L).1 := by
  obtain ⟨now, op⟩ := i
  cases op with
  | increment key options =>
    obtain rfl := Option.some.inj hj
    have hcost := options.one_le_sanitizedCost
    refine ⟨congrArg StoreReply.result ((h key).answer_eq ht hcost _), fun k => ?_⟩
    simp only [slidingStep, incrementSlidingWindow, SlidingLog.step]
    by_cases hk : k = key
    · subst hk
      rw [RowTable.upsert_self, Function.update_self]
      have hnew := (h k).increment ht hcost
      cases hd : tbl k <;> (rw [hd] at hnew; exact hnew)
    · rw [RowTable.upsert_of_ne _ _ _ hk, Function.update_of_ne hk]
      exact (h k).mono ht
  | reset key =>
    obtain rfl := Option.some.inj hj
    refine ⟨rfl, fun k => ?_⟩
    simp only [slidingStep, SlidingLog.step]
    by_cases hk : k = key
    · subst hk
      rw [RowTable.delete_self, Function.update_self]
      exact docMatches_nil o now
    · rw [RowTable.delete_of_ne _ hk, Function.update_of_ne hk]
      exact (h k).mono ht
  | ttlDelete picked => exact absurd hj (by simp [logOp])

/-- A deletion by the server keeps it too. -/
theorem TableMatches.ttlStep {tbl : RowTable κ SlidingDocument} {L : SlidingLog κ}
    (h : TableMatches o t tbl L) {i : Timed (MongoSlidingOp κ)} (ht : t ≤ i.time)
    (hj : logOp i = none) : TableMatches o i.time (slidingStep o i tbl).1 L := by
  obtain ⟨now, op⟩ := i
  cases op with
  | increment key options => exact absurd hj (by simp [logOp])
  | reset key => exact absurd hj (by simp [logOp])
  | ttlDelete picked => exact fun k => (h k).ttlDelete ht picked

end MongoStore

/-! ## Main results -/

/-- Over any run of increments, resets and TTL passes at nondecreasing times, the increments
and resets are answered as the log answers them, wherever the TTL passes come and whatever
they delete: the total cost in the window, the cap against it, and the oldest hit of the
window and the window.
SOURCE: src/stores/mongo/MongoStore.ts:101-107, 301-363, 493-503 -/
theorem mongoSliding_refines_log (o : WindowOptions) (t : ℤ)
    (is : List (Timed (MongoSlidingOp κ))) (hord : OrderedFrom Timed.time t is) :
    keptOutputs (fun i => (MongoStore.logOp i).isSome) (MongoStore.slidingStep o) is
      RowTable.empty =
    outputs (SlidingLog.step o) (is.filterMap MongoStore.logOp) fun _ => [] := by
  refine keptOutputs_eq_of_translation (R := MongoStore.TableMatches o) ?_ ?_
    (fun k => MongoStore.docMatches_nil o t) hord
  · intro t s L i j h ht hj
    exact h.step ht hj
  · intro t s L i h ht hj
    exact h.ttlStep ht hj

/-- Two hits, a pass that deletes the document at its `resetAt`, and another hit. -/
theorem mongoSliding_refines_log_late :
    keptOutputs (fun i => (MongoStore.logOp i).isSome) (MongoStore.slidingStep tenASecond)
      [⟨0, .increment 7 {}⟩, ⟨100, .increment 7 {}⟩, ⟨1100, .ttlDelete fun _ => true⟩,
        ⟨1100, .increment 7 {}⟩] (RowTable.empty : RowTable ℕ SlidingDocument) =
    outputs (SlidingLog.step tenASecond)
      [⟨0, .increment 7 {}⟩, ⟨100, .increment 7 {}⟩, ⟨1100, .increment 7 {}⟩] fun _ => [] :=
  mongoSliding_refines_log tenASecond 0
    [⟨0, .increment 7 {}⟩, ⟨100, .increment 7 {}⟩, ⟨1100, .ttlDelete fun _ => true⟩,
      ⟨1100, .increment 7 {}⟩] (by decide)

end RatelimitFlex
