import RatelimitFlex.Library.BucketExpiry
import RatelimitFlex.Program.MongoStore
import RatelimitFlex.Program.PgStore

/-!
# When the expiry of a bucket row is unobservable

Postgres and MongoDB keep a bucket with a `reset_at` one interval after its last refill,
and delete it when that has passed.  A deletion is unobservable exactly when the bucket is
full by its refill at that moment (`deletesFull`, `expiryUnobservable_iff`): the argument
is the same for every store whose rows hold a bucket.  Since one interval may be all that
has passed, a store is safe on every run exactly when one refill fills the bucket.
-/

set_option autoImplicit false

namespace RatelimitFlex

open Library Bucket RowTable

/-! ## Stores whose rows hold a bucket -/

/-- How a row of some store holds a bucket and its expiry. -/
structure RowView (ρ : Type) where
  bucket : ρ → Bucket
  resetAt : ρ → ℤ

section Rows

variable {κ ρ ι ο : Type} (o : TokenBucketOptions) (v : RowView ρ)
  (step : Timed ι → RowTable κ ρ → RowTable κ ρ × ο)

/-- The tokens that an increment of `k` at `now` finds in the table. -/
def found (now : ℤ) (s : RowTable κ ρ) (k : κ) : ℤ := seen o now ((s k).map v.bucket)

/-- A step deletes no row whose bucket is not full, refilled at that moment. -/
def deletesFull (i : Timed ι) (s : RowTable κ ρ) : Prop :=
  ∀ k r, s k = some r → (step i s).1 k = none → o.bucketSize ≤ seen o i.time (some (v.bucket r))

/-- However far the run has got, an increment at any later time finds no more tokens than
it would find had the rows been retained. -/
def ExpiryUnobservable (t : ℤ) (is : List (Timed ι)) : Prop :=
  ∀ p, p <+: is → ∀ now, lastClock Timed.time t p ≤ now → ∀ k,
    found o v now (final (remembering step) p (RowTable.empty, RowTable.empty)).1 k ≤
      found o v now (final (remembering step) p (RowTable.empty, RowTable.empty)).2 k

/-- Every row holds a well-formed bucket, and its expiry is one interval after the refill. -/
def BucketsWf (t : ℤ) (s : RowTable κ ρ) : Prop :=
  ∀ k r, s k = some r → (v.bucket r).Wf o t ∧ v.resetAt r = (v.bucket r).lastRefill + o.interval

variable {o v step}

/-- The invariant: a key has the row it remembers, or has lost a full bucket. -/
def LostFull (o : TokenBucketOptions) (v : RowView ρ) (t : ℤ)
    (s : RowTable κ ρ × RowTable κ ρ) : Prop :=
  ∀ k, s.1 k = s.2 k ∨ (s.1 k = none ∧ ∃ r, s.2 k = some r ∧ (v.bucket r).Wf o t ∧
    o.bucketSize ≤ seen o t (some (v.bucket r)))

/-- A step deletes full buckets only, as long as it meets the guard. -/
theorem lostFull_step {t : ℤ} {s : RowTable κ ρ × RowTable κ ρ} (h : LostFull o v t s)
    (hwf : BucketsWf o v t s.1) {i : Timed ι} (ht : t ≤ i.time)
    (hfull : deletesFull o v step i s.1) :
    LostFull o v i.time (remembering step i s).1 := by
  intro k
  cases hnew : (step i s.1).1 k with
  | some r => exact Or.inl (hnew.trans (remember_of_some hnew).symm)
  | none =>
    have hpast : (remembering step i s).1.2 k = s.2 k := remember_of_none hnew
    rcases h k with heq | ⟨-, r, hr, hrwf, hrfull⟩
    · cases hold : s.1 k with
      | none => exact Or.inl (hnew.trans (by rw [hpast, ← heq, hold]))
      | some r =>
        refine Or.inr ⟨hnew, r, by rw [hpast, ← heq, hold], (hwf k r hold).1.mono ht, ?_⟩
        exact hfull k r hold hnew
    · refine Or.inr ⟨hnew, r, by rw [hpast, hr], hrwf.mono ht, ?_⟩
      exact (bucketSize_le_seen_iff hrwf).mpr hrfull i.time ht

/-- In a state where only full buckets were lost nothing is to be observed. -/
theorem found_le_of_lostFull {t now : ℤ} {s : RowTable κ ρ × RowTable κ ρ}
    (h : LostFull o v t s) (ht : t ≤ now) (k : κ) :
    found o v now s.1 k ≤ found o v now s.2 k := by
  rcases h k with heq | ⟨hnone, r, hr, hrwf, hrfull⟩
  · rw [found, found, heq]
  · rw [found, found, hnone, hr, Option.map_none, seen_none]
    exact (bucketSize_le_seen_iff hrwf).mpr hrfull now ht

/-- No run of the store ever shows an expiry. -/
def NeverObservable (o : TokenBucketOptions) (v : RowView ρ)
    (step : Timed ι → RowTable κ ρ → RowTable κ ρ × ο) : Prop :=
  ∀ t is, OrderedFrom Timed.time t is → ExpiryUnobservable o v step t is

variable (hstep : ∀ t s i, BucketsWf o v t s → t ≤ i.time →
  BucketsWf o v i.time (step i s).1)

include hstep

/-- **Unobservable expiry.**  A run's deletions are unobservable, now and at any later
time, exactly when each of them hits a bucket that is full at that moment. -/
theorem expiryUnobservable_iff {t : ℤ} {is : List (Timed ι)}
    (hord : OrderedFrom Timed.time t is) :
    Guarded (deletesFull o v step) step is RowTable.empty ↔
      ExpiryUnobservable o v step t is := by
  constructor
  · rintro hfull p ⟨rest, rfl⟩ now hnow k
    have hp := (guarded_append.mp hfull).1
    have hordp := (orderedFrom_append.mp hord).1
    have hinv := final_inv
      (I := fun t (s : RowTable κ ρ × RowTable κ ρ) =>
        LostFull o v t s ∧ BucketsWf o v t s.1)
      (fun t s i h ht hg => ⟨lostFull_step h.1 h.2 ht hg, hstep t s.1 i h.2 ht⟩)
      (t := t) ⟨fun k => Or.inl rfl, fun k r hr => by simp at hr⟩ hordp 
        (guarded_remembering (s := (RowTable.empty, RowTable.empty)) hp)
    exact found_le_of_lostFull hinv.1 hnow k
  · intro hobs
    by_contra hbad
    obtain ⟨p, i, rest, rfl, -, hi⟩ := exists_first_unguarded hbad
    simp only [deletesFull, not_forall, not_le] at hi
    obtain ⟨k, r, hr, hgone, hlt⟩ := hi
    have hlast : (final (remembering step) p (RowTable.empty, RowTable.empty)).2 k = some r :=
      remembered_eq (by simp) (by rw [fst_final_remembering]; exact hr)
    have hle := hobs (p ++ [i]) ⟨rest, by simp⟩ i.time (lastClock_append t p [i]).le k
    rw [final_append, final_cons, final_nil] at hle
    have hnone : (remembering step i
        (final (remembering step) p (RowTable.empty, RowTable.empty))).1.1 k = none := by
      simp only [remembering, fst_final_remembering]
      exact hgone
    have hsome : (remembering step i
        (final (remembering step) p (RowTable.empty, RowTable.empty))).1.2 k = some r := by
      rw [← hlast]
      exact remember_of_none hnone
    rw [found, found, hnone, hsome, Option.map_none, seen_none, Option.map_some] at hle
    omega

/-- A store whose deletions always hit full buckets is safe on every run. -/
theorem neverObservable_of_deletesFull
    (hfull : ∀ t s i, BucketsWf o v t s → t ≤ i.time → deletesFull o v step i s) :
    NeverObservable o v step := by
  intro t is hord
  refine (expiryUnobservable_iff hstep hord).mp ?_
  have hcongr : ∀ t s i, BucketsWf o v t s → t ≤ i.time → (deletesFull o v step i s ↔ True) :=
    fun t s i h ht => iff_true_intro (hfull t s i h ht)
  refine (guarded_congr_of_inv (I := BucketsWf o v) hstep hcongr (t := t) ?_ hord).mpr
    (guarded_true is _)
  intro k r hr
  simp at hr

end Rows

section Writes

variable {κ ρ : Type} {o : TokenBucketOptions} {v : RowView ρ} {t now : ℤ} {s : RowTable κ ρ}

/-- A deletion keeps the rows well formed. -/
theorem bucketsWf_deleteWhere (h : BucketsWf o v t s) (ht : t ≤ now) (p : κ → ρ → Bool) :
    BucketsWf o v now (s.deleteWhere p) := by
  intro k r hr
  obtain ⟨hwf, hreset⟩ := h k r (deleteWhere_eq_some.mp hr).1
  exact ⟨hwf.mono ht, hreset⟩

/-- The row of a served request keeps the table well formed. -/
theorem bucketsWf_upsert [DecidableEq κ] (h : BucketsWf o v t s) (ht : t ≤ now) {key : κ} {r : ρ}
    {cost : ℕ} (hr : v.bucket r = (serve o now cost ((s key).map v.bucket)).1)
    (hreset : v.resetAt r = (v.bucket r).lastRefill + o.interval) :
    BucketsWf o v now (s.upsert key r fun _ => r) := by
  intro k r' hk
  by_cases heq : k = key
  · subst heq
    have hsame : (s k).elim r (fun _ => r) = r := by cases s k <;> rfl
    rw [upsert_self, hsame] at hk
    obtain rfl := Option.some.inj hk
    refine ⟨?_, hreset⟩
    rw [hr]
    refine wf_serve (fun b hb => ?_) cost
    obtain ⟨x, hx, rfl⟩ := Option.map_eq_some_iff.mp hb
    exact (h k x hx).1.mono ht
  · rw [upsert_of_ne _ _ _ heq] at hk
    exact ⟨(h k r' hk).1.mono ht, (h k r' hk).2⟩

/-- An upsert deletes nothing. -/
theorem upsert_ne_none [DecidableEq κ] {key k : κ} {r : ρ} {f : ρ → ρ} {x : ρ}
    (hx : s k = some x) : s.upsert key r f k ≠ none := by
  by_cases heq : k = key
  · subst heq
    simp
  · simp [upsert_of_ne _ _ _ heq, hx]

/-- `n` intervals after its last refill a bucket is full when they fill it. -/
theorem full_of_elapsed (h : BucketsWf o v now s) {k : κ} {r : ρ} (hr : s k = some r) {n : ℤ}
    (helapsed : v.resetAt r + (n - 1) * o.interval ≤ now)
    (hsize : o.bucketSize ≤ n * o.tokensPerInterval) :
    o.bucketSize ≤ seen o now (some (v.bucket r)) := by
  obtain ⟨hwf, hreset⟩ := h k r hr
  have hn : (v.bucket r).lastRefill + n * o.interval ≤ now := by
    rw [hreset] at helapsed
    linarith
  have hmin := min_le_seen hwf hn
  have := hwf.tokens_nonneg
  omega

/-- What an emptied bucket holds `n` intervals later. -/
theorem seen_emptied {n d : ℤ} (hn : 1 ≤ n) (hle : n * o.interval ≤ d)
    (hlt : d < (n + 1) * o.interval) :
    seen o d (some ⟨0, 0⟩) = min o.bucketSize (n * o.tokensPerInterval) := by
  rw [seen_some, refill_of_intervals hn (by simpa using hle) (by simpa using hlt)]
  simp

end Writes

/-! ## `PgStore` -/

namespace PgStore

variable {κ : Type} [DecidableEq κ] {o : TokenBucketOptions} {t now : ℤ}

/-- The bucket of a row. -/
def rowView : RowView PgBucketRow where
  bucket r := ⟨r.tokens, r.lastRefillAt⟩
  resetAt r := r.resetAt

/-- The transaction serves the request, with or without a row. -/
theorem bucketUpsert_eq (o : TokenBucketOptions) (now : ℤ) (cost : ℕ) (row : Option PgBucketRow) :
    let r := (bucketUpsert o now cost (selectedBucket o now row)).1
    rowView.bucket r = (serve o now cost (row.map rowView.bucket)).1 ∧
      rowView.resetAt r = (rowView.bucket r).lastRefill + o.interval := by
  refine ⟨?_, rfl⟩
  have hstart : selectedBucket o now row = orFull o now (row.map rowView.bucket) := by
    cases row <;> rfl
  rw [hstart, serve]
  set b := orFull o now (row.map rowView.bucket)
  rcases le_or_gt (cost : ℤ) (b.refill o now).tokens with h | h
  · rw [request_of_le o h]
    simp [bucketUpsert, rowView, h]
  · rw [request_of_lt o h]
    simp [bucketUpsert, rowView, not_le.mpr h]

/-- An upsert blocks what the row does not serve. -/
theorem bucketUpsert_isBlocked (o : TokenBucketOptions) (now : ℤ) (cost : ℕ)
    (row : Option PgBucketRow) :
    (bucketUpsert o now cost (selectedBucket o now row)).2.isBlocked =
      !(serve o now cost (row.map rowView.bucket)).2 := by
  rw [serve_snd]
  cases row <;> rfl

/-- Every step keeps the rows well formed. -/
theorem bucketsWf_step {s : RowTable κ PgBucketRow} {i : Timed (PgBucketOp κ)}
    (h : BucketsWf o rowView t s) (ht : t ≤ i.time) :
    BucketsWf o rowView i.time (bucketStep o i s).1 := by
  obtain ⟨now, op⟩ := i
  cases op with
  | increment key cost =>
    obtain ⟨hr, hreset⟩ := bucketUpsert_eq o now cost (s key)
    exact bucketsWf_upsert h ht hr hreset
  | sweep => exact bucketsWf_deleteWhere h ht _

/-- Only the sweep deletes, and only what has expired. -/
theorem expired_of_deleted {s : RowTable κ PgBucketRow} {i : Timed (PgBucketOp κ)} {k : κ}
    {r : PgBucketRow} (hr : s k = some r) (hgone : (bucketStep o i s).1 k = none) :
    r.resetAt < i.time := by
  obtain ⟨now, op⟩ := i
  cases op with
  | increment key cost => exact absurd hgone (upsert_ne_none hr)
  | sweep =>
    simp only [bucketStep, sweepBuckets] at hgone
    simpa using of_deleteWhere_eq_none hr hgone

/-- A bucket that one interval fills, or two of one millisecond, is never missed. -/
theorem neverObservable_of_le (h : o.bucketSize ≤ o.tokensPerInterval ∨
    (o.interval = 1 ∧ o.bucketSize ≤ 2 * o.tokensPerInterval)) :
    NeverObservable o rowView (bucketStep (κ := κ) o) := by
  refine neverObservable_of_deletesFull (fun t s i hwf ht => bucketsWf_step hwf ht) ?_
  intro t s i hwf ht k r hr hgone
  have hwf' : BucketsWf o rowView i.time s := fun k r hr => ⟨(hwf k r hr).1.mono ht, (hwf k r hr).2⟩
  have hexp : rowView.resetAt r < i.time := expired_of_deleted hr hgone
  rcases h with h | ⟨hI, h⟩
  · exact full_of_elapsed hwf' hr (n := 1) (by omega) (by omega)
  · exact full_of_elapsed hwf' hr (n := 2) (by omega) (by omega)

/-- Emptied at 0 and swept one interval and a millisecond later. -/
theorem le_of_neverObservable (k : κ) (h : NeverObservable o rowView (bucketStep (κ := κ) o)) :
    o.bucketSize ≤ o.tokensPerInterval ∨
      (o.interval = 1 ∧ o.bucketSize ≤ 2 * o.tokensPerInterval) := by
  have hI := o.interval_pos
  have hS := o.bucketSize_pos
  have hcost : (o.bucketSize.toNat : ℤ) = o.bucketSize := by omega
  have hord : OrderedFrom Timed.time (0 : ℤ)
      [⟨0, .increment k o.bucketSize.toNat⟩, ⟨o.interval + 1, PgBucketOp.sweep⟩] :=
    ⟨le_rfl, by simp only; omega, trivial⟩
  obtain ⟨-, hsweep, -⟩ := (expiryUnobservable_iff (fun t s i hwf ht => bucketsWf_step hwf ht)
    hord).mpr (h 0 _ hord)
  obtain ⟨hr, hreset⟩ := bucketUpsert_eq o 0 o.bucketSize.toNat none
  rw [Option.map_none, serve_whole hcost] at hr
  rw [hr] at hreset
  set r := (bucketUpsert o 0 o.bucketSize.toNat (selectedBucket o 0 none)).1 with hrdef
  have hs : (bucketStep o ⟨0, .increment k o.bucketSize.toNat⟩ RowTable.empty).1 k = some r := by
    simp [bucketStep, incrementTokenBucket, ← hrdef]
  have hexp : r.resetAt < o.interval + 1 := by
    have : r.resetAt = 0 + o.interval := hreset
    omega
  have hgone : (sweepBuckets (o.interval + 1)
      (bucketStep o ⟨0, .increment k o.bucketSize.toNat⟩ RowTable.empty).1) k = none :=
    deleteWhere_eq_none.mpr (Or.inr ⟨r, hs, by simpa using hexp⟩)
  have hfull := hsweep k r hs hgone
  rw [hr] at hfull
  by_cases hone : o.interval = 1
  · right
    rw [seen_emptied (n := 2) (by omega) (by simp only; omega) (by simp only; omega)] at hfull
    omega
  · left
    rw [seen_emptied (n := 1) (by omega) (by simp only; omega) (by simp only; omega)] at hfull
    omega

end PgStore

/-! ## `MongoStore` -/

namespace MongoStore

variable {κ : Type} [DecidableEq κ] {o : TokenBucketOptions} {t now : ℤ}

/-- The bucket of a document. -/
def rowView : RowView BucketDocument where
  bucket d := ⟨d.tokens, d.lastRefillAt⟩
  resetAt d := d.resetAt

/-- The pipeline serves the request when the clock has not gone back. -/
theorem tokenBucketPipeline_eq (o : TokenBucketOptions) (now : ℤ) (cost : ℕ)
    (doc : Option BucketDocument) (h : ∀ d ∈ doc, (rowView.bucket d).Wf o now) :
    let d := (tokenBucketPipeline o now cost doc).1
    rowView.bucket d = (serve o now cost (doc.map rowView.bucket)).1 ∧
      rowView.resetAt d = (rowView.bucket d).lastRefill + o.interval := by
  refine ⟨?_, rfl⟩
  have hwf : (orFull o now (doc.map rowView.bucket)).Wf o now := by
    refine wf_orFull fun b hb => ?_
    obtain ⟨d, hd, rfl⟩ := Option.map_eq_some_iff.mp hb
    exact h d hd
  have htok := tokens_refill hwf.tokens_le hwf.lastRefill_le
  have hlast := lastRefill_refill (p := o) hwf.lastRefill_le
  rw [serve]
  set b := orFull o now (doc.map rowView.bucket) with hb
  have hstart : (doc.map BucketDocument.lastRefillAt).getD now = b.lastRefill ∧
      (doc.map BucketDocument.tokens).getD o.bucketSize = b.tokens := by
    rw [hb]
    cases doc <;> exact ⟨rfl, rfl⟩
  rcases le_or_gt (cost : ℤ) (b.refill o now).tokens with hc | hc
  · rw [request_of_le o hc, hlast, htok]
    rw [htok] at hc
    simp only [tokenBucketPipeline, rowView, hstart.1, hstart.2, hc, decide_true, if_true]
  · rw [request_of_lt o hc]
    have hc' := hc
    rw [htok] at hc'
    have hbeq : b.refill o now = ⟨(b.refill o now).tokens, (b.refill o now).lastRefill⟩ := rfl
    rw [hbeq, hlast, htok]
    simp only [tokenBucketPipeline, rowView, hstart.1, hstart.2, not_le.mpr hc', decide_false,
      Bool.false_eq_true, if_false]

/-- Every step keeps the documents well formed. -/
theorem bucketsWf_step {s : RowTable κ BucketDocument} {i : Timed (MongoBucketOp κ)}
    (h : BucketsWf o rowView t s) (ht : t ≤ i.time) :
    BucketsWf o rowView i.time (bucketStep o i s).1 := by
  obtain ⟨now, op⟩ := i
  cases op with
  | increment key cost =>
    obtain ⟨hr, hreset⟩ := tokenBucketPipeline_eq o now cost
      (s key) fun d hd => (h key d hd).1.mono ht
    exact bucketsWf_upsert h ht hr hreset
  | ttlDelete picked => exact bucketsWf_deleteWhere h ht _

/-- Only the TTL monitor deletes, and only what has expired. -/
theorem expired_of_deleted {s : RowTable κ BucketDocument} {i : Timed (MongoBucketOp κ)} {k : κ}
    {d : BucketDocument} (hd : s k = some d) (hgone : (bucketStep o i s).1 k = none) :
    d.resetAt ≤ i.time := by
  obtain ⟨now, op⟩ := i
  cases op with
  | increment key cost => exact absurd hgone (upsert_ne_none hd)
  | ttlDelete picked =>
    simp only [bucketStep, ttlDelete] at hgone
    have hexp := of_deleteWhere_eq_none hd hgone
    simp only [Bool.and_eq_true, decide_eq_true_eq] at hexp
    exact hexp.2

/-- A bucket that one interval fills is never missed. -/
theorem neverObservable_of_le (h : o.bucketSize ≤ o.tokensPerInterval) :
    NeverObservable o rowView (bucketStep (κ := κ) o) := by
  refine neverObservable_of_deletesFull (fun t s i hwf ht => bucketsWf_step hwf ht) ?_
  intro t s i hwf ht k d hd hgone
  have hwf' : BucketsWf o rowView i.time s := fun k d hd => ⟨(hwf k d hd).1.mono ht, (hwf k d hd).2⟩
  have hexp : rowView.resetAt d ≤ i.time := expired_of_deleted hd hgone
  exact full_of_elapsed hwf' hd (n := 1) (by omega) (by omega)

/-- Emptied at 0 and removed one interval later. -/
theorem le_of_neverObservable (k : κ) (h : NeverObservable o rowView (bucketStep (κ := κ) o)) :
    o.bucketSize ≤ o.tokensPerInterval := by
  have hI := o.interval_pos
  have hS := o.bucketSize_pos
  have hcost : (o.bucketSize.toNat : ℤ) = o.bucketSize := by omega
  have hord : OrderedFrom Timed.time (0 : ℤ)
      [⟨0, .increment k o.bucketSize.toNat⟩,
        ⟨o.interval, MongoBucketOp.ttlDelete fun _ => true⟩] :=
    ⟨le_rfl, by simp only; omega, trivial⟩
  obtain ⟨-, hdelete, -⟩ := (expiryUnobservable_iff (fun t s i hwf ht => bucketsWf_step hwf ht)
    hord).mpr (h 0 _ hord)
  obtain ⟨hd, hreset⟩ := tokenBucketPipeline_eq o 0 o.bucketSize.toNat none (by simp)
  rw [Option.map_none, serve_whole hcost] at hd
  rw [hd] at hreset
  set d := (tokenBucketPipeline o 0 o.bucketSize.toNat none).1 with hddef
  have hs : (bucketStep o ⟨0, .increment k o.bucketSize.toNat⟩ RowTable.empty).1 k = some d := by
    simp [bucketStep, incrementTokenBucket, ← hddef]
  have hexp : d.resetAt ≤ o.interval := by
    have : d.resetAt = 0 + o.interval := hreset
    omega
  have hgone : (ttlDelete o.interval (fun _ => true)
      (bucketStep o ⟨0, .increment k o.bucketSize.toNat⟩ RowTable.empty).1) k = none :=
    deleteWhere_eq_none.mpr (Or.inr ⟨d, hs, by simpa using hexp⟩)
  have hfull := hdelete k d hs hgone
  rw [hd, seen_emptied (n := 1) (by omega) (by simp only; omega) (by simp only; omega)] at hfull
  omega

end MongoStore

/-! ## Main results -/

/-- **Expiry of bucket rows.**  Over any run at nondecreasing times, of either store, the
deletions that its expiry rule permits are unobservable, now and at any later time, exactly
when each of them hits a bucket that its refill at that moment makes full.  No run shows an
expiry exactly when one refill fills the bucket; in Postgres, where `reset_at` has to be
past, two refills do when the interval is one millisecond.
SOURCE: src/stores/postgres/PgStore.ts:181-272, 530-543, src/stores/mongo/MongoStore.ts:101-107,
216-299 -/
theorem bucketRow_expiry_unobservable_iff {κ : Type} [DecidableEq κ] [Inhabited κ]
    (o : TokenBucketOptions) :
    (∀ t (is : List (Timed (PgBucketOp κ))), OrderedFrom Timed.time t is →
      (Guarded (deletesFull o PgStore.rowView (PgStore.bucketStep o)) (PgStore.bucketStep o) is
          RowTable.empty ↔
        ExpiryUnobservable o PgStore.rowView (PgStore.bucketStep o) t is)) ∧
    (∀ t (is : List (Timed (MongoBucketOp κ))), OrderedFrom Timed.time t is →
      (Guarded (deletesFull o MongoStore.rowView (MongoStore.bucketStep o))
          (MongoStore.bucketStep o) is RowTable.empty ↔
        ExpiryUnobservable o MongoStore.rowView (MongoStore.bucketStep o) t is)) ∧
    (NeverObservable o PgStore.rowView (PgStore.bucketStep (κ := κ) o) ↔
      o.bucketSize ≤ o.tokensPerInterval ∨
        (o.interval = 1 ∧ o.bucketSize ≤ 2 * o.tokensPerInterval)) ∧
    (NeverObservable o MongoStore.rowView (MongoStore.bucketStep (κ := κ) o) ↔
      o.bucketSize ≤ o.tokensPerInterval) := by
  refine ⟨fun t is hord => ?_, fun t is hord => ?_, ?_, ?_⟩
  · exact expiryUnobservable_iff (fun t s i hwf ht => PgStore.bucketsWf_step hwf ht) hord
  · exact expiryUnobservable_iff (fun t s i hwf ht => MongoStore.bucketsWf_step hwf ht) hord
  · exact ⟨PgStore.le_of_neverObservable default, PgStore.neverObservable_of_le⟩
  · exact ⟨MongoStore.le_of_neverObservable default, MongoStore.neverObservable_of_le⟩

/-- A run of Postgres whose sweep comes when ten seconds have refilled the bucket. -/
theorem bucketRow_expiry_unobservable_late :
    ExpiryUnobservable tenAtMost PgStore.rowView (PgStore.bucketStep tenAtMost) 0
      [⟨0, .increment 7 10⟩, ⟨10000, .sweep⟩, ⟨10500, .increment (7 : ℕ) 1⟩] := by
  refine ((bucketRow_expiry_unobservable_iff (κ := ℕ) tenAtMost).1 0 _ (by decide)).mp
    ⟨?_, ?_, ?_, trivial⟩
  · intro k r hr
    simp at hr
  · intro k r hr _
    by_cases hk : k = 7
    · subst hk
      obtain rfl := Option.some.inj hr.symm
      decide
    · simp [PgStore.bucketStep, PgStore.incrementTokenBucket, hk] at hr
  · intro k r hr
    by_cases hk : k = 7
    · subst hk
      simp [PgStore.bucketStep, PgStore.incrementTokenBucket]
    · simp [PgStore.bucketStep, PgStore.incrementTokenBucket, PgStore.sweepBuckets,
        RowTable.deleteWhere, hk] at hr

/-- A bucket of 100 that gains one token a second, emptied at 0: 1001 ms later the sweep may
delete its row, and the TTL monitor its document; the next increment finds 100 tokens, where
one has come back. -/
theorem bucketRow_expiry_refills :
    let o := hundredAtMost
    let pg := final (remembering (PgStore.bucketStep o))
      [⟨0, .increment (7 : ℕ) 100⟩, ⟨1001, .sweep⟩] (RowTable.empty, RowTable.empty)
    let mongo := final (remembering (MongoStore.bucketStep o))
      [⟨0, .increment (7 : ℕ) 100⟩, ⟨1001, .ttlDelete fun _ => true⟩]
      (RowTable.empty, RowTable.empty)
    found o PgStore.rowView 1001 pg.1 7 = 100 ∧ found o PgStore.rowView 1001 pg.2 7 = 1 ∧
      found o MongoStore.rowView 1001 mongo.1 7 = 100 ∧
      found o MongoStore.rowView 1001 mongo.2 7 = 1 := by
  decide

end RatelimitFlex
