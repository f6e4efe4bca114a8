import RatelimitFlex.Library.TimedRun
import RatelimitFlex.Program.RedisTokenBucket

/-!
# What the time to live does to a Redis token bucket

The script gives the key ten intervals to live, however long the bucket takes to fill.
`Lease` says what every stored hash satisfies, and `full_of_expired` that a bucket which
ten refills fill is full when its hash is removed: then expiry is harmless.  With a larger
bucket the runs `drain` admit more than any allowance.
-/

set_option autoImplicit false

namespace RatelimitFlex

open Library Bucket

namespace RedisBucket

variable {o : TokenBucketOptions} {t now : ℤ}

/-! ## The script as a bucket that may be missing -/

/-- The bucket of a stored hash. -/
def bucket (h : RedisHash) : Bucket := ⟨h.tokens, h.lastRefill⟩

/-- The bucket a request at `now` starts from. -/
def liveBucket (now : ℤ) (s : Option RedisHash) : Option Bucket := (live now s).map bucket

/-- The cost the script charges. -/
def charged (cost : ℕ) : ℕ := max cost 1

/-- The bucket the script decides on. -/
def refilled (o : TokenBucketOptions) (now : ℤ) (s : Option RedisHash) : Bucket :=
  (orFull o now (s.map bucket)).refill o now

/-- What the script stores and answers, by the refilled bucket. -/
theorem luaBucketIncr_refilled (o : TokenBucketOptions) (now : ℤ) (cost : ℕ)
    (s : Option RedisHash) :
    luaBucketIncr o now cost s =
      if (charged cost : ℤ) ≤ (refilled o now s).tokens then
        (⟨(refilled o now s).tokens - charged cost, (refilled o now s).lastRefill,
          now + o.interval * 10⟩,
          { totalHits := o.bucketSize - ((refilled o now s).tokens - charged cost)
            remaining := (refilled o now s).tokens - charged cost
            resetTime := (refilled o now s).lastRefill + o.interval
            isBlocked := false })
      else
        (⟨(refilled o now s).tokens, (refilled o now s).lastRefill, now + o.interval * 10⟩,
          { totalHits := o.bucketSize
            remaining := (refilled o now s).tokens
            resetTime := (refilled o now s).lastRefill + o.interval
            isBlocked := true }) := by
  have hstart : luaBucketIncr o now cost s =
      luaBucketIncr o now cost (some ⟨(orFull o now (s.map bucket)).tokens,
        (orFull o now (s.map bucket)).lastRefill, 0⟩) := by
    cases s <;> rfl
  rw [hstart, refilled]
  generalize orFull o now (s.map bucket) = b
  by_cases hk : 0 < (now - b.lastRefill) / o.interval <;>
    simp [luaBucketIncr, refill, charged, hk]

/-- The script serves the bucket, and lets it live for ten intervals more. -/
theorem luaBucketIncr_eq (o : TokenBucketOptions) (now : ℤ) (cost : ℕ) (s : Option RedisHash) :
    bucket (luaBucketIncr o now cost s).1 = (serve o now (charged cost) (s.map bucket)).1 ∧
      (luaBucketIncr o now cost s).1.expireAt = now + o.interval * 10 ∧
      (luaBucketIncr o now cost s).2.isBlocked =
        !(serve o now (charged cost) (s.map bucket)).2 := by
  rw [luaBucketIncr_refilled, serve]
  rcases le_or_gt (charged cost : ℤ) (refilled o now s).tokens with h | h
  · rw [if_pos h, request_of_le o h]
    exact ⟨rfl, rfl, rfl⟩
  · rw [if_neg (by omega), request_of_lt o h]
    exact ⟨rfl, rfl, rfl⟩

/-- What an increment stores and answers. -/
theorem incr_spec (o : TokenBucketOptions) (i : Timed ℕ) (s : Option RedisHash) :
    ∃ h, (incrBucketRedis o i s).1 = some h ∧
      bucket h = (serve o i.time (charged i.op) (liveBucket i.time s)).1 ∧
      h.expireAt = i.time + o.interval * 10 ∧
      (incrBucketRedis o i s).2.isBlocked =
        !(serve o i.time (charged i.op) (liveBucket i.time s)).2 := by
  obtain ⟨h1, h2, h3⟩ := luaBucketIncr_eq o i.time i.op (live i.time s)
  exact ⟨_, rfl, h1, h2, h3⟩

/-- It blocks what the live bucket does not serve. -/
theorem incr_isBlocked (o : TokenBucketOptions) (i : Timed ℕ) (s : Option RedisHash) :
    (incrBucketRedis o i s).2.isBlocked =
      !(serve o i.time (charged i.op) (liveBucket i.time s)).2 :=
  (luaBucketIncr_eq o i.time i.op (live i.time s)).2.2

/-! ## The lease of a hash -/

/-- A stored bucket is well formed and lives for ten intervals after its last refill, at
least. -/
def Lease (o : TokenBucketOptions) (t : ℤ) (s : Option RedisHash) : Prop :=
  ∀ h ∈ s, (bucket h).Wf o t ∧ h.lastRefill + 10 * o.interval ≤ h.expireAt

/-- A missing bucket needs no lease. -/
theorem lease_none (o : TokenBucketOptions) (t : ℤ) : Lease o t none := by
  simp [Lease]

/-- A lease holds on as time passes. -/
theorem Lease.mono {s : Option RedisHash} (h : Lease o t s) (ht : t ≤ now) : Lease o now s :=
  fun x hx => ⟨(h x hx).1.mono ht, (h x hx).2⟩

/-- A live bucket is well formed. -/
theorem Lease.wf_liveBucket {s : Option RedisHash} (h : Lease o now s) (u : ℤ) :
    ∀ b ∈ liveBucket u s, b.Wf o now := by
  intro b hb
  obtain ⟨x, hx, rfl⟩ := Option.map_eq_some_iff.mp hb
  exact (h x (Option.filter_eq_some_iff.mp hx).1).1

/-- An increment takes a new lease. -/
theorem Lease.step {s : Option RedisHash} (h : Lease o t s) (i : Timed ℕ) (ht : t ≤ i.time) :
    Lease o i.time (incrBucketRedis o i s).1 := by
  obtain ⟨x, hx, hbucket, hexp, -⟩ := incr_spec o i s
  have hwf := wf_serve ((h.mono ht).wf_liveBucket i.time) (charged i.op)
  rw [hx]
  rintro _ ⟨⟩
  rw [hbucket, hexp]
  refine ⟨hwf, ?_⟩
  have hlast : x.lastRefill = (serve o i.time (charged i.op) (liveBucket i.time s)).1.lastRefill :=
    congrArg Bucket.lastRefill hbucket
  have := hwf.lastRefill_le
  omega

/-- So does a run of them. -/
theorem lease_final {s : Option RedisHash} (h : Lease o t s) {is : List (Timed ℕ)}
    (hord : OrderedFrom Timed.time t is) :
    Lease o (lastClock Timed.time t is) (final (incrBucketRedis o) is s) :=
  final_inv (G := fun _ _ => True) (fun _ _ i h ht _ => h.step i ht) h hord (guarded_true is s)

/-- A bucket that ten refills fill is full when its hash is removed. -/
theorem full_of_expired {s : Option RedisHash} (h : Lease o now s)
    (hsize : o.bucketSize ≤ 10 * o.tokensPerInterval) (hgone : live now s = none) :
    o.bucketSize ≤ seen o now (s.map bucket) := by
  cases s with
  | none => simp
  | some x =>
    obtain ⟨hwf, hlease⟩ := h x rfl
    have hexp : x.expireAt ≤ now := by simpa [live, Option.filter] using hgone
    have hmin := min_le_seen (n := 10) hwf (by simp only [bucket]; omega)
    have := hwf.tokens_nonneg
    rw [Option.map_some]
    omega

/-- A key is there or it has expired. -/
theorem live_eq_or (now : ℤ) (s : Option RedisHash) : live now s = s ∨ live now s = none := by
  cases s with
  | none => exact Or.inr rfl
  | some x => by_cases hx : now < x.expireAt <;> simp [live, Option.filter, hx]

/-! ## What is admitted -/

/-- The cost of the increments allowed in `[a, c]`. -/
def admittedCost (a c : ℤ) : List (Timed ℕ) → List RateLimitResult → ℤ
  | i :: is, r :: rs => spend a c i.time (charged i.op) (!r.isBlocked) + admittedCost a c is rs
  | _, _ => 0

/-- The bucket that is never removed, run on the same increments. -/
def unexpiredStep (o : TokenBucketOptions) (i : Timed ℕ) (e : Option Bucket) :
    Option Bucket × Bool :=
  let r := serve o i.time (charged i.op) e
  (some r.1, r.2)

/-- What is admitted in `[a, b]` costs at most the bucket and one refill for each interval
begun. -/
def WithinAllowance (o : TokenBucketOptions) : Prop :=
  ∀ t is, OrderedFrom Timed.time t is → ∀ a b, a ≤ b →
    admittedCost a b is (outputs (incrBucketRedis o) is none) ≤
      o.bucketSize + ((b - a) / o.interval + 1) * o.tokensPerInterval

/-- An increment is allowed only if the bucket the previous one left, had it not been
removed, would allow it. -/
def FollowsRetained (o : TokenBucketOptions) : Prop :=
  ∀ t is i, OrderedFrom Timed.time t (is ++ [i]) →
    (incrBucketRedis o i (final (incrBucketRedis o) is none)).2.isBlocked = false →
    (charged i.op : ℤ) ≤ seen o i.time ((final (incrBucketRedis o) is none).map bucket)

/-- An increment is allowed only if the bucket that is never removed, run beside from the
first hit on, allows it. -/
def FollowsUnexpired (o : TokenBucketOptions) : Prop :=
  ∀ t is, OrderedFrom Timed.time t is →
    List.Forall₂ (fun r ok => r.isBlocked = false → ok = true)
      (outputs (incrBucketRedis o) is none) (outputs (unexpiredStep o) is none)

section Enough

variable (hsize : o.bucketSize ≤ 10 * o.tokensPerInterval)

include hsize

/-- One step keeps the budget: a hash that is gone was full. -/
theorem budget_step {a c spent : ℤ} {s : Option RedisHash} (hac : a ≤ c)
    (h : Budget o a c t spent (s.map bucket)) (hl : Lease o t s) (i : Timed ℕ)
    (ht : t ≤ i.time) :
    Budget o a c i.time
      (spent + spend a c i.time (charged i.op) (!(incrBucketRedis o i s).2.isBlocked))
      ((incrBucketRedis o i s).1.map bucket) := by
  obtain ⟨x, hx, hbucket, -, hblocked⟩ := incr_spec o i s
  have hlive : Budget o a c i.time spent (liveBucket i.time s) := by
    rcases live_eq_or i.time s with heq | hgone
    · rw [liveBucket, heq]
      exact h.mono ht
    · rw [liveBucket, hgone]
      cases s with
      | none => exact h.mono ht
      | some y =>
        have hfull := full_of_expired (hl.mono ht) hsize hgone
        rw [Option.map_some, seen_some] at hfull
        rw [Option.map_some] at h
        exact h.drop ht hfull
  rw [hblocked, Bool.not_not, hx, Option.map_some, hbucket]
  exact hlive.serve hac le_rfl (charged i.op)

/-- **A run stays within the budget.** -/
theorem budget_run {a c spent : ℤ} {s : Option RedisHash} (hac : a ≤ c)
    (h : Budget o a c t spent (s.map bucket)) (hl : Lease o t s) {is : List (Timed ℕ)}
    (hord : OrderedFrom Timed.time t is) :
    Budget o a c (lastClock Timed.time t is)
      (spent + admittedCost a c is (outputs (incrBucketRedis o) is s))
      ((final (incrBucketRedis o) is s).map bucket) := by
  induction is generalizing t spent s with
  | nil => simpa [admittedCost] using h
  | cons i is ih =>
    have hstep := budget_step hsize hac h hl i hord.1
    have := ih hstep (hl.step i hord.1) hord.2
    rwa [add_assoc] at this

/-- A bucket that refills within its lease keeps the allowance. -/
theorem withinAllowance_of_le : WithinAllowance o := by
  intro t is hord a b hab
  have h := budget_run hsize hab (budget_none hab t) (lease_none o t) hord
  simpa [allowance] using h.le_allowance

/-- It follows the bucket that is kept for ever. -/
theorem followsRetained_of_le : FollowsRetained o := by
  intro t is i hord hok
  obtain ⟨hord, hlast⟩ := orderedFrom_append.mp hord
  have hl := (lease_final (lease_none o t) hord).mono hlast.1
  rw [incr_isBlocked, Bool.not_eq_false', serve_snd, decide_eq_true_eq] at hok
  rcases live_eq_or i.time (final (incrBucketRedis o) is none) with heq | hgone
  · rwa [liveBucket, heq] at hok
  · rw [liveBucket, hgone, Option.map_none, seen_none] at hok
    exact hok.trans (full_of_expired hl hsize hgone)

/-- With an interval of one millisecond a bucket made anew is the one that was removed. -/
theorem unexpired_step (hI : o.interval = 1) {s : Option RedisHash} (hl : Lease o t s)
    (i : Timed ℕ) (ht : t ≤ i.time) :
    (!(incrBucketRedis o i s).2.isBlocked) = (unexpiredStep o i (s.map bucket)).2 ∧
      (incrBucketRedis o i s).1.map bucket = (unexpiredStep o i (s.map bucket)).1 := by
  obtain ⟨x, hx, hbucket, -, hblocked⟩ := incr_spec o i s
  have hserve : serve o i.time (charged i.op) (liveBucket i.time s) =
      serve o i.time (charged i.op) (s.map bucket) := by
    rcases live_eq_or i.time s with heq | hgone
    · rw [liveBucket, heq]
    · refine request_congr o ?_ _
      rw [liveBucket, hgone]
      cases s with
      | none => rfl
      | some y =>
        have hl := hl.mono ht
        have hfull := full_of_expired hl hsize hgone
        simp only [Option.map_none, orFull, Option.getD_none, refill_full, Option.map_some,
          Option.getD_some]
        exact (refill_eq_full hfull (hl y rfl).1 hI).symm
  rw [hblocked, Bool.not_not, hx, Option.map_some, hbucket, hserve]
  exact ⟨rfl, rfl⟩

/-- At an interval of one it follows the bucket that never expires. -/
theorem followsUnexpired_of_le (hI : o.interval = 1) : FollowsUnexpired o := by
  intro t is hord
  have hstep : ∀ (t : ℤ) (s : Option RedisHash) (e : Option Bucket) (i : Timed ℕ),
      Lease o t s ∧ s.map bucket = e → t ≤ i.time → True →
      (!(incrBucketRedis o i s).2.isBlocked) = (unexpiredStep o i e).2 ∧
        Lease o i.time (incrBucketRedis o i s).1 ∧
          (incrBucketRedis o i s).1.map bucket = (unexpiredStep o i e).1 := by
    rintro t s e i ⟨hl, rfl⟩ ht -
    obtain ⟨hout, hstate⟩ := unexpired_step hsize hI hl i ht
    exact ⟨hout, hl.step i ht, hstate⟩
  have hsim := outputs_eq_of_simulation (fun r : RateLimitResult => !r.isBlocked)
    (G := fun _ _ => True) (R := fun t s e => Lease o t s ∧ s.map bucket = e) hstep
    ⟨lease_none o t, rfl⟩ hord (guarded_true is none)
  have hout : outputs (unexpiredStep o) is none =
      (outputs (incrBucketRedis o) is none).map fun r => !r.isBlocked := hsim.1.symm
  rw [hout, List.forall₂_map_right_iff, List.forall₂_same]
  intro r _ hr
  rw [hr]
  rfl

end Enough

/-! ## Runs that outlive the lease -/

/-- The cost of a whole bucket. -/
def wholeBucket (o : TokenBucketOptions) : ℕ := o.bucketSize.toNat

/-- A whole bucket may be asked for at once. -/
theorem charged_wholeBucket (o : TokenBucketOptions) :
    (charged (wholeBucket o) : ℤ) = o.bucketSize := by
  have := o.bucketSize_pos
  simp only [charged, wholeBucket]
  omega

/-- A whole bucket is served where there is none, and leaves it empty. -/
theorem serve_wholeBucket (o : TokenBucketOptions) (now : ℤ) :
    serve o now (charged (wholeBucket o)) none = (⟨0, now⟩, true) :=
  serve_whole (charged_wholeBucket o)

/-- Served, it spends the whole bucket. -/
theorem charged_wholeBucket_spend {a c : ℤ} (ha : a ≤ now) (hc : now ≤ c) :
    spend a c now (charged (wholeBucket o)) (!false) = o.bucketSize := by
  rw [spend, if_pos ⟨rfl, ha, hc⟩, charged_wholeBucket]

/-- When the hash is gone a whole bucket is allowed, and the next one in ten intervals. -/
theorem incr_wholeBucket (o : TokenBucketOptions) (now : ℤ) {s : Option RedisHash}
    (hgone : live now s = none) :
    (incrBucketRedis o ⟨now, wholeBucket o⟩ s).2.isBlocked = false ∧
      (incrBucketRedis o ⟨now, wholeBucket o⟩ s).1 = some ⟨0, now, now + o.interval * 10⟩ := by
  obtain ⟨x, hx, hbucket, hexp, hblocked⟩ := incr_spec o ⟨now, wholeBucket o⟩ s
  simp only [liveBucket, hgone, Option.map_none, serve_wholeBucket] at hbucket hblocked hexp
  obtain ⟨htok, hlast⟩ : x.tokens = 0 ∧ x.lastRefill = now := by
    simpa [bucket] using hbucket
  refine ⟨hblocked, ?_⟩
  rw [hx, ← htok, ← hexp]
  conv_rhs => rw [← hlast]

/-- `n` whole buckets, ten intervals apart, the first at `t`. -/
def drain (o : TokenBucketOptions) : ℕ → ℤ → List (Timed ℕ)
  | 0, _ => []
  | n + 1, t => ⟨t, wholeBucket o⟩ :: drain o n (t + o.interval * 10)

/-- The requests that drain a bucket are in order. -/
theorem orderedFrom_drain (o : TokenBucketOptions) (n : ℕ) {t u : ℤ} (h : u ≤ t) :
    OrderedFrom Timed.time u (drain o n t) := by
  induction n generalizing t u with
  | zero => trivial
  | succ n ih =>
    have := o.interval_pos
    exact ⟨h, ih (by simp only; omega)⟩

/-- All of them are allowed. -/
theorem admittedCost_drain (o : TokenBucketOptions) {a c : ℤ} (n : ℕ) {t : ℤ}
    {s : Option RedisHash} (hgone : live t s = none) (ha : a ≤ t)
    (hc : t + o.interval * 10 * n ≤ c + o.interval * 10) :
    admittedCost a c (drain o n t) (outputs (incrBucketRedis o) (drain o n t) s) =
      n * o.bucketSize := by
  induction n generalizing t s with
  | zero => simp [drain, admittedCost]
  | succ n ih =>
    have hI := o.interval_pos
    obtain ⟨hok, hs⟩ := incr_wholeBucket o _ hgone
    have hnn : 0 ≤ o.interval * 10 * (n : ℤ) := by positivity
    push_cast at hc
    rw [mul_add, mul_one] at hc
    have hnext : live (t + o.interval * 10) (some ⟨0, t, t + o.interval * 10⟩) = none := by
      simp [live, Option.filter]
    have htail := ih hnext (by omega) (by omega)
    have hspend : spend a c t (charged (wholeBucket o)) (!false) = o.bucketSize :=
      charged_wholeBucket_spend ha (by omega)
    rw [drain, outputs_cons, hs, admittedCost, htail, hok, hspend]
    push_cast
    ring

/-- The allowance is kept only where the bucket refills within its lease. -/
theorem le_of_withinAllowance (h : WithinAllowance o) :
    o.bucketSize ≤ 10 * o.tokensPerInterval := by
  by_contra hsize
  have hI := o.interval_pos
  have hR := o.tokensPerInterval_pos
  -- enough rounds that the surplus of each adds up to more than one refill
  set m := (o.tokensPerInterval + 1).toNat with hm
  have hmz : (m : ℤ) = o.tokensPerInterval + 1 := by omega
  have hbound := h 0 (drain o (m + 1) 0) (orderedFrom_drain o _ le_rfl) 0
    (o.interval * 10 * m) (by positivity)
  rw [admittedCost_drain o (m + 1) rfl le_rfl (by push_cast; linarith)] at hbound
  have hdiv : (o.interval * 10 * (m : ℤ) - 0) / o.interval = 10 * m := by
    rw [sub_zero, mul_assoc, Int.mul_ediv_cancel_left _ (by omega)]
  rw [hdiv] at hbound
  push_cast at hbound
  rw [hmz] at hbound
  nlinarith

/-- The kept bucket is followed only there. -/
theorem le_of_followsRetained (h : FollowsRetained o) :
    o.bucketSize ≤ 10 * o.tokensPerInterval := by
  have hI := o.interval_pos
  have hR := o.tokensPerInterval_pos
  obtain ⟨-, hs⟩ := incr_wholeBucket o 0 (s := none) rfl
  have hfinal : final (incrBucketRedis o) [⟨0, wholeBucket o⟩] none =
      some ⟨0, 0, o.interval * 10⟩ := by
    rw [final_cons, hs, zero_add]
    rfl
  have hgone : live (o.interval * 10) (some ⟨0, 0, o.interval * 10⟩) = none := by
    simp [live, Option.filter]
  have hord : OrderedFrom Timed.time 0
      [⟨0, wholeBucket o⟩, ⟨o.interval * 10, wholeBucket o⟩] :=
    ⟨le_rfl, by positivity, trivial⟩
  have hseen := h 0 [⟨0, wholeBucket o⟩] ⟨o.interval * 10, wholeBucket o⟩ hord
  rw [hfinal] at hseen
  have hle := hseen (incr_wholeBucket o _ hgone).1
  rw [charged_wholeBucket, Option.map_some, seen_some, bucket,
    refill_of_intervals (n := 10) (by omega) (by simp only; omega) (by simp only; omega)] at hle
  simp only at hle
  omega

/-- What the script answers on a run, beside the bucket that is never removed. -/
theorem unexpired_of_followsUnexpired (h : FollowsUnexpired o) {t : ℤ}
    (is : List (Timed ℕ)) {i : Timed ℕ} (hord : OrderedFrom Timed.time t (is ++ [i]))
    (hok : (incrBucketRedis o i (final (incrBucketRedis o) is none)).2.isBlocked = false) :
    (charged i.op : ℤ) ≤ seen o i.time (final (unexpiredStep o) is none) := by
  have hall := h t (is ++ [i]) hord
  rw [outputs_append, outputs_append] at hall
  have hlast := ((List.forall₂_iff_get.mp hall).2 is.length (by simp) (by simp))
  have hserved := hlast (by simpa using hok)
  simpa [unexpiredStep, serve_snd] using hserved

/-- So is the one that never expires. -/
theorem le_of_followsUnexpired (h : FollowsUnexpired o) :
    o.bucketSize ≤ 10 * o.tokensPerInterval := by
  have hI := o.interval_pos
  have hR := o.tokensPerInterval_pos
  obtain ⟨-, hs⟩ := incr_wholeBucket o 0 (s := none) rfl
  have hgone : live (o.interval * 10) (some ⟨0, 0, 0 + o.interval * 10⟩) = none := by
    simp [live, Option.filter]
  have hord : OrderedFrom Timed.time 0
      ([⟨0, wholeBucket o⟩] ++ [⟨o.interval * 10, wholeBucket o⟩]) :=
    ⟨le_rfl, by positivity, trivial⟩
  have hle := unexpired_of_followsUnexpired h _ hord
    (by rw [final_cons, hs]; exact (incr_wholeBucket o _ hgone).1)
  have hfinal : final (unexpiredStep o) [⟨0, wholeBucket o⟩] none = some ⟨0, 0⟩ := by
    rw [final_cons, unexpiredStep, serve_wholeBucket]
    rfl
  rw [hfinal, charged_wholeBucket, seen_some,
    refill_of_intervals (n := 10) (by omega) (by simp only; omega) (by simp only; omega)] at hle
  simp only at hle
  omega

/-- An increment that finds its hash stores what serving it leaves. -/
theorem incr_of_live (now : ℤ) (cost : ℕ) {x : RedisHash} (hlive : now < x.expireAt) {b : Bucket}
    {ok : Bool}
    (hserve : serve o now (charged cost) (some (bucket x)) = (b, ok)) :
    (incrBucketRedis o ⟨now, cost⟩ (some x)).2.isBlocked = !ok ∧
      (incrBucketRedis o ⟨now, cost⟩ (some x)).1 =
        some ⟨b.tokens, b.lastRefill, now + o.interval * 10⟩ := by
  obtain ⟨y, hy, hbucket, hexp, hblocked⟩ := incr_spec o ⟨now, cost⟩ (some x)
  have hl : liveBucket now (some x) = some (bucket x) := by
    simp [liveBucket, live, Option.filter, hlive]
  simp only [hl, hserve] at hbucket hblocked hexp
  refine ⟨hblocked, ?_⟩
  rw [hy, ← hbucket, ← hexp]
  rfl

/-- With a longer interval a bucket made anew restarts its intervals: it is empty when the
other one is refilled, and refilled when the other one has been used. -/
theorem interval_eq_one_of_followsUnexpired (h : FollowsUnexpired o) : o.interval = 1 := by
  by_contra hne
  have hI : 2 ≤ o.interval := by
    have := o.interval_pos
    omega
  have hR := o.tokensPerInterval_pos
  have hS := o.bucketSize_pos
  have hsize := le_of_followsUnexpired h
  set I := o.interval with hIdef
  -- the refill of one interval, and a request for all of it
  set g := min o.bucketSize o.tokensPerInterval with hg
  have hcost : (charged g.toNat : ℤ) = g := by
    simp only [charged]
    omega
  have hone : charged 1 = 1 := rfl
  -- the script: emptied at 0, made anew and emptied at 10 I + 1, refused at 11 I
  obtain ⟨-, hs₁⟩ := incr_wholeBucket o 0 (s := none) rfl
  have hgone : live (10 * I + 1) (some ⟨0, 0, 0 + I * 10⟩) = none := by
    simp [live, Option.filter]
    omega
  obtain ⟨-, hs₂⟩ := incr_wholeBucket o _ hgone
  have hs₃ := (incr_of_live (o := o) (11 * I) 1
    (x := ⟨0, 10 * I + 1, 10 * I + 1 + I * 10⟩) (by simp only; omega)
    (serve_of_lt (r := ⟨0, 10 * I + 1⟩) (refill_of_lt (by simp only [bucket]; omega))
      (by simp [hone]))).2
  have hok := (incr_of_live (o := o) (11 * I + 1) g.toNat
    (x := ⟨0, 10 * I + 1, 11 * I + I * 10⟩) (by simp only; omega)
    (serve_of_le (refill_of_intervals (n := 1) le_rfl (by simp only [bucket]; omega)
      (by simp only [bucket]; omega)) (by rw [hcost]; simp only [bucket]; omega))).1
  -- the other bucket: emptied at 0 and at 10 I + 1, used at 11 I
  have he₁ : unexpiredStep o ⟨0, wholeBucket o⟩ none = (some ⟨0, 0⟩, true) := by
    rw [unexpiredStep, serve_wholeBucket]
  have he₂ : unexpiredStep o ⟨10 * I + 1, wholeBucket o⟩ (some ⟨0, 0⟩) =
      (some ⟨0, 10 * I⟩, true) := by
    rw [unexpiredStep, serve_of_le (refill_of_intervals (n := 10) (by omega) (by simp only; omega)
      (by simp only; omega)) (by rw [charged_wholeBucket]; simp only; omega)]
    simp only [charged_wholeBucket, ← hIdef]
    congr 3 <;> omega
  have he₃ : unexpiredStep o ⟨11 * I, 1⟩ (some ⟨0, 10 * I⟩) = (some ⟨g - 1, 11 * I⟩, true) := by
    rw [unexpiredStep, serve_of_le (refill_of_intervals (n := 1) le_rfl (by simp only; omega)
      (by simp only; omega)) (by rw [hone]; simp only; omega)]
    simp only [hone, ← hIdef]
    congr 3 <;> push_cast <;> omega
  have hle := unexpired_of_followsUnexpired h
    [⟨0, wholeBucket o⟩, ⟨10 * I + 1, wholeBucket o⟩, ⟨11 * I, 1⟩]
    (i := ⟨11 * I + 1, g.toNat⟩) (t := 0)
    ⟨le_rfl, by simp only; omega, by simp only; omega, by simp only; omega, trivial⟩
    (by rw [final_cons, hs₁, final_cons, hs₂, final_cons, hs₃]; exact hok)
  rw [final_cons, he₁, final_cons, he₂, final_cons, he₃, final_nil, hcost, seen_some,
    refill_of_lt (by simp only; omega)] at hle
  simp only at hle
  omega

end RedisBucket

/-! ## Main results -/

/-- **The bound and the lease.**  The increments that the script allows in any `[a, b]` cost
at most the bucket size and one refill for each interval begun, on every run, exactly when
ten refills fill the bucket.  Exactly then an increment is allowed only if the bucket that
the previous one left would allow it without expiry.  A bucket that is never removed, run
beside from the first hit on with its own decisions, allows every allowed increment exactly
when moreover the interval is one millisecond: a bucket made anew restarts its intervals.
SOURCE: src/stores/redis-store.ts:266-312, 1226-1250 -/
theorem redisBucket_bounds_admission_iff (o : TokenBucketOptions) :
    (RedisBucket.WithinAllowance o ↔ o.bucketSize ≤ 10 * o.tokensPerInterval) ∧
    (RedisBucket.FollowsRetained o ↔ o.bucketSize ≤ 10 * o.tokensPerInterval) ∧
    (RedisBucket.FollowsUnexpired o ↔
      o.interval = 1 ∧ o.bucketSize ≤ 10 * o.tokensPerInterval) :=
  ⟨⟨RedisBucket.le_of_withinAllowance, RedisBucket.withinAllowance_of_le⟩,
    ⟨RedisBucket.le_of_followsRetained, RedisBucket.followsRetained_of_le⟩,
    fun h => ⟨RedisBucket.interval_eq_one_of_followsUnexpired h,
      RedisBucket.le_of_followsUnexpired h⟩,
    fun h => RedisBucket.followsUnexpired_of_le h.2 h.1⟩

/-- A bucket of 100 that gains one token a second: emptied at 0, its hash is removed at
10000, and the next hundred tokens are allowed, where 10 have come back and 111 are the
allowance. -/
theorem redisBucket_expires_full :
    let is : List (Timed ℕ) := [⟨0, 100⟩, ⟨10000, 100⟩]
    let rs := outputs (RedisBucket.incrBucketRedis hundredAtMost) is none
    rs.map (·.isBlocked) = [false, false] ∧
      outputs (RedisBucket.unexpiredStep hundredAtMost) is none = [true, false] ∧
      RedisBucket.admittedCost 0 10000 is rs = 200 ∧
      hundredAtMost.bucketSize + ((10000 - 0) / hundredAtMost.interval + 1) *
        hundredAtMost.tokensPerInterval = 111 := by
  decide

end RatelimitFlex
