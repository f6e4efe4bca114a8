import Mathlib.Tactic

/-!
# Token buckets that refill by whole intervals

A bucket holds `tokens` and the time of its last refill.  Refilling it at `now` credits
the whole intervals that passed since, up to the bucket size, and moves `lastRefill` by
exactly those intervals; the rest of the last interval is kept for the next refill.  A
request takes its cost from the refilled bucket or leaves it as it is.

`refill_refill` is path independence: when a bucket is refilled on the way does not
matter.  `Budget` is the potential that bounds what is admitted in a time interval, also
when a bucket may be forgotten and later made anew: this is harmless exactly when the
refilled bucket is full at that moment.
-/

set_option autoImplicit false

namespace RatelimitFlex.Library

/-- The parameters of a bucket, all positive. -/
structure BucketParams where
  tokensPerInterval : ℤ
  interval : ℤ
  bucketSize : ℤ
  tokensPerInterval_pos : 1 ≤ tokensPerInterval
  interval_pos : 1 ≤ interval
  bucketSize_pos : 1 ≤ bucketSize

/-- A bucket between two requests. -/
structure Bucket where
  tokens : ℤ
  lastRefill : ℤ
  deriving DecidableEq

namespace Bucket

variable (p : BucketParams)

/-- The bucket with the whole intervals up to `now` credited. -/
def refill (now : ℤ) (b : Bucket) : Bucket :=
  let intervals := (now - b.lastRefill) / p.interval
  if 0 < intervals then
    { tokens := min p.bucketSize (b.tokens + intervals * p.tokensPerInterval)
      lastRefill := b.lastRefill + intervals * p.interval }
  else b

/-- A full bucket made at `now`. -/
def full (now : ℤ) : Bucket := ⟨p.bucketSize, now⟩

/-- A request for `cost` tokens: the refilled bucket without them, or as it is. -/
def request (now : ℤ) (cost : ℕ) (b : Bucket) : Bucket × Bool :=
  let r := b.refill p now
  if (cost : ℤ) ≤ r.tokens then (⟨r.tokens - cost, r.lastRefill⟩, true) else (r, false)

/-- A request for what is there is served. -/
theorem request_of_le {now : ℤ} {cost : ℕ} {b : Bucket}
    (h : (cost : ℤ) ≤ (b.refill p now).tokens) :
    b.request p now cost =
      (⟨(b.refill p now).tokens - cost, (b.refill p now).lastRefill⟩, true) := by
  simp only [request]
  rw [if_pos h]

/-- One for more is not. -/
theorem request_of_lt {now : ℤ} {cost : ℕ} {b : Bucket}
    (h : (b.refill p now).tokens < cost) : b.request p now cost = (b.refill p now, false) := by
  simp only [request]
  rw [if_neg (by omega)]

/-- A request reads nothing but the refilled bucket. -/
theorem request_congr {now : ℤ} {b b' : Bucket} (h : b.refill p now = b'.refill p now)
    (cost : ℕ) : b.request p now cost = b'.request p now cost := by
  simp only [request]
  rw [h]

/-- Within its bounds and not ahead of the clock. -/
structure Wf (now : ℤ) (b : Bucket) : Prop where
  tokens_nonneg : 0 ≤ b.tokens
  tokens_le : b.tokens ≤ p.bucketSize
  lastRefill_le : b.lastRefill ≤ now

variable {p} {now now' : ℤ} {b : Bucket}

/-- No whole interval has passed: refilling does nothing. -/
theorem refill_of_lt (h : now < b.lastRefill + p.interval) : b.refill p now = b := by
  have hI := p.interval_pos
  have : (now - b.lastRefill) / p.interval ≤ 0 :=
    Int.lt_add_one_iff.mp (Int.ediv_lt_of_lt_mul (by omega) (by linarith))
  simp only [refill]
  rw [if_neg (by omega)]

/-- A whole interval has passed: all whole intervals are credited. -/
theorem refill_of_le (h : b.lastRefill + p.interval ≤ now) :
    b.refill p now =
      ⟨min p.bucketSize
          (b.tokens + (now - b.lastRefill) / p.interval * p.tokensPerInterval),
        b.lastRefill + (now - b.lastRefill) / p.interval * p.interval⟩ := by
  have hI := p.interval_pos
  have : 1 ≤ (now - b.lastRefill) / p.interval :=
    Int.le_ediv_of_mul_le (by omega) (by linarith)
  simp only [refill]
  rw [if_pos (by omega)]

/-- The refill when exactly `n` whole intervals have passed. -/
theorem refill_of_intervals {n : ℤ} (hn : 1 ≤ n) (hle : b.lastRefill + n * p.interval ≤ now)
    (hlt : now < b.lastRefill + (n + 1) * p.interval) :
    b.refill p now =
      ⟨min p.bucketSize (b.tokens + n * p.tokensPerInterval),
        b.lastRefill + n * p.interval⟩ := by
  have hI := p.interval_pos
  have hmul := mul_le_mul_of_nonneg_right hn (show 0 ≤ p.interval by omega)
  have hq : (now - b.lastRefill) / p.interval = n :=
    le_antisymm
      (Int.lt_add_one_iff.mp (Int.ediv_lt_of_lt_mul (by omega) (by omega)))
      (Int.le_ediv_of_mul_le (by omega) (by omega))
  rw [refill_of_le (by omega), hq]

/-- For a bucket that is not over-full and not ahead of the clock, the case distinction
makes no difference. -/
theorem tokens_refill (hb : b.tokens ≤ p.bucketSize) (hl : b.lastRefill ≤ now) :
    (b.refill p now).tokens =
      min p.bucketSize (b.tokens + (now - b.lastRefill) / p.interval * p.tokensPerInterval) := by
  have hI := p.interval_pos
  rcases lt_or_ge now (b.lastRefill + p.interval) with h | h
  · rw [refill_of_lt h, Int.ediv_eq_zero_of_lt (by omega) (by omega)]
    simp [hb]
  · rw [refill_of_le h]

/-- The last refill moves on by whole intervals. -/
theorem lastRefill_refill (hl : b.lastRefill ≤ now) :
    (b.refill p now).lastRefill =
      b.lastRefill + (now - b.lastRefill) / p.interval * p.interval := by
  have hI := p.interval_pos
  rcases lt_or_ge now (b.lastRefill + p.interval) with h | h
  · rw [refill_of_lt h, Int.ediv_eq_zero_of_lt (by omega) (by omega)]
    simp
  · rw [refill_of_le h]

/-- It is never in the future. -/
theorem lastRefill_refill_le (hl : b.lastRefill ≤ now) : (b.refill p now).lastRefill ≤ now := by
  have hI := p.interval_pos
  have := Int.ediv_mul_le (now - b.lastRefill) (b := p.interval) (by omega)
  rw [lastRefill_refill hl]
  omega

/-- After a refill less than an interval is open. -/
theorem lt_lastRefill_refill (p : BucketParams) (now : ℤ) (b : Bucket) :
    now < (b.refill p now).lastRefill + p.interval := by
  have hI := p.interval_pos
  rcases lt_or_ge now (b.lastRefill + p.interval) with h | h
  · rwa [refill_of_lt h]
  · have := Int.lt_ediv_add_one_mul_self (now - b.lastRefill) (show 0 < p.interval by omega)
    rw [refill_of_le h]
    linarith

/-- A refill that credits something moves the last refill by an interval or more. -/
theorem add_interval_le_lastRefill_refill (h : b.lastRefill + p.interval ≤ now) :
    b.lastRefill + p.interval ≤ (b.refill p now).lastRefill := by
  have hI := p.interval_pos
  have hone : 1 ≤ (now - b.lastRefill) / p.interval :=
    Int.le_ediv_of_mul_le (by omega) (by linarith)
  have := mul_le_mul_of_nonneg_right hone (show 0 ≤ p.interval by omega)
  rw [refill_of_le h]
  simp only
  omega

/-- A refill keeps a bucket well formed. -/
theorem Wf.refill (h : b.Wf p now) (hn : now ≤ now') : (b.refill p now').Wf p now' := by
  have hl := h.lastRefill_le.trans hn
  have hI := p.interval_pos
  have hS := p.bucketSize_pos
  have hR := p.tokensPerInterval_pos
  have hk : 0 ≤ (now' - b.lastRefill) / p.interval := Int.ediv_nonneg (by omega) (by omega)
  have hadd : 0 ≤ (now' - b.lastRefill) / p.interval * p.tokensPerInterval :=
    mul_nonneg hk (by omega)
  have htok := tokens_refill (p := p) h.tokens_le hl
  refine ⟨?_, ?_, lastRefill_refill_le hl⟩
  · have := h.tokens_nonneg
    omega
  · omega

/-- A full bucket is well formed. -/
theorem wf_full (p : BucketParams) (now : ℤ) : (full p now).Wf p now :=
  ⟨by have := p.bucketSize_pos; simp only [full]; omega, le_rfl, le_rfl⟩

/-- A well-formed bucket stays so as time passes. -/
theorem Wf.mono (h : b.Wf p now) (hn : now ≤ now') : b.Wf p now' :=
  ⟨h.tokens_nonneg, h.tokens_le, h.lastRefill_le.trans hn⟩

/-- A request keeps it so. -/
theorem Wf.request (h : b.Wf p now) (hn : now ≤ now') (cost : ℕ) :
    (b.request p now' cost).1.Wf p now' := by
  have hr := h.refill hn
  simp only [Bucket.request]
  split
  · exact ⟨by simpa using ‹_›, by have := hr.tokens_le; simp only; omega, hr.lastRefill_le⟩
  · exact hr

/-- Path independence: a refill on the way changes nothing. -/
theorem refill_refill (p : BucketParams) (hn : now ≤ now') (b : Bucket) :
    (b.refill p now).refill p now' = b.refill p now' := by
  have hI := p.interval_pos
  have hR := p.tokensPerInterval_pos
  rcases lt_or_ge now (b.lastRefill + p.interval) with h | h
  · rw [refill_of_lt h]
  · -- `n` intervals are credited by `now`, and `k` in all by `now'`
    rw [refill_of_le h, refill_of_le (h.trans hn)]
    set n := (now - b.lastRefill) / p.interval with hnn
    set k := (now' - b.lastRefill) / p.interval with hk
    have hshift : (now' - (b.lastRefill + n * p.interval)) / p.interval = k - n := by
      rw [hk, show now' - (b.lastRefill + n * p.interval) =
        now' - b.lastRefill + (-n) * p.interval by ring,
        Int.add_mul_ediv_right _ _ (by omega)]
      ring
    have hle : n ≤ k := Int.ediv_le_ediv (by omega) (by omega)
    rcases eq_or_lt_of_le hle with heq | hlt
    · have : now' < (⟨min p.bucketSize (b.tokens + n * p.tokensPerInterval),
          b.lastRefill + n * p.interval⟩ : Bucket).lastRefill + p.interval := by
        have := Int.lt_ediv_add_one_mul_self (now' - b.lastRefill)
          (show 0 < p.interval by omega)
        rw [← hk, ← heq] at this
        simp only
        linarith
      rw [refill_of_lt this, heq]
    · simp only [refill, hshift]
      rw [if_pos (by omega)]
      have hgain : 0 ≤ (k - n) * p.tokensPerInterval := mul_nonneg (by omega) (by omega)
      have hsum : k * p.tokensPerInterval =
          n * p.tokensPerInterval + (k - n) * p.tokensPerInterval := by ring
      congr 1
      · rw [hsum]
        omega
      · ring

/-- A refill never fills more than the bucket. -/
theorem tokens_refill_le (hb : b.tokens ≤ p.bucketSize) : (b.refill p now).tokens ≤ p.bucketSize := by
  simp only [refill]
  split
  · exact min_le_left _ _
  · exact hb

/-- A bucket that is refilled no further between `t` and `u` is open all along: no moment in
between refills it. -/
theorem refill_between {t u : ℤ} (h : b.refill p u = b.refill p t) (ht : t ≤ now)
    (hu : now ≤ u) :
    b.refill p now = b.refill p t ∧ u < (b.refill p t).lastRefill + p.interval := by
  have hopen : u < (b.refill p t).lastRefill + p.interval :=
    h ▸ lt_lastRefill_refill p u b
  refine ⟨?_, hopen⟩
  rw [← refill_refill p ht b]
  exact refill_of_lt (hu.trans_lt hopen)

/-- Refilling later gives at least as many tokens. -/
theorem tokens_refill_mono (hb : b.tokens ≤ p.bucketSize) (hl : b.lastRefill ≤ now)
    (hn : now ≤ now') : (b.refill p now).tokens ≤ (b.refill p now').tokens := by
  have hI := p.interval_pos
  have hR := p.tokensPerInterval_pos
  rw [tokens_refill hb hl, tokens_refill hb (hl.trans hn)]
  have hq : (now - b.lastRefill) / p.interval ≤ (now' - b.lastRefill) / p.interval :=
    Int.ediv_le_ediv (by omega) (by omega)
  have := mul_le_mul_of_nonneg_right hq (show 0 ≤ p.tokensPerInterval by omega)
  omega

/-! ## The admission potential -/

/-- How many refills can lie in `(a, last]` when one of them is at `last`. -/
def ticks (p : BucketParams) (a last : ℤ) : ℤ :=
  if last ≤ a then 0 else (last - a - 1) / p.interval + 1

/-- There are no fewer than no ticks. -/
theorem ticks_nonneg (p : BucketParams) (a last : ℤ) : 0 ≤ ticks p a last := by
  have hI := p.interval_pos
  unfold ticks
  split
  · exact le_rfl
  · have : 0 ≤ (last - a - 1) / p.interval := Int.ediv_nonneg (by omega) (by omega)
    omega

/-- There are more of them up to a later refill. -/
theorem ticks_mono (p : BucketParams) (a : ℤ) {l l' : ℤ} (h : l ≤ l') :
    ticks p a l ≤ ticks p a l' := by
  have hI := p.interval_pos
  by_cases hl : l ≤ a
  · rw [ticks, if_pos hl]
    exact ticks_nonneg p a l'
  · rw [ticks, if_neg hl, ticks, if_neg (by omega)]
    have : (l - a - 1) / p.interval ≤ (l' - a - 1) / p.interval :=
      Int.ediv_le_ediv (by omega) (by omega)
    omega

/-- `n` more intervals are `n` more refills, the first of which is after `a`. -/
theorem ticks_add (p : BucketParams) {a l n : ℤ} (ha : a < l + p.interval) (hn : 0 < n) :
    ticks p a l + n ≤ ticks p a (l + n * p.interval) := by
  have hI := p.interval_pos
  have hpos : (n - 1) * p.interval ≥ 0 := mul_nonneg (by omega) (by omega)
  have hlast : ¬ l + n * p.interval ≤ a := by linarith
  rw [ticks, ticks, if_neg hlast]
  by_cases hl : l ≤ a
  · rw [if_pos hl]
    have : n - 1 ≤ (l + n * p.interval - a - 1) / p.interval :=
      Int.le_ediv_of_mul_le (by omega) (by linarith)
    omega
  · rw [if_neg hl, show l + n * p.interval - a - 1 = l - a - 1 + n * p.interval by ring,
      Int.add_mul_ediv_right _ _ (by omega)]
    omega

/-- An interval has as many ticks as it has whole intervals, and one. -/
theorem ticks_le (p : BucketParams) {a c last : ℤ} (hac : a ≤ c) (h : last ≤ c) :
    ticks p a last ≤ (c - a) / p.interval + 1 := by
  have hI := p.interval_pos
  have hc : 0 ≤ (c - a) / p.interval := Int.ediv_nonneg (by omega) (by omega)
  unfold ticks
  split
  · omega
  · have : (last - a - 1) / p.interval ≤ (c - a) / p.interval :=
      Int.ediv_le_ediv (by omega) (by omega)
    omega

/-- What may be admitted in `[a, c]`. -/
def allowance (p : BucketParams) (a c : ℤ) : ℤ :=
  p.bucketSize + ((c - a) / p.interval + 1) * p.tokensPerInterval

/-- `spent` was admitted since `a`: it is paid for by the bucket, which holds that many
tokens less than a full one and the refills after `a`.  A key without a bucket has spent
the refills at most. -/
def Paid (p : BucketParams) (a now spent : ℤ) : Option Bucket → Prop
  | none => spent ≤ ticks p a now * p.tokensPerInterval
  | some b => a < b.lastRefill + p.interval ∧
      spent + b.tokens ≤ p.bucketSize + ticks p a b.lastRefill * p.tokensPerInterval

/-- Of the requests up to `now`, those admitted in `[a, c]` cost `spent` together, and
the state `e` accounts for it. -/
structure Budget (p : BucketParams) (a c now spent : ℤ) (e : Option Bucket) : Prop where
  wf : ∀ b ∈ e, b.Wf p now
  le_allowance : spent ≤ allowance p a c
  paid : now ≤ c → spent = 0 ∨ (a ≤ now ∧ Paid p a now spent e)

section Budget

variable {a c spent : ℤ} {e : Option Bucket}

/-- Something is always allowed. -/
theorem allowance_nonneg (hac : a ≤ c) : 0 ≤ allowance p a c := by
  have hR := p.tokensPerInterval_pos
  have hS := p.bucketSize_pos
  have hI := p.interval_pos
  have hq : 0 ≤ (c - a) / p.interval := Int.ediv_nonneg (by omega) (by omega)
  have : 0 ≤ ((c - a) / p.interval + 1) * p.tokensPerInterval :=
    mul_nonneg (by omega) (by omega)
  unfold allowance
  omega

/-- Nothing is spent at first. -/
theorem budget_none (hac : a ≤ c) (now : ℤ) : Budget p a c now 0 none :=
  ⟨by simp, allowance_nonneg hac, fun _ => Or.inl rfl⟩

/-- Time passes. -/
theorem Budget.mono (h : Budget p a c now spent e) (hn : now ≤ now') :
    Budget p a c now' spent e := by
  refine ⟨fun b hb => (h.wf b hb).mono hn, h.le_allowance, fun hc => ?_⟩
  rcases h.paid (hn.trans hc) with h0 | ⟨ha, hp⟩
  · exact Or.inl h0
  · refine Or.inr ⟨ha.trans hn, ?_⟩
    cases e with
    | none =>
      have hR := p.tokensPerInterval_pos
      exact le_trans hp (mul_le_mul_of_nonneg_right (ticks_mono p a hn) (by omega))
    | some b => exact hp

/-- A refill pays for itself. -/
theorem paid_refill (h : Paid p a now spent (some b)) :
    Paid p a now spent (some (b.refill p now')) := by
  have hI := p.interval_pos
  have hR := p.tokensPerInterval_pos
  obtain ⟨ha, hs⟩ := h
  rcases lt_or_ge now' (b.lastRefill + p.interval) with hlt | hge
  · rw [refill_of_lt hlt]
    exact ⟨ha, hs⟩
  · rw [refill_of_le hge]
    set n := (now' - b.lastRefill) / p.interval
    have hn : 1 ≤ n := Int.le_ediv_of_mul_le (by omega) (by linarith)
    have hpos : 0 ≤ n * p.interval := mul_nonneg (by omega) (by omega)
    refine ⟨by simp only; omega, ?_⟩
    have htick := mul_le_mul_of_nonneg_right (ticks_add p ha (by omega : 0 < n))
      (show 0 ≤ p.tokensPerInterval by omega)
    rw [add_mul] at htick
    have hmin : min p.bucketSize (b.tokens + n * p.tokensPerInterval) ≤
      b.tokens + n * p.tokensPerInterval := min_le_right _ _
    simp only
    omega

/-- A refill spends nothing of the budget. -/
theorem Budget.refill (h : Budget p a c now spent (some b)) (hn : now ≤ now') :
    Budget p a c now' spent (some (b.refill p now')) := by
  refine ⟨?_, h.le_allowance, fun hc => ?_⟩
  · rintro _ ⟨⟩
    exact (h.wf b rfl).refill hn
  · rcases h.paid (hn.trans hc) with h0 | ⟨ha, hp⟩
    · exact Or.inl h0
    · exact Or.inr ⟨ha.trans hn, paid_refill hp⟩

/-- A missing bucket is made full. -/
theorem Budget.create (h : Budget p a c now spent none) (hn : now ≤ now') :
    Budget p a c now' spent (some (full p now')) := by
  have h' := h.mono hn
  have hI := p.interval_pos
  refine ⟨?_, h.le_allowance, fun hc => ?_⟩
  · rintro _ ⟨⟩
    exact wf_full p now'
  · rcases h'.paid hc with h0 | ⟨ha, hp⟩
    · exact Or.inl h0
    · refine Or.inr ⟨ha, ?_⟩
      have hp : spent ≤ ticks p a now' * p.tokensPerInterval := hp
      refine ⟨?_, ?_⟩ <;> simp only [full] <;> omega

/-- A bucket may be forgotten when its refill makes it full. -/
theorem Budget.drop (h : Budget p a c now spent (some b)) (hn : now ≤ now')
    (hfull : p.bucketSize ≤ (b.refill p now').tokens) : Budget p a c now' spent none := by
  have hr := h.refill hn
  have hR := p.tokensPerInterval_pos
  refine ⟨by simp, h.le_allowance, fun hc => ?_⟩
  rcases hr.paid hc with h0 | ⟨ha, -, hp⟩
  · exact Or.inl h0
  · refine Or.inr ⟨ha, ?_⟩
    have hl := (hr.wf _ rfl).lastRefill_le
    calc spent ≤ ticks p a (b.refill p now').lastRefill * p.tokensPerInterval := by omega
      _ ≤ ticks p a now' * p.tokensPerInterval :=
        mul_le_mul_of_nonneg_right (ticks_mono p a hl) (by omega)

/-- What a request at `now` adds to the cost admitted in `[a, c]`. -/
def spend (a c now : ℤ) (cost : ℕ) (ok : Bool) : ℤ :=
  if ok = true ∧ a ≤ now ∧ now ≤ c then cost else 0

/-- A request takes from the bucket what it spends. -/
theorem Budget.request (h : Budget p a c now spent (some b)) (hac : a ≤ c) (hn : now ≤ now')
    (cost : ℕ) :
    Budget p a c now' (spent + spend a c now' cost (b.request p now' cost).2)
      (some (b.request p now' cost).1) := by
  have hr := h.refill hn
  have hwf := hr.wf _ rfl
  have hR := p.tokensPerInterval_pos
  have hwf' := (h.wf b rfl).request hn cost
  simp only [Bucket.request] at hwf' ⊢
  split at hwf' <;> rename_i hcost
  · rw [if_pos hcost]
    by_cases hin : a ≤ now' ∧ now' ≤ c
    · -- the cost moves from the tokens to what is spent
      have hlast := lt_lastRefill_refill p now' b
      have hpaid : Paid p a now' (spent + cost)
          (some ⟨(b.refill p now').tokens - cost, (b.refill p now').lastRefill⟩) := by
        rcases hr.paid hin.2 with h0 | ⟨-, -, hs⟩
        · refine ⟨by simp only; omega, ?_⟩
          have := mul_nonneg (ticks_nonneg p a (b.refill p now').lastRefill)
            (show 0 ≤ p.tokensPerInterval by omega)
          have := hwf.tokens_le
          simp only
          omega
        · exact ⟨by simp only; omega, by simp only; omega⟩
      have hsp : spend a c now' cost true = cost := by simp [spend, hin]
      rw [hsp]
      refine ⟨?_, ?_, fun _ => Or.inr ⟨hin.1, hpaid⟩⟩
      · rintro _ ⟨⟩
        exact hwf'
      · have htick := mul_le_mul_of_nonneg_right
          (ticks_le p hac (hwf.lastRefill_le.trans hin.2))
          (show 0 ≤ p.tokensPerInterval by omega)
        have hs := hpaid.2
        simp only at hs
        unfold allowance
        omega
    · have hsp : spend a c now' cost true = 0 := by
        unfold spend
        rw [if_neg (by tauto)]
      rw [hsp, add_zero]
      refine ⟨?_, h.le_allowance, fun hc => ?_⟩
      · rintro _ ⟨⟩
        exact hwf'
      · rcases hr.paid hc with h0 | ⟨ha, -⟩
        · exact Or.inl h0
        · exact absurd ⟨ha, hc⟩ hin
  · rw [if_neg hcost]
    have hsp : spend a c now' cost false = 0 := by simp [spend]
    rw [hsp, add_zero]
    exact hr

end Budget

end Bucket

end RatelimitFlex.Library
