import RatelimitFlex.Library.TimedRun
import RatelimitFlex.Library.TokenBucket

/-!
# Token buckets that expire

A store may forget a bucket; the next request then starts from a full one.  `seen` is what
a request finds, in a bucket or in its absence, and `serve` what it does.  Forgetting a
bucket is harmless exactly when its refill is full at that moment, for then it stays full
(`bucketSize_le_seen_iff`).
-/

set_option autoImplicit false

namespace RatelimitFlex.Library

namespace Bucket

variable (p : BucketParams)

/-- The bucket a request at `now` starts from: a missing one is made full. -/
def orFull (now : ℤ) (e : Option Bucket) : Bucket := e.getD (full p now)

/-- The tokens a request at `now` finds. -/
def seen (now : ℤ) (e : Option Bucket) : ℤ := ((orFull p now e).refill p now).tokens

/-- A request at `now` for `cost` tokens. -/
def serve (now : ℤ) (cost : ℕ) (e : Option Bucket) : Bucket × Bool :=
  (orFull p now e).request p now cost

/-- A full bucket made now needs no refill. -/
@[simp] theorem refill_full (now : ℤ) : (full p now).refill p now = full p now :=
  refill_of_lt (by have := p.interval_pos; simp only [full]; omega)

/-- A missing bucket is seen as full. -/
@[simp] theorem seen_none (now : ℤ) : seen p now none = p.bucketSize := by
  simp only [seen, orFull, Option.getD_none, refill_full]
  rfl

/-- A bucket is seen with its refill. -/
@[simp] theorem seen_some (now : ℤ) (b : Bucket) : seen p now (some b) = (b.refill p now).tokens :=
  rfl

/-- A request is served exactly when its cost is there. -/
theorem serve_snd (now : ℤ) (cost : ℕ) (e : Option Bucket) :
    (serve p now cost e).2 = decide ((cost : ℤ) ≤ seen p now e) := by
  rcases le_or_gt (cost : ℤ) (seen p now e) with h | h
  · rw [serve, request_of_le p h]
    simp [h]
  · rw [serve, request_of_lt p h]
    simp [h]

variable {p} {now now' : ℤ} {b : Bucket} {e : Option Bucket}

/-- A request for what is there is served. -/
theorem serve_of_le {r : Bucket} {cost : ℕ} (hr : b.refill p now = r)
    (h : (cost : ℤ) ≤ r.tokens) :
    serve p now cost (some b) = (⟨r.tokens - cost, r.lastRefill⟩, true) := by
  subst hr
  exact request_of_le p h

/-- One for more is not. -/
theorem serve_of_lt {r : Bucket} {cost : ℕ} (hr : b.refill p now = r) (h : r.tokens < cost) :
    serve p now cost (some b) = (r, false) := by
  subst hr
  exact request_of_lt p h

/-- A request for a whole bucket is served where there is none, and leaves it empty. -/
theorem serve_whole {cost : ℕ} (h : (cost : ℤ) = p.bucketSize) :
    serve p now cost none = (⟨0, now⟩, true) := by
  rw [serve, orFull, Option.getD_none, request_of_le p (by rw [refill_full, h]; exact le_rfl),
    refill_full, h]
  simp [full]

/-- The bucket or a full one is well formed. -/
theorem wf_orFull (h : ∀ b ∈ e, b.Wf p now) : (orFull p now e).Wf p now := by
  cases e with
  | none => exact wf_full p now
  | some b => exact h b rfl

/-- So is what serving it leaves. -/
theorem wf_serve (h : ∀ b ∈ e, b.Wf p now) (cost : ℕ) : (serve p now cost e).1.Wf p now :=
  (wf_orFull h).request le_rfl cost

/-- After `n` whole intervals a bucket holds what they bring, up to its size. -/
theorem min_le_seen (h : b.Wf p now) {n : ℤ} (hn : b.lastRefill + n * p.interval ≤ now) :
    min p.bucketSize (b.tokens + n * p.tokensPerInterval) ≤ seen p now (some b) := by
  have hI := p.interval_pos
  have hR := p.tokensPerInterval_pos
  have hq : n ≤ (now - b.lastRefill) / p.interval := Int.le_ediv_of_mul_le (by omega) (by omega)
  have := mul_le_mul_of_nonneg_right hq (show 0 ≤ p.tokensPerInterval by omega)
  rw [seen_some, tokens_refill h.tokens_le h.lastRefill_le]
  omega

/-- **When forgetting is harmless.**  A request to a full bucket made in its place never
finds more than the bucket would have held exactly when the bucket is full by its refill
at the moment it is forgotten. -/
theorem bucketSize_le_seen_iff (h : b.Wf p now) :
    (∀ now', now ≤ now' → p.bucketSize ≤ seen p now' (some b)) ↔
      p.bucketSize ≤ seen p now (some b) := by
  constructor
  · intro hall
    exact hall now le_rfl
  · intro hfull now' hn
    exact hfull.trans (tokens_refill_mono h.tokens_le h.lastRefill_le hn)

/-- A full bucket refilled at its last instant is a new one. -/
theorem refill_eq_full (hfull : p.bucketSize ≤ seen p now (some b)) (h : b.Wf p now)
    (hI : p.interval = 1) : b.refill p now = full p now := by
  have hr := h.refill le_rfl
  have hlt := lt_lastRefill_refill p now b
  have hlast : (b.refill p now).lastRefill = now := by
    have := hr.lastRefill_le
    omega
  have htok : (b.refill p now).tokens = p.bucketSize := le_antisymm hr.tokens_le hfull
  calc b.refill p now = ⟨(b.refill p now).tokens, (b.refill p now).lastRefill⟩ := rfl
    _ = full p now := by rw [htok, hlast, full]

/-! ## What a bucket gives whatever the clock does -/

/-- A bucket that started with `tokens` at `start` has given `spent`: what it gave and holds
is what it started with and the refills up to its last one, none of which is after `M`. -/
def Drawn (p : BucketParams) (M tokens start spent : ℤ) (b : Bucket) : Prop :=
  0 ≤ b.tokens ∧ ∃ k, 0 ≤ k ∧ (0 < k → start + k * p.interval ≤ M) ∧
    b.lastRefill = start + k * p.interval ∧ spent + b.tokens ≤ tokens + k * p.tokensPerInterval

/-- At the start nothing is drawn. -/
theorem drawn_start (tokens start M : ℤ) (h : 0 ≤ tokens) :
    Drawn p M tokens start 0 ⟨tokens, start⟩ :=
  ⟨h, 0, le_rfl, fun h => absurd h (lt_irrefl 0), by simp, by simp⟩

/-- A refill draws nothing. -/
theorem Drawn.refill {M tokens start spent : ℤ} (h : Drawn p M tokens start spent b)
    (hM : now ≤ M) : Drawn p M tokens start spent (b.refill p now) := by
  have hI := p.interval_pos
  have hR := p.tokensPerInterval_pos
  have hS := p.bucketSize_pos
  rcases lt_or_ge now (b.lastRefill + p.interval) with hlt | hge
  · rwa [refill_of_lt hlt]
  · obtain ⟨hnn, k, hk, -, hlast, hsum⟩ := h
    rw [refill_of_le hge]
    set n := (now - b.lastRefill) / p.interval with hn
    have hn1 : 1 ≤ n := Int.le_ediv_of_mul_le (by omega) (by linarith)
    have hmul := Int.ediv_mul_le (now - b.lastRefill) (b := p.interval) (by omega)
    rw [← hn] at hmul
    have hgain : 0 ≤ n * p.tokensPerInterval := mul_nonneg (by omega) (by omega)
    refine ⟨by simp only; omega, k + n, by omega, fun _ => ?_, ?_, ?_⟩
    · rw [add_mul]
      omega
    · rw [add_mul]
      simp only
      omega
    · rw [add_mul]
      have := min_le_right p.bucketSize (b.tokens + n * p.tokensPerInterval)
      simp only
      omega

/-- A request draws its cost when it is served. -/
theorem Drawn.request {M tokens start spent : ℤ} (h : Drawn p M tokens start spent b)
    (hM : now ≤ M) (cost : ℕ) :
    Drawn p M tokens start (spent + if (b.request p now cost).2 then (cost : ℤ) else 0)
      (b.request p now cost).1 := by
  have hr := h.refill hM
  rcases le_or_gt (cost : ℤ) (b.refill p now).tokens with hc | hc
  · obtain ⟨hnn, k, hk, hkM, hlast, hsum⟩ := hr
    rw [request_of_le p hc]
    exact ⟨by simp only; omega, k, hk, hkM, hlast, by simp only [if_true]; omega⟩
  · rw [request_of_lt p hc]
    simpa using hr

/-- Drawn is no more than the start and the refills. -/
theorem Drawn.spent_le {M tokens start spent : ℤ} (h : Drawn p M tokens start spent b) :
    spent ≤ tokens + max 0 ((M - start) / p.interval) * p.tokensPerInterval := by
  have hI := p.interval_pos
  have hR := p.tokensPerInterval_pos
  obtain ⟨hnn, k, hk, hkM, -, hsum⟩ := h
  have hle : k ≤ max 0 ((M - start) / p.interval) := by
    rcases hk.eq_or_lt with rfl | hpos
    · exact le_max_left _ _
    · have := hkM hpos
      exact le_max_of_le_right (Int.le_ediv_of_mul_le (by omega) (by omega))
  have := mul_le_mul_of_nonneg_right hle (show 0 ≤ p.tokensPerInterval by omega)
  omega

/-! ## Requests one after the other -/

/-- One request, to what the earlier ones have left. -/
def serveStep (p : BucketParams) (q : ℤ × ℕ) (e : Option Bucket) : Option Bucket × Bool :=
  let r := serve p q.1 q.2 e
  (some r.1, r.2)

/-- The cost of the requests that were served. -/
def servedCost : List (ℤ × ℕ) → List Bool → ℤ
  | q :: qs, ok :: oks => (if ok then (q.2 : ℤ) else 0) + servedCost qs oks
  | _, _ => 0

/-- The tokens there are for requests at clock readings from `m` to `M`: those of the
bucket, or of a full one, and a refill for every whole interval. -/
def available (p : BucketParams) (m M : ℤ) : Option Bucket → ℤ
  | none => p.bucketSize + max 0 ((M - m) / p.interval) * p.tokensPerInterval
  | some b => b.tokens + max 0 ((M - b.lastRefill) / p.interval) * p.tokensPerInterval

/-- Requests draw on the bucket they find, whatever their clocks do. -/
theorem Drawn.servedCost_le {M tokens start spent : ℤ} {qs : List (ℤ × ℕ)}
    (h : Drawn p M tokens start spent b) (hM : ∀ q ∈ qs, q.1 ≤ M) :
    spent + servedCost qs (outputs (serveStep p) qs (some b)) ≤
      tokens + max 0 ((M - start) / p.interval) * p.tokensPerInterval := by
  induction qs generalizing spent b with
  | nil => simpa [servedCost] using h.spent_le
  | cons q qs ih =>
    have hreq := h.request (hM q List.mem_cons_self) q.2
    have hrest := ih hreq fun q' hq' => hM q' (List.mem_cons_of_mem q hq')
    rw [outputs_cons, servedCost, ← add_assoc]
    exact hrest

/-- **What requests are given.**  Requests one after the other, at clock readings between
`m` and `M` in any order, are given no more than the tokens there are. -/
theorem servedCost_le {m M : ℤ} {qs : List (ℤ × ℕ)} (hqs : ∀ q ∈ qs, m ≤ q.1 ∧ q.1 ≤ M)
    (htok : ∀ b ∈ e, 0 ≤ b.tokens) :
    servedCost qs (outputs (serveStep p) qs e) ≤ available p m M e := by
  have hI := p.interval_pos
  have hS := p.bucketSize_pos
  have hR := p.tokensPerInterval_pos
  cases e with
  | some b =>
    have := (drawn_start (p := p) b.tokens b.lastRefill M (htok b rfl)).servedCost_le
      fun q hq => (hqs q hq).2
    simpa [available] using this
  | none =>
    cases qs with
    | nil =>
      have : 0 ≤ max 0 ((M - m) / p.interval) * p.tokensPerInterval :=
        mul_nonneg (le_max_left _ _) (by omega)
      simp only [servedCost, available]
      omega
    | cons q qs =>
      obtain ⟨hm, hM⟩ := hqs q List.mem_cons_self
      have hreq := (drawn_start (p := p) p.bucketSize q.1 M (by omega)).request hM q.2
      have hrun := hreq.servedCost_le fun q' hq' => (hqs q' (List.mem_cons_of_mem q hq')).2
      have hq : max 0 ((M - q.1) / p.interval) ≤ max 0 ((M - m) / p.interval) :=
        max_le_max le_rfl (Int.ediv_le_ediv (by omega) (by omega))
      have := mul_le_mul_of_nonneg_right hq (show 0 ≤ p.tokensPerInterval by omega)
      rw [outputs_cons, servedCost, available]
      rw [zero_add] at hrun
      exact hrun.trans (by omega)

/-! ## The budget of a bucket that may be forgotten -/

section Budget

variable {a c spent : ℤ}

/-- A request keeps the budget, whether the bucket is there or not. -/
theorem Budget.serve (h : Budget p a c now spent e) (hac : a ≤ c) (hn : now ≤ now') (cost : ℕ) :
    Budget p a c now' (spent + spend a c now' cost (Bucket.serve p now' cost e).2)
      (some (Bucket.serve p now' cost e).1) := by
  cases e with
  | none => exact (h.create hn).request hac le_rfl cost
  | some b => exact h.request hac hn cost

end Budget

end Bucket

end RatelimitFlex.Library
