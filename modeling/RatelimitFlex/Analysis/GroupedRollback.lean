import RatelimitFlex.Analysis.ProbeRollback
import RatelimitFlex.Program.MemoryEngine
import RatelimitFlex.Program.MemorySlots

/-!
# When a grouped consume that fails leaves no trace

The slots before the one that blocks or throws are undone by a plain decrement, which takes
the oldest stamps of a sliding window.  Later increments and reads see an undone slot
through the cell of the key alone; `Cell.ErasesProbe` says when it answers them as before.
-/

set_option autoImplicit false

namespace RatelimitFlex

open Library

/-! ## Cells that increments and reads cannot tell apart -/

namespace Cell

/-- From `t` on every increment and every read answers the same. -/
def AnswersAlike (t : ℤ) (x y : Cell) : Prop :=
  ∀ now, t ≤ now →
    (∀ options : RateLimitIncrementOptions,
      (x.clearWall now).increment now options = (y.clearWall now).increment now options) ∧
    (x.clearWall now).snapshot now = (y.clearWall now).snapshot now

/-- A cell answers like itself. -/
theorem AnswersAlike.refl (t : ℤ) (x : Cell) : AnswersAlike t x x :=
  fun _ _ => ⟨fun _ => rfl, rfl⟩

/-- Cells that answer alike do so later. -/
theorem AnswersAlike.mono {t t' : ℤ} {x y : Cell} (h : AnswersAlike t x y) (ht : t ≤ t') :
    AnswersAlike t' x y := fun now hnow => h now (ht.trans hnow)

/-- Clearing a wall expiry once is enough. -/
theorem clearWall_clearWall {t now : ℤ} (h : t ≤ now) (x : Cell) :
    (x.clearWall t).clearWall now = x.clearWall now := by
  cases x with
  | sliding o e =>
    cases e with
    | none => rfl
    | some s =>
      obtain ⟨stamps, wall⟩ := s
      cases wall with
      | none => rfl
      | some w =>
        simp only [clearWall, unexpired, Option.filter_filter, sliding.injEq, true_and]
        congr 1
        funext s
        cases s.wallExpiresAt with
        | none => rfl
        | some w =>
          simp only [← Bool.decide_and, decide_eq_decide]
          omega
  | fixed o e => rfl
  | bucket o e => rfl

/-- Cells that answer alike do so without their wall expiries. -/
theorem AnswersAlike.clearWall {t : ℤ} {x y : Cell} (h : AnswersAlike t x y) :
    AnswersAlike t (x.clearWall t) (y.clearWall t) := by
  intro now hnow
  rw [clearWall_clearWall hnow, clearWall_clearWall hnow]
  exact h now hnow

/-- Sliding windows are read through the stamps that count. -/
theorem answersAlike_sliding {t : ℤ} {o : WindowOptions} {e e' : Option SlidingKeyState}
    (h : ∀ now, t ≤ now → heldStamps o now e = heldStamps o now e') :
    AnswersAlike t (.sliding o e) (.sliding o e') := by
  intro now hnow
  have heq : liveStamps o now (stampsOf (unexpired now e)) =
      liveStamps o now (stampsOf (unexpired now e')) := h now hnow
  refine ⟨fun options => ?_, ?_⟩
  · simp only [Cell.clearWall, Cell.increment, heq]
  · simp only [Cell.clearWall, Cell.snapshot, heq]

end Cell

/-! ## The undone slot -/

/-- A probe that is undone from the front cannot be noticed.  Sliding window: nothing
counts, or only stamps of this moment that die before the wall expiry.  Fixed window: the
running slice has hits.  Token bucket: the key has one, and no interval is credited to it
or it is not full. -/
def Cell.ErasesProbe (now : ℤ) : Cell → Prop
  | .sliding o e => ∀ ts ∈ heldStamps o now e, ts = now ∧
      ∀ s ∈ e, ∀ w ∈ s.wallExpiresAt, now + o.windowMs ≤ w
  | .fixed _ e => ∀ s ∈ e, now < s.resetTime → 0 < s.count
  | .bucket o e => ∃ b ∈ e, now < b.lastRefill + o.interval ∨
      (b.refill o now).tokens < o.bucketSize

section Undone

variable {now : ℤ} {inc : RateLimitIncrementOptions} {dec : RateLimitDecrementOptions}

/-- An erased probe of a sliding window is not noticed. -/
theorem answersAlike_probed_sliding (hcost : dec.sanitizedCost = inc.sanitizedCost)
    (holdest : dec.removeNewest = false) {o : WindowOptions} {e : Option SlidingKeyState}
    (h : (Cell.sliding o e).ErasesProbe now) :
    Cell.AnswersAlike now ((Cell.sliding o e).probed now inc dec) (.sliding o e) := by
  rw [probed_sliding_oldest hcost holdest]
  apply Cell.answersAlike_sliding
  intro t ht
  cases e with
  | none => rfl
  | some s =>
    rw [heldStamps_later ht s]
    by_cases hnil : heldStamps o now (some s) = []
    · rw [if_pos hnil, hnil]
      simp [liveStamps]
    · have hrep := List.eq_replicate_of_mem fun ts hts => (h ts hts).1
      have hdrop : (heldStamps o now (some s) ++
          List.replicate inc.sanitizedCost now).drop inc.sanitizedCost =
            heldStamps o now (some s) := by
        rw [hrep, List.replicate_append_replicate, List.drop_replicate, Nat.add_sub_cancel]
      rw [if_neg hnil, hdrop, heldStamps_some]
      by_cases hw : s.wallPassed t = true
      · -- the wall expiry comes after the last stamp has died
        obtain ⟨ts, hts⟩ := List.exists_mem_of_ne_nil _ hnil
        have hdead : liveStamps o t (heldStamps o now (some s)) = [] := by
          apply List.filter_eq_nil_iff.mpr
          intro x hx
          obtain ⟨w, hwall, hle⟩ : ∃ w, s.wallExpiresAt = some w ∧ w ≤ t := by
            simpa [SlidingKeyState.wallPassed, Option.any_eq_true] using hw
          have := (h x hx).2 s rfl w hwall
          rw [(h x hx).1]
          simp only [decide_eq_true_eq]
          omega
        rw [if_pos hw, hdead]
        simp [SlidingKeyState.wallPassed]
      · rw [if_neg hw]
        simp [SlidingKeyState.wallPassed]

/-- In a cell that erases it, an undone probe makes no difference. -/
theorem answersAlike_probed {x : Cell} (hcost : dec.sanitizedCost = inc.sanitizedCost)
    (holdest : dec.removeNewest = false) (hlegal : x.Legal now)
    (hallowed : ((x.clearWall now).increment now inc).2.isBlocked = false)
    (h : x.ErasesProbe now) : Cell.AnswersAlike now (x.probed now inc dec) x := by
  cases x with
  | sliding o e => exact answersAlike_probed_sliding hcost holdest h
  | fixed o e =>
    rw [probed_fixed hcost hlegal]
    cases e with
    | none => exact Cell.AnswersAlike.refl now _
    | some s =>
      by_cases hrun : now < s.resetTime
      · have : (some s).filter (fun s => decide (now < s.resetTime ∧ 0 < s.count)) = some s := by
          simp [Option.filter, hrun, h s rfl hrun]
        rw [this]
        exact Cell.AnswersAlike.refl now _
      · have : (some s).filter (fun s => decide (now < s.resetTime ∧ 0 < s.count)) = none := by
          simp [Option.filter, hrun]
        rw [this]
        intro t ht
        have hexp : s.resetTime ≤ t := by omega
        refine ⟨fun options => ?_, ?_⟩
        · simp only [Cell.clearWall, Cell.increment, fixedAfterIncrement, if_pos hexp]
        · simp [Cell.clearWall, Cell.snapshot, hexp]
  | bucket o e =>
    rw [probed_bucket_allowed hcost hlegal hallowed]
    obtain ⟨b, ⟨⟩, hcase⟩ := h
    rw [startBucket, Option.getD_some]
    by_cases hnone : now < b.lastRefill + o.interval
    · rw [Bucket.refill_of_lt hnone]
      exact Cell.AnswersAlike.refl now _
    · have htok : (b.refill o now).tokens < o.bucketSize := hcase.resolve_left hnone
      have hle : b.tokens ≤ (b.refill o now).tokens := by
        have hwf := hlegal b rfl
        rw [Bucket.tokens_refill hwf.tokens_le hwf.lastRefill_le]
        have hI := o.interval_pos
        have hR := o.tokensPerInterval_pos
        have : 0 ≤ (now - b.lastRefill) / o.interval * o.tokensPerInterval :=
          mul_nonneg (Int.ediv_nonneg (by have := hwf.lastRefill_le; omega) (by omega)) (by omega)
        exact le_min hwf.tokens_le (by omega)
      intro t ht
      refine ⟨fun options => ?_, ?_⟩
      · simp only [Cell.clearWall, Cell.increment, startBucket, Option.getD_some,
          Bucket.request_congr o (Bucket.refill_refill o ht b)]
      · have h1 : isBucketIdleFullPurgeable o t (b.refill o now) = false := by
          simp [isBucketIdleFullPurgeable, not_le.mpr htok]
        have h2 : isBucketIdleFullPurgeable o t b = false := by
          simp [isBucketIdleFullPurgeable, not_le.mpr (lt_of_le_of_lt hle htok)]
        simp only [Cell.clearWall, Cell.snapshot, Option.bind_some, h1, h2, Bool.false_eq_true,
          if_false, Bucket.refill_refill o ht b]

/-! ### Where it is noticed -/

/-- What a sliding window shows. -/
theorem snapshot_sliding (o : WindowOptions) (e : Option SlidingKeyState) :
    ((Cell.sliding o e).clearWall now).snapshot now =
      match heldStamps o now e with
      | [] => none
      | oldest :: rest => some (RateLimitResult.ofUsage (oldest :: rest).length o.maxRequests
          (oldest + o.windowMs)) := rfl

/-- Reads tell windows apart by how many stamps count. -/
theorem snapshot_sliding_ne {o : WindowOptions} {e e' : Option SlidingKeyState}
    (h : (heldStamps o now e).length < (heldStamps o now e').length) :
    ((Cell.sliding o e').clearWall now).snapshot now ≠
      ((Cell.sliding o e).clearWall now).snapshot now := by
  rw [snapshot_sliding, snapshot_sliding]
  cases he' : heldStamps o now e' with
  | nil => simp [he'] at h
  | cons a l' =>
    cases he : heldStamps o now e with
    | nil => simp
    | cons b l =>
      rw [he, he'] at h
      intro heq
      have := congrArg RateLimitResult.totalHits (Option.some.inj heq)
      simp only [RateLimitResult.totalHits_ofUsage, Nat.cast_inj] at this
      omega

/-- Any other probe is noticed: the window shows another end. -/
theorem probed_sliding_noticed (hcost : dec.sanitizedCost = inc.sanitizedCost)
    (holdest : dec.removeNewest = false) {o : WindowOptions} {e : Option SlidingKeyState}
    (hlegal : (Cell.sliding o e).Legal now) (h : ¬ (Cell.sliding o e).ErasesProbe now) :
    ∃ t, now ≤ t ∧ (((Cell.sliding o e).probed now inc dec).clearWall t).snapshot t ≠
      ((Cell.sliding o e).clearWall t).snapshot t := by
  have hW := o.windowMs_pos
  have hc := inc.one_le_sanitizedCost
  simp only [Cell.ErasesProbe, not_forall] at h
  obtain ⟨x, hx, h⟩ := h
  have hne : heldStamps o now e ≠ [] := List.ne_nil_of_mem hx
  obtain ⟨s, rfl⟩ : ∃ s, e = some s := by
    cases e with
    | none => simp at hx
    | some s => exact ⟨s, rfl⟩
  have hlive : heldStamps o now (some s) = liveStamps o now s.stamps := by
    have := @heldStamps_some o now s
    split at this
    · exact absurd this hne
    · exact this
  obtain ⟨hsorted, hpast⟩ := hlegal s rfl
  have hsorted' : (heldStamps o now (some s)).Pairwise (· ≤ ·) := by
    rw [hlive]
    exact hsorted.sublist List.filter_sublist
  have hpast' : ∀ y ∈ heldStamps o now (some s), y ≤ now := by
    intro y hy
    rw [hlive] at hy
    exact hpast y (List.mem_of_mem_filter hy)
  rw [probed_sliding_oldest hcost holdest, if_neg hne]
  have hunwalled : ∀ (l : List ℤ) (t : ℤ),
      heldStamps o t (some ⟨l, none⟩) = liveStamps o t l := fun l t => by
    rw [heldStamps_some]
    simp [SlidingKeyState.wallPassed]
  by_cases hold : ∃ ts ∈ heldStamps o now (some s), ts ≠ now
  · -- at the last moment of the new stamps there are more of them
    refine ⟨now + o.windowMs - 1, by omega, snapshot_sliding_ne ?_⟩
    rw [hunwalled]
    apply lt_of_le_of_lt _ (length_live_rolledBack_lt hsorted' hpast' hold hc)
    rw [heldStamps_later (t := now) (by omega) s]
    split
    · exact Nat.zero_le _
    · exact le_rfl
  · -- the wall expiry that the probe dropped comes first
    have hall : ∀ ts ∈ heldStamps o now (some s), ts = now := by
      intro ts hts
      by_contra hne'
      exact hold ⟨ts, hts, hne'⟩
    obtain ⟨w, hwall, hlt⟩ : ∃ w, s.wallExpiresAt = some w ∧ w < now + o.windowMs := by
      rw [not_and] at h
      have := h (hall x hx)
      simp only [not_forall] at this
      obtain ⟨s', ⟨⟩, w, hw, hlt⟩ := this
      exact ⟨w, hw, by omega⟩
    have hfuture : now < w := by
      by_contra hle
      have hp : s.wallPassed now = true := by
        simp [SlidingKeyState.wallPassed, hwall, not_lt.mp hle]
      rw [heldStamps_some, if_pos hp] at hne
      exact hne rfl
    refine ⟨w, hfuture.le, snapshot_sliding_ne ?_⟩
    have hp : s.wallPassed w = true := by simp [SlidingKeyState.wallPassed, hwall]
    have hrep := List.eq_replicate_of_mem hall
    rw [hunwalled, heldStamps_some, if_pos hp, hrep, List.replicate_append_replicate,
      List.drop_replicate, Nat.add_sub_cancel, ← hrep]
    have hstay : liveStamps o w (heldStamps o now (some s)) = heldStamps o now (some s) := by
      apply List.filter_eq_self.mpr
      intro y hy
      rw [hall y hy]
      simp only [decide_eq_true_eq]
      omega
    rw [hstay]
    exact List.length_pos_of_ne_nil hne

/-- A bucket shows nothing when it is full and long idle. -/
theorem snapshot_bucket_eq_none (o : TokenBucketOptions) (b : BucketEntry) :
    ((Cell.bucket o (some b)).clearWall now).snapshot now = none ↔
      o.bucketSize ≤ b.tokens ∧ 10 * o.interval < now - b.lastRefill := by
  have hiff : isBucketIdleFullPurgeable o now b = true ↔
      o.bucketSize ≤ b.tokens ∧ 10 * o.interval < now - b.lastRefill := by
    simp only [isBucketIdleFullPurgeable, Bool.and_eq_true, decide_eq_true_eq]
  rw [← hiff]
  simp [Cell.clearWall, Cell.snapshot]

/-- A bucket that a probe has refilled to the brim is idle for less long than it was, or
full before it was. -/
theorem refilled_bucket_noticed {o : TokenBucketOptions} {b : BucketEntry}
    (hpassed : b.lastRefill + o.interval ≤ now) (hfull : o.bucketSize ≤ (b.refill o now).tokens) :
    ∃ t, now ≤ t ∧ ((Cell.bucket o (some (b.refill o now))).clearWall t).snapshot t ≠
      ((Cell.bucket o (some b)).clearWall t).snapshot t := by
  have hI := o.interval_pos
  have hlast := Bucket.add_interval_le_lastRefill_refill hpassed
  have hopen := Bucket.lt_lastRefill_refill o now b
  by_cases hraw : o.bucketSize ≤ b.tokens
  · refine ⟨(b.refill o now).lastRefill + 10 * o.interval, by omega, ?_⟩
    intro heq
    have hold := (@snapshot_bucket_eq_none
      ((b.refill o now).lastRefill + 10 * o.interval) o b).mpr ⟨hraw, by omega⟩
    have hnew := (snapshot_bucket_eq_none o (b.refill o now)).mp (heq.trans hold)
    omega
  · refine ⟨(b.refill o now).lastRefill + 10 * o.interval + 1, by omega, ?_⟩
    intro heq
    have hnew := (@snapshot_bucket_eq_none
      ((b.refill o now).lastRefill + 10 * o.interval + 1) o (b.refill o now)).mpr ⟨hfull, by omega⟩
    have hold := (snapshot_bucket_eq_none o b).mp (heq.symm.trans hnew)
    exact hraw hold.1

/-- A probe of a bucket that is not erased is noticed. -/
theorem probed_bucket_noticed (hcost : dec.sanitizedCost = inc.sanitizedCost)
    {o : TokenBucketOptions} {e : Option BucketEntry} (hlegal : (Cell.bucket o e).Legal now)
    (hallowed : ((Cell.bucket o e).increment now inc).2.isBlocked = false)
    (h : ¬ (Cell.bucket o e).ErasesProbe now) :
    ∃ t, now ≤ t ∧ (((Cell.bucket o e).probed now inc dec).clearWall t).snapshot t ≠
      ((Cell.bucket o e).clearWall t).snapshot t := by
  rw [probed_bucket_allowed hcost hlegal hallowed]
  cases e with
  | none =>
    refine ⟨now, le_rfl, fun heq => ?_⟩
    have hnone : ((Cell.bucket o none).clearWall now).snapshot now = none := rfl
    have := (snapshot_bucket_eq_none o _).mp (heq.trans hnone)
    have hopen := Bucket.lt_lastRefill_refill o now (startBucket o now none)
    have hI := o.interval_pos
    omega
  | some b =>
    have hnot : ¬ (now < b.lastRefill + o.interval ∨ (b.refill o now).tokens < o.bucketSize) :=
      fun hcase => h ⟨b, rfl, hcase⟩
    rw [not_or] at hnot
    exact refilled_bucket_noticed (not_lt.mp hnot.1) (not_lt.mp hnot.2)

/-- In any other cell one later read shows the difference. -/
theorem probed_noticed {x : Cell} (hcost : dec.sanitizedCost = inc.sanitizedCost)
    (holdest : dec.removeNewest = false) (hlegal : x.Legal now)
    (hallowed : ((x.clearWall now).increment now inc).2.isBlocked = false)
    (h : ¬ x.ErasesProbe now) :
    ∃ t, now ≤ t ∧ ((x.probed now inc dec).clearWall t).snapshot t ≠
      (x.clearWall t).snapshot t := by
  cases x with
  | sliding o e => exact probed_sliding_noticed hcost holdest hlegal h
  | fixed o e =>
    simp only [Cell.ErasesProbe, not_forall] at h
    obtain ⟨s, ⟨⟩, hrun, hzero⟩ := h
    refine ⟨now, le_rfl, ?_⟩
    rw [probed_fixed hcost hlegal]
    simp [Option.filter, hzero, Cell.clearWall, Cell.snapshot, not_le.mpr hrun]
  | bucket o e => exact probed_bucket_noticed hcost hlegal hallowed h

end Undone

/-! ## The consume -/

section Consume

variable {ρ κ : Type} [DecidableEq κ]

/-- The operations that are to see no difference: increments and reads, with room. -/
def ObserverFits (i : Timed (StoreOp κ)) (s : MemoryStore κ) : Prop :=
  s.StepFits i ∧ match i.op with
    | .increment _ _ => True
    | .get _ => True
    | _ => False

/-- Stores whose cells answer alike are told apart by no increment and no read. -/
theorem indistinguishable_of_answersAlike {t : ℤ} {s s' : MemoryStore κ}
    (h : ∀ k, Cell.AnswersAlike t (s.cell k) (s'.cell k)) :
    Indistinguishable Timed.time ObserverFits MemoryStore.step t s s' := by
  apply indistinguishable_of_bisimulation
    (R := fun t (s s' : MemoryStore κ) => ∀ k, Cell.AnswersAlike t (s.cell k) (s'.cell k)) _ h
  intro t s s' i hR ht hg hg'
  have hlater : ∀ k, Cell.AnswersAlike i.time (s.cell k) (s'.cell k) := fun k => (hR k).mono ht
  obtain ⟨now, op⟩ := i
  cases op with
  | increment key options =>
    have heq := ((hlater key) now le_rfl).1 options
    refine ⟨?_, fun k => ?_⟩
    · simp only [MemoryStore.step, MemoryStore.increment_snd_cleared, heq]
    · simp only [MemoryStore.step, MemoryStore.cell_increment_fits (hg.1 key rfl),
        MemoryStore.cell_increment_fits (hg'.1 key rfl), heq]
      split
      · exact Cell.AnswersAlike.refl now _
      · exact hlater k
  | get key =>
    refine ⟨?_, fun k => ?_⟩
    · simp only [MemoryStore.step, MemoryStore.get_snd, ((hlater key) now le_rfl).2]
    · simp only [MemoryStore.step, MemoryStore.cell_get]
      split
      · exact (hlater key).clearWall
      · exact hlater k
  | decrement key options => exact hg.2.elim
  | set key totalHits expiresAt => exact hg.2.elim
  | reset key => exact hg.2.elim
  | delete key => exact hg.2.elim
  | purgeExpired => exact hg.2.elim

/-- The cell of the key after an increment that was undone, and the other cells. -/
theorem cell_undone {key : κ} {incOpts : RateLimitIncrementOptions} {spec : SlotSpec} {now : ℤ}
    {m : MemoryStore κ} (hfits : m.Fits key) (k : κ) :
    (undone key incOpts spec now m).cell k =
      if k = key then (m.cell key).probed now (spec.incrementOptions incOpts)
        (matchingDecrementOptions incOpts) else m.cell k := by
  rw [undone, MemoryStore.cell_decrement, MemoryStore.cell_increment_fits hfits,
    MemoryStore.cell_increment_fits hfits, if_pos rfl]
  split <;> rfl

/-- Without draft mode what follows the increments leaves the stores alone. -/
theorem stores_settle {σ : Type} (o : RateLimitOptions ρ σ κ) (key : κ) (req : ρ)
    (g : IncrementOutcome) (w : World σ κ) (hdraft : o.draft = false) :
    (settle o key req g w).2.stores = w.stores := by
  simp only [settle, hdraft, Bool.and_false, Bool.false_and, Bool.false_eq_true, if_false]
  split
  · split
    · rfl
    · split <;> rfl
  · rfl

/-- Without drafts a grouped request ends with what the slots did. -/
theorem stores_consumeWithKey_grouped {σ : Type} {o : RateLimitOptions ρ σ κ} {key : κ} {req : ρ}
    {w w₁ : World σ κ} (hdraft : o.draft = false) (hwin : isWindowOpts o = true)
    (hslots : o.groupedWindowStores ≠ []) (hpol : policyResult o key req w = (none, w₁)) :
    (consumeWithKey o key req w).2.stores =
      (groupedWindowsLoop o.clock key o.groupedWindowStores false (resolveIncrementOpts o req)
        o.groupedWindowStores [] w₁.stores).2 := by
  simp only [consumeWithKey, arrive, hpol, incrementStores, hwin, hslots, consumeGroupedWindows,
    hdraft, ne_eq, not_false_eq_true, and_self, if_true]
  cases groupedWindowsLoop o.clock key o.groupedWindowStores false (resolveIncrementOpts o req)
      o.groupedWindowStores [] w₁.stores with
  | mk out s =>
    cases out with
    | error e => rfl
    | ok g => exact stores_settle o key req g _ hdraft

/-- **When a grouped consume is all or nothing.**  A consume without draft mode that slot
`i` ends, by blocking or by throwing, leaves the store of an earlier slot such that no
later increments and reads tell it from the store before, if and only if the cell of the
key erases the probe.  The store is reachable and none of this makes it evict a key.
SOURCE: src/strategies/rate-limit-engine.ts:595-644, src/stores/memory-store.ts:832-847 -/
theorem grouped_rollback_unnoticed_iff (o : RateLimitOptions ρ (StoreBank κ) κ)
    (specs : List SlotSpec) (key : κ) (req : ρ) (w w₁ : World (StoreBank κ) κ) (i j : ℕ)
    (hslots : o.groupedWindowStores = memorySlots κ specs) (hdraft : o.draft = false)
    (hwin : isWindowOpts o = true) (hpol : policyResult o key req w = (none, w₁))
    (hstop : stoppedAt key (resolveIncrementOpts o req) (memorySlots κ specs) w₁.stores = some i)
    (hj : j < i) (hreach : Reachable w₁.stores.now (w₁.stores.stores j))
    (hfits : (w₁.stores.stores j).Fits key) :
    Indistinguishable Timed.time ObserverFits MemoryStore.step w₁.stores.now
        ((consumeWithKey o key req w).2.stores.stores j) (w₁.stores.stores j) ↔
      ((w₁.stores.stores j).cell key).ErasesProbe w₁.stores.now := by
  set incOpts := resolveIncrementOpts o req
  set now := w₁.stores.now
  set m := w₁.stores.stores j
  obtain ⟨spec, hspec, hallowed⟩ := allowed_of_stoppedAt key incOpts 0 specs w₁.stores hstop hj
  have hne : o.groupedWindowStores ≠ [] := by
    intro hnil
    rw [hslots] at hnil
    rw [hnil] at hstop
    simp [stoppedAt] at hstop
  have hstore : (consumeWithKey o key req w).2.stores.stores j = undone key incOpts spec now m := by
    rw [stores_consumeWithKey_grouped hdraft hwin hne hpol, hslots]
    have := (stores_groupedWindowsLoop key incOpts o.clock [] specs [] w₁.stores rfl hstop).2 j spec
      hj hspec
    rw [List.length_nil, Nat.zero_add] at this
    exact this
  rw [Nat.zero_add, MemoryStore.increment_snd_cleared] at hallowed
  have hcost : (matchingDecrementOptions incOpts).sanitizedCost =
      (spec.incrementOptions incOpts).sanitizedCost := sanitizedCost_matchingDecrementOptions incOpts
  have holdest := removeNewest_matchingDecrementOptions incOpts
  have hlegal := hreach.legal key
  rw [hstore]
  constructor
  · intro hind
    by_contra hnot
    obtain ⟨t, ht, hnoticed⟩ := probed_noticed hcost holdest hlegal hallowed hnot
    have hguard : ∀ s : MemoryStore κ,
        Guarded ObserverFits MemoryStore.step [⟨t, .get key⟩] s := by
      intro s
      refine ⟨⟨?_, trivial⟩, trivial⟩
      intro k hk
      simp [StoreOp.writes] at hk
    have hout := hind [⟨t, .get key⟩] ⟨ht, trivial⟩ (hguard _) (hguard _)
    simp only [outputs_cons, outputs_nil, MemoryStore.step, MemoryStore.get_snd,
      cell_undone hfits, if_true, List.cons.injEq, StoreReply.snapshot.injEq, and_true] at hout
    exact hnoticed hout
  · intro herases
    apply indistinguishable_of_answersAlike
    intro k
    rw [cell_undone hfits]
    by_cases hk : k = key
    · rw [if_pos hk, hk]
      exact answersAlike_probed hcost holdest hlegal hallowed herases
    · rw [if_neg hk]
      exact Cell.AnswersAlike.refl now _

end Consume

/-! ## Two slots -/

/-- An engine over a slot of ten a second and a slot of one a second. -/
def twoSlotEngine : RateLimitOptions Unit (StoreBank ℕ) ℕ where
  clock := StoreBank.now
  store := bankStore 0
  groupedWindowStores := memorySlots ℕ [⟨1000, 10⟩, ⟨1000, 1⟩]

/-- Both slots after a hit on key `7` at `0`, read at `500`; the second slot is used up. -/
def twoStoreBank (first : MemoryStore ℕ) : World (StoreBank ℕ) ℕ where
  engine := {}
  stores :=
    { stores := fun j => (MemoryStore.step ⟨0, .increment 7 {}⟩
        (if j = 0 then first else .fixed oneASecond (KeyTable.new 0))).1
      now := 500 }

/-- A store after its first hit can be reached. -/
theorem reachable_hit {s : MemoryStore ℕ} (hnew : s.IsNew) (hfits : s.Fits 7) :
    Reachable 500 (MemoryStore.step ⟨0, .increment 7 {}⟩ s).1 := by
  refine ⟨s, 0, [⟨0, .increment 7 {}⟩], hnew, ⟨le_rfl, trivial⟩, ⟨?_, trivial⟩, by decide, rfl⟩
  rintro _ ⟨⟩
  exact hfits

/-- A fixed window gets its count back. -/
theorem grouped_rollback_unnoticed_iff_fixed :
    Indistinguishable Timed.time ObserverFits MemoryStore.step 500
      ((consumeWithKey twoSlotEngine 7 ()
        (twoStoreBank (.fixed tenASecond (KeyTable.new 0)))).2.stores.stores 0)
      ((twoStoreBank (.fixed tenASecond (KeyTable.new 0))).stores.stores 0) := by
  apply (grouped_rollback_unnoticed_iff twoSlotEngine [⟨1000, 10⟩, ⟨1000, 1⟩] 7 ()
    (twoStoreBank (.fixed tenASecond (KeyTable.new 0)))
    (twoStoreBank (.fixed tenASecond (KeyTable.new 0))) 1 0 rfl rfl (by decide) rfl
    (by decide +kernel) Nat.zero_lt_one (reachable_hit ⟨0, rfl⟩ (Or.inl rfl)) (Or.inl rfl)).mpr
  rintro _ ⟨⟩ -
  exact Int.zero_lt_one

/-- A sliding window loses the hit at `0` and keeps one at `500`, which a read at `1100`
still counts. -/
theorem grouped_rollback_noticed :
    ¬ ∀ (o : RateLimitOptions Unit (StoreBank ℕ) ℕ) (specs : List SlotSpec) (key : ℕ)
      (w w₁ : World (StoreBank ℕ) ℕ) (i j : ℕ), o.groupedWindowStores = memorySlots ℕ specs →
      o.draft = false → isWindowOpts o = true → policyResult o key () w = (none, w₁) →
      stoppedAt key (resolveIncrementOpts o ()) (memorySlots ℕ specs) w₁.stores = some i →
      j < i → Reachable w₁.stores.now (w₁.stores.stores j) → (w₁.stores.stores j).Fits key →
      Indistinguishable Timed.time ObserverFits MemoryStore.step w₁.stores.now
        ((consumeWithKey o key () w).2.stores.stores j) (w₁.stores.stores j) := by
  intro h
  have hind := h twoSlotEngine [⟨1000, 10⟩, ⟨1000, 1⟩] 7
    (twoStoreBank (.sliding tenASecond (KeyTable.new 0)))
    (twoStoreBank (.sliding tenASecond (KeyTable.new 0))) 1 0 rfl rfl (by decide) rfl
    (by decide +kernel) Nat.zero_lt_one (reachable_hit ⟨0, rfl⟩ (Or.inl rfl)) (Or.inl rfl)
  have hguard : ∀ s : MemoryStore ℕ,
      Guarded ObserverFits MemoryStore.step [⟨1100, .get 7⟩] s := by
    intro s
    refine ⟨⟨?_, trivial⟩, trivial⟩
    intro k hk
    simp [StoreOp.writes] at hk
  have hout := hind [⟨1100, .get 7⟩] ⟨by decide, trivial⟩ (hguard _) (hguard _)
  revert hout
  decide +kernel

end RatelimitFlex
