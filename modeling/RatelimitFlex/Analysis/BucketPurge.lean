import RatelimitFlex.Analysis.StoreOrder

/-!
# Which buckets a purge reclaims

A purge looks at the tokens as they are stored, and nothing refills the bucket of a key that
is not used any more.  So of the buckets that would be full by now, those go which their last
operation left full (`purge_reclaims_iff`); all others stay for good.
-/

set_option autoImplicit false

namespace RatelimitFlex

open Library

variable {κ : Type} [DecidableEq κ]

/-- The time to fill an empty bucket. -/
def fillTime (o : TokenBucketOptions) : ℤ :=
  (o.bucketSize + o.tokensPerInterval - 1) / o.tokensPerInterval * o.interval

/-- A key last used at `t` has been left alone for ten intervals and the time to fill. -/
def Abandoned (o : TokenBucketOptions) (now t : ℤ) : Prop := t + 10 * o.interval + fillTime o < now

/-- The operation is an increment or a decrement. -/
def StoreOp.isCharge : StoreOp κ → Bool
  | .increment _ _ => true
  | .decrement _ _ => true
  | _ => false

/-- The time of the last operation on `k`. -/
def lastUse (k : κ) (is : List (Timed (StoreOp κ))) : Option ℤ :=
  ((is.filter fun i => decide (i.op.key = some k)).map Timed.time).getLast?

/-- The store holds no bucket that would be full at `now` and whose last use lies that far in
the past. -/
def HoldsNoAbandoned (o : TokenBucketOptions) (now : ℤ) (is : List (Timed (StoreOp κ)))
    (s : MemoryStore κ) : Prop :=
  ∀ k b t, s.cell k = .bucket o (some b) → lastUse k is = some t →
    ¬ (o.bucketSize ≤ (b.refill o now).tokens ∧ Abandoned o now t)

/-- The last use of a key after one operation more. -/
theorem lastUse_append (k : κ) (is : List (Timed (StoreOp κ))) (i : Timed (StoreOp κ)) :
    lastUse k (is ++ [i]) = if i.op.key = some k then some i.time else lastUse k is := by
  unfold lastUse
  by_cases h : i.op.key = some k
  · simp [List.filter_append, h]
  · simp [List.filter_append, h]

/-- A bucket left alone that long is full when it is refilled. -/
theorem full_of_abandoned {o : TokenBucketOptions} {now t : ℤ} {b : Bucket}
    (hnonneg : 0 ≤ b.tokens) (hle : b.tokens ≤ o.bucketSize) (hlast : b.lastRefill ≤ t)
    (h : Abandoned o now t) : o.bucketSize ≤ (b.refill o now).tokens := by
  have hI := o.interval_pos
  have hT := o.tokensPerInterval_pos
  set n := (o.bucketSize + o.tokensPerInterval - 1) / o.tokensPerInterval with hn
  have hnow : t + 10 * o.interval + n * o.interval < now := h
  have hfill : o.bucketSize ≤ n * o.tokensPerInterval := by
    have hlt := Int.lt_ediv_add_one_mul_self (o.bucketSize + o.tokensPerInterval - 1)
      (show 0 < o.tokensPerInterval by omega)
    rw [← hn, add_mul, one_mul] at hlt
    omega
  have hnpos : 0 ≤ n * o.interval := by
    have hsize := o.bucketSize_pos
    exact mul_nonneg (Int.ediv_nonneg (by omega) (by omega)) (by omega)
  have hq : n ≤ (now - b.lastRefill) / o.interval :=
    Int.le_ediv_of_mul_le (by omega) (by omega)
  have hmul := mul_le_mul_of_nonneg_right hq (show 0 ≤ o.tokensPerInterval by omega)
  rw [Bucket.tokens_refill hle (by omega)]
  exact le_min le_rfl (by omega)

/-- What a purge leaves of a bucket store: the buckets that are not stored full and idle. -/
theorem cell_purge_eq_some_iff {o : TokenBucketOptions} {now : ℤ} {x : Cell} {b : Bucket} :
    x.purge now = .bucket o (some b) ↔
      x = .bucket o (some b) ∧ isBucketIdleFullPurgeable o now b = false := by
  cases x with
  | sliding o' e => simp [Cell.purge]
  | fixed o' e => simp [Cell.purge]
  | bucket o' e =>
    simp only [Cell.purge, Cell.bucket.injEq, Option.filter_eq_some_iff, Bool.not_eq_true']
    constructor
    · rintro ⟨rfl, he, hkept⟩
      exact ⟨⟨rfl, he⟩, hkept⟩
    · rintro ⟨⟨rfl, he⟩, hkept⟩
      exact ⟨rfl, he, hkept⟩

section Run

variable {o : TokenBucketOptions} {maxKeys : ℕ} {is : List (Timed (StoreOp κ))} {t₀ : ℤ}

/-- After every run the cells are legal. -/
theorem legal_run (o : TokenBucketOptions) (maxKeys : ℕ) (hord : OrderedFrom Timed.time t₀ is) (k : κ) :
    ((final MemoryStore.step is (.bucket o (KeyTable.new maxKeys))).cell k).Legal
      (lastClock Timed.time t₀ is) :=
  (ReachableByOperations.legal ⟨.bucket o (KeyTable.new maxKeys), t₀, is, ⟨maxKeys, rfl⟩, hord,
    le_rfl, rfl⟩).1 k

/-- A bucket was not refilled after the last operation on its key. -/
theorem lastRefill_le_lastUse (hops : ∀ i ∈ is, i.op.isCharge = true)
    (hord : OrderedFrom Timed.time t₀ is) {k : κ} {b : Bucket}
    (hb : (final MemoryStore.step is (.bucket o (KeyTable.new maxKeys))).cell k =
      .bucket o (some b)) {t : ℤ} (ht : lastUse k is = some t) : b.lastRefill ≤ t := by
  induction is using List.reverseRecOn generalizing t with
  | nil => exact absurd ht.symm (Option.some_ne_none t)
  | append_singleton is i ih =>
    have hlegal := legal_run o maxKeys hord k
    rw [hb] at hlegal
    rw [lastClock_append] at hlegal
    have hpast : b.lastRefill ≤ i.time := (hlegal b rfl).lastRefill_le
    have hbefore := ih (fun j hj => hops j (List.mem_append_left [i] hj))
      (orderedFrom_append.mp hord).1
    have hop := hops i (List.mem_append_right is (List.mem_singleton_self i))
    rw [lastUse_append] at ht
    rw [final_append, final_cons, final_nil] at hb
    split at ht
    · exact (Option.some.inj ht) ▸ hpast
    · next hk =>
      -- another key's operation keeps the bucket or evicts it
      refine hbefore ?_ ht
      obtain ⟨now, op⟩ := i
      cases op with
      | increment key options =>
        have hne : k ≠ key := fun heq => hk (congrArg some heq.symm)
        rcases MemoryStore.cell_increment_kept now options hne with heq | heq
        · exact heq ▸ hb
        · have hblank := heq.symm.trans hb
          have hnone := MemoryStore.isPresent_blank
            (final MemoryStore.step is (.bucket o (KeyTable.new maxKeys)) : MemoryStore κ)
          rw [hblank] at hnone
          exact Bool.noConfusion hnone
      | decrement key options =>
        have hne : k ≠ key := fun heq => hk (congrArg some heq.symm)
        simp only [MemoryStore.step, MemoryStore.cell_decrement, if_neg hne] at hb
        exact hb
      | get key => exact Bool.noConfusion hop
      | set key totalHits expiresAt => exact Bool.noConfusion hop
      | reset key => exact Bool.noConfusion hop
      | delete key => exact Bool.noConfusion hop
      | purgeExpired => exact Bool.noConfusion hop

end Run

/-- **When a purge reclaims the abandoned buckets.**  After increments and decrements and a
purge at `now`, the store holds no abandoned bucket that would be full, exactly when each such
bucket is stored full and was refilled last more than ten intervals ago; when the clock does
not go back, exactly when each abandoned bucket was left full by the last operation on its key.
SOURCE: src/stores/memory-store.ts:911-987, 1047-1058 -/
theorem purge_reclaims_iff (o : TokenBucketOptions) (maxKeys : ℕ)
    (is : List (Timed (StoreOp κ))) (hops : ∀ i ∈ is, i.op.isCharge = true) (now : ℤ) :
    let s := final MemoryStore.step is (.bucket o (KeyTable.new maxKeys))
    (HoldsNoAbandoned o now is (s.purgeExpired now) ↔
      ∀ k b t, s.cell k = .bucket o (some b) → lastUse k is = some t → Abandoned o now t →
        o.bucketSize ≤ (b.refill o now).tokens →
        o.bucketSize ≤ b.tokens ∧ 10 * o.interval < now - b.lastRefill) ∧
    ∀ t₀, OrderedFrom Timed.time t₀ is →
      (HoldsNoAbandoned o now is (s.purgeExpired now) ↔
        ∀ k b t, s.cell k = .bucket o (some b) → lastUse k is = some t → Abandoned o now t →
          b.tokens = o.bucketSize) := by
  intro s
  have hgeneral : HoldsNoAbandoned o now is (s.purgeExpired now) ↔
      ∀ k b t, s.cell k = .bucket o (some b) → lastUse k is = some t → Abandoned o now t →
        o.bucketSize ≤ (b.refill o now).tokens →
        o.bucketSize ≤ b.tokens ∧ 10 * o.interval < now - b.lastRefill := by
    have hpurgeable : ∀ b : Bucket, isBucketIdleFullPurgeable o now b = true ↔
        o.bucketSize ≤ b.tokens ∧ 10 * o.interval < now - b.lastRefill := by
      intro b
      simp [isBucketIdleFullPurgeable]
    constructor
    · intro h k b t hb ht hold hfull
      rw [← hpurgeable]
      by_contra hkept
      refine h k b t ?_ ht ⟨hfull, hold⟩
      rw [MemoryStore.cell_purgeExpired]
      exact cell_purge_eq_some_iff.mpr ⟨hb, Bool.eq_false_iff.mpr hkept⟩
    · rintro h k b t hb ht ⟨hfull, hold⟩
      rw [MemoryStore.cell_purgeExpired] at hb
      obtain ⟨hb, hkept⟩ := cell_purge_eq_some_iff.mp hb
      rw [(hpurgeable b).mpr (h k b t hb ht hold hfull)] at hkept
      exact Bool.noConfusion hkept
  refine ⟨hgeneral, fun t₀ hord => hgeneral.trans ?_⟩
  have hwf : ∀ k b, s.cell k = .bucket o (some b) → 0 ≤ b.tokens ∧ b.tokens ≤ o.bucketSize := by
    intro k b hb
    have hlegal := legal_run o maxKeys hord k
    rw [show (final MemoryStore.step is (.bucket o (KeyTable.new maxKeys))).cell k =
      .bucket o (some b) from hb] at hlegal
    exact ⟨(hlegal b rfl).tokens_nonneg, (hlegal b rfl).tokens_le⟩
  constructor
  · intro h k b t hb ht hold
    obtain ⟨hnonneg, hle⟩ := hwf k b hb
    have hlast := lastRefill_le_lastUse hops hord hb ht
    exact le_antisymm hle (h k b t hb ht hold (full_of_abandoned hnonneg hle hlast hold)).1
  · intro h k b t hb ht hold _
    have hlast := lastRefill_le_lastUse hops hord hb ht
    have hfill : 0 ≤ fillTime o := by
      have hsize := o.bucketSize_pos
      have hT := o.tokensPerInterval_pos
      have hI := o.interval_pos
      exact mul_nonneg (Int.ediv_nonneg (by omega) (by omega)) (by omega)
    have hold : t + 10 * o.interval + fillTime o < now := hold
    exact ⟨(h k b t hb ht hold).ge, by omega⟩

/-- A token taken and given back: the bucket is left full, and goes. -/
theorem purge_reclaims_of_full :
    HoldsNoAbandoned fiveAtMost 20000
      ([⟨0, .increment 7 {}⟩, ⟨100, .decrement 7 {}⟩] : List (Timed (StoreOp ℕ)))
      ((final MemoryStore.step [⟨0, .increment 7 {}⟩, ⟨100, .decrement 7 {}⟩]
        (.bucket fiveAtMost (KeyTable.new 0))).purgeExpired 20000) := by
  refine ((purge_reclaims_iff fiveAtMost 0 [⟨0, .increment 7 {}⟩, ⟨100, .decrement 7 {}⟩]
    (by decide) 20000).2 0 (by decide)).mpr fun k b t hb _ _ => ?_
  by_cases hk : k = 7
  · subst hk
    obtain ⟨-, hb⟩ := Cell.bucket.inj hb
    obtain rfl : (⟨5, 0⟩ : Bucket) = b := Option.some.inj hb
    rfl
  · rw [MemoryStore.cell_of_notMem] at hb
    · exact absurd (Cell.bucket.inj hb).2.symm (Option.some_ne_none b)
    · exact fun hmem => hk (List.mem_singleton.mp hmem)

/-- A token taken once: the bucket is held however long its key is left alone. -/
theorem purge_keeps_abandoned :
    ¬ ∀ (o : TokenBucketOptions) (maxKeys : ℕ) (is : List (Timed (StoreOp ℕ))) (now : ℤ),
      (∀ i ∈ is, i.op.isCharge = true) →
      HoldsNoAbandoned o now is
        ((final MemoryStore.step is (.bucket o (KeyTable.new maxKeys))).purgeExpired now) := by
  intro h
  refine h fiveAtMost 0 [⟨0, .increment 7 {}⟩] 1000000 (by decide) 7 ⟨4, 0⟩ 0 rfl rfl ⟨?_, ?_⟩
  · decide
  · unfold Abandoned
    decide

end RatelimitFlex
