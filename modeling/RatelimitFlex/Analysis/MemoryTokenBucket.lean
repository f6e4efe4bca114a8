import RatelimitFlex.Analysis.MemoryCells
import RatelimitFlex.Model.Charges

/-!
# The token bucket of `MemoryStore` stays within its allowance

Every key's bucket is one bucket of the library that a purge may forget.  A purge forgets
only buckets that are stored full, so the budget of the key survives it (`budget_step`),
and with it the bound on what a run admits in any time interval.
-/

set_option autoImplicit false

namespace RatelimitFlex

open Library

variable {κ : Type} [DecidableEq κ]

/-- Increments, reads and purges: the operations that give no tokens away. -/
def spendsOnly : StoreOp κ → Bool
  | .increment _ _ => true
  | .get _ => true
  | .purgeExpired => true
  | _ => false

/-- What a token bucket run is required to be, step by step. -/
def SpendsWithRoom (i : Timed (StoreOp κ)) (s : MemoryStore κ) : Prop :=
  spendsOnly i.op = true ∧ s.StepHasRoom i

instance (i : Timed (StoreOp κ)) (s : MemoryStore κ) : Decidable (SpendsWithRoom i s) :=
  inferInstanceAs (Decidable (_ ∧ _))

/-- A token bucket store stays one. -/
theorem bucket_run (o : TokenBucketOptions) (is : List (Timed (StoreOp κ)))
    (t : KeyTable κ BucketEntry) :
    ∃ t', final MemoryStore.step is (.bucket o t) = .bucket o t' := by
  induction is generalizing t with
  | nil => exact ⟨t, rfl⟩
  | cons i is ih =>
    obtain ⟨now, op⟩ := i
    cases op <;> exact ih _

/-- A bucket a purge may drop is full, now and after any refill. -/
theorem full_of_purgeable {o : TokenBucketOptions} {now : ℤ} {b : BucketEntry}
    (h : isBucketIdleFullPurgeable o now b = true) (hb : b.Wf o now) :
    o.bucketSize ≤ (b.refill o now).tokens := by
  simp only [isBucketIdleFullPurgeable, Bool.and_eq_true, decide_eq_true_eq] at h
  have hI := o.interval_pos
  have hR := o.tokensPerInterval_pos
  have hq : 0 ≤ (now - b.lastRefill) / o.interval :=
    Int.ediv_nonneg (by have := hb.lastRefill_le; omega) (by omega)
  have hgain := mul_nonneg hq (show 0 ≤ o.tokensPerInterval by omega)
  rw [Bucket.tokens_refill hb.tokens_le hb.lastRefill_le]
  omega

section Step

variable {o : TokenBucketOptions} {a c : ℤ}

/-- The bucket an increment starts from is within the budget. -/
theorem budget_startBucket {now now' spent : ℤ} {e : Option BucketEntry}
    (h : Bucket.Budget o a c now spent e) (hn : now ≤ now') :
    Bucket.Budget o a c now' spent (some (startBucket o now' e)) := by
  cases e with
  | none => exact h.create hn
  | some b => exact h.mono hn

/-- A purge keeps the budget of every key. -/
theorem budget_purge {now now' spent : ℤ} {e : Option BucketEntry}
    (h : Bucket.Budget o a c now spent e) (hn : now ≤ now') :
    Bucket.Budget o a c now' spent (e.filter fun b => !isBucketIdleFullPurgeable o now' b) := by
  cases e with
  | none => exact h.mono hn
  | some b =>
    cases hp : isBucketIdleFullPurgeable o now' b with
    | true =>
      have hwf := (h.wf b rfl).mono hn
      simpa [Option.filter, hp] using h.drop hn (full_of_purgeable hp hwf)
    | false => simpa [Option.filter, hp] using h.mono hn

/-- What the reply to one operation adds to the cost admitted on `k` in `[a, c]`. -/
def spendOf (a c : ℤ) (k : κ) (i : Timed (StoreOp κ)) (r : StoreReply) : ℤ :=
  match chargeOf k (i, r) with
  | some p => Bucket.spend a c i.time p.1.cost p.2
  | none => 0

/-- One step keeps every key's budget. -/
theorem budget_step {now spent : ℤ} {k : κ} {i : Timed (StoreOp κ)}
    {t : KeyTable κ BucketEntry} (h : Bucket.Budget o a c now spent (t.state.lookup k))
    (hac : a ≤ c) (hn : now ≤ i.time) (hg : SpendsWithRoom i (.bucket o t)) :
    ∃ t', (MemoryStore.step i (.bucket o t)).1 = .bucket o t' ∧
      Bucket.Budget o a c i.time
        (spent + spendOf a c k i (MemoryStore.step i (.bucket o t)).2) (t'.state.lookup k) := by
  obtain ⟨now', op⟩ := i
  obtain ⟨hop, hroom⟩ := hg
  cases op with
  | increment key options =>
    refine ⟨_, rfl, ?_⟩
    simp only [lookup_incrementTokenBucket o now' key k t _ hroom]
    by_cases hk : k = key
    · subst hk
      have hstart := budget_startBucket h hn
      have := hstart.request hac le_rfl options.sanitizedCost
      simpa [spendOf, chargeOf, MemoryStore.step, MemoryStore.increment,
        incrementTokenBucket_snd] using this
    · simpa [spendOf, chargeOf, MemoryStore.step, hk, Ne.symm hk] using h.mono hn
  | get key =>
    refine ⟨_, rfl, ?_⟩
    simp only [lookup_getTokenBucketReadOnly]
    simpa [spendOf, chargeOf, MemoryStore.step] using h.mono hn
  | purgeExpired =>
    refine ⟨_, rfl, ?_⟩
    simp only [lookup_purgeBuckets]
    simpa [spendOf, chargeOf, MemoryStore.step] using budget_purge h hn
  | decrement key options => simp [spendsOnly] at hop
  | set key totalHits expiresAt => simp [spendsOnly] at hop
  | reset key => simp [spendsOnly] at hop
  | delete key => simp [spendsOnly] at hop

/-- The cost admitted in `[a, c]` grows by what each step spends. -/
theorem windowCost_admitted_cons (k : κ) (i : Timed (StoreOp κ)) (is : List (Timed (StoreOp κ)))
    (r : StoreReply) (rs : List StoreReply) :
    (Hit.windowCost (a - 1) c (Hit.admitted (charges k (i :: is) (r :: rs))) : ℤ) =
      spendOf a c k i r + Hit.windowCost (a - 1) c (Hit.admitted (charges k is rs)) := by
  rw [charges_cons, spendOf]
  cases hc : chargeOf k (i, r) with
  | none => simp
  | some p =>
    have htime := time_of_chargeOf hc
    obtain ⟨⟨t, cost⟩, ok⟩ := p
    obtain rfl : t = i.time := htime
    cases ok with
    | false => simp [Bucket.spend]
    | true =>
      have hcons : Hit.admitted ((some (⟨i.time, cost⟩, true)).toList ++ charges k is rs) =
          [⟨i.time, cost⟩] ++ Hit.admitted (charges k is rs) := rfl
      rw [hcons, Hit.windowCost_append, Hit.windowCost_singleton]
      simp only [Bucket.spend, true_and, Nat.cast_add]
      by_cases hin : a ≤ i.time ∧ i.time ≤ c
      · rw [if_pos ⟨by omega, hin.2⟩, if_pos hin]
      · rw [if_neg (by omega), if_neg hin]
        rfl

/-- A whole run keeps every key's budget. -/
theorem budget_run {now spent : ℤ} {k : κ} {is : List (Timed (StoreOp κ))}
    {t : KeyTable κ BucketEntry} (h : Bucket.Budget o a c now spent (t.state.lookup k))
    (hac : a ≤ c) (hord : OrderedFrom Timed.time now is)
    (hg : Guarded SpendsWithRoom MemoryStore.step is (.bucket o t)) :
    ∃ t', final MemoryStore.step is (.bucket o t) = .bucket o t' ∧
      Bucket.Budget o a c (lastClock Timed.time now is)
        (spent + Hit.windowCost (a - 1) c
          (Hit.admitted (charges k is (outputs MemoryStore.step is (.bucket o t)))))
        (t'.state.lookup k) := by
  induction is generalizing now spent t with
  | nil => exact ⟨t, rfl, by simpa using h⟩
  | cons i is ih =>
    obtain ⟨t', ht', hb⟩ := budget_step h hac hord.1 hg.1
    have hg' := hg.2
    rw [ht'] at hg'
    obtain ⟨t'', ht'', hb'⟩ := ih hb hord.2 hg'
    refine ⟨t'', by rw [final_cons, ht', ht''], ?_⟩
    rw [outputs_cons, windowCost_admitted_cons, ht', ← add_assoc]
    exact hb'

end Step

/-- **Token bucket safety.**  In every state that increments, reads and purges lead to
without eviction, every bucket holds between none and `bucketSize` tokens and was last
refilled in the past; and the increments of a key that are allowed in `[a, b]` cost at
most the bucket size and one refill for each interval begun.
SOURCE: src/stores/memory-store.ts:911-987, 1050-1058 -/
theorem tokenBucket_bounds_admission (o : TokenBucketOptions) (maxKeys : ℕ) (t₀ : ℤ)
    (is : List (Timed (StoreOp κ))) (hord : OrderedFrom Timed.time t₀ is)
    (hg : Guarded SpendsWithRoom MemoryStore.step is (.bucket o (KeyTable.new maxKeys))) :
    (∃ t', final MemoryStore.step is (.bucket o (KeyTable.new maxKeys)) = .bucket o t' ∧
      ∀ (k : κ) (b : BucketEntry), b ∈ t'.state.lookup k →
        0 ≤ b.tokens ∧ b.tokens ≤ o.bucketSize ∧ b.lastRefill ≤ lastClock Timed.time t₀ is) ∧
    ∀ (k : κ) (a b : ℤ), a ≤ b →
      (Hit.windowCost (a - 1) b (Hit.admitted (charges k is
        (outputs MemoryStore.step is (.bucket o (KeyTable.new maxKeys))))) : ℤ) ≤
        o.bucketSize + ((b - a) / o.interval + 1) * o.tokensPerInterval := by
  have hrun : ∀ (k : κ) (a b : ℤ), a ≤ b →
      ∃ t', final MemoryStore.step is (.bucket o (KeyTable.new maxKeys)) = .bucket o t' ∧
        Bucket.Budget o a b (lastClock Timed.time t₀ is)
          (0 + Hit.windowCost (a - 1) b (Hit.admitted (charges k is
            (outputs MemoryStore.step is (.bucket o (KeyTable.new maxKeys))))))
          (t'.state.lookup k) :=
    fun k a b hab => budget_run (Bucket.budget_none hab t₀) hab hord hg
  refine ⟨?_, fun k a b hab => ?_⟩
  · obtain ⟨t', ht'⟩ := bucket_run o is (KeyTable.new maxKeys : KeyTable κ BucketEntry)
    refine ⟨t', ht', fun k b hb => ?_⟩
    obtain ⟨t'', ht'', hbudget⟩ := hrun k 0 0 le_rfl
    obtain rfl : t' = t'' := by simpa [ht'] using ht''
    have hwf := hbudget.wf b hb
    exact ⟨hwf.tokens_nonneg, hwf.tokens_le, hwf.lastRefill_le⟩
  · obtain ⟨t', -, hb⟩ := hrun k a b hab
    simpa [Bucket.allowance] using hb.le_allowance

/-- A burst that empties the bucket, a refused request, and a burst after the bucket has
been refilled, purged and made anew. -/
def twoBursts : List (Timed (StoreOp ℕ)) :=
  [⟨0, .increment 7 { cost := some 5 }⟩, ⟨900, .increment 7 {}⟩,
    ⟨3000, .increment 7 { cost := some 9 }⟩, ⟨14000, .purgeExpired⟩,
    ⟨14500, .increment 7 { cost := some 4 }⟩]

/-- The bound at a run whose bucket is purged on the way. -/
theorem tokenBucket_bounds_admission_twoBursts :
    (Hit.windowCost (-1) 14500 (Hit.admitted (charges 7 twoBursts
      (outputs MemoryStore.step twoBursts (.bucket fiveAtMost (KeyTable.new 0))))) : ℤ) ≤ 35 := by
  have h := tokenBucket_bounds_admission fiveAtMost 0 0 twoBursts (by decide +kernel)
    (by decide +kernel)
  exact h.2 7 0 14500 (by decide)

end RatelimitFlex
