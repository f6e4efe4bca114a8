import RatelimitFlex.Analysis.MemorySliding
import RatelimitFlex.Analysis.StoreCells
import RatelimitFlex.Program.ShieldedMemory

/-!
# The shield in its default configuration is transparent

With the store's own cap as its threshold, no block duration of its own and requests of
cost one, the shield blocks a key only while the store would: the entry it holds stems from
an answer that left the key used up until the entry ends (`Cell.SpentUntil`).  What the
store does not count meanwhile could not have changed a later answer of a fixed window or a
token bucket (`Cell.Alike`).  A sliding window would have counted it, and forgets sooner.
-/

set_option autoImplicit false

namespace RatelimitFlex

open Library InMemoryShield SlidingLog

variable {κ : Type} [DecidableEq κ]

/-! ## Used up cells -/

namespace Cell

/-- The cap of an increment. -/
def capFor (options : RateLimitIncrementOptions) : Cell → ℤ
  | .sliding o _ => o.cap options.maxRequests
  | .fixed o _ => o.cap options.maxRequests
  | .bucket o _ => o.bucketSize

/-- Nothing of `cap` is left, and nothing comes back before `ends`. -/
def SpentUntil (cap ends : ℤ) : Cell → Prop
  | .sliding o e => cap ≤ (stampsOf e).countP fun ts => decide (ends ≤ ts + o.windowMs)
  | .fixed _ e => ∃ s ∈ e, s.resetTime = ends ∧ cap ≤ s.count
  | .bucket o e => ∃ b ∈ e, b.lastRefill + o.interval = ends ∧ b.tokens ≤ 0

variable {now cap ends : ℤ} {x : Cell} {options : RateLimitIncrementOptions}

/-- An increment keeps the cap. -/
@[simp] theorem capFor_increment (now : ℤ) (options options' : RateLimitIncrementOptions)
    (x : Cell) : (x.increment now options').1.capFor options = x.capFor options := by
  cases x <;> rfl

/-- So does a purge. -/
@[simp] theorem capFor_purge (now : ℤ) (options : RateLimitIncrementOptions) (x : Cell) :
    (x.purge now).capFor options = x.capFor options := by
  cases x <;> rfl

/-- Stamps that last until a later time are live. -/
theorem countP_liveStamps (o : WindowOptions) (hnow : now < ends) (stamps : List ℤ) :
    (liveStamps o now stamps).countP (fun ts => decide (ends ≤ ts + o.windowMs)) =
      stamps.countP fun ts => decide (ends ≤ ts + o.windowMs) := by
  rw [liveStamps, List.countP_filter]
  apply List.countP_congr
  intro ts _
  simp only [Bool.and_eq_true, decide_eq_true_eq]
  omega

/-- A used up cell blocks. -/
theorem SpentUntil.isBlocked (h : x.SpentUntil cap ends) (hnow : now < ends)
    (hcap : x.capFor options = cap) : (x.increment now options).2.isBlocked = true := by
  have hcost := options.one_le_sanitizedCost
  cases x with
  | sliding o e =>
    have hlive := countP_liveStamps o hnow (stampsOf e)
    have hle : (liveStamps o now (stampsOf e)).countP
        (fun ts => decide (ends ≤ ts + o.windowMs)) ≤ _ := List.countP_le_length
    simp only [SpentUntil, capFor] at h hcap
    simp only [increment, RateLimitResult.isBlocked_ofUsage, List.length_append,
      List.length_replicate, decide_eq_true_eq]
    omega
  | fixed o e =>
    obtain ⟨s, rfl, rfl, hcount⟩ := h
    simp only [capFor] at hcap
    simp only [increment, RateLimitResult.isBlocked_ofUsage, fixedAfterIncrement,
      if_neg (not_le.mpr hnow), decide_eq_true_eq]
    omega
  | bucket o e =>
    obtain ⟨b, rfl, rfl, htokens⟩ := h
    have hlt : (b.refill o now).tokens < options.sanitizedCost := by
      rw [Bucket.refill_of_lt hnow]
      omega
    simp only [increment, startBucket, Option.getD_some, isBlocked_bucketResult,
      Bucket.request_of_lt o hlt, Bool.not_false]

/-- It stays used up, whatever is charged. -/
theorem SpentUntil.increment (h : x.SpentUntil cap ends) (hnow : now < ends) :
    (x.increment now options).1.SpentUntil cap ends := by
  have hcost := options.one_le_sanitizedCost
  cases x with
  | sliding o e =>
    simp only [SpentUntil] at h
    simp only [SpentUntil, Cell.increment, stampsOf_some, List.countP_append,
      countP_liveStamps o hnow, Nat.cast_add]
    omega
  | fixed o e =>
    obtain ⟨s, rfl, rfl, hcount⟩ := h
    simp only [SpentUntil, Cell.increment, fixedAfterIncrement, if_neg (not_le.mpr hnow)]
    exact ⟨_, rfl, rfl, by simp only; omega⟩
  | bucket o e =>
    obtain ⟨b, rfl, rfl, htokens⟩ := h
    have hlt : (b.refill o now).tokens < options.sanitizedCost := by
      rw [Bucket.refill_of_lt hnow]
      omega
    simp only [SpentUntil, Cell.increment, startBucket, Option.getD_some,
      Bucket.request_of_lt o hlt, Bucket.refill_of_lt hnow]
    exact ⟨b, rfl, rfl, htokens⟩

/-- A purge keeps it used up. -/
theorem SpentUntil.purge (h : x.SpentUntil cap ends) (hwf : x.Wf now) (hnow : now < ends) :
    (x.purge now).SpentUntil cap ends := by
  cases x with
  | sliding o e =>
    have hwall : ∀ s ∈ e, s.wallExpiresAt = none := fun s hs => (hwf s hs).1
    simp only [SpentUntil] at h
    simp only [SpentUntil, Cell.purge, unexpired_of_none now hwall]
    cases e with
    | none => exact h
    | some s =>
      rw [stampsOf_some, ← countP_liveStamps o hnow] at h
      simp only [Option.bind_some]
      cases hlive : liveStamps o now s.stamps with
      | nil => simpa [hlive] using h
      | cons ts rest => simpa [hlive] using h
  | fixed o e =>
    obtain ⟨s, rfl, rfl, hcount⟩ := h
    exact ⟨s, by simp [not_le.mpr hnow], rfl, hcount⟩
  | bucket o e =>
    obtain ⟨b, rfl, rfl, htokens⟩ := h
    have hsize := o.bucketSize_pos
    refine ⟨b, ?_, rfl, htokens⟩
    simp only [isBucketIdleFullPurgeable, Option.filter_some, Option.mem_def]
    rw [if_pos]
    simp only [Bool.not_eq_true', Bool.and_eq_false_iff, decide_eq_false_iff_not]
    omega

/-- The first stamp is the oldest. -/
theorem head?_getD_le {l : List ℤ} (hsorted : l.Pairwise (· ≤ ·)) (t : ℤ) :
    ∀ ts ∈ l, l.head?.getD t ≤ ts := by
  intro ts hts
  cases l with
  | nil => simp at hts
  | cons first rest =>
    rcases List.mem_cons.mp hts with rfl | hts
    · exact le_rfl
    · exact (List.pairwise_cons.mp hsorted).1 ts hts

/-- An answer that reaches the cap leaves the cell used up until its reset time. -/
theorem spentUntil_of_increment (hwf : x.Wf now) (hone : options.sanitizedCost = 1)
    (hcap : x.capFor options = cap)
    (hreached : cap ≤ (x.increment now options).2.totalHits) :
    (x.increment now options).1.SpentUntil cap (x.increment now options).2.resetTime := by
  cases x with
  | sliding o e =>
    obtain ⟨-, hsorted, -⟩ := hwf.increment le_rfl options _ rfl
    simp only [Cell.increment, RateLimitResult.totalHits_ofUsage] at hreached
    simp only [SpentUntil, Cell.increment, stampsOf_some, RateLimitResult.resetTime_ofUsage]
    refine hreached.trans (le_of_eq ?_)
    rw [Nat.cast_inj, eq_comm, List.countP_eq_length]
    intro ts hts
    exact decide_eq_true (Int.add_le_add_right (head?_getD_le hsorted now ts hts) o.windowMs)
  | fixed o e => exact ⟨_, rfl, rfl, hreached⟩
  | bucket o e =>
    simp only [capFor] at hcap
    simp only [Cell.increment, hone] at hreached ⊢
    refine ⟨_, rfl, ?_, ?_⟩
    · simp only [bucketResult]
      split <;> rfl
    · rcases le_or_gt ((1 : ℕ) : ℤ) ((startBucket o now e).refill o now).tokens with hle | hlt
      · rw [Bucket.request_of_le o hle] at hreached ⊢
        simp only [bucketResult, if_true] at hreached ⊢
        omega
      · rw [Bucket.request_of_lt o hlt]
        simp only at hlt ⊢
        omega

/-! ## Cells that answer alike -/

/-- The slice that is still running. -/
def running (now : ℤ) (e : Option FixedEntry) : Option FixedEntry :=
  e.filter fun s => decide (now < s.resetTime)

/-- Slices that end together, the counts equal or both used up. -/
def AlikeSlices (cap : ℤ) : Option FixedEntry → Option FixedEntry → Prop :=
  Option.Rel fun a b => b.resetTime = a.resetTime ∧
    (b.count = a.count ∨ cap ≤ a.count ∧ cap ≤ b.count)

/-- The second cell answers as the first does: with the slices that are still running alike,
or the same bucket, never stored full. -/
inductive Alike (cap now : ℤ) : Cell → Cell → Prop where
  | fixed (o : WindowOptions) {e e' : Option FixedEntry}
      (h : AlikeSlices cap (running now e) (running now e')) :
      Alike cap now (.fixed o e) (.fixed o e')
  | bucket (o : TokenBucketOptions) {e : Option BucketEntry}
      (h : ∀ b ∈ e, b.tokens < o.bucketSize) : Alike cap now (.bucket o e) (.bucket o e)

variable {y : Cell}

/-- An increment of a fixed window adds to the slice that is running, or starts one. -/
theorem fixedAfterIncrement_eq_running (o : WindowOptions) (now : ℤ) (cost : ℕ)
    (e : Option FixedEntry) :
    fixedAfterIncrement o now cost e =
      match running now e with
      | none => ⟨cost, now + o.windowMs⟩
      | some s => ⟨s.count + cost, s.resetTime⟩ := by
  cases e with
  | none => rfl
  | some s =>
    by_cases h : s.resetTime ≤ now
    · simp [fixedAfterIncrement, running, Option.filter, h, not_lt.mpr h]
    · simp [fixedAfterIncrement, running, Option.filter, h, not_le.mp h]

/-- A slice that is running later was running before. -/
theorem running_running {now' : ℤ} (hn : now ≤ now') (e : Option FixedEntry) :
    running now' (running now e) = running now' e := by
  simp only [running, Option.filter_filter]
  congr 1
  funext s
  simp only [← Bool.decide_and]
  congr 1
  apply propext
  omega

/-- A purge leaves the slice that is running. -/
theorem running_purge (now : ℤ) (e : Option FixedEntry) :
    (e.bind fun s => if s.resetTime ≤ now then none else some s) = running now e := by
  cases e with
  | none => rfl
  | some s =>
    by_cases h : s.resetTime ≤ now
    · simp [running, Option.filter, h, not_lt.mpr h]
    · simp [running, Option.filter, h, not_le.mp h]

/-- The slice that an increment leaves is running. -/
theorem running_fixedAfterIncrement (o : WindowOptions) (now : ℤ) (cost : ℕ)
    (e : Option FixedEntry) :
    running now (some (fixedAfterIncrement o now cost e)) =
      some (fixedAfterIncrement o now cost e) := by
  have hW := o.windowMs_pos
  have hlt : now < (fixedAfterIncrement o now cost e).resetTime := by
    unfold fixedAfterIncrement
    split
    · simp only
      omega
    · split
      · simp only
        omega
      · exact not_le.mp ‹_›
  simp [running, Option.filter, hlt]

/-- Cells that answer alike from now on do so later. -/
theorem Alike.mono {now' : ℤ} (h : x.Alike cap now y) (hn : now ≤ now') : x.Alike cap now' y := by
  cases h with
  | bucket o h => exact .bucket o h
  | @fixed o e e' h =>
    refine .fixed o ?_
    rw [← running_running hn, ← running_running hn e']
    generalize running now e = r, running now e' = r' at h
    cases h with
    | none => exact Option.Rel.none
    | some hab =>
      simp only [running, Option.filter_some, hab.1]
      split
      · exact Option.Rel.some hab
      · exact Option.Rel.none

/-- An increment of both is answered alike. -/
theorem Alike.increment (h : x.Alike cap now y) (hwf : x.Wf now)
    (hone : options.sanitizedCost = 1) (hcap : x.capFor options = cap) :
    (x.increment now options).2.isBlocked = (y.increment now options).2.isBlocked ∧
      (x.increment now options).1.Alike cap now (y.increment now options).1 := by
  cases h with
  | @bucket o e h =>
    refine ⟨rfl, .bucket o ?_⟩
    rintro _ ⟨⟩
    have hsize := o.bucketSize_pos
    have hstart : (startBucket o now e).Wf o now := by
      cases e with
      | none => exact Bucket.wf_full o now
      | some b => exact hwf b rfl
    have hle := (hstart.refill le_rfl).tokens_le
    rw [hone]
    rcases le_or_gt ((1 : ℕ) : ℤ) ((startBucket o now e).refill o now).tokens with hge | hlt
    · rw [Bucket.request_of_le o hge]
      simp only
      omega
    · rw [Bucket.request_of_lt o hlt]
      simp only at hlt ⊢
      omega
  | @fixed o e e' h =>
    simp only [capFor] at hcap
    have hboth : (fixedAfterIncrement o now options.sanitizedCost e').resetTime =
          (fixedAfterIncrement o now options.sanitizedCost e).resetTime ∧
        ((fixedAfterIncrement o now options.sanitizedCost e').count =
            (fixedAfterIncrement o now options.sanitizedCost e).count ∨
          cap < (fixedAfterIncrement o now options.sanitizedCost e).count ∧
            cap < (fixedAfterIncrement o now options.sanitizedCost e').count) := by
      rw [fixedAfterIncrement_eq_running, fixedAfterIncrement_eq_running]
      generalize running now e = r, running now e' = r' at h
      cases h with
      | none => exact ⟨rfl, Or.inl rfl⟩
      | some hab =>
        simp only
        omega
    refine ⟨?_, .fixed o ?_⟩
    · simp only [Cell.increment, RateLimitResult.isBlocked_ofUsage, decide_eq_decide, hcap]
      omega
    · rw [running_fixedAfterIncrement, running_fixedAfterIncrement]
      exact Option.Rel.some (by omega)

/-- What the first does not count while it is used up, the second blocks, and they stay
alike. -/
theorem Alike.swallow (h : x.Alike cap now y) (hspent : x.SpentUntil cap ends)
    (hnow : now < ends) (hcap : x.capFor options = cap) :
    (y.increment now options).2.isBlocked = true ∧
      x.Alike cap now (y.increment now options).1 := by
  have hcost := options.one_le_sanitizedCost
  cases h with
  | bucket o h =>
    refine ⟨hspent.isBlocked hnow hcap, ?_⟩
    obtain ⟨b, rfl, rfl, htokens⟩ := hspent
    have hlt : (b.refill o now).tokens < options.sanitizedCost := by
      rw [Bucket.refill_of_lt hnow]
      omega
    simp only [Cell.increment, startBucket, Option.getD_some, Bucket.request_of_lt o hlt,
      Bucket.refill_of_lt hnow]
    exact .bucket o h
  | @fixed o e e' h =>
    obtain ⟨s, rfl, rfl, hcount⟩ := hspent
    simp only [capFor] at hcap
    have hrun : running now (some s) = some s := by simp [running, Option.filter, hnow]
    have hafter := fixedAfterIncrement_eq_running o now options.sanitizedCost e'
    rw [hrun] at h
    generalize running now e' = r' at h hafter
    cases h with
    | @some _ b hab =>
      refine ⟨?_, .fixed o ?_⟩
      · simp only [Cell.increment, RateLimitResult.isBlocked_ofUsage, decide_eq_true_eq, hafter,
          hcap]
        omega
      · rw [hrun, running_fixedAfterIncrement, hafter]
        exact Option.Rel.some (by simp only; omega)

/-- A purge leaves a bucket that is not full. -/
theorem purge_of_not_full {o : TokenBucketOptions} {e : Option BucketEntry}
    (h : ∀ b ∈ e, b.tokens < o.bucketSize) (now : ℤ) :
    (Cell.bucket o e).purge now = .bucket o e := by
  cases e with
  | none => rfl
  | some b => simp [Cell.purge, isBucketIdleFullPurgeable, Option.filter, h b rfl]

/-- A purge of the first keeps them alike. -/
theorem Alike.purge_left (h : x.Alike cap now y) : (x.purge now).Alike cap now y := by
  cases h with
  | bucket o h =>
    rw [purge_of_not_full h]
    exact .bucket o h
  | fixed o h =>
    refine .fixed o ?_
    rw [running_purge, running_running le_rfl]
    exact h

/-- A purge of the second keeps them alike. -/
theorem Alike.purge_right (h : x.Alike cap now y) : x.Alike cap now (y.purge now) := by
  cases h with
  | bucket o h =>
    rw [purge_of_not_full h]
    exact .bucket o h
  | fixed o h =>
    refine .fixed o ?_
    rw [running_purge, running_running le_rfl]
    exact h

end Cell

namespace MemoryStore

/-- The cap of an increment. -/
def capFor (options : RateLimitIncrementOptions) : MemoryStore κ → ℤ
  | .sliding o _ => o.cap options.maxRequests
  | .fixed o _ => o.cap options.maxRequests
  | .bucket o _ => o.bucketSize

/-- The store is a sliding window. -/
def IsSliding : MemoryStore κ → Prop
  | .sliding _ _ => True
  | _ => False

variable {m : MemoryStore κ} {now : ℤ} {key k : κ} {options : RateLimitIncrementOptions}

/-- The cap of a cell is that of its store. -/
theorem capFor_cell (m : MemoryStore κ) (k : κ) (options : RateLimitIncrementOptions) :
    (m.cell k).capFor options = m.capFor options := by
  cases m <;> rfl

/-- An increment keeps the cap of the store. -/
@[simp] theorem capFor_increment (m : MemoryStore κ) (now : ℤ) (key : κ)
    (options options' : RateLimitIncrementOptions) :
    (m.increment now key options').1.capFor options = m.capFor options := by
  cases m <;> rfl

/-- So does a purge. -/
@[simp] theorem capFor_purgeExpired (m : MemoryStore κ) (now : ℤ)
    (options : RateLimitIncrementOptions) :
    (m.purgeExpired now).capFor options = m.capFor options := by
  cases m <;> rfl

/-- A purge keeps every cell well formed. -/
theorem Wf.purgeExpired (h : m.Wf now) : (m.purgeExpired now).Wf now := by
  intro k
  have hk := h k
  rw [cell_purgeExpired]
  cases hcell : m.cell k with
  | sliding o e =>
    rw [hcell] at hk
    intro s hs
    obtain ⟨old, hold, hkept⟩ := Option.bind_eq_some_iff.mp hs
    obtain ⟨hwall, hsorted, hpast⟩ := hk old (Option.eq_some_of_filter_eq_some hold)
    have hsub : (liveStamps o now old.stamps).Sublist old.stamps := List.filter_sublist
    split at hkept
    · simp at hkept
    · obtain rfl := Option.some.inj hkept
      exact ⟨hwall, hsorted.sublist hsub, fun ts hts => hpast ts (hsub.subset hts)⟩
  | fixed o e =>
    rw [hcell] at hk
    intro s hs
    obtain ⟨old, hold, hkept⟩ := Option.bind_eq_some_iff.mp hs
    split at hkept
    · simp at hkept
    · exact Option.some.inj hkept ▸ hk old hold
  | bucket o e =>
    rw [hcell] at hk
    exact fun b hb => hk b (Option.eq_some_of_filter_eq_some hb)

end MemoryStore

/-! ## What the shield holds is used up -/

/-- A block ends with the answer's own reset time.
SOURCE: src/shield/InMemoryShield.ts:139-144 -/
def InMemoryShieldOptions.UsesResetTime (o : InMemoryShieldOptions) : Prop :=
  o.blockDurationMs = none ∨ o.blockDurationMs = some 0

/-- A shield that goes by the reset time keeps a block until then. -/
theorem InMemoryShieldOptions.UsesResetTime.blockEnd_eq {o : InMemoryShieldOptions}
    (h : o.UsesResetTime) (now : ℤ) (result : RateLimitResult) :
    blockEnd o now result = result.resetTime := by
  rcases h with h | h <;> simp [blockEnd, h]

namespace ShieldedMemory

variable {o : InMemoryShieldOptions} {t now : ℤ} {s : ShieldedMemory κ}

/-- The entries that still block, and the answers that will, left their key used up. -/
structure Sound (o : InMemoryShieldOptions) (now : ℤ) (s : ShieldedMemory κ) : Prop where
  wf : s.inner.Wf now
  blocks : ∀ k entry, s.cache.lookup k = some entry → entry.cachedResult.isBlocked = true
  cached : ∀ k entry, s.cache.lookup k = some entry → now < entry.expiresAt →
    (s.inner.cell k).SpentUntil o.blockOnConsumed entry.expiresAt
  flying : ∀ k result, (k, result) ∈ s.flights → o.blockOnConsumed ≤ result.totalHits →
    now < result.resetTime → (s.inner.cell k).SpentUntil o.blockOnConsumed result.resetTime

/-- A sound cache stays sound as time passes. -/
theorem Sound.mono (h : s.Sound o t) (ht : t ≤ now) : s.Sound o now where
  wf k := (h.wf k).mono ht
  blocks := h.blocks
  cached k entry hk hlive := h.cached k entry hk (ht.trans_lt hlive)
  flying k result hk hreached hlive := h.flying k result hk hreached (ht.trans_lt hlive)

/-- An increment of cost one under the cap that is the threshold. -/
def DefaultCall (o : InMemoryShieldOptions) (m : MemoryStore κ) :
    ShieldedOp κ → Prop
  | .increment _ options =>
    options.sanitizedCost = 1 ∧ m.capFor options = o.blockOnConsumed
  | _ => True

instance (o : InMemoryShieldOptions) (m : MemoryStore κ) :
    ∀ op : ShieldedOp κ, Decidable (DefaultCall o m op)
  | .increment _ _ => inferInstanceAs (Decidable (_ ∧ _))
  | .resume _ => isTrue trivial
  | .sweep => isTrue trivial
  | .purgeExpired => isTrue trivial

/-- The step does not reach `maxKeys` in the store behind the shield. -/
def StepFits (i : Timed (ShieldedOp κ)) (s : ShieldedMemory κ) : Prop :=
  match i.op with
  | .increment key _ => blockedAnswer i.time key s.cache = none → s.inner.Fits key
  | _ => True

instance : ∀ (i : Timed (ShieldedOp κ)) (s : ShieldedMemory κ), Decidable (s.StepFits i)
  | ⟨now, .increment key _⟩, s =>
    inferInstanceAs (Decidable (blockedAnswer now key s.cache = none → s.inner.Fits key))
  | ⟨_, .resume _⟩, _ => isTrue trivial
  | ⟨_, .sweep⟩, _ => isTrue trivial
  | ⟨_, .purgeExpired⟩, _ => isTrue trivial

/-- What is asked of the store behind the shield: nothing, or an increment. -/
theorem start_cases (now : ℤ) (key : κ) (options : RateLimitIncrementOptions)
    (s : ShieldedMemory κ) :
    (∃ entry, s.cache.lookup key = some entry ∧ now < entry.expiresAt ∧
      s.start now key options = (s, { entry.cachedResult with shielded := true })) ∨
    blockedAnswer now key s.cache = none ∧
      s.start now key options =
        (⟨(s.inner.increment now key options).1, s.cache.erase key,
          s.flights ++ [(key, (s.inner.increment now key options).2)]⟩,
          { (s.inner.increment now key options).2 with }) := by
  cases hcached : blockedAnswer now key s.cache with
  | some result =>
    obtain ⟨entry, hentry, hlive, rfl⟩ := exists_entry_of_blockedAnswer hcached
    exact Or.inl ⟨entry, hentry, hlive, by simp only [start, hcached]⟩
  | none => exact Or.inr ⟨rfl, by simp only [start, hcached]⟩

/-- Increments of the store behind the shield keep used up cells used up. -/
theorem spentUntil_increment {m : MemoryStore κ} {key k : κ}
    {options : RateLimitIncrementOptions} {cap ends : ℤ} (hwf : m.Wf now) (hfits : m.Fits key)
    (hspent : (m.cell k).SpentUntil cap ends) (hlive : now < ends) :
    ((m.increment now key options).1.cell k).SpentUntil cap ends := by
  rw [MemoryStore.cell_increment hwf.noWall hfits.hasRoom]
  split
  · next hk => exact hk ▸ hspent.increment hlive
  · exact hspent

/-- An operation that begins keeps the cache sound. -/
theorem Sound.start (h : s.Sound o now) {key : κ} {options : RateLimitIncrementOptions}
    (hcall : DefaultCall o s.inner (.increment key options))
    (hfits : blockedAnswer now key s.cache = none → s.inner.Fits key) :
    (s.start now key options).1.Sound o now := by
  rcases start_cases now key options s with ⟨entry, -, -, heq⟩ | ⟨hnone, heq⟩
  · rw [heq]
    exact h
  · rw [heq]
    have hroom := hfits hnone
    refine ⟨h.wf.increment le_rfl options, fun k entry hk => h.blocks k entry (lookup_of_erase hk),
      ?_, ?_⟩
    · intro k entry hk hlive
      exact spentUntil_increment h.wf hroom (h.cached k entry (lookup_of_erase hk) hlive) hlive
    · intro k result hmem hreached hlive
      rcases List.mem_append.mp hmem with hmem | hmem
      · exact spentUntil_increment h.wf hroom (h.flying k result hmem hreached hlive) hlive
      · obtain ⟨rfl, rfl⟩ := Prod.mk.inj (List.mem_singleton.mp hmem)
        have hanswer := @MemoryStore.increment_snd _ _ s.inner now k h.wf.noWall options
        rw [MemoryStore.cell_increment_self h.wf.noWall, hanswer]
        rw [hanswer] at hreached
        exact Cell.spentUntil_of_increment (h.wf k) hcall.1
          ((MemoryStore.capFor_cell _ _ _).trans hcall.2) hreached

/-- **Every step keeps the cache sound.** -/
theorem Sound.step (h : s.Sound o t) (hreset : o.UsesResetTime) {i : Timed (ShieldedOp κ)}
    (ht : t ≤ i.time) (hcall : DefaultCall o s.inner i.op) (hfits : s.StepFits i) :
    (s.step o i).1.Sound o i.time := by
  have h := h.mono ht
  obtain ⟨now, op⟩ := i
  cases op with
  | increment key options => exact h.start hcall hfits
  | resume n =>
    simp only [ShieldedMemory.step, resume]
    cases hget : s.flights[n]? with
    | none => exact h
    | some p =>
      obtain ⟨key, result⟩ := p
      refine ⟨h.wf, ?_, ?_, fun k r hmem => h.flying k r (List.mem_of_mem_eraseIdx hmem)⟩
      · intro k entry hk
        rcases lookup_of_afterAnswer hk with ⟨-, -, -, hblocked, -⟩ | hold
        · exact hblocked
        · exact h.blocks k entry hold
      · intro k entry hk hlive
        rcases lookup_of_afterAnswer hk with ⟨rfl, hreached, hends, -⟩ | hold
        · rw [hreset.blockEnd_eq] at hends
          rw [hends] at hlive ⊢
          exact h.flying k result (List.mem_of_getElem? hget) hreached hlive
        · exact h.cached k entry hold hlive
  | sweep =>
    exact ⟨h.wf, fun k entry hk => h.blocks k entry (lookup_of_sweep hk),
      fun k entry hk => h.cached k entry (lookup_of_sweep hk), h.flying⟩
  | purgeExpired =>
    refine ⟨h.wf.purgeExpired, h.blocks, ?_, ?_⟩
    · intro k entry hk hlive
      simp only [ShieldedMemory.step, MemoryStore.cell_purgeExpired]
      exact (h.cached k entry hk hlive).purge (h.wf k) hlive
    · intro k result hmem hreached hlive
      simp only [ShieldedMemory.step, MemoryStore.cell_purgeExpired]
      exact (h.flying k result hmem hreached hlive).purge (h.wf k) hlive

/-- No step changes the cap. -/
theorem capFor_step (i : Timed (ShieldedOp κ)) (options : RateLimitIncrementOptions) :
    (s.step o i).1.inner.capFor options = s.inner.capFor options := by
  obtain ⟨now, op⟩ := i
  cases op with
  | increment key options' =>
    rcases start_cases now key options' s with ⟨entry, -, -, heq⟩ | ⟨-, heq⟩
    · simp only [ShieldedMemory.step, heq]
    · simp only [ShieldedMemory.step, heq, MemoryStore.capFor_increment]
  | resume n =>
    simp only [ShieldedMemory.step, resume]
    split <;> rfl
  | sweep => rfl
  | purgeExpired => simp only [ShieldedMemory.step, MemoryStore.capFor_purgeExpired]

end ShieldedMemory

/-! ## Beside a bare store -/

namespace ShieldedBeside

variable {o : InMemoryShieldOptions} {t now : ℤ} {s : ShieldedBeside κ}

/-- Every key of the two stores is answered alike. -/
structure Transparent (o : InMemoryShieldOptions) (now : ℤ) (s : ShieldedBeside κ) : Prop where
  sound : s.shielded.Sound o now
  alike : ∀ k, (s.shielded.inner.cell k).Alike o.blockOnConsumed now (s.bare.cell k)

/-- Stores that the shield keeps alike stay so as time passes. -/
theorem Transparent.mono (h : s.Transparent o t) (ht : t ≤ now) : s.Transparent o now where
  sound := h.sound.mono ht
  alike k := (h.alike k).mono ht

/-- The step is one of the default configuration. -/
def DefaultOp (o : InMemoryShieldOptions) (m : MemoryStore κ) : BesideOp κ → Prop
  | .shielded op => ShieldedMemory.DefaultCall o m op
  | .purgeBare => True

instance (o : InMemoryShieldOptions) (m : MemoryStore κ) :
    ∀ op : BesideOp κ, Decidable (DefaultOp o m op)
  | .shielded op => inferInstanceAs (Decidable (ShieldedMemory.DefaultCall o m op))
  | .purgeBare => isTrue trivial

/-- The step reaches `maxKeys` in neither store. -/
def StepFits (i : Timed (BesideOp κ)) (s : ShieldedBeside κ) : Prop :=
  match i.op with
  | .shielded (.increment key options) =>
    s.shielded.StepFits ⟨i.time, .increment key options⟩ ∧ s.bare.Fits key
  | _ => True

instance : ∀ (i : Timed (BesideOp κ)) (s : ShieldedBeside κ), Decidable (s.StepFits i)
  | ⟨now, .shielded (.increment key options)⟩, s => inferInstanceAs
      (Decidable (s.shielded.StepFits ⟨now, .increment key options⟩ ∧ s.bare.Fits key))
  | ⟨_, .shielded (.resume _)⟩, _ => isTrue trivial
  | ⟨_, .shielded .sweep⟩, _ => isTrue trivial
  | ⟨_, .shielded .purgeExpired⟩, _ => isTrue trivial
  | ⟨_, .purgeBare⟩, _ => isTrue trivial

/-- A store whose cells answer like those of another has no wall expiry. -/
theorem noWall_of_alike {m m' : MemoryStore κ} {cap : ℤ}
    (h : ∀ k, (m.cell k).Alike cap now (m'.cell k)) : m'.NoWall := by
  cases m' with
  | sliding o t =>
    intro k
    have hk := h k
    generalize m.cell k = x at hk
    simp only [MemoryStore.cell] at hk
    cases hk
  | fixed o t => trivial
  | bucket o t => trivial

/-- An increment is answered alike by both stores. -/
theorem Transparent.increment (h : s.Transparent o now) {key : κ}
    {options : RateLimitIncrementOptions}
    (hcall : ShieldedMemory.DefaultCall o s.shielded.inner (.increment key options))
    (hfits : StepFits ⟨now, .shielded (.increment key options)⟩ s) :
    (s.shielded.start now key options).2.isBlocked =
        (s.bare.increment now key options).2.isBlocked ∧
      Transparent o now ⟨(s.shielded.start now key options).1,
        (s.bare.increment now key options).1⟩ := by
  have hsound := h.sound.start hcall hfits.1
  have hbare := noWall_of_alike h.alike
  have hcap := (MemoryStore.capFor_cell s.shielded.inner key options).trans hcall.2
  have hcell := fun k => @MemoryStore.cell_increment _ _ s.bare now key hbare hfits.2.hasRoom
    options k
  rw [MemoryStore.increment_snd hbare]
  rcases ShieldedMemory.start_cases now key options s.shielded with
    ⟨entry, hentry, hlive, heq⟩ | ⟨hnone, heq⟩
  · -- the store behind the shield is not asked
    obtain ⟨hblocked, halike⟩ := (h.alike key).swallow
      (h.sound.cached key entry hentry hlive) hlive hcap
    rw [heq] at hsound ⊢
    refine ⟨?_, hsound, fun k => ?_⟩
    · rw [hblocked]
      exact h.sound.blocks key entry hentry
    · simp only [hcell]
      split
      · next hk => exact hk ▸ halike
      · exact h.alike k
  · obtain ⟨hanswer, halike⟩ := (h.alike key).increment (h.sound.wf key) hcall.1 hcap
    rw [heq] at hsound ⊢
    refine ⟨?_, hsound, fun k => ?_⟩
    · simp only [MemoryStore.increment_snd h.sound.wf.noWall]
      exact hanswer
    · simp only [hcell, MemoryStore.cell_increment h.sound.wf.noWall (hfits.1 hnone).hasRoom]
      split
      · next hk => exact halike
      · exact h.alike k

/-- One step answers alike, and keeps the stores alike. -/
theorem Transparent.step (h : s.Transparent o t) (hreset : o.UsesResetTime)
    {i : Timed (BesideOp κ)} (ht : t ≤ i.time) (hop : DefaultOp o s.shielded.inner i.op)
    (hfits : s.StepFits i) :
    (∀ p ∈ (s.step o i).2, p.1.isBlocked = p.2.isBlocked) ∧
      (s.step o i).1.Transparent o i.time := by
  have h := h.mono ht
  obtain ⟨now, op⟩ := i
  cases op with
  | purgeBare =>
    refine ⟨by simp [ShieldedBeside.step], h.sound, fun k => ?_⟩
    simp only [ShieldedBeside.step, MemoryStore.cell_purgeExpired]
    exact (h.alike k).purge_right
  | shielded op =>
    have hfit : s.shielded.StepFits ⟨now, op⟩ := by
      cases op with
      | increment key options => exact hfits.1
      | resume n => trivial
      | sweep => trivial
      | purgeExpired => trivial
    have hsound := h.sound.step (i := ⟨now, op⟩) hreset le_rfl hop hfit
    cases op with
    | increment key options =>
      obtain ⟨hanswer, hnext⟩ := h.increment hop hfits
      refine ⟨?_, hnext⟩
      rintro _ ⟨⟩
      exact hanswer
    | resume n =>
      refine ⟨by simp [ShieldedBeside.step], hsound, fun k => ?_⟩
      simp only [ShieldedBeside.step, ShieldedMemory.step, ShieldedMemory.resume]
      split <;> exact h.alike k
    | sweep => exact ⟨by simp [ShieldedBeside.step], hsound, h.alike⟩
    | purgeExpired =>
      refine ⟨by simp [ShieldedBeside.step], hsound, fun k => ?_⟩
      simp only [ShieldedBeside.step, ShieldedMemory.step, MemoryStore.cell_purgeExpired]
      exact (h.alike k).purge_left

end ShieldedBeside

/-- A new store that is not a sliding window is alike itself. -/
theorem transparent_new {m : MemoryStore κ} (hnew : m.IsNew) (hkind : ¬ m.IsSliding)
    (o : InMemoryShieldOptions) (t : ℤ) : ShieldedBeside.Transparent o t ⟨{ inner := m }, m⟩ where
  sound :=
    { wf := hnew.wf t
      blocks := by simp
      cached := by simp
      flying := by simp }
  alike k := by
    cases m with
    | sliding o table => exact absurd trivial hkind
    | fixed o table =>
      obtain ⟨maxKeys, rfl⟩ := hnew
      exact .fixed o Option.Rel.none
    | bucket o table =>
      obtain ⟨maxKeys, rfl⟩ := hnew
      exact .bucket o (by simp)

/-! ## What a shielded sliding window allows -/

namespace ShieldedMemory

/-- What the shield answers without asking the store, the store would have blocked. -/
def RejectsSoundly (i : Timed (ShieldedOp κ)) (s : ShieldedMemory κ) : Prop :=
  match i.op with
  | .increment key options =>
    (s.start i.time key options).2.shielded = true →
      (s.inner.increment i.time key options).2.isBlocked = true
  | _ => True

/-- The hit of `k` that a step allows. -/
def allowedOf (k : κ) : Timed (ShieldedOp κ) × Option ShieldedResult → Option Hit
  | (⟨now, .increment key options⟩, some r) =>
    if key = k ∧ r.isBlocked = false then some ⟨now, options.sanitizedCost⟩ else none
  | _ => none

/-- The hits of `k` that are allowed. -/
def allowed (k : κ) (is : List (Timed (ShieldedOp κ))) (rs : List (Option ShieldedResult)) :
    List Hit := (is.zip rs).filterMap (allowedOf k)

/-- The hit of `k` that a step asks the store for, and whether it is allowed. -/
def askedOf (k : κ) : Timed (ShieldedOp κ) × Option ShieldedResult → Option (Hit × Bool)
  | (⟨now, .increment key options⟩, some r) =>
    if key = k ∧ r.shielded = false then some (⟨now, options.sanitizedCost⟩, !r.isBlocked) else none
  | _ => none

/-- The hits of `k` that the store is asked for. -/
def asked (k : κ) (is : List (Timed (ShieldedOp κ))) (rs : List (Option ShieldedResult)) :
    List (Hit × Bool) := (is.zip rs).filterMap (askedOf k)

variable {o : InMemoryShieldOptions} {t now : ℤ} {s : ShieldedMemory κ} {k : κ}
  {i : Timed (ShieldedOp κ)} {is : List (Timed (ShieldedOp κ))}

/-- A sound cache rejects only what the store would block. -/
theorem Sound.rejectsSoundly (h : s.Sound o t) (ht : t ≤ i.time)
    (hcall : DefaultCall o s.inner i.op) : s.RejectsSoundly i := by
  have h := h.mono ht
  obtain ⟨now, op⟩ := i
  cases op with
  | increment key options =>
    intro hshielded
    rcases start_cases now key options s with ⟨entry, hentry, hlive, -⟩ | ⟨-, heq⟩
    · rw [MemoryStore.increment_snd h.wf.noWall]
      exact (h.cached key entry hentry hlive).isBlocked hlive
        ((MemoryStore.capFor_cell _ _ _).trans hcall.2)
    · simp [heq] at hshielded
  | resume n => trivial
  | sweep => trivial
  | purgeExpired => trivial

/-- The allowed hits of a run are those of its first step and those after it. -/
theorem allowed_cons (r : Option ShieldedResult) (rs : List (Option ShieldedResult)) :
    allowed k (i :: is) (r :: rs) = (allowedOf k (i, r)).toList ++ allowed k is rs := by
  simp only [allowed, List.zip_cons_cons, List.filterMap_cons]
  cases allowedOf k (i, r) <;> rfl

/-- So are the hits that were asked for. -/
theorem asked_cons (r : Option ShieldedResult) (rs : List (Option ShieldedResult)) :
    asked k (i :: is) (r :: rs) = (askedOf k (i, r)).toList ++ asked k is rs := by
  simp only [asked, List.zip_cons_cons, List.filterMap_cons]
  cases askedOf k (i, r) <;> rfl

/-- Of the hits that the store is asked for, those it admits are allowed. -/
theorem allowedOf_of_asked {key : κ} {options : RateLimitIncrementOptions} {r : ShieldedResult}
    (h : r.shielded = false) :
    (allowedOf k (⟨now, .increment key options⟩, some r)).toList =
      Hit.admitted (askedOf k (⟨now, .increment key options⟩, some r)).toList := by
  by_cases hk : key = k
  · cases hblocked : r.isBlocked <;> simp [allowedOf, askedOf, h, hk, hblocked]
  · simp [allowedOf, askedOf, hk]

/-- A hit is asked for at the time of its step. -/
theorem time_of_askedOf {r : Option ShieldedResult} {p : Hit × Bool}
    (h : askedOf k (i, r) = some p) : p.1.time = i.time := by
  obtain ⟨now, op⟩ := i
  cases op with
  | increment key options =>
    cases r with
    | none => simp [askedOf] at h
    | some r =>
      simp only [askedOf] at h
      split at h
      · rw [← Option.some.inj h]
      · simp at h
  | resume n => simp [askedOf] at h
  | sweep => simp [askedOf] at h
  | purgeExpired => simp [askedOf] at h

/-- The hits that are asked for are in time order. -/
theorem orderedFrom_asked (k : κ) (hord : OrderedFrom Timed.time t is)
    (rs : List (Option ShieldedResult)) :
    OrderedFrom (fun p : Hit × Bool => p.1.time) t (asked k is rs) := by
  induction is generalizing t rs with
  | nil => trivial
  | cons i is ih =>
    cases rs with
    | nil => trivial
    | cons r rs =>
      rw [asked_cons]
      cases hc : askedOf k (i, r) with
      | none => exact (ih hord.2 rs).mono hord.1
      | some p =>
        have hp := time_of_askedOf hc
        exact ⟨hord.1.trans_eq hp.symm, (ih hord.2 rs).mono hp.le⟩

/-- The store behind the shield is a sliding window whose stamps of `k` are the hits it was
asked for. -/
structure Logs (o : InMemoryShieldOptions) (w : WindowOptions) (k : κ) (t : ℤ) (hits : List Hit)
    (s : ShieldedMemory κ) : Prop where
  sound : s.Sound o t
  log : ∃ table, s.inner = .sliding w table ∧ SlidingMatches w t (table.state.lookup k) hits

/-- One step appends to the log the hit it asks for, and allows it only while it fits its
window. -/
theorem Logs.step {w : WindowOptions} {hits : List Hit} (h : s.Logs o w k t hits)
    (hreset : o.UsesResetTime) (ht : t ≤ i.time) (hcall : DefaultCall o s.inner i.op)
    (hfits : s.StepFits i) :
    (allowedOf k (i, (s.step o i).2)).toList =
        Hit.admitted (askedOf k (i, (s.step o i).2)).toList ∧
      (∀ p ∈ askedOf k (i, (s.step o i).2), p.2 = true →
        (Hit.windowCost (p.1.time - w.windowMs) p.1.time (hits ++ [p.1]) : ℤ) ≤
          o.blockOnConsumed) ∧
      (s.step o i).1.Logs o w k i.time
        (hits ++ (askedOf k (i, (s.step o i).2)).toList.map Prod.fst) := by
  have hsound := h.sound.step hreset ht hcall hfits
  obtain ⟨table, hinner, hmatch⟩ := h.log
  obtain ⟨now, op⟩ := i
  have hkeep : SlidingMatches w now (table.state.lookup k) hits := hmatch.mono ht
  cases op with
  | increment key options =>
    simp only [ShieldedMemory.step] at hsound ⊢
    rcases start_cases now key options s with ⟨entry, hentry, -, heq⟩ | ⟨hnone, heq⟩
    · have hblocked := h.sound.blocks key entry hentry
      simp only [heq] at hsound ⊢
      simp only [allowedOf, askedOf, hblocked]
      refine ⟨by simp, by simp, hsound, table, hinner, by simpa using hkeep⟩
    · have hroom : (MemoryStore.sliding w table).HasRoom key := hinner ▸ (hfits hnone).hasRoom
      have hwall : (MemoryStore.sliding w table).NoWall := hinner ▸ h.sound.wf.noWall
      have hcost := options.one_le_sanitizedCost
      simp only [heq] at hsound ⊢
      simp only [hinner] at hsound hcall ⊢
      refine ⟨allowedOf_of_asked rfl, ?_⟩
      simp only [askedOf, MemoryStore.increment] at hsound ⊢
      by_cases hk : key = k
      · subst hk
        have hnew := hmatch.increment ht hcost
        have hself := lookup_incrementSliding w now key key table options.maxRequests
          options.sanitizedCost (hwall key) hroom
        have hanswer := incrementSliding_snd w now key table options.maxRequests
          options.sanitizedCost (hwall key)
        rw [if_pos rfl] at hself
        refine ⟨?_, hsound, _, rfl, ?_⟩
        · intro p hp hok
          simp only [and_self, if_true, Option.mem_some_iff] at hp
          subst hp
          have hlen := length_live_eq (o := w) hnew.past
          rw [← hmatch.trimmed_eq ht] at hlen
          have hcap := hcall.2
          simp only [MemoryStore.capFor] at hcap
          simp only [hanswer, RateLimitResult.isBlocked_ofUsage, Bool.not_eq_true',
            decide_eq_false_iff_not, not_lt, hlen, liveCost] at hok
          rw [← hcap]
          exact hok
        · rw [hself]
          simpa using hnew
      · have hother := lookup_incrementSliding w now key k table options.maxRequests
          options.sanitizedCost (hwall key) hroom
        rw [if_neg fun hkk => hk hkk.symm] at hother
        simp only [hk, false_and, if_false]
        refine ⟨by simp, hsound, _, rfl, ?_⟩
        rw [hother]
        simpa using hkeep
  | resume n =>
    refine ⟨rfl, by simp [askedOf], hsound, table, ?_, by simpa [askedOf] using hkeep⟩
    simp only [ShieldedMemory.step, resume]
    split <;> exact hinner
  | sweep =>
    exact ⟨rfl, by simp [askedOf], hsound, table, hinner, by simpa [askedOf] using hkeep⟩
  | purgeExpired =>
    refine ⟨rfl, by simp [askedOf], hsound, purgeSliding w now table, ?_, ?_⟩
    · simp only [ShieldedMemory.step, hinner, MemoryStore.purgeExpired]
    · simpa [askedOf] using hmatch.of_stamps ht
        (stampsOf_purgeSliding w now k table hmatch.wall)
        (wall_purgeSliding w now k table hmatch.wall)

/-- Whether a call is a default one depends on the cap alone. -/
theorem DefaultCall.congr {m m' : MemoryStore κ} {op : ShieldedOp κ} (h : DefaultCall o m op)
    (hcap : ∀ options, m'.capFor options = m.capFor options) : DefaultCall o m' op := by
  cases op with
  | increment key options => exact ⟨h.1, (hcap options).trans h.2⟩
  | resume n => trivial
  | sweep => trivial
  | purgeExpired => trivial

/-- Over a run the hits that are allowed are those the log admits. -/
theorem Logs.run {w : WindowOptions} {hits : List Hit} {m : MemoryStore κ}
    (h : s.Logs o w k t hits) (hcap : ∀ options, m.capFor options = s.inner.capFor options)
    (hreset : o.UsesResetTime) (hord : OrderedFrom Timed.time t is)
    (hcalls : ∀ i ∈ is, DefaultCall o m i.op) (hfits : Guarded StepFits (ShieldedMemory.step o) is s) :
    allowed k is (outputs (ShieldedMemory.step o) is s) =
        Hit.admitted (asked k is (outputs (ShieldedMemory.step o) is s)) ∧
      Hit.AdmittedWithin w.windowMs o.blockOnConsumed.toNat hits
        (asked k is (outputs (ShieldedMemory.step o) is s)) := by
  induction is generalizing s t hits with
  | nil => exact ⟨rfl, trivial⟩
  | cons i is ih =>
    have hcall := (hcalls i List.mem_cons_self).congr fun options => (hcap options).symm
    obtain ⟨hallowed, hadmits, hnext⟩ := h.step hreset hord.1 hcall hfits.1
    obtain ⟨hrest, hwithin⟩ := ih hnext (fun options => (hcap options).trans
      (capFor_step i options).symm) hord.2 (fun j hj => hcalls j (List.mem_cons_of_mem i hj)) hfits.2
    rw [outputs_cons, allowed_cons, asked_cons, hallowed, hrest]
    cases hasked : askedOf k (i, (s.step o i).2) with
    | none =>
      simp only [hasked, Option.toList_none, List.map_nil, List.append_nil] at hwithin
      exact ⟨rfl, hwithin⟩
    | some p =>
      obtain ⟨hit, ok⟩ := p
      simp only [hasked, Option.toList_some, List.map_cons, List.map_nil] at hwithin
      refine ⟨?_, ?_, hwithin⟩
      · cases ok <;> rfl
      · intro hok
        have hle := hadmits _ hasked hok
        have hone := o.one_le_blockOnConsumed
        simp only at hle
        omega

end ShieldedMemory

/-! ## Main results -/

/-- **The default shield is transparent.**  In front of a new `MemoryStore`, with the store's
cap as its threshold and requests of cost one, in any order of increments, continuations,
sweeps and purges, `maxKeys` never reached: over fixed windows and token buckets every
increment is blocked exactly when a bare store blocks it; over sliding windows the store
would block what the shield answers, and in no window is more allowed than the cap.
SOURCE: src/shield/InMemoryShield.ts:100-169, src/stores/memory-store.ts:795-826, 869-960 -/
theorem shield_transparent (o : InMemoryShieldOptions) (hreset : o.UsesResetTime)
    (m : MemoryStore κ) (hnew : m.IsNew) (t₀ : ℤ) :
    (¬ m.IsSliding → ∀ is : List (Timed (BesideOp κ)), OrderedFrom Timed.time t₀ is →
      (∀ i ∈ is, ShieldedBeside.DefaultOp o m i.op) →
      Guarded ShieldedBeside.StepFits (ShieldedBeside.step o) is ⟨{ inner := m }, m⟩ →
      ∀ answers ∈ outputs (ShieldedBeside.step o) is ⟨{ inner := m }, m⟩, ∀ p ∈ answers,
        p.1.isBlocked = p.2.isBlocked) ∧
    (∀ (w : WindowOptions) (table : KeyTable κ SlidingKeyState), m = .sliding w table →
      ∀ is : List (Timed (ShieldedOp κ)), OrderedFrom Timed.time t₀ is →
        (∀ i ∈ is, ShieldedMemory.DefaultCall o m i.op) →
        Guarded ShieldedMemory.StepFits (ShieldedMemory.step o) is { inner := m } →
        Guarded ShieldedMemory.RejectsSoundly (ShieldedMemory.step o) is { inner := m } ∧
          ∀ (k : κ) (t : ℤ), (Hit.windowCost (t - w.windowMs) t (ShieldedMemory.allowed k is
            (outputs (ShieldedMemory.step o) is { inner := m })) : ℤ) ≤ o.blockOnConsumed) := by
  constructor
  · intro hkind is hord hops hfits
    have hstep : ∀ t (s : ShieldedBeside κ) (i : Timed (BesideOp κ)),
        (s.Transparent o t ∧ ∀ options, s.shielded.inner.capFor options = m.capFor options) →
        t ≤ i.time → s.StepFits i ∧ ShieldedBeside.DefaultOp o m i.op →
        (∀ p ∈ (s.step o i).2, p.1.isBlocked = p.2.isBlocked) ∧
          (s.step o i).1.Transparent o i.time ∧
            ∀ options, (s.step o i).1.shielded.inner.capFor options = m.capFor options := by
      rintro t s ⟨now, op⟩ ⟨h, hcap⟩ ht ⟨hfit, hop⟩
      cases op with
      | purgeBare =>
        obtain ⟨hanswers, hnext⟩ := h.step (i := ⟨now, .purgeBare⟩) hreset ht trivial hfit
        exact ⟨hanswers, hnext, hcap⟩
      | shielded op =>
        obtain ⟨hanswers, hnext⟩ := h.step (i := ⟨now, .shielded op⟩) hreset ht
          (ShieldedMemory.DefaultCall.congr hop hcap) hfit
        refine ⟨hanswers, hnext, fun options => ?_⟩
        have hsame : (s.step o ⟨now, .shielded op⟩).1.shielded =
            (s.shielded.step o ⟨now, op⟩).1 := by cases op <;> rfl
        rw [hsame, ShieldedMemory.capFor_step, hcap]
    rw [forall_outputs_iff]
    exact guarded_of_inv hstep ⟨transparent_new hnew hkind o t₀, fun _ => rfl⟩ hord
      (hfits.and_mem hops)
  · rintro w table rfl is hord hcalls hfits
    have hsound : (ShieldedMemory.Sound o t₀ { inner := .sliding w table : ShieldedMemory κ }) :=
      { wf := hnew.wf t₀
        blocks := by simp
        cached := by simp
        flying := by simp }
    obtain ⟨maxKeys, rfl⟩ := hnew
    constructor
    · have hstep : ∀ t (s : ShieldedMemory κ) (i : Timed (ShieldedOp κ)),
          (s.Sound o t ∧ ∀ options, s.inner.capFor options =
            (MemoryStore.sliding w (KeyTable.new maxKeys) : MemoryStore κ).capFor options) →
          t ≤ i.time → s.StepFits i ∧
            ShieldedMemory.DefaultCall o (.sliding w (KeyTable.new maxKeys)) i.op →
          s.RejectsSoundly i ∧ (s.step o i).1.Sound o i.time ∧
            ∀ options, (s.step o i).1.inner.capFor options =
              (MemoryStore.sliding w (KeyTable.new maxKeys) : MemoryStore κ).capFor options := by
        rintro t s i ⟨h, hcap⟩ ht ⟨hfit, hcall⟩
        have hcall := hcall.congr hcap
        exact ⟨h.rejectsSoundly ht hcall, h.step hreset ht hcall hfit,
          fun options => (ShieldedMemory.capFor_step i options).trans (hcap options)⟩
      exact guarded_of_inv hstep ⟨hsound, fun _ => rfl⟩ hord (hfits.and_mem hcalls)
    · intro k t
      have hlogs : ShieldedMemory.Logs o w k t₀ [] { inner := .sliding w (KeyTable.new maxKeys) } :=
        ⟨hsound, _, rfl, slidingMatches_nil w t₀⟩
      obtain ⟨hallowed, hwithin⟩ := hlogs.run (fun _ => rfl) hreset hord hcalls hfits
      have hle := Hit.admitted_window_le (by simp)
        (ShieldedMemory.orderedFrom_asked k hord _) hwithin t
      have hone := o.one_le_blockOnConsumed
      rw [hallowed]
      omega

/-- Two hits within a window of a second and one after it, and a purge of the bare store. -/
def hitsAndPurge : List (Timed (BesideOp ℕ)) :=
  [⟨0, .shielded (.increment 7 {})⟩, ⟨0, .shielded (.resume 0)⟩,
    ⟨200, .shielded (.increment 7 {})⟩, ⟨1000, .purgeBare⟩, ⟨1000, .shielded (.increment 7 {})⟩]

/-- The same hits, and a sweep. -/
def hitsAndSweep : List (Timed (ShieldedOp ℕ)) :=
  [⟨0, .increment 7 {}⟩, ⟨0, .resume 0⟩, ⟨200, .increment 7 {}⟩, ⟨1000, .sweep⟩,
    ⟨1000, .increment 7 {}⟩]

/-- A fixed window behind a shield beside a bare one, and a sliding window behind a shield. -/
theorem shield_transparent_hits :
    (∀ answers ∈ outputs (ShieldedBeside.step atFirstHit) hitsAndPurge
        ⟨{ inner := .fixed oneASecond (KeyTable.new 0) }, .fixed oneASecond (KeyTable.new 0)⟩,
      ∀ p ∈ answers, p.1.isBlocked = p.2.isBlocked) ∧
    ∀ t : ℤ, (Hit.windowCost (t - 1000) t (ShieldedMemory.allowed 7 hitsAndSweep
      (outputs (ShieldedMemory.step atFirstHit) hitsAndSweep
        { inner := .sliding oneASecond (KeyTable.new 0) })) : ℤ) ≤ 1 :=
  ⟨(shield_transparent atFirstHit (Or.inl rfl) (.fixed oneASecond (KeyTable.new 0)) ⟨0, rfl⟩ 0).1
      (fun h => h) hitsAndPurge (by decide +kernel) (by decide +kernel) (by decide +kernel),
    ((shield_transparent atFirstHit (Or.inl rfl) (.sliding oneASecond (KeyTable.new 0)) ⟨0, rfl⟩
      0).2 oneASecond _ rfl hitsAndSweep (by decide +kernel) (by decide +kernel)
      (by decide +kernel)).2 7⟩

end RatelimitFlex
