import RatelimitFlex.Analysis.StoreCells
import RatelimitFlex.Program.RedisSync
import RatelimitFlex.Program.StoreUtils

/-!
# Refills on the way

Refilling a bucket at `t₁` and then at `t₂` is refilling it at `t₂`
(`Library.Bucket.refill_refill`).  So a call that does no more to a bucket than to refill it
leaves no trace in the increments that follow (`tokenBucket_refill_path_independent`): a `get`,
a `getActiveKeys`, and a blocked increment of a key that has a bucket.  One of a new key makes
the bucket, and with it the moments at which it refills.
-/

set_option autoImplicit false

namespace RatelimitFlex

open Library

/-! ## Buckets that refill to the same -/

/-- From `t` on the two refill to the same bucket; or neither is there. -/
def SameRefills (o : TokenBucketOptions) (t : ℤ) : Option BucketEntry → Option BucketEntry → Prop
  | none, none => True
  | some b, some b' => ∀ u, t ≤ u → b.refill o u = b'.refill o u
  | none, some _ => False
  | some _, none => False

section SameRefills

variable {o : TokenBucketOptions} {t now : ℤ} {e e' : Option BucketEntry}

/-- An entry refills as itself. -/
theorem sameRefills_refl (o : TokenBucketOptions) (t : ℤ) (e : Option BucketEntry) :
    SameRefills o t e e := by
  cases e with
  | none => trivial
  | some b => exact fun _ _ => rfl

/-- Entries that refill alike do so later. -/
theorem SameRefills.mono (h : SameRefills o t e e') (ht : t ≤ now) : SameRefills o now e e' := by
  cases e with
  | none => cases e' with
    | none => trivial
    | some b' => exact h
  | some b => cases e' with
    | none => exact h
    | some b' => exact fun u hu => h u (ht.trans hu)

/-- A refill on one side. -/
theorem SameRefills.refill {b' : BucketEntry} (h : SameRefills o now e (some b')) :
    SameRefills o now e (some (b'.refill o now)) := by
  cases e with
  | none => exact h
  | some b =>
    intro u hu
    rw [Bucket.refill_refill o hu b']
    exact h u hu

/-- A request takes the same from both. -/
theorem SameRefills.request (h : SameRefills o now e e') (cost : ℕ) :
    (startBucket o now e).request o now cost = (startBucket o now e').request o now cost := by
  cases e with
  | none => cases e' with
    | none => rfl
    | some b' => exact h.elim
  | some b => cases e' with
    | none => exact h.elim
    | some b' => exact Bucket.request_congr o (h now le_rfl) cost

/-- Tokens given back before a refill are those given back after it. -/
theorem refill_credit (o : TokenBucketOptions) (now : ℤ) (b : BucketEntry) (c : ℕ) :
    Bucket.refill o now ⟨min o.bucketSize (b.tokens + c), b.lastRefill⟩ =
      ⟨min o.bucketSize ((b.refill o now).tokens + c), (b.refill o now).lastRefill⟩ := by
  have hI := o.interval_pos
  have hR := o.tokensPerInterval_pos
  by_cases hwhole : b.lastRefill + o.interval ≤ now
  · have hgain : 0 ≤ (now - b.lastRefill) / o.interval * o.tokensPerInterval :=
      mul_nonneg (Int.ediv_nonneg (by omega) (by omega)) (by omega)
    rw [Bucket.refill_of_le (b := ⟨min o.bucketSize (b.tokens + c), b.lastRefill⟩) hwhole,
      Bucket.refill_of_le hwhole]
    simp only [Bucket.mk.injEq, and_true]
    omega
  · rw [Bucket.refill_of_lt (b := ⟨min o.bucketSize (b.tokens + c), b.lastRefill⟩)
      (not_le.mp hwhole), Bucket.refill_of_lt (not_le.mp hwhole)]

/-- A decrement keeps them alike. -/
theorem SameRefills.decrement (h : SameRefills o t e e') (c : ℕ) :
    SameRefills o t (e.map fun b => ⟨min o.bucketSize (b.tokens + c), b.lastRefill⟩)
      (e'.map fun b => ⟨min o.bucketSize (b.tokens + c), b.lastRefill⟩) := by
  cases e with
  | none => cases e' with
    | none => trivial
    | some b' => exact h
  | some b => cases e' with
    | none => exact h
    | some b' =>
      intro u hu
      rw [refill_credit, refill_credit, h u hu]

/-- One is there when the other is. -/
theorem SameRefills.isSome_eq (h : SameRefills o t e e') : e.isSome = e'.isSome := by
  cases e with
  | none => cases e' with
    | none => rfl
    | some b' => exact h.elim
  | some b => cases e' with
    | none => exact h.elim
    | some b' => rfl

end SameRefills

/-! ## Runs with calls that only refill -/

variable {κ : Type} [DecidableEq κ]

/-- A call on a store.  `probe` is an operation like another, which a run may be compared
without. -/
inductive MemoryCall (κ : Type) where
  | plain (op : StoreOp κ)
  | probe (op : StoreOp κ)
  | getActiveKeys

/-- The answer to it. -/
inductive MemoryAnswer (κ : Type) where
  | reply (r : StoreReply)
  | activeKeys (entries : List (κ × ℤ))

namespace MemoryCall

/-- One call. -/
def step (i : Timed (MemoryCall κ)) (s : MemoryStore κ) : MemoryStore κ × MemoryAnswer κ :=
  match i.op with
  | .plain op => let r := MemoryStore.step ⟨i.time, op⟩ s; (r.1, .reply r.2)
  | .probe op => let r := MemoryStore.step ⟨i.time, op⟩ s; (r.1, .reply r.2)
  | .getActiveKeys => let r := s.getActiveKeys i.time; (r.1, .activeKeys r.2)

/-- A call that a run is not compared without. -/
def kept (i : Timed (MemoryCall κ)) : Bool :=
  match i.op with
  | .plain (.get _) => false
  | .plain _ => true
  | .probe _ => false
  | .getActiveKeys => false

/-- A probe is a `get`, or an increment that is blocked, of a key that has its bucket; and no
cleanup of the store runs. -/
def RefillsOnly (i : Timed (MemoryCall κ)) (s : MemoryStore κ) : Prop :=
  match i.op with
  | .plain op => op ≠ .purgeExpired
  | .probe (.get _) => True
  | .probe (.increment key options) => (s.cell key).isPresent = true ∧
      (s.increment i.time key options).2.isBlocked = true
  | .probe _ => False
  | .getActiveKeys => True

/-- Two stores of the same buckets, key by key, but for refills that have or have not been
made. -/
def StoresRefill (o : TokenBucketOptions) (t : ℤ) (s s' : MemoryStore κ) : Prop :=
  s.maxKeys = 0 ∧ s'.maxKeys = 0 ∧ ∀ k, ∃ e e', s.cell k = .bucket o e ∧
    s'.cell k = .bucket o e' ∧ SameRefills o t e e'

variable {o : TokenBucketOptions} {t now : ℤ} {s s' : MemoryStore κ}

/-- Without a cap on the keys no step reaches it. -/
theorem stepFits_of_maxKeys (h : s.maxKeys = 0) (i : Timed (StoreOp κ)) : s.StepFits i := by
  intro key _
  rw [MemoryStore.fits_iff]
  exact Or.inl h

omit [DecidableEq κ] in
/-- One operation of both, on the cell of one key. -/
theorem sameRefills_step {e e' : Option BucketEntry} (h : SameRefills o now e e')
    {op : StoreOp κ} (hop : op ≠ .purgeExpired) :
    ∃ f f', ((Cell.bucket o e).step ⟨now, op⟩).1 = .bucket o f ∧
      ((Cell.bucket o e').step ⟨now, op⟩).1 = .bucket o f' ∧ SameRefills o now f f' := by
  cases op with
  | increment key options =>
    exact ⟨_, _, rfl, rfl, by rw [h.request]; exact sameRefills_refl o now _⟩
  | decrement key options => exact ⟨_, _, rfl, rfl, h.decrement _⟩
  | get key => exact ⟨_, _, rfl, rfl, h⟩
  | set key totalHits expiresAt => exact ⟨_, _, rfl, rfl, sameRefills_refl o now _⟩
  | reset key => exact ⟨_, _, rfl, rfl, sameRefills_refl o now _⟩
  | delete key => exact ⟨_, _, rfl, rfl, sameRefills_refl o now _⟩
  | purgeExpired => exact absurd rfl hop

omit [DecidableEq κ] in
/-- The answer to it, unless it is a `get`. -/
theorem snd_cell_step {e e' : Option BucketEntry} (h : SameRefills o now e e') {op : StoreOp κ}
    (hop : op ≠ .purgeExpired) (hget : ∀ key, op ≠ .get key) :
    ((Cell.bucket o e).step ⟨now, op⟩).2 = ((Cell.bucket o e').step ⟨now, op⟩).2 := by
  cases op with
  | increment key options =>
    simp only [Cell.step, Cell.clearWall, Cell.increment, h.request]
  | decrement key options => rfl
  | get key => exact absurd rfl (hget key)
  | set key totalHits expiresAt => rfl
  | reset key => rfl
  | delete key => simp only [Cell.step, Cell.isPresent, h.isSome_eq]
  | purgeExpired => exact absurd rfl hop

/-- Both stores take the same operation. -/
theorem StoresRefill.step (h : StoresRefill o t s s') (ht : t ≤ now) {op : StoreOp κ}
    (hop : op ≠ .purgeExpired) :
    StoresRefill o now (MemoryStore.step ⟨now, op⟩ s).1 (MemoryStore.step ⟨now, op⟩ s').1 := by
  obtain ⟨hmax, hmax', hcells⟩ := h
  refine ⟨?_, ?_, ?_⟩
  · rw [MemoryStore.maxKeys_step, hmax]
  · rw [MemoryStore.maxKeys_step, hmax']
  intro k
  obtain ⟨e, e', hcell, hcell', hsame⟩ := hcells k
  replace hsame := hsame.mono ht
  rw [MemoryStore.cell_step (stepFits_of_maxKeys hmax _),
    MemoryStore.cell_step (stepFits_of_maxKeys hmax' _), hcell, hcell']
  split
  · exact sameRefills_step hsame hop
  · exact ⟨e, e', rfl, rfl, hsame⟩

/-- A probe is taken by the second store alone. -/
theorem StoresRefill.probe (h : StoresRefill o t s s') (ht : t ≤ now) {op : StoreOp κ}
    (hprobe : RefillsOnly ⟨now, .probe op⟩ s') :
    StoresRefill o now s (MemoryStore.step ⟨now, op⟩ s').1 := by
  obtain ⟨hmax, hmax', hcells⟩ := h
  refine ⟨hmax, ?_, ?_⟩
  · rw [MemoryStore.maxKeys_step, hmax']
  intro k
  obtain ⟨e, e', hcell, hcell', hsame⟩ := hcells k
  replace hsame := hsame.mono ht
  rw [MemoryStore.cell_step (stepFits_of_maxKeys hmax' _), hcell']
  cases op with
  | get key => exact ⟨e, e', hcell, by split <;> rfl, hsame⟩
  | increment key options =>
    obtain ⟨hpresent, hblocked⟩ := hprobe
    by_cases hk : key = k
    · subst hk
      rw [hcell'] at hpresent
      cases e' with
      | none => simp [Cell.isPresent] at hpresent
      | some b =>
        have hrefilled : (startBucket o now (some b)).request o now options.sanitizedCost =
            (b.refill o now, false) := by
          apply Bucket.request_of_lt
          by_contra henough
          rw [MemoryStore.increment_snd_cleared, hcell'] at hblocked
          simp only [Cell.clearWall, Cell.increment] at hblocked
          rw [Bucket.request_of_le o (not_lt.mp henough), bucketResult, if_pos rfl] at hblocked
          simp at hblocked
        refine ⟨e, some (b.refill o now), hcell, ?_, hsame.refill⟩
        simp only [StoreOp.key, or_true, if_true, Cell.step, Cell.clearWall, Cell.increment,
          hrefilled]
    · refine ⟨e, e', hcell, ?_, hsame⟩
      rw [if_neg (by simp [StoreOp.key, hk])]
  | decrement key options => exact hprobe.elim
  | set key totalHits expiresAt => exact hprobe.elim
  | reset key => exact hprobe.elim
  | delete key => exact hprobe.elim
  | purgeExpired => exact hprobe.elim

/-- A `getActiveKeys` reads the buckets. -/
theorem fst_getActiveKeys (now : ℤ) (h : StoresRefill o t s s') : (s'.getActiveKeys now).1 = s' := by
  cases s' with
  | bucket o' table => rfl
  | fixed o' table => rfl
  | sliding o' table =>
    have hkeys : table.state.keys = [] := by
      rw [List.eq_nil_iff_forall_not_mem]
      intro k _
      obtain ⟨e, e', -, hcell, -⟩ := h.2.2 k
      simp [MemoryStore.cell] at hcell
    simp only [MemoryStore.getActiveKeys, hkeys, List.foldl_nil]

/-- A kept call, in both runs. -/
theorem StoresRefill.kept {i : Timed (MemoryCall κ)} (h : StoresRefill o t s s')
    (ht : t ≤ i.time) (hkept : MemoryCall.kept i = true) (hguard : RefillsOnly i s') :
    (MemoryCall.step i s).2 = (MemoryCall.step i s').2 ∧
      StoresRefill o i.time (MemoryCall.step i s).1 (MemoryCall.step i s').1 := by
  obtain ⟨now, call⟩ := i
  cases call with
  | plain op =>
    refine ⟨?_, h.step ht hguard⟩
    have hget : ∀ key, op ≠ .get key := by
      rintro key rfl
      simp [MemoryCall.kept] at hkept
    have hsnd : (MemoryStore.step ⟨now, op⟩ s).2 = (MemoryStore.step ⟨now, op⟩ s').2 := by
      cases hkey : op.key with
      | none =>
        have hpurge : op = .purgeExpired := by
          cases op <;> simp_all [StoreOp.key]
        exact absurd hpurge hguard
      | some k =>
        obtain ⟨e, e', hcell, hcell', hsame⟩ := h.2.2 k
        rw [MemoryStore.step_snd hkey, MemoryStore.step_snd hkey, hcell, hcell']
        exact snd_cell_step (hsame.mono ht) hguard hget
    exact congrArg MemoryAnswer.reply hsnd
  | probe op => simp [MemoryCall.kept] at hkept
  | getActiveKeys => simp [MemoryCall.kept] at hkept

/-- A call that is left out, in the second run alone. -/
theorem StoresRefill.left {i : Timed (MemoryCall κ)} (h : StoresRefill o t s s')
    (ht : t ≤ i.time) (hkept : MemoryCall.kept i = false) (hguard : RefillsOnly i s') :
    StoresRefill o i.time s (MemoryCall.step i s').1 := by
  obtain ⟨now, call⟩ := i
  cases call with
  | plain op =>
    cases op with
    | get key =>
      have hread : RefillsOnly ⟨now, .probe (.get key)⟩ s' := trivial
      exact h.probe ht hread
    | increment key options => simp [MemoryCall.kept] at hkept
    | decrement key options => simp [MemoryCall.kept] at hkept
    | set key totalHits expiresAt => simp [MemoryCall.kept] at hkept
    | reset key => simp [MemoryCall.kept] at hkept
    | delete key => simp [MemoryCall.kept] at hkept
    | purgeExpired => simp [MemoryCall.kept] at hkept
  | probe op => exact h.probe ht hguard
  | getActiveKeys =>
    obtain ⟨hmax, hmax', hcells⟩ := h
    have hsame := fst_getActiveKeys now (⟨hmax, hmax', hcells⟩ : StoresRefill o t s s')
    refine ⟨hmax, ?_, ?_⟩
    · simp only [MemoryCall.step, hsame, hmax']
    · intro k
      obtain ⟨e, e', hcell, hcell', h⟩ := hcells k
      refine ⟨e, e', hcell, ?_, h.mono ht⟩
      simp only [MemoryCall.step, hsame, hcell']

end MemoryCall

/-- **Refilling is path independent.**  Refilling at `t₁` and at `t₂` is refilling at `t₂`, for
the shared helper and for that of `MemoryStore`; and in a run of a `MemoryStore` token bucket
without a cap on its keys and without cleanups, the `get` and `getActiveKeys` calls and any
probes, each an increment that is blocked of a key that has its bucket, change no answer of
the other calls.
SOURCE: src/utils/store-utils.ts:22-40, src/stores/memory-store.ts:911-987 -/
theorem tokenBucket_refill_path_independent (o : TokenBucketOptions) :
    (∀ (b : Bucket) (t₁ t₂ : ℤ), t₁ ≤ t₂ →
      refillBucketState o t₂ (refillBucketState o t₁ b) = refillBucketState o t₂ b ∧
        refillBucketStateForNow o t₂ (refillBucketStateForNow o t₁ b) =
          refillBucketStateForNow o t₂ b) ∧
      ∀ (table : KeyTable κ BucketEntry) (t : ℤ) (is : List (Timed (MemoryCall κ))),
        table.maxKeys = 0 → OrderedFrom Timed.time t is →
        Guarded MemoryCall.RefillsOnly MemoryCall.step is (.bucket o table) →
          keptOutputs MemoryCall.kept MemoryCall.step is (.bucket o table) =
            outputs MemoryCall.step (is.filter MemoryCall.kept) (.bucket o table) := by
  constructor
  · intro b t₁ t₂ ht
    exact ⟨Bucket.refill_refill o ht b, Bucket.refill_refill o ht b⟩
  · intro table t is hmax hord hguard
    have hstart : MemoryCall.StoresRefill o t (.bucket o table) (.bucket o table) :=
      ⟨hmax, hmax, fun k => ⟨_, _, rfl, rfl, sameRefills_refl o t _⟩⟩
    exact keptOutputs_eq_of_guarded_stuttering
      (fun t s s' i h (ht : t ≤ i.time) hkept hguard => h.kept ht hkept hguard)
      (fun t s s' i h (ht : t ≤ i.time) hkept hguard => h.left ht hkept hguard)
      hstart hord hguard

/-- Two of five tokens are taken, a request for six is blocked on the way, the keys are listed,
and a token is taken. -/
theorem tokenBucket_refill_path_independent_probe :
    let is : List (Timed (MemoryCall ℕ)) :=
      [⟨0, .plain (.increment 7 { cost := some 2 })⟩, ⟨1300, .probe (.increment 7 { cost := some 6 })⟩,
        ⟨1400, .getActiveKeys⟩, ⟨1500, .plain (.increment 7 {})⟩]
    keptOutputs MemoryCall.kept MemoryCall.step is (.bucket fiveAtMost (KeyTable.new 0)) =
      outputs MemoryCall.step (is.filter MemoryCall.kept) (.bucket fiveAtMost (KeyTable.new 0)) := by
  intro is
  have hguard : Guarded MemoryCall.RefillsOnly MemoryCall.step is
      (.bucket fiveAtMost (KeyTable.new 0)) := by
    refine ⟨?_, ⟨by decide +kernel, by decide +kernel⟩, trivial, ?_, trivial⟩
    · simp [MemoryCall.RefillsOnly]
    · simp [MemoryCall.RefillsOnly]
  exact (tokenBucket_refill_path_independent fiveAtMost).2 (KeyTable.new 0) 0 is rfl
    (by decide) hguard

/-- A blocked request for six of a new key makes its bucket, which then refills at 1300 and not
at 2000.  A blocked request that finds the bucket full again writes it back as full, so a cleanup
drops the bucket with it and not without it. -/
theorem blocked_increment_observable :
    let empty : MemoryStore ℕ := .bucket fiveAtMost (KeyTable.new 0)
    let six : RateLimitIncrementOptions := { cost := some 6 }
    let after (is : List (Timed (StoreOp ℕ))) : MemoryStore ℕ := final MemoryStore.step is empty
    ((empty.increment 300 7 six).2.isBlocked = true ∧
      ((after [⟨300, .increment 7 six⟩]).increment 1000 7 {}).2.resetTime = 1300 ∧
      (empty.increment 1000 7 {}).2.resetTime = 2000) ∧
    (((after [⟨0, .increment 7 {}⟩]).increment 5000 7 six).2.isBlocked = true ∧
      ((after [⟨0, .increment 7 {}⟩, ⟨5000, .increment 7 six⟩,
        ⟨15100, .purgeExpired⟩]).increment 15200 7 {}).2.resetTime = 16200 ∧
      ((after [⟨0, .increment 7 {}⟩, ⟨15100, .purgeExpired⟩]).increment 15200 7 {}).2.resetTime =
        16000) := by
  decide +kernel

end RatelimitFlex
