import RatelimitFlex.Program.MemoryStore
import RatelimitFlex.Program.RateLimitEngine

/-!
# An engine over one `MemoryStore`

The store behind the engine's store interface, with the clock it reads, and the options of
an engine that has this one store.  A `MemoryStore` operation never rejects.
-/

set_option autoImplicit false

namespace RatelimitFlex

open Library

variable {ρ κ : Type} [DecidableEq κ]

/-- The store and what `Date.now()` answers. -/
structure MemoryWorld (κ : Type) [DecidableEq κ] where
  store : MemoryStore κ
  now : ℤ

/-- SOURCE: src/stores/memory-store.ts:304-349 -/
def memoryBackend : RateLimitStore (MemoryWorld κ) κ where
  increment key options s :=
    let r := s.store.increment s.now key options
    (.ok r.2, { s with store := r.1 })
  decrement key options s := { s with store := s.store.decrement key options }

/-- The options an application gives an engine that has one store and no key manager. -/
structure MemoryEngineConfig (ρ κ : Type) where
  strategy : RateLimitStrategy
  maxRequests : Option (Setting ρ) := none
  bucketSize : ℤ := 0
  incrementCost : Option (Setting ρ) := none
  skip : ρ → Bool := fun _ => false
  allowlist : List κ := []
  blocklist : List κ := []
  penaltyBox : Option PenaltyBoxOptions := none
  draft : Bool := false
  skipFailedRequests : Bool := false
  skipSuccessfulRequests : Bool := false
  onDraftViolation : Option (ρ → RateLimitResult → Except StoreError Unit) := none
  onLimitReached : Option (ρ → RateLimitResult → Except StoreError Unit) := none

/-- The engine's options. -/
def MemoryEngineConfig.options (c : MemoryEngineConfig ρ κ) :
    RateLimitOptions ρ (MemoryWorld κ) κ where
  clock := MemoryWorld.now
  store := memoryBackend
  strategy := c.strategy
  maxRequests := c.maxRequests
  bucketSize := c.bucketSize
  incrementCost := c.incrementCost
  skip := c.skip
  allowlist := c.allowlist
  blocklist := c.blocklist
  penaltyBox := c.penaltyBox
  draft := c.draft
  skipFailedRequests := c.skipFailedRequests
  skipSuccessfulRequests := c.skipSuccessfulRequests
  onDraftViolation := c.onDraftViolation
  onLimitReached := c.onLimitReached

/-! ## The parts of a consume -/

section Consume

variable (c : MemoryEngineConfig ρ κ) (key : κ) (req : ρ)

/-- Without a key manager the policy checks leave the stores alone. -/
theorem stores_policyResult {σ : Type} (o : RateLimitOptions ρ σ κ) (h : o.keyManager = none)
    (w : World σ κ) : (policyResult o key req w).2.stores = w.stores := by
  simp only [policyResult, h]
  split
  · rfl
  · split
    · rfl
    · split
      · rfl
      · split <;> rfl

/-- Without a key manager a request that policy decides is not a draft violation. -/
theorem draftWouldBlock_policyResult {σ : Type} (o : RateLimitOptions ρ σ κ)
    (h : o.keyManager = none) (w : World σ κ) :
    ∀ r, (policyResult o key req w).1 = some r → r.draftWouldBlock = false := by
  intro r hr
  simp only [policyResult, h] at hr
  split at hr
  · obtain rfl := Option.some.inj hr
    rfl
  · split at hr
    · obtain rfl := Option.some.inj hr
      rfl
    · split at hr
      · obtain rfl := Option.some.inj hr
        rfl
      · split at hr
        · obtain rfl := Option.some.inj hr
          rfl
        · simp at hr

/-- The increment of the one store. -/
theorem incrementStores_memory (inc : RateLimitIncrementOptions) (s : MemoryWorld κ) :
    incrementStores c.options key inc s =
      (.ok { result := (s.store.increment s.now key inc).2
             bindingSlotIndex := bindingSlotIndexForComposedResult c.options
               (s.store.increment s.now key inc).2 },
        { s with store := (s.store.increment s.now key inc).1 }) := by
  simp only [incrementStores, MemoryEngineConfig.options, ne_eq, not_true_eq_false, and_false,
    if_false]
  rfl

/-- The draft rollback is one decrement. -/
theorem rollbackDraft_memory (dec : RateLimitDecrementOptions) (g : IncrementOutcome)
    (s : MemoryWorld κ) :
    rollbackDraft c.options key dec g s =
      (.ok (), { s with store := s.store.decrement key dec }) := by
  simp only [rollbackDraft, MemoryEngineConfig.options, ne_eq, not_true_eq_false, and_false,
    if_false]
  rfl

/-- The decrement that matches an increment gives back the same cost. -/
theorem sanitizedCost_matchingDecrementOptions (inc : RateLimitIncrementOptions) :
    (matchingDecrementOptions inc).sanitizedCost = inc.sanitizedCost :=
  sanitizeAtLeast_ofInt 1 (one_le_sanitizeIncrementCost inc.cost)
    (sanitizeAtLeast_le inc.cost (by decide))

/-- A matching decrement takes the oldest hits. -/
theorem removeNewest_matchingDecrementOptions (inc : RateLimitIncrementOptions) :
    (matchingDecrementOptions inc).removeNewest = false := rfl

/-- What the continuation of a consume does to the store: a draft rollback is one
decrement, anything else leaves the store alone. -/
theorem settle_memory (g : IncrementOutcome) (w : World (MemoryWorld κ) κ) :
    ((g.result.isBlocked && c.draft && !g.result.storeUnavailable) = true ∧
      ∃ res w', settle c.options key req g w = (res, w') ∧
        w'.stores = { w.stores with
          store := w.stores.store.decrement key
            (matchingDecrementOptions (resolveIncrementOpts c.options req)) } ∧
        ∀ r, res = .ok r → r.draftWouldBlock = true ∧ r.isBlocked = false) ∨
    ((g.result.isBlocked && c.draft && !g.result.storeUnavailable) = false ∧
      ∃ res w', settle c.options key req g w = (res, w') ∧ w'.stores = w.stores ∧
        (∀ r, res = .ok r → r.draftWouldBlock = false ∧ r.isBlocked = g.result.isBlocked) ∧
        (c.onLimitReached = none → ∃ r, res = .ok r)) := by
  simp only [settle]
  split
  · next hb =>
    left
    refine ⟨hb, ?_⟩
    simp only [rollbackDraft_memory]
    cases callHook c.options.onDraftViolation req g.result with
    | error e => exact ⟨_, _, rfl, rfl, by simp⟩
    | ok _ =>
      refine ⟨_, _, rfl, rfl, fun r hr => ?_⟩
      obtain rfl := Except.ok.inj hr
      exact ⟨rfl, rfl⟩
  · next hb =>
    right
    refine ⟨Bool.not_eq_true _ ▸ hb, ?_⟩
    split
    · have hlayers : maybeOnLayerBlocks c.options req g.result = .ok () := rfl
      simp only [hlayers]
      cases hhook : callHook c.options.onLimitReached req g.result with
      | error e =>
        refine ⟨_, _, rfl, rfl, by simp, fun hnone => ?_⟩
        simp [MemoryEngineConfig.options, hnone, callHook] at hhook
      | ok _ =>
        refine ⟨_, _, rfl, rfl, fun r hr => ?_, fun _ => ⟨_, rfl⟩⟩
        obtain rfl := Except.ok.inj hr
        exact ⟨rfl, rfl⟩
    · refine ⟨_, _, rfl, rfl, fun r hr => ?_, fun _ => ⟨_, rfl⟩⟩
      obtain rfl := Except.ok.inj hr
      exact ⟨rfl, rfl⟩

/-- A request as the store sees it, with what the engine adds to it: whether a blocked
increment is taken back. -/
structure StoreRequest (κ : Type) where
  draft : Bool
  key : κ
  options : RateLimitIncrementOptions

/-- The increment of a request and, in draft mode, the rollback when it was blocked; the
answer is whether it was.
SOURCE: src/strategies/rate-limit-engine.ts:309-347 -/
def requestStep (i : Timed (StoreRequest κ)) (s : MemoryStore κ) : MemoryStore κ × Bool :=
  let r := s.increment i.time i.op.key i.op.options
  (if r.2.isBlocked && i.op.draft then
      r.1.decrement i.op.key (matchingDecrementOptions i.op.options)
    else r.1, r.2.isBlocked)

/-- The request evicts no other key. -/
def RequestHasRoom (i : Timed (StoreRequest κ)) (s : MemoryStore κ) : Prop :=
  s.HasRoom i.op.key

/-- A `MemoryStore` never reports itself unavailable. -/
theorem storeUnavailable_increment (s : MemoryStore κ) (now : ℤ)
    (options : RateLimitIncrementOptions) :
    (s.increment now key options).2.storeUnavailable = false := by
  cases s with
  | sliding o t => rfl
  | fixed o t =>
    simp only [MemoryStore.increment, incrementFixed]
    split <;> rfl
  | bucket o t =>
    simp only [MemoryStore.increment, incrementTokenBucket]
    split <;> split <;> rfl

/-- **A consume that policy leaves to the store is one request to it.** -/
theorem consumeWithKey_memory {c : MemoryEngineConfig ρ κ} {key : κ} {req : ρ}
    {w w₁ : World (MemoryWorld κ) κ} (hpol : policyResult c.options key req w = (none, w₁)) :
    let i : Timed (StoreRequest κ) :=
      ⟨w.stores.now, ⟨c.draft, key, resolveIncrementOpts c.options req⟩⟩
    ∃ res w', consumeWithKey c.options key req w = (res, w') ∧
      w'.stores = { w.stores with store := (requestStep i w.stores.store).1 } ∧
      ∀ r, res = .ok r →
        r.draftWouldBlock = ((requestStep i w.stores.store).2 && c.draft) ∧
        (r.isBlocked || r.draftWouldBlock) = (requestStep i w.stores.store).2 := by
  have hstores := stores_policyResult key req c.options rfl w
  rw [hpol] at hstores
  have hun := storeUnavailable_increment key w.stores.store w.stores.now
    (resolveIncrementOpts c.options req)
  simp only [consumeWithKey, arrive, hpol, incrementStores_memory, requestStep]
  rw [show w₁.stores = w.stores from hstores]
  rcases settle_memory c key req
      { result := (w.stores.store.increment w.stores.now key (resolveIncrementOpts c.options req)).2
        bindingSlotIndex := bindingSlotIndexForComposedResult c.options
          (w.stores.store.increment w.stores.now key (resolveIncrementOpts c.options req)).2 }
      { w₁ with stores := { w.stores with store :=
        (w.stores.store.increment w.stores.now key (resolveIncrementOpts c.options req)).1 } } with
    ⟨hb, res, w', hs, hw, hr⟩ | ⟨hb, res, w', hs, hw, hr, -⟩
  · simp only [hun, Bool.not_false, Bool.and_true] at hb
    refine ⟨res, w', hs, ?_, fun r hres => ?_⟩
    · simp only [hw, hb, if_true]
    · obtain ⟨hd, hnb⟩ := hr r hres
      rw [Bool.and_eq_true] at hb
      simp [hd, hnb, hb.1, hb.2]
  · simp only [hun, Bool.not_false, Bool.and_true] at hb
    refine ⟨res, w', hs, ?_, fun r hres => ?_⟩
    · simp only [hw, hb, Bool.false_eq_true, if_false]
    · obtain ⟨hd, hnb⟩ := hr r hres
      simp [hd, hnb, hb]

/-- A consume that draft mode lets pass: its increment was blocked, and the store is left
as the increment and one decrement of the same cost leave it. -/
theorem consumeWithKey_draft {c : MemoryEngineConfig ρ κ} {key : κ} {req : ρ}
    {w w' : World (MemoryWorld κ) κ} {r : RateLimitConsumeResult}
    (h : consumeWithKey c.options key req w = (.ok r, w')) (hr : r.draftWouldBlock = true) :
    let inc := resolveIncrementOpts c.options req
    let s := w.stores.store.increment w.stores.now key inc
    s.2.isBlocked = true ∧ w'.stores.store = s.1.decrement key (matchingDecrementOptions inc) := by
  cases hp : policyResult c.options key req w with
  | mk out w₁ =>
    cases out with
    | some out =>
      have hdec := draftWouldBlock_policyResult key req c.options rfl w out (by rw [hp])
      simp only [consumeWithKey, arrive, hp] at h
      obtain ⟨hout, -⟩ := Prod.mk.inj h
      obtain rfl := Except.ok.inj hout
      simp [hdec] at hr
    | none =>
      obtain ⟨res, w₂, hcon, hw, hres⟩ := consumeWithKey_memory hp
      obtain ⟨rfl, rfl⟩ := Prod.mk.inj (h.symm.trans hcon)
      have hd := (hres r rfl).1
      rw [hr] at hd
      obtain ⟨hb, hdr⟩ := Bool.and_eq_true_iff.mp hd.symm
      refine ⟨hb, ?_⟩
      rw [hw]
      simp only [requestStep] at hb ⊢
      simp only [hb, hdr, Bool.and_self, if_true]

end Consume

end RatelimitFlex
