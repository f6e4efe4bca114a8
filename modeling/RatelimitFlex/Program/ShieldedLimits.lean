import RatelimitFlex.Program.InMemoryShield
import RatelimitFlex.Program.LimitsOptions

/-!
# `limits` behind an `InMemoryShield`

`src/middleware/merge-options.ts` with `limits` and `inMemoryBlock: true`: the composed store
of the windows stands behind a shield, whose threshold is the smallest cap and whose blocks
last for the shortest window.  The engine works on the shield; its draft rollback is a plain
decrement, as the shield has none of its own.
-/

set_option autoImplicit false

namespace RatelimitFlex

/-- The shield behind the engine's store interface.
SOURCE: src/shield/InMemoryShield.ts:84-89, 100-127, 175-178 -/
def InMemoryShield.toStore {σ κ : Type} [DecidableEq κ] (o : InMemoryShieldOptions)
    (inner : RateLimitStore σ κ) (clock : σ → ℤ) : RateLimitStore (Shielded σ κ) κ where
  increment key options s :=
    let r := InMemoryShield.increment o inner clock key options s
    (r.1.map ShieldedResult.toRateLimitResult, r.2)
  decrement := InMemoryShield.decrement inner
  isComposed := inner.isComposed

/-- A bound below all numbers is below the running minimum. -/
theorem le_foldl_min {a b : ℤ} {xs : List ℤ} (hb : a ≤ b) (h : ∀ x ∈ xs, a ≤ x) :
    a ≤ xs.foldl min b := by
  induction xs generalizing b with
  | nil => exact hb
  | cons x xs ih =>
    apply ih
    · exact le_min hb (h x List.mem_cons_self)
    · exact fun y hy => h y (List.mem_cons_of_mem x hy)

/-- It is below the minimum. -/
theorem le_minimum {a : ℤ} {xs : List ℤ} (hne : xs ≠ []) (h : ∀ x ∈ xs, a ≤ x) :
    a ≤ minimum xs := by
  cases xs with
  | nil => exact absurd rfl hne
  | cons x xs =>
    apply le_foldl_min
    · exact h x List.mem_cons_self
    · exact fun y hy => h y (List.mem_cons_of_mem x hy)

section Merged

variable {ρ τ κ : Type} [DecidableEq κ] (c : LimitsConfig ρ τ κ)

omit [DecidableEq κ] in
/-- Every cap is one at least. -/
theorem LimitsConfig.one_le_minimum_caps : 1 ≤ minimum c.caps := by
  apply le_minimum
  · exact fun h => c.limits_ne (List.map_eq_nil_iff.mp h)
  · intro x hx
    obtain ⟨e, -, rfl⟩ := List.mem_map.mp hx
    exact_mod_cast le_sanitizeAtLeast (some e.max) (by decide) (by decide : 1 ≤ 100)

omit [DecidableEq κ] in
/-- Every window is one millisecond at least. -/
theorem LimitsConfig.one_le_minimum_windows : 1 ≤ minimum c.windows := by
  apply le_minimum
  · exact fun h => c.limits_ne (List.map_eq_nil_iff.mp h)
  · intro x hx
    obtain ⟨e, -, rfl⟩ := List.mem_map.mp hx
    exact_mod_cast le_sanitizeAtLeast (some e.windowMs) (by decide) (by decide : 1 ≤ 60000)

/-- What `inMemoryBlock: true` comes to.
SOURCE: src/middleware/merge-options.ts:28-41, 247-259 -/
def LimitsConfig.shieldOptions : InMemoryShieldOptions where
  blockOnConsumed := minimum c.caps
  blockDurationMs := some (minimum c.windows)
  one_le_blockOnConsumed := c.one_le_minimum_caps
  blockDurationMs_nonneg _ hd :=
    Option.mem_some_iff.mp hd ▸ zero_le_one.trans c.one_le_minimum_windows

/-- The store of the windows. -/
abbrev LimitsConfig.composed : ComposedStore (StoreBank κ) κ :=
  (limitsToComposedStore c.limits c.limits_ne).store

/-- What the engine's shield and its key manager work on. -/
abbrev ShieldedState (τ κ : Type) [DecidableEq κ] :=
  Shielded (ComposedState (StoreBank κ) κ) κ × τ

/-- The merged options with the store wrapped.
SOURCE: src/middleware/merge-options.ts:211-268 -/
def resolveStoreWithInMemoryShield : RateLimitOptions ρ (ShieldedState τ κ) κ :=
  let resolved := mergeRateLimiterOptions c
  { clock := fun s => s.1.inner.inner.now
    store := (InMemoryShield.toStore c.shieldOptions c.composed.toStore fun st => st.inner.now).onFst
    strategy := resolved.strategy
    maxRequests := resolved.maxRequests
    limits := resolved.limits
    incrementCost := resolved.incrementCost
    skip := resolved.skip
    allowlist := resolved.allowlist
    blocklist := resolved.blocklist
    keyManager := c.keyManager.map KeyManagerView.onSnd
    penaltyBox := resolved.penaltyBox
    draft := resolved.draft
    onLayerBlock := resolved.onLayerBlock
    onDraftViolation := resolved.onDraftViolation
    onLimitReached := resolved.onLimitReached }

/-- The engine and the shield before the first request. -/
def LimitsConfig.startShielded (now : ℤ) (manager : τ) : World (ShieldedState τ κ) κ where
  engine := {}
  stores := ({ inner := { inner := limitsBank c.strategy c.limits now } }, manager)

/-- A request, when it comes and what the key manager knows by then; a decrement that the
middleware makes after a response; a store's cleanup timer; the shield's timer. -/
inductive ShieldedLimitsEvent (ρ τ κ : Type) where
  | consume (time : ℤ) (manager : τ) (key : κ) (req : ρ)
  | undo (time : ℤ) (key : κ) (options : RateLimitDecrementOptions)
  | cleanup (time : ℤ) (slot : ℕ)
  | sweep (time : ℤ)

/-- When an event comes. -/
def ShieldedLimitsEvent.time {ρ τ κ : Type} : ShieldedLimitsEvent ρ τ κ → ℤ
  | .consume time _ _ _ => time
  | .undo time _ _ => time
  | .cleanup time _ => time
  | .sweep time => time

/-- The state at another time, with the key manager in another state. -/
def ShieldedState.arriveAt (time : ℤ) (manager : τ) (s : ShieldedState τ κ) : ShieldedState τ κ :=
  ({ s.1 with inner := { s.1.inner with inner := { s.1.inner.inner with now := time } } }, manager)

/-- One event; a request has an answer. -/
def shieldedLimitsStep : ShieldedLimitsEvent ρ τ κ → World (ShieldedState τ κ) κ →
    World (ShieldedState τ κ) κ × Option (Except StoreError RateLimitConsumeResult)
  | .consume time manager key req, w =>
    let r := consumeWithKey (resolveStoreWithInMemoryShield c) key req
      { w with stores := ShieldedState.arriveAt time manager w.stores }
    (r.2, some r.1)
  | .undo _ key options, w =>
    ({ w with stores :=
        (InMemoryShield.decrement c.composed.toStore key options w.stores.1, w.stores.2) }, none)
  | .cleanup time slot, w =>
    let bank := w.stores.1.inner.inner
    ({ w with stores := ({ w.stores.1 with inner := { w.stores.1.inner with
        inner := bank.put slot ((bank.stores slot).purgeExpired time) } }, w.stores.2) }, none)
  | .sweep time, w =>
    ({ w with stores := ({ w.stores.1 with
        cache := InMemoryShield.sweep time w.stores.1.cache }, w.stores.2) }, none)

end Merged

end RatelimitFlex
