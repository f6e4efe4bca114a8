import RatelimitFlex.Program.ComposedBank

/-!
# Options with `limits`, and the headers' limit and window

`src/middleware/merge-options.ts` for options with a list `limits` of windows: one
`MemoryStore` for each entry, composed in mode `all` under the labels `limit-0`, `limit-1`, …
`src/headers/resolveConfig.ts` derives the limit and the window of the headers from the raw
entries again.

The state `τ` of the key manager stands beside that of the stores.
-/

set_option autoImplicit false

namespace RatelimitFlex

/-! ## Headers -/

/-- SOURCE: src/headers/formatHeaders.ts:26 -/
inductive HeaderFormat where
  | legacy
  | draft6
  | draft7
  | draft8
  deriving DecidableEq

/-- The option `standardHeaders`: a switch or a profile.
SOURCE: src/types/index.ts:290-363 -/
inductive StandardHeaders where
  | switch (on : Bool)
  | profile (format : HeaderFormat)
  deriving DecidableEq

/-- The options that only the headers read.
SOURCE: src/types/index.ts:342-377, 557-631 -/
structure HeaderOptions where
  standardHeaders : Option StandardHeaders := none
  headers : Option Bool := none
  legacyHeaders : Option Bool := none
  identifier : Option String := none
  windowMs : Option JsNumber := none
  interval : Option JsNumber := none

/-- The options of an engine with those of the headers. -/
structure MergedOptions (ρ σ κ : Type) extends RateLimitOptions ρ σ κ, HeaderOptions

/-- `format` is `none` for `false`.
SOURCE: src/headers/resolveConfig.ts:12-20 -/
structure ResolvedHeaderConfig where
  format : Option HeaderFormat
  includeLegacy : Bool
  identifier : String
  resolvedLimit : ℤ
  resolvedWindowMs : JsNumber
  deriving DecidableEq

/-- The seconds of a window, at least one, as they are written.
SOURCE: src/headers/formatHeaders.ts:43-46 -/
def windowSeconds : JsNumber → String
  | .finite q => toString (max 1 ⌈q / 1000⌉)
  | .posInfinity => "Infinity"
  | .negInfinity => "1"
  | .nan => "NaN"

/-- SOURCE: src/headers/formatHeaders.ts:43-46 -/
def defaultRateLimitIdentifier (limit : ℤ) (windowMs : JsNumber) : String :=
  toString limit ++ "-per-" ++ windowSeconds windowMs

/-- The header profile, and whether the legacy headers come along.
SOURCE: src/headers/resolveConfig.ts:74-92 -/
def HeaderOptions.profile (o : HeaderOptions) : Option HeaderFormat × Bool :=
  match o.standardHeaders with
  | some (.switch on) => (if on then some .legacy else none, on)
  | some (.profile format) => (some format, o.legacyHeaders.getD false)
  | none =>
    match o.headers with
    | some on => (if on then some .legacy else none, on)
    | none => (some .legacy, true)

section Resolve

variable {ρ σ κ : Type}

/-- SOURCE: src/headers/resolveConfig.ts:30-55 -/
def resolveWindowMsForHeaders (o : MergedOptions ρ σ κ) (bindingSlotIndex : Option ℕ) : JsNumber :=
  if o.strategy = .tokenBucket then o.interval.getD 60000
  else if o.limits ≠ [] then
    let windows : List ℤ := o.limits.map fun e => (sanitizeWindowMs (some e.windowMs) 60000 : ℤ)
    .ofInt ((bindingSlotIndex.bind fun i => windows[i]?).getD (minimum windows))
  else if o.groupedWindowStores ≠ [] then
    let windows := o.groupedWindowStores.map WindowSlot.windowMs
    .ofInt ((bindingSlotIndex.bind fun i => windows[i]?).getD (minimum windows))
  else o.windowMs.getD 60000

/-- SOURCE: src/headers/resolveConfig.ts:66-99 -/
def resolveHeaderConfig (o : MergedOptions ρ σ κ) (req : ρ) (bindingSlotIndex : Option ℕ) :
    ResolvedHeaderConfig :=
  let resolvedWindowMs := resolveWindowMsForHeaders o bindingSlotIndex
  let resolvedLimit := getLimit o.toRateLimitOptions req bindingSlotIndex
  { format := o.profile.1
    includeLegacy := o.profile.2
    identifier := o.identifier.getD (defaultRateLimitIdentifier resolvedLimit resolvedWindowMs)
    resolvedLimit
    resolvedWindowMs }

end Resolve

/-! ## The layers of `limits` -/

/-- SOURCE: src/composition/compose.ts:145-151 -/
def limitLabel (i : ℕ) : String := "limit-" ++ toString i

/-- A label is the word and the number. -/
theorem toList_limitLabel (i : ℕ) :
    (limitLabel i).toList = "limit-".toList ++ Nat.toDigits 10 i := by
  rw [limitLabel, String.toList_append]
  exact congrArg _ Nat.toList_repr

/-- The label's number is read back. -/
theorem limitIndex_limitLabel (i : ℕ) : limitIndex (limitLabel i) = some i := by
  have hdrop : (limitLabel i).toList.drop 6 = Nat.toDigits 10 i := by
    rw [toList_limitLabel]
    rfl
  have htake : (limitLabel i).toList.take 6 = "limit-".toList := by
    rw [toList_limitLabel]
    rfl
  have hdigits : (Nat.toDigits 10 i).all Char.isDigit = true :=
    List.all_eq_true.mpr fun c hc => Nat.isDigit_of_mem_toDigits (by decide) (by decide) hc
  have hvalue : (Nat.toDigits 10 i).foldl (fun n c => 10 * n + (c.toNat - 48)) 0 = i :=
    Nat.ofDigitChars_eq_foldl.symm.trans Nat.ofDigitChars_ten_toDigits
  unfold limitIndex
  rw [hdrop, htake]
  exact (if_pos ⟨rfl, Nat.toDigits_ne_nil, hdigits⟩).trans (congrArg some hvalue)

/-- Limits that differ have labels that differ. -/
theorem limitLabel_injective : Function.Injective limitLabel := by
  intro i j h
  have hindex := congrArg limitIndex h
  rw [limitIndex_limitLabel, limitIndex_limitLabel] at hindex
  exact Option.some.inj hindex

/-- The options of an entry's store: sanitized by the merge, and by the store again.
SOURCE: src/middleware/merge-options.ts:343-346, src/composition/compose.ts:145-151 -/
def WindowLimitSpec.windowOptions (entry : WindowLimitSpec) : WindowOptions :=
  .ofNumbers (.ofInt (sanitizeWindowMs (some entry.windowMs) 60000))
    (.ofInt (sanitizeRateLimitCap (some entry.max) 100))

section Layers

variable {κ : Type} [DecidableEq κ]

/-- A new store of a window strategy; `maxKeys` is the default.
SOURCE: src/stores/memory-store.ts:226-260 -/
def newWindowStore (strategy : RateLimitStrategy) (o : WindowOptions) : MemoryStore κ :=
  if strategy = .fixedWindow then .fixed o (KeyTable.new 100000)
  else .sliding o (KeyTable.new 100000)

/-- The layers of these entries.
SOURCE: src/middleware/merge-options.ts:57-69, src/composition/compose.ts:140-152 -/
def limitsToComposedStore (limits : List WindowLimitSpec) (h : limits ≠ []) : Composition κ where
  mode := .all
  specs := (List.range limits.length).map fun i => { label := limitLabel i }
  specs_ne hnil :=
    h (List.length_eq_zero_iff.mp (List.range_eq_nil.mp (List.map_eq_nil_iff.mp hnil)))
  labels_nodup := by
    rw [List.map_map]
    exact List.nodup_range.map limitLabel_injective
  overflow_two hmode := CompositionMode.noConfusion hmode

/-- The stores of these entries, one after the other. -/
def limitsBank (strategy : RateLimitStrategy) (limits : List WindowLimitSpec) (now : ℤ) :
    StoreBank κ where
  stores j := newWindowStore strategy
    (((limits[j]?).map WindowLimitSpec.windowOptions).getD (.ofNumbers 60000 100))
  now

end Layers

/-! ## Merged options -/

section Merged

variable {ρ σ τ κ : Type}

/-- A store on a state that has more in it. -/
def RateLimitStore.onFst (store : RateLimitStore σ κ) : RateLimitStore (σ × τ) κ where
  increment key options s :=
    let r := store.increment key options s.1
    (r.1, (r.2, s.2))
  decrement key options s := (store.decrement key options s.1, s.2)
  rollbackDraftForBlockedIncrement := store.rollbackDraftForBlockedIncrement.map
    fun rollback key result options s =>
      let r := rollback key result options s.1
      (r.1, (r.2, s.2))
  isComposed := store.isComposed

/-- A key manager on a state that has more in it. -/
def KeyManagerView.onSnd (km : KeyManagerView τ κ) : KeyManagerView (σ × τ) κ where
  isBlocked key s :=
    let r := km.isBlocked key s.2
    (r.1, (s.1, r.2))
  expiresAt key s :=
    let r := km.expiresAt key s.2
    (r.1, (s.1, r.2))

/-- The options an application passes with `limits`, without a store and without
`groupedWindowStores`, which exclude `limits`; `headers` is by default on.  The key manager
is the application's or the one that comes with the penalty box.
SOURCE: src/types/index.ts:303-583 -/
structure LimitsConfig (ρ τ κ : Type) extends HeaderOptions where
  strategy : RateLimitStrategy := .slidingWindow
  limits : List WindowLimitSpec
  strategy_window : strategy ≠ .tokenBucket
  limits_ne : limits ≠ []
  incrementCost : Option (Setting ρ) := none
  skip : ρ → Bool := fun _ => false
  allowlist : List κ := []
  blocklist : List κ := []
  keyManager : Option (KeyManagerView τ κ) := none
  penaltyBox : Option PenaltyBoxOptions := none
  draft : Bool := false
  onLayerBlock : Option (ρ → String → LayerResult → Except StoreError Unit) := none
  onDraftViolation : Option (ρ → RateLimitResult → Except StoreError Unit) := none
  onLimitReached : Option (ρ → RateLimitResult → Except StoreError Unit) := none

/-- What the engine's stores and its key manager work on. -/
abbrev LimitsState (τ κ : Type) [DecidableEq κ] := ComposedState (StoreBank κ) κ × τ

variable [DecidableEq κ]

/-- The caps of the entries, sanitized. -/
def LimitsConfig.caps (c : LimitsConfig ρ τ κ) : List ℤ :=
  c.limits.map fun e => (sanitizeRateLimitCap (some e.max) 100 : ℤ)

/-- The windows of the entries, sanitized. -/
def LimitsConfig.windows (c : LimitsConfig ρ τ κ) : List ℤ :=
  c.limits.map fun e => (sanitizeWindowMs (some e.windowMs) 60000 : ℤ)

/-- SOURCE: src/middleware/merge-options.ts:48-54, 335-373 -/
def mergeRateLimiterOptions (c : LimitsConfig ρ τ κ) : MergedOptions ρ (LimitsState τ κ) κ where
  clock s := s.1.inner.now
  store := (limitsToComposedStore c.limits c.limits_ne).store.toStore.onFst
  strategy := c.strategy
  maxRequests := some (.value (.ofInt (minimum c.caps)))
  limits := c.limits
  incrementCost := c.incrementCost
  skip := c.skip
  allowlist := c.allowlist
  blocklist := c.blocklist
  keyManager := c.keyManager.map KeyManagerView.onSnd
  penaltyBox := c.penaltyBox
  draft := c.draft
  onLayerBlock := c.onLayerBlock
  onDraftViolation := c.onDraftViolation
  onLimitReached := c.onLimitReached
  standardHeaders := c.standardHeaders
  headers := some (c.headers.getD true)
  legacyHeaders := c.legacyHeaders
  identifier := c.identifier
  windowMs := some (.ofInt (minimum c.windows))
  interval := c.interval

/-- The engine before its first request. -/
def LimitsConfig.start (c : LimitsConfig ρ τ κ) (now : ℤ) (manager : τ) :
    World (LimitsState τ κ) κ where
  engine := {}
  stores := ({ inner := limitsBank c.strategy c.limits now }, manager)

/-- A request: when it comes, and the state the application has brought the key manager to.
Or a store's cleanup timer. -/
inductive LimitsEvent (ρ τ κ : Type) where
  | consume (time : ℤ) (manager : τ) (key : κ) (req : ρ)
  | cleanup (time : ℤ) (slot : ℕ)

/-- The engine's world at another time, with the key manager in another state. -/
def World.arriveAt (time : ℤ) (manager : τ) (w : World (LimitsState τ κ) κ) :
    World (LimitsState τ κ) κ :=
  { w with stores :=
      ({ w.stores.1 with inner := { w.stores.1.inner with now := time } }, manager) }

/-- One event; a request has an answer. -/
def limitsStep (c : LimitsConfig ρ τ κ) : LimitsEvent ρ τ κ → World (LimitsState τ κ) κ →
    World (LimitsState τ κ) κ × Option (Except StoreError RateLimitConsumeResult)
  | .consume time manager key req, w =>
    let r := consumeWithKey (mergeRateLimiterOptions c).toRateLimitOptions key req
      (w.arriveAt time manager)
    (r.2, some r.1)
  | .cleanup time slot, w =>
    let bank := w.stores.1.inner
    ({ w with stores := ({ w.stores.1 with
        inner := bank.put slot ((bank.stores slot).purgeExpired time) }, w.stores.2) }, none)

end Merged

end RatelimitFlex
