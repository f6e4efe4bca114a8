import RatelimitFlex.Library.TokenBucket
import RatelimitFlex.Program.KeyTable
import RatelimitFlex.Program.Types

/-!
# `MemoryStore`

`src/stores/memory-store.ts`: the in-process store, one strategy for each instance.
Every operation is a function of the clock reading `now` (the code's `Date.now()`), the
key, its options and the key table; `MemoryStore` pairs the table with the options of its
strategy, so an entry of another strategy cannot occur in it.  `StoreOp` and
`MemoryStore.step` put the public operations and the background purge behind one step
function, over which runs are taken.
-/

set_option autoImplicit false

namespace RatelimitFlex

open Library

/-! ## Options and entries -/

/-- What the constructor leaves in a window store: both values sanitized.
SOURCE: src/stores/memory-store.ts:93-109, 226-233 -/
structure WindowOptions where
  windowMs : ℕ
  maxRequests : ℕ
  windowMs_pos : 1 ≤ windowMs
  maxRequests_pos : 1 ≤ maxRequests
  maxRequests_le : maxRequests ≤ maxSafeInteger

/-- The constructor's sanitizing of the window options. -/
def WindowOptions.ofNumbers (windowMs maxRequests : JsNumber) : WindowOptions where
  windowMs := sanitizeWindowMs (some windowMs) 60000
  maxRequests := sanitizeRateLimitCap (some maxRequests) 100
  windowMs_pos := le_sanitizeAtLeast _ (by decide) (by decide)
  maxRequests_pos := le_sanitizeAtLeast _ (by decide) (by decide)
  maxRequests_le := sanitizeAtLeast_le _ (by decide)

/-- The cap of one increment: the override when it is a valid cap, else the store's own.
SOURCE: src/stores/memory-store.ts:796 -/
def WindowOptions.cap (o : WindowOptions) (maxOverride : Option JsNumber) : ℕ :=
  sanitizeRateLimitCap (some (maxOverride.getD (JsNumber.ofInt o.maxRequests))) o.maxRequests

/-- Without an override the cap is the store's own. -/
@[simp] theorem WindowOptions.cap_none (o : WindowOptions) : o.cap none = o.maxRequests :=
  sanitizeRateLimitCap_self o.maxRequests_pos o.maxRequests_le

/-- A safe positive integer as the override is the cap itself. -/
theorem WindowOptions.cap_ofInt (o : WindowOptions) {n : ℕ} (h1 : 1 ≤ n)
    (h2 : n ≤ maxSafeInteger) : o.cap (some (JsNumber.ofInt n)) = n :=
  sanitizeAtLeast_ofInt _ h1 h2

/-- Token bucket options, positive as the strategy needs them.
SOURCE: src/stores/memory-store.ts:118-133 -/
abbrev TokenBucketOptions := BucketParams

/-- A window of one second with cap one. -/
def oneASecond : WindowOptions := ⟨1000, 1, by decide, by decide, by decide⟩

/-- A window of one second with cap two. -/
def twoASecond : WindowOptions := ⟨1000, 2, by decide, by decide, by decide⟩

/-- A window of two seconds with cap two. -/
def twoInTwoSeconds : WindowOptions := ⟨2000, 2, by decide, by decide, by decide⟩

/-- A window of one second with cap ten. -/
def tenASecond : WindowOptions := ⟨1000, 10, by decide, by decide, by decide⟩

/-- A window of one minute with cap ten. -/
def tenAMinute : WindowOptions := ⟨60000, 10, by decide, by decide, by decide⟩

/-- Two tokens, both of them back after a second. -/
def twoTokens : TokenBucketOptions := ⟨2, 1000, 2, by decide, by decide, by decide⟩

/-- Two tokens a second, five at most. -/
def fiveAtMost : TokenBucketOptions := ⟨2, 1000, 5, by decide, by decide, by decide⟩

/-- One token a second, ten at most. -/
def tenAtMost : TokenBucketOptions := ⟨1, 1000, 10, by decide, by decide, by decide⟩

/-- One token a second, a hundred at most. -/
def hundredAtMost : TokenBucketOptions := ⟨1, 1000, 100, by decide, by decide, by decide⟩

/-- SOURCE: src/stores/memory-store.ts:153 -/
structure SlidingKeyState where
  stamps : List ℤ
  wallExpiresAt : Option ℤ := none
  deriving DecidableEq

/-- SOURCE: src/stores/memory-store.ts:149 -/
structure FixedEntry where
  count : ℤ
  resetTime : ℤ
  deriving DecidableEq

/-- SOURCE: src/stores/memory-store.ts:150 -/
abbrev BucketEntry := Bucket

variable {κ : Type} [DecidableEq κ]

/-! ## Sliding window -/

section Sliding

variable (o : WindowOptions) (now : ℤ) (key : κ)

/-- `filter((ts) => ts > cutoff)` with `cutoff = now - windowMs`. -/
def liveStamps (stamps : List ℤ) : List ℤ :=
  stamps.filter fun ts => decide (now - o.windowMs < ts)

/-- SOURCE: src/stores/memory-store.ts:590-603 -/
def slidingExpired (s : SlidingKeyState) : Bool :=
  (match s.wallExpiresAt with
    | some w => decide (w ≤ now)
    | none => false) || s.stamps.all fun ts => decide (ts ≤ now - o.windowMs)

/-- SOURCE: src/stores/memory-store.ts:652-657 -/
def clearSlidingWallExpiryIfExpired (t : KeyTable κ SlidingKeyState) :
    KeyTable κ SlidingKeyState :=
  match t.state.lookup key with
  | some ⟨_, some w⟩ => if w ≤ now then t.deleteKeyData key .expired else t
  | _ => t

/-- SOURCE: src/stores/memory-store.ts:795-826 -/
def incrementSliding (maxOverride : Option JsNumber) (cost : ℕ)
    (t : KeyTable κ SlidingKeyState) : KeyTable κ SlidingKeyState × RateLimitResult :=
  let cap := o.cap maxOverride
  let t := clearSlidingWallExpiryIfExpired now key t
  let (entry, t) := match t.state.lookup key with
    | some entry => (entry, t.drop key)
    | none => (⟨[], none⟩, t.ensureRoomForNewKey (slidingExpired o now) key)
  let trimmed := liveStamps o now entry.stamps ++ List.replicate cost now
  let t := t.put key { stamps := trimmed, wallExpiresAt := none }
  let resetTime := match trimmed.head? with
    | some oldest => oldest + o.windowMs
    | none => now + o.windowMs
  (t, RateLimitResult.ofUsage trimmed.length cap resetTime)

/-- Removes the `cost` oldest stamps.
SOURCE: src/stores/memory-store.ts:832-847 -/
def decrementSliding (cost : ℕ) (t : KeyTable κ SlidingKeyState) :
    KeyTable κ SlidingKeyState :=
  match t.state.lookup key with
  | none => t
  | some cur =>
    if cur.stamps = [] then t
    else
      let ts := cur.stamps.drop cost
      if ts = [] then t.drop key else t.put key { cur with stamps := ts }

/-- Removes the `cost` newest stamps.
SOURCE: src/stores/memory-store.ts:850-865 -/
def decrementSlidingFromEnd (cost : ℕ) (t : KeyTable κ SlidingKeyState) :
    KeyTable κ SlidingKeyState :=
  match t.state.lookup key with
  | none => t
  | some cur =>
    if cur.stamps = [] then t
    else
      let ts := cur.stamps.take (cur.stamps.length - cost)
      if ts = [] then t.drop key else t.put key { cur with stamps := ts }

/-- SOURCE: src/stores/memory-store.ts:659-684 -/
def getSlidingReadOnly (t : KeyTable κ SlidingKeyState) :
    KeyTable κ SlidingKeyState × Option RateLimitResult :=
  let t := clearSlidingWallExpiryIfExpired now key t
  match t.state.lookup key with
  | none => (t, none)
  | some cur =>
    match liveStamps o now cur.stamps with
    | [] => (t, none)
    | oldest :: rest =>
      (t.touchKey key, some (RateLimitResult.ofUsage (oldest :: rest).length (o.cap none)
        (oldest + o.windowMs)))

/-- SOURCE: src/stores/memory-store.ts:686-706 -/
def setSliding (totalHits : ℤ) (expiresAt : Option ℤ) (t : KeyTable κ SlidingKeyState) :
    KeyTable κ SlidingKeyState × RateLimitResult :=
  let n := totalHits.toNat
  let t := t.ensureRoomForNewKey (slidingExpired o now) key
  let t := (t.dropForLru key).put key
    { stamps := List.replicate n now, wallExpiresAt := expiresAt }
  (t, RateLimitResult.ofUsage n (o.cap none) (now + o.windowMs))

/-- SOURCE: src/stores/memory-store.ts:1013-1036 -/
def purgeSliding (t : KeyTable κ SlidingKeyState) : KeyTable κ SlidingKeyState :=
  let t := t.purge fun s => match s.wallExpiresAt with
    | some w => if w ≤ now then none else some s
    | none => some s
  t.purge fun s => match liveStamps o now s.stamps with
    | [] => none
    | filtered => some { s with stamps := filtered }

end Sliding

/-! ## Fixed window -/

section Fixed

variable (o : WindowOptions) (now : ℤ) (key : κ)

/-- SOURCE: src/stores/memory-store.ts:601-604 -/
def fixedExpired (e : FixedEntry) : Bool := decide (e.resetTime ≤ now)

/-- SOURCE: src/stores/memory-store.ts:869-894 -/
def incrementFixed (maxOverride : Option JsNumber) (cost : ℕ) (t : KeyTable κ FixedEntry) :
    KeyTable κ FixedEntry × RateLimitResult :=
  let cap := o.cap maxOverride
  let (entry, t) : FixedEntry × KeyTable κ FixedEntry := match t.state.lookup key with
    | none => (⟨cost, now + o.windowMs⟩, t.ensureRoomForNewKey (fixedExpired now) key)
    | some e =>
      if e.resetTime ≤ now then (⟨cost, now + o.windowMs⟩, t)
      else (⟨e.count + cost, e.resetTime⟩, t)
  ((t.dropForLru key).put key entry, RateLimitResult.ofUsage entry.count cap entry.resetTime)

/-- SOURCE: src/stores/memory-store.ts:896-907 -/
def decrementFixed (cost : ℕ) (t : KeyTable κ FixedEntry) : KeyTable κ FixedEntry :=
  match t.state.lookup key with
  | none => t
  | some e =>
    if e.count ≤ 0 then t
    else if e.count - cost ≤ 0 then t.drop key
    else t.put key ⟨e.count - cost, e.resetTime⟩

/-- SOURCE: src/stores/memory-store.ts:708-726 -/
def getFixedReadOnly (t : KeyTable κ FixedEntry) :
    KeyTable κ FixedEntry × Option RateLimitResult :=
  match t.state.lookup key with
  | none => (t, none)
  | some e =>
    if e.resetTime ≤ now then (t, none)
    else (t.touchKey key, some (RateLimitResult.ofUsage e.count (o.cap none) e.resetTime))

/-- SOURCE: src/stores/memory-store.ts:728-743 -/
def setFixed (totalHits : ℤ) (expiresAt : Option ℤ) (t : KeyTable κ FixedEntry) :
    KeyTable κ FixedEntry × RateLimitResult :=
  let n := max 0 totalHits
  let resetTimeMs := expiresAt.getD (now + o.windowMs)
  let t := t.ensureRoomForNewKey (fixedExpired now) key
  ((t.dropForLru key).put key ⟨n, resetTimeMs⟩,
    RateLimitResult.ofUsage n (o.cap none) resetTimeMs)

/-- SOURCE: src/stores/memory-store.ts:1038-1045 -/
def purgeFixed (t : KeyTable κ FixedEntry) : KeyTable κ FixedEntry :=
  t.purge fun e => if e.resetTime ≤ now then none else some e

end Fixed

/-! ## Token bucket -/

section Bucket

variable (o : TokenBucketOptions) (now : ℤ) (key : κ)

/-- `Math.floor` of the quotient is `Int` division, the interval being positive.
SOURCE: src/stores/memory-store.ts:972-981 -/
def refillBucketStateForNow (b : BucketEntry) : BucketEntry :=
  let elapsed := now - b.lastRefill
  let intervals := elapsed / o.interval
  if 0 < intervals then
    { tokens := min o.bucketSize (b.tokens + intervals * o.tokensPerInterval)
      lastRefill := b.lastRefill + intervals * o.interval }
  else b

/-- SOURCE: src/stores/memory-store.ts:984-987 -/
def isBucketIdleFullPurgeable (b : BucketEntry) : Bool :=
  decide (o.bucketSize ≤ b.tokens) && decide (10 * o.interval < now - b.lastRefill)

/-- The refill is written out in the source; it is `refillBucketStateForNow` there too.
SOURCE: src/stores/memory-store.ts:911-960 -/
def incrementTokenBucket (cost : ℕ) (t : KeyTable κ BucketEntry) :
    KeyTable κ BucketEntry × RateLimitResult :=
  let (bucketState, t) : BucketEntry × KeyTable κ BucketEntry :=
    match t.state.lookup key with
    | none => (⟨o.bucketSize, now⟩, t.ensureRoomForNewKey (isBucketIdleFullPurgeable o now) key)
    | some b => (b, t)
  let b := refillBucketStateForNow o now bucketState
  if (cost : ℤ) ≤ b.tokens then
    let tokens := b.tokens - cost
    ((t.dropForLru key).put key ⟨tokens, b.lastRefill⟩,
      { totalHits := o.bucketSize - tokens
        remaining := tokens
        resetTime := b.lastRefill + o.interval
        isBlocked := false })
  else
    ((t.dropForLru key).put key b,
      { totalHits := o.bucketSize
        remaining := 0
        resetTime := b.lastRefill + o.interval
        isBlocked := true })

/-- SOURCE: src/stores/memory-store.ts:962-969 -/
def decrementTokenBucket (cost : ℕ) (t : KeyTable κ BucketEntry) : KeyTable κ BucketEntry :=
  match t.state.lookup key with
  | none => t
  | some b => t.put key ⟨min o.bucketSize (b.tokens + cost), b.lastRefill⟩

/-- SOURCE: src/stores/memory-store.ts:745-769 -/
def getTokenBucketReadOnly (t : KeyTable κ BucketEntry) :
    KeyTable κ BucketEntry × Option RateLimitResult :=
  match t.state.lookup key with
  | none => (t, none)
  | some raw =>
    if isBucketIdleFullPurgeable o now raw then (t, none)
    else
      let b := refillBucketStateForNow o now raw
      let totalHits := o.bucketSize - b.tokens
      (t.touchKey key, some
        { totalHits
          remaining := b.tokens
          resetTime := b.lastRefill + o.interval
          isBlocked := decide (b.tokens = 0) && decide (o.bucketSize ≤ totalHits) })

/-- SOURCE: src/stores/memory-store.ts:771-793 -/
def setTokenBucket (totalHits : ℤ) (t : KeyTable κ BucketEntry) :
    KeyTable κ BucketEntry × RateLimitResult :=
  let th := max 0 totalHits
  let isBlocked := decide (o.bucketSize ≤ th)
  let tokens := if isBlocked then 0 else max 0 (o.bucketSize - th)
  let t := t.ensureRoomForNewKey (isBucketIdleFullPurgeable o now) key
  ((t.dropForLru key).put key ⟨tokens, now⟩,
    { totalHits := if isBlocked then o.bucketSize else th
      remaining := tokens
      resetTime := now + o.interval
      isBlocked })

/-- SOURCE: src/stores/memory-store.ts:1050-1058 -/
def purgeBuckets (t : KeyTable κ BucketEntry) : KeyTable κ BucketEntry :=
  t.purge fun b => if isBucketIdleFullPurgeable o now b then none else some b

end Bucket

/-! ## The store -/

/-- SOURCE: src/stores/memory-store.ts:170-214 -/
inductive MemoryStore (κ : Type) [DecidableEq κ] where
  | sliding (o : WindowOptions) (t : KeyTable κ SlidingKeyState)
  | fixed (o : WindowOptions) (t : KeyTable κ FixedEntry)
  | bucket (o : TokenBucketOptions) (t : KeyTable κ BucketEntry)

namespace MemoryStore

/-- SOURCE: src/stores/memory-store.ts:304-319 -/
def increment (now : ℤ) (key : κ) (options : RateLimitIncrementOptions) :
    MemoryStore κ → MemoryStore κ × RateLimitResult
  | .sliding o t =>
    let r := incrementSliding o now key options.maxRequests options.sanitizedCost t
    (.sliding o r.1, r.2)
  | .fixed o t =>
    let r := incrementFixed o now key options.maxRequests options.sanitizedCost t
    (.fixed o r.1, r.2)
  | .bucket o t =>
    let r := incrementTokenBucket o now key options.sanitizedCost t
    (.bucket o r.1, r.2)

/-- SOURCE: src/stores/memory-store.ts:327-349 -/
def decrement (key : κ) (options : RateLimitDecrementOptions) : MemoryStore κ → MemoryStore κ
  | .sliding o t =>
    if options.removeNewest then .sliding o (decrementSlidingFromEnd key options.sanitizedCost t)
    else .sliding o (decrementSliding key options.sanitizedCost t)
  | .fixed o t => .fixed o (decrementFixed key options.sanitizedCost t)
  | .bucket o t => .bucket o (decrementTokenBucket o key options.sanitizedCost t)

/-- SOURCE: src/stores/memory-store.ts:472-490 -/
def get (now : ℤ) (key : κ) : MemoryStore κ → MemoryStore κ × Option RateLimitResult
  | .sliding o t => let r := getSlidingReadOnly o now key t; (.sliding o r.1, r.2)
  | .fixed o t => let r := getFixedReadOnly o now key t; (.fixed o r.1, r.2)
  | .bucket o t => let r := getTokenBucketReadOnly o now key t; (.bucket o r.1, r.2)

/-- SOURCE: src/stores/memory-store.ts:495-514 -/
def set (now : ℤ) (key : κ) (totalHits : ℤ) (expiresAt : Option ℤ) :
    MemoryStore κ → MemoryStore κ × RateLimitResult
  | .sliding o t => let r := setSliding o now key totalHits expiresAt t; (.sliding o r.1, r.2)
  | .fixed o t => let r := setFixed o now key totalHits expiresAt t; (.fixed o r.1, r.2)
  | .bucket o t => let r := setTokenBucket o now key totalHits t; (.bucket o r.1, r.2)

/-- SOURCE: src/stores/memory-store.ts:355-374 -/
def reset (now : ℤ) (key : κ) : MemoryStore κ → MemoryStore κ
  | .sliding o t => .sliding o (t.drop key)
  | .fixed o t => .fixed o (t.put key ⟨0, now + o.windowMs⟩)
  | .bucket o t => .bucket o (t.put key ⟨o.bucketSize, now⟩)

/-- SOURCE: src/stores/memory-store.ts:519-521 -/
def delete (key : κ) : MemoryStore κ → MemoryStore κ × Bool
  | .sliding o t => (.sliding o (t.drop key), decide (key ∈ t.state))
  | .fixed o t => (.fixed o (t.drop key), decide (key ∈ t.state))
  | .bucket o t => (.bucket o (t.drop key), decide (key ∈ t.state))

/-- SOURCE: src/stores/memory-store.ts:995-1011 -/
def purgeExpired (now : ℤ) : MemoryStore κ → MemoryStore κ
  | .sliding o t => .sliding o (purgeSliding o now t)
  | .fixed o t => .fixed o (purgeFixed now t)
  | .bucket o t => .bucket o (purgeBuckets o now t)

/-- SOURCE: src/stores/memory-store.ts:461-463 -/
def resetAll : MemoryStore κ → MemoryStore κ
  | .sliding o t => .sliding o { t with state := ∅ }
  | .fixed o t => .fixed o { t with state := ∅ }
  | .bucket o t => .bucket o { t with state := ∅ }

/-- The write of `key` by an increment or a `set` evicts no other key. -/
def HasRoom (key : κ) : MemoryStore κ → Prop
  | .sliding _ t => t.HasRoom key
  | .fixed _ t => t.HasRoom key
  | .bucket _ t => t.HasRoom key

instance (key : κ) : ∀ s : MemoryStore κ, Decidable (s.HasRoom key)
  | .sliding _ t => inferInstanceAs (Decidable (t.HasRoom key))
  | .fixed _ t => inferInstanceAs (Decidable (t.HasRoom key))
  | .bucket _ t => inferInstanceAs (Decidable (t.HasRoom key))

/-- `maxKeys` is not reached by a write of `key`. -/
def Fits (key : κ) : MemoryStore κ → Prop
  | .sliding _ t => t.Fits key
  | .fixed _ t => t.Fits key
  | .bucket _ t => t.Fits key

instance (key : κ) : ∀ s : MemoryStore κ, Decidable (s.Fits key)
  | .sliding _ t => inferInstanceAs (Decidable (t.Fits key))
  | .fixed _ t => inferInstanceAs (Decidable (t.Fits key))
  | .bucket _ t => inferInstanceAs (Decidable (t.Fits key))

end MemoryStore

/-! ## Runs -/

/-- One operation on the store, or one firing of its cleanup timer. -/
inductive StoreOp (κ : Type) where
  | increment (key : κ) (options : RateLimitIncrementOptions)
  | decrement (key : κ) (options : RateLimitDecrementOptions)
  | get (key : κ)
  | set (key : κ) (totalHits : ℤ) (expiresAt : Option ℤ)
  | reset (key : κ)
  | delete (key : κ)
  | purgeExpired
  deriving DecidableEq

/-- The operation is an increment. -/
def StoreOp.isIncrement {κ : Type} : StoreOp κ → Bool
  | .increment _ _ => true
  | _ => false

/-- The key an operation is about; a purge is about all of them. -/
def StoreOp.key {κ : Type} : StoreOp κ → Option κ
  | .increment key _ => some key
  | .decrement key _ => some key
  | .get key => some key
  | .set key _ _ => some key
  | .reset key => some key
  | .delete key => some key
  | .purgeExpired => none

/-- The operation writes a key that may be new: an increment or a `set`. -/
def StoreOp.writes {κ : Type} : StoreOp κ → Option κ
  | .increment key _ => some key
  | .set key _ _ => some key
  | _ => none

/-- What the caller of an operation gets back. -/
inductive StoreReply where
  | result (r : RateLimitResult)
  | snapshot (r : Option RateLimitResult)
  | deleted (existed : Bool)
  | done
  deriving DecidableEq

/-- An operation and the clock reading it happens at. -/
structure Timed (α : Type) where
  time : ℤ
  op : α
  deriving DecidableEq

namespace MemoryStore

/-- One step of a run. -/
def step (i : Timed (StoreOp κ)) (s : MemoryStore κ) : MemoryStore κ × StoreReply :=
  match i.op with
  | .increment key options => let r := s.increment i.time key options; (r.1, .result r.2)
  | .decrement key options => (s.decrement key options, .done)
  | .get key => let r := s.get i.time key; (r.1, .snapshot r.2)
  | .set key totalHits expiresAt => let r := s.set i.time key totalHits expiresAt; (r.1, .result r.2)
  | .reset key => (s.reset i.time key, .done)
  | .delete key => let r := s.delete key; (r.1, .deleted r.2)
  | .purgeExpired => (s.purgeExpired i.time, .done)

/-- The step evicts no key for another one: `maxKeys` is not reached by it. -/
def StepHasRoom (i : Timed (StoreOp κ)) (s : MemoryStore κ) : Prop :=
  match i.op with
  | .increment key _ => s.HasRoom key
  | .set key _ _ => s.HasRoom key
  | _ => True

/-- The step does not reach `maxKeys`. -/
def StepFits (i : Timed (StoreOp κ)) (s : MemoryStore κ) : Prop :=
  ∀ key ∈ i.op.writes, s.Fits key

instance (i : Timed (StoreOp κ)) (s : MemoryStore κ) : Decidable (s.StepFits i) :=
  match h : i.op.writes with
  | none => isTrue (by simp [StepFits, h])
  | some key => decidable_of_iff (s.Fits key) (by simp [StepFits, h])

instance : ∀ (i : Timed (StoreOp κ)) (s : MemoryStore κ), Decidable (s.StepHasRoom i)
  | ⟨_, .increment key _⟩, s => inferInstanceAs (Decidable (s.HasRoom key))
  | ⟨_, .set key _ _⟩, s => inferInstanceAs (Decidable (s.HasRoom key))
  | ⟨_, .decrement _ _⟩, _ => isTrue trivial
  | ⟨_, .get _⟩, _ => isTrue trivial
  | ⟨_, .reset _⟩, _ => isTrue trivial
  | ⟨_, .delete _⟩, _ => isTrue trivial
  | ⟨_, .purgeExpired⟩, _ => isTrue trivial

end MemoryStore

end RatelimitFlex
