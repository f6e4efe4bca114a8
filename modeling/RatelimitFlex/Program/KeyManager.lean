import RatelimitFlex.Library.InsertionMap
import RatelimitFlex.Program.Types

/-!
# `KeyManager`

`src/key-manager/KeyManager.ts` and `src/key-manager/types.ts`: the blocks and the point
adjustments of each key.  An operation is cut where the code awaits the store or the block
store; each definition below is what runs between two awaits, under the operation's name.
What the store answers comes in as a snapshot.

An adjustment entry is an object that an operation goes on using after an await, while another
one may have put a new object in its place: `objects` holds the objects made for a key, and an
entry is the number of one of them.  The audit log and the shield, which no decision reads,
are left out.
-/

set_option autoImplicit false

namespace RatelimitFlex

open Library

/-! ## Numbers and dates -/

namespace JsNumber

/-- `Math.floor`. -/
def floor : JsNumber → JsNumber
  | .nan => .nan
  | .posInfinity => .posInfinity
  | .negInfinity => .negInfinity
  | .finite q => .finite ⌊q⌋

def add : JsNumber → JsNumber → JsNumber
  | .finite a, .finite b => .finite (a + b)
  | .nan, _ => .nan
  | _, .nan => .nan
  | .posInfinity, .negInfinity => .nan
  | .negInfinity, .posInfinity => .nan
  | .posInfinity, _ => .posInfinity
  | .negInfinity, _ => .negInfinity
  | .finite _, x => x

/-- `a <= b`. -/
def le : JsNumber → JsNumber → Bool
  | .nan, _ => false
  | _, .nan => false
  | .negInfinity, _ => true
  | _, .posInfinity => true
  | .finite a, .finite b => decide (a ≤ b)
  | _, _ => false

/-- `a < b`. -/
def lt : JsNumber → JsNumber → Bool
  | .finite a, .finite b => decide (a < b)
  | .negInfinity, .finite _ => true
  | .negInfinity, .posInfinity => true
  | .finite _, .posInfinity => true
  | _, _ => false

/-- `Math.max` of two numbers. -/
def max (a b : JsNumber) : JsNumber :=
  if a = .nan ∨ b = .nan then .nan else if a.le b then b else a

end JsNumber

/-- A `Date`. -/
inductive JsDate where
  | time (ms : ℤ)
  | invalid
  deriving DecidableEq

namespace JsDate

/-- `new Date(ms)`. -/
def ofNumber : JsNumber → JsDate
  | .nan | .posInfinity | .negInfinity => .invalid
  | .finite q => if |q| ≤ maxDateMs then .time (if 0 ≤ q then ⌊q⌋ else ⌈q⌉) else .invalid

/-- `date.getTime() <= now`. -/
def notAfter (date : JsDate) (now : ℤ) : Bool :=
  match date with
  | .time ms => decide (ms ≤ now)
  | .invalid => false

/-- `date.getTime() > now`. -/
def after (date : JsDate) (now : ℤ) : Bool :=
  match date with
  | .time ms => decide (now < ms)
  | .invalid => false

end JsDate

/-! ## Blocks, adjustments and options -/

/-- SOURCE: src/key-manager/types.ts:5-9 -/
inductive KeyBlockReason where
  | manual (message : Option String := none)
  | penaltyEscalation (penaltyCount threshold : JsNumber) (violationNumber : Option JsNumber)
  | abusePattern (pattern : String)
  | custom (code : String) (metadata : Option String)
  deriving DecidableEq

/-- An entry of `blocks`; an end that is absent is never reached.
SOURCE: src/key-manager/KeyManager.ts:33-40 -/
structure KeyBlock where
  reason : KeyBlockReason
  expiresAt : Option JsDate
  blockedAt : ℤ
  deriving DecidableEq

namespace KeyBlock

/-- `expiresAt !== null && expiresAt.getTime() <= now`. -/
def isDue (b : KeyBlock) (now : ℤ) : Bool :=
  match b.expiresAt with
  | some date => date.notAfter now
  | none => false

/-- `expiresAt === null || expiresAt.getTime() > now`. -/
def isActive (b : KeyBlock) (now : ℤ) : Bool :=
  match b.expiresAt with
  | some date => date.after now
  | none => true

end KeyBlock

/-- SOURCE: src/key-manager/KeyManager.ts:43-52 -/
structure KeyAdjustment where
  penaltyPoints : JsNumber := 0
  rewardPoints : JsNumber := 0
  windowStart : ℤ := 0
  penaltyViolationCount : ℕ := 0
  deriving DecidableEq

/-- The options as the constructor leaves them.
SOURCE: src/key-manager/KeyManager.ts:69-90 -/
structure KeyManagerOptions where
  maxRequests : ℕ
  windowMs : JsNumber
  penaltyBlockThreshold : Option JsNumber := none
  penaltyEscalation : ℕ → JsNumber

/-- SOURCE: src/key-manager/strategies.ts:9-12 -/
def fixedEscalation (durationMs : JsNumber) : ℕ → JsNumber := fun _ => durationMs

/-- SOURCE: src/key-manager/types.ts:12-32 -/
structure KeyState (κ : Type) where
  key : κ
  totalHits : ℤ
  remaining : ℤ
  resetTime : JsDate
  isBlocked : Bool
  isManuallyBlocked : Bool
  blockReason : Option KeyBlockReason := none
  blockExpiresAt : Option JsDate := none
  penaltyPoints : JsNumber
  rewardPoints : JsNumber
  deriving DecidableEq

/-- SOURCE: src/key-manager/types.ts:50 -/
inductive UnblockedBy where
  | expiry
  | manual
  deriving DecidableEq

/-- SOURCE: src/key-manager/types.ts:35-85 -/
inductive KeyManagerEvent (κ : Type) where
  | blocked (key : κ) (reason : KeyBlockReason) (expiresAt : Option JsDate) (state : KeyState κ)
      (timestamp : ℤ)
  | unblocked (key : κ) (wasReason : KeyBlockReason) (unblockedBy : UnblockedBy) (timestamp : ℤ)
  | penalized (key : κ) (points totalPenaltyPoints : JsNumber) (state : KeyState κ)
      (timestamp : ℤ)
  | rewarded (key : κ) (points totalRewardPoints : JsNumber) (state : KeyState κ) (timestamp : ℤ)
  | deleted (key : κ) (previousState : Option (KeyState κ)) (timestamp : ℤ)
  deriving DecidableEq

/-- SOURCE: src/key-manager/KeyManager.ts:27-52 -/
structure KeyManager (κ : Type) where
  blocks : InsertionMap κ KeyBlock := ∅
  adjustments : κ → Option ℕ := fun _ => none
  objects : κ → List KeyAdjustment := fun _ => []
  emitted : List (KeyManagerEvent κ) := []

namespace KeyManager

variable {κ : Type} [DecidableEq κ]

/-! ### Internals -/

def emitTyped (event : KeyManagerEvent κ) (km : KeyManager κ) : KeyManager κ :=
  { km with emitted := km.emitted ++ [event] }

/-- SOURCE: src/key-manager/KeyManager.ts:544-561 -/
def expireDueBlocks (now : ℤ) (km : KeyManager κ) : KeyManager κ :=
  { km with
    blocks := km.blocks.filterMapValues fun v => if v.isDue now then none else some v
    emitted := km.emitted ++ (km.blocks.entries.filter fun e => e.2.isDue now).map fun e =>
      .unblocked e.1 e.2.reason .expiry now }

/-- SOURCE: src/key-manager/KeyManager.ts:563-572 -/
def isManualBlockActive (now : ℤ) (key : κ) (km : KeyManager κ) : Bool :=
  match km.blocks.lookup key with
  | none => false
  | some b => b.isActive now

/-- The object number `r` of a key. -/
def object (key : κ) (r : ℕ) (km : KeyManager κ) : KeyAdjustment :=
  (km.objects key)[r]?.getD {}

/-- An object is written through one of its references. -/
def modifyObject (key : κ) (r : ℕ) (f : KeyAdjustment → KeyAdjustment) (km : KeyManager κ) :
    KeyManager κ :=
  { km with objects := Function.update km.objects key ((km.objects key).modify r f) }

/-- `adjustments.set(key, adj)`. -/
def setAdjustment (key : κ) (r : ℕ) (km : KeyManager κ) : KeyManager κ :=
  { km with adjustments := Function.update km.adjustments key (some r) }

/-- A new object becomes the entry of its key. -/
def newAdjustment (key : κ) (adj : KeyAdjustment) (km : KeyManager κ) : KeyManager κ :=
  { km with
    adjustments := Function.update km.adjustments key (some (km.objects key).length)
    objects := Function.update km.objects key (km.objects key ++ [adj]) }

/-- SOURCE: src/key-manager/KeyManager.ts:631-653 -/
def touchAdjustmentWindow (o : KeyManagerOptions) (now : ℤ) (key : κ) (km : KeyManager κ) :
    KeyManager κ :=
  match km.adjustments key with
  | none => km.newAdjustment key { windowStart := now }
  | some r =>
    let adj := km.object key r
    if o.windowMs.le (JsNumber.ofInt (now - adj.windowStart)) then
      km.newAdjustment key
        { windowStart := now, penaltyViolationCount := adj.penaltyViolationCount }
    else km

/-- SOURCE: src/key-manager/KeyManager.ts:655-661 -/
def getAdjustment (key : κ) (km : KeyManager κ) : KeyAdjustment :=
  match km.adjustments key with
  | some r => km.object key r
  | none => {}

/-- SOURCE: src/key-manager/KeyManager.ts:663-671, 684-706 -/
def composeBlocked (o : KeyManagerOptions) (now : ℤ) (key : κ) (snap : Option RateLimitResult)
    (reason : KeyBlockReason) (expiresAt : Option JsDate) (km : KeyManager κ) : KeyState κ where
  key := key
  totalHits := (snap.map RateLimitResult.totalHits).getD 0
  remaining := 0
  resetTime := match snap with
    | some r => .time r.resetTime
    | none => .ofNumber ((JsNumber.ofInt now).add o.windowMs)
  isBlocked := true
  isManuallyBlocked := match reason with
    | .penaltyEscalation _ _ _ => false
    | _ => true
  blockReason := some reason
  blockExpiresAt := expiresAt
  penaltyPoints := (km.getAdjustment key).penaltyPoints
  rewardPoints := (km.getAdjustment key).rewardPoints

/-- SOURCE: src/key-manager/KeyManager.ts:708-720 -/
def composeOpen (key : κ) (snap : RateLimitResult) (km : KeyManager κ) : KeyState κ where
  key := key
  totalHits := snap.totalHits
  remaining := snap.remaining
  resetTime := .time snap.resetTime
  isBlocked := snap.isBlocked
  isManuallyBlocked := false
  penaltyPoints := (km.getAdjustment key).penaltyPoints
  rewardPoints := (km.getAdjustment key).rewardPoints

/-- SOURCE: src/key-manager/KeyManager.ts:722-734 -/
def composeZero (o : KeyManagerOptions) (now : ℤ) (key : κ) (km : KeyManager κ) : KeyState κ where
  key := key
  totalHits := 0
  remaining := o.maxRequests
  resetTime := .ofNumber ((JsNumber.ofInt now).add o.windowMs)
  isBlocked := false
  isManuallyBlocked := false
  penaltyPoints := (km.getAdjustment key).penaltyPoints
  rewardPoints := (km.getAdjustment key).rewardPoints

/-- SOURCE: src/key-manager/KeyManager.ts:673-682 -/
def composeKeyStateInternal (o : KeyManagerOptions) (now : ℤ) (key : κ)
    (snap : Option RateLimitResult) (km : KeyManager κ) : KeyState κ :=
  match km.blocks.lookup key, snap with
  | some b, _ =>
    if b.isActive now then km.composeBlocked o now key snap b.reason b.expiresAt
    else match snap with
      | none => km.composeZero o now key
      | some r => km.composeOpen key r
  | none, none => km.composeZero o now key
  | none, some r => km.composeOpen key r

/-- After the snapshot of `loadKeyState`.
SOURCE: src/key-manager/KeyManager.ts:574-585 -/
def loadedKeyState (o : KeyManagerOptions) (now : ℤ) (key : κ) (snap : Option RateLimitResult)
    (km : KeyManager κ) : Option (KeyState κ) :=
  match km.blocks.lookup key with
  | some b =>
    if b.isActive now then some (km.composeBlocked o now key snap b.reason b.expiresAt)
    else snap.map fun r => km.composeOpen key r
  | none => snap.map fun r => km.composeOpen key r

/-! ### Queries -/

/-- SOURCE: src/key-manager/KeyManager.ts:397-400 -/
def isBlocked (now : ℤ) (key : κ) (km : KeyManager κ) : Bool × KeyManager κ :=
  let km := km.expireDueBlocks now
  (km.isManualBlockActive now key, km)

/-- SOURCE: src/key-manager/KeyManager.ts:403-413 -/
def getBlockInfo (now : ℤ) (key : κ) (km : KeyManager κ) : Option KeyBlock × KeyManager κ :=
  let km := km.expireDueBlocks now
  (match km.blocks.lookup key with
    | none => none
    | some b => if b.isDue now then none else some b, km)

/-- SOURCE: src/key-manager/KeyManager.ts:459-469 -/
def getBlockedKeys (now : ℤ) (km : KeyManager κ) :
    List (κ × KeyBlockReason × Option JsDate) × KeyManager κ :=
  let km := km.expireDueBlocks now
  ((km.blocks.entries.filter fun e => e.2.isActive now).map fun e =>
    (e.1, e.2.reason, e.2.expiresAt), km)

/-! ### `block` -/

/-- SOURCE: src/key-manager/KeyManager.ts:206-207 -/
def blockEntry (now : ℤ) (durationMs : JsNumber) (reason : KeyBlockReason) : KeyBlock where
  reason := reason
  expiresAt := if durationMs = 0 then none
    else some (.ofNumber ((JsNumber.ofInt now).add durationMs))
  blockedAt := now

/-- Up to the call of `setBlock`.
SOURCE: src/key-manager/KeyManager.ts:199-208 -/
def blockStart (now : ℤ) (key : κ) (durationMs : JsNumber) (reason : KeyBlockReason)
    (km : KeyManager κ) : KeyManager κ :=
  let km := km.expireDueBlocks now
  { km with blocks := km.blocks.set key (blockEntry now durationMs reason) }

/-- After the snapshot.
SOURCE: src/key-manager/KeyManager.ts:216-228 -/
def blockFinish (o : KeyManagerOptions) (now : ℤ) (key : κ) (b : KeyBlock)
    (snap : Option RateLimitResult) (km : KeyManager κ) : KeyManager κ × KeyState κ :=
  let state := km.composeBlocked o now key snap b.reason b.expiresAt
  (km.emitTyped (.blocked key b.reason b.expiresAt state now), state)

/-! ### `unblock` -/

/-- The entry to be lifted, before `removeBlock`.
SOURCE: src/key-manager/KeyManager.ts:234-239 -/
def unblockStart (now : ℤ) (key : κ) (km : KeyManager κ) : KeyManager κ × Option KeyBlock :=
  let km := km.expireDueBlocks now
  (km, km.blocks.lookup key)

/-- The violation count of a key starts over. -/
def clearViolations (key : κ) (km : KeyManager κ) : KeyManager κ :=
  match km.adjustments key with
  | some r => (km.modifyObject key r fun adj => { adj with penaltyViolationCount := 0 }).setAdjustment
      key r
  | none => km

/-- One key of a bulk or a single unblock.
SOURCE: src/key-manager/KeyManager.ts:243-256, 475-490 -/
def liftBlock (now : ℤ) (key : κ) (wasReason : KeyBlockReason) (km : KeyManager κ) :
    KeyManager κ :=
  (({ km with blocks := km.blocks.erase key } : KeyManager κ).clearViolations key).emitTyped
    (.unblocked key wasReason .manual now)

/-- After `removeBlock`, up to the snapshot of `loadKeyState`.
SOURCE: src/key-manager/KeyManager.ts:243-259 -/
def unblockRemove (now : ℤ) (key : κ) (entry : KeyBlock) (km : KeyManager κ) : KeyManager κ :=
  (km.liftBlock now key entry.reason).expireDueBlocks now

/-- SOURCE: src/key-manager/KeyManager.ts:471-491 -/
def unblockAll (now : ℤ) (km : KeyManager κ) : KeyManager κ :=
  let km := km.expireDueBlocks now
  km.blocks.entries.foldl (fun km e => km.liftBlock now e.1 e.2.reason) km

/-! ### `penalty` and `reward` -/

/-- SOURCE: src/key-manager/KeyManager.ts:268, 336 -/
def pointsOf (points : JsNumber) : JsNumber := JsNumber.max 1 points.floor

/-- Up to the call of the store.
SOURCE: src/key-manager/KeyManager.ts:266-269, 334-337 -/
def touch (o : KeyManagerOptions) (now : ℤ) (key : κ) (km : KeyManager κ) : KeyManager κ :=
  (km.expireDueBlocks now).touchAdjustmentWindow o now key

/-- After `store.increment`; without an entry, reading its points throws.
SOURCE: src/key-manager/KeyManager.ts:273-275 -/
def penaltyCount (key : κ) (p : JsNumber) (km : KeyManager κ) : Option (KeyManager κ × ℕ) :=
  (km.adjustments key).map fun r =>
    ((km.modifyObject key r fun adj =>
      { adj with penaltyPoints := adj.penaltyPoints.add p }).setAdjustment key r, r)

/-- The points have reached the threshold, if there is one. -/
def thresholdReached (o : KeyManagerOptions) (penaltyPoints : JsNumber) : Bool :=
  match o.penaltyBlockThreshold with
  | some threshold => threshold.le penaltyPoints
  | none => false

/-- How long the block of a violation lasts.
SOURCE: src/key-manager/KeyManager.ts:297 -/
def penaltyDuration (o : KeyManagerOptions) (violations : ℕ) : JsNumber :=
  JsNumber.max 0 (o.penaltyEscalation violations).floor

/-- The block of a violation.
SOURCE: src/key-manager/KeyManager.ts:298-310 -/
def penaltyEntry (o : KeyManagerOptions) (now : ℤ) (adj : KeyAdjustment) : KeyBlock where
  reason := .penaltyEscalation adj.penaltyPoints (o.penaltyBlockThreshold.getD 0)
    (some (.ofInt adj.penaltyViolationCount))
  expiresAt := some (.ofNumber ((JsNumber.ofInt now).add
    (penaltyDuration o adj.penaltyViolationCount)))
  blockedAt := now

/-- After the snapshot, up to the call of `setBlock` when there is a violation.
SOURCE: src/key-manager/KeyManager.ts:277-311 -/
def penaltySettle (o : KeyManagerOptions) (now : ℤ) (key : κ) (p : JsNumber) (r : ℕ)
    (snap : Option RateLimitResult) (km : KeyManager κ) :
    KeyManager κ × KeyState κ × Option KeyBlock :=
  let adj := km.object key r
  let state := km.composeKeyStateInternal o now key snap
  let km := km.emitTyped (.penalized key p adj.penaltyPoints state now)
  if thresholdReached o adj.penaltyPoints && !km.isManualBlockActive now key then
    let km := (km.modifyObject key r fun adj =>
      { adj with penaltyViolationCount := adj.penaltyViolationCount + 1 }).setAdjustment key r
    let b := penaltyEntry o now
      { adj with penaltyViolationCount := adj.penaltyViolationCount + 1 }
    ({ km with blocks := km.blocks.set key b }, state, some b)
  else (km, state, none)

/-- After `store.decrement`.
SOURCE: src/key-manager/KeyManager.ts:341-343 -/
def rewardCount (key : κ) (p : JsNumber) (km : KeyManager κ) : Option (KeyManager κ × ℕ) :=
  (km.adjustments key).map fun r =>
    ((km.modifyObject key r fun adj =>
      { adj with rewardPoints := adj.rewardPoints.add p }).setAdjustment key r, r)

/-- After the snapshot.
SOURCE: src/key-manager/KeyManager.ts:345-357 -/
def rewardSettle (o : KeyManagerOptions) (now : ℤ) (key : κ) (p : JsNumber) (r : ℕ)
    (snap : Option RateLimitResult) (km : KeyManager κ) : KeyManager κ × KeyState κ :=
  let state := km.composeKeyStateInternal o now key snap
  (km.emitTyped (.rewarded key p (km.object key r).rewardPoints state now), state)

/-! ### `delete` -/

/-- After `removeBlock`, up to the call of the store.
SOURCE: src/key-manager/KeyManager.ts:373-374 -/
def deleteRemove (key : κ) (km : KeyManager κ) : KeyManager κ :=
  { km with
    blocks := km.blocks.erase key
    adjustments := Function.update km.adjustments key none }

/-- SOURCE: src/key-manager/KeyManager.ts:386-390 -/
def deleteFinish (now : ℤ) (key : κ) (previousState : Option (KeyState κ)) (km : KeyManager κ) :
    KeyManager κ :=
  km.emitTyped (.deleted key previousState now)

/-! ### `syncBlocks` -/

/-- What `getAllBlocks` answered takes the place of the local blocks.
SOURCE: src/key-manager/KeyManager.ts:136-152 -/
def syncFinish (now : ℤ) (remote : InsertionMap κ KeyBlock) (km : KeyManager κ) :
    KeyManager κ :=
  let kept := km.blocks.entries.keys.foldl (fun blocks key =>
    if key ∈ remote then blocks else blocks.erase key) km.blocks
  { km with
    blocks := remote.entries.foldl (fun blocks r =>
      if r.2.isDue now then blocks else blocks.set r.1 r.2) kept }

/-! ### What the segments do to `blocks` -/

section Blocks

variable (o : KeyManagerOptions) (now : ℤ) (key k : κ) (km : KeyManager κ)

omit [DecidableEq κ] in
/-- An event that is emitted changes no block. -/
@[simp] theorem blocks_emitTyped (event : KeyManagerEvent κ) :
    (km.emitTyped event).blocks = km.blocks := rfl

/-- Nor does an adjustment object that changes. -/
@[simp] theorem blocks_modifyObject (r : ℕ) (f : KeyAdjustment → KeyAdjustment) :
    (km.modifyObject key r f).blocks = km.blocks := rfl

/-- Nor one that a key is given. -/
@[simp] theorem blocks_setAdjustment (r : ℕ) : (km.setAdjustment key r).blocks = km.blocks := rfl

/-- Nor a new one. -/
@[simp] theorem blocks_newAdjustment (adj : KeyAdjustment) :
    (km.newAdjustment key adj).blocks = km.blocks := rfl

/-- Nor the window of the adjustments that rolls. -/
@[simp] theorem blocks_touchAdjustmentWindow :
    (km.touchAdjustmentWindow o now key).blocks = km.blocks := by
  unfold touchAdjustmentWindow
  split
  · rfl
  · dsimp only
    split <;> rfl

/-- Nor the violations that are cleared. -/
@[simp] theorem blocks_clearViolations : (km.clearViolations key).blocks = km.blocks := by
  unfold clearViolations
  split <;> rfl

/-- Lifting a block takes the entry of its key. -/
@[simp] theorem blocks_liftBlock (wasReason : KeyBlockReason) :
    (km.liftBlock now key wasReason).blocks = km.blocks.erase key := by
  simp [liftBlock]

/-- An expiry drops the entries that are due. -/
@[simp] theorem lookup_expireDueBlocks :
    (km.expireDueBlocks now).blocks.lookup k =
      (km.blocks.lookup k).bind fun v => if v.isDue now then none else some v := by
  simp [expireDueBlocks]

/-- A block sets the entry of its key, after the expiry. -/
theorem lookup_blockStart (durationMs : JsNumber) (reason : KeyBlockReason) :
    (km.blockStart now key durationMs reason).blocks.lookup k =
      if k = key then some (blockEntry now durationMs reason)
      else (km.expireDueBlocks now).blocks.lookup k :=
  InsertionMap.lookup_set _ _ _ _

/-- Lifting several takes the entries of their keys. -/
theorem lookup_foldl_liftBlock (entries : List (Sigma fun _ : κ => KeyBlock)) :
    (entries.foldl (fun km e => km.liftBlock now e.1 e.2.reason) km).blocks.lookup k =
      if k ∈ entries.keys then none else km.blocks.lookup k := by
  induction entries generalizing km with
  | nil => rfl
  | cons e entries ih =>
    rw [List.foldl_cons, ih, blocks_liftBlock, InsertionMap.lookup_erase', List.keys_cons]
    by_cases hk : k = e.1
    · subst hk
      simp
    · simp [hk]

/-- Nothing is left blocked. -/
theorem lookup_unblockAll : (km.unblockAll now).blocks.lookup k = none := by
  unfold unblockAll
  rw [lookup_foldl_liftBlock]
  split
  · rfl
  · next hk => exact List.dlookup_eq_none.mpr hk

/-- A `delete` takes the entry of its key. -/
theorem lookup_deleteRemove :
    (km.deleteRemove key).blocks.lookup k = if k = key then none else km.blocks.lookup k :=
  InsertionMap.lookup_erase' _ _ _

/-- A sync first drops what the store does not list. -/
theorem lookup_foldl_erase_unlisted (remote : InsertionMap κ KeyBlock) (keys : List κ)
    (m : InsertionMap κ KeyBlock) :
    (keys.foldl (fun blocks key => if key ∈ remote then blocks else blocks.erase key) m).lookup k =
      if k ∈ keys ∧ k ∉ remote then none else m.lookup k := by
  induction keys generalizing m with
  | nil => simp
  | cons key keys ih =>
    rw [List.foldl_cons, ih]
    by_cases hkey : key ∈ remote
    · rw [if_pos hkey]
      have hiff : (k ∈ key :: keys ∧ k ∉ remote) ↔ (k ∈ keys ∧ k ∉ remote) := by
        constructor
        · rintro ⟨hk, hnot⟩
          rcases List.mem_cons.mp hk with rfl | hk
          · exact absurd hkey hnot
          · exact ⟨hk, hnot⟩
        · exact fun ⟨hk, hnot⟩ => ⟨List.mem_cons_of_mem key hk, hnot⟩
      simp only [hiff]
    · rw [if_neg hkey, InsertionMap.lookup_erase']
      by_cases hk : k = key
      · subst hk
        simp [hkey]
      · simp [hk]

/-- Then it sets what the store lists and what is not due. -/
theorem lookup_foldl_set_listed (entries : List (Sigma fun _ : κ => KeyBlock))
    (hnodup : entries.NodupKeys) (m : InsertionMap κ KeyBlock) :
    (entries.foldl (fun blocks r => if r.2.isDue now then blocks else blocks.set r.1 r.2) m).lookup
        k =
      ((entries.dlookup k).bind fun v => if v.isDue now then none else some v).or (m.lookup k) := by
  induction entries generalizing m with
  | nil => simp
  | cons e entries ih =>
    obtain ⟨key, v⟩ := e
    obtain ⟨hnot, hnodup⟩ := List.nodupKeys_cons.mp hnodup
    rw [List.foldl_cons, ih hnodup]
    by_cases hk : k = key
    · subst hk
      rw [List.dlookup_cons_eq, List.dlookup_eq_none.mpr hnot]
      by_cases hdue : v.isDue now = true
      · simp [hdue]
      · simp [hdue]
    · rw [List.dlookup_cons_ne _ _ hk]
      by_cases hdue : v.isDue now = true
      · simp [hdue]
      · simp [hdue, InsertionMap.lookup_set_ne _ v hk]

/-- After a sync a key is blocked as in the snapshot, but for what is due there. -/
theorem lookup_syncFinish (remote : InsertionMap κ KeyBlock) :
    (km.syncFinish now remote).blocks.lookup k =
      match remote.lookup k with
      | none => none
      | some v => if v.isDue now then km.blocks.lookup k else some v := by
  simp only [syncFinish]
  rw [lookup_foldl_set_listed now k remote.entries remote.nodupKeys, lookup_foldl_erase_unlisted]
  show ((remote.lookup k).bind _).or _ = _
  cases hv : remote.lookup k with
  | none =>
    have hnot : k ∉ remote := AList.lookup_eq_none.mp hv
    by_cases hk : k ∈ km.blocks.entries.keys
    · simp [hk, hnot]
    · have hnone : km.blocks.lookup k = none := List.dlookup_eq_none.mpr hk
      simp [hk, hnone]
  | some v =>
    have hmem : k ∈ remote := AList.lookup_isSome.mp (by rw [hv]; rfl)
    by_cases hdue : v.isDue now = true
    · simp [hdue, hmem]
    · simp [hdue]

end Blocks

end KeyManager

end RatelimitFlex
