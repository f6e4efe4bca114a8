import RatelimitFlex.Library.TimedRun
import RatelimitFlex.Program.KeyManager

/-!
# Whole operations of `KeyManager`

Each operation from its call to its return, nothing coming between: what runs before the first
await at `started`, what runs after the store's last answer at `done`.  An operation answers
with the `KeyState` it returns, if it returns one.  No call of the store fails in between: what a
`penalty` leaves that rolls the window and then throws is not here.
-/

set_option autoImplicit false

namespace RatelimitFlex

open Library

/-- One operation; `sync` brings what the block store listed. -/
inductive KeyManagerOp (κ : Type) where
  | get (key : κ)
  | set (key : κ)
  | block (key : κ) (durationMs : JsNumber) (reason : KeyBlockReason)
  | unblock (key : κ)
  | unblockAll
  | penalty (key : κ) (points : JsNumber)
  | reward (key : κ) (points : JsNumber)
  | delete (key : κ)
  | expireDueBlocks
  | sync (remote : InsertionMap κ KeyBlock)

/-- An operation with the times it is called and returns at, and the snapshot the store answers
with in between. -/
structure KeyManagerCallAt (κ : Type) where
  started : ℤ
  done : ℤ
  op : KeyManagerOp κ
  snap : Option RateLimitResult

namespace KeyManager

variable {κ : Type} [DecidableEq κ] (o : KeyManagerOptions) (started done : ℤ) (key : κ)
  (snap : Option RateLimitResult) (km : KeyManager κ)

/-- SOURCE: src/key-manager/KeyManager.ts:160-164 -/
def get : KeyManager κ × Option (KeyState κ) :=
  let km := km.expireDueBlocks started
  (km, km.loadedKeyState o done key snap)

/-- SOURCE: src/key-manager/KeyManager.ts:170-192 -/
def set : KeyManager κ × Option (KeyState κ) :=
  (km, some (km.composeKeyStateInternal o done key snap))

/-- SOURCE: src/key-manager/KeyManager.ts:199-229 -/
def block (durationMs : JsNumber) (reason : KeyBlockReason) : KeyManager κ × Option (KeyState κ) :=
  let r := (km.blockStart started key durationMs reason).blockFinish o done key
    (blockEntry started durationMs reason) snap
  (r.1, some r.2)

/-- SOURCE: src/key-manager/KeyManager.ts:234-260 -/
def unblock : KeyManager κ × Option (KeyState κ) :=
  match km.unblockStart started key with
  | (km, none) => (km, none)
  | (km, some entry) =>
    let km := km.unblockRemove started key entry
    (km, some ((km.loadedKeyState o done key snap).getD (km.composeZero o done key)))

/-- SOURCE: src/key-manager/KeyManager.ts:266-327 -/
def penalty (points : JsNumber) : KeyManager κ × Option (KeyState κ) :=
  let p := pointsOf points
  let km := km.touch o started key
  match km.penaltyCount key p with
  | none => (km, none)
  | some (km, r) =>
    match km.penaltySettle o done key p r snap with
    | (km, state, none) => (km, some state)
    | (km, _, some b) =>
      let r := km.blockFinish o done key b snap
      (r.1, some r.2)

/-- SOURCE: src/key-manager/KeyManager.ts:333-359 -/
def reward (points : JsNumber) : KeyManager κ × Option (KeyState κ) :=
  let p := pointsOf points
  let km := km.touch o started key
  match km.rewardCount key p with
  | none => (km, none)
  | some (km, r) =>
    let s := km.rewardSettle o done key p r snap
    (s.1, some s.2)

/-- SOURCE: src/key-manager/KeyManager.ts:365-394 -/
def delete : KeyManager κ :=
  let km := km.expireDueBlocks started
  let previousState := km.loadedKeyState o done key snap
  (km.deleteRemove key).deleteFinish done key previousState

/-- One operation, and the `KeyState` it returns. -/
def perform (i : KeyManagerCallAt κ) (km : KeyManager κ) : KeyManager κ × Option (KeyState κ) :=
  match i.op with
  | .get key => km.get o i.started i.done key i.snap
  | .set key => km.set o i.done key i.snap
  | .block key durationMs reason => km.block o i.started i.done key i.snap durationMs reason
  | .unblock key => km.unblock o i.started i.done key i.snap
  | .unblockAll => (km.unblockAll i.started, none)
  | .penalty key points => km.penalty o i.started i.done key i.snap points
  | .reward key points => km.reward o i.started i.done key i.snap points
  | .delete key => (km.delete o i.started i.done key i.snap, none)
  | .expireDueBlocks => (km.expireDueBlocks i.started, none)
  | .sync remote => ((km.expireDueBlocks i.started).syncFinish i.done remote, none)

end KeyManager

end RatelimitFlex
