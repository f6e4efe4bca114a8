import RatelimitFlex.Library.TimedRun
import RatelimitFlex.Program.KeyManager
import RatelimitFlex.Program.MemoryStore

/-!
# Several `KeyManager`s over one `MemoryBlockStore`

`src/key-manager/block-store.ts`, and the operations of `KeyManager` that call it.  A call of the
block store takes effect at once; the operation that made it goes on at a later `resume`, and in
between any other operation may run.  Operations are numbered in the order of their calls.

`touched` and `superseded` are read by no operation: they keep which keys the manager itself
blocked or unblocked since a sync read the store, and whether it blocked the key of an unblock
that has not gone on yet.
-/

set_option autoImplicit false

namespace RatelimitFlex

open Library

/-! ## `MemoryBlockStore` -/

namespace MemoryBlockStore

variable {κ : Type} [DecidableEq κ]

/-- SOURCE: src/key-manager/block-store.ts:44-49 -/
def setBlock (key : κ) (b : KeyBlock) (map : InsertionMap κ KeyBlock) : InsertionMap κ KeyBlock :=
  map.set key b

/-- SOURCE: src/key-manager/block-store.ts:51-61 -/
def getBlock (now : ℤ) (key : κ) (map : InsertionMap κ KeyBlock) :
    Option KeyBlock × InsertionMap κ KeyBlock :=
  match map.lookup key with
  | none => (none, map)
  | some v => if v.isDue now then (none, map.erase key) else (some v, map)

/-- SOURCE: src/key-manager/block-store.ts:63-65 -/
def removeBlock (key : κ) (map : InsertionMap κ KeyBlock) : InsertionMap κ KeyBlock :=
  map.erase key

/-- The entries that are not due are the answer, and are what is left.
SOURCE: src/key-manager/block-store.ts:67-80 -/
def getAllBlocks (now : ℤ) (map : InsertionMap κ KeyBlock) : InsertionMap κ KeyBlock :=
  map.filterMapValues fun v => if v.isDue now then none else some v

end MemoryBlockStore

/-! ## The operations in flight -/

/-- An operation of manager `m` that waits, by what it does next. -/
inductive SharedPending (κ μ : Type) where
  | blocking (m : μ) (key : κ) (b : KeyBlock)
  | unblocking (m : μ) (key : κ) (entry : KeyBlock) (superseded : Bool)
  | syncing (m : μ) (remote : InsertionMap κ KeyBlock) (touched : List κ)

/-- A call at manager `m`; `tick` is its expiry timer, or a query. -/
inductive SharedCall (κ μ : Type) where
  | block (m : μ) (key : κ) (durationMs : JsNumber) (reason : KeyBlockReason)
  | unblock (m : μ) (key : κ)
  | unblockAll (m : μ)
  | syncBlocks (m : μ)
  | tick (m : μ)

inductive SharedInput (κ μ : Type) where
  | call (c : SharedCall κ μ)
  | resume (n : ℕ) (snap : Option RateLimitResult)

structure SharedBlocks (κ μ : Type) where
  managers : μ → KeyManager κ := fun _ => {}
  store : InsertionMap κ KeyBlock := ∅
  started : ℕ := 0
  pending : List (ℕ × SharedPending κ μ) := []

namespace SharedPending

variable {κ μ : Type} [DecidableEq κ] [DecidableEq μ]

/-- Manager `m` blocked or unblocked `key`. -/
def touch (m : μ) (key : κ) : SharedPending κ μ → SharedPending κ μ
  | .syncing m' remote touched =>
    if m' = m then .syncing m' remote (key :: touched) else .syncing m' remote touched
  | .blocking m' key' b => .blocking m' key' b
  | .unblocking m' key' entry superseded => .unblocking m' key' entry superseded

/-- Manager `m` blocked `key`. -/
def supersede (m : μ) (key : κ) : SharedPending κ μ → SharedPending κ μ
  | .unblocking m' key' entry superseded =>
    .unblocking m' key' entry (superseded || (decide (m' = m) && decide (key' = key)))
  | .blocking m' key' b => .blocking m' key' b
  | .syncing m' remote touched => .syncing m' remote touched

end SharedPending

namespace SharedBlocks

variable {κ μ : Type} [DecidableEq κ] [DecidableEq μ] (o : μ → KeyManagerOptions)

def setManager (m : μ) (km : KeyManager κ) (s : SharedBlocks κ μ) : SharedBlocks κ μ :=
  { s with managers := Function.update s.managers m km }

def mapPending (f : SharedPending κ μ → SharedPending κ μ) (s : SharedBlocks κ μ) :
    SharedBlocks κ μ :=
  { s with pending := s.pending.map fun e => (e.1, f e.2) }

/-- The operation that was just called waits. -/
def await (p : SharedPending κ μ) (s : SharedBlocks κ μ) : SharedBlocks κ μ :=
  { s with pending := s.pending ++ [(s.started, p)] }

/-- A call, up to its first await.
SOURCE: src/key-manager/KeyManager.ts:136-140, 205-213, 234-242, 471-497 -/
def begin (now : ℤ) (s : SharedBlocks κ μ) : SharedCall κ μ → SharedBlocks κ μ
  | .block m key durationMs reason =>
    let b := KeyManager.blockEntry now durationMs reason
    let s := s.setManager m ((s.managers m).blockStart now key durationMs reason)
    let s := (s.mapPending (.touch m key)).mapPending (.supersede m key)
    { s with store := MemoryBlockStore.setBlock key b s.store }.await (.blocking m key b)
  | .unblock m key =>
    match (s.managers m).unblockStart now key with
    | (km, none) => (s.setManager m km).mapPending (.touch m key)
    | (km, some entry) =>
      let s := s.setManager m km
      { s with store := MemoryBlockStore.removeBlock key s.store }.await
        (.unblocking m key entry false)
  | .unblockAll m =>
    let keys := ((s.managers m).expireDueBlocks now).blocks.entries.keys
    let s := s.setManager m ((s.managers m).unblockAll now)
    { s with store := keys.foldl (fun map key => MemoryBlockStore.removeBlock key map) s.store }
  | .syncBlocks m =>
    let s := s.setManager m ((s.managers m).expireDueBlocks now)
    let remote := MemoryBlockStore.getAllBlocks now s.store
    { s with store := remote }.await (.syncing m remote [])
  | .tick m => s.setManager m ((s.managers m).expireDueBlocks now)

/-- A waiting operation goes on to its end.
SOURCE: src/key-manager/KeyManager.ts:140-152, 216-228, 243-259 -/
def advance (now : ℤ) (snap : Option RateLimitResult) (s : SharedBlocks κ μ) :
    SharedPending κ μ → SharedBlocks κ μ
  | .blocking m key b => s.setManager m ((s.managers m).blockFinish (o m) now key b snap).1
  | .unblocking m key entry _ =>
    (s.setManager m ((s.managers m).unblockRemove now key entry)).mapPending (.touch m key)
  | .syncing m remote _ => s.setManager m ((s.managers m).syncFinish now remote)

/-- The operation with the number `n`, if it waits. -/
def waiting (n : ℕ) (s : SharedBlocks κ μ) : Option (SharedPending κ μ) :=
  (s.pending.find? fun e => e.1 = n).map Prod.snd

/-- One step. -/
def step (i : Timed (SharedInput κ μ)) (s : SharedBlocks κ μ) : SharedBlocks κ μ × Unit :=
  match i.op with
  | .call c =>
    let s := s.begin i.time c
    ({ s with started := s.started + 1 }, ())
  | .resume n snap =>
    match s.waiting n with
    | none => (s, ())
    | some p =>
      (advance o i.time snap { s with pending := s.pending.filter fun e => e.1 ≠ n } p, ())

end SharedBlocks

end RatelimitFlex
