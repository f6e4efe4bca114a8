import RatelimitFlex.Library.TimedRun
import RatelimitFlex.Program.KeyManager
import RatelimitFlex.Program.MemoryStore

/-!
# A `KeyManager` and its operations in flight

A call runs up to its first await and then waits in `pending`; a `resume` takes the operation at
a place to its next await, with what the store answered, and a `fail` drops an operation
whose awaited call rejected.  Which operation goes on, and when, is up to the environment.  With a
block store an operation also waits for its `setBlock` or `removeBlock`.
-/

set_option autoImplicit false

namespace RatelimitFlex

open Library

/-- An operation that waits, by what it does next. -/
inductive KeyManagerPending (κ : Type) where
  | block (key : κ) (b : KeyBlock)
  | unblock (key : κ) (entry : KeyBlock)
  | penaltyCounting (key : κ) (p : JsNumber)
  | penaltySettling (key : κ) (p : JsNumber) (r : ℕ)
  | penaltyBlocking (key : κ) (b : KeyBlock) (snap : Option RateLimitResult)
  | rewardCounting (key : κ) (p : JsNumber)
  | rewardSettling (key : κ) (p : JsNumber) (r : ℕ)
  | deleteLoading (key : κ)
  | deleteRemoving (key : κ) (previousState : Option (KeyState κ))
  | deleteFinishing (key : κ) (previousState : Option (KeyState κ))

/-- A call of an operation; `tick` is the expiry timer, or a query. -/
inductive KeyManagerCall (κ : Type) where
  | block (key : κ) (durationMs : JsNumber) (reason : KeyBlockReason)
  | unblock (key : κ)
  | unblockAll
  | penalty (key : κ) (points : JsNumber)
  | reward (key : κ) (points : JsNumber)
  | delete (key : κ)
  | tick

inductive KeyManagerInput (κ : Type) where
  | call (c : KeyManagerCall κ)
  | resume (n : ℕ) (snap : Option RateLimitResult)
  | fail (n : ℕ)

/-- What can be seen of one step: a block was placed, for `length` or for good, blocks were
lifted, or an operation threw. -/
inductive KeyManagerOutput (κ : Type) where
  | quiet
  | placed (key : κ) (length : Option JsNumber)
  | lifted (key : κ)
  | liftedAll
  | threw (key : κ)
  deriving DecidableEq

structure KeyManagerRun (κ : Type) where
  km : KeyManager κ := {}
  pending : List (KeyManagerPending κ) := []

namespace KeyManagerRun

variable {κ : Type} [DecidableEq κ] (o : KeyManagerOptions) (hasBlockStore : Bool)

/-- A call, up to its first await. -/
def begin (now : ℤ) (s : KeyManagerRun κ) :
    KeyManagerCall κ → KeyManagerRun κ × KeyManagerOutput κ
  | .block key durationMs reason =>
    (⟨s.km.blockStart now key durationMs reason,
        s.pending ++ [.block key (KeyManager.blockEntry now durationMs reason)]⟩,
      .placed key (if durationMs = 0 then none else some durationMs))
  | .unblock key =>
    match s.km.unblockStart now key with
    | (km, none) => ({ s with km }, .quiet)
    | (km, some entry) =>
      if hasBlockStore then (⟨km, s.pending ++ [.unblock key entry]⟩, .quiet)
      else ({ s with km := km.unblockRemove now key entry }, .lifted key)
  | .unblockAll => ({ s with km := s.km.unblockAll now }, .liftedAll)
  | .penalty key points =>
    (⟨s.km.touch o now key, s.pending ++ [.penaltyCounting key (KeyManager.pointsOf points)]⟩,
      .quiet)
  | .reward key points =>
    (⟨s.km.touch o now key, s.pending ++ [.rewardCounting key (KeyManager.pointsOf points)]⟩,
      .quiet)
  | .delete key => (⟨s.km.expireDueBlocks now, s.pending ++ [.deleteLoading key]⟩, .quiet)
  | .tick => ({ s with km := s.km.expireDueBlocks now }, .quiet)

/-- A waiting operation, up to its next await; `none` when it has returned. -/
def advance (now : ℤ) (snap : Option RateLimitResult) (km : KeyManager κ) :
    KeyManagerPending κ → KeyManager κ × Option (KeyManagerPending κ) × KeyManagerOutput κ
  | .block key b => ((km.blockFinish o now key b snap).1, none, .quiet)
  | .unblock key entry => (km.unblockRemove now key entry, none, .lifted key)
  | .penaltyCounting key p =>
    match km.penaltyCount key p with
    | some (km, r) => (km, some (.penaltySettling key p r), .quiet)
    | none => (km, none, .threw key)
  | .penaltySettling key p r =>
    let length := KeyManager.penaltyDuration o ((km.object key r).penaltyViolationCount + 1)
    match km.penaltySettle o now key p r snap with
    | (km, _, none) => (km, none, .quiet)
    | (km, _, some b) =>
      if hasBlockStore then (km, some (.penaltyBlocking key b snap), .placed key (some length))
      else ((km.blockFinish o now key b snap).1, none, .placed key (some length))
  | .penaltyBlocking key b snap => ((km.blockFinish o now key b snap).1, none, .quiet)
  | .rewardCounting key p =>
    match km.rewardCount key p with
    | some (km, r) => (km, some (.rewardSettling key p r), .quiet)
    | none => (km, none, .threw key)
  | .rewardSettling key p r => ((km.rewardSettle o now key p r snap).1, none, .quiet)
  | .deleteLoading key =>
    let previousState := km.loadedKeyState o now key snap
    if hasBlockStore then (km, some (.deleteRemoving key previousState), .quiet)
    else (km.deleteRemove key, some (.deleteFinishing key previousState), .lifted key)
  | .deleteRemoving key previousState =>
    (km.deleteRemove key, some (.deleteFinishing key previousState), .lifted key)
  | .deleteFinishing key previousState => (km.deleteFinish now key previousState, none, .quiet)

/-- One step. -/
def step (i : Timed (KeyManagerInput κ)) (s : KeyManagerRun κ) :
    KeyManagerRun κ × Timed (KeyManagerOutput κ) :=
  match i.op with
  | .call c =>
    let r := s.begin o hasBlockStore i.time c
    (r.1, ⟨i.time, r.2⟩)
  | .resume n snap =>
    match s.pending[n]? with
    | none => (s, ⟨i.time, .quiet⟩)
    | some p =>
      let (km, next, out) := advance o hasBlockStore i.time snap s.km p
      let pending := match next with
        | some q => s.pending.set n q
        | none => s.pending.eraseIdx n
      (⟨km, pending⟩, ⟨i.time, out⟩)
  | .fail n => ({ s with pending := s.pending.eraseIdx n }, ⟨i.time, .quiet⟩)

end KeyManagerRun

end RatelimitFlex
