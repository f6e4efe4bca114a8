import RatelimitFlex.Program.KeyManager

/-!
# The audit log of the key manager

`pushAudit`, `getAuditLog` and `clearAuditLog` of `src/key-manager/KeyManager.ts`.  The trimming
loop of `pushAudit` is counted: `none` is a loop that has not ended yet.  `δ` are the details of
an entry.
-/

set_option autoImplicit false

namespace RatelimitFlex

variable {κ δ : Type}

inductive AuditAction where
  | block
  | unblock
  | penalty
  | reward
  | set
  | delete
  | get
  deriving DecidableEq

/-- `timestamp` is a date that was current, in milliseconds.
SOURCE: src/key-manager/types.ts:87-94 -/
structure AuditEntry (κ δ : Type) where
  timestamp : ℤ
  key : κ
  action : AuditAction
  details : δ
  actor : Option String

/-- SOURCE: src/key-manager/KeyManager.ts:75 -/
def maxAuditLogSizeOf (option : Option JsNumber) : JsNumber := option.getD 1000

/-- `while (this.auditLog.length > this.maxAuditLogSize) this.auditLog.shift()`.
SOURCE: src/key-manager/KeyManager.ts:750-752 -/
def trimAuditLog (maxAuditLogSize : JsNumber) :
    ℕ → List (AuditEntry κ δ) → Option (List (AuditEntry κ δ))
  | 0, _ => none
  | fuel + 1, auditLog =>
    if maxAuditLogSize.lt (.ofInt auditLog.length) then
      trimAuditLog maxAuditLogSize fuel auditLog.tail
    else some auditLog

/-- SOURCE: src/key-manager/KeyManager.ts:734-753 -/
def pushAudit (maxAuditLogSize : JsNumber) (fuel : ℕ) (now : ℤ) (action : AuditAction) (key : κ)
    (details : δ) (actor : Option String) (auditLog : List (AuditEntry κ δ)) :
    Option (List (AuditEntry κ δ)) :=
  if maxAuditLogSize = 0 then some auditLog
  else
    trimAuditLog maxAuditLogSize fuel (auditLog ++ [{
      timestamp := now
      key := key
      action := action
      details := details
      actor := actor }])

/-- `rows.slice(0, limit)`. -/
def sliceTo {α : Type} (limit : JsNumber) (rows : List α) : List α :=
  match limit with
  | .nan => []
  | .posInfinity => rows
  | .negInfinity => []
  | .finite q =>
    let n : ℤ := if 0 ≤ q then ⌊q⌋ else ⌈q⌉
    if n < 0 then rows.take (rows.length - n.natAbs) else rows.take n.toNat

/-- SOURCE: src/key-manager/KeyManager.ts:432-437 -/
structure AuditFilter (κ : Type) where
  key : Option κ := none
  action : Option AuditAction := none
  since : Option JsDate := none
  limit : Option JsNumber := none

/-- `if (given !== undefined) rows = rows.filter(…)`. -/
def filterRows {α ε : Type} (given : Option α) (p : α → ε → Bool) (rows : List ε) : List ε :=
  match given with
  | some a => rows.filter (p a)
  | none => rows

/-- `if (limit !== undefined) rows = rows.slice(0, limit)`. -/
def limitRows {ε : Type} (limit : Option JsNumber) (rows : List ε) : List ε :=
  match limit with
  | some limit => sliceTo limit rows
  | none => rows

/-- SOURCE: src/key-manager/KeyManager.ts:432-453 -/
def getAuditLog [DecidableEq κ] (filter : AuditFilter κ) (auditLog : List (AuditEntry κ δ)) :
    List (AuditEntry κ δ) :=
  let rows := filterRows filter.key (fun key (e : AuditEntry κ δ) => e.key = key) auditLog
  let rows := filterRows filter.action (fun action (e : AuditEntry κ δ) => e.action = action) rows
  let rows := filterRows filter.since
    (fun since (e : AuditEntry κ δ) => since.notAfter e.timestamp) rows
  limitRows filter.limit rows.reverse

/-! ## Runs -/

/-- A call of `pushAudit` from an audited operation, or a call that empties the log
(`clearAuditLog`, `destroy`). -/
inductive AuditInput (κ δ : Type) where
  | push (now : ℤ) (action : AuditAction) (key : κ) (details : δ) (actor : Option String)
  | clear

/-- `none` when a loop has not ended. -/
def auditStep (maxAuditLogSize : JsNumber) (fuel : ℕ) (auditLog : List (AuditEntry κ δ)) :
    AuditInput κ δ → Option (List (AuditEntry κ δ))
  | .push now action key details actor =>
    pushAudit maxAuditLogSize fuel now action key details actor auditLog
  | .clear => some []

/-- The log after a run, each loop with the same count. -/
def auditRun (maxAuditLogSize : JsNumber) (fuel : ℕ) (is : List (AuditInput κ δ)) :
    Option (List (AuditEntry κ δ)) :=
  is.foldlM (auditStep maxAuditLogSize fuel) []

end RatelimitFlex
