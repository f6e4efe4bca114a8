import RatelimitFlex.Program.KeyManagerRuns

/-!
# The admin API's `block`

`src/key-manager/admin-common.ts`: what a request body is checked for, the call it is turned
into, and the answer.  The actor, which only the audit log reads, is left out.  A date that is
written as text is that date's time here.
-/

set_option autoImplicit false

namespace RatelimitFlex

/-! ## Values of a request body -/

/-- What a JSON body can hold, and what a missing field reads as. -/
inductive JsValue where
  | undefined
  | null
  | bool (b : Bool)
  | number (x : JsNumber)
  | string (s : String)
  | array (elements : List JsValue)
  | object (fields : List (String × JsValue))

namespace JsValue

/-- `typeof value === 'object' && value !== null`. -/
def isObject : JsValue → Bool
  | .array _ => true
  | .object _ => true
  | _ => false

/-- `name in value`. -/
def hasField (name : String) : JsValue → Bool
  | .object fields => fields.any fun f => f.1 == name
  | _ => false

/-- `value[name]`. -/
def field (name : String) : JsValue → JsValue
  | .object fields => ((fields.find? fun f => f.1 == name).map Prod.snd).getD .undefined
  | _ => .undefined

/-- The value, if its type is `string`. -/
def asString : JsValue → Option String
  | .string s => some s
  | _ => none

/-- The value, if its type is `number`. -/
def asNumber : JsValue → Option JsNumber
  | .number x => some x
  | _ => none

end JsValue

/-- `date.toISOString()`, which throws on a date that is not valid. -/
def JsDate.toISOString : JsDate → Except String ℤ
  | .time ms => if |ms| ≤ maxDateMs then .ok ms else .error "Invalid time value"
  | .invalid => .error "Invalid time value"

/-- `date?.toISOString() ?? null`. -/
def JsDate.toISOStringOrNull : Option JsDate → Except String (Option ℤ)
  | none => .ok none
  | some date => date.toISOString.map some

/-! ## Answers -/

/-- SOURCE: src/key-manager/admin-common.ts:14-33 -/
structure KeyStateJson (κ : Type) where
  key : κ
  totalHits : ℤ
  remaining : ℤ
  resetTime : ℤ
  isBlocked : Bool
  isManuallyBlocked : Bool
  blockReason : Option KeyBlockReason
  blockExpiresAt : Option ℤ
  penaltyPoints : JsNumber
  rewardPoints : JsNumber

inductive AdminBody (κ : Type) where
  | error (message : String)
  | state (json : KeyStateJson κ)

structure AdminResponse (κ : Type) where
  status : ℕ
  body : AdminBody κ

/-- SOURCE: src/key-manager/admin-common.ts:14-33 -/
def keyStateToJson {κ : Type} (state : KeyState κ) : Except String (KeyStateJson κ) := do
  let resetTime ← state.resetTime.toISOString
  let blockExpiresAt ← JsDate.toISOStringOrNull state.blockExpiresAt
  return {
    key := state.key
    totalHits := state.totalHits
    remaining := state.remaining
    resetTime
    isBlocked := state.isBlocked
    isManuallyBlocked := state.isManuallyBlocked
    blockReason := state.blockReason
    blockExpiresAt
    penaltyPoints := state.penaltyPoints
    rewardPoints := state.rewardPoints }

/-- A route: what the handler throws becomes a 500.
SOURCE: src/key-manager/admin.ts:71-80 -/
def adminRoute {κ : Type} : Except String (AdminResponse κ) → AdminResponse κ
  | .ok response => response
  | .error message => ⟨500, .error message⟩

/-! ## `adminPostBlock` -/

/-- `text` writes a value down, for the error and for the metadata.
SOURCE: src/key-manager/admin-common.ts:68-116 -/
def parseBlockReason (text : JsValue → String) (value : JsValue) :
    Except String KeyBlockReason :=
  match value with
  | .undefined => .ok .manual
  | .null => .ok .manual
  | value =>
    if !value.isObject || !value.hasField "type" then
      .error "reason must be an object with a type field"
    else match value.field "type" with
      | .string "manual" => .ok (.manual (value.field "message").asString)
      | .string "penalty-escalation" =>
        match value.field "penaltyCount", value.field "threshold" with
        | .number penaltyCount, .number threshold =>
          .ok (.penaltyEscalation penaltyCount threshold (value.field "violationNumber").asNumber)
        | _, _ => .error "penalty-escalation requires numeric penaltyCount and threshold"
      | .string "abuse-pattern" =>
        match value.field "pattern" with
        | .string pattern => .ok (.abusePattern pattern)
        | _ => .error "abuse-pattern requires pattern string"
      | .string "custom" =>
        match value.field "code" with
        | .string code =>
          let metadata := value.field "metadata"
          .ok (.custom code (if metadata.isObject then some (text metadata) else none))
        | _ => .error "custom requires code string"
      | t => .error ("unknown reason type: " ++ text t)

/-- Up to the first await of the call it makes.
SOURCE: src/key-manager/admin-common.ts:162-180 -/
def adminPostBlockStart {κ : Type} (text : JsValue → String) (key : κ) (rawBody : JsValue) :
    Except (AdminResponse κ) (KeyManagerCall κ) :=
  if !rawBody.isObject then .error ⟨400, .error "Expected JSON body"⟩
  else match rawBody.field "durationMs" with
    | .number (.finite durationMs) =>
      if durationMs < 0 then
        .error ⟨400, .error "durationMs must be a non-negative finite number"⟩
      else match parseBlockReason text (rawBody.field "reason") with
        | .error error => .error ⟨400, .error error⟩
        | .ok reason => .ok (.block key (.finite durationMs) reason)
    | _ => .error ⟨400, .error "durationMs must be a non-negative finite number"⟩

/-- After the snapshot of the call.
SOURCE: src/key-manager/KeyManager.ts:216-228, src/key-manager/admin-common.ts:180-181 -/
def adminPostBlockFinish {κ : Type} [DecidableEq κ] (o : KeyManagerOptions) (now : ℤ) (key : κ)
    (b : KeyBlock) (snap : Option RateLimitResult) (km : KeyManager κ) :
    KeyManager κ × Except String (AdminResponse κ) :=
  let r := km.blockFinish o now key b snap
  (r.1, do
    -- the audit entry of `block` has the end of the block as text
    let _ ← JsDate.toISOStringOrNull b.expiresAt
    let json ← keyStateToJson r.2
    return ⟨200, .state json⟩)

/-- A request is answered with 400, or calls `block` for a finite time. -/
theorem adminPostBlockStart_cases {κ : Type} (text : JsValue → String) (key : κ)
    (rawBody : JsValue) :
    (∃ message, adminPostBlockStart text key rawBody = .error ⟨400, .error message⟩) ∨
      ∃ q reason, 0 ≤ q ∧
        adminPostBlockStart text key rawBody = .ok (.block key (.finite q) reason) := by
  unfold adminPostBlockStart
  split
  · exact Or.inl ⟨_, rfl⟩
  · split
    · split
      · exact Or.inl ⟨_, rfl⟩
      · next q _ hq =>
        split
        · exact Or.inl ⟨_, rfl⟩
        · exact Or.inr ⟨q, _, not_lt.mp hq, rfl⟩
    · exact Or.inl ⟨_, rfl⟩

end RatelimitFlex
