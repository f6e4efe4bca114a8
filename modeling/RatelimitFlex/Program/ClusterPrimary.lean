import RatelimitFlex.Program.ClusterStore

/-!
# The primary on whatever the workers send

`src/cluster/ClusterStorePrimary.ts` with the messages as they arrive, where the strategy is
any string, and with the errors a handler may throw: what is sent before the throw, and the
last-resort `catch` around each handler.  The stores are whatever answers their calls
(`StoreCalls`); a call may throw.

On messages with typed options and `MemoryStore`s this is the primary of
`Program/ClusterStore.lean` (`handleInbound_toInbound`).
-/

set_option autoImplicit false

namespace RatelimitFlex

open Library

/-- SOURCE: src/cluster/protocol.ts:104-111 -/
structure InboundInitOptions where
  strategy : String
  windowMs : Option JsNumber := none
  maxRequests : Option JsNumber := none
  tokensPerInterval : Option JsNumber := none
  interval : Option JsNumber := none
  bucketSize : Option JsNumber := none
  deriving DecidableEq

/-- SOURCE: src/cluster/protocol.ts:19-57 -/
inductive InboundMessage (ι κ : Type) where
  | init (keyPrefix : String) (storeOptions : InboundInitOptions)
      (protocolVersion : Option JsNumber)
  | increment (id : ι) (keyPrefix : String) (key : κ) (options : RateLimitIncrementOptions)
  | decrement (id : ι) (keyPrefix : String) (key : κ) (options : RateLimitDecrementOptions)
  | reset (id : ι) (keyPrefix : String) (key : κ)
  | shutdown (id : ι) (keyPrefix : String)
  deriving DecidableEq

/-- The calls the primary makes to a store; only `create`, the constructor, never throws. -/
structure StoreCalls (σ κ : Type) where
  create : RateLimitStrategy → InboundInitOptions → σ
  increment : ℤ → κ → RateLimitIncrementOptions → σ → σ × Except String RateLimitResult
  decrement : κ → RateLimitDecrementOptions → σ → σ × Except String Unit
  reset : ℤ → κ → σ → σ × Except String Unit
  shutdown : σ → σ × Except String Unit
  purgeExpired : ℤ → σ → σ

/-- What a handler leaves: the stores, what it sent and what it threw. -/
structure Handling (σ ω ι : Type) where
  stores : String → Option σ
  sent : List (ω × ClusterPrimaryMessage ι)
  thrown : Option String := none

/-- SOURCE: src/cluster/ClusterStorePrimary.ts:31-40, src/types/index.ts:21-28 -/
def parseStrategy (value : String) : Except String RateLimitStrategy :=
  if value = "SLIDING_WINDOW" then .ok .slidingWindow
  else if value = "FIXED_WINDOW" then .ok .fixedWindow
  else if value = "TOKEN_BUCKET" then .ok .tokenBucket
  else .error ("Unknown strategy: " ++ value)

/-- The negotiated version, or the text of the refusal.
SOURCE: src/cluster/ClusterStorePrimary.ts:152-183 -/
def negotiateVersion (protocolVersion : Option JsNumber) : Except String ℤ :=
  match parseInitProtocolVersion protocolVersion with
  | none => .error ("ClusterStore: invalid init.protocolVersion " ++
      "(expected a positive integer, or omit for version 1).")
  | some negotiated =>
    if negotiated < minClusterIpcProtocolVersion then
      .error ("Cluster IPC protocol version " ++ toString negotiated ++
        " is no longer supported by this primary (minimum " ++
        toString minClusterIpcProtocolVersion ++ ").")
    else if clusterIpcProtocolVersion < negotiated then
      .error ("Cluster IPC protocol version " ++ toString negotiated ++
        " is newer than this primary supports (" ++ toString clusterIpcProtocolVersion ++
        "). Upgrade the primary process first.")
    else .ok negotiated

namespace StoreCalls

variable {σ ω ι κ : Type} (calls : StoreCalls σ κ)

/-- SOURCE: src/cluster/ClusterStorePrimary.ts:42-57 -/
def createMemoryStoreFromClusterOptions (opts : InboundInitOptions) : Except String σ :=
  (parseStrategy opts.strategy).map fun strategy => calls.create strategy opts

/-- SOURCE: src/cluster/ClusterStorePrimary.ts:151-204 -/
def handleInit (worker : ω) (keyPrefix : String) (storeOptions : InboundInitOptions)
    (protocolVersion : Option JsNumber) (stores : String → Option σ) : Handling σ ω ι :=
  match negotiateVersion protocolVersion with
  | .error refusal => ⟨stores, [(worker, .initNack keyPrefix refusal)], none⟩
  | .ok negotiated =>
    match stores keyPrefix with
    | some _ => ⟨stores, [(worker, .initAck keyPrefix negotiated)], none⟩
    | none =>
      match calls.createMemoryStoreFromClusterOptions storeOptions with
      | .error message => ⟨stores, [], some message⟩
      | .ok store =>
        ⟨Function.update stores keyPrefix (some store), [(worker, .initAck keyPrefix negotiated)],
          none⟩

/-- The four requests look their store up first; without one they say so. -/
def withStore (worker : ω) (id : ι) (keyPrefix : String) (stores : String → Option σ)
    (call : σ → Handling σ ω ι) : Handling σ ω ι :=
  match stores keyPrefix with
  | none =>
    ⟨stores, [(worker, .result id keyPrefix (.error (storeMissingError keyPrefix)))], none⟩
  | some store => call store

/-- The reply of a request that returns nothing. -/
def voidReply (id : ι) (keyPrefix : String) : Except String Unit → ClusterPrimaryMessage ι
  | .ok _ => .ack id keyPrefix
  | .error message => .result id keyPrefix (.error message)

/-- SOURCE: src/cluster/ClusterStorePrimary.ts:221-262 -/
def handleIncrement (now : ℤ) (worker : ω) (id : ι) (keyPrefix : String) (key : κ)
    (options : RateLimitIncrementOptions) (stores : String → Option σ) : Handling σ ω ι :=
  withStore worker id keyPrefix stores fun store =>
    let r := calls.increment now key options store
    ⟨Function.update stores keyPrefix (some r.1),
      [(worker, .result id keyPrefix (r.2.bind resultOutcome))], none⟩

/-- SOURCE: src/cluster/ClusterStorePrimary.ts:264-300 -/
def handleDecrement (worker : ω) (id : ι) (keyPrefix : String) (key : κ)
    (options : RateLimitDecrementOptions) (stores : String → Option σ) : Handling σ ω ι :=
  withStore worker id keyPrefix stores fun store =>
    let r := calls.decrement key options store
    ⟨Function.update stores keyPrefix (some r.1), [(worker, voidReply id keyPrefix r.2)], none⟩

/-- SOURCE: src/cluster/ClusterStorePrimary.ts:302-337 -/
def handleReset (now : ℤ) (worker : ω) (id : ι) (keyPrefix : String) (key : κ)
    (stores : String → Option σ) : Handling σ ω ι :=
  withStore worker id keyPrefix stores fun store =>
    let r := calls.reset now key store
    ⟨Function.update stores keyPrefix (some r.1), [(worker, voidReply id keyPrefix r.2)], none⟩

/-- The store leaves the map only after its `shutdown` went through.
SOURCE: src/cluster/ClusterStorePrimary.ts:339-375 -/
def handleShutdown (worker : ω) (id : ι) (keyPrefix : String) (stores : String → Option σ) :
    Handling σ ω ι :=
  withStore worker id keyPrefix stores fun store =>
    let r := calls.shutdown store
    let left := match r.2 with
      | .ok _ => none
      | .error _ => some r.1
    ⟨Function.update stores keyPrefix left, [(worker, voidReply id keyPrefix r.2)], none⟩

/-- SOURCE: src/cluster/ClusterStorePrimary.ts:131-149 -/
def dispatchWorkerMessage (now : ℤ) (worker : ω) (stores : String → Option σ) :
    InboundMessage ι κ → Handling σ ω ι
  | .init keyPrefix storeOptions version =>
    calls.handleInit worker keyPrefix storeOptions version stores
  | .increment id keyPrefix key options =>
    calls.handleIncrement now worker id keyPrefix key options stores
  | .decrement id keyPrefix key options =>
    calls.handleDecrement worker id keyPrefix key options stores
  | .reset id keyPrefix key => calls.handleReset now worker id keyPrefix key stores
  | .shutdown id keyPrefix => calls.handleShutdown worker id keyPrefix stores

/-- A handler within the chain: the `catch` replies to three of the five types.
SOURCE: src/cluster/ClusterStorePrimary.ts:106-129 -/
def handleInbound (now : ℤ) (worker : ω) (msg : InboundMessage ι κ) (stores : String → Option σ) :
    Handling σ ω ι :=
  let h := calls.dispatchWorkerMessage now worker stores msg
  match h.thrown with
  | none => h
  | some message =>
    let lastResort : List (ω × ClusterPrimaryMessage ι) := match msg with
      | .increment id keyPrefix _ _ => [(worker, .result id keyPrefix (.error message))]
      | .decrement id keyPrefix _ _ => [(worker, .result id keyPrefix (.error message))]
      | .reset id keyPrefix _ => [(worker, .result id keyPrefix (.error message))]
      | _ => []
    ⟨h.stores, h.sent ++ lastResort, none⟩

end StoreCalls

/-! ## The chain -/

/-- SOURCE: src/cluster/ClusterStorePrimary.ts:64-79 -/
structure InboundPrimary (σ ω ι κ : Type) where
  stores : String → Option σ := fun _ => none
  dispatchSerial : List (ω × InboundMessage ι κ) := []

/-- A message arrives, the chain comes to the next handler, or the timer of a store fires. -/
inductive PrimaryEvent (ω ι κ : Type) where
  | message (worker : ω) (msg : InboundMessage ι κ)
  | handle
  | purgeExpired (keyPrefix : String)
  deriving DecidableEq

/-- A message arrived, or one was handled and these replies were sent. -/
inductive PrimaryOutput (ω ι κ : Type) where
  | received (worker : ω) (msg : InboundMessage ι κ)
  | handled (worker : ω) (msg : InboundMessage ι κ) (sent : List (ω × ClusterPrimaryMessage ι))
  | quiet

namespace InboundPrimary

variable {σ ω ι κ : Type} (calls : StoreCalls σ κ)

def step (i : Timed (PrimaryEvent ω ι κ)) (s : InboundPrimary σ ω ι κ) :
    InboundPrimary σ ω ι κ × PrimaryOutput ω ι κ :=
  match i.op with
  | .message worker msg =>
    ({ s with dispatchSerial := s.dispatchSerial ++ [(worker, msg)] }, .received worker msg)
  | .handle =>
    match s.dispatchSerial with
    | [] => (s, .quiet)
    | (worker, msg) :: rest =>
      let h := calls.handleInbound i.time worker msg s.stores
      (⟨h.stores, rest⟩, .handled worker msg h.sent)
  | .purgeExpired keyPrefix =>
    let stores := Function.update s.stores keyPrefix
      ((s.stores keyPrefix).map (calls.purgeExpired i.time))
    ({ s with stores }, .quiet)

end InboundPrimary

/-! ## Typed options and `MemoryStore`s -/

/-- A positive integer among the numbers. -/
def JsNumber.toPNat? : JsNumber → Option ℕ+
  | .finite q => if h : q.den = 1 ∧ 0 < q.num then some ⟨q.num.toNat, by omega⟩ else none
  | _ => none

/-- A positive whole number is read as itself. -/
@[simp] theorem JsNumber.toPNat?_ofInt (n : ℕ+) :
    (JsNumber.ofInt ((n : ℕ) : ℤ)).toPNat? = some n := by
  have hpos : 0 < ((n : ℕ) : ℤ) := by exact_mod_cast n.pos
  simp only [JsNumber.ofInt, JsNumber.toPNat?]
  rw [dif_pos ⟨Rat.den_intCast _, by rw [Rat.num_intCast]; exact hpos⟩]
  congr 1

/-- An option that is absent, or a positive integer. -/
def optionalPNat? (value : Option JsNumber) : Option (Option ℕ+) :=
  match value with
  | none => some none
  | some v => v.toPNat?.map some

/-- So is one that may be missing. -/
theorem optionalPNat?_map (n : Option ℕ+) :
    optionalPNat? (n.map fun m => JsNumber.ofInt ((m : ℕ) : ℤ)) = some n := by
  cases n with
  | none => rfl
  | some n => simp [optionalPNat?]

/-- The typed options, when the numbers of a bucket are positive integers. -/
def InboundInitOptions.typed? (o : InboundInitOptions) :
    RateLimitStrategy → Option ClusterStoreInitOptions
  | .slidingWindow => some (.slidingWindow o.windowMs o.maxRequests)
  | .fixedWindow => some (.fixedWindow o.windowMs o.maxRequests)
  | .tokenBucket => do
    let tokensPerInterval ← optionalPNat? o.tokensPerInterval
    let interval ← optionalPNat? o.interval
    let bucketSize ← optionalPNat? o.bucketSize
    return .tokenBucket tokensPerInterval interval bucketSize

/-- Typed options as they are sent. -/
def ClusterStoreInitOptions.toInbound : ClusterStoreInitOptions → InboundInitOptions
  | .slidingWindow windowMs maxRequests => { strategy := "SLIDING_WINDOW", windowMs, maxRequests }
  | .fixedWindow windowMs maxRequests => { strategy := "FIXED_WINDOW", windowMs, maxRequests }
  | .tokenBucket tokensPerInterval interval bucketSize =>
    { strategy := "TOKEN_BUCKET"
      tokensPerInterval := tokensPerInterval.map fun n => JsNumber.ofInt ((n : ℕ) : ℤ)
      interval := interval.map fun n => JsNumber.ofInt ((n : ℕ) : ℤ)
      bucketSize := bucketSize.map fun n => JsNumber.ofInt ((n : ℕ) : ℤ) }

def ClusterWorkerMessage.toInbound {ι κ : Type} : ClusterWorkerMessage ι κ → InboundMessage ι κ
  | .increment id keyPrefix key options => .increment id keyPrefix key options
  | .decrement id keyPrefix key options => .decrement id keyPrefix key options
  | .reset id keyPrefix key => .reset id keyPrefix key
  | .shutdown id keyPrefix => .shutdown id keyPrefix
  | .init keyPrefix storeOptions version => .init keyPrefix storeOptions.toInbound version

section MemoryStores

variable {ω ι κ : Type} [DecidableEq κ]

/-- `MemoryStore`s, whose calls never throw.  `other` makes the buckets whose numbers are not
positive integers.
SOURCE: src/stores/memory-store.ts:222-275 -/
def memoryStoreCalls (other : RateLimitStrategy → InboundInitOptions → MemoryStore κ) :
    StoreCalls (MemoryStore κ) κ where
  create strategy opts :=
    match opts.typed? strategy with
    | some storeOptions => RatelimitFlex.createMemoryStoreFromClusterOptions storeOptions
    | none => other strategy opts
  increment now key options store :=
    let r := store.increment now key options
    (r.1, .ok r.2)
  decrement key options store := (store.decrement key options, .ok ())
  reset now key store := (store.reset now key, .ok ())
  shutdown store := (store.resetAll, .ok ())
  purgeExpired now store := store.purgeExpired now

variable (other : RateLimitStrategy → InboundInitOptions → MemoryStore κ)

/-- The options that a client sends are those that the primary reads. -/
theorem create_toInbound (o : ClusterStoreInitOptions) :
    (memoryStoreCalls other).createMemoryStoreFromClusterOptions o.toInbound =
      .ok (createMemoryStoreFromClusterOptions o) := by
  cases o with
  | slidingWindow windowMs maxRequests => rfl
  | fixedWindow windowMs maxRequests => rfl
  | tokenBucket tokensPerInterval interval bucketSize =>
    have hparse : parseStrategy "TOKEN_BUCKET" = .ok .tokenBucket := by decide
    have htyped : (ClusterStoreInitOptions.tokenBucket tokensPerInterval interval
        bucketSize).toInbound.typed? .tokenBucket =
          some (.tokenBucket tokensPerInterval interval bucketSize) := by
      simp only [InboundInitOptions.typed?, ClusterStoreInitOptions.toInbound, optionalPNat?_map]
      rfl
    show (parseStrategy "TOKEN_BUCKET").map _ = _
    rw [hparse]
    simp only [Except.map, memoryStoreCalls, htyped]

/-- The negotiation is the one of the typed primary. -/
theorem handleInit_eq_negotiateVersion (keyPrefix : String) (o : ClusterStoreInitOptions)
    (version : Option JsNumber) (stores : String → Option (MemoryStore κ)) :
    ClusterStorePrimary.handleInit (ι := ι) keyPrefix o version stores =
      match negotiateVersion version with
      | .error refusal => (stores, .initNack keyPrefix refusal)
      | .ok negotiated =>
        match stores keyPrefix with
        | some _ => (stores, .initAck keyPrefix negotiated)
        | none => (Function.update stores keyPrefix (some (createMemoryStoreFromClusterOptions o)),
            .initAck keyPrefix negotiated) := by
  unfold ClusterStorePrimary.handleInit negotiateVersion
  cases parseInitProtocolVersion version with
  | none => rfl
  | some negotiated =>
    dsimp only
    split
    · rfl
    · split <;> rfl

/-- On typed messages the primary does what the primary of the cluster model does, and sends
its one reply. -/
theorem handleInbound_toInbound (now : ℤ) (worker : ω) (msg : ClusterWorkerMessage ι κ)
    (stores : String → Option (MemoryStore κ)) :
    (memoryStoreCalls other).handleInbound now worker msg.toInbound stores =
      ⟨(ClusterStorePrimary.dispatchWorkerMessage now stores msg).1,
        [(worker, (ClusterStorePrimary.dispatchWorkerMessage now stores msg).2)], none⟩ := by
  cases msg with
  | init keyPrefix storeOptions version =>
    simp only [StoreCalls.handleInbound, ClusterWorkerMessage.toInbound,
      StoreCalls.dispatchWorkerMessage, StoreCalls.handleInit, create_toInbound,
      ClusterStorePrimary.dispatchWorkerMessage, handleInit_eq_negotiateVersion]
    cases negotiateVersion version with
    | error refusal => rfl
    | ok negotiated => cases stores keyPrefix <;> rfl
  | increment id keyPrefix key options =>
    simp only [StoreCalls.handleInbound, ClusterWorkerMessage.toInbound,
      StoreCalls.dispatchWorkerMessage, StoreCalls.handleIncrement, StoreCalls.withStore,
      ClusterStorePrimary.dispatchWorkerMessage, ClusterStorePrimary.handleIncrement]
    cases stores keyPrefix <;> rfl
  | decrement id keyPrefix key options =>
    simp only [StoreCalls.handleInbound, ClusterWorkerMessage.toInbound,
      StoreCalls.dispatchWorkerMessage, StoreCalls.handleDecrement, StoreCalls.withStore,
      ClusterStorePrimary.dispatchWorkerMessage, ClusterStorePrimary.handleDecrement]
    cases stores keyPrefix <;> rfl
  | reset id keyPrefix key =>
    simp only [StoreCalls.handleInbound, ClusterWorkerMessage.toInbound,
      StoreCalls.dispatchWorkerMessage, StoreCalls.handleReset, StoreCalls.withStore,
      ClusterStorePrimary.dispatchWorkerMessage, ClusterStorePrimary.handleReset]
    cases stores keyPrefix <;> rfl
  | shutdown id keyPrefix =>
    simp only [StoreCalls.handleInbound, ClusterWorkerMessage.toInbound,
      StoreCalls.dispatchWorkerMessage, StoreCalls.handleShutdown, StoreCalls.withStore,
      ClusterStorePrimary.dispatchWorkerMessage, ClusterStorePrimary.handleShutdown]
    cases stores keyPrefix <;> rfl

end MemoryStores

end RatelimitFlex
