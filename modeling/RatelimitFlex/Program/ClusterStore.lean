import Mathlib.Data.PNat.Basic
import RatelimitFlex.Library.TimedRun
import RatelimitFlex.Program.MemoryStore

/-!
# Cluster mode

`src/stores/ClusterStore.ts` in the workers and `src/cluster/ClusterStorePrimary.ts` in the
primary: a worker's store sends each operation to the primary, which handles the messages
one after the other on the `MemoryStore` of their `keyPrefix`, and matches the replies to its
pending requests by their ids.  Messages in flight arrive in any order and as late as they
like.

A promise is part of the state of the store that returned it, under the id of its request;
settling it again does nothing.  A timer runs exactly while its request is pending.  A reply's
`resetTime` is the milliseconds that its ISO string stands for.
-/

set_option autoImplicit false

namespace RatelimitFlex

open Library

/-! ## Messages -/

/-- The strategy with its options; `tokenBucket` needs positive integers.
SOURCE: src/cluster/protocol.ts:104-111 -/
inductive ClusterStoreInitOptions where
  | slidingWindow (windowMs maxRequests : Option JsNumber)
  | fixedWindow (windowMs maxRequests : Option JsNumber)
  | tokenBucket (tokensPerInterval interval bucketSize : Option ℕ+)
  deriving DecidableEq

/-- SOURCE: src/cluster/protocol.ts:19-57 -/
inductive ClusterWorkerMessage (ι κ : Type) where
  | increment (id : ι) (keyPrefix : String) (key : κ) (options : RateLimitIncrementOptions)
  | decrement (id : ι) (keyPrefix : String) (key : κ) (options : RateLimitDecrementOptions)
  | reset (id : ι) (keyPrefix : String) (key : κ)
  | shutdown (id : ι) (keyPrefix : String)
  | init (keyPrefix : String) (storeOptions : ClusterStoreInitOptions)
      (protocolVersion : Option JsNumber)
  deriving DecidableEq

namespace ClusterWorkerMessage

variable {ι κ : Type}

def keyPrefix : ClusterWorkerMessage ι κ → String
  | .increment _ p _ _ => p
  | .decrement _ p _ _ => p
  | .reset _ p _ => p
  | .shutdown _ p => p
  | .init p _ _ => p

def id? : ClusterWorkerMessage ι κ → Option ι
  | .increment id _ _ _ => some id
  | .decrement id _ _ _ => some id
  | .reset id _ _ => some id
  | .shutdown id _ => some id
  | .init _ _ _ => none

end ClusterWorkerMessage

/-- SOURCE: src/cluster/protocol.ts:66-73 -/
structure ClusterResultData where
  totalHits : ℤ
  remaining : ℤ
  resetTime : ℤ
  isBlocked : Bool
  deriving DecidableEq

/-- SOURCE: src/cluster/protocol.ts:59-101 -/
inductive ClusterPrimaryMessage (ι : Type) where
  | result (id : ι) (keyPrefix : String) (outcome : Except String ClusterResultData)
  | ack (id : ι) (keyPrefix : String)
  | initAck (keyPrefix : String) (protocolVersion : ℤ)
  | initNack (keyPrefix error : String)
  deriving DecidableEq

def ClusterPrimaryMessage.id? {ι : Type} : ClusterPrimaryMessage ι → Option ι
  | .result id _ _ => some id
  | .ack id _ => some id
  | _ => none

/-- SOURCE: src/cluster/protocol.ts:8, 16 -/
def clusterIpcProtocolVersion : ℤ := 1

def minClusterIpcProtocolVersion : ℤ := 1

/-! ## The primary -/

/-- A positive number is one at least. -/
theorem one_le_pnat (n : ℕ+) : 1 ≤ ((n : ℕ) : ℤ) := by
  exact_mod_cast n.pos

/-- SOURCE: src/cluster/ClusterStorePrimary.ts:42-58 -/
def createMemoryStoreFromClusterOptions {κ : Type} [DecidableEq κ] :
    ClusterStoreInitOptions → MemoryStore κ
  | .slidingWindow windowMs maxRequests =>
    .sliding (.ofNumbers (windowMs.getD 60000) (maxRequests.getD 100)) (KeyTable.new 100000)
  | .fixedWindow windowMs maxRequests =>
    .fixed (.ofNumbers (windowMs.getD 60000) (maxRequests.getD 100)) (KeyTable.new 100000)
  | .tokenBucket tokensPerInterval interval bucketSize =>
    let tokens := tokensPerInterval.getD 1
    .bucket ⟨tokens, (interval.getD 1000 : ℕ+), (bucketSize.getD tokens : ℕ+), one_le_pnat _,
      one_le_pnat _, one_le_pnat _⟩ (KeyTable.new 100000)

/-- SOURCE: src/cluster/ClusterStorePrimary.ts:60-62 -/
def storeMissingError (keyPrefix : String) : String :=
  "Store not initialized for keyPrefix: " ++ keyPrefix

/-- The figures of a result as they are sent; `toISOString` throws outside the range of `Date`.
SOURCE: src/cluster/ClusterStorePrimary.ts:237-261 -/
def resultOutcome (result : RateLimitResult) : Except String ClusterResultData :=
  if |result.resetTime| ≤ maxDateMs then
    .ok ⟨result.totalHits, result.remaining, result.resetTime, result.isBlocked⟩
  else .error "Invalid time value"

/-- The version both sides speak, when it is a positive integer.
SOURCE: src/cluster/ClusterStorePrimary.ts:208-219 -/
def parseInitProtocolVersion : Option JsNumber → Option ℤ
  | none => some 1
  | some (.finite raw) => if raw < 1 then none else if (⌊raw⌋ : ℚ) = raw then some ⌊raw⌋ else none
  | some _ => none

/-- SOURCE: src/cluster/ClusterStorePrimary.ts:64-79 -/
structure ClusterStorePrimary (ω ι κ : Type) [DecidableEq κ] where
  stores : String → Option (MemoryStore κ) := fun _ => none
  /-- The messages whose handlers the promise chain has not started yet. -/
  dispatchSerial : List (ω × ClusterWorkerMessage ι κ) := []
  /-- The reply of the handler at work. -/
  handling : Option (ω × ClusterPrimaryMessage ι) := none

namespace ClusterStorePrimary

variable {ω ι κ : Type} [DecidableEq κ]

/-- SOURCE: src/cluster/ClusterStorePrimary.ts:151-206 -/
def handleInit (keyPrefix : String) (storeOptions : ClusterStoreInitOptions)
    (protocolVersion : Option JsNumber) (stores : String → Option (MemoryStore κ)) :
    (String → Option (MemoryStore κ)) × ClusterPrimaryMessage ι :=
  match parseInitProtocolVersion protocolVersion with
  | none => (stores, .initNack keyPrefix ("ClusterStore: invalid init.protocolVersion " ++
      "(expected a positive integer, or omit for version 1)."))
  | some negotiated =>
    if negotiated < minClusterIpcProtocolVersion then
      (stores, .initNack keyPrefix ("Cluster IPC protocol version " ++ toString negotiated ++
        " is no longer supported by this primary (minimum " ++
        toString minClusterIpcProtocolVersion ++ ")."))
    else if clusterIpcProtocolVersion < negotiated then
      (stores, .initNack keyPrefix ("Cluster IPC protocol version " ++ toString negotiated ++
        " is newer than this primary supports (" ++ toString clusterIpcProtocolVersion ++
        "). Upgrade the primary process first."))
    else
      match stores keyPrefix with
      | some _ => (stores, .initAck keyPrefix negotiated)
      | none =>
        (Function.update stores keyPrefix (some (createMemoryStoreFromClusterOptions storeOptions)),
          .initAck keyPrefix negotiated)

/-- SOURCE: src/cluster/ClusterStorePrimary.ts:221-262 -/
def handleIncrement (now : ℤ) (id : ι) (keyPrefix : String) (key : κ)
    (options : RateLimitIncrementOptions) (stores : String → Option (MemoryStore κ)) :
    (String → Option (MemoryStore κ)) × ClusterPrimaryMessage ι :=
  match stores keyPrefix with
  | none => (stores, .result id keyPrefix (.error (storeMissingError keyPrefix)))
  | some store =>
    let r := store.increment now key options
    (Function.update stores keyPrefix (some r.1), .result id keyPrefix (resultOutcome r.2))

/-- SOURCE: src/cluster/ClusterStorePrimary.ts:264-300 -/
def handleDecrement (id : ι) (keyPrefix : String) (key : κ) (options : RateLimitDecrementOptions)
    (stores : String → Option (MemoryStore κ)) :
    (String → Option (MemoryStore κ)) × ClusterPrimaryMessage ι :=
  match stores keyPrefix with
  | none => (stores, .result id keyPrefix (.error (storeMissingError keyPrefix)))
  | some store =>
    (Function.update stores keyPrefix (some (store.decrement key options)), .ack id keyPrefix)

/-- SOURCE: src/cluster/ClusterStorePrimary.ts:302-337 -/
def handleReset (now : ℤ) (id : ι) (keyPrefix : String) (key : κ)
    (stores : String → Option (MemoryStore κ)) :
    (String → Option (MemoryStore κ)) × ClusterPrimaryMessage ι :=
  match stores keyPrefix with
  | none => (stores, .result id keyPrefix (.error (storeMissingError keyPrefix)))
  | some store =>
    (Function.update stores keyPrefix (some (store.reset now key)), .ack id keyPrefix)

/-- SOURCE: src/cluster/ClusterStorePrimary.ts:339-375 -/
def handleShutdown (id : ι) (keyPrefix : String) (stores : String → Option (MemoryStore κ)) :
    (String → Option (MemoryStore κ)) × ClusterPrimaryMessage ι :=
  match stores keyPrefix with
  | none => (stores, .result id keyPrefix (.error (storeMissingError keyPrefix)))
  | some _ => (Function.update stores keyPrefix none, .ack id keyPrefix)

/-- SOURCE: src/cluster/ClusterStorePrimary.ts:131-149 -/
def dispatchWorkerMessage (now : ℤ) (stores : String → Option (MemoryStore κ)) :
    ClusterWorkerMessage ι κ → (String → Option (MemoryStore κ)) × ClusterPrimaryMessage ι
  | .init keyPrefix storeOptions version => handleInit keyPrefix storeOptions version stores
  | .increment id keyPrefix key options => handleIncrement now id keyPrefix key options stores
  | .decrement id keyPrefix key options => handleDecrement id keyPrefix key options stores
  | .reset id keyPrefix key => handleReset now id keyPrefix key stores
  | .shutdown id keyPrefix => handleShutdown id keyPrefix stores

/-- A message arrives: its handler is put at the end of the chain.
SOURCE: src/cluster/ClusterStorePrimary.ts:106-129 -/
def handleMessage (worker : ω) (msg : ClusterWorkerMessage ι κ)
    (s : ClusterStorePrimary ω ι κ) : ClusterStorePrimary ω ι κ :=
  { s with dispatchSerial := s.dispatchSerial ++ [(worker, msg)] }

end ClusterStorePrimary

/-! ## The workers -/

/-- SOURCE: src/stores/ClusterStore.ts:45-51 -/
inductive VoidPurpose where
  | decrement
  | reset
  | shutdown
  deriving DecidableEq

/-- SOURCE: src/stores/ClusterStore.ts:38-53 -/
inductive PendingEntry where
  | increment
  | void (purpose : VoidPurpose)
  deriving DecidableEq

/-- The promise an operation returned. -/
inductive ClusterPromise where
  | pending
  | fulfilled (result : RateLimitResult)
  | done
  | rejected (error : String)
  deriving DecidableEq

/-- The promise `_ready`. -/
inductive ClusterReady where
  | waiting
  | resolved
  | rejected (error : String)
  deriving DecidableEq

/-- SOURCE: src/stores/ClusterStore.ts:65-88 -/
structure ClusterStore (ω ι : Type) where
  worker : ω
  keyPrefix : String
  timeoutMs : ℕ := 5000
  pending : ι → Option PendingEntry := fun _ => none
  ready : ClusterReady := .waiting
  shutDown : Bool := false
  listenerRemoved : Bool := false
  promises : ι → Option ClusterPromise := fun _ => none

/-- An operation of a `ClusterStore`. -/
inductive ClusterRequest (κ : Type) where
  | increment (key : κ) (options : RateLimitIncrementOptions)
  | decrement (key : κ) (options : RateLimitDecrementOptions)
  | reset (key : κ)
  | shutdown
  deriving DecidableEq

namespace ClusterRequest

variable {ι κ : Type}

/-- The message an operation sends.
SOURCE: src/stores/ClusterStore.ts:273-284, 310-319, 344-349, 386-391 -/
def message (id : ι) (keyPrefix : String) : ClusterRequest κ → ClusterWorkerMessage ι κ
  | .increment key options => .increment id keyPrefix key options
  | .decrement key options => .decrement id keyPrefix key options
  | .reset key => .reset id keyPrefix key
  | .shutdown => .shutdown id keyPrefix

/-- What an operation leaves in the pending map.
SOURCE: src/stores/ClusterStore.ts:264-272, 302-308, 336-342, 378-384 -/
def entry : ClusterRequest κ → PendingEntry
  | .increment _ _ => .increment
  | .decrement _ _ => .void .decrement
  | .reset _ => .void .reset
  | .shutdown => .void .shutdown

end ClusterRequest

namespace ClusterStore

variable {ω ι κ : Type} [DecidableEq ι]

/-- A promise is settled once. -/
def settle (id : ι) (outcome : ClusterPromise) (c : ClusterStore ω ι) : ClusterStore ω ι :=
  match c.promises id with
  | some .pending => { c with promises := Function.update c.promises id (some outcome) }
  | _ => c

/-- The entry leaves the pending map, its timer is cleared. -/
def dropPending (id : ι) (c : ClusterStore ω ι) : ClusterStore ω ι :=
  { c with pending := Function.update c.pending id none }

/-- SOURCE: src/stores/ClusterStore.ts:148-157 -/
def failInit (error : String) (c : ClusterStore ω ι) : ClusterStore ω ι :=
  match c.ready with
  | .waiting => { c with ready := .rejected error, listenerRemoved := true }
  | _ => c

/-- SOURCE: src/stores/ClusterStore.ts:159-167 -/
def settleInit (c : ClusterStore ω ι) : ClusterStore ω ι :=
  match c.ready with
  | .waiting => { c with ready := .resolved }
  | _ => c

/-- A shutdown whose promise is fulfilled takes the listener off.
SOURCE: src/stores/ClusterStore.ts:370-391 -/
def finishVoid (purpose : VoidPurpose) (id : ι) (c : ClusterStore ω ι) : ClusterStore ω ι :=
  let c := c.settle id .done
  match purpose with
  | .shutdown => { c with listenerRemoved := true }
  | _ => c

/-- SOURCE: src/stores/ClusterStore.ts:197-229 -/
def dispatchResult (id : ι) (outcome : Except String ClusterResultData) (c : ClusterStore ω ι) :
    ClusterStore ω ι :=
  match c.pending id with
  | none => c
  | some .increment =>
    let c := c.dropPending id
    match outcome with
    | .ok data => c.settle id (.fulfilled
        { totalHits := data.totalHits
          remaining := data.remaining
          resetTime := data.resetTime
          isBlocked := data.isBlocked })
    | .error error => c.settle id (.rejected error)
  | some (.void purpose) =>
    let c := c.dropPending id
    match outcome with
    | .ok _ =>
      c.settle id (.rejected "ClusterStore: unexpected success result for void operation")
    | .error error =>
      if purpose = .shutdown then c.finishVoid .shutdown id else c.settle id (.rejected error)

/-- SOURCE: src/stores/ClusterStore.ts:231-239 -/
def dispatchAck (id : ι) (c : ClusterStore ω ι) : ClusterStore ω ι :=
  match c.pending id with
  | some (.void purpose) => (c.dropPending id).finishVoid purpose id
  | _ => c

/-- SOURCE: src/stores/ClusterStore.ts:169-195 -/
def handleIncomingMessage (msg : ClusterPrimaryMessage ι) (c : ClusterStore ω ι) :
    ClusterStore ω ι :=
  if c.listenerRemoved then c
  else
    match msg with
    | .initNack keyPrefix error => if keyPrefix ≠ c.keyPrefix then c else c.failInit error
    | .initAck keyPrefix _ => if keyPrefix ≠ c.keyPrefix then c else c.settleInit
    | .result id keyPrefix outcome =>
      if keyPrefix ≠ c.keyPrefix then c else c.dispatchResult id outcome
    | .ack id keyPrefix => if keyPrefix ≠ c.keyPrefix then c else c.dispatchAck id

/-- The operation gets past its checks; a shutdown once more while the listener is there.
SOURCE: src/stores/ClusterStore.ts:251-255, 287-291, 322-326, 353-358 -/
def mayRequest (request : ClusterRequest κ) (c : ClusterStore ω ι) : Bool :=
  decide (c.ready = .resolved) &&
    match request with
    | .shutdown => !c.listenerRemoved
    | _ => !c.shutDown

/-- A shutdown rejects what is pending first. -/
def closePending (c : ClusterStore ω ι) : ClusterStore ω ι :=
  { c with
    shutDown := true
    pending := fun _ => none
    promises := fun id =>
      if c.pending id ≠ none ∧ c.promises id = some .pending then
        some (.rejected "ClusterStore shut down")
      else c.promises id }

/-- The request is entered into the pending map.  An earlier one under the same id would be
superseded.
SOURCE: src/stores/ClusterStore.ts:241-249, 251-349, 360-384 -/
def setPending (id : ι) (request : ClusterRequest κ) (c : ClusterStore ω ι) : ClusterStore ω ι :=
  let c := match request with
    | .shutdown => c.closePending
    | _ => c
  { c with
    pending := Function.update c.pending id (some request.entry)
    promises := Function.update c.promises id (some .pending) }

/-- The timer of a pending request fires.
SOURCE: src/stores/ClusterStore.ts:259-262, 295-298, 329-332, 371-374 -/
def timeout (id : ι) (c : ClusterStore ω ι) : ClusterStore ω ι :=
  (c.dropPending id).settle id (.rejected ("ClusterStore: primary did not respond within " ++
    toString c.timeoutMs ++ "ms"))

end ClusterStore

/-! ## The cluster -/

/-- The stores of all workers in the order they were made, the messages in flight both ways,
and the primary. -/
structure Cluster (ω ι κ : Type) [DecidableEq κ] where
  clients : List (ClusterStore ω ι) := []
  toPrimary : List (ω × ClusterWorkerMessage ι κ) := []
  toWorkers : List (ω × ClusterPrimaryMessage ι) := []
  primary : ClusterStorePrimary ω ι κ := {}

/-- A call, a timer, or the transport of a message; a number stands for the client or for the
place of the message among those in flight. -/
inductive ClusterEvent (ω ι κ : Type) where
  | construct (worker : ω) (keyPrefix : String) (timeoutMs : ℕ)
      (storeOptions : ClusterStoreInitOptions)
  | initTimeout (client : ℕ)
  | request (client : ℕ) (id : ι) (request : ClusterRequest κ)
  | timeout (client : ℕ) (id : ι)
  | receive (place : ℕ)
  | dispatch
  | reply
  | deliver (place : ℕ)
  | purgeExpired (keyPrefix : String)

/-- What the primary does to its stores. -/
inductive PrimaryAction (ω ι κ : Type) where
  | handled (worker : ω) (msg : ClusterWorkerMessage ι κ)
  | purged (keyPrefix : String)

/-- What can be seen of one event. -/
inductive ClusterOutput (ω ι κ : Type) where
  | requested (client : ℕ) (id : ι) (request : ClusterRequest κ)
  | timedOut (client : ℕ) (id : ι)
  | received (worker : ω) (msg : ClusterWorkerMessage ι κ)
  | performed (action : Timed (PrimaryAction ω ι κ))

namespace Cluster

variable {ω ι κ : Type} [DecidableEq ω] [DecidableEq ι] [DecidableEq κ]

/-- One event.  A handler's work on the stores is done when the chain comes to it, and the next
one starts after its reply is sent. -/
def step (i : Timed (ClusterEvent ω ι κ)) (s : Cluster ω ι κ) :
    Cluster ω ι κ × List (ClusterOutput ω ι κ) :=
  match i.op with
  | .construct worker keyPrefix timeoutMs storeOptions =>
    if keyPrefix = "" then (s, [])
    else
      ({ s with
          clients := s.clients ++ [{ worker, keyPrefix, timeoutMs }]
          toPrimary := s.toPrimary ++ [(worker, .init keyPrefix storeOptions
            (some (JsNumber.ofInt clusterIpcProtocolVersion)))] }, [])
  | .initTimeout n =>
    match s.clients[n]? with
    | some c =>
      let c := c.failInit "ClusterStore: primary did not acknowledge init within 100ms"
      ({ s with clients := s.clients.set n c }, [])
    | none => (s, [])
  | .request n id request =>
    match s.clients[n]? with
    | some c =>
      if c.mayRequest request then
        ({ s with
            clients := s.clients.set n (c.setPending id request)
            toPrimary := s.toPrimary ++ [(c.worker, request.message id c.keyPrefix)] },
          [.requested n id request])
      else (s, [])
    | none => (s, [])
  | .timeout n id =>
    match s.clients[n]? with
    | some c =>
      if c.pending id = none then (s, [])
      else ({ s with clients := s.clients.set n (c.timeout id) }, [.timedOut n id])
    | none => (s, [])
  | .receive n =>
    match s.toPrimary[n]? with
    | some (worker, msg) =>
      ({ s with
          toPrimary := s.toPrimary.eraseIdx n
          primary := s.primary.handleMessage worker msg }, [.received worker msg])
    | none => (s, [])
  | .dispatch =>
    match s.primary.handling, s.primary.dispatchSerial with
    | none, (worker, msg) :: rest =>
      let r := ClusterStorePrimary.dispatchWorkerMessage i.time s.primary.stores msg
      ({ s with primary := ⟨r.1, rest, some (worker, r.2)⟩ },
        [.performed ⟨i.time, .handled worker msg⟩])
    | _, _ => (s, [])
  | .reply =>
    match s.primary.handling with
    | some sent =>
      ({ s with
          toWorkers := s.toWorkers ++ [sent]
          primary := { s.primary with handling := none } }, [])
    | none => (s, [])
  | .deliver n =>
    match s.toWorkers[n]? with
    | some (worker, msg) =>
      ({ s with
          toWorkers := s.toWorkers.eraseIdx n
          clients := s.clients.map fun c =>
            if c.worker = worker then c.handleIncomingMessage msg else c }, [])
    | none => (s, [])
  | .purgeExpired keyPrefix =>
    let stores := Function.update s.primary.stores keyPrefix
      ((s.primary.stores keyPrefix).map fun store => store.purgeExpired i.time)
    ({ s with primary := { s.primary with stores } }, [.performed ⟨i.time, .purged keyPrefix⟩])

end Cluster

end RatelimitFlex
