import RatelimitFlex.Program.ClusterStore

/-!
# One `MemoryStore` for a `keyPrefix`

What cluster mode is for: all workers with a `keyPrefix` share one `MemoryStore`.  The store
is made by the first `init`, does the operations one after the other in the order in which
they are handled, and is gone after a `shutdown`; messages under other prefixes do not touch
it (`sharedStore`).  A request is answered by what that store says at its turn
(`ClusterRequest.answer`).
-/

set_option autoImplicit false

namespace RatelimitFlex

open Library

variable {ω ι κ : Type} [DecidableEq κ]

/-- The primary speaks the version of an `init`. -/
def acceptsVersion (protocolVersion : Option JsNumber) : Bool :=
  match parseInitProtocolVersion protocolVersion with
  | some version =>
    decide (minClusterIpcProtocolVersion ≤ version ∧ version ≤ clusterIpcProtocolVersion)
  | none => false

/-- A message under the store's prefix. -/
def sharedHandle (now : ℤ) (st : Option (MemoryStore κ)) :
    ClusterWorkerMessage ι κ → Option (MemoryStore κ)
  | .init _ storeOptions version =>
    if acceptsVersion version then
      some (st.getD (createMemoryStoreFromClusterOptions storeOptions))
    else st
  | .increment _ _ key options => st.map fun store => (store.increment now key options).1
  | .decrement _ _ key options => st.map (MemoryStore.decrement key options)
  | .reset _ _ key => st.map (MemoryStore.reset now key)
  | .shutdown _ _ => none

/-- One action of the primary, for the store under a prefix. -/
def sharedStep (keyPrefix : String) (st : Option (MemoryStore κ))
    (a : Timed (PrimaryAction ω ι κ)) : Option (MemoryStore κ) :=
  match a.op with
  | .handled _ msg => if msg.keyPrefix = keyPrefix then sharedHandle a.time st msg else st
  | .purged p => if p = keyPrefix then st.map (MemoryStore.purgeExpired a.time) else st

/-- The store under a prefix after these actions. -/
def sharedStore (keyPrefix : String) (actions : List (Timed (PrimaryAction ω ι κ))) :
    Option (MemoryStore κ) :=
  actions.foldl (sharedStep keyPrefix) none

/-- What the shared store has to say to a request. -/
def ClusterRequest.answer (now : ℤ) (st : Option (MemoryStore κ)) (id : ι) (keyPrefix : String) :
    ClusterRequest κ → ClusterPrimaryMessage ι
  | .increment key options =>
    match st with
    | some store => .result id keyPrefix (resultOutcome (store.increment now key options).2)
    | none => .result id keyPrefix (.error (storeMissingError keyPrefix))
  | _ =>
    match st with
    | some _ => .ack id keyPrefix
    | none => .result id keyPrefix (.error (storeMissingError keyPrefix))

/-- One action more is one step more. -/
theorem sharedStore_append (keyPrefix : String) (actions : List (Timed (PrimaryAction ω ι κ)))
    (a : Timed (PrimaryAction ω ι κ)) :
    sharedStore keyPrefix (actions ++ [a]) =
      sharedStep keyPrefix (sharedStore keyPrefix actions) a := by
  rw [sharedStore, List.foldl_append]
  rfl

/-! ## The primary's handlers -/

namespace ClusterStorePrimary

variable {stores : String → Option (MemoryStore κ)}

/-- An initialisation makes the store of its prefix if there is none. -/
theorem handleInit_fst (keyPrefix : String) (storeOptions : ClusterStoreInitOptions)
    (version : Option JsNumber) :
    (handleInit (ι := ι) keyPrefix storeOptions version stores).1 =
      if acceptsVersion version then
        Function.update stores keyPrefix
          (some ((stores keyPrefix).getD (createMemoryStoreFromClusterOptions storeOptions)))
      else stores := by
  unfold handleInit acceptsVersion
  cases parseInitProtocolVersion version with
  | none => rfl
  | some negotiated =>
    simp only
    by_cases hlow : negotiated < minClusterIpcProtocolVersion
    · rw [if_pos hlow, if_neg (by simp only [decide_eq_true_eq]; omega)]
    · by_cases hhigh : clusterIpcProtocolVersion < negotiated
      · rw [if_neg hlow, if_pos hhigh, if_neg (by simp only [decide_eq_true_eq]; omega)]
      · rw [if_neg hlow, if_neg hhigh, if_pos (by simp only [decide_eq_true_eq]; omega)]
        cases hs : stores keyPrefix with
        | none => rfl
        | some store => exact (Function.update_eq_self_iff.mpr hs.symm).symm

/-- An increment is made in the store of its prefix. -/
theorem handleIncrement_fst (now : ℤ) (id : ι) (keyPrefix : String) (key : κ)
    (options : RateLimitIncrementOptions) :
    (handleIncrement now id keyPrefix key options stores).1 =
      Function.update stores keyPrefix
        ((stores keyPrefix).map fun store => (store.increment now key options).1) := by
  unfold handleIncrement
  cases hs : stores keyPrefix with
  | none => exact (Function.update_eq_self_iff.mpr hs.symm).symm
  | some store => rfl

/-- So is a decrement. -/
theorem handleDecrement_fst (id : ι) (keyPrefix : String) (key : κ)
    (options : RateLimitDecrementOptions) :
    (handleDecrement id keyPrefix key options stores).1 =
      Function.update stores keyPrefix
        ((stores keyPrefix).map (MemoryStore.decrement key options)) := by
  unfold handleDecrement
  cases hs : stores keyPrefix with
  | none => exact (Function.update_eq_self_iff.mpr hs.symm).symm
  | some store => rfl

/-- So is a reset. -/
theorem handleReset_fst (now : ℤ) (id : ι) (keyPrefix : String) (key : κ) :
    (handleReset now id keyPrefix key stores).1 =
      Function.update stores keyPrefix ((stores keyPrefix).map (MemoryStore.reset now key)) := by
  unfold handleReset
  cases hs : stores keyPrefix with
  | none => exact (Function.update_eq_self_iff.mpr hs.symm).symm
  | some store => rfl

/-- A shutdown takes the store of its prefix away. -/
theorem handleShutdown_fst (id : ι) (keyPrefix : String) :
    (handleShutdown id keyPrefix stores).1 = Function.update stores keyPrefix none := by
  unfold handleShutdown
  cases hs : stores keyPrefix with
  | none => exact (Function.update_eq_self_iff.mpr hs.symm).symm
  | some store => rfl

/-- A handler changes the store of its prefix, and as one shared store would. -/
theorem dispatchWorkerMessage_fst (now : ℤ) (msg : ClusterWorkerMessage ι κ) (p : String) :
    (dispatchWorkerMessage now stores msg).1 p =
      if msg.keyPrefix = p then sharedHandle now (stores p) msg else stores p := by
  have hupdate : ∀ (keyPrefix : String) (f : Option (MemoryStore κ) → Option (MemoryStore κ)),
      Function.update stores keyPrefix (f (stores keyPrefix)) p =
        if keyPrefix = p then f (stores p) else stores p := by
    intro keyPrefix f
    rw [Function.update_apply]
    by_cases hp : p = keyPrefix
    · rw [if_pos hp, if_pos hp.symm, hp]
    · rw [if_neg hp, if_neg (Ne.symm hp)]
  cases msg with
  | init keyPrefix storeOptions version =>
    simp only [dispatchWorkerMessage, handleInit_fst, ClusterWorkerMessage.keyPrefix, sharedHandle]
    split
    · exact hupdate keyPrefix fun st => some (st.getD _)
    · rw [ite_self]
  | increment id keyPrefix key options =>
    simp only [dispatchWorkerMessage, handleIncrement_fst, ClusterWorkerMessage.keyPrefix]
    exact hupdate keyPrefix (Option.map _)
  | decrement id keyPrefix key options =>
    simp only [dispatchWorkerMessage, handleDecrement_fst, ClusterWorkerMessage.keyPrefix]
    exact hupdate keyPrefix (Option.map _)
  | reset id keyPrefix key =>
    simp only [dispatchWorkerMessage, handleReset_fst, ClusterWorkerMessage.keyPrefix]
    exact hupdate keyPrefix (Option.map _)
  | shutdown id keyPrefix =>
    simp only [dispatchWorkerMessage, handleShutdown_fst, ClusterWorkerMessage.keyPrefix]
    exact hupdate keyPrefix fun _ => none

/-- A request is answered as the store of its prefix answers. -/
theorem dispatchWorkerMessage_snd (now : ℤ) (id : ι) (keyPrefix : String)
    (request : ClusterRequest κ) :
    (dispatchWorkerMessage now stores (request.message id keyPrefix)).2 =
      request.answer now (stores keyPrefix) id keyPrefix := by
  cases request with
  | increment key options =>
    simp only [ClusterRequest.message, dispatchWorkerMessage, handleIncrement,
      ClusterRequest.answer]
    cases stores keyPrefix <;> rfl
  | decrement key options =>
    simp only [ClusterRequest.message, dispatchWorkerMessage, handleDecrement,
      ClusterRequest.answer]
    cases stores keyPrefix <;> rfl
  | reset key =>
    simp only [ClusterRequest.message, dispatchWorkerMessage, handleReset, ClusterRequest.answer]
    cases stores keyPrefix <;> rfl
  | shutdown =>
    simp only [ClusterRequest.message, dispatchWorkerMessage, handleShutdown,
      ClusterRequest.answer]
    cases stores keyPrefix <;> rfl

/-- A reply bears the id of its message. -/
theorem dispatchWorkerMessage_id? (now : ℤ) (stores : String → Option (MemoryStore κ))
    (msg : ClusterWorkerMessage ι κ) :
    (dispatchWorkerMessage now stores msg).2.id? = msg.id? := by
  cases msg with
  | init keyPrefix storeOptions version =>
    simp only [dispatchWorkerMessage, handleInit]
    repeat' split
    all_goals rfl
  | increment id keyPrefix key options =>
    simp only [dispatchWorkerMessage, handleIncrement]
    split <;> rfl
  | decrement id keyPrefix key options =>
    simp only [dispatchWorkerMessage, handleDecrement]
    split <;> rfl
  | reset id keyPrefix key =>
    simp only [dispatchWorkerMessage, handleReset]
    split <;> rfl
  | shutdown id keyPrefix =>
    simp only [dispatchWorkerMessage, handleShutdown]
    split <;> rfl

end ClusterStorePrimary

end RatelimitFlex
