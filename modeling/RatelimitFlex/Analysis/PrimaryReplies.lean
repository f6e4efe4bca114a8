import RatelimitFlex.Program.ClusterPrimary

/-!
# The replies of the primary

Every message the primary receives waits in its chain until its handler has run, and the
handlers run in the order of arrival (`received_eq_handled_append`).  A handler sends one
reply, to its sender and about its message, with one exception (`handleInbound_answered_iff`):
an `init` that asks for a new store with a strategy nobody knows throws before it has sent
anything, and the `catch` of the chain leaves an `init` without a reply.
-/

set_option autoImplicit false

namespace RatelimitFlex

open Library

variable {σ ω ι κ : Type}

/-- A reply to a message: under its prefix and its id, and of one of its kinds. -/
def ClusterPrimaryMessage.Answers (reply : ClusterPrimaryMessage ι) : InboundMessage ι κ → Prop
  | .init keyPrefix _ _ =>
    (∃ version, reply = .initAck keyPrefix version) ∨ ∃ error, reply = .initNack keyPrefix error
  | .increment id keyPrefix _ _ => ∃ outcome, reply = .result id keyPrefix outcome
  | .decrement id keyPrefix _ _ =>
    reply = .ack id keyPrefix ∨ ∃ error, reply = .result id keyPrefix (.error error)
  | .reset id keyPrefix _ =>
    reply = .ack id keyPrefix ∨ ∃ error, reply = .result id keyPrefix (.error error)
  | .shutdown id keyPrefix =>
    reply = .ack id keyPrefix ∨ ∃ error, reply = .result id keyPrefix (.error error)

/-- One reply, to the sender and about the message. -/
def AnsweredOnce (worker : ω) (msg : InboundMessage ι κ)
    (sent : List (ω × ClusterPrimaryMessage ι)) : Prop :=
  ∃ reply, sent = [(worker, reply)] ∧ reply.Answers msg

/-- An `init` in an accepted version that needs a new store but names no strategy. -/
def InboundMessage.NamesNoStrategy (stores : String → Option σ) : InboundMessage ι κ → Prop
  | .init keyPrefix storeOptions version =>
    (∃ negotiated, negotiateVersion version = .ok negotiated) ∧ stores keyPrefix = none ∧
      ∃ error, parseStrategy storeOptions.strategy = .error error
  | _ => False

/-! ## One handler -/

/-- A call without a result is acknowledged, or answered with its error. -/
theorem voidReply_cases (id : ι) (keyPrefix : String) (outcome : Except String Unit) :
    StoreCalls.voidReply id keyPrefix outcome = .ack id keyPrefix ∨
      ∃ error, StoreCalls.voidReply id keyPrefix outcome = .result id keyPrefix (.error error) := by
  cases outcome with
  | ok _ => exact .inl rfl
  | error message => exact .inr ⟨message, rfl⟩

variable (calls : StoreCalls σ κ)

/-- A request replies from its handler, with or without a store. -/
theorem withStore_replies (worker : ω) (id : ι) (keyPrefix : String) (stores : String → Option σ)
    {call : σ → Handling σ ω ι} {P : ClusterPrimaryMessage ι → Prop}
    (hmissing : ∀ error, P (.result id keyPrefix (.error error)))
    (hcall : ∀ store, (call store).thrown = none ∧
      ∃ reply, (call store).sent = [(worker, reply)] ∧ P reply) :
    (StoreCalls.withStore worker id keyPrefix stores call).thrown = none ∧
      ∃ reply, (StoreCalls.withStore worker id keyPrefix stores call).sent = [(worker, reply)] ∧
        P reply := by
  unfold StoreCalls.withStore
  cases stores keyPrefix with
  | none => exact ⟨rfl, _, rfl, hmissing _⟩
  | some store => exact hcall store

/-- What the other four types of message do: no throw, one reply. -/
theorem dispatch_replies (now : ℤ) (worker : ω) (stores : String → Option σ)
    {msg : InboundMessage ι κ} (hmsg : ∀ p o v, msg ≠ .init p o v) :
    (calls.dispatchWorkerMessage now worker stores msg).thrown = none ∧
      AnsweredOnce worker msg (calls.dispatchWorkerMessage now worker stores msg).sent := by
  cases msg with
  | init p o v => exact absurd rfl (hmsg p o v)
  | increment id p key options =>
    apply withStore_replies
    · intro error
      exact ⟨_, rfl⟩
    · intro store
      exact ⟨rfl, _, rfl, _, rfl⟩
  | decrement id p key options =>
    apply withStore_replies
    · intro error
      exact .inr ⟨error, rfl⟩
    · intro store
      exact ⟨rfl, _, rfl, voidReply_cases id p _⟩
  | reset id p key =>
    apply withStore_replies
    · intro error
      exact .inr ⟨error, rfl⟩
    · intro store
      exact ⟨rfl, _, rfl, voidReply_cases id p _⟩
  | shutdown id p =>
    apply withStore_replies
    · intro error
      exact .inr ⟨error, rfl⟩
    · intro store
      exact ⟨rfl, _, rfl, voidReply_cases id p _⟩

/-- What an `init` sends. -/
theorem init_answered_iff (now : ℤ) (worker : ω) (p : String) (o : InboundInitOptions)
    (v : Option JsNumber) (stores : String → Option σ) :
    AnsweredOnce worker (.init p o v : InboundMessage ι κ)
        (calls.handleInbound now worker (.init p o v : InboundMessage ι κ) stores).sent ↔
      ¬ (InboundMessage.init p o v : InboundMessage ι κ).NamesNoStrategy stores := by
  simp only [StoreCalls.handleInbound, StoreCalls.dispatchWorkerMessage, StoreCalls.handleInit,
    InboundMessage.NamesNoStrategy]
  cases negotiateVersion v with
  | error refusal =>
    refine iff_of_true ⟨_, rfl, .inr ⟨refusal, rfl⟩⟩ ?_
    rintro ⟨⟨negotiated, h⟩, -⟩
    cases h
  | ok negotiated =>
    cases hp : stores p with
    | some store =>
      refine iff_of_true ⟨_, rfl, .inl ⟨negotiated, rfl⟩⟩ ?_
      rintro ⟨-, h, -⟩
      cases h
    | none =>
      simp only [StoreCalls.createMemoryStoreFromClusterOptions]
      cases hs : parseStrategy o.strategy with
      | ok strategy =>
        refine iff_of_true ⟨_, rfl, .inl ⟨negotiated, rfl⟩⟩ ?_
        rintro ⟨-, -, error, h⟩
        cases h
      | error message =>
        -- thrown before anything was sent, and the `catch` has no reply for an `init`
        refine iff_of_false ?_ ?_
        · rintro ⟨reply, hsent, -⟩
          cases hsent
        · exact fun h => h ⟨⟨negotiated, rfl⟩, trivial, message, rfl⟩

/-- One handler replies once, except for the `init` that names no strategy. -/
theorem handleInbound_answered_iff (now : ℤ) (worker : ω) (msg : InboundMessage ι κ)
    (stores : String → Option σ) :
    AnsweredOnce worker msg (calls.handleInbound now worker msg stores).sent ↔
      ¬ msg.NamesNoStrategy stores := by
  by_cases hmsg : ∃ p o v, msg = .init p o v
  · obtain ⟨p, o, v, rfl⟩ := hmsg
    exact init_answered_iff calls now worker p o v stores
  · push Not at hmsg
    obtain ⟨hthrown, hsent⟩ := dispatch_replies calls now worker stores hmsg
    have hsame : calls.handleInbound now worker msg stores =
        calls.dispatchWorkerMessage now worker stores msg := by
      simp only [StoreCalls.handleInbound, hthrown]
    rw [hsame]
    refine iff_of_true hsent ?_
    cases msg with
    | init p o v => exact absurd rfl (hmsg p o v)
    | increment => exact id
    | decrement => exact id
    | reset => exact id
    | shutdown => exact id

/-! ## The chain -/

/-- The messages that arrived. -/
def arrivals (outs : List (PrimaryOutput ω ι κ)) : List (ω × InboundMessage ι κ) :=
  outs.filterMap fun
    | .received worker msg => some (worker, msg)
    | _ => none

/-- The messages whose handlers have run. -/
def treated (outs : List (PrimaryOutput ω ι κ)) : List (ω × InboundMessage ι κ) :=
  outs.filterMap fun
    | .handled worker msg _ => some (worker, msg)
    | _ => none

/-- A handled message was answered once. -/
def PrimaryOutput.Answered : PrimaryOutput ω ι κ → Prop
  | .handled worker msg sent => AnsweredOnce worker msg sent
  | _ => True

namespace InboundPrimary

/-- Arrival order: what was waiting and what arrived is what was handled and what waits. -/
theorem received_eq_handled_append (is : List (Timed (PrimaryEvent ω ι κ)))
    (s : InboundPrimary σ ω ι κ) :
    s.dispatchSerial ++ arrivals (outputs (step calls) is s) =
      treated (outputs (step calls) is s) ++ (final (step calls) is s).dispatchSerial := by
  induction is generalizing s with
  | nil => simp [arrivals, treated]
  | cons i is ih =>
    have hrest := ih (step calls i s).1
    obtain ⟨t, op⟩ := i
    cases op with
    | message worker msg =>
      simp only [outputs_cons, final_cons, step, arrivals, treated,
        List.filterMap_cons] at hrest ⊢
      rw [← hrest]
      simp
    | handle =>
      cases hs : s.dispatchSerial with
      | nil =>
        simp only [outputs_cons, final_cons, step, hs, arrivals, treated,
          List.filterMap_cons] at hrest ⊢
        exact hrest
      | cons m rest =>
        simp only [outputs_cons, final_cons, step, hs, arrivals, treated,
          List.filterMap_cons] at hrest ⊢
        rw [List.cons_append, List.cons_append, hrest]
    | purgeExpired p =>
      simp only [outputs_cons, final_cons, step, arrivals, treated,
        List.filterMap_cons] at hrest ⊢
      exact hrest

/-- The chain comes to every message. -/
theorem dispatchSerial_drained (t : ℤ) (s : InboundPrimary σ ω ι κ) :
    (final (step calls) (List.replicate s.dispatchSerial.length ⟨t, .handle⟩) s).dispatchSerial =
      [] := by
  obtain ⟨stores, waiting⟩ := s
  induction waiting generalizing stores with
  | nil => rfl
  | cons m rest ih => exact ih (calls.handleInbound t m.1 m.2 stores).stores

/-- The event does not run the handler of an `init` that names no strategy. -/
def StrategyNamed (i : Timed (PrimaryEvent ω ι κ)) (s : InboundPrimary σ ω ι κ) : Prop :=
  i.op = .handle → ∀ worker msg, s.dispatchSerial.head? = some (worker, msg) →
    ¬ msg.NamesNoStrategy s.stores

/-- A step answers its message exactly when it names a strategy. -/
theorem step_answered_iff (i : Timed (PrimaryEvent ω ι κ)) (s : InboundPrimary σ ω ι κ) :
    (step calls i s).2.Answered ↔ StrategyNamed i s := by
  obtain ⟨t, op⟩ := i
  cases op with
  | message worker msg => exact iff_of_true trivial nofun
  | purgeExpired p => exact iff_of_true trivial nofun
  | handle =>
    obtain ⟨stores, waiting⟩ := s
    cases waiting with
    | nil => exact iff_of_true trivial fun _ _ _ h => nomatch h
    | cons m rest =>
      refine (handleInbound_answered_iff calls t m.1 m.2 stores).trans ⟨fun h _ worker msg hm => ?_,
        fun h => h rfl m.1 m.2 rfl⟩
      cases hm
      exact h

end InboundPrimary

/-! ## One reply for each message -/

/-- The messages are handled in the order they arrived, none is left behind when the chain
has run, and each handler sends one reply to the sender of its message. -/
def RepliesOnce (is : List (Timed (PrimaryEvent ω ι κ))) : Prop :=
  let outs := outputs (InboundPrimary.step calls) is {}
  let s := final (InboundPrimary.step calls) is {}
  arrivals outs = treated outs ++ s.dispatchSerial ∧
    (∀ t, (final (InboundPrimary.step calls) (List.replicate s.dispatchSerial.length ⟨t, .handle⟩)
      s).dispatchSerial = []) ∧
    ∀ o ∈ outs, o.Answered

/-- **One reply for each message.** In every run of messages that arrive and are handled, over any
stores, this holds exactly when no `init` in the current version that is handled names a strategy
the primary does not know. -/
theorem primary_replies_once_iff (is : List (Timed (PrimaryEvent ω ι κ))) :
    RepliesOnce calls is ↔
      Guarded InboundPrimary.StrategyNamed (InboundPrimary.step calls) is {} := by
  have hanswered : (∀ o ∈ outputs (InboundPrimary.step calls) is {}, o.Answered) ↔
      Guarded InboundPrimary.StrategyNamed (InboundPrimary.step calls) is {} := by
    rw [forall_outputs_iff]
    simp only [InboundPrimary.step_answered_iff]
  unfold RepliesOnce
  refine ⟨fun h => hanswered.mp h.2.2, fun h => ⟨?_, ?_, hanswered.mpr h⟩⟩
  · exact InboundPrimary.received_eq_handled_append calls is {}
  · intro t
    exact InboundPrimary.dispatchSerial_drained calls t _

/-- An `init` in the current version and with a strategy nobody knows gets no reply. -/
theorem primary_silent_on_unknown_strategy (t : ℤ) (worker : ω) (p : String) :
    ¬ (InboundPrimary.step calls ⟨t, .handle⟩
      ⟨fun _ => none, [(worker, (.init p { strategy := "LEAKY_BUCKET" } (some 1) :
        InboundMessage ι κ))]⟩).2.Answered := by
  rw [InboundPrimary.step_answered_iff]
  intro h
  refine h rfl worker _ rfl ⟨⟨1, ?_⟩, rfl, _, rfl⟩
  decide +kernel

/-- One worker asks for an unknown strategy in the current version. -/
theorem primary_replies_once_fails :
    ¬ RepliesOnce
      (memoryStoreCalls fun _ _ => (.sliding oneASecond (KeyTable.new 0) : MemoryStore ℕ))
      [(⟨0, .message 1 (.init "rlf" { strategy := "LEAKY_BUCKET" } (some 1))⟩ :
        Timed (PrimaryEvent ℕ ℕ ℕ)), ⟨0, .handle⟩] := by
  rintro ⟨-, -, h⟩
  rw [forall_outputs_iff] at h
  exact primary_silent_on_unknown_strategy _ 0 1 "rlf" h.2.1

end RatelimitFlex
