import Mathlib.Data.List.Perm.Basic
import RatelimitFlex.Model.SharedStore

/-!
# Requests and replies in cluster mode

Ids are unique, so a reply in flight belongs to one request of one client, and it is what the
shared store answered at the request's turn (`Consistent`).  A client finds a reply's id in its
pending map only when the request is its own and has not timed out.
-/

set_option autoImplicit false

namespace RatelimitFlex

open Library

variable {ω ι κ : Type}

/-! ## What was seen of a run -/

def ClusterOutput.request : ClusterOutput ω ι κ → Option (ℕ × ι × ClusterRequest κ)
  | .requested client id request => some (client, id, request)
  | _ => none

def ClusterOutput.receivedMessage : ClusterOutput ω ι κ → Option (ω × ClusterWorkerMessage ι κ)
  | .received worker msg => some (worker, msg)
  | _ => none

def ClusterOutput.action : ClusterOutput ω ι κ → Option (Timed (PrimaryAction ω ι κ))
  | .performed action => some action
  | _ => none

def PrimaryAction.handledMessage : PrimaryAction ω ι κ → Option (ω × ClusterWorkerMessage ι κ)
  | .handled worker msg => some (worker, msg)
  | .purged _ => none

/-- The requests made, with their clients and ids. -/
def requests (outs : List (ClusterOutput ω ι κ)) : List (ℕ × ι × ClusterRequest κ) :=
  outs.filterMap ClusterOutput.request

/-- The messages the primary received, in order. -/
def receivedMessages (outs : List (ClusterOutput ω ι κ)) :
    List (ω × ClusterWorkerMessage ι κ) :=
  outs.filterMap ClusterOutput.receivedMessage

/-- What the primary did to its stores, in order. -/
def primaryActions (outs : List (ClusterOutput ω ι κ)) : List (Timed (PrimaryAction ω ι κ)) :=
  outs.filterMap ClusterOutput.action

/-- The messages the primary handled, in order. -/
def handledMessages (outs : List (ClusterOutput ω ι κ)) : List (ω × ClusterWorkerMessage ι κ) :=
  (primaryActions outs).filterMap fun a => a.op.handledMessage

section Outputs

variable (outs outs' : List (ClusterOutput ω ι κ))

/-- The requests of two stretches of outputs. -/
theorem requests_append : requests (outs ++ outs') = requests outs ++ requests outs' :=
  List.filterMap_append

/-- The messages that the workers received in them. -/
theorem receivedMessages_append :
    receivedMessages (outs ++ outs') = receivedMessages outs ++ receivedMessages outs' :=
  List.filterMap_append

/-- What the primary did in them. -/
theorem primaryActions_append :
    primaryActions (outs ++ outs') = primaryActions outs ++ primaryActions outs' :=
  List.filterMap_append

/-- The messages that the primary handled in them. -/
theorem handledMessages_append :
    handledMessages (outs ++ outs') = handledMessages outs ++ handledMessages outs' := by
  rw [handledMessages, primaryActions_append]
  exact List.filterMap_append

end Outputs

variable [DecidableEq κ]

/-- The message of the request was handled, and `reply` is what the shared store answered. -/
def Answered (actions : List (Timed (PrimaryAction ω ι κ))) (worker : ω) (keyPrefix : String)
    (id : ι) (request : ClusterRequest κ) (reply : ClusterPrimaryMessage ι) : Prop :=
  ∃ before now after,
    actions = before ++ ⟨now, .handled worker (request.message id keyPrefix)⟩ :: after ∧
      reply = request.answer now (sharedStore keyPrefix before) id keyPrefix

/-- `result` is what the shared store gave for the increment at its turn. -/
def Counted (actions : List (Timed (PrimaryAction ω ι κ))) (worker : ω) (keyPrefix : String)
    (id : ι) (key : κ) (options : RateLimitIncrementOptions) (result : RateLimitResult) : Prop :=
  ∃ before now after store,
    actions = before ++ ⟨now, .handled worker (.increment id keyPrefix key options)⟩ :: after ∧
      sharedStore keyPrefix before = some store ∧ result = (store.increment now key options).2

/-- What has been answered stays answered. -/
theorem Answered.append {actions : List (Timed (PrimaryAction ω ι κ))} {worker : ω}
    {keyPrefix : String} {id : ι} {request : ClusterRequest κ} {reply : ClusterPrimaryMessage ι}
    (h : Answered actions worker keyPrefix id request reply)
    (later : List (Timed (PrimaryAction ω ι κ))) :
    Answered (actions ++ later) worker keyPrefix id request reply := by
  obtain ⟨before, now, after, hactions, hreply⟩ := h
  refine ⟨before, now, after ++ later, ?_, hreply⟩
  rw [hactions, List.append_assoc, List.cons_append]

/-- An increment that was counted stays counted. -/
theorem Counted.append {actions : List (Timed (PrimaryAction ω ι κ))} {worker : ω}
    {keyPrefix : String} {id : ι} {key : κ} {options : RateLimitIncrementOptions}
    {result : RateLimitResult} (h : Counted actions worker keyPrefix id key options result)
    (later : List (Timed (PrimaryAction ω ι κ))) :
    Counted (actions ++ later) worker keyPrefix id key options result := by
  obtain ⟨before, now, after, store, hactions, hstore, hresult⟩ := h
  refine ⟨before, now, after ++ later, store, ?_, hstore, hresult⟩
  rw [hactions, List.append_assoc, List.cons_append]

/-- An increment of a `MemoryStore` fills in four figures. -/
theorem MemoryStore.increment_snd_figures (now : ℤ) (key : κ) (options : RateLimitIncrementOptions)
    (s : MemoryStore κ) :
    (s.increment now key options).2 =
      { totalHits := (s.increment now key options).2.totalHits
        remaining := (s.increment now key options).2.remaining
        resetTime := (s.increment now key options).2.resetTime
        isBlocked := (s.increment now key options).2.isBlocked } := by
  cases s with
  | sliding o t => rfl
  | fixed o t =>
    simp only [MemoryStore.increment, incrementFixed]
    split <;> rfl
  | bucket o t =>
    simp only [MemoryStore.increment, incrementTokenBucket]
    split <;> split <;> rfl

/-- The figures of an answered increment are those of the store's result. -/
theorem Answered.counted {actions : List (Timed (PrimaryAction ω ι κ))} {worker : ω}
    {keyPrefix : String} {id id' : ι} {key : κ} {options : RateLimitIncrementOptions}
    {p : String} {data : ClusterResultData}
    (h : Answered actions worker keyPrefix id (.increment key options) (.result id' p (.ok data))) :
    Counted actions worker keyPrefix id key options
      { totalHits := data.totalHits
        remaining := data.remaining
        resetTime := data.resetTime
        isBlocked := data.isBlocked } := by
  obtain ⟨before, now, after, hactions, hreply⟩ := h
  cases hstore : sharedStore keyPrefix before with
  | none => simp [ClusterRequest.answer, hstore] at hreply
  | some store =>
    refine ⟨before, now, after, store, hactions, hstore, ?_⟩
    simp only [ClusterRequest.answer, hstore, ClusterPrimaryMessage.result.injEq] at hreply
    have houtcome := hreply.2.2
    unfold resultOutcome at houtcome
    split at houtcome
    · rw [Except.ok.injEq] at houtcome
      rw [houtcome]
      exact (store.increment_snd_figures now key options).symm
    · cases houtcome

/-! ## One client -/

namespace ClusterStore

variable [DecidableEq ι] {c : ClusterStore ω ι}

/-- A promise is settled once: only a pending one takes the outcome. -/
theorem promises_settle (id id' : ι) (outcome : ClusterPromise) (c : ClusterStore ω ι) :
    (c.settle id outcome).promises id' =
      if id' = id ∧ c.promises id = some .pending then some outcome else c.promises id' := by
  unfold settle
  split
  · next hp =>
    by_cases hid : id' = id
    · rw [if_pos ⟨hid, hp⟩, hid]
      exact Function.update_self _ _ _
    · rw [if_neg fun h => hid h.1]
      exact Function.update_of_ne hid _ _
  · next hp => rw [if_neg fun h => hp h.2]

/-- Of its requests a client settles one at most, a pending one, and drops it. -/
structure Settles (id : ι) (outcome : ClusterPromise) (c c' : ClusterStore ω ι) : Prop where
  pending : c'.pending = Function.update c.pending id none
  promises : ∀ id', c'.promises id' =
    if id' = id ∧ c.promises id = some .pending then some outcome else c.promises id'
  worker : c'.worker = c.worker
  keyPrefix : c'.keyPrefix = c.keyPrefix

/-- Nothing about the client's requests changes. -/
structure SameRequests (c c' : ClusterStore ω ι) : Prop where
  pending : c'.pending = c.pending
  promises : c'.promises = c.promises
  worker : c'.worker = c.worker
  keyPrefix : c'.keyPrefix = c.keyPrefix

omit [DecidableEq ι] in
/-- A client has the requests it has. -/
theorem sameRequests_refl (c : ClusterStore ω ι) : SameRequests c c := ⟨rfl, rfl, rfl, rfl⟩

omit [DecidableEq ι] in
/-- A failed initialisation touches no request. -/
theorem sameRequests_failInit (error : String) (c : ClusterStore ω ι) :
    SameRequests c (c.failInit error) := by
  unfold failInit
  split <;> exact ⟨rfl, rfl, rfl, rfl⟩

omit [DecidableEq ι] in
/-- An initialisation that settles touches no request. -/
theorem sameRequests_settleInit (c : ClusterStore ω ι) : SameRequests c c.settleInit := by
  unfold settleInit
  split <;> exact ⟨rfl, rfl, rfl, rfl⟩

/-- A reply settles the promise of its id and takes the id off the pending ones. -/
theorem settles_settle (id : ι) (outcome : ClusterPromise) (c : ClusterStore ω ι) :
    Settles id outcome c ((c.dropPending id).settle id outcome) where
  pending := by
    unfold settle
    split <;> rfl
  promises id' := promises_settle id id' outcome (c.dropPending id)
  worker := by
    unfold settle
    split <;> rfl
  keyPrefix := by
    unfold settle
    split <;> rfl

/-- So does the end of a request without a result. -/
theorem settles_finishVoid (purpose : VoidPurpose) (id : ι) (c : ClusterStore ω ι) :
    Settles id .done c ((c.dropPending id).finishVoid purpose id) := by
  have h := settles_settle id .done c
  cases purpose with
  | decrement => exact h
  | reset => exact h
  | shutdown => exact ⟨h.pending, h.promises, h.worker, h.keyPrefix⟩

/-- A message leaves the requests alone, or it is the reply to a pending one; it fulfils an
increment with the figures it carries. -/
theorem handleIncomingMessage_cases (msg : ClusterPrimaryMessage ι) (c : ClusterStore ω ι) :
    SameRequests c (c.handleIncomingMessage msg) ∨
      ∃ id e outcome, msg.id? = some id ∧ c.pending id = some e ∧
        Settles id outcome c (c.handleIncomingMessage msg) ∧
        ∀ result, outcome = .fulfilled result → e = .increment ∧
          ∃ p data, msg = .result id p (.ok data) ∧ result =
            { totalHits := data.totalHits
              remaining := data.remaining
              resetTime := data.resetTime
              isBlocked := data.isBlocked } := by
  unfold handleIncomingMessage
  split
  · exact Or.inl (sameRequests_refl c)
  · cases msg with
    | initNack p error =>
      simp only
      split
      · exact Or.inl (sameRequests_refl c)
      · exact Or.inl (sameRequests_failInit error c)
    | initAck p version =>
      simp only
      split
      · exact Or.inl (sameRequests_refl c)
      · exact Or.inl (sameRequests_settleInit c)
    | result id p outcome =>
      simp only
      split
      · exact Or.inl (sameRequests_refl c)
      · unfold dispatchResult
        split
        · exact Or.inl (sameRequests_refl c)
        · next hp =>
          refine Or.inr ?_
          cases outcome with
          | ok data =>
            refine ⟨id, _, _, rfl, hp, settles_settle id _ c, fun result hresult => ?_⟩
            refine ⟨rfl, p, data, rfl, ?_⟩
            rw [ClusterPromise.fulfilled.injEq] at hresult
            exact hresult.symm
          | error error =>
            exact ⟨id, _, _, rfl, hp, settles_settle id _ c, fun result hresult => by cases hresult⟩
        · next purpose hp =>
          refine Or.inr ?_
          cases outcome with
          | ok data =>
            exact ⟨id, _, _, rfl, hp, settles_settle id _ c, fun result hresult => by cases hresult⟩
          | error error =>
            simp only
            split
            · exact ⟨id, _, _, rfl, hp, settles_finishVoid _ id c,
                fun result hresult => by cases hresult⟩
            · exact ⟨id, _, _, rfl, hp, settles_settle id _ c,
                fun result hresult => by cases hresult⟩
    | ack id p =>
      simp only
      split
      · exact Or.inl (sameRequests_refl c)
      · unfold dispatchAck
        split
        · next purpose hp =>
          exact Or.inr ⟨id, _, _, rfl, hp, settles_finishVoid purpose id c,
            fun result hresult => by cases hresult⟩
        · exact Or.inl (sameRequests_refl c)

/-- A reply to nothing pending changes nothing. -/
theorem handleIncomingMessage_of_not_pending {msg : ClusterPrimaryMessage ι} {id : ι}
    (hid : msg.id? = some id) (hpending : c.pending id = none) :
    c.handleIncomingMessage msg = c := by
  unfold handleIncomingMessage
  cases msg with
  | initNack p error => cases hid
  | initAck p version => cases hid
  | result id' p outcome =>
    rw [ClusterPrimaryMessage.id?, Option.some.injEq] at hid
    simp only [dispatchResult, hid, hpending, ite_self]
  | ack id' p =>
    rw [ClusterPrimaryMessage.id?, Option.some.injEq] at hid
    simp only [dispatchAck, hid, hpending, ite_self]

end ClusterStore

/-! ## The invariant -/

/-- The client numbered `n`, after `outs`: what is pending in it was requested and has not been
settled, what is fulfilled was counted, and what timed out is no longer pending. -/
structure ClientConsistent (outs : List (ClusterOutput ω ι κ)) (n : ℕ) (c : ClusterStore ω ι) :
    Prop where
  requested : ∀ id, c.promises id ≠ none → ∃ request, (n, id, request) ∈ requests outs
  live : ∀ id e, c.pending id = some e → c.promises id = some .pending ∧
    ∃ request, (n, id, request) ∈ requests outs ∧ e = request.entry
  fulfilled : ∀ id result, c.promises id = some (.fulfilled result) → ∃ key options,
    (n, id, .increment key options) ∈ requests outs ∧
      Counted (primaryActions outs) c.worker c.keyPrefix id key options result
  timedOut : ∀ id, .timedOut n id ∈ outs →
    c.pending id = none ∧ ∃ request, (n, id, request) ∈ requests outs

/-- The message is that of a request of a client. -/
def SentBy (outs : List (ClusterOutput ω ι κ)) (clients : List (ClusterStore ω ι))
    (id : ι) (x : ω × ClusterWorkerMessage ι κ) : Prop :=
  ∃ n request c, (n, id, request) ∈ requests outs ∧ clients[n]? = some c ∧
    x = (c.worker, request.message id c.keyPrefix)

/-- The reply is the one to a request of a client. -/
def ReplyTo (outs : List (ClusterOutput ω ι κ)) (clients : List (ClusterStore ω ι))
    (id : ι) (x : ω × ClusterPrimaryMessage ι) : Prop :=
  ∃ n request c, (n, id, request) ∈ requests outs ∧ clients[n]? = some c ∧ x.1 = c.worker ∧
    Answered (primaryActions outs) c.worker c.keyPrefix id request x.2

/-- What the messages in flight, the primary and the clients have to do with what was seen. -/
structure Consistent (outs : List (ClusterOutput ω ι κ)) (s : Cluster ω ι κ) : Prop where
  nodup : ((requests outs).map fun r => r.2.1).Nodup
  inOrder : receivedMessages outs = handledMessages outs ++ s.primary.dispatchSerial
  stores : ∀ p, s.primary.stores p = sharedStore p (primaryActions outs)
  sent : ((s.toPrimary ++ receivedMessages outs).filterMap fun x => x.2.id?).Perm
    ((requests outs).map fun r => r.2.1)
  origin : ∀ x ∈ s.toPrimary ++ receivedMessages outs, ∀ id ∈ x.2.id?,
    SentBy outs s.clients id x
  replies : ∀ x ∈ s.primary.handling.toList ++ s.toWorkers, ∀ id ∈ x.2.id?,
    ReplyTo outs s.clients id x
  clients : ∀ n c, s.clients[n]? = some c → ClientConsistent outs n c
  numbered : ∀ r ∈ requests outs, r.1 < s.clients.length
  timedOut : ∀ n id, .timedOut n id ∈ outs → n < s.clients.length

omit [DecidableEq κ] in
/-- An id belongs to one request. -/
theorem request_unique {outs : List (ClusterOutput ω ι κ)}
    (hnodup : ((requests outs).map fun r => r.2.1).Nodup) {n n' : ℕ} {id : ι}
    {request request' : ClusterRequest κ} (h : (n, id, request) ∈ requests outs)
    (h' : (n', id, request') ∈ requests outs) : n = n' ∧ request = request' := by
  have heq := List.inj_on_of_nodup_map hnodup h h' rfl
  rw [Prod.mk.injEq, Prod.mk.injEq] at heq
  exact ⟨heq.1, heq.2.2⟩

/-! ## What is kept when more is seen -/

/-- The clients keep their numbers, workers and prefixes. -/
def Carried (clients clients' : List (ClusterStore ω ι)) : Prop :=
  ∀ (n : ℕ) (c : ClusterStore ω ι), clients[n]? = some c → ∃ c' : ClusterStore ω ι,
    clients'[n]? = some c' ∧ c'.worker = c.worker ∧ c'.keyPrefix = c.keyPrefix

/-- Clients are carried over by doing nothing. -/
theorem carried_refl (clients : List (ClusterStore ω ι)) : Carried clients clients :=
  fun _ c h => ⟨c, h, rfl, rfl⟩

/-- New clients come after the old ones. -/
theorem carried_append (clients more : List (ClusterStore ω ι)) :
    Carried clients (clients ++ more) := by
  intro n c h
  refine ⟨c, ?_, rfl, rfl⟩
  rw [List.getElem?_append_left (List.getElem?_eq_some_iff.mp h).1]
  exact h

/-- A client that is replaced keeps its worker and its prefix. -/
theorem carried_set {clients : List (ClusterStore ω ι)} {n : ℕ} {c c' : ClusterStore ω ι}
    (h : clients[n]? = some c) (hworker : c'.worker = c.worker)
    (hkeyed : c'.keyPrefix = c.keyPrefix) : Carried clients (clients.set n c') := by
  intro m d hd
  have hn := (List.getElem?_eq_some_iff.mp h).1
  by_cases hm : n = m
  · subst hm
    rw [h, Option.some.injEq] at hd
    refine ⟨c', ?_, ?_, ?_⟩
    · rw [List.getElem?_set_self hn]
    · rw [hworker, hd]
    · rw [hkeyed, hd]
  · exact ⟨d, by rw [List.getElem?_set_ne hm, hd], rfl, rfl⟩

/-- So do clients that are all changed. -/
theorem carried_map (clients : List (ClusterStore ω ι)) {f : ClusterStore ω ι → ClusterStore ω ι}
    (hworker : ∀ c, (f c).worker = c.worker) (hkeyed : ∀ c, (f c).keyPrefix = c.keyPrefix) :
    Carried clients (clients.map f) := by
  intro n c h
  refine ⟨f c, ?_, hworker c, hkeyed c⟩
  rw [List.getElem?_map, h]
  rfl

section Mono

variable {outs : List (ClusterOutput ω ι κ)} {clients clients' : List (ClusterStore ω ι)} {id : ι}

omit [DecidableEq κ] in
/-- Requests that were made stay made. -/
theorem mem_requests_append {r : ℕ × ι × ClusterRequest κ} (h : r ∈ requests outs)
    (outs' : List (ClusterOutput ω ι κ)) : r ∈ requests (outs ++ outs') := by
  rw [requests_append]
  exact List.mem_append_left _ h

omit [DecidableEq κ] in
/-- A message stays one that a client has sent. -/
theorem SentBy.mono {x : ω × ClusterWorkerMessage ι κ} (h : SentBy outs clients id x)
    (hcarried : Carried clients clients') (outs' : List (ClusterOutput ω ι κ)) :
    SentBy (outs ++ outs') clients' id x := by
  obtain ⟨n, request, c, hmem, hc, hx⟩ := h
  obtain ⟨c', hc', hworker, hkeyed⟩ := hcarried n c hc
  refine ⟨n, request, c', mem_requests_append hmem outs', hc', ?_⟩
  rw [hworker, hkeyed, hx]

/-- A reply stays one to a request of its client. -/
theorem ReplyTo.mono {x : ω × ClusterPrimaryMessage ι} (h : ReplyTo outs clients id x)
    (hcarried : Carried clients clients') (outs' : List (ClusterOutput ω ι κ)) :
    ReplyTo (outs ++ outs') clients' id x := by
  obtain ⟨n, request, c, hmem, hc, hworker, hanswered⟩ := h
  obtain ⟨c', hc', hworker', hkeyed'⟩ := hcarried n c hc
  refine ⟨n, request, c', mem_requests_append hmem outs', hc', ?_, ?_⟩
  · rw [hworker, hworker']
  · rw [hworker', hkeyed', primaryActions_append]
    exact hanswered.append _

/-- Outputs that time none of its requests out change nothing for a client. -/
theorem ClientConsistent.append {n : ℕ} {c : ClusterStore ω ι} (h : ClientConsistent outs n c)
    {outs' : List (ClusterOutput ω ι κ)} (hnot : ∀ id, .timedOut n id ∉ outs') :
    ClientConsistent (outs ++ outs') n c where
  requested id hid := by
    obtain ⟨request, hmem⟩ := h.requested id hid
    exact ⟨request, mem_requests_append hmem outs'⟩
  live id e he := by
    obtain ⟨hp, request, hmem, hentry⟩ := h.live id e he
    exact ⟨hp, request, mem_requests_append hmem outs', hentry⟩
  fulfilled id result hresult := by
    obtain ⟨key, options, hmem, hcounted⟩ := h.fulfilled id result hresult
    refine ⟨key, options, mem_requests_append hmem outs', ?_⟩
    rw [primaryActions_append]
    exact hcounted.append _
  timedOut id hid := by
    rcases List.mem_append.mp hid with hid | hid
    · obtain ⟨hp, request, hmem⟩ := h.timedOut id hid
      exact ⟨hp, request, mem_requests_append hmem outs'⟩
    · exact absurd hid (hnot id)

/-- A client with the same requests is as consistent. -/
theorem ClientConsistent.same {n : ℕ} {c c' : ClusterStore ω ι} (h : ClientConsistent outs n c)
    (hsame : ClusterStore.SameRequests c c') : ClientConsistent outs n c' where
  requested id hid := h.requested id (hsame.promises ▸ hid)
  live id e he := by
    rw [hsame.promises]
    exact h.live id e (hsame.pending ▸ he)
  fulfilled id result hresult := by
    rw [hsame.worker, hsame.keyPrefix]
    exact h.fulfilled id result (hsame.promises ▸ hresult)
  timedOut id hid := by
    rw [hsame.pending]
    exact h.timedOut id hid

/-- A pending request is settled; it is fulfilled with what was counted for it. -/
theorem ClientConsistent.settles [DecidableEq ι] {n : ℕ} {c c' : ClusterStore ω ι}
    {outcome : ClusterPromise} (h : ClientConsistent outs n c)
    (hsettles : ClusterStore.Settles id outcome c c')
    (hcounted : ∀ result, outcome = .fulfilled result → ∃ key options,
      (n, id, .increment key options) ∈ requests outs ∧
        Counted (primaryActions outs) c.worker c.keyPrefix id key options result) :
    ClientConsistent outs n c' where
  requested id' hid := by
    rw [hsettles.promises] at hid
    split at hid
    · next hself =>
      refine h.requested id' ?_
      rw [hself.1, hself.2]
      simp
    · exact h.requested id' hid
  live id' e he := by
    rw [hsettles.pending, Function.update_apply] at he
    split at he
    · cases he
    · next hne =>
      rw [hsettles.promises, if_neg fun hself => hne hself.1]
      exact h.live id' e he
  fulfilled id' result hresult := by
    rw [hsettles.worker, hsettles.keyPrefix]
    rw [hsettles.promises] at hresult
    split at hresult
    · next hself =>
      rw [hself.1]
      exact hcounted result (Option.some.inj hresult)
    · exact h.fulfilled id' result hresult
  timedOut id' hid := by
    obtain ⟨hp, hrequest⟩ := h.timedOut id' hid
    refine ⟨?_, hrequest⟩
    rw [hsettles.pending, Function.update_apply, hp, ite_self]

end Mono

section Requests

variable [DecidableEq ι] {outs : List (ClusterOutput ω ι κ)} {n : ℕ} {c : ClusterStore ω ι}

omit [DecidableEq ι] in
/-- A shutdown rejects what is pending. -/
theorem ClientConsistent.closePending (h : ClientConsistent outs n c) :
    ClientConsistent outs n c.closePending where
  requested id hid := by
    refine h.requested id fun hnone => hid ?_
    simp [ClusterStore.closePending, hnone]
  live id e he := by cases he
  fulfilled id result hresult := by
    simp only [ClusterStore.closePending] at hresult
    split at hresult
    · cases hresult
    · exact h.fulfilled id result hresult
  timedOut id hid := ⟨rfl, (h.timedOut id hid).2⟩

/-- A new request under a new id. -/
theorem ClientConsistent.setPending (h : ClientConsistent outs n c) {id : ι}
    {request : ClusterRequest κ} (hfresh : ∀ r ∈ requests outs, r.2.1 ≠ id) :
    ClientConsistent (outs ++ [.requested n id request]) n (c.setPending id request) := by
  -- what the request finds: a shutdown has closed the others
  obtain ⟨d, hd, hset⟩ : ∃ d, ClientConsistent outs n d ∧ c.setPending id request =
      { d with
        pending := Function.update d.pending id (some request.entry)
        promises := Function.update d.promises id (some .pending) } := by
    cases request with
    | increment key options => exact ⟨c, h, rfl⟩
    | decrement key options => exact ⟨c, h, rfl⟩
    | reset key => exact ⟨c, h, rfl⟩
    | shutdown => exact ⟨c.closePending, h.closePending, rfl⟩
  have hmore : ClientConsistent (outs ++ [.requested n id request]) n d :=
    hd.append (by simp)
  have hnew : (n, id, request) ∈ requests (outs ++ [.requested n id request]) := by
    rw [requests_append]
    exact List.mem_append_right _ (List.mem_singleton_self _)
  rw [hset]
  refine ⟨fun id' hid' => ?_, fun id' e he => ?_, fun id' result hresult => ?_, fun id' hid' => ?_⟩
  · by_cases hself : id' = id
    · rw [hself]
      exact ⟨request, hnew⟩
    · simp only [Function.update_of_ne hself] at hid'
      exact hmore.requested id' hid'
  · by_cases hself : id' = id
    · subst hself
      simp only [Function.update_self] at he ⊢
      exact ⟨trivial, request, hnew, (Option.some.inj he).symm⟩
    · simp only [Function.update_of_ne hself] at he ⊢
      exact hmore.live id' e he
  · by_cases hself : id' = id
    · subst hself
      simp only [Function.update_self] at hresult
      cases hresult
    · simp only [Function.update_of_ne hself] at hresult
      exact hmore.fulfilled id' result hresult
  · obtain ⟨hp, hrequest⟩ := hmore.timedOut id' hid'
    have hold : .timedOut n id' ∈ outs := by simpa using hid'
    obtain ⟨-, old, hold⟩ := hd.timedOut id' hold
    have hself : id' ≠ id := hfresh _ hold
    refine ⟨?_, hrequest⟩
    simp only [Function.update_of_ne hself]
    exact hp

end Requests

/-! ## One event -/

/-- The message at a place, and the others. -/
theorem cons_eraseIdx_perm {α : Type} {l : List α} {n : ℕ} {x : α} (h : l[n]? = some x) :
    (x :: l.eraseIdx n).Perm l := by
  obtain ⟨hn, rfl⟩ := List.getElem?_eq_some_iff.mp h
  exact List.getElem_cons_eraseIdx_perm hn

/-- A client of a list in which one was replaced is that one or an old one. -/
theorem getElem?_set_cases {clients : List (ClusterStore ω ι)} {n m : ℕ} {c' d : ClusterStore ω ι}
    (h : (clients.set n c')[m]? = some d) :
    (m = n ∧ d = c') ∨ (m ≠ n ∧ clients[m]? = some d) := by
  by_cases hm : n = m
  · subst hm
    rw [List.getElem?_set, if_pos rfl] at h
    split at h
    · exact Or.inl ⟨rfl, (Option.some.inj h).symm⟩
    · cases h
  · rw [List.getElem?_set_ne hm] at h
    exact Or.inr ⟨Ne.symm hm, h⟩

namespace Consistent

variable [DecidableEq ω] [DecidableEq ι] {outs : List (ClusterOutput ω ι κ)} {s : Cluster ω ι κ}

omit [DecidableEq ω] [DecidableEq ι] in
/-- Nothing is seen; the primary and the messages stay, the clients' requests too. -/
theorem clientsOnly (h : Consistent outs s) {clients' : List (ClusterStore ω ι)}
    (hcarried : Carried s.clients clients')
    (hclients : ∀ n c', clients'[n]? = some c' → ClientConsistent outs n c')
    (hlength : s.clients.length ≤ clients'.length) :
    Consistent outs { s with clients := clients' } where
  nodup := h.nodup
  inOrder := h.inOrder
  stores := h.stores
  sent := h.sent
  origin x hx id hid := by
    have := (h.origin x hx id hid).mono hcarried []
    rwa [List.append_nil] at this
  replies x hx id hid := by
    have := (h.replies x hx id hid).mono hcarried []
    rwa [List.append_nil] at this
  clients := hclients
  numbered r hr := (h.numbered r hr).trans_le hlength
  timedOut n id hid := (h.timedOut n id hid).trans_le hlength

omit [DecidableEq ω] [DecidableEq ι] in
/-- A message without an id is sent. -/
theorem send (h : Consistent outs s) {x : ω × ClusterWorkerMessage ι κ} (hx : x.2.id? = none) :
    Consistent outs { s with toPrimary := s.toPrimary ++ [x] } where
  nodup := h.nodup
  inOrder := h.inOrder
  stores := h.stores
  sent := by
    have hsame : (s.toPrimary ++ [x] ++ receivedMessages outs).filterMap (fun x => x.2.id?) =
        (s.toPrimary ++ receivedMessages outs).filterMap fun x => x.2.id? := by
      simp only [List.filterMap_append, List.filterMap_cons, hx, List.filterMap_nil,
        List.append_nil]
    rw [hsame]
    exact h.sent
  origin y hy id hid := by
    rw [List.append_assoc, List.mem_append, List.mem_append, List.mem_singleton] at hy
    rcases hy with hy | rfl | hy
    · exact h.origin y (List.mem_append_left _ hy) id hid
    · rw [hx] at hid
      cases hid
    · exact h.origin y (List.mem_append_right _ hy) id hid
  replies := h.replies
  clients := h.clients
  numbered := h.numbered
  timedOut := h.timedOut

omit [DecidableEq ω] [DecidableEq ι] in
/-- A new client has made no request. -/
theorem construct (h : Consistent outs s) (worker : ω) (keyPrefix : String) (timeoutMs : ℕ)
    {x : ω × ClusterWorkerMessage ι κ} (hx : x.2.id? = none) :
    Consistent outs { s with
      clients := s.clients ++ [{ worker, keyPrefix, timeoutMs }]
      toPrimary := s.toPrimary ++ [x] } := by
  have hnew : ClientConsistent outs s.clients.length
      ({ worker, keyPrefix, timeoutMs } : ClusterStore ω ι) := by
    refine ⟨fun id hid => absurd rfl hid, fun id e he => ?_, fun id result hresult => ?_,
      fun id hid => ?_⟩
    · cases he
    · cases hresult
    · exact absurd (h.timedOut _ id hid) (lt_irrefl _)
  refine (h.send hx).clientsOnly (carried_append s.clients _) (fun n c' hc' => ?_) (by simp)
  by_cases hn : n < s.clients.length
  · rw [List.getElem?_append_left hn] at hc'
    exact h.clients n c' hc'
  · rw [List.getElem?_append_right (not_lt.mp hn), List.getElem?_singleton] at hc'
    split at hc'
    · next hlast =>
      rw [Option.some.injEq] at hc'
      have hn : n = s.clients.length := by omega
      rw [hn, ← hc']
      exact hnew
    · cases hc'

omit [DecidableEq ω] [DecidableEq ι] in
/-- The timeout of the initialisation keeps the cluster consistent. -/
theorem initTimeout (h : Consistent outs s) {n : ℕ} {c : ClusterStore ω ι}
    (hc : s.clients[n]? = some c) (error : String) :
    Consistent outs { s with clients := s.clients.set n (c.failInit error) } := by
  have hsame := ClusterStore.sameRequests_failInit error c
  refine h.clientsOnly (carried_set hc hsame.worker hsame.keyPrefix) (fun m d hd => ?_) (by simp)
  rcases getElem?_set_cases hd with ⟨rfl, rfl⟩ | ⟨-, hd⟩
  · exact (h.clients _ c hc).same hsame
  · exact h.clients m d hd

omit [DecidableEq ω] in
/-- The timeout of a request keeps the cluster consistent. -/
theorem timeout (h : Consistent outs s) {n : ℕ} {c : ClusterStore ω ι} {id : ι}
    (hc : s.clients[n]? = some c) (hpending : c.pending id ≠ none) :
    Consistent (outs ++ [.timedOut n id]) { s with clients := s.clients.set n (c.timeout id) } := by
  have hsettles : ClusterStore.Settles id _ c (c.timeout id) := ClusterStore.settles_settle id _ c
  obtain ⟨e, he⟩ := Option.ne_none_iff_exists'.mp hpending
  obtain ⟨-, request, hrequest, -⟩ := (h.clients n c hc).live id e he
  have hcarried := carried_set hc hsettles.worker hsettles.keyPrefix
  have hrequests : requests (outs ++ [.timedOut n id]) = requests outs := by
    rw [requests_append]
    exact List.append_nil _
  have hreceived : receivedMessages (outs ++ [.timedOut n id]) = receivedMessages outs := by
    rw [receivedMessages_append]
    exact List.append_nil _
  have hactions : primaryActions (outs ++ [.timedOut n id]) = primaryActions outs := by
    rw [primaryActions_append]
    exact List.append_nil _
  refine ⟨?_, ?_, ?_, ?_, ?_, ?_, ?_, ?_, ?_⟩
  · rw [hrequests]
    exact h.nodup
  · rw [hreceived, handledMessages, hactions]
    exact h.inOrder
  · rw [hactions]
    exact h.stores
  · rw [hreceived, hrequests]
    exact h.sent
  · rw [hreceived]
    exact fun x hx id hid => (h.origin x hx id hid).mono hcarried _
  · exact fun x hx id hid => (h.replies x hx id hid).mono hcarried _
  · intro m d hd
    rcases getElem?_set_cases hd with ⟨rfl, rfl⟩ | ⟨hm, hd⟩
    · have hold := (h.clients m c hc).settles hsettles fun result hresult => by cases hresult
      refine ⟨?_, ?_, ?_, fun id' hid' => ?_⟩
      · rw [hrequests]
        exact hold.requested
      · rw [hrequests]
        exact hold.live
      · rw [hrequests, hactions]
        exact hold.fulfilled
      · rw [hrequests]
        rcases List.mem_append.mp hid' with hid' | hid'
        · exact hold.timedOut id' hid'
        · rw [List.mem_singleton, ClusterOutput.timedOut.injEq] at hid'
          refine ⟨?_, request, hid'.2 ▸ hrequest⟩
          rw [hid'.2, hsettles.pending, Function.update_self]
    · refine (h.clients m d hd).append fun id' hid' => ?_
      rw [List.mem_singleton, ClusterOutput.timedOut.injEq] at hid'
      exact hm hid'.1
  · rw [hrequests]
    simpa only [List.length_set] using h.numbered
  · intro m id' hid'
    rw [List.length_set]
    rcases List.mem_append.mp hid' with hid' | hid'
    · exact h.timedOut m id' hid'
    · rw [List.mem_singleton, ClusterOutput.timedOut.injEq] at hid'
      rw [hid'.1]
      exact (List.getElem?_eq_some_iff.mp hc).1

omit [DecidableEq ω] in
/-- A new request, under a new id. -/
theorem request (h : Consistent outs s) {n : ℕ} {c : ClusterStore ω ι} {id : ι}
    (hc : s.clients[n]? = some c) (request : ClusterRequest κ)
    (hfresh : ∀ r ∈ requests outs, r.2.1 ≠ id) :
    Consistent (outs ++ [.requested n id request]) { s with
      clients := s.clients.set n (c.setPending id request)
      toPrimary := s.toPrimary ++ [(c.worker, request.message id c.keyPrefix)] } := by
  have hworker : (c.setPending id request).worker = c.worker := by cases request <;> rfl
  have hkeyed : (c.setPending id request).keyPrefix = c.keyPrefix := by cases request <;> rfl
  have hcarried := carried_set hc hworker hkeyed
  have hn := (List.getElem?_eq_some_iff.mp hc).1
  have hrequests : requests (outs ++ [.requested n id request]) =
      requests outs ++ [(n, id, request)] := requests_append _ _
  have hreceived : receivedMessages (outs ++ [.requested n id request]) = receivedMessages outs := by
    rw [receivedMessages_append]
    exact List.append_nil _
  have hactions : primaryActions (outs ++ [.requested n id request]) = primaryActions outs := by
    rw [primaryActions_append]
    exact List.append_nil _
  have hid : (request.message id c.keyPrefix).id? = some id := by cases request <;> rfl
  refine ⟨?_, ?_, ?_, ?_, ?_, ?_, ?_, ?_, ?_⟩
  · rw [hrequests, List.map_append, List.nodup_append]
    refine ⟨h.nodup, by simp, fun a ha b hb => ?_⟩
    obtain ⟨r, hr, rfl⟩ := List.mem_map.mp ha
    have hb : b = id := by simpa using hb
    rw [hb]
    exact hfresh r hr
  · rw [hreceived, handledMessages, hactions]
    exact h.inOrder
  · rw [hactions]
    exact h.stores
  · rw [hreceived, hrequests, List.map_append, List.append_assoc]
    have hsent := h.sent
    rw [List.filterMap_append] at hsent
    simp only [List.filterMap_append, List.filterMap_cons, hid, List.filterMap_nil, List.map_cons,
      List.map_nil]
    refine List.Perm.trans ?_ (hsent.append_right [id])
    rw [List.append_assoc]
    exact List.perm_append_comm.append_left _
  · intro x hx id' hid'
    rw [hreceived, List.append_assoc, List.mem_append, List.mem_append, List.mem_singleton] at hx
    rcases hx with hx | rfl | hx
    · exact (h.origin x (List.mem_append_left _ hx) id' hid').mono hcarried _
    · rw [hid, Option.mem_some_iff] at hid'
      refine ⟨n, request, c.setPending id request, ?_, List.getElem?_set_self hn, ?_⟩
      · rw [hrequests, ← hid']
        exact List.mem_append_right _ (List.mem_singleton_self _)
      · rw [hworker, hkeyed, hid']
    · exact (h.origin x (List.mem_append_right _ hx) id' hid').mono hcarried _
  · exact fun x hx id hid => (h.replies x hx id hid).mono hcarried _
  · intro m d hd
    rcases getElem?_set_cases hd with ⟨rfl, rfl⟩ | ⟨-, hd⟩
    · exact (h.clients m c hc).setPending hfresh
    · exact (h.clients m d hd).append (by simp)
  · intro r hr
    rw [List.length_set]
    rw [hrequests] at hr
    rcases List.mem_append.mp hr with hr | hr
    · exact h.numbered r hr
    · rw [List.mem_singleton.mp hr]
      exact hn
  · intro m id' hid'
    rw [List.length_set]
    exact h.timedOut m id' (by simpa using hid')

omit [DecidableEq ω] [DecidableEq ι] in
/-- The primary gets a message from those in flight. -/
theorem receive (h : Consistent outs s) {n : ℕ} {x : ω × ClusterWorkerMessage ι κ}
    (hx : s.toPrimary[n]? = some x) :
    Consistent (outs ++ [.received x.1 x.2]) { s with
      toPrimary := s.toPrimary.eraseIdx n
      primary := s.primary.handleMessage x.1 x.2 } := by
  have hcarried := carried_refl s.clients
  have hrequests : requests (outs ++ [.received x.1 x.2]) = requests outs := by
    rw [requests_append]
    exact List.append_nil _
  have hreceived : receivedMessages (outs ++ [.received x.1 x.2]) = receivedMessages outs ++ [x] :=
    receivedMessages_append _ _
  have hactions : primaryActions (outs ++ [.received x.1 x.2]) = primaryActions outs := by
    rw [primaryActions_append]
    exact List.append_nil _
  have hperm : (s.toPrimary.eraseIdx n ++ (receivedMessages outs ++ [x])).Perm
      (s.toPrimary ++ receivedMessages outs) := by
    rw [← List.append_assoc]
    refine List.perm_append_comm.trans ?_
    exact (cons_eraseIdx_perm hx).append_right _
  refine ⟨?_, ?_, ?_, ?_, ?_, ?_, ?_, ?_, ?_⟩
  · rw [hrequests]
    exact h.nodup
  · rw [hreceived, handledMessages, hactions, h.inOrder, List.append_assoc]
    rfl
  · rw [hactions]
    exact h.stores
  · rw [hreceived, hrequests]
    exact (hperm.filterMap _).trans h.sent
  · rw [hreceived]
    exact fun y hy id hid => (h.origin y (hperm.subset hy) id hid).mono hcarried _
  · exact fun y hy id hid => (h.replies y hy id hid).mono hcarried _
  · exact fun m d hd => (h.clients m d hd).append (by simp)
  · rw [hrequests]
    exact h.numbered
  · exact fun m id hid => h.timedOut m id (by simpa using hid)

omit [DecidableEq ω] [DecidableEq ι] in
/-- The chain comes to a message. -/
theorem dispatch (h : Consistent outs s) (now : ℤ) {x : ω × ClusterWorkerMessage ι κ}
    {rest : List (ω × ClusterWorkerMessage ι κ)}
    (hchain : s.primary.dispatchSerial = x :: rest) :
    let r := ClusterStorePrimary.dispatchWorkerMessage now s.primary.stores x.2
    Consistent (outs ++ [.performed ⟨now, .handled x.1 x.2⟩])
      { s with primary := ⟨r.1, rest, some (x.1, r.2)⟩ } := by
  intro r
  have hcarried := carried_refl s.clients
  have hrequests : requests (outs ++ [.performed ⟨now, .handled x.1 x.2⟩]) = requests outs := by
    rw [requests_append]
    exact List.append_nil _
  have hreceived : receivedMessages (outs ++ [.performed ⟨now, .handled x.1 x.2⟩]) =
      receivedMessages outs := by
    rw [receivedMessages_append]
    exact List.append_nil _
  have hhandled : handledMessages (outs ++ [.performed ⟨now, .handled x.1 x.2⟩]) =
      handledMessages outs ++ [x] := handledMessages_append _ _
  have hactions : primaryActions (outs ++ [.performed ⟨now, .handled x.1 x.2⟩]) =
      primaryActions outs ++ [⟨now, .handled x.1 x.2⟩] := primaryActions_append _ _
  refine ⟨?_, ?_, ?_, ?_, ?_, ?_, ?_, ?_, ?_⟩
  · rw [hrequests]
    exact h.nodup
  · rw [hreceived, hhandled, h.inOrder, hchain, List.append_assoc]
    rfl
  · intro p
    rw [hactions, sharedStore_append, ← h.stores p]
    exact ClusterStorePrimary.dispatchWorkerMessage_fst now x.2 p
  · rw [hreceived, hrequests]
    exact h.sent
  · rw [hreceived]
    exact fun y hy id hid => (h.origin y hy id hid).mono hcarried _
  · intro y hy id hid
    simp only [Option.toList_some, List.cons_append, List.nil_append, List.mem_cons] at hy
    rcases hy with rfl | hy
    · -- the handled message is a request's, and this is its answer
      have hmem : x ∈ s.toPrimary ++ receivedMessages outs := by
        rw [h.inOrder, hchain]
        simp
      have hsame : x.2.id? = some id := by
        rw [← ClusterStorePrimary.dispatchWorkerMessage_id? now s.primary.stores x.2]
        exact hid
      obtain ⟨m, request, c, hrequest, hc, rfl⟩ := h.origin x hmem id hsame
      refine ⟨m, request, c, ?_, hc, rfl, primaryActions outs, now, [], hactions, ?_⟩
      · rw [hrequests]
        exact hrequest
      · rw [← h.stores]
        exact ClusterStorePrimary.dispatchWorkerMessage_snd now id c.keyPrefix request
    · exact (h.replies y (List.mem_append_right _ hy) id hid).mono hcarried _
  · exact fun m d hd => (h.clients m d hd).append (by simp)
  · rw [hrequests]
    exact h.numbered
  · exact fun m id hid => h.timedOut m id (by simpa using hid)

omit [DecidableEq ω] [DecidableEq ι] in
/-- The store's cleanup timer fires. -/
theorem purgeExpired (h : Consistent outs s) (now : ℤ) (p : String) :
    Consistent (outs ++ [.performed ⟨now, .purged p⟩]) { s with
      primary := { s.primary with
        stores := Function.update s.primary.stores p
          ((s.primary.stores p).map fun store => store.purgeExpired now) } } := by
  have hcarried := carried_refl s.clients
  have hrequests : requests (outs ++ [.performed ⟨now, .purged p⟩]) = requests outs := by
    rw [requests_append]
    exact List.append_nil _
  have hreceived : receivedMessages (outs ++ [.performed ⟨now, .purged p⟩]) =
      receivedMessages outs := by
    rw [receivedMessages_append]
    exact List.append_nil _
  have hhandled : handledMessages (outs ++ [.performed ⟨now, .purged p⟩]) =
      handledMessages outs := by
    rw [handledMessages_append]
    exact List.append_nil _
  have hactions : primaryActions (outs ++ [.performed ⟨now, .purged p⟩]) =
      primaryActions outs ++ [⟨now, .purged p⟩] := primaryActions_append _ _
  refine ⟨?_, ?_, ?_, ?_, ?_, ?_, ?_, ?_, ?_⟩
  · rw [hrequests]
    exact h.nodup
  · rw [hreceived, hhandled]
    exact h.inOrder
  · intro q
    rw [hactions, sharedStore_append, ← h.stores q]
    simp only [Function.update_apply, sharedStep]
    by_cases hq : q = p
    · rw [if_pos hq, if_pos hq.symm, hq]
    · rw [if_neg hq, if_neg (Ne.symm hq)]
  · rw [hreceived, hrequests]
    exact h.sent
  · rw [hreceived]
    exact fun y hy id hid => (h.origin y hy id hid).mono hcarried _
  · exact fun y hy id hid => (h.replies y hy id hid).mono hcarried _
  · exact fun m d hd => (h.clients m d hd).append (by simp)
  · rw [hrequests]
    exact h.numbered
  · exact fun m id hid => h.timedOut m id (by simpa using hid)

omit [DecidableEq ω] [DecidableEq ι] in
/-- A handler is done. -/
theorem reply (h : Consistent outs s) {x : ω × ClusterPrimaryMessage ι}
    (hhandling : s.primary.handling = some x) :
    Consistent outs { s with
      toWorkers := s.toWorkers ++ [x]
      primary := { s.primary with handling := none } } where
  nodup := h.nodup
  inOrder := h.inOrder
  stores := h.stores
  sent := h.sent
  origin := h.origin
  replies y hy id hid := by
    refine h.replies y ?_ id hid
    rw [hhandling]
    simpa [or_comm] using hy
  clients := h.clients
  numbered := h.numbered
  timedOut := h.timedOut

omit [DecidableEq ω] [DecidableEq ι] in
/-- A reply that settles a client's request is the answer to it. -/
theorem answered_of_pending (h : Consistent outs s) {n m : ℕ} {worker : ω}
    {msg : ClusterPrimaryMessage ι} (hx : s.toWorkers[n]? = some (worker, msg))
    {c : ClusterStore ω ι} (hc : s.clients[m]? = some c) {id : ι} {e : PendingEntry}
    (hid : msg.id? = some id) (he : c.pending id = some e) :
    ∃ request, (m, id, request) ∈ requests outs ∧ e = request.entry ∧ worker = c.worker ∧
      Answered (primaryActions outs) c.worker c.keyPrefix id request msg := by
  obtain ⟨hn, hget⟩ := List.getElem?_eq_some_iff.mp hx
  have hmem : (worker, msg) ∈ s.primary.handling.toList ++ s.toWorkers :=
    List.mem_append_right _ (hget ▸ List.getElem_mem hn)
  obtain ⟨m', request', c', hrequest', hc', hworker, hanswered⟩ := h.replies _ hmem id hid
  obtain ⟨-, request, hrequest, hentry⟩ := (h.clients m c hc).live id e he
  obtain ⟨rfl, rfl⟩ := request_unique h.nodup hrequest hrequest'
  rw [hc, Option.some.injEq] at hc'
  subst hc'
  exact ⟨request, hrequest, hentry, hworker, hanswered⟩

/-- What a worker's stores do with a message that arrives there. -/
def hear (worker : ω) (msg : ClusterPrimaryMessage ι) (c : ClusterStore ω ι) : ClusterStore ω ι :=
  if c.worker = worker then c.handleIncomingMessage msg else c

/-- A message comes to a worker. -/
theorem deliver (h : Consistent outs s) {n : ℕ} {worker : ω} {msg : ClusterPrimaryMessage ι}
    (hx : s.toWorkers[n]? = some (worker, msg)) :
    Consistent outs { s with
      toWorkers := s.toWorkers.eraseIdx n
      clients := s.clients.map (hear worker msg) } := by
  have hkept : ∀ c : ClusterStore ω ι, (hear worker msg c).worker = c.worker ∧
      (hear worker msg c).keyPrefix = c.keyPrefix := by
    intro c
    unfold hear
    split
    · rcases c.handleIncomingMessage_cases msg with hsame | ⟨id, e, outcome, -, -, hsettles, -⟩
      · exact ⟨hsame.worker, hsame.keyPrefix⟩
      · exact ⟨hsettles.worker, hsettles.keyPrefix⟩
    · exact ⟨rfl, rfl⟩
  have hcarried := carried_map s.clients (fun c => (hkept c).1) fun c => (hkept c).2
  have herased : Consistent outs { s with toWorkers := s.toWorkers.eraseIdx n } := by
    refine ⟨h.nodup, h.inOrder, h.stores, h.sent, h.origin, fun y hy => h.replies y ?_, h.clients,
      h.numbered, h.timedOut⟩
    rcases List.mem_append.mp hy with hy | hy
    · exact List.mem_append_left _ hy
    · exact List.mem_append_right _ ((List.eraseIdx_sublist _ _).subset hy)
  refine herased.clientsOnly hcarried (fun m c' hc' => ?_) (by simp)
  rw [List.getElem?_map, Option.map_eq_some_iff] at hc'
  obtain ⟨c, hc, rfl⟩ := hc'
  have hold := h.clients m c hc
  unfold hear
  split
  · rcases c.handleIncomingMessage_cases msg with hsame | ⟨id, e, outcome, hid, he, hsettles, hful⟩
    · exact hold.same hsame
    · refine hold.settles hsettles fun result hresult => ?_
      obtain ⟨request, hrequest, hentry, -, hanswered⟩ := h.answered_of_pending hx hc hid he
      obtain ⟨hincrement, p, data, rfl, rfl⟩ := hful result hresult
      rw [hincrement] at hentry
      cases request with
      | increment key options => exact ⟨key, options, hrequest, hanswered.counted⟩
      | decrement key options => cases hentry
      | reset key => cases hentry
      | shutdown => cases hentry
  · exact hold

/-- One event; a request's id is new. -/
theorem step (h : Consistent outs s) {i : Timed (ClusterEvent ω ι κ)}
    (hfresh : ∀ n id request, i.op = .request n id request → ∀ r ∈ requests outs, r.2.1 ≠ id) :
    Consistent (outs ++ (s.step i).2) (s.step i).1 := by
  have hidle : Consistent (outs ++ []) s := by
    rw [List.append_nil]
    exact h
  obtain ⟨now, op⟩ := i
  cases op with
  | construct worker keyPrefix timeoutMs storeOptions =>
    simp only [Cluster.step]
    split
    · exact hidle
    · rw [List.append_nil]
      exact h.construct worker keyPrefix timeoutMs rfl
  | initTimeout n =>
    simp only [Cluster.step]
    split
    · next c hc =>
      rw [List.append_nil]
      exact h.initTimeout hc _
    · exact hidle
  | request n id request =>
    simp only [Cluster.step]
    split
    · next c hc =>
      split
      · exact h.request hc request (hfresh n id request rfl)
      · exact hidle
    · exact hidle
  | timeout n id =>
    simp only [Cluster.step]
    split
    · next c hc =>
      split
      · exact hidle
      · next hpending => exact h.timeout hc hpending
    · exact hidle
  | receive n =>
    simp only [Cluster.step]
    split
    · next worker msg hx => exact h.receive hx
    · exact hidle
  | dispatch =>
    simp only [Cluster.step]
    split
    · next worker msg rest _ hchain => exact h.dispatch now hchain
    · exact hidle
  | reply =>
    simp only [Cluster.step]
    split
    · next sent hhandling =>
      rw [List.append_nil]
      exact h.reply hhandling
    · exact hidle
  | deliver n =>
    simp only [Cluster.step]
    split
    · next worker msg hx =>
      rw [List.append_nil]
      exact h.deliver hx
    · exact hidle
  | purgeExpired keyPrefix => exact h.purgeExpired now keyPrefix

end Consistent

/-! ## A run -/

/-- The id an event makes a request with. -/
def ClusterEvent.requestId : ClusterEvent ω ι κ → Option ι
  | .request _ id _ => some id
  | _ => none

/-- What was seen of a run. -/
def Cluster.runOutputs [DecidableEq ω] [DecidableEq ι] (xs : List (Timed (ClusterEvent ω ι κ)))
    (s : Cluster ω ι κ) : List (ClusterOutput ω ι κ) :=
  (outputs Cluster.step xs s).flatten

section Run

variable [DecidableEq ω] [DecidableEq ι] {outs : List (ClusterOutput ω ι κ)} {s : Cluster ω ι κ}

/-- Only a request's event makes a request, and under its id. -/
theorem requests_step (i : Timed (ClusterEvent ω ι κ)) (s : Cluster ω ι κ) :
    ((requests (s.step i).2).map fun r => r.2.1).Sublist i.op.requestId.toList := by
  obtain ⟨now, op⟩ := i
  cases op with
  | request n id request =>
    simp only [Cluster.step]
    split
    · split
      · exact List.Sublist.refl _
      · exact List.nil_sublist _
    · exact List.nil_sublist _
  | construct worker keyPrefix timeoutMs storeOptions =>
    simp only [Cluster.step]
    split <;> exact List.nil_sublist _
  | initTimeout n =>
    simp only [Cluster.step]
    split <;> exact List.nil_sublist _
  | timeout n id =>
    simp only [Cluster.step]
    split
    · split <;> exact List.nil_sublist _
    · exact List.nil_sublist _
  | receive n =>
    simp only [Cluster.step]
    split <;> exact List.nil_sublist _
  | dispatch =>
    simp only [Cluster.step]
    split <;> exact List.nil_sublist _
  | reply =>
    simp only [Cluster.step]
    split <;> exact List.nil_sublist _
  | deliver n =>
    simp only [Cluster.step]
    split <;> exact List.nil_sublist _
  | purgeExpired keyPrefix => exact List.nil_sublist _

/-- **Every run with ids of its own keeps the cluster consistent.** -/
theorem Consistent.run (h : Consistent outs s) {xs : List (Timed (ClusterEvent ω ι κ))}
    (hids : (((requests outs).map fun r => r.2.1) ++
      xs.filterMap fun i => i.op.requestId).Nodup) :
    Consistent (outs ++ Cluster.runOutputs xs s) (final Cluster.step xs s) := by
  induction xs generalizing outs s with
  | nil =>
    have hnone : Cluster.runOutputs [] s = [] := rfl
    rw [hnone, List.append_nil]
    exact h
  | cons i xs ih =>
    have hsplit : (i :: xs).filterMap (fun i => i.op.requestId) =
        i.op.requestId.toList ++ xs.filterMap fun i => i.op.requestId := by
      rw [List.filterMap_cons]
      cases i.op.requestId <;> rfl
    rw [hsplit] at hids
    have hstep : Consistent (outs ++ (s.step i).2) (s.step i).1 := by
      refine h.step fun n id request hop r hr hself => ?_
      have hid : i.op.requestId = some id := by rw [hop, ClusterEvent.requestId]
      rw [hid] at hids
      exact List.disjoint_of_nodup_append hids (List.mem_map_of_mem (f := fun r => r.2.1) hr)
        (by simp [hself])
    have hrest := ih hstep (by
      rw [requests_append, List.map_append, List.append_assoc]
      exact hids.sublist (((requests_step i s).append_right _).append_left _))
    rw [List.append_assoc] at hrest
    exact hrest

omit [DecidableEq ω] [DecidableEq ι] in
/-- The cluster starts consistent. -/
theorem consistent_init : Consistent [] ({} : Cluster ω ι κ) where
  nodup := List.nodup_nil
  inOrder := rfl
  stores p := rfl
  sent := List.Perm.nil
  origin x hx := absurd hx List.not_mem_nil
  replies x hx := absurd hx List.not_mem_nil
  clients n c hc := by cases hc
  numbered r hr := absurd hr List.not_mem_nil
  timedOut n id hid := absurd hid List.not_mem_nil

end Run

/-! ## Main result -/

/-- After `outs` the cluster does as one shared store for each prefix: received messages are
handled in their order and no request twice, a fulfilled increment has the store's own result,
a reply settles the request it answers and no other, and one after a timeout is only gone. -/
structure ActsAsShared [DecidableEq ω] [DecidableEq ι] (outs : List (ClusterOutput ω ι κ))
    (s : Cluster ω ι κ) : Prop where
  inOrder : receivedMessages outs = handledMessages outs ++ s.primary.dispatchSerial
  once : ((handledMessages outs).filterMap fun x => x.2.id?).Nodup
  stores : ∀ p, s.primary.stores p = sharedStore p (primaryActions outs)
  fulfilled : ∀ n c id result, s.clients[n]? = some c → c.promises id = some (.fulfilled result) →
    ∃ key options, (n, id, .increment key options) ∈ requests outs ∧
      Counted (primaryActions outs) c.worker c.keyPrefix id key options result
  ownReplies : ∀ now place worker msg, s.toWorkers[place]? = some (worker, msg) →
    ∀ n c c', s.clients[n]? = some c → (s.step ⟨now, .deliver place⟩).1.clients[n]? = some c' →
      ∀ id, c'.promises id ≠ c.promises id → msg.id? = some id ∧ c.worker = worker ∧
        ∃ request, (n, id, request) ∈ requests outs ∧
          Answered (primaryActions outs) c.worker c.keyPrefix id request msg
  lateReplies : ∀ now place worker msg, s.toWorkers[place]? = some (worker, msg) →
    ∀ n id, msg.id? = some id → .timedOut n id ∈ outs →
      (s.step ⟨now, .deliver place⟩).1 = { s with toWorkers := s.toWorkers.eraseIdx place }

section Main

variable [DecidableEq ω] [DecidableEq ι] {outs : List (ClusterOutput ω ι κ)} {s : Cluster ω ι κ}

/-- A delivery takes the message off the way and hands it to the clients of its worker. -/
theorem step_deliver (now : ℤ) {place : ℕ} {worker : ω} {msg : ClusterPrimaryMessage ι}
    (hx : s.toWorkers[place]? = some (worker, msg)) :
    (s.step ⟨now, .deliver place⟩).1 = { s with
      toWorkers := s.toWorkers.eraseIdx place
      clients := s.clients.map (Consistent.hear worker msg) } := by
  simp only [Cluster.step, hx]
  rfl

/-- A promise that a delivery settles is the one of the reply, and of its own client. -/
theorem Consistent.ownReply (h : Consistent outs s) (now : ℤ) {place : ℕ} {worker : ω}
    {msg : ClusterPrimaryMessage ι} (hx : s.toWorkers[place]? = some (worker, msg)) {n : ℕ}
    {c c' : ClusterStore ω ι} (hc : s.clients[n]? = some c)
    (hc' : (s.step ⟨now, .deliver place⟩).1.clients[n]? = some c') {id : ι}
    (hid : c'.promises id ≠ c.promises id) : msg.id? = some id ∧ c.worker = worker ∧
      ∃ request, (n, id, request) ∈ requests outs ∧
        Answered (primaryActions outs) c.worker c.keyPrefix id request msg := by
  rw [step_deliver now hx, List.getElem?_map, hc, Option.map_some, Option.some.injEq] at hc'
  subst hc'
  unfold hear at hid
  split at hid
  · next hworker =>
    rcases c.handleIncomingMessage_cases msg with hsame | ⟨id', e, outcome, hmsg, he, hsettles, -⟩
    · exact absurd (congrFun hsame.promises id) hid
    · rw [hsettles.promises] at hid
      split at hid
      · next hself =>
        obtain ⟨request, hrequest, -, -, hanswered⟩ := h.answered_of_pending hx hc hmsg he
        rw [hself.1]
        exact ⟨hmsg, hworker, request, hrequest, hanswered⟩
      · exact absurd rfl hid
  · exact absurd rfl hid

/-- A reply that comes after the timeout changes nothing but the way. -/
theorem Consistent.lateReply (h : Consistent outs s) (now : ℤ) {place : ℕ} {worker : ω}
    {msg : ClusterPrimaryMessage ι} (hx : s.toWorkers[place]? = some (worker, msg)) {n : ℕ}
    {id : ι} (hid : msg.id? = some id) (htimeout : .timedOut n id ∈ outs) :
    (s.step ⟨now, .deliver place⟩).1 = { s with toWorkers := s.toWorkers.eraseIdx place } := by
  have hn := h.timedOut n id htimeout
  obtain ⟨hnone, request, hrequest⟩ :=
    (h.clients n _ (List.getElem?_eq_getElem hn)).timedOut id htimeout
  have hdeaf : ∀ c ∈ s.clients, hear worker msg c = c := by
    intro c hc
    obtain ⟨m, hm, rfl⟩ := List.getElem_of_mem hc
    have hpending : s.clients[m].pending id = none := by
      cases he : s.clients[m].pending id with
      | none => rfl
      | some e =>
        -- a client that waits for this id is the one that timed out
        obtain ⟨-, request', hrequest', -⟩ :=
          (h.clients m _ (List.getElem?_eq_getElem hm)).live id e he
        obtain ⟨rfl, -⟩ := request_unique h.nodup hrequest hrequest'
        rw [hnone] at he
        cases he
    unfold hear
    rw [ClusterStore.handleIncomingMessage_of_not_pending hid hpending, ite_self]
  rw [step_deliver now hx, List.map_congr_left hdeaf, List.map_id']

/-- **Cluster mode is one shared `MemoryStore`.**  Whatever the workers call, whenever messages
arrive and timers fire: where request ids are unique, the cluster acts as shared stores.
SOURCE: src/cluster/ClusterStorePrimary.ts:103-375, src/stores/ClusterStore.ts:169-391 -/
theorem cluster_acts_as_shared (xs : List (Timed (ClusterEvent ω ι κ)))
    (hids : (xs.filterMap fun i => i.op.requestId).Nodup) :
    ActsAsShared (Cluster.runOutputs xs ({} : Cluster ω ι κ))
      (final Cluster.step xs ({} : Cluster ω ι κ)) := by
  have h := (consistent_init (ω := ω) (ι := ι) (κ := κ)).run hids
  rw [List.nil_append] at h
  refine ⟨h.inOrder, ?_, h.stores, fun n c id result hc => (h.clients n c hc).fulfilled id result,
    fun now place worker msg hx n c c' hc hc' id hid => h.ownReply now hx hc hc' hid,
    fun now place worker msg hx n id hid htimeout => h.lateReply now hx hid htimeout⟩
  have hall := h.sent.nodup_iff.mpr h.nodup
  rw [h.inOrder, ← List.append_assoc, List.filterMap_append, List.filterMap_append] at hall
  exact (List.nodup_append.mp (List.nodup_append.mp hall).1).2.1

end Main

/-- Two workers share a limiter; the first one's reply comes after its timeout, the second one's
increment counts both. -/
theorem cluster_acts_as_shared_late :
    let xs : List (Timed (ClusterEvent ℕ ℕ ℕ)) :=
      [⟨0, .construct 1 "api" 50 (.fixedWindow (some 1000) (some 2))⟩,
        ⟨0, .construct 2 "api" 5000 (.fixedWindow (some 1000) (some 2))⟩,
        ⟨1, .receive 0⟩, ⟨1, .dispatch⟩, ⟨1, .receive 0⟩, ⟨1, .reply⟩, ⟨1, .dispatch⟩, ⟨1, .reply⟩,
        ⟨2, .deliver 0⟩, ⟨2, .deliver 0⟩, ⟨3, .request 0 10 (.increment 7 {})⟩,
        ⟨3, .request 1 11 (.increment 7 {})⟩, ⟨4, .receive 0⟩, ⟨5, .receive 0⟩, ⟨6, .dispatch⟩,
        ⟨6, .reply⟩, ⟨60, .timeout 0 10⟩, ⟨61, .dispatch⟩, ⟨62, .reply⟩, ⟨63, .deliver 0⟩,
        ⟨64, .deliver 0⟩]
    let s := final Cluster.step xs {}
    ActsAsShared (Cluster.runOutputs xs {}) s ∧
      (s.clients.map fun c => c.promises 10) =
        [some (.rejected "ClusterStore: primary did not respond within 50ms"), none] ∧
      (s.clients.map fun c => c.promises 11) =
        [none, some (.fulfilled ⟨2, 0, 1006, false, false, none, none, none⟩)] :=
  ⟨cluster_acts_as_shared _ (by decide), by decide, by decide⟩

end RatelimitFlex
