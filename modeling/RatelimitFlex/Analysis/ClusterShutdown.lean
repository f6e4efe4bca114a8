import RatelimitFlex.Analysis.ClusterMessages

/-!
# Overlapping `shutdown`s of a `ClusterStore`

A call of `shutdown` rejects all that is pending, the entry of an earlier call too, and enters
its own.  `ClientStep` says what one event can do to a client; from it, what phase of its
shutdown the client is in (`ShutdownPhase`), that what is pending in it is in flight
(`Awaited`), and how a run of overlapping calls ends (`cluster_shutdown_overlap_iff`).
-/

set_option autoImplicit false

namespace RatelimitFlex

open Library

variable {ω ι κ : Type} [DecidableEq ω] [DecidableEq ι] [DecidableEq κ]

/-! ## Phases of a client -/

omit [DecidableEq κ] in
/-- Only a shutdown waits as one. -/
theorem ClusterRequest.eq_shutdown {request : ClusterRequest κ}
    (h : request.entry = .void .shutdown) : request = .shutdown := by
  cases request with
  | shutdown => rfl
  | increment key options => cases h
  | decrement key options => cases h
  | reset key => cases h

namespace ClusterStore

/-- Nothing is pending but the request of a `shutdown`. -/
def onlyShutdown (id : ι) : ι → Option PendingEntry :=
  Function.update (fun _ => none) id (some (.void .shutdown))

/-- How far the shutdown of a client has come: its `init` has not been answered, or not well;
it is open; the last call waits for its reply; or none does. -/
inductive ShutdownPhase (c : ClusterStore ω ι) : Prop where
  | unready (hready : c.ready ≠ .resolved) (hshut : c.shutDown = false)
      (hpending : c.pending = fun _ => none)
  | running (hready : c.ready = .resolved) (hshut : c.shutDown = false)
      (hlistens : c.listenerRemoved = false)
      (hpending : ∀ id, c.pending id ≠ some (.void .shutdown))
  | waiting (id : ι) (hready : c.ready = .resolved) (hshut : c.shutDown = true)
      (hlistens : c.listenerRemoved = false) (hpending : c.pending = onlyShutdown id)
  | ended (hready : c.ready = .resolved) (hshut : c.shutDown = true)
      (hpending : c.pending = fun _ => none)

variable {c c' : ClusterStore ω ι} {id : ι} {e : PendingEntry}

omit [DecidableEq ω] in
/-- A client with something pending is ready and listens. -/
theorem ShutdownPhase.listens (h : ShutdownPhase c) (he : c.pending id ≠ none) :
    c.ready = .resolved ∧ c.listenerRemoved = false := by
  cases h with
  | unready hready hshut hpending => exact absurd (congrFun hpending id) he
  | running hready hshut hlistens hpending => exact ⟨hready, hlistens⟩
  | waiting id' hready hshut hlistens hpending => exact ⟨hready, hlistens⟩
  | ended hready hshut hpending => exact absurd (congrFun hpending id) he

/-- A request is settled by its reply or its timer; a `shutdown` that is answered takes the
listener off. -/
structure AnsweredBy (id : ι) (e : PendingEntry) (outcome : ClusterPromise)
    (c c' : ClusterStore ω ι) : Prop where
  settles : Settles id outcome c c'
  settled : outcome ≠ .pending
  ready : c'.ready = c.ready
  shutDown : c'.shutDown = c.shutDown
  shutdownDone : e = .void .shutdown → outcome = .done ∧ c'.listenerRemoved = true
  listens : e ≠ .void .shutdown → c'.listenerRemoved = c.listenerRemoved

omit [DecidableEq ω] in
/-- Settling a promise changes nothing of the shutdown. -/
theorem settle_fields (id : ι) (outcome : ClusterPromise) (c : ClusterStore ω ι) :
    (c.settle id outcome).ready = c.ready ∧ (c.settle id outcome).shutDown = c.shutDown ∧
      (c.settle id outcome).listenerRemoved = c.listenerRemoved := by
  unfold settle
  split <;> exact ⟨rfl, rfl, rfl⟩

omit [DecidableEq ω] in
/-- Nor does a timeout. -/
theorem timeout_fields (id : ι) (c : ClusterStore ω ι) :
    (c.timeout id).ready = c.ready ∧ (c.timeout id).shutDown = c.shutDown ∧
      (c.timeout id).listenerRemoved = c.listenerRemoved :=
  settle_fields id _ (c.dropPending id)

omit [DecidableEq ω] [DecidableEq κ] in
/-- A `shutdown` drops the other requests, any other request leaves them. -/
theorem pending_setPending_of_ne {id' : ι} (hne : id' ≠ id) {request : ClusterRequest κ} :
    (c.setPending id request).pending id' =
      if request.entry = .void .shutdown then none else c.pending id' := by
  cases request with
  | shutdown => exact Function.update_of_ne hne _ _
  | increment key options => exact Function.update_of_ne hne _ _
  | decrement key options => exact Function.update_of_ne hne _ _
  | reset key => exact Function.update_of_ne hne _ _

omit [DecidableEq ω] [DecidableEq κ] in
/-- A `shutdown` rejects what is pending. -/
theorem promises_setPending_shutdown {id' : ι} (hne : id' ≠ id) :
    (c.setPending id (.shutdown : ClusterRequest κ)).promises id' =
      if c.pending id' ≠ none ∧ c.promises id' = some .pending then
        some (.rejected "ClusterStore shut down")
      else c.promises id' :=
  Function.update_of_ne hne _ _

omit [DecidableEq ω] [DecidableEq κ] in
/-- Another request than a `shutdown` gets past the checks before one is called. -/
theorem setPending_other (id : ι) {request : ClusterRequest κ}
    (hmay : c.mayRequest request = true) (hother : request.entry ≠ .void .shutdown) :
    c.shutDown = false ∧ (c.setPending id request).ready = c.ready ∧
      (c.setPending id request).shutDown = c.shutDown := by
  have hpast := (Bool.and_eq_true_iff.mp hmay).2
  cases request with
  | shutdown => exact absurd rfl hother
  | increment key options => exact ⟨by simpa using hpast, rfl, rfl⟩
  | decrement key options => exact ⟨by simpa using hpast, rfl, rfl⟩
  | reset key => exact ⟨by simpa using hpast, rfl, rfl⟩

omit [DecidableEq ω] in
/-- A pending request is dropped; the listener may go with that of a `shutdown` only. -/
theorem ShutdownPhase.drops (h : ShutdownPhase c) (he : c.pending id ≠ none)
    (hpending : c'.pending = Function.update c.pending id none) (hready : c'.ready = c.ready)
    (hshut : c'.shutDown = c.shutDown)
    (hlistens : c.pending id ≠ some (.void .shutdown) → c'.listenerRemoved = c.listenerRemoved) :
    ShutdownPhase c' := by
  cases h with
  | unready hready' hshut' hpending' => exact absurd (congrFun hpending' id) he
  | running hready' hshut' hlistens' hpending' =>
    refine .running (hready.trans hready') (hshut.trans hshut')
      ((hlistens (hpending' id)).trans hlistens') fun id' => ?_
    rw [hpending]
    by_cases hid : id' = id
    · rw [hid, Function.update_self]
      exact (Option.some_ne_none _).symm
    · rw [Function.update_of_ne hid]
      exact hpending' id'
  | waiting id' hready' hshut' hlistens' hpending' =>
    have hid : id = id' := by
      by_contra hne
      rw [hpending', onlyShutdown, Function.update_of_ne hne] at he
      exact he rfl
    refine .ended (hready.trans hready') (hshut.trans hshut') ?_
    rw [hpending, hpending', hid, onlyShutdown, Function.update_idem]
    exact Function.update_eq_self id' _
  | ended hready' hshut' hpending' => exact absurd (congrFun hpending' id) he

omit [DecidableEq ω] in
/-- A reply settles any request but a `shutdown` as it says. -/
theorem answeredBy_settle (id : ι) {outcome : ClusterPromise} (hsettled : outcome ≠ .pending)
    (he : e ≠ .void .shutdown) (c : ClusterStore ω ι) :
    AnsweredBy id e outcome c ((c.dropPending id).settle id outcome) where
  settles := settles_settle id outcome c
  settled := hsettled
  ready := (settle_fields id outcome (c.dropPending id)).1
  shutDown := (settle_fields id outcome (c.dropPending id)).2.1
  shutdownDone h := absurd h he
  listens _ := (settle_fields id outcome (c.dropPending id)).2.2

omit [DecidableEq ω] in
/-- The end of a request without a result answers it. -/
theorem answeredBy_finishVoid (purpose : VoidPurpose) (id : ι) (c : ClusterStore ω ι) :
    AnsweredBy id (.void purpose) .done c ((c.dropPending id).finishVoid purpose id) := by
  have hfields := settle_fields id .done (c.dropPending id)
  cases purpose with
  | decrement => exact answeredBy_settle id (by simp) (by simp) c
  | reset => exact answeredBy_settle id (by simp) (by simp) c
  | shutdown =>
    exact ⟨settles_finishVoid .shutdown id c, by simp, hfields.1, hfields.2.1,
      fun _ => ⟨rfl, rfl⟩, fun h => absurd rfl h⟩

omit [DecidableEq ω] in
/-- A result is dispatched while the client listens. -/
theorem handleIncomingMessage_result (hlistens : c.listenerRemoved = false)
    (outcome : Except String ClusterResultData) :
    c.handleIncomingMessage (.result id c.keyPrefix outcome) = c.dispatchResult id outcome := by
  unfold handleIncomingMessage
  rw [hlistens, if_neg Bool.false_ne_true]
  exact if_neg (not_not.mpr rfl)

omit [DecidableEq ω] in
/-- So is an acknowledgement. -/
theorem handleIncomingMessage_ack (hlistens : c.listenerRemoved = false) :
    c.handleIncomingMessage (.ack id c.keyPrefix) = c.dispatchAck id := by
  unfold handleIncomingMessage
  rw [hlistens, if_neg Bool.false_ne_true]
  exact if_neg (not_not.mpr rfl)

omit [DecidableEq ω] in
/-- A void operation is done by its acknowledgement; by an error, too, if it is a
`shutdown`. -/
theorem dispatch_void {purpose : VoidPurpose} (he : c.pending id = some (.void purpose)) :
    AnsweredBy id (.void purpose) .done c (c.dispatchAck id) ∧
      ∀ error, ∃ outcome, AnsweredBy id (.void purpose) outcome c
        (c.dispatchResult id (.error error)) := by
  have hack : c.dispatchAck id = (c.dropPending id).finishVoid purpose id := by
    simp only [dispatchAck, he]
  refine ⟨hack ▸ answeredBy_finishVoid purpose id c, fun error => ?_⟩
  have herror : c.dispatchResult id (.error error) =
      if purpose = .shutdown then (c.dropPending id).finishVoid .shutdown id
      else (c.dropPending id).settle id (.rejected error) := by
    simp only [dispatchResult, he]
  rw [herror]
  by_cases hp : purpose = .shutdown
  · rw [if_pos hp, hp]
    exact ⟨_, answeredBy_finishVoid .shutdown id c⟩
  · rw [if_neg hp]
    exact ⟨_, answeredBy_settle id (by simp) (by simpa using hp) c⟩

omit [DecidableEq ω] in
/-- The reply to a pending request comes to a client that listens. -/
theorem handleIncomingMessage_answer (hlistens : c.listenerRemoved = false)
    (request : ClusterRequest κ) (now : ℤ) (st : Option (MemoryStore κ))
    (he : c.pending id = some request.entry) :
    ∃ outcome, AnsweredBy id request.entry outcome c
      (c.handleIncomingMessage (request.answer now st id c.keyPrefix)) := by
  have hack : ∀ purpose, c.pending id = some (.void purpose) →
      ∃ outcome, AnsweredBy id (.void purpose) outcome c
        (c.handleIncomingMessage (.ack id c.keyPrefix)) := by
    intro purpose hp
    rw [handleIncomingMessage_ack hlistens]
    exact ⟨_, (dispatch_void hp).1⟩
  have hnack : ∀ purpose error, c.pending id = some (.void purpose) →
      ∃ outcome, AnsweredBy id (.void purpose) outcome c
        (c.handleIncomingMessage (.result id c.keyPrefix (.error error))) := by
    intro purpose error hp
    rw [handleIncomingMessage_result hlistens]
    exact (dispatch_void hp).2 error
  cases request with
  | increment key options =>
    have hincrement : ∀ outcome : Except String ClusterResultData,
        ∃ outcome', AnsweredBy id .increment outcome' c (c.dispatchResult id outcome) := by
      intro outcome
      have he' : c.pending id = some .increment := he
      cases outcome with
      | ok data =>
        simp only [dispatchResult, he']
        exact ⟨_, answeredBy_settle id (by simp) (by simp) c⟩
      | error error =>
        simp only [dispatchResult, he']
        exact ⟨_, answeredBy_settle id (by simp) (by simp) c⟩
    cases st with
    | none =>
      rw [ClusterRequest.answer, handleIncomingMessage_result hlistens]
      exact hincrement _
    | some store =>
      rw [ClusterRequest.answer, handleIncomingMessage_result hlistens]
      exact hincrement _
  | decrement key options =>
    cases st with
    | none => exact hnack .decrement _ he
    | some store => exact hack .decrement he
  | reset key =>
    cases st with
    | none => exact hnack .reset _ he
    | some store => exact hack .reset he
  | shutdown =>
    cases st with
    | none => exact hnack .shutdown _ he
    | some store => exact hack .shutdown he

omit [DecidableEq ω] [DecidableEq ι] in
/-- A failed initialisation changes no shutdown, and nothing once the client is ready. -/
theorem failInit_ready (error : String) (c : ClusterStore ω ι) :
    (c.failInit error).shutDown = c.shutDown ∧
      (c.ready = .resolved → c.failInit error = c) ∧
      ((c.failInit error).ready = .resolved → c.ready = .resolved) := by
  unfold failInit
  split
  · next hready =>
    refine ⟨rfl, fun h => ?_, fun h => by cases h⟩
    rw [hready] at h
    cases h
  · exact ⟨rfl, fun _ => rfl, id⟩

omit [DecidableEq ω] [DecidableEq ι] in
/-- An initialisation that settles does the same. -/
theorem settleInit_ready (c : ClusterStore ω ι) :
    c.settleInit.shutDown = c.shutDown ∧ (c.ready = .resolved → c.settleInit = c) ∧
      c.settleInit.listenerRemoved = c.listenerRemoved := by
  unfold settleInit
  split
  · next hready =>
    refine ⟨rfl, fun h => ?_, rfl⟩
    rw [hready] at h
    cases h
  · exact ⟨rfl, fun _ => rfl, rfl⟩

omit [DecidableEq ω] in
/-- A client that is ready settles its `init` no more; one that becomes ready listens. -/
theorem handleIncomingMessage_ready {msg : ClusterPrimaryMessage ι}
    (hnot : ∀ id, msg.id? = some id → c.pending id = none) :
    (c.handleIncomingMessage msg).shutDown = c.shutDown ∧
      (c.ready = .resolved → c.handleIncomingMessage msg = c) ∧
      (c.ready ≠ .resolved → (c.handleIncomingMessage msg).ready = .resolved →
        (c.handleIncomingMessage msg).listenerRemoved = false) := by
  cases hid : msg.id? with
  | some id =>
    rw [handleIncomingMessage_of_not_pending hid (hnot id hid)]
    exact ⟨rfl, fun _ => rfl, fun hready hresolved => absurd hresolved hready⟩
  | none =>
    unfold handleIncomingMessage
    split
    · exact ⟨rfl, fun _ => rfl, fun hready hresolved => absurd hresolved hready⟩
    · next hlistens =>
      have hlistens : c.listenerRemoved = false := Bool.eq_false_iff.mpr hlistens
      cases msg with
      | result id keyPrefix outcome => cases hid
      | ack id keyPrefix => cases hid
      | initNack keyPrefix error =>
        simp only
        split
        · exact ⟨rfl, fun _ => rfl, fun _ _ => hlistens⟩
        · obtain ⟨hshut, hready, hnever⟩ := failInit_ready error c
          exact ⟨hshut, hready, fun h hresolved => absurd (hnever hresolved) h⟩
      | initAck keyPrefix version =>
        simp only
        split
        · exact ⟨rfl, fun _ => rfl, fun _ _ => hlistens⟩
        · obtain ⟨hshut, hready, hsame⟩ := settleInit_ready c
          exact ⟨hshut, hready, fun _ _ => hsame.trans hlistens⟩

end ClusterStore

/-! ## One event, for one client -/

/-- What an event can do to the client numbered `n`: leave its requests alone; enter one, past
the checks; time one out; or settle one by its reply. -/
inductive ClientStep (n : ℕ) (op : ClusterEvent ω ι κ) (c c' : ClusterStore ω ι) : Prop where
  | kept (hsame : ClusterStore.SameRequests c c') (hshut : c'.shutDown = c.shutDown)
      (hready : c.ready = .resolved → c' = c)
      (hlistens : c.ready ≠ .resolved → c'.ready = .resolved → c'.listenerRemoved = false)
      (hrefused : ∀ id request, op = .request n id request → c.mayRequest request = false)
  | requested (id : ι) (request : ClusterRequest κ) (hop : op = .request n id request)
      (hmay : c.mayRequest request = true) (hc' : c' = c.setPending id request)
  | timedOut (id : ι) (hop : op = .timeout n id) (hpending : c.pending id ≠ none)
      (hc' : c' = c.timeout id)
  | answered (id : ι) (e : PendingEntry) (outcome : ClusterPromise)
      (hop : op.requestId = none) (he : c.pending id = some e)
      (hanswered : ClusterStore.AnsweredBy id e outcome c c')

section Step

variable {outs : List (ClusterOutput ω ι κ)} {s : Cluster ω ι κ} {n : ℕ} {c : ClusterStore ω ι}

omit [DecidableEq ω] [DecidableEq κ] in
/-- A client that is not concerned does not change. -/
theorem clientStep_refl {op : ClusterEvent ω ι κ}
    (hrefused : ∀ id request, op = .request n id request → c.mayRequest request = false) :
    ClientStep n op c c :=
  .kept (ClusterStore.sameRequests_refl c) rfl (fun _ => rfl)
    (fun hready hresolved => absurd hresolved hready) hrefused

/-- The reply to a pending request settles it. -/
theorem hear_answered (h : Consistent outs s) {place : ℕ} {worker : ω}
    {msg : ClusterPrimaryMessage ι} (hx : s.toWorkers[place]? = some (worker, msg))
    (hc : s.clients[n]? = some c) (hphase : c.ShutdownPhase) {id : ι} {e : PendingEntry}
    (hid : msg.id? = some id) (he : c.pending id = some e) :
    ∃ outcome, ClusterStore.AnsweredBy id e outcome c (Consistent.hear worker msg c) := by
  obtain ⟨request, -, rfl, rfl, before, now, after, -, rfl⟩ := h.answered_of_pending hx hc hid he
  have hlistens := (hphase.listens (by rw [he]; exact Option.some_ne_none _)).2
  rw [Consistent.hear, if_pos rfl]
  exact ClusterStore.handleIncomingMessage_answer hlistens request now _ he

/-- A message is heard. -/
theorem clientStep_hear (h : Consistent outs s) {place : ℕ} {worker : ω}
    {msg : ClusterPrimaryMessage ι} (hx : s.toWorkers[place]? = some (worker, msg))
    (hc : s.clients[n]? = some c) (hphase : c.ShutdownPhase) {op : ClusterEvent ω ι κ}
    (hop : op = .deliver place) : ClientStep n op c (Consistent.hear worker msg c) := by
  have hrefused : ∀ id request, op = .request n id request → c.mayRequest request = false := by
    intro id request hrequest
    rw [hop] at hrequest
    cases hrequest
  by_cases hpending : ∃ id e, msg.id? = some id ∧ c.pending id = some e
  · obtain ⟨id, e, hid, he⟩ := hpending
    obtain ⟨outcome, hanswered⟩ := hear_answered h hx hc hphase hid he
    have hnone : op.requestId = none := by
      rw [hop]
      rfl
    exact .answered id e outcome hnone he hanswered
  · have hnot : ∀ id, msg.id? = some id → c.pending id = none := by
      intro id hid
      by_contra hne
      obtain ⟨e, he⟩ := Option.ne_none_iff_exists'.mp hne
      exact hpending ⟨id, e, hid, he⟩
    unfold Consistent.hear
    by_cases hworker : c.worker = worker
    · rw [if_pos hworker]
      obtain ⟨hshut, hready, hlistens⟩ := ClusterStore.handleIncomingMessage_ready hnot
      rcases c.handleIncomingMessage_cases msg with hsame | ⟨id, e, outcome, hid, he, -⟩
      · exact .kept hsame hshut hready hlistens hrefused
      · rw [hnot id hid] at he
        cases he
    · rw [if_neg hworker]
      exact clientStep_refl hrefused

/-- One event. -/
theorem client_step (h : Consistent outs s) (hc : s.clients[n]? = some c)
    (hphase : c.ShutdownPhase) (i : Timed (ClusterEvent ω ι κ)) :
    ∃ c', (s.step i).1.clients[n]? = some c' ∧ ClientStep n i.op c c' := by
  have hn := (List.getElem?_eq_some_iff.mp hc).1
  have hidle : ∀ {op : ClusterEvent ω ι κ}, op.requestId = none → ClientStep n op c c := by
    intro op hop
    refine clientStep_refl fun id request hrequest => ?_
    rw [hrequest] at hop
    cases hop
  obtain ⟨now, op⟩ := i
  cases op with
  | construct worker keyPrefix timeoutMs storeOptions =>
    simp only [Cluster.step]
    split
    · exact ⟨c, hc, hidle rfl⟩
    · refine ⟨c, ?_, hidle rfl⟩
      rw [List.getElem?_append_left hn]
      exact hc
  | initTimeout m =>
    simp only [Cluster.step]
    split
    · next d hd =>
      by_cases hm : m = n
      · subst hm
        rw [hc] at hd
        obtain rfl := Option.some.inj hd
        obtain ⟨hshut, hready, hnever⟩ := ClusterStore.failInit_ready
          "ClusterStore: primary did not acknowledge init within 100ms" c
        refine ⟨_, List.getElem?_set_self hn, ?_⟩
        exact .kept (ClusterStore.sameRequests_failInit _ c) hshut hready
          (fun h hresolved => absurd (hnever hresolved) h) (fun id request h => by cases h)
      · exact ⟨c, (List.getElem?_set_ne hm).trans hc, hidle rfl⟩
    · exact ⟨c, hc, hidle rfl⟩
  | request m id request =>
    simp only [Cluster.step]
    by_cases hm : m = n
    · subst hm
      simp only [hc]
      split
      · next hmay =>
        exact ⟨_, List.getElem?_set_self hn, .requested id request rfl hmay rfl⟩
      · next hmay =>
        refine ⟨c, hc, clientStep_refl fun id' request' h => ?_⟩
        cases h
        exact Bool.eq_false_iff.mpr hmay
    · have hother : ClientStep n (.request m id request) c c :=
        clientStep_refl fun id' request' h => by
          cases h
          exact absurd rfl hm
      split
      · split
        · exact ⟨c, (List.getElem?_set_ne hm).trans hc, hother⟩
        · exact ⟨c, hc, hother⟩
      · exact ⟨c, hc, hother⟩
  | timeout m id =>
    simp only [Cluster.step]
    split
    · next d hd =>
      split
      · exact ⟨c, hc, hidle rfl⟩
      · next hpending =>
        by_cases hm : m = n
        · subst hm
          rw [hc] at hd
          obtain rfl := Option.some.inj hd
          exact ⟨_, List.getElem?_set_self hn, .timedOut id rfl hpending rfl⟩
        · exact ⟨c, (List.getElem?_set_ne hm).trans hc, hidle rfl⟩
    · exact ⟨c, hc, hidle rfl⟩
  | receive m =>
    simp only [Cluster.step]
    split <;> exact ⟨c, hc, hidle rfl⟩
  | dispatch =>
    simp only [Cluster.step]
    split <;> exact ⟨c, hc, hidle rfl⟩
  | reply =>
    simp only [Cluster.step]
    split <;> exact ⟨c, hc, hidle rfl⟩
  | deliver place =>
    cases hx : s.toWorkers[place]? with
    | none =>
      simp only [Cluster.step, hx]
      exact ⟨c, hc, hidle rfl⟩
    | some sent =>
      obtain ⟨worker, msg⟩ := sent
      rw [step_deliver now hx]
      refine ⟨Consistent.hear worker msg c, ?_, clientStep_hear h hx hc hphase rfl⟩
      rw [List.getElem?_map, hc, Option.map_some]
  | purgeExpired keyPrefix => exact ⟨c, hc, hidle rfl⟩

omit [DecidableEq ω] [DecidableEq κ] in
/-- What becomes of the phase. -/
theorem ClientStep.phase {op : ClusterEvent ω ι κ} {c' : ClusterStore ω ι}
    (h : ClientStep n op c c') (hphase : c.ShutdownPhase) : c'.ShutdownPhase := by
  cases h with
  | kept hsame hshut hready hlistens hrefused =>
    by_cases hr : c.ready = .resolved
    · rw [hready hr]
      exact hphase
    · have hquiet : c.shutDown = false ∧ c.pending = fun _ => none := by
        cases hphase with
        | unready hready' hshut' hpending => exact ⟨hshut', hpending⟩
        | running hready' hshut' hlistens' hpending => exact absurd hready' hr
        | waiting id hready' hshut' hlistens' hpending => exact absurd hready' hr
        | ended hready' hshut' hpending => exact absurd hready' hr
      have hpending : c'.pending = fun _ => none := hsame.pending.trans hquiet.2
      by_cases hr' : c'.ready = .resolved
      · exact .running hr' (hshut.trans hquiet.1) (hlistens hr hr') fun id => by simp [hpending]
      · exact .unready hr' (hshut.trans hquiet.1) hpending
  | requested id request hop hmay hc' =>
    subst hc'
    obtain ⟨hready, hpast⟩ := Bool.and_eq_true_iff.mp hmay
    have hready : c.ready = .resolved := of_decide_eq_true hready
    have hopen : c.shutDown = false → c.listenerRemoved = false ∧
        ∀ id, c.pending id ≠ some (.void .shutdown) := by
      intro hshut
      cases hphase with
      | unready hready' hshut' hpending => exact absurd hready hready'
      | running hready' hshut' hlistens hpending => exact ⟨hlistens, hpending⟩
      | waiting id hready' hshut' hlistens hpending =>
        rw [hshut] at hshut'
        cases hshut'
      | ended hready' hshut' hpending =>
        rw [hshut] at hshut'
        cases hshut'
    have hentered : ∀ e, e ≠ PendingEntry.void .shutdown → c.shutDown = false →
        ∀ id', Function.update c.pending id (some e) id' ≠ some (.void .shutdown) := by
      intro e he hshut id'
      by_cases hid : id' = id
      · rw [hid, Function.update_self]
        exact fun h => he (Option.some.inj h)
      · rw [Function.update_of_ne hid]
        exact (hopen hshut).2 id'
    cases request with
    | increment key options =>
      have hshut : c.shutDown = false := by simpa using hpast
      exact .running hready hshut (hopen hshut).1
        (hentered (ClusterRequest.increment key options).entry (by simp [ClusterRequest.entry])
          hshut)
    | decrement key options =>
      have hshut : c.shutDown = false := by simpa using hpast
      exact .running hready hshut (hopen hshut).1
        (hentered (ClusterRequest.decrement key options).entry (by simp [ClusterRequest.entry])
          hshut)
    | reset key =>
      have hshut : c.shutDown = false := by simpa using hpast
      exact .running hready hshut (hopen hshut).1
        (hentered (ClusterRequest.reset key).entry (by simp [ClusterRequest.entry]) hshut)
    | shutdown =>
      have hlistens : c.listenerRemoved = false := by simpa using hpast
      exact .waiting id hready rfl hlistens rfl
  | timedOut id hop hpending hc' =>
    subst hc'
    obtain ⟨hready, hshut, hlistens⟩ := ClusterStore.timeout_fields id c
    exact hphase.drops hpending (ClusterStore.settles_settle id _ c).pending hready hshut
      fun _ => hlistens
  | answered id e outcome hop he hanswered =>
    refine hphase.drops (by rw [he]; exact Option.some_ne_none _) hanswered.settles.pending
      hanswered.ready hanswered.shutDown fun hnot => hanswered.listens ?_
    rintro rfl
    exact hnot he

/-! ## What is pending is in flight -/

/-- The message of a request of the worker, or the reply to it, has not arrived yet. -/
def InFlight (s : Cluster ω ι κ) (worker : ω) (id : ι) : Prop :=
  (∃ x ∈ s.toPrimary ++ s.primary.dispatchSerial, x.1 = worker ∧ x.2.id? = some id) ∨
    ∃ x ∈ s.primary.handling.toList ++ s.toWorkers, x.1 = worker ∧ x.2.id? = some id

/-- Every client is in a phase of its shutdown, and waits for what is in flight only. -/
structure Awaited (s : Cluster ω ι κ) : Prop where
  phase : ∀ (n : ℕ) (c : ClusterStore ω ι), s.clients[n]? = some c → c.ShutdownPhase
  inFlight : ∀ (n : ℕ) (c : ClusterStore ω ι) (id : ι), s.clients[n]? = some c →
    c.pending id ≠ none → InFlight s c.worker id

omit [DecidableEq ω] [DecidableEq κ] in
/-- What is pending after an event was so before it, or has been entered by it. -/
theorem ClientStep.pending_cases {op : ClusterEvent ω ι κ} {c' : ClusterStore ω ι}
    (h : ClientStep n op c c') {id : ι} (hid : c'.pending id ≠ none) :
    c.pending id ≠ none ∨ ∃ request, op = .request n id request ∧
      c.mayRequest request = true := by
  have hdropped : ∀ id', c'.pending = Function.update c.pending id' none →
      c.pending id ≠ none := by
    intro id' hpending hnone
    rw [hpending] at hid
    by_cases hself : id = id'
    · rw [hself, Function.update_self] at hid
      exact hid rfl
    · rw [Function.update_of_ne hself] at hid
      exact hid hnone
  cases h with
  | kept hsame hshut hready hlistens hrefused =>
    rw [hsame.pending] at hid
    exact Or.inl hid
  | requested id' request hop hmay hc' =>
    by_cases hself : id = id'
    · rw [hself]
      exact Or.inr ⟨request, hop, hmay⟩
    · subst hc'
      refine Or.inl fun hnone => hid ?_
      rw [ClusterStore.pending_setPending_of_ne hself, hnone, ite_self]
  | timedOut id' hop hpending hc' =>
    subst hc'
    exact Or.inl (hdropped id' (ClusterStore.settles_settle id' _ c).pending)
  | answered id' e outcome hop he hanswered =>
    exact Or.inl (hdropped id' hanswered.settles.pending)

omit [DecidableEq ω] [DecidableEq κ] in
/-- A client stays with its worker. -/
theorem ClientStep.worker {op : ClusterEvent ω ι κ} {c' : ClusterStore ω ι}
    (h : ClientStep n op c c') : c'.worker = c.worker := by
  cases h with
  | kept hsame hshut hready hlistens hrefused => exact hsame.worker
  | requested id request hop hmay hc' =>
    subst hc'
    cases request <;> rfl
  | timedOut id hop hpending hc' =>
    subst hc'
    exact (ClusterStore.settles_settle id _ c).worker
  | answered id e outcome hop he hanswered => exact hanswered.settles.worker

/-- What is in flight stays so until its reply is delivered. -/
theorem InFlight.step {worker : ω} {id : ι} (h : InFlight s worker id)
    (i : Timed (ClusterEvent ω ι κ)) :
    InFlight (s.step i).1 worker id ∨ ∃ place msg, i.op = .deliver place ∧
      s.toWorkers[place]? = some (worker, msg) ∧ msg.id? = some id := by
  obtain ⟨now, op⟩ := i
  cases op with
  | construct worker' keyPrefix timeoutMs storeOptions =>
    refine Or.inl ?_
    simp only [Cluster.step]
    split
    · exact h
    · rcases h with ⟨x, hx, hself⟩ | hreply
      · refine Or.inl ⟨x, ?_, hself⟩
        rcases List.mem_append.mp hx with hx | hx
        · exact List.mem_append_left _ (List.mem_append_left _ hx)
        · exact List.mem_append_right _ hx
      · exact Or.inr hreply
  | initTimeout m =>
    refine Or.inl ?_
    simp only [Cluster.step]
    split <;> exact h
  | request m id' request =>
    refine Or.inl ?_
    simp only [Cluster.step]
    split
    · split
      · rcases h with ⟨x, hx, hself⟩ | hreply
        · refine Or.inl ⟨x, ?_, hself⟩
          rcases List.mem_append.mp hx with hx | hx
          · exact List.mem_append_left _ (List.mem_append_left _ hx)
          · exact List.mem_append_right _ hx
        · exact Or.inr hreply
      · exact h
    · exact h
  | timeout m id' =>
    refine Or.inl ?_
    simp only [Cluster.step]
    split
    · split <;> exact h
    · exact h
  | receive m =>
    refine Or.inl ?_
    simp only [Cluster.step]
    split
    · next worker' msg hm =>
      rcases h with ⟨x, hx, hself⟩ | hreply
      · refine Or.inl ⟨x, ?_, hself⟩
        have hmoved : (s.toPrimary.eraseIdx m ++
            (s.primary.dispatchSerial ++ [(worker', msg)])).Perm
              (s.toPrimary ++ s.primary.dispatchSerial) := by
          refine (List.perm_append_comm.append_left _).trans ?_
          exact List.perm_middle.trans ((cons_eraseIdx_perm hm).append_right _)
        exact hmoved.mem_iff.mpr hx
      · exact Or.inr hreply
    · exact h
  | dispatch =>
    refine Or.inl ?_
    simp only [Cluster.step]
    split
    · next worker' msg rest hidle hchain =>
      rcases h with ⟨x, hx, hself⟩ | ⟨x, hx, hself⟩
      · rw [hchain] at hx
        rcases List.mem_append.mp hx with hx | hx
        · exact Or.inl ⟨x, List.mem_append_left _ hx, hself⟩
        · rcases List.mem_cons.mp hx with rfl | hx
          · refine Or.inr ⟨_, List.mem_append_left _ (List.mem_singleton_self _), hself.1, ?_⟩
            rw [ClusterStorePrimary.dispatchWorkerMessage_id?]
            exact hself.2
          · exact Or.inl ⟨x, List.mem_append_right _ hx, hself⟩
      · rw [hidle] at hx
        exact Or.inr ⟨x, List.mem_append_right _ hx, hself⟩
    · exact h
  | reply =>
    refine Or.inl ?_
    simp only [Cluster.step]
    split
    · next sent hhandling =>
      rcases h with hmessage | ⟨x, hx, hself⟩
      · exact Or.inl hmessage
      · rw [hhandling] at hx
        refine Or.inr ⟨x, ?_, hself⟩
        rcases List.mem_append.mp hx with hx | hx
        · exact List.mem_append_right _ (List.mem_append_right _ hx)
        · exact List.mem_append_right _ (List.mem_append_left _ hx)
    · exact h
  | deliver place =>
    cases hdelivered : s.toWorkers[place]? with
    | none =>
      refine Or.inl ?_
      simp only [Cluster.step, hdelivered]
      exact h
    | some sent =>
      obtain ⟨worker', msg⟩ := sent
      rw [step_deliver now hdelivered]
      rcases h with hmessage | ⟨x, hx, hself⟩
      · exact Or.inl (Or.inl hmessage)
      · rcases List.mem_append.mp hx with hx | hx
        · exact Or.inl (Or.inr ⟨x, List.mem_append_left _ hx, hself⟩)
        · rcases List.mem_cons.mp ((cons_eraseIdx_perm hdelivered).mem_iff.mpr hx) with rfl | hx
          · obtain ⟨rfl, hid⟩ := hself
            exact Or.inr ⟨place, msg, rfl, hdelivered, hid⟩
          · exact Or.inl (Or.inr ⟨x, List.mem_append_right _ hx, hself⟩)
  | purgeExpired keyPrefix => exact Or.inl h

/-- A client that was not there before is a new one. -/
theorem new_client {c' : ClusterStore ω ι} (hnone : s.clients[n]? = none)
    (i : Timed (ClusterEvent ω ι κ)) (hc' : (s.step i).1.clients[n]? = some c') :
    c'.ready = .waiting ∧ c'.shutDown = false ∧ c'.pending = fun _ => none := by
  have hlength : s.clients.length ≤ n := List.getElem?_eq_none_iff.mp hnone
  have hsame : ∀ clients : List (ClusterStore ω ι), clients.length = s.clients.length →
      clients[n]? ≠ some c' := by
    intro clients hclients hsome
    have hlt := (List.getElem?_eq_some_iff.mp hsome).1
    omega
  obtain ⟨now, op⟩ := i
  cases op with
  | construct worker keyPrefix timeoutMs storeOptions =>
    simp only [Cluster.step] at hc'
    split at hc'
    · exact absurd hc' (hsame _ rfl)
    · rw [List.getElem?_append_right hlength] at hc'
      have hmem := List.mem_of_getElem? hc'
      rw [List.mem_singleton] at hmem
      subst hmem
      exact ⟨rfl, rfl, rfl⟩
  | initTimeout m =>
    simp only [Cluster.step] at hc'
    split at hc'
    · exact absurd hc' (hsame _ List.length_set)
    · exact absurd hc' (hsame _ rfl)
  | request m id request =>
    simp only [Cluster.step] at hc'
    split at hc'
    · split at hc'
      · exact absurd hc' (hsame _ List.length_set)
      · exact absurd hc' (hsame _ rfl)
    · exact absurd hc' (hsame _ rfl)
  | timeout m id =>
    simp only [Cluster.step] at hc'
    split at hc'
    · split at hc'
      · exact absurd hc' (hsame _ rfl)
      · exact absurd hc' (hsame _ List.length_set)
    · exact absurd hc' (hsame _ rfl)
  | receive m =>
    simp only [Cluster.step] at hc'
    split at hc' <;> exact absurd hc' (hsame _ rfl)
  | dispatch =>
    simp only [Cluster.step] at hc'
    split at hc' <;> exact absurd hc' (hsame _ rfl)
  | reply =>
    simp only [Cluster.step] at hc'
    split at hc' <;> exact absurd hc' (hsame _ rfl)
  | deliver place =>
    simp only [Cluster.step] at hc'
    split at hc'
    · exact absurd hc' (hsame _ (List.length_map _))
    · exact absurd hc' (hsame _ rfl)
  | purgeExpired keyPrefix => exact absurd hc' (hsame _ rfl)

/-- The step lemma. -/
theorem Awaited.step (h : Awaited s) (hcons : Consistent outs s)
    (i : Timed (ClusterEvent ω ι κ)) : Awaited (s.step i).1 := by
  have hcases : ∀ n c', (s.step i).1.clients[n]? = some c' →
      (c'.ready = .waiting ∧ c'.shutDown = false ∧ c'.pending = fun _ => none) ∨
        ∃ c, s.clients[n]? = some c ∧ ClientStep n i.op c c' := by
    intro n c' hc'
    cases hc : s.clients[n]? with
    | none => exact Or.inl (new_client hc i hc')
    | some c =>
      obtain ⟨d, hd, hstep⟩ := client_step hcons hc (h.phase n c hc) i
      rw [hc', Option.some.injEq] at hd
      subst hd
      exact Or.inr ⟨c, rfl, hstep⟩
  constructor
  · intro n c' hc'
    obtain ⟨hready, hshut, hpending⟩ | ⟨c, hc, hstep⟩ := hcases n c' hc'
    · exact .unready (by rw [hready]; simp) hshut hpending
    · exact hstep.phase (h.phase n c hc)
  · intro n c' id hc' hid
    obtain ⟨-, -, hpending⟩ | ⟨c, hc, hstep⟩ := hcases n c' hc'
    · exact absurd (congrFun hpending id) hid
    · rw [hstep.worker]
      rcases hstep.pending_cases hid with hold | ⟨request, hop, hmay⟩
      · obtain hflight | ⟨place, msg, hop, hx, hself⟩ := (h.inFlight n c id hc hold).step i
        · exact hflight
        · -- the reply is heard, so the request is pending no more
          obtain ⟨e, he⟩ := Option.ne_none_iff_exists'.mp hold
          obtain ⟨outcome, hanswered⟩ := hear_answered hcons hx hc (h.phase n c hc) hself he
          have hheard : c' = Consistent.hear c.worker msg c := by
            have hget : (s.step i).1.clients[n]? = some (Consistent.hear c.worker msg c) := by
              obtain ⟨now, op⟩ := i
              subst hop
              rw [step_deliver now hx, List.getElem?_map, hc, Option.map_some]
            rw [hc'] at hget
            exact Option.some.inj hget
          rw [hheard, hanswered.settles.pending, Function.update_self] at hid
          exact absurd rfl hid
      · obtain ⟨now, op⟩ := i
        subst hop
        refine Or.inl ⟨(c.worker, request.message id c.keyPrefix), ?_, rfl, ?_⟩
        · simp only [Cluster.step, hc]
          rw [if_pos hmay]
          exact List.mem_append_left _ (List.mem_append_right _ (List.mem_singleton_self _))
        · cases request <;> rfl

omit [DecidableEq ω] [DecidableEq κ] in
/-- A request that is not entered anew: settled, it stays as it is; pending, it stays so or is
settled. -/
theorem ClientStep.promise {op : ClusterEvent ω ι κ} {c' : ClusterStore ω ι}
    (h : ClientStep n op c c') {id : ι} (hnew : op.requestId ≠ some id)
    (hlive : c.pending id ≠ none → c.promises id = some .pending) :
    (c'.pending id = c.pending id ∧ c'.promises id = c.promises id) ∨
      (c.pending id ≠ none ∧ c'.pending id = none ∧
        ∃ outcome, outcome ≠ .pending ∧ c'.promises id = some outcome) := by
  have hsettles : ∀ id' outcome, outcome ≠ .pending → c.pending id' ≠ none →
      ClusterStore.Settles id' outcome c c' →
      (c'.pending id = c.pending id ∧ c'.promises id = c.promises id) ∨
        (c.pending id ≠ none ∧ c'.pending id = none ∧
          ∃ outcome, outcome ≠ .pending ∧ c'.promises id = some outcome) := by
    intro id' outcome hsettled hpending hs
    rw [hs.pending, hs.promises id]
    by_cases hself : id = id'
    · subst hself
      rw [if_pos ⟨rfl, hlive hpending⟩, Function.update_self]
      exact Or.inr ⟨hpending, rfl, outcome, hsettled, rfl⟩
    · rw [if_neg fun hboth => hself hboth.1, Function.update_of_ne hself]
      exact Or.inl ⟨rfl, rfl⟩
  cases h with
  | kept hsame hshut hready hlistens hrefused =>
    rw [hsame.pending, hsame.promises]
    exact Or.inl ⟨rfl, rfl⟩
  | requested id' request hop hmay hc' =>
    have hne : id ≠ id' := by
      rintro rfl
      rw [hop] at hnew
      exact hnew rfl
    have hkept : request.entry ≠ .void .shutdown →
        (c.setPending id' request).promises id = c.promises id := by
      intro hentry
      cases request with
      | shutdown => exact absurd rfl hentry
      | increment key options => exact Function.update_of_ne hne _ _
      | decrement key options => exact Function.update_of_ne hne _ _
      | reset key => exact Function.update_of_ne hne _ _
    rw [hc', ClusterStore.pending_setPending_of_ne hne]
    by_cases hentry : request.entry = .void .shutdown
    · obtain rfl := ClusterRequest.eq_shutdown hentry
      rw [if_pos hentry, ClusterStore.promises_setPending_shutdown hne]
      by_cases hpending : c.pending id = none
      · rw [if_neg fun hboth => hboth.1 hpending]
        exact Or.inl ⟨hpending.symm, rfl⟩
      · rw [if_pos ⟨hpending, hlive hpending⟩]
        exact Or.inr ⟨hpending, rfl, _, by simp, rfl⟩
    · rw [if_neg hentry, hkept hentry]
      exact Or.inl ⟨rfl, rfl⟩
  | timedOut id' hop hpending hc' =>
    rw [hc'] at hsettles ⊢
    exact hsettles id' _ (by simp) hpending (ClusterStore.settles_settle id' _ c)
  | answered id' e outcome hop he hanswered =>
    exact hsettles id' outcome hanswered.settled (by rw [he]; exact Option.some_ne_none _)
      hanswered.settles

end Step

/-! ## A run -/

/-- What is known of the messages and the clients of a run, and of its requests to come. -/
structure Watched (outs : List (ClusterOutput ω ι κ)) (xs : List (Timed (ClusterEvent ω ι κ)))
    (s : Cluster ω ι κ) : Prop where
  consistent : Consistent outs s
  awaited : Awaited s
  fresh : (((requests outs).map fun r => r.2.1) ++ xs.filterMap fun i => i.op.requestId).Nodup

section Run

variable {outs : List (ClusterOutput ω ι κ)} {s : Cluster ω ι κ} {n : ℕ}
  {c : ClusterStore ω ι} {xs ys : List (Timed (ClusterEvent ω ι κ))}

/-- The first step of a watched run is one, and the rest is watched. -/
theorem Watched.head {i : Timed (ClusterEvent ω ι κ)} (h : Watched outs (i :: xs) s) :
    Watched (outs ++ (s.step i).2) xs (s.step i).1 := by
  have hsplit : (i :: xs).filterMap (fun i => i.op.requestId) =
      i.op.requestId.toList ++ xs.filterMap fun i => i.op.requestId := by
    rw [List.filterMap_cons]
    cases i.op.requestId <;> rfl
  have hids := h.fresh
  rw [hsplit] at hids
  have hfresh : ∀ n id request, i.op = .request n id request →
      ∀ r ∈ requests outs, r.2.1 ≠ id := by
    intro n id request hop r hr hself
    have hid : i.op.requestId = some id := by rw [hop, ClusterEvent.requestId]
    rw [hid] at hids
    exact List.disjoint_of_nodup_append hids (List.mem_map_of_mem (f := fun r => r.2.1) hr)
      (by simp [hself])
  refine ⟨h.consistent.step hfresh, h.awaited.step h.consistent i, ?_⟩
  rw [requests_append, List.map_append, List.append_assoc]
  exact hids.sublist (((requests_step i s).append_right _).append_left _)

/-- A stretch of a watched run leaves the rest watched. -/
theorem Watched.run (h : Watched outs (xs ++ ys) s) :
    Watched (outs ++ Cluster.runOutputs xs s) ys (final Cluster.step xs s) := by
  induction xs generalizing outs s with
  | nil =>
    have hnone : Cluster.runOutputs [] s = [] := rfl
    rw [hnone, List.append_nil]
    exact h
  | cons i xs ih =>
    have hrest := ih h.head
    rw [List.append_assoc] at hrest
    exact hrest

omit [DecidableEq ω] in
/-- A watched run may stop anywhere. -/
theorem Watched.stop (h : Watched outs (xs ++ ys) s) : Watched outs xs s :=
  ⟨h.consistent, h.awaited, h.fresh.sublist
    ((((List.sublist_append_left xs ys).filterMap _).append_left _))⟩

/-- The client after one event more. -/
theorem Watched.client_concat {i : Timed (ClusterEvent ω ι κ)} (h : Watched outs (xs ++ [i]) s)
    (hc : (final Cluster.step xs s).clients[n]? = some c) :
    ∃ c', (final Cluster.step (xs ++ [i]) s).clients[n]? = some c' ∧ ClientStep n i.op c c' := by
  have hrun := h.run
  rw [final_append, final_cons, final_nil]
  exact client_step hrun.consistent hc (hrun.awaited.phase n c hc) i

omit [DecidableEq ω] in
/-- What is pending has not been settled. -/
theorem Watched.live (h : Watched outs xs s) (hc : s.clients[n]? = some c) {id : ι}
    (hid : c.pending id ≠ none) : c.promises id = some .pending := by
  obtain ⟨e, he⟩ := Option.ne_none_iff_exists'.mp hid
  exact ((h.consistent.clients n c hc).live id e he).1

omit [DecidableEq ω] in
/-- Nothing that was requested is requested again. -/
theorem Watched.not_requested (h : Watched outs xs s) (hc : s.clients[n]? = some c) {id : ι}
    (hid : c.promises id ≠ none) : ∀ i ∈ xs, i.op.requestId ≠ some id := by
  intro i hi hself
  obtain ⟨request, hrequest⟩ := (h.consistent.clients n c hc).requested id hid
  exact List.disjoint_of_nodup_append h.fresh
    (List.mem_map_of_mem (f := fun r => r.2.1) hrequest)
    (List.mem_filterMap.mpr ⟨i, hi, hself⟩)

/-- What is pending no more keeps its promise. -/
theorem Watched.settled_stays (h : Watched outs (xs ++ ys) s) (hc : s.clients[n]? = some c)
    {id : ι} (hpending : c.pending id = none) (hnew : ∀ i ∈ xs, i.op.requestId ≠ some id) :
    ∃ c', (final Cluster.step xs s).clients[n]? = some c' ∧ c'.pending id = none ∧
      c'.promises id = c.promises id := by
  induction xs generalizing outs s c with
  | nil => exact ⟨c, hc, hpending, rfl⟩
  | cons i xs ih =>
    obtain ⟨d, hd, hstep⟩ := client_step h.consistent hc (h.awaited.phase n c hc) i
    obtain ⟨hpending', hpromise⟩ | ⟨hnot, -⟩ :=
      hstep.promise (hnew i List.mem_cons_self) (h.live hc)
    · obtain ⟨c', hc', hnone, hsame⟩ := ih h.head hd (hpending'.trans hpending)
        fun j hj => hnew j (List.mem_cons_of_mem i hj)
      exact ⟨c', hc', hnone, hsame.trans hpromise⟩
    · exact absurd hpending hnot

/-- A client stays that of its worker. -/
theorem Watched.worker (h : Watched outs xs s) (hc : s.clients[n]? = some c) :
    ∃ c', (final Cluster.step xs s).clients[n]? = some c' ∧ c'.worker = c.worker := by
  induction xs generalizing outs s c with
  | nil => exact ⟨c, hc, rfl⟩
  | cons i xs ih =>
    obtain ⟨d, hd, hstep⟩ := client_step h.consistent hc (h.awaited.phase n c hc) i
    obtain ⟨c', hc', hworker⟩ := ih h.head hd
    exact ⟨c', hc', hworker.trans hstep.worker⟩

/-- The promise under this id in the client numbered `n`. -/
def Cluster.promise (n : ℕ) (id : ι) (s : Cluster ω ι κ) : Option ClusterPromise :=
  s.clients[n]?.bind fun c => c.promises id

omit [DecidableEq ω] [DecidableEq ι] in
/-- The promise of a request is the one its client has. -/
theorem promise_eq (hc : s.clients[n]? = some c) (id : ι) :
    s.promise n id = c.promises id := by
  rw [Cluster.promise, hc, Option.bind_some]

/-- In the run the promise is pending up to one event and has the same outcome from there
on. -/
def SettledOnce (n : ℕ) (id : ι) (xs : List (Timed (ClusterEvent ω ι κ)))
    (s : Cluster ω ι κ) : Prop :=
  ∃ a i b outcome, xs = a ++ i :: b ∧ outcome ≠ .pending ∧
    (∀ p, p <+: a → (final Cluster.step p s).promise n id = some .pending) ∧
    ∀ p, p <+: b → (final Cluster.step (a ++ i :: p) s).promise n id = some outcome

/-- A pending request that is not pending in the end has been settled once. -/
theorem Watched.settledOnce (h : Watched outs xs s) (hc : s.clients[n]? = some c) {id : ι}
    (hid : c.pending id ≠ none) (hnew : ∀ i ∈ xs, i.op.requestId ≠ some id)
    (hdone : ∀ c', (final Cluster.step xs s).clients[n]? = some c' → c'.pending id = none) :
    SettledOnce n id xs s := by
  induction xs generalizing outs s c with
  | nil => exact absurd (hdone c hc) hid
  | cons i xs ih =>
    have hpromise : s.promise n id = some .pending := (promise_eq hc id).trans (h.live hc hid)
    have hrest : ∀ j ∈ xs, j.op.requestId ≠ some id := fun j hj =>
      hnew j (List.mem_cons_of_mem i hj)
    obtain ⟨d, hd, hstep⟩ := client_step h.consistent hc (h.awaited.phase n c hc) i
    obtain ⟨hpending', -⟩ | ⟨-, hnone, outcome, houtcome, hsettled⟩ :=
      hstep.promise (hnew i List.mem_cons_self) (h.live hc)
    · obtain ⟨a, j, b, outcome, rfl, houtcome, hbefore, hafter⟩ :=
        ih h.head hd (by rw [hpending']; exact hid) hrest hdone
      refine ⟨i :: a, j, b, outcome, rfl, houtcome, fun p hp => ?_, fun p hp => hafter p hp⟩
      cases p with
      | nil => exact hpromise
      | cons i' p =>
        obtain ⟨rfl, htail⟩ := List.cons_prefix_cons.mp hp
        exact hbefore p htail
    · refine ⟨[], i, xs, outcome, rfl, houtcome, fun p hp => ?_, fun p hp => ?_⟩
      · rw [List.prefix_nil.mp hp]
        exact hpromise
      · obtain ⟨rest, rfl⟩ := hp
        obtain ⟨c', hc', -, hsame⟩ := h.head.settled_stays hd hnone
          fun j hj => hrest j (List.mem_append_left _ hj)
        rw [← hsettled, ← hsame]
        exact promise_eq hc' id

/-! ## Overlapping calls -/

/-- A call of `shutdown` on the client numbered `n`. -/
def IsShutdownCall (n : ℕ) (i : Timed (ClusterEvent ω ι κ)) (id : ι) : Prop :=
  i.op = .request n id .shutdown

/-- A call on a client that listens gets past the checks. -/
theorem IsShutdownCall.step {i : Timed (ClusterEvent ω ι κ)} {id : ι}
    (h : IsShutdownCall n i id) (hc : s.clients[n]? = some c) (hready : c.ready = .resolved)
    (hlistens : c.listenerRemoved = false) :
    (s.step i).1.clients[n]? = some (c.setPending id (.shutdown : ClusterRequest κ)) := by
  obtain ⟨now, op⟩ := i
  obtain rfl : op = .request n id .shutdown := h
  have hmay : c.mayRequest (.shutdown : ClusterRequest κ) = true := by
    rw [ClusterStore.mayRequest, decide_eq_true hready, hlistens]
    rfl
  simp only [Cluster.step, hc]
  rw [if_pos hmay]
  exact List.getElem?_set_self (List.getElem?_eq_some_iff.mp hc).1

/-- How the client numbered `n` stands after events `a`, which began with none of its
shutdowns called: each one that waits was called past the checks, and it listens no more when
the last one has been answered. -/
structure InShutdown (n : ℕ) (a : List (Timed (ClusterEvent ω ι κ))) (s : Cluster ω ι κ)
    (c : ClusterStore ω ι) : Prop where
  ready : c.ready = .resolved
  removed : c.shutDown = true → (c.pending = fun _ => none) → c.listenerRemoved = true
  called : (∃ i ∈ a, ∃ id, IsShutdownCall n i id) → c.shutDown = true
  own : ∀ id, c.pending id = some (.void .shutdown) → ∃ a₁ i a₂ d, a = a₁ ++ i :: a₂ ∧
    IsShutdownCall n i id ∧ (final Cluster.step a₁ s).clients[n]? = some d ∧
    d.listenerRemoved = false

/-- A run in a shutdown goes on until a request times out. -/
theorem InShutdown.concat {i : Timed (ClusterEvent ω ι κ)} {c' : ClusterStore ω ι}
    (h : InShutdown n xs s c) (hphase : c.ShutdownPhase)
    (hc : (final Cluster.step xs s).clients[n]? = some c) (hstep : ClientStep n i.op c c')
    (hinTime : ∀ id, i.op ≠ .timeout n id) : InShutdown n (xs ++ [i]) s c' := by
  have hold : ∀ id, c.pending id = some (.void .shutdown) → ∃ a₁ j a₂ d,
      xs ++ [i] = a₁ ++ j :: a₂ ∧ IsShutdownCall n j id ∧
        (final Cluster.step a₁ s).clients[n]? = some d ∧ d.listenerRemoved = false := by
    intro id hid
    obtain ⟨a₁, j, a₂, d, rfl, hcall⟩ := h.own id hid
    exact ⟨a₁, j, a₂ ++ [i], d, by rw [List.append_assoc]; rfl, hcall⟩
  have hcalled : (∀ id, ¬ IsShutdownCall n i id) → (∃ j ∈ xs ++ [i], ∃ id, IsShutdownCall n j id) →
      c.shutDown = true := by
    rintro hnot ⟨j, hj, id, hcall⟩
    rcases List.mem_append.mp hj with hj | hj
    · exact h.called ⟨j, hj, id, hcall⟩
    · rw [List.mem_singleton.mp hj] at hcall
      exact absurd hcall (hnot id)
  cases hstep with
  | kept hsame hshut hready hlistens hrefused =>
    rw [hready h.ready]
    refine ⟨h.ready, h.removed, ?_, hold⟩
    rintro ⟨j, hj, id, hcall⟩
    rcases List.mem_append.mp hj with hj | hj
    · exact h.called ⟨j, hj, id, hcall⟩
    · -- a call that was refused found the listener gone
      rw [List.mem_singleton.mp hj] at hcall
      have hmay := hrefused id .shutdown hcall
      have hremoved : c.listenerRemoved = true := by
        rw [ClusterStore.mayRequest, decide_eq_true h.ready, Bool.true_and] at hmay
        simpa using hmay
      cases hphase with
      | unready hready' hshut' hpending => exact absurd h.ready hready'
      | running hready' hshut' hlistens' hpending =>
        rw [hremoved] at hlistens'
        cases hlistens'
      | waiting id' hready' hshut' hlistens' hpending => exact hshut'
      | ended hready' hshut' hpending => exact hshut'
  | requested id request hop hmay hc' =>
    by_cases hentry : request.entry = .void .shutdown
    · obtain rfl := ClusterRequest.eq_shutdown hentry
      obtain ⟨hshut, hpending⟩ : c'.shutDown = true ∧ c'.pending = ClusterStore.onlyShutdown id := by
        rw [hc']
        exact ⟨rfl, rfl⟩
      refine ⟨by rw [hc']; exact h.ready, fun _ hnone => ?_, fun _ => hshut, fun id' hid' => ?_⟩
      · rw [hpending] at hnone
        have hself := congrFun hnone id
        rw [ClusterStore.onlyShutdown, Function.update_self] at hself
        cases hself
      · have hself : id' = id := by
          by_contra hne
          rw [hpending, ClusterStore.onlyShutdown, Function.update_of_ne hne] at hid'
          cases hid'
        rw [hself]
        have hlistens : c.listenerRemoved = false := by
          have hpast := (Bool.and_eq_true_iff.mp hmay).2
          simpa using hpast
        exact ⟨xs, i, [], c, rfl, hop, hc, hlistens⟩
    · obtain ⟨hshut, hready, hshut'⟩ := ClusterStore.setPending_other id hmay hentry
      rw [← hc'] at hready hshut'
      refine ⟨hready.trans h.ready, fun htrue => ?_, fun hcall => ?_, fun id' hid' => ?_⟩
      · rw [hshut', hshut] at htrue
        cases htrue
      · rw [hshut']
        refine hcalled (fun id' hself => ?_) hcall
        have hop' : i.op = .request n id' .shutdown := hself
        rw [hop] at hop'
        cases hop'
        exact hentry rfl
      · refine hold id' ?_
        have hne : id' ≠ id := by
          rintro rfl
          have hself : c'.pending id' = some request.entry := by
            rw [hc']
            exact Function.update_self _ _ _
          rw [hself, Option.some.injEq] at hid'
          exact hentry hid'
        rw [hc', ClusterStore.pending_setPending_of_ne hne, if_neg hentry] at hid'
        exact hid'
  | timedOut id hop hpending hc' => exact absurd hop (hinTime id)
  | answered id e outcome hop he hanswered =>
    refine ⟨hanswered.ready.trans h.ready, fun hshut _ => ?_, fun hcall => ?_, fun id' hid' => ?_⟩
    · -- the listener goes with the answer to a `shutdown`, the only request that can be pending
      refine (hanswered.shutdownDone ?_).2
      rw [hanswered.shutDown] at hshut
      cases hphase with
      | unready hready hshut' hpending => exact absurd h.ready hready
      | running hready hshut' hlistens hpending =>
        rw [hshut] at hshut'
        cases hshut'
      | waiting id' hready hshut' hlistens hpending =>
        rw [hpending, ClusterStore.onlyShutdown] at he
        by_cases hself : id = id'
        · rw [hself, Function.update_self, Option.some.injEq] at he
          exact he.symm
        · rw [Function.update_of_ne hself] at he
          cases he
      | ended hready hshut' hpending =>
        rw [hpending] at he
        cases he
    · rw [hanswered.shutDown]
      refine hcalled (fun id' hself => ?_) hcall
      have hop' : i.op = .request n id' .shutdown := hself
      rw [hop'] at hop
      cases hop
    · refine hold id' ?_
      rw [hanswered.settles.pending] at hid'
      by_cases hself : id' = id
      · rw [hself, Function.update_self] at hid'
        cases hid'
      · rwa [Function.update_of_ne hself] at hid'

/-- The client in every state of such a run. -/
theorem Watched.inShutdown (h : Watched outs xs s) (hc : s.clients[n]? = some c)
    (hready : c.ready = .resolved) (hshut : c.shutDown = false)
    (hinTime : ∀ i ∈ xs, ∀ id, i.op ≠ .timeout n id) :
    ∃ c', (final Cluster.step xs s).clients[n]? = some c' ∧ InShutdown n xs s c' := by
  induction xs using List.reverseRecOn with
  | nil =>
    refine ⟨c, hc, hready, fun htrue => ?_, ?_, fun id hid => ?_⟩
    · rw [hshut] at htrue
      cases htrue
    · rintro ⟨i, hi, -⟩
      cases hi
    · cases h.awaited.phase n c hc with
      | unready hready' hshut' hpending => exact absurd hready hready'
      | running hready' hshut' hlistens hpending => exact absurd hid (hpending id)
      | waiting id' hready' hshut' hlistens hpending =>
        rw [hshut] at hshut'
        cases hshut'
      | ended hready' hshut' hpending =>
        rw [hshut] at hshut'
        cases hshut'
  | append_singleton xs i ih =>
    obtain ⟨d, hd, hin⟩ := ih h.stop fun j hj => hinTime j (List.mem_append_left _ hj)
    obtain ⟨c', hc', hstep⟩ := h.client_concat hd
    exact ⟨c', hc', hin.concat (h.run.awaited.phase n d hd) hd hstep
      (hinTime i (List.mem_append_right _ (List.mem_singleton_self i)))⟩

/-- No call of `shutdown` on the client is made while another one waits for its reply. -/
def CallsAlone (n : ℕ) (i : Timed (ClusterEvent ω ι κ)) (s : Cluster ω ι κ) : Prop :=
  ∀ id c, IsShutdownCall n i id → s.clients[n]? = some c →
    ∀ id', c.pending id' ≠ some (.void .shutdown)

/-- A call that waits, and after which none is made until it is answered, is done then. -/
theorem Watched.answered_call (h : Watched outs xs s) (hc : s.clients[n]? = some c) {id : ι}
    (hready : c.ready = .resolved) (hshut : c.shutDown = true)
    (hpending : c.pending = ClusterStore.onlyShutdown id)
    (hnew : ∀ i ∈ xs, i.op.requestId ≠ some id)
    (hinTime : ∀ i ∈ xs, ∀ id, i.op ≠ .timeout n id)
    (halone : Guarded (CallsAlone n) Cluster.step xs s) :
    ∃ c', (final Cluster.step xs s).clients[n]? = some c' ∧
      (c'.pending = ClusterStore.onlyShutdown id ∨ c'.promises id = some .done) := by
  induction xs generalizing outs s c with
  | nil => exact ⟨c, hc, Or.inl hpending⟩
  | cons i xs ih =>
    have hself : c.pending id = some (.void .shutdown) := by
      rw [hpending, ClusterStore.onlyShutdown, Function.update_self]
    have hrest : ∀ j ∈ xs, j.op.requestId ≠ some id := fun j hj =>
      hnew j (List.mem_cons_of_mem i hj)
    have hrestInTime : ∀ j ∈ xs, ∀ id, j.op ≠ .timeout n id := fun j hj =>
      hinTime j (List.mem_cons_of_mem i hj)
    obtain ⟨d, hd, hstep⟩ := client_step h.consistent hc (h.awaited.phase n c hc) i
    cases hstep with
    | kept hsame hshut' hready' hlistens hrefused =>
      rw [hready' hready] at hd
      exact ih h.head hd hready hshut hpending hrest hrestInTime halone.2
    | requested id' request hop hmay hc' =>
      by_cases hentry : request.entry = .void .shutdown
      · obtain rfl := ClusterRequest.eq_shutdown hentry
        exact absurd hself (halone.1 id' c hop hc id)
      · have hnot := (ClusterStore.setPending_other id' hmay hentry).1
        rw [hshut] at hnot
        cases hnot
    | timedOut id' hop hpending' hc' => exact absurd hop (hinTime i List.mem_cons_self id')
    | answered id' e outcome hop he hanswered =>
      obtain rfl : id' = id := by
        by_contra hne
        rw [hpending, ClusterStore.onlyShutdown, Function.update_of_ne hne] at he
        cases he
      rw [hself, Option.some.injEq] at he
      have hdone : d.promises id' = some .done := by
        rw [hanswered.settles.promises, if_pos ⟨rfl, h.live hc (by rw [hself]; simp)⟩,
          (hanswered.shutdownDone he.symm).1]
      have hnone : d.pending id' = none := by
        rw [hanswered.settles.pending, Function.update_self]
      have hlater : Watched (outs ++ (s.step i).2) (xs ++ []) (s.step i).1 := by
        rw [List.append_nil]
        exact h.head
      obtain ⟨c', hc', -, hsame⟩ := hlater.settled_stays hd hnone hrest
      exact ⟨c', hc', Or.inr (hsame.trans hdone)⟩

/-- A call of `shutdown`, after events `a` of the run, is resolved: its listener gone, it
returns at once, or its promise is done in the end. -/
def CallResolved (n : ℕ) (id : ι) (a xs : List (Timed (ClusterEvent ω ι κ)))
    (s : Cluster ω ι κ) : Prop :=
  (∃ c, (final Cluster.step a s).clients[n]? = some c ∧ c.listenerRemoved = true) ∨
    (final Cluster.step xs s).promise n id = some .done

/-- In this run every call of `shutdown` on the client resolves, every request pending at its
start is settled once, and the listener is removed in the end. -/
structure ToleratesOverlap (n : ℕ) (xs : List (Timed (ClusterEvent ω ι κ)))
    (s : Cluster ω ι κ) : Prop where
  resolves : ∀ a i b id, xs = a ++ i :: b → IsShutdownCall n i id → CallResolved n id a xs s
  settles : ∀ c id, s.clients[n]? = some c → c.pending id ≠ none → SettledOnce n id xs s
  removed : ∃ c, (final Cluster.step xs s).clients[n]? = some c ∧ c.listenerRemoved = true

/-- After events `pre` the client numbered `n` is `c`, its `init` acknowledged and no shutdown
called; in `post` some are, no timer of the client fires, and in the end all messages from and
to its worker have arrived. -/
structure ShutdownRun (pre post : List (Timed (ClusterEvent ω ι κ))) (n : ℕ)
    (c : ClusterStore ω ι) : Prop where
  ids : ((pre ++ post).filterMap fun i => i.op.requestId).Nodup
  client : (final Cluster.step pre {}).clients[n]? = some c
  ready : c.ready = .resolved
  running : c.shutDown = false
  called : ∃ i ∈ post, ∃ id, IsShutdownCall n i id
  inTime : ∀ i ∈ post, ∀ id, i.op ≠ .timeout n id
  answered : ∀ id, ¬ InFlight (final Cluster.step post (final Cluster.step pre {})) c.worker id

variable {pre post : List (Timed (ClusterEvent ω ι κ))}

/-- After the shutdown has begun the rest of the run is watched. -/
theorem ShutdownRun.watched (h : ShutdownRun pre post n c) :
    Watched (Cluster.runOutputs pre {}) post (final Cluster.step pre {}) := by
  have hinit : Watched ([] : List (ClusterOutput ω ι κ)) (pre ++ post) {} :=
    ⟨consistent_init, ⟨fun m d hd => by simp at hd, fun m d id hd => by simp at hd⟩, h.ids⟩
  exact hinit.run

/-- In the end nothing is pending, and the listener is gone. -/
theorem ShutdownRun.ending (h : ShutdownRun pre post n c) :
    ∃ c', (final Cluster.step post (final Cluster.step pre {})).clients[n]? = some c' ∧
      (c'.pending = fun _ => none) ∧ c'.listenerRemoved = true := by
  obtain ⟨c', hc', hin⟩ := h.watched.inShutdown h.client h.ready h.running h.inTime
  have hend : Watched (Cluster.runOutputs pre {}) (post ++ []) (final Cluster.step pre {}) := by
    rw [List.append_nil]
    exact h.watched
  obtain ⟨d, hd, hworker⟩ := h.watched.worker h.client
  obtain rfl := Option.some.inj (hd.symm.trans hc')
  have hnone : d.pending = fun _ => none := by
    funext id
    by_contra hid
    have hflight := hend.run.awaited.inFlight n d id hc' hid
    rw [hworker] at hflight
    exact h.answered id hflight
  exact ⟨d, hc', hnone, hin.removed (hin.called h.called) hnone⟩

/-- A call that meets no other is resolved. -/
theorem ShutdownRun.resolved (h : ShutdownRun pre post n c)
    (halone : Guarded (CallsAlone n) Cluster.step post (final Cluster.step pre {}))
    {a b : List (Timed (ClusterEvent ω ι κ))} {i : Timed (ClusterEvent ω ι κ)} {id : ι}
    (hpost : post = a ++ i :: b) (hcall : IsShutdownCall n i id) :
    CallResolved n id a post (final Cluster.step pre {}) := by
  subst hpost
  have hwatched := h.watched
  obtain ⟨d, hd, hin⟩ := hwatched.stop.inShutdown h.client h.ready h.running
    fun j hj => h.inTime j (List.mem_append_left _ hj)
  by_cases hremoved : d.listenerRemoved = true
  · exact Or.inl ⟨d, hd, hremoved⟩
  · refine Or.inr ?_
    have hrun := hwatched.run
    have hd' := hcall.step hd hin.ready (Bool.eq_false_iff.mpr hremoved)
    have hpromise : (d.setPending id (.shutdown : ClusterRequest κ)).promises id =
        some .pending := Function.update_self _ _ _
    rw [guarded_append, guarded_cons] at halone
    obtain ⟨c', hc', hend⟩ := hrun.head.answered_call hd' hin.ready rfl rfl
      (hrun.head.not_requested hd' (by rw [hpromise]; simp))
      (fun j hj => h.inTime j (List.mem_append_right _ (List.mem_cons_of_mem i hj)))
      halone.2.2
    have hfinal : final Cluster.step (a ++ i :: b) (final Cluster.step pre {}) =
        final Cluster.step b (Cluster.step i
          (final Cluster.step a (final Cluster.step pre {}))).1 := by
      rw [final_append, final_cons]
    rw [← hfinal] at hc'
    rcases hend with hwaiting | hdone
    · obtain ⟨e, he, hnone, -⟩ := h.ending
      obtain rfl := Option.some.inj (he.symm.trans hc')
      rw [hnone] at hwaiting
      have hself := congrFun hwaiting id
      rw [ClusterStore.onlyShutdown, Function.update_self] at hself
      cases hself
    · exact (promise_eq hc' id).trans hdone

/-- A call that finds another one waiting rejects it. -/
theorem ShutdownRun.rejected (h : ShutdownRun pre post n c)
    (hnot : ¬ Guarded (CallsAlone n) Cluster.step post (final Cluster.step pre {})) :
    ∃ a i b id, post = a ++ i :: b ∧ IsShutdownCall n i id ∧
      ¬ CallResolved n id a post (final Cluster.step pre {}) := by
  obtain ⟨p, i, rest, rfl, -, hi⟩ := exists_first_unguarded hnot
  have hwatched := h.watched
  unfold CallsAlone at hi
  push Not at hi
  obtain ⟨id, d, hcall, hd, id', hid'⟩ := hi
  obtain ⟨d', hd', hin⟩ := hwatched.stop.inShutdown h.client h.ready h.running
    fun j hj => h.inTime j (List.mem_append_left _ hj)
  obtain rfl := Option.some.inj (hd.symm.trans hd')
  obtain ⟨a₁, j, a₂, d₁, rfl, hcall', hd₁, hlistens⟩ := hin.own id' hid'
  refine ⟨a₁, j, a₂ ++ i :: rest, id', by rw [List.append_assoc]; rfl, hcall', ?_⟩
  have hrun := hwatched.run
  have hwaits : d.pending id' ≠ none := by
    rw [hid']
    exact Option.some_ne_none _
  have hlive := hrun.live hd hwaits
  have hnew := hrun.not_requested hd (by rw [hlive]; simp)
  have hne : id' ≠ id := by
    rintro rfl
    refine hnew i List.mem_cons_self ?_
    have hop : i.op = .request n id' .shutdown := hcall
    rw [hop]
    rfl
  have hstep := hcall.step hd hin.ready ((hrun.awaited.phase n d hd).listens hwaits).2
  have hnone : (d.setPending id (.shutdown : ClusterRequest κ)).pending id' = none := by
    rw [ClusterStore.pending_setPending_of_ne hne]
    exact if_pos rfl
  have hrejected : (d.setPending id (.shutdown : ClusterRequest κ)).promises id' =
      some (.rejected "ClusterStore shut down") := by
    rw [ClusterStore.promises_setPending_shutdown hne]
    exact if_pos ⟨hwaits, hlive⟩
  have hlater := hrun.head
  rw [← List.append_nil rest] at hlater
  obtain ⟨c', hc', -, hsame⟩ := hlater.settled_stays hstep hnone
    fun k hk => hnew k (List.mem_cons_of_mem i hk)
  rintro (⟨e, he, hgone⟩ | hdone)
  · obtain rfl := Option.some.inj (hd₁.symm.trans he)
    rw [hlistens] at hgone
    cases hgone
  · rw [final_append, final_cons, promise_eq hc' id', hsame, hrejected] at hdone
    simp at hdone

end Run

/-! ## Main result -/

/-- **Overlapping shutdowns.**  Whatever is pending in a client whose `init` has been
acknowledged, and however many calls of `shutdown` come in whatever order with replies,
requests and the other clients' events: when all has been answered, each of the calls is
resolved, what was pending has been settled once and the listener is gone, exactly if no call
was made while another one waited for its reply.
SOURCE: src/stores/ClusterStore.ts:198-249, 351-391, src/cluster/ClusterStorePrimary.ts:339-375 -/
theorem cluster_shutdown_overlap_iff {pre post : List (Timed (ClusterEvent ω ι κ))} {n : ℕ}
    {c : ClusterStore ω ι} (h : ShutdownRun pre post n c) :
    ToleratesOverlap n post (final Cluster.step pre {}) ↔
      Guarded (CallsAlone n) Cluster.step post (final Cluster.step pre {}) := by
  constructor
  · intro htolerates
    by_contra hnot
    obtain ⟨a, i, b, id, hpost, hcall, hunresolved⟩ := h.rejected hnot
    exact hunresolved (htolerates.resolves a i b id hpost hcall)
  · intro halone
    obtain ⟨c', hc', hnone, hremoved⟩ := h.ending
    refine ⟨fun a i b id hpost hcall => h.resolved halone hpost hcall, fun d id hd hid => ?_,
      c', hc', hremoved⟩
    refine h.watched.settledOnce hd hid
      (h.watched.not_requested hd (by rw [h.watched.live hd hid]; simp)) fun e he => ?_
    rw [← Option.some.inj (hc'.symm.trans he), hnone]

/-- A worker's store, its `init` acknowledged, with one increment pending. -/
def pendingIncrement : List (Timed (ClusterEvent ℕ ℕ ℕ)) :=
  [⟨0, .construct 1 "api" 5000 (.fixedWindow (some 1000) (some 2))⟩, ⟨1, .receive 0⟩,
    ⟨1, .dispatch⟩, ⟨1, .reply⟩, ⟨2, .deliver 0⟩, ⟨3, .request 0 10 (.increment 7 {})⟩]

/-- Two calls of `shutdown`, the second one after the first has been answered. -/
def oneAfterOther : List (Timed (ClusterEvent ℕ ℕ ℕ)) :=
  [⟨4, .request 0 11 .shutdown⟩, ⟨5, .receive 0⟩, ⟨5, .dispatch⟩, ⟨5, .reply⟩, ⟨6, .receive 0⟩,
    ⟨6, .dispatch⟩, ⟨6, .reply⟩, ⟨7, .deliver 0⟩, ⟨7, .deliver 0⟩,
    ⟨8, .request 0 12 .shutdown⟩]

/-- Two calls of `shutdown` before any reply. -/
def twoAtOnce : List (Timed (ClusterEvent ℕ ℕ ℕ)) :=
  [⟨4, .request 0 11 .shutdown⟩, ⟨4, .request 0 12 .shutdown⟩, ⟨5, .receive 0⟩, ⟨5, .receive 0⟩,
    ⟨5, .receive 0⟩, ⟨6, .dispatch⟩, ⟨6, .reply⟩, ⟨6, .dispatch⟩, ⟨6, .reply⟩, ⟨6, .dispatch⟩,
    ⟨6, .reply⟩, ⟨7, .deliver 0⟩, ⟨7, .deliver 0⟩, ⟨7, .deliver 0⟩]

/-- Both calls resolve, and the increment is settled once. -/
theorem cluster_shutdown_overlap_twice :
    ToleratesOverlap 0 oneAfterOther (final Cluster.step pendingIncrement {}) := by
  have h : ShutdownRun pendingIncrement oneAfterOther 0 _ :=
    { ids := by decide
      client := rfl
      ready := rfl
      running := rfl
      called := ⟨_, List.mem_cons_self, 11, rfl⟩
      inTime := by simp [oneAfterOther]
      answered := by
        rintro id (⟨x, hx, -⟩ | ⟨x, hx, -⟩)
        · exact absurd hx List.not_mem_nil
        · exact absurd hx List.not_mem_nil }
  have hother : ∀ (i : Timed (ClusterEvent ℕ ℕ ℕ)) (s : Cluster ℕ ℕ ℕ),
      i.op.requestId = none → CallsAlone 0 i s := by
    intro i s hi id c hcall
    rw [IsShutdownCall] at hcall
    rw [hcall] at hi
    cases hi
  refine (cluster_shutdown_overlap_iff h).mpr ⟨?_, hother _ _ rfl, hother _ _ rfl,
    hother _ _ rfl, hother _ _ rfl, hother _ _ rfl, hother _ _ rfl, hother _ _ rfl,
    hother _ _ rfl, ?_, trivial⟩
  · intro id c hcall hc id' hid'
    obtain rfl := Option.some.inj hc
    have hpending : Function.update (fun _ => none) 10 (some PendingEntry.increment) id' =
        some (.void .shutdown) := hid'
    by_cases hself : id' = 10
    · rw [hself, Function.update_self] at hpending
      cases hpending
    · rw [Function.update_of_ne hself] at hpending
      cases hpending
  · intro id c hcall hc id' hid'
    obtain rfl := Option.some.inj hc
    have hpending : Function.update (ClusterStore.onlyShutdown 11) 11 none id' =
        some (.void .shutdown) := hid'
    by_cases hself : id' = 11
    · rw [hself, Function.update_self] at hpending
      cases hpending
    · rw [Function.update_of_ne hself, ClusterStore.onlyShutdown, Function.update_of_ne hself]
        at hpending
      cases hpending

/-- The second of two calls rejects the first. -/
theorem cluster_shutdown_rejects_overlapping :
    ¬ ∀ (pre post : List (Timed (ClusterEvent ℕ ℕ ℕ))) (n : ℕ) (c : ClusterStore ℕ ℕ),
      ShutdownRun pre post n c → ToleratesOverlap n post (final Cluster.step pre {}) := by
  intro h
  have hrun : ShutdownRun pendingIncrement twoAtOnce 0 _ :=
    { ids := by decide
      client := rfl
      ready := rfl
      running := rfl
      called := ⟨_, List.mem_cons_self, 11, rfl⟩
      inTime := by simp [twoAtOnce]
      answered := by
        rintro id (⟨x, hx, -⟩ | ⟨x, hx, -⟩)
        · exact absurd hx List.not_mem_nil
        · exact absurd hx List.not_mem_nil }
  obtain ⟨c, hc, hremoved⟩ | hdone :=
    (h pendingIncrement twoAtOnce 0 _ hrun).resolves [] _ _ 11 rfl rfl
  · obtain rfl := Option.some.inj hc
    cases hremoved
  · have hrejected : (final Cluster.step twoAtOnce
        (final Cluster.step pendingIncrement {})).promise 0 11 =
          some (.rejected "ClusterStore shut down") := rfl
    rw [hrejected] at hdone
    simp at hdone

end RatelimitFlex
