import RatelimitFlex.Analysis.ClusterMessages

/-!
# A shutdown and the other workers

The primary keeps one store for a `keyPrefix` and no record of who uses it.  The run below
carries that record beside it: a worker is attached to a prefix from an acknowledged `init`
on, until it sends a shutdown.  What a worker sees of a store are the replies to its
increments, decrements and resets (`repliesTo`).

A shutdown takes the store away from everybody.  The replies under a prefix depend only on
its store (`repliesTo_congr`), so workers under other prefixes notice nothing, and those under
the same prefix notice nothing exactly when there are none or the store was gone before.
-/

set_option autoImplicit false

namespace RatelimitFlex

open Library

variable {ω ι κ : Type} [DecidableEq ω] [DecidableEq κ]

/-- A message and the primary's reply to it. -/
structure HandledMessage (ω ι κ : Type) where
  worker : ω
  msg : ClusterWorkerMessage ι κ
  reply : ClusterPrimaryMessage ι

/-- The stores of the primary, and beside them who is attached to which prefix. -/
structure AttachedPrimary (ω κ : Type) [DecidableEq κ] where
  stores : String → Option (MemoryStore κ) := fun _ => none
  attached : ω → String → Bool := fun _ _ => false

/-- An increment, a decrement or a reset. -/
def ClusterWorkerMessage.isOperation : ClusterWorkerMessage ι κ → Bool
  | .increment _ _ _ _ => true
  | .decrement _ _ _ _ => true
  | .reset _ _ _ => true
  | _ => false

namespace AttachedPrimary

/-- An acknowledged `init` attaches its worker, a shutdown detaches it. -/
def attach (worker : ω) (msg : ClusterWorkerMessage ι κ) (reply : ClusterPrimaryMessage ι)
    (attached : ω → String → Bool) : ω → String → Bool :=
  let now? : Option Bool := match msg, reply with
    | .init _ _ _, .initAck _ _ => some true
    | .shutdown _ _, _ => some false
    | _, _ => none
  match now? with
  | some b => Function.update attached worker (Function.update (attached worker) msg.keyPrefix b)
  | none => attached

/-- One action of the primary. -/
def step (a : Timed (PrimaryAction ω ι κ)) (s : AttachedPrimary ω κ) :
    AttachedPrimary ω κ × Option (HandledMessage ω ι κ) :=
  match a.op with
  | .handled worker msg =>
    let r := ClusterStorePrimary.dispatchWorkerMessage a.time s.stores msg
    (⟨r.1, attach worker msg r.2 s.attached⟩, some ⟨worker, msg, r.2⟩)
  | .purged p =>
    ({ s with stores := Function.update s.stores p ((s.stores p).map (·.purgeExpired a.time)) },
      none)

/-- The stores are the shared stores of the cluster model. -/
theorem stores_step (a : Timed (PrimaryAction ω ι κ)) (s : AttachedPrimary ω κ) (p : String) :
    (step a s).1.stores p = sharedStep p (s.stores p) a := by
  obtain ⟨t, op⟩ := a
  cases op with
  | handled worker msg => exact ClusterStorePrimary.dispatchWorkerMessage_fst t msg p
  | purged q =>
    show Function.update s.stores q _ p = _
    simp only [sharedStep]
    by_cases hq : q = p
    · subst hq
      rw [Function.update_self, if_pos rfl]
    · rw [Function.update_of_ne (Ne.symm hq), if_neg hq]

/-- Each prefix has the store that its actions make. -/
theorem stores_final (actions : List (Timed (PrimaryAction ω ι κ))) (p : String) :
    (final step actions ({} : AttachedPrimary ω κ)).stores p = sharedStore p actions := by
  have hfold : ∀ s : AttachedPrimary ω κ,
      (final step actions s).stores p = actions.foldl (sharedStep p) (s.stores p) := by
    induction actions with
    | nil => exact fun s => rfl
    | cons a actions ih =>
      intro s
      rw [final_cons, ih, stores_step, List.foldl_cons]
  exact hfold {}

/-- In a run of the cluster they are the stores of its primary. -/
theorem stores_of_consistent {outs : List (ClusterOutput ω ι κ)} {s : Cluster ω ι κ}
    (h : Consistent outs s) (p : String) :
    s.primary.stores p =
      (final step (primaryActions outs) ({} : AttachedPrimary ω κ)).stores p :=
  (h.stores p).trans (stores_final _ p).symm

end AttachedPrimary

/-- What worker `v` sees of the store under `p`. -/
def repliesTo (v : ω) (p : String) (outs : List (Option (HandledMessage ω ι κ))) :
    List (ClusterPrimaryMessage ι) :=
  outs.filterMap fun out => out.bind fun h =>
    if h.worker = v ∧ h.msg.keyPrefix = p ∧ h.msg.isOperation = true then some h.reply else none

/-- The action is not an accepted `init` under `p`. -/
def PrimaryAction.StartsNothing (p : String) : PrimaryAction ω ι κ → Prop
  | .handled _ (.init q _ version) => q = p → acceptsVersion version = false
  | _ => True

/-! ## Replies depend on the store of their prefix -/

omit [DecidableEq κ] in
/-- An operation is a request of a worker's store. -/
theorem ClusterWorkerMessage.exists_request {msg : ClusterWorkerMessage ι κ}
    (hmsg : msg.isOperation = true) :
    ∃ id request, msg = ClusterRequest.message id msg.keyPrefix request ∧
      request ≠ .shutdown := by
  cases msg with
  | increment id p key options => exact ⟨id, .increment key options, rfl, nofun⟩
  | decrement id p key options => exact ⟨id, .decrement key options, rfl, nofun⟩
  | reset id p key => exact ⟨id, .reset key, rfl, nofun⟩
  | shutdown => cases hmsg
  | init => cases hmsg

/-- An operation is answered alike wherever its prefix has the same store. -/
theorem reply_congr (now : ℤ) {stores stores' : String → Option (MemoryStore κ)}
    {msg : ClusterWorkerMessage ι κ} (hmsg : msg.isOperation = true)
    (hstore : stores msg.keyPrefix = stores' msg.keyPrefix) :
    (ClusterStorePrimary.dispatchWorkerMessage now stores msg).2 =
      (ClusterStorePrimary.dispatchWorkerMessage now stores' msg).2 := by
  obtain ⟨id, request, hrequest, -⟩ := msg.exists_request hmsg
  rw [hrequest, ClusterStorePrimary.dispatchWorkerMessage_snd,
    ClusterStorePrimary.dispatchWorkerMessage_snd, hstore]

/-- Without a store an operation fails. -/
theorem reply_of_missing (now : ℤ) {stores : String → Option (MemoryStore κ)}
    {msg : ClusterWorkerMessage ι κ} (hmsg : msg.isOperation = true)
    (hstore : stores msg.keyPrefix = none) :
    ∃ id, (ClusterStorePrimary.dispatchWorkerMessage now stores msg).2 =
      .result id msg.keyPrefix (.error (storeMissingError msg.keyPrefix)) := by
  obtain ⟨id, request, hrequest, -⟩ := msg.exists_request hmsg
  refine ⟨id, ?_⟩
  rw [hrequest, ClusterStorePrimary.dispatchWorkerMessage_snd, ← hrequest, hstore]
  cases request <;> rfl

omit [DecidableEq κ] in
/-- The replies to one output and those after it. -/
theorem repliesTo_cons (v : ω) (p : String) (out : Option (HandledMessage ω ι κ))
    (outs : List (Option (HandledMessage ω ι κ))) :
    repliesTo v p (out :: outs) = repliesTo v p [out] ++ repliesTo v p outs := by
  unfold repliesTo
  rw [← List.filterMap_append, List.singleton_append]

/-- What `v` sees of one handled message. -/
theorem repliesTo_step (v : ω) (p : String) (t : ℤ) (worker : ω) (msg : ClusterWorkerMessage ι κ)
    (s : AttachedPrimary ω κ) :
    repliesTo v p [(AttachedPrimary.step ⟨t, .handled worker msg⟩ s).2] =
      if worker = v ∧ msg.keyPrefix = p ∧ msg.isOperation = true then
        [(ClusterStorePrimary.dispatchWorkerMessage t s.stores msg).2]
      else [] := by
  simp only [AttachedPrimary.step, repliesTo, List.filterMap_cons, List.filterMap_nil,
    Option.bind_some]
  split
  · next h =>
    split at h
    · cases h
    · next hmsg => rw [if_neg hmsg]
  · next reply h =>
    split at h
    · next hmsg =>
      rw [if_pos hmsg]
      cases h
      rfl
    · cases h

/-- The replies under `p` depend only on the store under `p`. -/
theorem repliesTo_congr (v : ω) (p : String) (later : List (Timed (PrimaryAction ω ι κ)))
    {s s' : AttachedPrimary ω κ} (hstore : s.stores p = s'.stores p) :
    repliesTo v p (outputs AttachedPrimary.step later s) =
      repliesTo v p (outputs AttachedPrimary.step later s') := by
  induction later generalizing s s' with
  | nil => rfl
  | cons a later ih =>
    rw [outputs_cons, outputs_cons, repliesTo_cons, repliesTo_cons v p (AttachedPrimary.step a s').2]
    have hnext : (AttachedPrimary.step a s).1.stores p = (AttachedPrimary.step a s').1.stores p := by
      rw [AttachedPrimary.stores_step, AttachedPrimary.stores_step, hstore]
    rw [ih hnext]
    congr 1
    obtain ⟨t, op⟩ := a
    cases op with
    | purged q => rfl
    | handled worker msg =>
      rw [repliesTo_step, repliesTo_step]
      by_cases hmsg : worker = v ∧ msg.keyPrefix = p ∧ msg.isOperation = true
      · rw [if_pos hmsg, if_pos hmsg]
        obtain ⟨-, rfl, hop⟩ := hmsg
        rw [reply_congr t hop hstore]
      · rw [if_neg hmsg, if_neg hmsg]

/-- While nobody starts a store under `p`, nobody gets anything but the error. -/
theorem repliesTo_of_missing (v : ω) {p : String} {later : List (Timed (PrimaryAction ω ι κ))}
    {s : AttachedPrimary ω κ} (hstore : s.stores p = none)
    (hlater : ∀ a ∈ later, a.op.StartsNothing p) :
    ∀ r ∈ repliesTo v p (outputs AttachedPrimary.step later s),
      ∃ id, r = .result id p (.error (storeMissingError p)) := by
  induction later generalizing s with
  | nil => exact fun r hr => nomatch hr
  | cons a later ih =>
    obtain ⟨ha, htail⟩ := List.forall_mem_cons.mp hlater
    have hnext : (AttachedPrimary.step a s).1.stores p = none := by
      rw [AttachedPrimary.stores_step, hstore]
      obtain ⟨t, op⟩ := a
      cases op with
      | purged q => simp only [sharedStep, Option.map_none, ite_self]
      | handled worker msg =>
        simp only [sharedStep]
        split
        · next hp =>
          cases msg with
          | init q storeOptions version =>
            have hrefused : acceptsVersion version = false := ha hp
            simp only [sharedHandle, hrefused, Bool.false_eq_true, if_false]
          | increment => rfl
          | decrement => rfl
          | reset => rfl
          | shutdown => rfl
        · rfl
    intro r hr
    rw [outputs_cons, repliesTo_cons, List.mem_append] at hr
    rcases hr with hr | hr
    · obtain ⟨t, op⟩ := a
      cases op with
      | purged q => cases hr
      | handled worker msg =>
        rw [repliesTo_step] at hr
        by_cases hmsg : worker = v ∧ msg.keyPrefix = p ∧ msg.isOperation = true
        · rw [if_pos hmsg] at hr
          obtain ⟨-, rfl, hop⟩ := hmsg
          obtain ⟨id, hid⟩ := reply_of_missing t hop hstore
          exact ⟨id, by rw [List.mem_singleton.mp hr, hid]⟩
        · rw [if_neg hmsg] at hr
          cases hr
    · exact ih hnext htail r hr

/-! ## Who notices a shutdown -/

/-- Nobody but `w` who is attached to `p` can tell, by any later sequence of actions, whether
the primary handled a shutdown of `w` under `p` or not. -/
def ShutdownUnseen (t : ℤ) (w : ω) (id : ι) (p : String) (s : AttachedPrimary ω κ) : Prop :=
  ∀ v, v ≠ w → s.attached v p = true → ∀ later : List (Timed (PrimaryAction ω ι κ)),
    repliesTo v p (outputs AttachedPrimary.step later
      (AttachedPrimary.step ⟨t, .handled w (.shutdown id p)⟩ s).1) =
    repliesTo v p (outputs AttachedPrimary.step later s)

/-- A shutdown takes the store of its prefix and no other. -/
theorem stores_shutdown (t : ℤ) (w : ω) (id : ι) (p q : String) (s : AttachedPrimary ω κ) :
    (AttachedPrimary.step ⟨t, .handled w (.shutdown id p)⟩ s).1.stores q =
      if p = q then none else s.stores q :=
  AttachedPrimary.stores_step _ s q

/-- A decrement tells a store from none. -/
theorem decrement_notices (t : ℤ) (v w : ω) (id : ι) (p : String) (key : κ)
    {s : AttachedPrimary ω κ} (hstore : s.stores p ≠ none) :
    repliesTo v p (outputs AttachedPrimary.step [⟨t, .handled v (.decrement id p key {})⟩]
      (AttachedPrimary.step ⟨t, .handled w (.shutdown id p)⟩ s).1) ≠
    repliesTo v p (outputs AttachedPrimary.step [⟨t, .handled v (.decrement id p key {})⟩] s) := by
  obtain ⟨store, hs⟩ := Option.ne_none_iff_exists'.mp hstore
  have hgone : (AttachedPrimary.step ⟨t, .handled w (.shutdown id p)⟩ s).1.stores p = none := by
    rw [stores_shutdown, if_pos rfl]
  have hreplies : ∀ s' : AttachedPrimary ω κ, repliesTo v p (outputs AttachedPrimary.step
      [⟨t, .handled v (.decrement id p key {})⟩] s') =
        [(ClusterRequest.decrement key {} : ClusterRequest κ).answer t (s'.stores p) id p] := by
    intro s'
    rw [outputs_cons, outputs_nil, repliesTo_step, if_pos ⟨rfl, rfl, rfl⟩]
    exact congrArg (fun r => [r])
      (ClusterStorePrimary.dispatchWorkerMessage_snd t id p (.decrement key {}))
  rw [hreplies, hreplies, hgone, hs]
  intro h
  cases h

/-- A shutdown is unseen exactly when no other worker is attached to its prefix, or there is
no store any more.  Under other prefixes nobody ever notices; under its own everybody gets an
error until somebody starts a store. -/
theorem shutdown_unseen_iff [Inhabited κ] (before : List (Timed (PrimaryAction ω ι κ))) (t : ℤ)
    (w : ω) (id : ι) (p : String) :
    let s := final AttachedPrimary.step before {}
    let left := (AttachedPrimary.step ⟨t, .handled w (.shutdown id p)⟩ s).1
    (ShutdownUnseen t w id p s ↔ (∀ v, v ≠ w → s.attached v p = false) ∨ s.stores p = none) ∧
      (∀ v q, q ≠ p → ∀ later : List (Timed (PrimaryAction ω ι κ)),
        repliesTo v q (outputs AttachedPrimary.step later left) =
          repliesTo v q (outputs AttachedPrimary.step later s)) ∧
      ∀ v, ∀ later : List (Timed (PrimaryAction ω ι κ)), (∀ a ∈ later, a.op.StartsNothing p) →
        ∀ r ∈ repliesTo v p (outputs AttachedPrimary.step later left),
          ∃ id, r = .result id p (.error (storeMissingError p)) := by
  intro s left
  refine ⟨⟨fun h => ?_, fun h v hv hattached later => ?_⟩, fun v q hq later => ?_,
    fun v later hlater => ?_⟩
  · by_contra hcond
    rw [not_or] at hcond
    obtain ⟨hothers, hstore⟩ := hcond
    push Not at hothers
    obtain ⟨v, hv, hattached⟩ := hothers
    exact decrement_notices t v w id p default hstore
      (h v hv (Bool.eq_true_of_not_eq_false hattached) _)
  · rcases h with hnobody | hgone
    · rw [hnobody v hv] at hattached
      cases hattached
    · apply repliesTo_congr
      rw [stores_shutdown, if_pos rfl, hgone]
  · apply repliesTo_congr
    rw [stores_shutdown, if_neg hq.symm]
  · apply repliesTo_of_missing v _ hlater
    rw [stores_shutdown, if_pos rfl]

/-- Two workers share a prefix; the shutdown of the second makes a decrement of the first
fail. -/
theorem shutdown_seen_by_attached :
    ¬ ∀ (before : List (Timed (PrimaryAction ℕ ℕ ℕ))) (t : ℤ) (w id : ℕ) (p : String),
      ShutdownUnseen t w id p (final AttachedPrimary.step before {}) := by
  intro h
  have hunseen := h [⟨0, .handled 1 (.init "rlf" (.slidingWindow none none) none)⟩,
    ⟨0, .handled 2 (.init "rlf" (.slidingWindow none none) none)⟩] 0 2 0 "rlf" 1 (by decide)
    (by decide)
  exact decrement_notices 0 1 2 0 "rlf" 0 (by decide) (hunseen _)

end RatelimitFlex
