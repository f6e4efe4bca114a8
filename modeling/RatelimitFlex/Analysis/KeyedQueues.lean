import RatelimitFlex.Analysis.QueueShutdown
import RatelimitFlex.Library.RecencyOrder
import RatelimitFlex.Program.KeyedRateLimiterQueue

/-!
# The queues of a pool

The pool hands each of its queues on to whoever asked for it, and an evicted queue has timers
and drain loops still out.  So a run of the pool is seen as the runs of its queues
(`Dispatched`): each has its own events, in their order, and does its own outputs, and all
that is known of a single queue holds of it in the pool.  What is left is the map: which keys
are in it (`usedOnce`), and what becomes of the queues that leave (`Evicted`, `Served`).
-/

set_option autoImplicit false

namespace RatelimitFlex

open Library

variable {κ ρ : Type} [DecidableEq κ] [DecidableEq ρ]

/-! ## One queue after its shutdown -/

namespace RateLimiterQueue

variable {s : RateLimiterQueue ρ}

/-- The queue is shut down, nothing waits in it and no `shutdown` waits for it. -/
structure Closed (s : RateLimiterQueue ρ) : Prop where
  shut : s.isShutdown = true
  empty : s.queue.Represents []
  done : s.shutdownWait = none

omit [DecidableEq ρ] in
/-- A run of code that leaves the list and the shutdown alone. -/
theorem Closed.keeps (h : Closed s) {r : RateLimiterQueue ρ × List (QueueOutput ρ)}
    (hqueue : KeepsQueue s r) (hsame : SameWait s r.1) : Closed r.1 ∧ Quiet r.2 :=
  ⟨⟨hsame.1.trans h.shut, hqueue.queue ▸ h.empty, hsame.2.1.trans h.done⟩, hqueue.quiet⟩

/-- A closed queue stays closed and settles nothing, whatever is called and whatever fires. -/
theorem Closed.step (h : Closed s) (o : QueueOptions) (e : QueueEvent ρ) :
    Closed (step o e s).1 ∧ Quiet (RateLimiterQueue.step o e s).2 := by
  cases e with
  | removeTokens key cost =>
    have hrefused : RateLimiterQueue.step o (.removeTokens key cost) s =
        (s, [.refused (.shutdownError "queue-shutdown")]) := by
      simp only [RateLimiterQueue.step, removeTokens, refusal, h.shut, if_true]
    rw [hrefused]
    exact ⟨h, rfl, rfl, rfl⟩
  | clear =>
    have hthrown : RateLimiterQueue.step o .clear s =
        (s, [.thrown (.shutdownError "queue-shutdown")]) := by
      simp only [RateLimiterQueue.step, clear, h.shut, if_true]
    rw [hthrown]
    exact ⟨h, rfl, rfl, rfl⟩
  | shutdown drainTimeoutMs reason =>
    have hagain : RateLimiterQueue.step o (.shutdown drainTimeoutMs reason) s =
        ({ s with shutdownQueueTimeoutUnlinks := 0 }, [.shutdownDone 0 0]) := by
      simp only [RateLimiterQueue.step, shutdown, h.shut, if_true]
    rw [hagain]
    exact ⟨⟨h.shut, h.empty, h.done⟩, rfl, rfl, rfl⟩
  | queueTimeout entry =>
    have hnot : ¬ s.queue.Found entry := fun hfound =>
      List.not_mem_nil (h.empty.found_iff.mp hfound)
    have hunlink : s.queue.unlink entry = (s.queue, false) :=
      LinkedList.unlink_of_not_found hnot
    simp only [RateLimiterQueue.step, queueTimeout, hunlink]
    split
    · exact ⟨⟨h.shut, h.empty, h.done⟩, rfl, rfl, rfl⟩
    · exact ⟨h, quiet_nil⟩
  | drainTimer => exact h.keeps (keepsQueue_fireDrainTimer o s) (sameWait_fireDrainTimer o s)
  | shutdownPoll =>
    have hnone : RateLimiterQueue.step o .shutdownPoll s = (s, []) := by
      simp only [RateLimiterQueue.step, shutdownPoll, h.done]
    rw [hnone]
    exact ⟨h, quiet_nil⟩
  | incremented l result =>
    have hhead : s.queue.head = none := by
      rw [h.empty.head]
      rfl
    simp only [RateLimiterQueue.step, incremented, hhead]
    split
    · rw [if_pos (by simp)]
      exact ⟨⟨h.shut, h.empty, h.done⟩, quiet_undoCalls o l _ _⟩
    · exact ⟨h, quiet_nil⟩
  | undone l now => exact h.keeps (keepsQueue_undone o l now s) (sameWait_undone o l now s)
  | storeRejected l =>
    exact h.keeps (keepsQueue_storeRejected l s) (sameWait_storeRejected l s)

/-- A `shutdown` that returns leaves the queue closed. -/
theorem closed_finishShutdown (o : QueueOptions) (lenAtStart : ℤ) (reason : String)
    {q : List (QueueEntry ρ)} (hq : s.queue.Represents q) (hshut : s.isShutdown = true) :
    Closed (s.finishShutdown o lenAtStart reason).1 :=
  ⟨hshut, hq.clear, rfl⟩

/-- Nothing but a call of `shutdown` shuts the queue down, and nothing undoes it. -/
theorem isShutdown_step (o : QueueOptions) (e : QueueEvent ρ) (s : RateLimiterQueue ρ) :
    (step o e s).1.isShutdown = (s.isShutdown || isShutdownCall e) := by
  have hdrain := fun s' : RateLimiterQueue ρ => (sameWait_drain o s').1
  cases e with
  | shutdown drainTimeoutMs reason =>
    simp only [step, shutdown, isShutdownCall, Bool.or_true]
    split
    · next h => exact h
    · split
      · exact hdrain _
      · exact hdrain _
  | removeTokens key cost =>
    simp only [step, removeTokens, isShutdownCall, Bool.or_false]
    split
    · rfl
    · exact hdrain _
  | clear =>
    simp only [step, clear, isShutdownCall, Bool.or_false]
    split <;> rfl
  | queueTimeout entry =>
    simp only [step, queueTimeout, isShutdownCall, Bool.or_false]
    split
    · split
      · rw [hdrain]
        split <;> rfl
      · rfl
    · rfl
  | drainTimer => exact ((sameWait_fireDrainTimer o s).1).trans (Bool.or_false _).symm
  | shutdownPoll =>
    simp only [step, shutdownPoll, isShutdownCall, Bool.or_false]
    split
    · split <;> exact hdrain s
    · rfl
  | incremented l result =>
    simp only [step, incremented, isShutdownCall, Bool.or_false]
    split
    · split
      · rfl
      · split
        · rfl
        · exact (sameWait_loopHead o l _).1
    · rfl
  | undone l now => exact ((sameWait_undone o l now s).1).trans (Bool.or_false _).symm
  | storeRejected l => exact ((sameWait_storeRejected l s).1).trans (Bool.or_false _).symm

/-- A queue that is shut down stays so. -/
theorem isShutdown_final (o : QueueOptions) (es : List (QueueEvent ρ)) (h : s.isShutdown = true) :
    (final (step o) es s).isShutdown = true := by
  induction es generalizing s with
  | nil => exact h
  | cons e es ih =>
    refine ih ?_
    rw [isShutdown_step, h, Bool.true_or]

/-- Once shut down, a queue is closed or its `shutdown` waits. -/
def Ends (s : RateLimiterQueue ρ) : Prop :=
  s.isShutdown = true → Closed s ∨ s.shutdownWait ≠ none

/-- A queue that has ended stays so. -/
theorem Ends.step (h : Ends s) {q : List (QueueEntry ρ)} (hq : s.queue.Represents q)
    (o : QueueOptions) (e : QueueEvent ρ) : Ends (step o e s).1 := by
  intro hshut
  have hclosed : ∀ (t : RateLimiterQueue ρ) (lenAtStart : ℤ) (reason : String),
      t.isShutdown = true → t.queue = s.queue →
        Closed ((drain o t).1.finishShutdown o lenAtStart reason).1 := by
    intro t lenAtStart reason ht hqueue
    refine closed_finishShutdown o lenAtStart reason (q := q) ?_ ((sameWait_drain o t).1.trans ht)
    rw [(keepsQueue_drain o t).queue, hqueue]
    exact hq
  cases hs : s.isShutdown with
  | true =>
    rcases h hs with hc | hw
    · exact Or.inl (hc.step o e).1
    · obtain ⟨⟨polls, lenAtStart, reason⟩, hw⟩ := Option.ne_none_iff_exists'.mp hw
      obtain ⟨-, -, hstill⟩ | ⟨-, hreturned⟩ := step_cases o e hq hs hw
      · obtain ⟨polls', hwait⟩ := hstill _ hw
        exact Or.inr (hwait ▸ Option.some_ne_none _)
      · rw [hreturned]
        exact Or.inl (hclosed s lenAtStart reason hs rfl)
  | false =>
    cases e with
    | shutdown drainTimeoutMs reason =>
      simp only [RateLimiterQueue.step, shutdown, hs, if_neg Bool.false_ne_true]
      split
      · exact Or.inr (Option.some_ne_none _)
      · exact Or.inl (hclosed _ s.queue.length reason rfl rfl)
    | _ =>
      rw [isShutdown_step, hs] at hshut
      exact Bool.noConfusion hshut

/-- It holds after any run of a queue. -/
theorem ends_final (o : QueueOptions) (es : List (QueueEvent ρ)) :
    Ends (final (step o) es ({} : RateLimiterQueue ρ)) := by
  induction es using List.reverseRecOn with
  | nil => exact fun hshut => Bool.noConfusion hshut
  | append_singleton es e ih =>
    obtain ⟨q, hlisted⟩ := (listed_init (κ := ρ) o).run es
    rw [final_append, final_cons, final_nil]
    exact ih.step hlisted.represents o e

end RateLimiterQueue

/-! ## What the pool has its queues do -/

/-- The outputs of queue `n`, in order. -/
def queueOutputs (n : ℕ) (outs : List (PoolOutput ρ)) : List (QueueOutput ρ) :=
  outs.filterMap fun
    | .queue k out => if k = n then some out else none
    | _ => none

/-- The events of queue `n`, in order. -/
def queueEvents (n : ℕ) (ds : List (ℕ × QueueEvent ρ)) : List (QueueEvent ρ) :=
  ds.filterMap fun d => if d.1 = n then some d.2 else none

/-- The keys that the pool was asked for, in order. -/
def usedKeys (es : List (PoolEvent κ ρ)) : List κ :=
  es.filterMap fun
    | .forKey queueKey => some queueKey
    | .removeTokens queueKey _ _ => some queueKey
    | _ => none

namespace KeyedRateLimiterQueue

section Dispatched

omit [DecidableEq ρ] in
/-- The outputs of one queue in two stretches. -/
theorem queueOutputs_append (n : ℕ) (outs outs' : List (PoolOutput ρ)) :
    queueOutputs n (outs ++ outs') = queueOutputs n outs ++ queueOutputs n outs' :=
  List.filterMap_append

omit [DecidableEq ρ] in
/-- Its events in two stretches. -/
theorem queueEvents_append (n : ℕ) (ds ds' : List (ℕ × QueueEvent ρ)) :
    queueEvents n (ds ++ ds') = queueEvents n ds ++ queueEvents n ds' :=
  List.filterMap_append

omit [DecidableEq ρ] in
/-- The outputs of a queue are its own. -/
theorem queueOutputs_map_self (n : ℕ) (outs : List (QueueOutput ρ)) :
    queueOutputs n (outs.map (.queue n)) = outs := by
  simp [queueOutputs, List.filterMap_map]

omit [DecidableEq ρ] in
/-- Those of another are not. -/
theorem queueOutputs_map_of_ne {k n : ℕ} (h : k ≠ n) (outs : List (QueueOutput ρ)) :
    queueOutputs n (outs.map (.queue k)) = [] := by
  simp [queueOutputs, List.filterMap_map, h]

omit [DecidableEq ρ] in
/-- A queue without events has none. -/
theorem queueEvents_eq_nil {n : ℕ} {ds : List (ℕ × QueueEvent ρ)} (h : ∀ d ∈ ds, d.1 ≠ n) :
    queueEvents n ds = [] :=
  List.filterMap_eq_nil_iff.mpr fun d hd => if_neg (h d hd)

/-- The queues `f` have become `f'`, each by its own events of `ds` in their order, and did
`outs` meanwhile. -/
structure Dispatched (o : QueueOptions) (ds : List (ℕ × QueueEvent ρ))
    (f f' : ℕ → RateLimiterQueue ρ) (outs : List (PoolOutput ρ)) : Prop where
  queues : ∀ n, f' n = final (RateLimiterQueue.step o) (queueEvents n ds) (f n)
  outs : ∀ n, queueOutputs n outs = RateLimiterQueue.runOutputs o (queueEvents n ds) (f n)

variable {o : QueueOptions} {ds ds' : List (ℕ × QueueEvent ρ)}
  {f f' f'' : ℕ → RateLimiterQueue ρ} {outs outs' : List (PoolOutput ρ)}

/-- What is not of a queue leaves the queues alone. -/
theorem dispatched_nil (o : QueueOptions) (f : ℕ → RateLimiterQueue ρ)
    (h : ∀ n, queueOutputs n outs = []) : Dispatched o [] f f outs :=
  ⟨fun _ => rfl, h⟩

/-- Handing an event to a queue is one step of that queue. -/
theorem dispatched_dispatch (o : QueueOptions) (n : ℕ) (e : QueueEvent ρ)
    (s : KeyedRateLimiterQueue κ ρ) :
    Dispatched o [(n, e)] s.queues (dispatch o n e s).1.queues (dispatch o n e s).2 := by
  constructor
  · intro k
    by_cases hk : n = k
    · subst hk
      simp [dispatch, queueEvents]
    · simp [dispatch, queueEvents, hk, Function.update_of_ne (Ne.symm hk)]
  · intro k
    by_cases hk : n = k
    · subst hk
      rw [dispatch, queueOutputs_map_self]
      simp [queueEvents, RateLimiterQueue.runOutputs]
    · rw [dispatch, queueOutputs_map_of_ne hk]
      simp [queueEvents, hk, RateLimiterQueue.runOutputs]

/-- What is dispatched twice is dispatched in all. -/
theorem Dispatched.append (h : Dispatched o ds f f' outs) (h' : Dispatched o ds' f' f'' outs') :
    Dispatched o (ds ++ ds') f f'' (outs ++ outs') := by
  constructor
  · intro n
    rw [queueEvents_append, final_append, ← h.queues n]
    exact h'.queues n
  · intro n
    rw [queueOutputs_append, queueEvents_append, h.outs n, h'.outs n, h.queues n]
    simp only [RateLimiterQueue.runOutputs, outputs_append, List.flatten_append]

/-- Outputs that are not of a queue, at the end. -/
theorem Dispatched.concat (h : Dispatched o ds f f' outs) (h' : ∀ n, queueOutputs n outs' = []) :
    Dispatched o ds f f' (outs ++ outs') := by
  have happend := h.append (dispatched_nil o f' h')
  rwa [List.append_nil] at happend

/-- A queue that was shut down stays so. -/
theorem Dispatched.isShutdown (h : Dispatched o ds f f' outs) {n : ℕ}
    (hn : (f n).isShutdown = true) : (f' n).isShutdown = true := by
  rw [h.queues n]
  exact RateLimiterQueue.isShutdown_final o _ hn

/-- A queue that is told to shut down is shut down. -/
theorem Dispatched.isShutdown_of_mem (h : Dispatched o ds f f' outs) {n : ℕ}
    {drainTimeoutMs : ℤ} {reason : String} (hn : (n, .shutdown drainTimeoutMs reason) ∈ ds) :
    (f' n).isShutdown = true := by
  obtain ⟨a, b, rfl⟩ := List.append_of_mem hn
  have hcons : queueEvents n ((n, .shutdown drainTimeoutMs reason) :: b) =
      .shutdown drainTimeoutMs reason :: queueEvents n b := by
    simp [queueEvents]
  rw [h.queues n, queueEvents_append, final_append, hcons, final_cons]
  refine RateLimiterQueue.isShutdown_final o _ ?_
  rw [RateLimiterQueue.isShutdown_step, RateLimiterQueue.isShutdownCall, Bool.or_true]

end Dispatched

/-! ## Making room -/

section Room

variable {o : QueueOptions} {m : ℕ} {s : KeyedRateLimiterQueue κ ρ}

/-- The events of an eviction. -/
def evictions (ns : List ℕ) : List (ℕ × QueueEvent ρ) := ns.map fun n => (n, .shutdown 0 "shutdown")

/-- How many keys go before a new one comes. -/
def surplus (m : ℕ) (s : KeyedRateLimiterQueue κ ρ) : ℕ := if m = 0 then 0 else s.map.size + 1 - m

/-- The oldest keys are gone, and their queues were told to shut down. -/
structure Evicted (o : QueueOptions) (j : ℕ) (s : KeyedRateLimiterQueue κ ρ)
    (r : KeyedRateLimiterQueue κ ρ × List (PoolOutput ρ)) : Prop where
  entries : r.1.map.entries = s.map.entries.drop j
  dispatched : Dispatched o (evictions (s.live.take j)) s.queues r.1.queues r.2
  created : r.1.created = s.created
  isShutdown : r.1.isShutdown = s.isShutdown
  shutdownWait : r.1.shutdownWait = s.shutdownWait

/-- Evicting none changes nothing. -/
theorem evicted_zero (s : KeyedRateLimiterQueue κ ρ) : Evicted o 0 s (s, []) where
  entries := rfl
  dispatched := dispatched_nil o s.queues fun _ => rfl
  created := rfl
  isShutdown := rfl
  shutdownWait := rfl

/-- Making room evicts as many as are too many. -/
theorem evicted_makeRoom (o : QueueOptions) (m : ℕ) {fuel : ℕ} (hfuel : s.map.size ≤ fuel) :
    Evicted o (surplus m s) s (makeRoom o m fuel s) := by
  induction fuel generalizing s with
  | zero =>
    have hzero : surplus m s = 0 := by
      unfold surplus
      split <;> omega
    rw [hzero]
    exact evicted_zero s
  | succ fuel ih =>
    unfold makeRoom
    split
    · next hfull =>
      obtain ⟨hm, hsize⟩ := hfull
      cases hentries : s.map.entries with
      | nil =>
        have hnil : s.map.size = 0 := by rw [InsertionMap.size, hentries, List.length_nil]
        omega
      | cons e rest =>
        have hevict : s.evictOldest o =
            dispatch o e.2 (.shutdown 0 "shutdown") { s with map := s.map.erase e.1 } := by
          rw [evictOldest, hentries]
        have herase := InsertionMap.entries_erase_head hentries
        have hlength : InsertionMap.size (s.map.erase e.1) + 1 = s.map.size := by
          rw [InsertionMap.size, herase, InsertionMap.size, hentries, List.length_cons]
        have hrest := ih (s := (s.evictOldest o).1) (by
          rw [hevict]
          show InsertionMap.size (s.map.erase e.1) ≤ fuel
          omega)
        have hsurplus : surplus m s = surplus m (s.evictOldest o).1 + 1 := by
          rw [hevict]
          show surplus m s = (if m = 0 then 0 else InsertionMap.size (s.map.erase e.1) + 1 - m) + 1
          rw [surplus, if_neg (by omega), if_neg (by omega)]
          omega
        have hhead := dispatched_dispatch o e.2 (.shutdown 0 "shutdown")
          { s with map := s.map.erase e.1 }
        have hlive : s.live = e.2 :: (s.evictOldest o).1.live := by
          rw [hevict]
          show s.live = e.2 :: (s.map.erase e.1).entries.map Sigma.snd
          rw [herase, live, hentries, List.map_cons]
        rw [← hevict] at hhead
        refine ⟨?_, ?_, hrest.created.trans ?_, hrest.isShutdown.trans ?_,
          hrest.shutdownWait.trans ?_⟩
        · rw [hrest.entries, hsurplus, hevict]
          show List.drop _ (s.map.erase e.1).entries = _
          rw [herase, hentries, List.drop_succ_cons]
        · rw [hsurplus, hlive, List.take_succ_cons]
          exact hhead.append hrest.dispatched
        · rw [hevict]
          rfl
        · rw [hevict]
          rfl
        · rw [hevict]
          rfl
    · next hroom =>
      have hzero : surplus m s = 0 := by
        unfold surplus
        split <;> omega
      rw [hzero]
      exact evicted_zero s

end Room

/-! ## The queues of the pool -/

section Pool

variable {o : QueueOptions} {m : ℕ} {s : KeyedRateLimiterQueue κ ρ}

/-- One use of a key, as the order of the keys sees it. -/
def usedOnce (m : ℕ) (k : κ) (keys : List κ) : List κ :=
  if m = 0 then keys.erase k ++ [k] else RecencyOrder.touch m k keys

/-- The keys in use are those last used. -/
theorem mostRecent_usedOnce (m : ℕ) (uses : List κ) (k : κ) :
    RecencyOrder.mostRecent m (uses ++ [k]) = usedOnce m k (RecencyOrder.mostRecent m uses) := by
  unfold usedOnce
  split
  · next h =>
    subst h
    exact RecencyOrder.mostRecent_zero_concat uses k
  · exact RecencyOrder.mostRecent_concat (by omega) uses k

/-- What `queueFor` does: the key is the latest; some queues were told to shut down, and those
and the ones in the pool are the ones that were there, with a new one unless the key had one. -/
structure Served (o : QueueOptions) (m : ℕ) (k : κ) (s : KeyedRateLimiterQueue κ ρ)
    (r : KeyedRateLimiterQueue κ ρ × List (PoolOutput ρ) × ℕ) (gone : List ℕ) : Prop where
  keys : r.1.map.keys = usedOnce m k s.map.keys
  dispatched : Dispatched o (evictions gone) s.queues r.1.queues r.2.1
  created : s.created ≤ r.1.created
  live : (gone ++ r.1.live).Perm (s.live ++ List.range' s.created (r.1.created - s.created))
  served : r.2.2 ∈ r.1.live
  isShutdown : r.1.isShutdown = s.isShutdown
  shutdownWait : r.1.shutdownWait = s.shutdownWait

/-- The queue for a key is the one it has, or a new one after making room. -/
theorem served_queueFor (o : QueueOptions) (m : ℕ) (k : κ) (s : KeyedRateLimiterQueue κ ρ) :
    ∃ gone, Served o m k s (s.queueFor o m k) gone := by
  unfold queueFor
  split
  · next n hn =>
    have hmem : k ∈ s.map.keys := AList.mem_keys.mp (AList.lookup_isSome.mp (hn ▸ rfl))
    have htouch := InsertionMap.entries_touch hn
    have hkeys : (s.map.touch k).keys = s.map.keys.erase k ++ [k] := by
      rw [AList.keys, htouch, List.keys_append, List.keys_kerase]
      rfl
    have hperm : ((s.map.touch k).entries.map Sigma.snd).Perm s.live := by
      obtain ⟨v, l₁, l₂, hl₁, hl, herase⟩ := List.exists_of_kerase hmem
      have hv : v = n := by
        have hlookup : s.map.entries.dlookup k = some n := hn
        rw [hl, List.dlookup_append, List.dlookup_eq_none.mpr hl₁, Option.none_or,
          List.dlookup_cons_eq] at hlookup
        exact Option.some.inj hlookup
      subst hv
      rw [htouch, herase, live, hl]
      refine List.Perm.map _ ?_
      rw [List.append_assoc]
      exact List.Perm.append_left l₁ (List.perm_append_singleton _ l₂)
    refine ⟨[], ?_, dispatched_nil o s.queues fun _ => rfl, le_rfl, ?_, ?_, rfl, rfl⟩
    · rw [hkeys, usedOnce]
      split
      · rfl
      · exact (RecencyOrder.touch_of_mem hmem).symm
    · rw [Nat.sub_self, List.range'_zero, List.append_nil, List.nil_append]
      exact hperm
    · show n ∈ (s.map.touch k).entries.map Sigma.snd
      rw [htouch, List.map_append]
      exact List.mem_append_right _ List.mem_cons_self
  · next hn =>
    have hnot : k ∉ s.map := AList.lookup_eq_none.mp hn
    have hroom := evicted_makeRoom (s := s) o m le_rfl
    generalize makeRoom o m s.map.size s = r at hroom
    have hkeys : r.1.map.keys = s.map.keys.drop (surplus m s) := by
      rw [AList.keys, hroom.entries]
      exact List.map_drop
    have hlive : r.1.live = s.live.drop (surplus m s) := by
      rw [live, hroom.entries]
      exact List.map_drop
    have hnew : k ∉ r.1.map := by
      intro hmem
      rw [AList.mem_keys, hkeys] at hmem
      exact hnot (AList.mem_keys.mpr (List.mem_of_mem_drop hmem))
    have hset := InsertionMap.entries_set_of_notMem r.1.created hnew
    refine ⟨s.live.take (surplus m s), ?_, hroom.dispatched, ?_, ?_, ?_, hroom.isShutdown,
      hroom.shutdownWait⟩
    · rw [AList.keys, hset, List.keys_append]
      show r.1.map.keys ++ [k] = _
      rw [hkeys, usedOnce]
      split
      · next hm =>
        rw [surplus, if_pos hm, List.drop_zero, List.erase_of_not_mem (AList.mem_keys.not.mp hnot)]
      · next hm =>
        rw [RecencyOrder.touch_of_notMem (AList.mem_keys.not.mp hnot), surplus, if_neg hm,
          InsertionMap.size, AList.keys, List.keys, List.length_map]
    · show s.created ≤ r.1.created + 1
      rw [hroom.created]
      exact Nat.le_succ _
    · show (_ ++ (r.1.map.set k r.1.created).entries.map Sigma.snd).Perm _
      rw [hset, List.map_append, ← List.append_assoc]
      show ((s.live.take (surplus m s) ++ r.1.live) ++ [r.1.created]).Perm
        (s.live ++ List.range' s.created (r.1.created + 1 - s.created))
      rw [hlive, List.take_append_drop, hroom.created, Nat.add_sub_cancel_left]
      exact List.Perm.refl _
    · show r.1.created ∈ (r.1.map.set k r.1.created).entries.map Sigma.snd
      rw [hset, List.map_append]
      exact List.mem_append_right _ List.mem_cons_self

/-- The queues that go and those in the pool are different ones. -/
theorem Served.nodup {k : κ} {r : KeyedRateLimiterQueue κ ρ × List (PoolOutput ρ) × ℕ}
    {gone : List ℕ} (h : Served o m k s r gone) (hnodup : s.live.Nodup)
    (hlt : ∀ n ∈ s.live, n < s.created) : (gone ++ r.1.live).Nodup := by
  rw [h.live.nodup_iff, List.nodup_append]
  refine ⟨hnodup, List.nodup_range', fun a ha b hb => ?_⟩
  exact Nat.ne_of_lt ((hlt a ha).trans_le (List.mem_range'_1.mp hb).1)

/-- Queues are numbered as they are created. -/
theorem Served.lt {k : κ} {r : KeyedRateLimiterQueue κ ρ × List (PoolOutput ρ) × ℕ}
    {gone : List ℕ} (h : Served o m k s r gone) (hlt : ∀ n ∈ s.live, n < s.created) :
    ∀ n ∈ gone ++ r.1.live, n < r.1.created := by
  intro n hn
  have hcreated := h.created
  rcases List.mem_append.mp (h.live.subset hn) with hn | hn
  · exact (hlt n hn).trans_le hcreated
  · have hrange := (List.mem_range'_1.mp hn).2
    omega

/-- What holds of the pool after any run: the keys in it are the most recently used ones, the
queues it has left behind are shut down, and every queue ran on its own events alone. -/
structure Pooled (o : QueueOptions) (m : ℕ) (uses : List κ) (ds : List (ℕ × QueueEvent ρ))
    (outs : List (PoolOutput ρ)) (s : KeyedRateLimiterQueue κ ρ) : Prop where
  keys : s.isShutdown = false → s.map.keys = RecencyOrder.mostRecent m uses
  emptied : s.isShutdown = true → s.map.entries = []
  nodup : s.live.Nodup
  lt : ∀ n ∈ s.live, n < s.created
  shut : ∀ n < s.created, n ∉ s.live → (s.queues n).isShutdown = true
  dispatched : Dispatched o ds (fun _ => {}) s.queues outs
  known : ∀ d ∈ ds, d.1 < s.created

variable {uses : List κ} {ds : List (ℕ × QueueEvent ρ)} {outs : List (PoolOutput ρ)}

/-- The pool starts empty. -/
theorem pooled_init (o : QueueOptions) (m : ℕ) :
    Pooled o m [] [] [] ({} : KeyedRateLimiterQueue κ ρ) where
  keys _ := by
    unfold RecencyOrder.mostRecent
    split
    · rfl
    · exact (List.rtake_nil (α := κ) m).symm
  emptied _ := rfl
  nodup := List.nodup_nil
  lt n hn := absurd hn List.not_mem_nil
  shut n hn := absurd hn (Nat.not_lt_zero n)
  dispatched := dispatched_nil o _ fun _ => rfl
  known d hd := absurd hd List.not_mem_nil

/-- A run of code that leaves the map alone. -/
theorem Pooled.keeps (h : Pooled o m uses ds outs s) {s' : KeyedRateLimiterQueue κ ρ}
    {ds' : List (ℕ × QueueEvent ρ)} {outs' : List (PoolOutput ρ)}
    (hd : Dispatched o ds' s.queues s'.queues outs') (hds : ∀ d ∈ ds', d.1 < s.created)
    (hmap : s'.map = s.map) (hcreated : s'.created = s.created)
    (hshut : s'.isShutdown = s.isShutdown) :
    Pooled o m uses (ds ++ ds') (outs ++ outs') s' := by
  have hlive : s'.live = s.live := by rw [live, hmap, live]
  refine ⟨?_, ?_, ?_, ?_, ?_, h.dispatched.append hd, ?_⟩
  · rw [hshut, hmap]
    exact h.keys
  · rw [hshut, hmap]
    exact h.emptied
  · rw [hlive]
    exact h.nodup
  · rw [hlive, hcreated]
    exact h.lt
  · rw [hlive, hcreated]
    exact fun n hn hnot => hd.isShutdown (h.shut n hn hnot)
  · rw [hcreated]
    exact fun d hmem => (List.mem_append.mp hmem).elim (h.known d) (hds d)

/-- A key more is used. -/
theorem Pooled.serves (h : Pooled o m uses ds outs s) (hopen : s.isShutdown = false) (k : κ) :
    ∃ ds', Pooled o m (uses ++ [k]) (ds ++ ds') (outs ++ (s.queueFor o m k).2.1)
        (s.queueFor o m k).1 ∧ (s.queueFor o m k).2.2 ∈ (s.queueFor o m k).1.live := by
  obtain ⟨gone, hserved⟩ := served_queueFor o m k s
  generalize s.queueFor o m k = r at hserved
  have hopen' : r.1.isShutdown = false := hserved.isShutdown.trans hopen
  have hnodup := hserved.nodup h.nodup h.lt
  have hlt := hserved.lt h.lt
  refine ⟨evictions gone, ⟨?_, ?_, ?_, ?_, ?_, h.dispatched.append hserved.dispatched, ?_⟩,
    hserved.served⟩
  · rw [hserved.keys, h.keys hopen]
    exact fun _ => (mostRecent_usedOnce m uses k).symm
  · rw [hopen']
    exact fun hshut => Bool.noConfusion hshut
  · exact (List.nodup_append.mp hnodup).2.1
  · exact fun n hn => hlt n (List.mem_append_right _ hn)
  · intro n hn hnot
    by_cases hgone : n ∈ gone
    · exact hserved.dispatched.isShutdown_of_mem
        (List.mem_map.mpr ⟨n, hgone, rfl⟩ : (n, QueueEvent.shutdown 0 "shutdown") ∈ _)
    · have hneither : n ∉ s.live ++ List.range' s.created (r.1.created - s.created) := fun hmem =>
        (List.mem_append.mp (hserved.live.symm.subset hmem)).elim hgone hnot
      rw [List.mem_append, not_or, List.mem_range'_1] at hneither
      have hcreated := hserved.created
      exact hserved.dispatched.isShutdown (h.shut n (by omega) hneither.1)
  · intro d hd
    rcases List.mem_append.mp hd with hd | hd
    · exact (h.known d hd).trans_le hserved.created
    · obtain ⟨n, hn, rfl⟩ := List.mem_map.mp hd
      exact hlt n (List.mem_append_left _ hn)

/-- The calls of a pool's `shutdown`. -/
def shutdowns (drainTimeoutMs : ℤ) (reason : String) (ns : List ℕ) :
    List (ℕ × QueueEvent ρ) :=
  ns.map fun n => (n, .shutdown drainTimeoutMs reason)

/-- The rest of the pool while its queues are told to shut down. -/
structure Called (o : QueueOptions) (drainTimeoutMs : ℤ) (reason : String) (ns : List ℕ)
    (s : KeyedRateLimiterQueue κ ρ)
    (r : KeyedRateLimiterQueue κ ρ × List (PoolOutput ρ) × PoolShutdown) : Prop where
  dispatched : Dispatched o (shutdowns drainTimeoutMs reason ns) s.queues r.1.queues r.2.1
  map : r.1.map = s.map
  created : r.1.created = s.created
  isShutdown : r.1.isShutdown = s.isShutdown

/-- A shutdown calls every queue of its list once. -/
theorem called_shutdownQueues (o : QueueOptions) (drainTimeoutMs : ℤ) (reason : String)
    (ns : List ℕ) (w : PoolShutdown) (s : KeyedRateLimiterQueue κ ρ) :
    Called o drainTimeoutMs reason ns s (shutdownQueues o drainTimeoutMs reason ns w s) := by
  induction ns generalizing w s with
  | nil => exact ⟨dispatched_nil o s.queues fun _ => rfl, rfl, rfl, rfl⟩
  | cons n ns ih =>
    have hrest := ih (w.settle n ((s.queues n).step o (.shutdown drainTimeoutMs reason)).2)
      (dispatch o n (.shutdown drainTimeoutMs reason) s).1
    exact ⟨(dispatched_dispatch o n _ s).append hrest.dispatched, hrest.map, hrest.created,
      hrest.isShutdown⟩

/-- The map and the flags of the pool stay. -/
structure SamePool (s s' : KeyedRateLimiterQueue κ ρ) : Prop where
  map : s'.map = s.map
  created : s'.created = s.created
  isShutdown : s'.isShutdown = s.isShutdown

/-- Waiting, or returning, is no matter of the queues. -/
theorem dispatched_awaitAll {f : ℕ → RateLimiterQueue ρ} (w : PoolShutdown)
    (h : Dispatched o ds f s.queues outs) :
    Dispatched o ds f (awaitAll w s).1.queues (outs ++ (awaitAll w s).2) ∧
      SamePool s (awaitAll w s).1 := by
  unfold awaitAll
  split
  · exact ⟨h.concat fun _ => rfl, rfl, rfl, rfl⟩
  · exact ⟨h.concat fun _ => rfl, rfl, rfl, rfl⟩

/-- The shutdown of a pool keeps its account. -/
theorem Pooled.shutdown (h : Pooled o m uses ds outs s) (drainTimeoutMs : ℤ) (reason : String) :
    ∃ ds', Pooled o m uses (ds ++ ds') (outs ++ (s.shutdown o drainTimeoutMs reason).2)
      (s.shutdown o drainTimeoutMs reason).1 := by
  simp only [KeyedRateLimiterQueue.shutdown]
  split
  · exact ⟨[], h.keeps (dispatched_nil o s.queues fun _ => rfl)
      (fun d hd => absurd hd List.not_mem_nil) rfl rfl rfl⟩
  · have hcalled := called_shutdownQueues o drainTimeoutMs reason s.live { awaiting := s.live }
      ({ s with isShutdown := true, map := ∅ } : KeyedRateLimiterQueue κ ρ)
    generalize shutdownQueues o drainTimeoutMs reason s.live { awaiting := s.live }
      ({ s with isShutdown := true, map := ∅ } : KeyedRateLimiterQueue κ ρ) = r at hcalled ⊢
    obtain ⟨hawait, hsame⟩ := dispatched_awaitAll r.2.2 hcalled.dispatched
    have hshut := hsame.isShutdown.trans hcalled.isShutdown
    have hmap := hsame.map.trans hcalled.map
    have hcreated := hsame.created.trans hcalled.created
    have hlive : (awaitAll r.2.2 r.1).1.live = [] := by
      rw [live, hmap]
      rfl
    refine ⟨shutdowns drainTimeoutMs reason s.live, ?_, ?_, ?_, ?_, ?_,
      h.dispatched.append hawait, ?_⟩
    · rw [hshut]
      exact fun hopen => Bool.noConfusion hopen
    · exact fun _ => congrArg AList.entries hmap
    · rw [hlive]
      exact List.nodup_nil
    · rw [hlive]
      exact fun n hn => absurd hn List.not_mem_nil
    · intro n hn _
      rw [hcreated] at hn
      by_cases hmem : n ∈ s.live
      · exact hawait.isShutdown_of_mem
          (List.mem_map.mpr ⟨n, hmem, rfl⟩ : (n, QueueEvent.shutdown drainTimeoutMs reason) ∈ _)
      · exact hawait.isShutdown (h.shut n hn hmem)
    · rw [hcreated]
      intro d hd
      rcases List.mem_append.mp hd with hd | hd
      · exact h.known d hd
      · obtain ⟨n, hn, rfl⟩ := List.mem_map.mp hd
        exact h.lt n hn

/-- An event of a queue. -/
theorem queueEvent_cases (o : QueueOptions) (n : ℕ) (e : QueueEvent ρ)
    (s : KeyedRateLimiterQueue κ ρ) :
    ∃ ds, Dispatched o ds s.queues (s.queueEvent o n e).1.queues (s.queueEvent o n e).2 ∧
      (∀ d ∈ ds, d = (n, e) ∧ n < s.created) ∧ SamePool s (s.queueEvent o n e).1 := by
  have hdispatch := dispatched_dispatch o n e s
  unfold queueEvent
  split
  · next hn =>
    have hknown : ∀ d ∈ [(n, e)], d = (n, e) ∧ n < s.created :=
      fun d hd => ⟨List.mem_singleton.mp hd, hn⟩
    refine ⟨[(n, e)], ?_⟩
    split
    · split
      · obtain ⟨hawait, hsame⟩ := dispatched_awaitAll _ hdispatch
        exact ⟨hawait, hknown, hsame.map, hsame.created, hsame.isShutdown⟩
      · exact ⟨hdispatch, hknown, rfl, rfl, rfl⟩
    · exact ⟨hdispatch, hknown, rfl, rfl, rfl⟩
  · exact ⟨[], dispatched_nil o s.queues fun _ => rfl,
      fun d hd => absurd hd List.not_mem_nil, rfl, rfl, rfl⟩

/-- The step lemma. -/
theorem Pooled.step (h : Pooled o m uses ds outs s) (e : PoolEvent κ ρ) :
    ∃ ds', Pooled o m (uses ++ usedKeys [e]) (ds ++ ds') (outs ++ (step o m e s).2)
      (step o m e s).1 := by
  have hsame : ∀ (k : List κ) (outs' : List (PoolOutput ρ)), s.isShutdown = true →
      (∀ n, queueOutputs n outs' = []) → Pooled o m (uses ++ k) (ds ++ []) (outs ++ outs') s := by
    intro k outs' hshut houts
    have hkeep := h.keeps (dispatched_nil o s.queues houts)
      (fun d hd => absurd hd List.not_mem_nil) rfl rfl rfl
    exact { hkeep with keys := fun hopen => absurd (hshut.symm.trans hopen) Bool.noConfusion }
  cases e with
  | forKey k =>
    simp only [KeyedRateLimiterQueue.step, forKey]
    split
    · next hshut => exact ⟨[], hsame _ _ hshut fun _ => rfl⟩
    · next hopen =>
      obtain ⟨ds', hserved, -⟩ := h.serves (by simpa using hopen) k
      have hreturned : ∀ n, queueOutputs n
          ([.returned (s.queueFor o m k).2.2] : List (PoolOutput ρ)) = [] := fun _ => rfl
      have hlast := hserved.keeps (dispatched_nil o _ hreturned)
        (fun d hd => absurd hd List.not_mem_nil) rfl rfl rfl
      rw [List.append_nil, List.append_assoc] at hlast
      exact ⟨ds', hlast⟩
  | removeTokens k key cost =>
    simp only [KeyedRateLimiterQueue.step, removeTokens]
    split
    · next hshut => exact ⟨[], hsame _ _ hshut fun _ => rfl⟩
    · next hopen =>
      obtain ⟨ds', hserved, hn⟩ := h.serves (by simpa using hopen) k
      have hlast := hserved.keeps
        (dispatched_dispatch o (s.queueFor o m k).2.2 (.removeTokens key cost)
          (s.queueFor o m k).1)
        (fun d hd => List.mem_singleton.mp hd ▸ hserved.lt _ hn) rfl rfl rfl
      rw [List.append_assoc, List.append_assoc] at hlast
      exact ⟨_, hlast⟩
  | shutdown drainTimeoutMs reason =>
    rw [show usedKeys [PoolEvent.shutdown drainTimeoutMs reason] = ([] : List κ) from rfl,
      List.append_nil]
    exact h.shutdown drainTimeoutMs reason
  | queue n e =>
    rw [show usedKeys [PoolEvent.queue n e] = ([] : List κ) from rfl, List.append_nil]
    obtain ⟨ds', hd, hknown, hsame⟩ := queueEvent_cases o n e s
    refine ⟨ds', h.keeps hd (fun d hmem => ?_) hsame.map hsame.created hsame.isShutdown⟩
    obtain ⟨rfl, hn⟩ := hknown d hmem
    exact hn

/-- What the pool does in a run, in order. -/
def runOutputs (o : QueueOptions) (m : ℕ) (es : List (PoolEvent κ ρ))
    (s : KeyedRateLimiterQueue κ ρ) : List (PoolOutput ρ) :=
  (outputs (step o m) es s).flatten

/-- **So does every run of pool and queue events.** -/
theorem Pooled.run (h : Pooled o m uses ds outs s) (es : List (PoolEvent κ ρ)) :
    ∃ ds', Pooled o m (uses ++ usedKeys es) (ds ++ ds') (outs ++ runOutputs o m es s)
      (final (KeyedRateLimiterQueue.step o m) es s) := by
  induction es generalizing uses ds outs s with
  | nil =>
    have hnil : runOutputs o m ([] : List (PoolEvent κ ρ)) s = [] := rfl
    refine ⟨[], ?_⟩
    rw [hnil, List.append_nil, List.append_nil, show usedKeys ([] : List (PoolEvent κ ρ)) =
      ([] : List κ) from rfl, List.append_nil]
    exact h
  | cons e es ih =>
    obtain ⟨ds₁, h₁⟩ := h.step e
    obtain ⟨ds₂, h₂⟩ := ih h₁
    refine ⟨ds₁ ++ ds₂, ?_⟩
    have huses : usedKeys (e :: es) = usedKeys [e] ++ usedKeys es :=
      List.filterMap_append (l := [e])
    rw [huses, ← List.append_assoc, ← List.append_assoc, runOutputs, outputs_cons,
      List.flatten_cons, ← List.append_assoc]
    exact h₂

end Pool

end KeyedRateLimiterQueue

/-! ## Main result -/

/-- **The pool keeps the queues of the most recent keys, and lets no promise go.**  After any
run of calls of the pool, calls of the queues it has handed out, timers and store answers, the
keys in the pool are the `maxKeys` last used ones in the order of their last use, none once
the pool is shut down; each has a queue of its own, and every other queue ever created is shut
down.  No promise of any queue is settled twice, and one still open is that of a queue in the
pool, or of one whose own `shutdown` waits for it to drain.
SOURCE: src/queue/KeyedRateLimiterQueue.ts:76-149, src/queue/RateLimiterQueue.ts:222-273, 360-453 -/
theorem pool_keeps_recent_queues (o : QueueOptions) (maxKeys : ℕ)
    (es : List (PoolEvent κ ρ)) :
    let s := final (KeyedRateLimiterQueue.step o maxKeys) es
      ({} : KeyedRateLimiterQueue κ ρ)
    let outs := KeyedRateLimiterQueue.runOutputs o maxKeys es ({} : KeyedRateLimiterQueue κ ρ)
    (s.map.keys =
        if s.isShutdown then [] else RecencyOrder.mostRecent maxKeys (usedKeys es)) ∧
      s.live.Nodup ∧ (∀ n ∈ s.live, n < s.created) ∧
      (∀ n < s.created, n ∉ s.live → (s.queues n).isShutdown = true) ∧
      ∀ n, (settledEntries (queueOutputs n outs)).Nodup ∧
        (∀ e ∈ settledEntries (queueOutputs n outs), e ∈ acceptedEntries (queueOutputs n outs)) ∧
        ∀ e ∈ acceptedEntries (queueOutputs n outs), e ∉ settledEntries (queueOutputs n outs) →
          n ∈ s.live ∨ (s.queues n).shutdownWait ≠ none := by
  intro s outs
  obtain ⟨ds, h⟩ := (KeyedRateLimiterQueue.pooled_init (κ := κ) (ρ := ρ) o maxKeys).run es
  rw [List.nil_append, List.nil_append, List.nil_append] at h
  refine ⟨?_, h.nodup, h.lt, h.shut, fun n => ?_⟩
  · cases hshut : s.isShutdown with
    | true => exact congrArg List.keys (h.emptied hshut)
    | false => exact h.keys hshut
  · obtain ⟨q, hlisted⟩ := (RateLimiterQueue.listed_init (κ := ρ) o).run (queueEvents n ds)
    have houts := h.dispatched.outs n
    have hqueue := h.dispatched.queues n
    rw [List.nil_append, ← houts, ← hqueue] at hlisted
    have hends := RateLimiterQueue.ends_final o (queueEvents n ds)
    rw [← hqueue] at hends
    have hnodup := hlisted.accounted.nodup_iff.mpr hlisted.nodup
    refine ⟨(List.nodup_append.mp hnodup).1, fun e he =>
      hlisted.accounted.subset (List.mem_append_left q he), fun e he hopen => ?_⟩
    by_contra hnot
    obtain ⟨hlive, hwait⟩ := not_or.mp hnot
    have hq : e ∈ q :=
      (List.mem_append.mp (hlisted.accounted.symm.subset he)).resolve_left hopen
    by_cases hn : n < s.created
    · rcases hends (h.shut n hn hlive) with hclosed | hwaits
      · have hnil := hlisted.represents.nodes_eq.symm.trans hclosed.empty.nodes_eq
        rw [hnil] at hq
        exact List.not_mem_nil hq
      · exact hwait hwaits
    · -- a queue that was never created has done nothing
      have hnone : queueEvents n ds = [] := KeyedRateLimiterQueue.queueEvents_eq_nil fun d hd =>
        Nat.ne_of_lt ((h.known d hd).trans_le (Nat.le_of_not_lt hn))
      rw [houts, hnone] at he
      exact List.not_mem_nil he

end RatelimitFlex
