import RatelimitFlex.Analysis.KeyedQueues

/-!
# The shutdown of a pool

`shutdown` of the pool is `shutdown` of every queue in it, and returns when the last of those
does.  While it waits, a queue of the pool is draining or has returned its counts (`Settling`);
the sums that the pool keeps are those of the queues that have returned (`Ledger`).
-/

set_option autoImplicit false

namespace RatelimitFlex

open Library

variable {κ ρ : Type} [DecidableEq κ] [DecidableEq ρ]

/-! ## One queue -/

namespace RateLimiterQueue

variable {s : RateLimiterQueue ρ}

/-- An event by which no `shutdown` comes to wait. -/
def waitless {κ : Type} : QueueEvent κ → Bool
  | .shutdown drainTimeoutMs _ => decide (drainTimeoutMs ≤ 0)
  | _ => true

/-- No `shutdown` waits after such an event when none did before. -/
theorem shutdownWait_step (o : QueueOptions) {e : QueueEvent ρ} (he : waitless e = true)
    (h : s.shutdownWait = none) : (step o e s).1.shutdownWait = none := by
  have hdrain := fun s' : RateLimiterQueue ρ => (sameWait_drain o s').2.1
  cases e with
  | shutdown drainTimeoutMs reason =>
    have hzero : ¬ (0 < drainTimeoutMs ∧
        0 < (drain o { s with shutdownQueueTimeoutUnlinks := 0, isShutdown := true }).1.queue.length) :=
      fun hpos => absurd hpos.1 (not_lt.mpr (of_decide_eq_true he))
    simp only [step, shutdown, if_neg hzero]
    split
    · exact h
    · rfl
  | removeTokens key cost =>
    simp only [step, removeTokens]
    split
    · exact h
    · rw [hdrain]
      exact h
  | clear =>
    simp only [step, clear]
    split
    · exact h
    · exact h
  | queueTimeout entry =>
    simp only [step, queueTimeout]
    split
    · split
      · rw [hdrain]
        split <;> exact h
      · exact h
    · exact h
  | drainTimer => exact (sameWait_fireDrainTimer o s).2.1.trans h
  | shutdownPoll =>
    simp only [step, shutdownPoll, h]
  | incremented l result =>
    simp only [step, incremented]
    split
    · split
      · exact h
      · split
        · exact h
        · exact (sameWait_loopHead o l _).2.1.trans h
    · exact h
  | undone l now => exact (sameWait_undone o l now s).2.1.trans h
  | storeRejected l => exact (sameWait_storeRejected l s).2.1.trans h

/-- A queue that waits for no shutdown goes on so until it is called. -/
theorem shutdownWait_final (o : QueueOptions) {es : List (QueueEvent ρ)}
    (hes : ∀ e ∈ es, waitless e = true) (h : s.shutdownWait = none) :
    (final (step o) es s).shutdownWait = none := by
  induction es generalizing s with
  | nil => exact h
  | cons e es ih =>
    exact ih (fun e' he' => hes e' (List.mem_cons_of_mem e he'))
      (shutdownWait_step o (hes e List.mem_cons_self) h)

/-- A queue is open as long as nobody shuts it down. -/
theorem open_final (o : QueueOptions) {es : List (QueueEvent ρ)}
    (hes : ∀ e ∈ es, isShutdownCall e = false) (h : s.isShutdown = false) :
    (final (step o) es s).isShutdown = false := by
  induction es generalizing s with
  | nil => exact h
  | cons e es ih =>
    refine ih (fun e' he' => hes e' (List.mem_cons_of_mem e he')) ?_
    rw [isShutdown_step, h, hes e List.mem_cons_self, Bool.or_false]

/-- What a `shutdown` that has returned says of the entries `q₀` it began with. -/
structure Counted (q₀ : List (QueueEntry ρ)) (outs : List (QueueOutput ρ)) (c : ℤ × ℤ) : Prop where
  drained : c.2 = ((resolvedEntries outs).filter q₀.contains).length
  rejected : c.1 = (shutDownEntries outs).length
  total : c.2 + c.1 + (timedOutEntries outs).length = q₀.length

/-- Where a queue stands in the shutdown of its pool: it drains, or it has returned. -/
inductive Standing (q₀ : List (QueueEntry ρ)) (outs : List (QueueOutput ρ))
    (s : RateLimiterQueue ρ) : Option (ℤ × ℤ) → Prop where
  | draining (polls : ℕ) (reason : String) (hdrain : Draining q₀.length q₀ outs s)
      (hexact : s.shutdownQueueTimeoutUnlinks = (timedOutEntries outs).length)
      (hwait : s.shutdownWait = some ⟨polls, q₀.length, reason⟩) : Standing q₀ outs s none
  | returned (c : ℤ × ℤ) (hclosed : Closed s) (hcounted : Counted q₀ outs c) :
      Standing q₀ outs s (some c)

omit [DecidableEq ρ] in
/-- A drain calls the store at most. -/
theorem returned_drain (o : QueueOptions) (s : RateLimiterQueue ρ) :
    PoolShutdown.returned (drain o s).2 = none := by
  unfold drain
  split
  · rfl
  · unfold loopHead
    split <;> rfl

/-- What ends with its counts has returned them. -/
theorem counted_of_accounts {q₀ : List (QueueEntry ρ)} {outs outs' : List (QueueOutput ρ)}
    (hne : outs' ≠ []) (h : ShutdownAccounts q₀ (outs ++ outs')) :
    ∃ c, PoolShutdown.returned outs' = some c ∧ Counted q₀ (outs ++ outs') c := by
  obtain ⟨rejected, drained, hlast, hdrained, hrejected, htotal⟩ := h
  rw [List.getLast?_append_of_ne_nil _ hne] at hlast
  refine ⟨(rejected, drained), ?_, hdrained, hrejected, htotal⟩
  rw [PoolShutdown.returned, hlast]

/-- The end of a shutdown says something. -/
theorem finishShutdown_ne_nil (o : QueueOptions) (n : ℤ) (reason : String)
    (s : RateLimiterQueue ρ) (outs : List (QueueOutput ρ)) :
    outs ++ (s.finishShutdown o n reason).2 ≠ [] := by
  simp [finishShutdown]

/-- The call of `shutdown` on an open queue. -/
theorem standing_shutdown (o : QueueOptions) (drainTimeoutMs : ℤ) (reason : String)
    {q : List (QueueEntry ρ)} (hq : s.queue.Represents q) (hopen : s.isShutdown = false) :
    Standing q (step o (.shutdown drainTimeoutMs reason) s).2
      (step o (.shutdown drainTimeoutMs reason) s).1
      (PoolShutdown.returned (step o (.shutdown drainTimeoutMs reason) s).2) := by
  let s₀ : RateLimiterQueue ρ := { s with shutdownQueueTimeoutUnlinks := 0, isShutdown := true }
  have hstart : Draining q.length q [] s₀ :=
    { shut := rfl
      listed := ⟨q, hq, fun entry he => he⟩
      resolved := fun entry he => absurd he List.not_mem_nil
      rejected := rfl
      balance := by
        rw [show s₀.queue.length = q.length from hq.length]
        exact (add_zero _).trans (add_zero _)
      counted := ⟨le_refl _, le_refl _⟩ }
  have hsame := sameWait_drain o s₀
  have hkeeps := keepsQueue_drain o s₀
  simp only [step, shutdown, hopen, if_neg Bool.false_ne_true]
  by_cases hwaits : 0 < drainTimeoutMs ∧ 0 < (drain o s₀).1.queue.length
  · rw [if_pos hwaits, returned_drain]
    refine .draining _ reason ?_ ?_ (by rw [hq.length])
    · exact hstart.quiet hsame.1 hkeeps.queue hkeeps.quiet.2.1 (Or.inl hsame.2.2)
    · rw [(entries_of_settledEntries hkeeps.quiet.2.1).2.1]
      exact hsame.2.2
  · rw [if_neg hwaits]
    have haccounts := (hstart.finish_iff rfl o reason).mpr rfl
    rw [hq.length]
    obtain ⟨c, hreturned, hcounted⟩ :=
      counted_of_accounts (finishShutdown_ne_nil o _ reason _ _) haccounts
    rw [List.nil_append] at hcounted
    rw [hreturned]
    refine .returned c ?_ hcounted
    refine closed_finishShutdown o q.length reason (q := q) ?_ hsame.1
    rw [hkeeps.queue]
    exact hq

/-- What a run of code returns to the pool: only a poll ends a `shutdown` that waits. -/
def returnedBy {κ : Type} (e : QueueEvent κ) (outs : List (QueueOutput κ)) : Option (ℤ × ℤ) :=
  match e with
  | .shutdownPoll => PoolShutdown.returned outs
  | _ => none

/-- The poll of a queue that drains. -/
theorem standing_poll {q₀ : List (QueueEntry ρ)} {outs : List (QueueOutput ρ)}
    (o : QueueOptions) {polls : ℕ} {reason : String} (hdrain : Draining q₀.length q₀ outs s)
    (hexact : s.shutdownQueueTimeoutUnlinks = (timedOutEntries outs).length)
    (hwait : s.shutdownWait = some ⟨polls, q₀.length, reason⟩) :
    Standing q₀ (outs ++ (step o .shutdownPoll s).2) (step o .shutdownPoll s).1
      (PoolShutdown.returned (step o .shutdownPoll s).2) := by
  have hsame := sameWait_drain o s
  have hkeeps := keepsQueue_drain o s
  simp only [step, shutdownPoll, hwait]
  split
  · rw [returned_drain]
    refine .draining (polls - 1) reason ?_ ?_ rfl
    · exact hdrain.quiet (hsame.1.trans hdrain.shut) hkeeps.queue hkeeps.quiet.2.1
        (Or.inl hsame.2.2)
    · rw [timedOutEntries_append, (entries_of_settledEntries hkeeps.quiet.2.1).2.1,
        List.append_nil, ← hexact]
      exact hsame.2.2
  · obtain ⟨c, hreturned, hcounted⟩ := counted_of_accounts
      (finishShutdown_ne_nil o _ reason _ _) ((hdrain.finish_iff rfl o reason).mpr hexact)
    obtain ⟨q, hq, -⟩ := hdrain.listed
    rw [hreturned]
    refine .returned c ?_ hcounted
    refine closed_finishShutdown o q₀.length reason (q := q) ?_ (hsame.1.trans hdrain.shut)
    rw [hkeeps.queue]
    exact hq

/-- The step lemma: any event but a further call of `shutdown`. -/
theorem Standing.step {q₀ : List (QueueEntry ρ)} {outs : List (QueueOutput ρ)}
    {c : Option (ℤ × ℤ)} (h : Standing q₀ outs s c) (o : QueueOptions) {e : QueueEvent ρ}
    (he : isShutdownCall e = false) :
    Standing q₀ (outs ++ (RateLimiterQueue.step o e s).2) (RateLimiterQueue.step o e s).1
      (c.or (returnedBy e (RateLimiterQueue.step o e s).2)) := by
  cases h with
  | returned c hclosed hcounted =>
    obtain ⟨hclosed', hquiet⟩ := hclosed.step o e
    obtain ⟨hres, htime, hrej⟩ := entries_of_settledEntries hquiet.2.1
    refine .returned c hclosed' ⟨?_, ?_, ?_⟩
    · rw [resolvedEntries_append, hres, List.append_nil]
      exact hcounted.drained
    · rw [shutDownEntries_append, hrej, List.append_nil]
      exact hcounted.rejected
    · rw [timedOutEntries_append, htime, List.append_nil]
      exact hcounted.total
  | draining polls reason hdrain hexact hwait =>
    obtain ⟨q, hq, -⟩ := hdrain.listed
    by_cases hpoll : e = .shutdownPoll
    · subst hpoll
      exact standing_poll o hdrain hexact hwait
    · have hnone : returnedBy e (RateLimiterQueue.step o e s).2 = none := by
        unfold returnedBy
        split
        · exact absurd rfl hpoll
        · rfl
      rw [hnone]
      obtain ⟨hstep, hshut, hstill⟩ | ⟨heq, -⟩ := step_cases o e hq hdrain.shut hwait
      · obtain ⟨hnext, hcount⟩ := hdrain.step o e hstep hshut
        obtain ⟨polls', hwait'⟩ := hstill _ hwait
        rw [he, if_neg Bool.false_ne_true] at hcount
        exact .draining polls' reason hnext (hcount.mpr hexact) hwait'
      · exact absurd heq hpoll

/-- A closed queue stays closed. -/
theorem Closed.final (h : Closed s) (o : QueueOptions) (es : List (QueueEvent ρ)) :
    Closed (Library.final (RateLimiterQueue.step o) es s) := by
  induction es generalizing s with
  | nil => exact h
  | cons e es ih => exact ih (h.step o e).1

end RateLimiterQueue

/-! ## The pool before its shutdown -/

/-- The event is no call of `shutdown` on a queue: nobody but the pool shuts a queue down. -/
def throughPool : PoolEvent κ ρ → Bool
  | .queue _ e => !RateLimiterQueue.isShutdownCall e
  | _ => true

namespace KeyedRateLimiterQueue

section Tidy

variable {o : QueueOptions} {m : ℕ} {s : KeyedRateLimiterQueue κ ρ}
  {ds : List (ℕ × QueueEvent ρ)} {outs : List (PoolOutput ρ)}

/-- The queues in the pool are open, and no `shutdown` of a queue waits. -/
structure Tidy (s : KeyedRateLimiterQueue κ ρ) : Prop where
  opened : ∀ n ∈ s.live, (s.queues n).isShutdown = false
  fresh : ∀ n, s.created ≤ n → (s.queues n).isShutdown = false
  waitless : ∀ n, (s.queues n).shutdownWait = none

omit [DecidableEq ρ] in
/-- An event of a queue was dispatched to it. -/
theorem mem_queueEvents {n : ℕ} {e : QueueEvent ρ} (h : e ∈ queueEvents n ds) : (n, e) ∈ ds := by
  obtain ⟨⟨k, e'⟩, hmem, heq⟩ := List.mem_filterMap.mp h
  split at heq
  · next hk =>
    obtain rfl : k = n := hk
    exact Option.some.inj heq ▸ hmem
  · exact absurd heq.symm (Option.some_ne_none _)

omit [DecidableEq ρ] in
/-- Any other event waits for no shutdown. -/
theorem waitless_of_not_call {e : QueueEvent ρ} (h : RateLimiterQueue.isShutdownCall e = false) :
    RateLimiterQueue.waitless e = true := by
  cases e with
  | shutdown drainTimeoutMs reason => exact Bool.noConfusion h
  | _ => rfl

/-- A run of code in which no queue is shut down. -/
theorem Tidy.keeps (h : Tidy s) {s' : KeyedRateLimiterQueue κ ρ}
    (hd : Dispatched o ds s.queues s'.queues outs)
    (hds : ∀ d ∈ ds, RateLimiterQueue.isShutdownCall d.2 = false) (hsame : SamePool s s') :
    Tidy s' := by
  have hcalls : ∀ n, ∀ e ∈ queueEvents n ds, RateLimiterQueue.isShutdownCall e = false :=
    fun n e he => hds _ (mem_queueEvents he)
  have hlive : s'.live = s.live := by rw [live, hsame.map, live]
  refine ⟨fun n hn => ?_, fun n hn => ?_, fun n => ?_⟩
  · rw [hd.queues n]
    exact RateLimiterQueue.open_final o (hcalls n) (h.opened n (hlive ▸ hn))
  · rw [hd.queues n]
    exact RateLimiterQueue.open_final o (hcalls n) (h.fresh n (hsame.created ▸ hn))
  · rw [hd.queues n]
    exact RateLimiterQueue.shutdownWait_final o
      (fun e he => waitless_of_not_call (hcalls n e he)) (h.waitless n)

/-- A key more is used: the queues that go are not in the pool any more. -/
theorem Tidy.serves (h : Tidy s) {uses : List κ} (hp : Pooled o m uses ds outs s) (k : κ) :
    Tidy (s.queueFor o m k).1 := by
  obtain ⟨gone, hserved⟩ := served_queueFor o m k s
  generalize s.queueFor o m k = r at hserved
  have hnodup := hserved.nodup hp.nodup hp.lt
  have hrest : ∀ n, n ∉ gone → r.1.queues n = s.queues n := by
    intro n hn
    rw [hserved.dispatched.queues n, queueEvents_eq_nil, final_nil]
    intro d hd
    obtain ⟨k', hk', rfl⟩ := List.mem_map.mp hd
    exact fun heq => hn (heq ▸ hk')
  refine ⟨fun n hn => ?_, fun n hn => ?_, fun n => ?_⟩
  · rw [hrest n fun hgone => (List.nodup_append.mp hnodup).2.2 n hgone n hn rfl]
    rcases List.mem_append.mp (hserved.live.subset (List.mem_append_right gone hn)) with hin | hnew
    · exact h.opened n hin
    · exact h.fresh n (List.mem_range'_1.mp hnew).1
  · rw [hrest n]
    · exact h.fresh n (hserved.created.trans hn)
    · exact fun hgone => absurd (hserved.lt hp.lt n (List.mem_append_left _ hgone))
        (Nat.not_lt.mpr hn)
  · rw [hserved.dispatched.queues n]
    refine RateLimiterQueue.shutdownWait_final o (fun e he => ?_) (h.waitless n)
    obtain ⟨k', -, heq⟩ := List.mem_map.mp (mem_queueEvents he)
    rw [← (Prod.mk.inj heq).2]
    rfl

/-- A pool that is shut down stays so. -/
theorem isShutdown_step (o : QueueOptions) (m : ℕ) (e : PoolEvent κ ρ)
    (h : s.isShutdown = true) : (step o m e s).1.isShutdown = true := by
  cases e with
  | forKey k => simp only [step, forKey, h, if_true]
  | removeTokens k key cost => simp only [step, removeTokens, h, if_true]
  | shutdown drainTimeoutMs reason => simp only [step, shutdown, h, if_true]
  | queue n e =>
    obtain ⟨-, -, -, hsame⟩ := queueEvent_cases o n e s
    exact hsame.isShutdown.trans h

/-- After a `shutdown` the pool is shut down and has created no queue. -/
theorem shut_shutdown (o : QueueOptions) (drainTimeoutMs : ℤ) (reason : String)
    (s : KeyedRateLimiterQueue κ ρ) :
    (s.shutdown o drainTimeoutMs reason).1.isShutdown = true ∧
      (s.shutdown o drainTimeoutMs reason).1.created = s.created := by
  simp only [KeyedRateLimiterQueue.shutdown]
  split
  · next h => exact ⟨h, rfl⟩
  · have hcalled := called_shutdownQueues o drainTimeoutMs reason s.live { awaiting := s.live }
      ({ s with isShutdown := true, map := ∅ } : KeyedRateLimiterQueue κ ρ)
    obtain ⟨-, hsame⟩ := dispatched_awaitAll (shutdownQueues o drainTimeoutMs reason s.live
      { awaiting := s.live } ({ s with isShutdown := true, map := ∅ } :
        KeyedRateLimiterQueue κ ρ)).2.2 hcalled.dispatched
    exact ⟨hsame.isShutdown.trans hcalled.isShutdown, hsame.created.trans hcalled.created⟩

/-- A tidy pool stays so while it is open. -/
theorem Tidy.step (h : Tidy s) {uses : List κ} (hp : Pooled o m uses ds outs s)
    {e : PoolEvent κ ρ} (he : throughPool e = true) (hopen : s.isShutdown = false)
    (hopen' : (step o m e s).1.isShutdown = false) : Tidy (step o m e s).1 := by
  cases e with
  | forKey k =>
    simp only [KeyedRateLimiterQueue.step, forKey, hopen, if_neg Bool.false_ne_true]
    exact h.serves hp k
  | removeTokens k key cost =>
    simp only [KeyedRateLimiterQueue.step, removeTokens, hopen, if_neg Bool.false_ne_true]
    exact (h.serves hp k).keeps (dispatched_dispatch o _ _ _)
      (fun d hd => List.mem_singleton.mp hd ▸ rfl) ⟨rfl, rfl, rfl⟩
  | shutdown drainTimeoutMs reason =>
    have hshut := (shut_shutdown o drainTimeoutMs reason s).1
    exact absurd (hshut.symm.trans hopen') Bool.noConfusion
  | queue n e =>
    obtain ⟨ds', hd, hevents, hsame⟩ := queueEvent_cases o n e s
    refine h.keeps hd (fun d hmem => ?_) hsame
    obtain ⟨rfl, -⟩ := hevents d hmem
    simpa [throughPool] using he

/-- So it does over a run. -/
theorem tidy_run (o : QueueOptions) (m : ℕ) {es : List (PoolEvent κ ρ)}
    (hes : ∀ e ∈ es, throughPool e = true)
    (hopen : (final (KeyedRateLimiterQueue.step o m) es
      ({} : KeyedRateLimiterQueue κ ρ)).isShutdown = false) :
    Tidy (final (KeyedRateLimiterQueue.step o m) es ({} : KeyedRateLimiterQueue κ ρ)) := by
  induction es using List.reverseRecOn with
  | nil => exact ⟨fun n hn => absurd hn List.not_mem_nil, fun _ _ => rfl, fun _ => rfl⟩
  | append_singleton es e ih =>
    rw [final_append, final_cons, final_nil] at hopen ⊢
    have hbefore : (final (KeyedRateLimiterQueue.step o m) es
        ({} : KeyedRateLimiterQueue κ ρ)).isShutdown = false := by
      by_contra hshut
      have hstays := isShutdown_step o m e (by simpa using hshut)
      exact absurd (hstays.symm.trans hopen) Bool.noConfusion
    obtain ⟨ds, hp⟩ := (pooled_init (κ := κ) (ρ := ρ) o m).run es
    exact (ih (fun e' he' => hes e' (List.mem_append_left _ he')) hbefore).step hp
      (hes e (List.mem_append_right _ List.mem_cons_self)) hbefore hopen

end Tidy

/-! ## The sums -/

section Ledger

variable {live : List ℕ} {res : ℕ → Option (ℤ × ℤ)} {w : PoolShutdown}

/-- The pool waits for the queues that have not returned, and has added up those that have. -/
structure Ledger (live : List ℕ) (res : ℕ → Option (ℤ × ℤ)) (w : PoolShutdown) : Prop where
  awaiting : w.awaiting = live.filter fun n => (res n).isNone
  rejected : w.rejected = ∑ n ∈ live.toFinset, ((res n).getD 0).1
  drained : w.drained = ∑ n ∈ live.toFinset, ((res n).getD 0).2

/-- The ledger of a shutdown starts with every live queue. -/
theorem ledger_init (live : List ℕ) : Ledger live (fun _ => none) { awaiting := live } where
  awaiting := (List.filter_eq_self.mpr fun _ _ => rfl).symm
  rejected := (Finset.sum_const_zero).symm
  drained := (Finset.sum_const_zero).symm

/-- A sum in which one summand, zero so far, gets its value. -/
theorem sum_update (f : ℤ × ℤ → ℤ) (hf : f 0 = 0) {n : ℕ} (hn : n ∈ live) (hres : res n = none)
    (c : ℤ × ℤ) :
    ∑ k ∈ live.toFinset, f ((Function.update res n (some c) k).getD 0) =
      (∑ k ∈ live.toFinset, f ((res k).getD 0)) + f c := by
  have hmem : n ∈ live.toFinset := List.mem_toFinset.mpr hn
  rw [← Finset.add_sum_erase _ _ hmem, ← Finset.add_sum_erase _ (fun k => f ((res k).getD 0)) hmem]
  have hrest : ∑ k ∈ live.toFinset.erase n, f ((Function.update res n (some c) k).getD 0) =
      ∑ k ∈ live.toFinset.erase n, f ((res k).getD 0) := by
    refine Finset.sum_congr rfl fun k hk => ?_
    rw [Function.update_of_ne (Finset.ne_of_mem_erase hk)]
  rw [hrest, Function.update_self, hres]
  simp only [Option.getD_some, Option.getD_none, hf]
  ring

omit [DecidableEq ρ] in
/-- A queue of the pool returns, or does not. -/
theorem Ledger.settle (h : Ledger live res w) (hnodup : live.Nodup) {n : ℕ} (hn : n ∈ live)
    (hres : res n = none) (outs : List (QueueOutput ρ)) :
    Ledger live (Function.update res n (PoolShutdown.returned outs)) (w.settle n outs) := by
  unfold PoolShutdown.settle
  split
  · next rejected drained hreturned =>
    rw [hreturned]
    refine ⟨?_, ?_, ?_⟩
    · show w.awaiting.erase n = _
      rw [h.awaiting, (hnodup.filter _).erase_eq_filter, List.filter_filter]
      refine List.filter_congr fun k _ => ?_
      by_cases hk : k = n
      · subst hk
        simp
      · simp [hk]
    · show w.rejected + rejected = _
      rw [h.rejected, sum_update Prod.fst rfl hn hres]
    · show w.drained + drained = _
      rw [h.drained, sum_update Prod.snd rfl hn hres]
  · next hreturned =>
    rw [hreturned, ← hres, Function.update_eq_self]
    exact h

/-- Awaited are the live queues without a result. -/
theorem mem_awaiting (h : Ledger live res w) {n : ℕ} :
    n ∈ w.awaiting ↔ n ∈ live ∧ res n = none := by
  rw [h.awaiting, List.mem_filter, Option.isNone_iff_eq_none]

end Ledger

/-! ## The pool after its shutdown -/

section Settling

variable {o : QueueOptions} {m : ℕ} {s : KeyedRateLimiterQueue κ ρ} {live : List ℕ}
  {q₀ : ℕ → List (QueueEntry ρ)} {res : ℕ → Option (ℤ × ℤ)} {w : PoolShutdown}
  {outs : List (PoolOutput ρ)}

/-- Every queue that was in the pool drains or has returned, and the pool has the sums. -/
structure Settling (live : List ℕ) (q₀ : ℕ → List (QueueEntry ρ)) (res : ℕ → Option (ℤ × ℤ))
    (w : PoolShutdown) (outs : List (PoolOutput ρ)) (s : KeyedRateLimiterQueue κ ρ) : Prop where
  shut : s.isShutdown = true
  ledger : Ledger live res w
  standing : ∀ n ∈ live, RateLimiterQueue.Standing (q₀ n) (queueOutputs n outs) (s.queues n) (res n)

/-- The pool waits, or it has returned its sums last. -/
def WaitsOrReturns (w : PoolShutdown)
    (r : KeyedRateLimiterQueue κ ρ × List (PoolOutput ρ)) : Prop :=
  r.1.shutdownWait = some w ∨
    r.1.shutdownWait = none ∧ w.awaiting = [] ∧
      r.2.getLast? = some (.shutdownDone w.rejected w.drained)

omit [DecidableEq ρ] in
/-- Either the pool waits for a queue or it returns. -/
theorem waitsOrReturns_awaitAll (w : PoolShutdown) (s : KeyedRateLimiterQueue κ ρ)
    (outs : List (PoolOutput ρ)) :
    WaitsOrReturns w ((awaitAll w s).1, outs ++ (awaitAll w s).2) := by
  unfold awaitAll
  split
  · next h => exact Or.inr ⟨rfl, h, List.getLast?_concat⟩
  · exact Or.inl rfl

omit [DecidableEq ρ] in
/-- Waiting for all changes no queue and says nothing for one. -/
theorem queues_awaitAll (w : PoolShutdown) (s : KeyedRateLimiterQueue κ ρ) :
    (awaitAll w s).1.queues = s.queues ∧ ∀ n, queueOutputs n (awaitAll w s).2 = [] := by
  unfold awaitAll
  split
  · exact ⟨rfl, fun _ => rfl⟩
  · exact ⟨rfl, fun _ => rfl⟩

omit [DecidableEq ρ] in
/-- It leaves the pool open or shut as it was. -/
theorem isShutdown_awaitAll (w : PoolShutdown) (s : KeyedRateLimiterQueue κ ρ) :
    (awaitAll w s).1.isShutdown = s.isShutdown := by
  unfold awaitAll
  split <;> rfl

/-- The calls, queue by queue. -/
theorem settling_shutdownQueues (o : QueueOptions) (drainTimeoutMs : ℤ) (reason : String)
    {ns : List ℕ} (hns : ns.Nodup) (hsub : ∀ n ∈ ns, n ∈ live) (hnodup : live.Nodup)
    (hledger : Ledger live res w)
    (hstart : ∀ n ∈ ns, res n = none ∧ (s.queues n).queue.Represents (q₀ n) ∧
      (s.queues n).isShutdown = false) :
    ∃ res', Ledger live res' (shutdownQueues o drainTimeoutMs reason ns w s).2.2 ∧
      (∀ n, n ∉ ns → res' n = res n) ∧
      ∀ n ∈ ns, RateLimiterQueue.Standing (q₀ n)
        (queueOutputs n (shutdownQueues o drainTimeoutMs reason ns w s).2.1)
        ((shutdownQueues o drainTimeoutMs reason ns w s).1.queues n) (res' n) := by
  induction ns generalizing res w s with
  | nil => exact ⟨res, hledger, fun _ _ => rfl, fun n hn => absurd hn List.not_mem_nil⟩
  | cons n ns ih =>
    obtain ⟨hn, hns⟩ := List.nodup_cons.mp hns
    obtain ⟨hres, hq, hopen⟩ := hstart n List.mem_cons_self
    let r := (s.queues n).step o (.shutdown drainTimeoutMs reason)
    let s' := (dispatch o n (.shutdown drainTimeoutMs reason) s).1
    have hother : ∀ k, k ≠ n → s'.queues k = s.queues k := fun k hk =>
      queues_dispatch_of_ne hk o _ s
    have hself : s'.queues n = r.1 := queues_dispatch_self o n _ s
    obtain ⟨res', hledger', hkept, hstanding⟩ := ih (s := s') hns
      (fun k hk => hsub k (List.mem_cons_of_mem n hk))
      (hledger.settle hnodup (hsub n List.mem_cons_self) hres r.2) (fun k hk => by
        have hne : k ≠ n := fun heq => hn (heq ▸ hk)
        rw [Function.update_of_ne hne, hother k hne]
        exact hstart k (List.mem_cons_of_mem n hk))
    have hcalled := (called_shutdownQueues o drainTimeoutMs reason ns (w.settle n r.2) s').dispatched
    refine ⟨res', hledger', fun k hk => ?_, fun k hk => ?_⟩
    · obtain ⟨hne, hk⟩ := not_or.mp (List.mem_cons.not.mp hk)
      rw [hkept k hk, Function.update_of_ne hne]
    · show RateLimiterQueue.Standing (q₀ k) (queueOutputs k (r.2.map (.queue n) ++
        (shutdownQueues o drainTimeoutMs reason ns (w.settle n r.2) s').2.1))
        ((shutdownQueues o drainTimeoutMs reason ns (w.settle n r.2) s').1.queues k) (res' k)
      rw [queueOutputs_append]
      rcases List.mem_cons.mp hk with rfl | hk
      · have hnone : queueEvents k (shutdowns drainTimeoutMs reason ns) =
            ([] : List (QueueEvent ρ)) := by
          refine queueEvents_eq_nil fun d hd => ?_
          obtain ⟨k', hk', rfl⟩ := List.mem_map.mp hd
          exact fun heq => hn (heq ▸ hk')
        rw [queueOutputs_map_self, hcalled.outs, hcalled.queues, hnone, final_nil, hself,
          hkept k hn, Function.update_self]
        show RateLimiterQueue.Standing (q₀ k) (r.2 ++ []) r.1 _
        rw [List.append_nil]
        exact RateLimiterQueue.standing_shutdown o drainTimeoutMs reason hq hopen
      · rw [queueOutputs_map_of_ne (fun heq : n = k => hn (heq.symm ▸ hk)), List.nil_append]
        exact hstanding k hk

/-- The call of `shutdown` on a tidy pool. -/
theorem settling_shutdown (o : QueueOptions) (drainTimeoutMs : ℤ) (reason : String)
    (hopen : s.isShutdown = false) (hnodup : s.live.Nodup)
    (hq : ∀ n ∈ s.live, (s.queues n).queue.Represents (q₀ n) ∧ (s.queues n).isShutdown = false) :
    ∃ res w, Settling s.live q₀ res w (s.shutdown o drainTimeoutMs reason).2
        (s.shutdown o drainTimeoutMs reason).1 ∧
      WaitsOrReturns w (s.shutdown o drainTimeoutMs reason) := by
  have hshut := (shut_shutdown o drainTimeoutMs reason s).1
  revert hshut
  simp only [KeyedRateLimiterQueue.shutdown, hopen, if_neg Bool.false_ne_true]
  intro hshut
  obtain ⟨res, hledger, -, hstanding⟩ := settling_shutdownQueues o drainTimeoutMs
    reason hnodup (fun n hn => hn) hnodup (ledger_init s.live)
    (s := ({ s with isShutdown := true, map := ∅ } : KeyedRateLimiterQueue κ ρ))
    fun n hn => ⟨rfl, hq n hn⟩
  refine ⟨res, _, ⟨hshut, hledger, fun n hn => ?_⟩, waitsOrReturns_awaitAll _ _ _⟩
  rw [(queues_awaitAll _ _).1, queueOutputs_append, (queues_awaitAll _ _).2, List.append_nil]
  exact hstanding n hn

/-- An event of a queue, as far as the queues are concerned. -/
theorem Settling.dispatch (h : Settling live q₀ res w outs s) (n : ℕ) {e : QueueEvent ρ}
    (he : RateLimiterQueue.isShutdownCall e = false) :
    ∀ k ∈ live, RateLimiterQueue.Standing (q₀ k)
      (queueOutputs k (outs ++ (s.dispatch o n e).2)) ((s.dispatch o n e).1.queues k)
      (if k = n then (res n).or (RateLimiterQueue.returnedBy e ((s.queues n).step o e).2)
        else res k) := by
  intro k hk
  have hstanding := h.standing k hk
  rw [queueOutputs_append]
  by_cases hkn : k = n
  · subst hkn
    rw [if_pos rfl, queues_dispatch_self, KeyedRateLimiterQueue.dispatch, queueOutputs_map_self]
    exact hstanding.step o he
  · rw [if_neg hkn, queues_dispatch_of_ne hkn, KeyedRateLimiterQueue.dispatch,
      queueOutputs_map_of_ne (Ne.symm hkn), List.append_nil]
    exact hstanding

/-- The step lemma: any event while the pool waits. -/
theorem Settling.step (h : Settling live q₀ res w outs s) (hnodup : live.Nodup)
    (hwait : s.shutdownWait = some w) {e : PoolEvent κ ρ} (he : throughPool e = true) :
    ∃ res' w', Settling live q₀ res' w' (outs ++ (step o m e s).2) (step o m e s).1 ∧
      WaitsOrReturns w' (step o m e s) := by
  have hrefused : ∀ outs', (∀ n, queueOutputs n outs' = []) →
      ∃ res' w', Settling live q₀ res' w' (outs ++ outs') s ∧ WaitsOrReturns w' (s, outs') := by
    intro outs' houts
    refine ⟨res, w, ⟨h.shut, h.ledger, fun n hn => ?_⟩, Or.inl hwait⟩
    rw [queueOutputs_append, houts, List.append_nil]
    exact h.standing n hn
  cases e with
  | forKey k =>
    simp only [KeyedRateLimiterQueue.step, forKey, h.shut, if_true]
    exact hrefused _ fun _ => rfl
  | removeTokens k key cost =>
    simp only [KeyedRateLimiterQueue.step, removeTokens, h.shut, if_true]
    exact hrefused _ fun _ => rfl
  | shutdown drainTimeoutMs reason =>
    simp only [KeyedRateLimiterQueue.step, KeyedRateLimiterQueue.shutdown, h.shut, if_true]
    exact hrefused _ fun _ => rfl
  | queue n e =>
    have hcall : RateLimiterQueue.isShutdownCall e = false := by simpa [throughPool] using he
    have hdispatched := h.dispatch (o := o) n hcall
    -- a queue that the pool does not wait for returns nothing to it
    have hquiet : RateLimiterQueue.returnedBy e ((s.queues n).step o e).2 = none ∨
        n ∉ w.awaiting → ∃ res' w', Settling live q₀ res' w'
          (outs ++ (s.dispatch o n e).2) (s.dispatch o n e).1 ∧
            WaitsOrReturns w' (s.dispatch o n e) := by
      intro hnothing
      refine ⟨res, w, ⟨h.shut, h.ledger, fun k hk => ?_⟩, Or.inl hwait⟩
      have hstanding := hdispatched k hk
      by_cases hkn : k = n
      · subst hkn
        rw [if_pos rfl] at hstanding
        rcases hnothing with hnone | hnot
        · rwa [hnone, Option.or_none] at hstanding
        · obtain ⟨c, hc⟩ := Option.ne_none_iff_exists'.mp fun hnone =>
            hnot ((mem_awaiting h.ledger).mpr ⟨hk, hnone⟩)
          rw [hc] at hstanding ⊢
          exact hstanding
      · rwa [if_neg hkn] at hstanding
    by_cases hcreated : n < s.created
    · by_cases hpoll : e = .shutdownPoll
      · subst hpoll
        by_cases hn : n ∈ w.awaiting
        · obtain ⟨hlive, hres⟩ := (mem_awaiting h.ledger).mp hn
          simp only [KeyedRateLimiterQueue.step, queueEvent, hwait, if_pos hcreated, if_pos hn]
          refine ⟨_, _, ⟨?_, h.ledger.settle hnodup hlive hres _, fun k hk => ?_⟩,
            waitsOrReturns_awaitAll _ _ _⟩
          · rw [isShutdown_awaitAll]
            exact h.shut
          · have hstanding := hdispatched k hk
            rw [(queues_awaitAll _ _).1, ← List.append_assoc, queueOutputs_append,
              (queues_awaitAll _ _).2, List.append_nil]
            by_cases hkn : k = n
            · subst hkn
              rw [if_pos rfl, hres, Option.none_or] at hstanding
              rw [Function.update_self]
              exact hstanding
            · rw [if_neg hkn] at hstanding
              rw [Function.update_of_ne hkn]
              exact hstanding
        · simp only [KeyedRateLimiterQueue.step, queueEvent, hwait, if_pos hcreated, if_neg hn]
          exact hquiet (Or.inr hn)
      · have hnone : RateLimiterQueue.returnedBy e ((s.queues n).step o e).2 = none := by
          unfold RateLimiterQueue.returnedBy
          split
          · exact absurd rfl hpoll
          · rfl
        have hstep : KeyedRateLimiterQueue.step o m (.queue n e) s = s.dispatch o n e := by
          simp only [KeyedRateLimiterQueue.step, queueEvent, if_pos hcreated]
          split
          · exact absurd rfl hpoll
          · rfl
        rw [hstep]
        exact hquiet (Or.inl hnone)
    · simp only [KeyedRateLimiterQueue.step, queueEvent, if_neg hcreated]
      exact hrefused _ fun _ => rfl

/-- After any events until the pool returns, its sums are those of its queues. -/
theorem Settling.run (h : Settling live q₀ res w outs s) (hnodup : live.Nodup)
    {es : List (PoolEvent κ ρ)} (hes : ∀ e ∈ es, throughPool e = true)
    (hstart : WaitsOrReturns w (s, outs))
    (hnone : (final (KeyedRateLimiterQueue.step o m) es s).shutdownWait = none)
    (hwaits : ∀ p, p <+: es → p ≠ es →
      (final (KeyedRateLimiterQueue.step o m) p s).shutdownWait ≠ none) :
    ∃ res' w', Settling live q₀ res' w' (outs ++ runOutputs o m es s)
        (final (KeyedRateLimiterQueue.step o m) es s) ∧ w'.awaiting = [] ∧
      (outs ++ runOutputs o m es s).getLast? = some (.shutdownDone w'.rejected w'.drained) := by
  induction es generalizing res w outs s with
  | nil =>
    have hnil : outs ++ runOutputs o m ([] : List (PoolEvent κ ρ)) s = outs := List.append_nil outs
    rw [hnil]
    rcases hstart with hwait | ⟨-, hall, hlast⟩
    · exact absurd (hwait.symm.trans hnone) (Option.some_ne_none w)
    · exact ⟨res, w, h, hall, hlast⟩
  | cons e es ih =>
    have hwait : s.shutdownWait = some w := by
      rcases hstart with hwait | ⟨hnot, -, -⟩
      · exact hwait
      · exact absurd hnot (hwaits [] List.nil_prefix (List.cons_ne_nil e es).symm)
    obtain ⟨res', w', hnext, hreturn⟩ :=
      h.step (o := o) (m := m) hnodup hwait (hes e List.mem_cons_self)
    have houts : outs ++ runOutputs o m (e :: es) s =
        (outs ++ (KeyedRateLimiterQueue.step o m e s).2) ++
          runOutputs o m es (KeyedRateLimiterQueue.step o m e s).1 := by
      rw [runOutputs, outputs_cons, List.flatten_cons, List.append_assoc]
      rfl
    rw [houts]
    refine ih hnext (fun e' he' => hes e' (List.mem_cons_of_mem e he')) ?_ hnone ?_
    · rcases hreturn with hwait' | ⟨hdone, hall, hlast⟩
      · exact Or.inl hwait'
      · refine Or.inr ⟨hdone, hall, ?_⟩
        rw [List.getLast?_append, hlast]
        rfl
    · intro p hp hne
      exact hwaits (e :: p) (List.cons_prefix_cons.mpr ⟨rfl, hp⟩) fun heq =>
        hne (List.cons.inj heq).2

end Settling

/-- The outputs of two runs. -/
theorem runOutputs_append (o : QueueOptions) (m : ℕ) (es es' : List (PoolEvent κ ρ))
    (s : KeyedRateLimiterQueue κ ρ) :
    runOutputs o m (es ++ es') s =
      runOutputs o m es s ++ runOutputs o m es' (final (step o m) es s) := by
  simp only [runOutputs, outputs_append, List.flatten_append]

/-- A pool that is shut down creates no queue. -/
theorem created_run (o : QueueOptions) (m : ℕ) (es : List (PoolEvent κ ρ))
    {s : KeyedRateLimiterQueue κ ρ} (h : s.isShutdown = true) :
    (final (step o m) es s).created = s.created := by
  induction es generalizing s with
  | nil => rfl
  | cons e es ih =>
    refine (ih (isShutdown_step o m e h)).trans ?_
    cases e with
    | forKey k => simp only [step, forKey, h, if_true]
    | removeTokens k key cost => simp only [step, removeTokens, h, if_true]
    | shutdown drainTimeoutMs reason => simp only [step, shutdown, h, if_true]
    | queue n e =>
      obtain ⟨-, -, -, hsame⟩ := queueEvent_cases o n e s
      exact hsame.created

/-- After the last of these events, and not before, no `shutdown` of the pool waits. -/
def ReturnsWith (o : QueueOptions) (m : ℕ) (es : List (PoolEvent κ ρ))
    (s : KeyedRateLimiterQueue κ ρ) : Prop :=
  (final (step o m) es s).shutdownWait = none ∧
    ∀ p, p <+: es → p ≠ es → (final (step o m) p s).shutdownWait ≠ none

/-- An event before the shutdown returns comes before its result. -/
theorem ReturnsWith.cons {o : QueueOptions} {m : ℕ} {e : PoolEvent κ ρ}
    {es : List (PoolEvent κ ρ)} {s : KeyedRateLimiterQueue κ ρ} (hwait : s.shutdownWait ≠ none)
    (h : ReturnsWith o m es (step o m e s).1) : ReturnsWith o m (e :: es) s := by
  refine ⟨h.1, fun p hp hne => ?_⟩
  cases p with
  | nil => exact hwait
  | cons e' p =>
    obtain ⟨rfl, htail⟩ := List.cons_prefix_cons.mp hp
    exact h.2 p htail fun heq => hne (congrArg _ heq)

end KeyedRateLimiterQueue

/-! ## Main result -/

/-- **The counts of a pool's shutdown.**  When nobody but the pool shuts its queues down, its
first `shutdown`, called in any state reached, returns after events of any kind and order with
the number of the entries waiting in the queues of the pool that were resolved meanwhile, and
of those rejected with a `ShutdownError`; with those timed out they are all that waited.  By
then every promise that any queue of the pool ever accepted is settled, those of evicted queues
too.  The stores that the queues own shut down without failing (`PoolShutdown`).
SOURCE: src/queue/KeyedRateLimiterQueue.ts:76-149, src/queue/RateLimiterQueue.ts:360-453 -/
theorem pool_shutdown_accounts (o : QueueOptions) (maxKeys : ℕ) (pre es : List (PoolEvent κ ρ))
    (drainTimeoutMs : ℤ) (reason : String) (hpre : ∀ e ∈ pre, throughPool e = true)
    (hes : ∀ e ∈ es, throughPool e = true) :
    let s := final (KeyedRateLimiterQueue.step o maxKeys) pre ({} : KeyedRateLimiterQueue κ ρ)
    let outs := KeyedRateLimiterQueue.runOutputs o maxKeys (.shutdown drainTimeoutMs reason :: es) s
    let all := KeyedRateLimiterQueue.runOutputs o maxKeys
      (pre ++ .shutdown drainTimeoutMs reason :: es) ({} : KeyedRateLimiterQueue κ ρ)
    s.isShutdown = false →
      KeyedRateLimiterQueue.ReturnsWith o maxKeys es (s.shutdown o drainTimeoutMs reason).1 →
        (∃ rejected drained : ℤ, outs.getLast? = some (.shutdownDone rejected drained) ∧
          drained = ∑ n ∈ s.live.toFinset, (((resolvedEntries (queueOutputs n outs)).filter
            (s.queues n).queue.nodes.contains).length : ℤ) ∧
          rejected = ∑ n ∈ s.live.toFinset, ((shutDownEntries (queueOutputs n outs)).length : ℤ) ∧
          drained + rejected +
              ∑ n ∈ s.live.toFinset, ((timedOutEntries (queueOutputs n outs)).length : ℤ) =
            ∑ n ∈ s.live.toFinset, (s.queues n).queue.length) ∧
          ∀ n, ∀ e ∈ acceptedEntries (queueOutputs n all), e ∈ settledEntries (queueOutputs n all) := by
  intro s outs all hopen hreturns
  obtain ⟨ds, hp⟩ := (KeyedRateLimiterQueue.pooled_init (κ := κ) (ρ := ρ) o maxKeys).run pre
  obtain ⟨ds', hp'⟩ := hp.run (.shutdown drainTimeoutMs reason :: es)
  have htidy := KeyedRateLimiterQueue.tidy_run o maxKeys hpre hopen
  have hlisted : ∀ n, (s.queues n).queue.Represents (s.queues n).queue.nodes := by
    intro n
    obtain ⟨q, hq⟩ := (RateLimiterQueue.listed_init (κ := ρ) o).run (queueEvents n ([] ++ ds))
    have hqueue := hp.dispatched.queues n
    rw [← hqueue] at hq
    exact hq.represents.nodes_eq.symm ▸ hq.represents
  obtain ⟨res, w, hsettling, hstart⟩ := KeyedRateLimiterQueue.settling_shutdown o drainTimeoutMs
    reason hopen hp.nodup fun n hn => ⟨hlisted n, htidy.opened n hn⟩
  obtain ⟨res', w', hsettled, hall, hlast⟩ := hsettling.run hp.nodup hes hstart hreturns.1
    hreturns.2
  have houts : outs = (s.shutdown o drainTimeoutMs reason).2 ++
      KeyedRateLimiterQueue.runOutputs o maxKeys es (s.shutdown o drainTimeoutMs reason).1 := rfl
  rw [← houts] at hsettled hlast
  have hreturned : ∀ n ∈ s.live, ∃ c, res' n = some c ∧
      RateLimiterQueue.Closed ((final (KeyedRateLimiterQueue.step o maxKeys) es
        (s.shutdown o drainTimeoutMs reason).1).queues n) ∧
      RateLimiterQueue.Counted (s.queues n).queue.nodes (queueOutputs n outs) c := by
    intro n hn
    have hsome : res' n ≠ none := fun hnone => by
      have hmem := (KeyedRateLimiterQueue.mem_awaiting hsettled.ledger).mpr ⟨hn, hnone⟩
      rw [hall] at hmem
      exact List.not_mem_nil hmem
    obtain ⟨c, hc⟩ := Option.ne_none_iff_exists'.mp hsome
    have hstanding := hsettled.standing n hn
    rw [hc] at hstanding
    cases hstanding with
    | returned c hclosed hcounted => exact ⟨c, hc, hclosed, hcounted⟩
  refine ⟨⟨w'.rejected, w'.drained, hlast, ?_, ?_, ?_⟩, ?_⟩
  · rw [hsettled.ledger.drained]
    refine Finset.sum_congr rfl fun n hn => ?_
    obtain ⟨c, hc, -, hcounted⟩ := hreturned n (List.mem_toFinset.mp hn)
    rw [hc]
    exact hcounted.drained
  · rw [hsettled.ledger.rejected]
    refine Finset.sum_congr rfl fun n hn => ?_
    obtain ⟨c, hc, -, hcounted⟩ := hreturned n (List.mem_toFinset.mp hn)
    rw [hc]
    exact hcounted.rejected
  · rw [hsettled.ledger.drained, hsettled.ledger.rejected, ← Finset.sum_add_distrib,
      ← Finset.sum_add_distrib]
    refine Finset.sum_congr rfl fun n hn => ?_
    obtain ⟨c, hc, -, hcounted⟩ := hreturned n (List.mem_toFinset.mp hn)
    rw [hc, (hlisted n).length]
    exact hcounted.total
  · have hall' : all = [] ++ KeyedRateLimiterQueue.runOutputs o maxKeys pre {} ++ outs := by
      rw [List.nil_append]
      exact KeyedRateLimiterQueue.runOutputs_append o maxKeys pre _ _
    intro n e he
    obtain ⟨q, hq⟩ := (RateLimiterQueue.listed_init (κ := ρ) o).run
      (queueEvents n ([] ++ ds ++ ds'))
    have hqueue := hp'.dispatched.queues n
    rw [List.nil_append, ← hqueue, ← hp'.dispatched.outs n, ← hall'] at hq
    refine (List.mem_append.mp (hq.accounted.symm.subset he)).resolve_right fun hmem => ?_
    have hcreated : (final (KeyedRateLimiterQueue.step o maxKeys) es
        (s.shutdown o drainTimeoutMs reason).1).created = s.created := by
      obtain ⟨hshut, hsame⟩ := KeyedRateLimiterQueue.shut_shutdown o drainTimeoutMs reason s
      exact (KeyedRateLimiterQueue.created_run o maxKeys es hshut).trans hsame
    by_cases hn : n < s.created
    · have hclosed : RateLimiterQueue.Closed ((final (KeyedRateLimiterQueue.step o maxKeys) es
          (s.shutdown o drainTimeoutMs reason).1).queues n) := by
        by_cases hlive : n ∈ s.live
        · obtain ⟨c, -, hclosed, -⟩ := hreturned n hlive
          exact hclosed
        · have hends := RateLimiterQueue.ends_final (ρ := ρ) o (queueEvents n ([] ++ ds))
          rw [← hp.dispatched.queues n] at hends
          have hclosed := (hends (hp.shut n hn hlive)).resolve_right fun hwait =>
            hwait (htidy.waitless n)
          have hrest := hclosed.final o (queueEvents n ds')
          rw [hp.dispatched.queues n, ← final_append,
            ← KeyedRateLimiterQueue.queueEvents_append, ← hqueue] at hrest
          exact hrest
      rw [hq.represents.nodes_eq.symm.trans hclosed.empty.nodes_eq] at hmem
      exact List.not_mem_nil hmem
    · -- a queue that was never created has done nothing
      have hnone : queueEvents n ([] ++ ds ++ ds') = [] :=
        KeyedRateLimiterQueue.queueEvents_eq_nil fun d hd => by
          have hlt := hp'.known d hd
          rw [final_cons] at hlt
          exact Nat.ne_of_lt ((hlt.trans_eq hcreated).trans_le (Nat.le_of_not_lt hn))
      rw [hall', hp'.dispatched.outs n, hnone] at he
      exact List.not_mem_nil he

/-- Two keys in a pool of one: the queue of the first is evicted, and an entry waits in the
other. -/
def twoKeys : List (PoolEvent ℕ ℕ) :=
  [.removeTokens 0 0 (.finite 1), .removeTokens 1 0 (.finite 1)]

/-- Two keys, one of them evicted, and the figures of the shutdown. -/
theorem pool_shutdown_accounts_two_keys :
    let s := final (KeyedRateLimiterQueue.step timingQueue 1) twoKeys
      ({} : KeyedRateLimiterQueue ℕ ℕ)
    let outs := KeyedRateLimiterQueue.runOutputs timingQueue 1
      [.shutdown 10 "bye", .queue 1 .shutdownPoll] s
    ∃ rejected drained : ℤ, outs.getLast? = some (.shutdownDone rejected drained) ∧
      drained + rejected +
          ∑ n ∈ s.live.toFinset, ((timedOutEntries (queueOutputs n outs)).length : ℤ) =
        ∑ n ∈ s.live.toFinset, (s.queues n).queue.length := by
  intro s outs
  have hreturns : KeyedRateLimiterQueue.ReturnsWith timingQueue 1 [.queue 1 .shutdownPoll]
      (s.shutdown timingQueue 10 "bye").1 :=
    .cons (Option.some_ne_none _) ⟨rfl, fun p hp hne => absurd (List.prefix_nil.mp hp) hne⟩
  obtain ⟨⟨rejected, drained, hlast, -, -, htotal⟩, -⟩ :=
    pool_shutdown_accounts timingQueue 1 twoKeys [.queue 1 .shutdownPoll] 10 "bye"
      (by decide) (by decide) rfl hreturns
  exact ⟨rejected, drained, hlast, htotal⟩

end RatelimitFlex
