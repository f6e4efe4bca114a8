import RatelimitFlex.Analysis.QueueSettlement

/-!
# What a `shutdown` of `RateLimiterQueue` counts

While the first `shutdown` waits, entries leave the list as they are resolved or time out
(`DrainStep` says what a run of the queue's code can do then).  The number of those resolved
is computed from the lengths and from a counter of the timeouts, which a further `shutdown`
sets back to zero: the count is right as long as none comes after a timeout
(`queue_shutdown_accounting_iff`).
-/

set_option autoImplicit false

namespace RatelimitFlex

open Library

variable {κ : Type} [DecidableEq κ]

/-! ## Outputs -/

/-- The entry an output rejects for its time in the queue. -/
def QueueOutput.timedOutEntry {κ : Type} : QueueOutput κ → Option (QueueEntry κ)
  | .settled entry (.rejected (.queue _ .queueTimeout)) => some entry
  | _ => none

/-- The entry an output rejects with a `ShutdownError`. -/
def QueueOutput.shutDownEntry {κ : Type} : QueueOutput κ → Option (QueueEntry κ)
  | .settled entry (.rejected (.shutdown _)) => some entry
  | _ => none

/-- The entries rejected for their time in the queue, in order. -/
def timedOutEntries {κ : Type} (outs : List (QueueOutput κ)) : List (QueueEntry κ) :=
  outs.filterMap QueueOutput.timedOutEntry

/-- The entries rejected with a `ShutdownError`, in order. -/
def shutDownEntries {κ : Type} (outs : List (QueueOutput κ)) : List (QueueEntry κ) :=
  outs.filterMap QueueOutput.shutDownEntry

section Outputs

variable {κ : Type} {outs : List (QueueOutput κ)}

/-- The entries that timed out in two stretches. -/
theorem timedOutEntries_append (outs outs' : List (QueueOutput κ)) :
    timedOutEntries (outs ++ outs') = timedOutEntries outs ++ timedOutEntries outs' :=
  List.filterMap_append

/-- Those that were shut down in them. -/
theorem shutDownEntries_append (outs outs' : List (QueueOutput κ)) :
    shutDownEntries (outs ++ outs') = shutDownEntries outs ++ shutDownEntries outs' :=
  List.filterMap_append

/-- Outputs that settle nothing settle nothing in any way. -/
theorem entries_of_settledEntries (h : settledEntries outs = []) :
    resolvedEntries outs = [] ∧ timedOutEntries outs = [] ∧ shutDownEntries outs = [] := by
  have hnone : ∀ out ∈ outs, out.settledEntry = none := List.filterMap_eq_nil_iff.mp h
  have hnot : ∀ out ∈ outs, ∀ entry settlement, out ≠ .settled entry settlement := by
    rintro out hout entry settlement rfl
    exact absurd (hnone _ hout) (by simp [QueueOutput.settledEntry])
  refine ⟨List.filterMap_eq_nil_iff.mpr ?_, List.filterMap_eq_nil_iff.mpr ?_,
    List.filterMap_eq_nil_iff.mpr ?_⟩
  all_goals
    intro out hout
    cases out with
    | settled entry settlement => exact absurd rfl (hnot _ hout entry settlement)
    | refused error => rfl
    | accepted entry => rfl
    | increment loop key options => rfl
    | decrement loop key options => rfl
    | thrown error => rfl
    | shutdownDone rejected drained => rfl
    | storeShutdown => rfl

end Outputs

namespace RateLimiterQueue

variable {o : QueueOptions} {s : RateLimiterQueue κ}

/-! ## One run of the code while a shutdown waits -/

/-- The fields that only `shutdown` and the timeouts write. -/
def SameWait (s s' : RateLimiterQueue κ) : Prop :=
  s'.isShutdown = s.isShutdown ∧ s'.shutdownWait = s.shutdownWait ∧
    s'.shutdownQueueTimeoutUnlinks = s.shutdownQueueTimeoutUnlinks

omit [DecidableEq κ] in
/-- The head of a loop does not end the wait. -/
theorem sameWait_loopHead (o : QueueOptions) (l : ℕ) (s : RateLimiterQueue κ) :
    SameWait s (loopHead o l s).1 := by
  unfold loopHead
  split <;> exact ⟨rfl, rfl, rfl⟩

omit [DecidableEq κ] in
/-- Nor does a drain. -/
theorem sameWait_drain (o : QueueOptions) (s : RateLimiterQueue κ) :
    SameWait s (drain o s).1 := by
  unfold drain
  split
  · exact ⟨rfl, rfl, rfl⟩
  · exact sameWait_loopHead o s.nextLoop
      { s with processing := true, nextLoop := s.nextLoop + 1 }

omit [DecidableEq κ] in
/-- Nor does the answer to a decrement. -/
theorem sameWait_undone (o : QueueOptions) (l : ℕ) (now : ℤ) (s : RateLimiterQueue κ) :
    SameWait s (undone o l now s).1 := by
  unfold undone
  split
  · exact sameWait_loopHead o l s
  · exact ⟨rfl, rfl, rfl⟩
  · exact ⟨rfl, rfl, rfl⟩

omit [DecidableEq κ] in
/-- Nor does the drain timer. -/
theorem sameWait_fireDrainTimer (o : QueueOptions) (s : RateLimiterQueue κ) :
    SameWait s (fireDrainTimer o s).1 := by
  unfold fireDrainTimer
  split
  · exact sameWait_drain o { s with drainTimer := none, processing := false }
  · exact ⟨rfl, rfl, rfl⟩

omit [DecidableEq κ] in
/-- Nor does a rejection by the store. -/
theorem sameWait_storeRejected (l : ℕ) (s : RateLimiterQueue κ) :
    SameWait s (storeRejected l s) := by
  unfold storeRejected
  split
  · split <;> exact ⟨rfl, rfl, rfl⟩
  · exact ⟨rfl, rfl, rfl⟩

/-- The event is a call of `shutdown`. -/
def isShutdownCall {κ : Type} : QueueEvent κ → Bool
  | .shutdown _ _ => true
  | _ => false

/-- What one run of the code can do while a `shutdown` waits, short of its return: nothing to
the list; set the counter back; resolve an entry; or time one out. -/
inductive DrainStep (o : QueueOptions) (s : RateLimiterQueue κ) (e : QueueEvent κ)
    (r : RateLimiterQueue κ × List (QueueOutput κ)) : Prop where
  | quiet (he : isShutdownCall e = false) (hqueue : r.1.queue = s.queue)
      (hsettled : settledEntries r.2 = [])
      (hcount : r.1.shutdownQueueTimeoutUnlinks = s.shutdownQueueTimeoutUnlinks)
  | called (he : isShutdownCall e = true) (hqueue : r.1.queue = s.queue)
      (hsettled : settledEntries r.2 = []) (hcount : r.1.shutdownQueueTimeoutUnlinks = 0)
  | resolved (he : isShutdownCall e = false) (entry : QueueEntry κ) (remaining resetTime : ℤ)
      (rest : List (QueueOutput κ)) (hfound : s.queue.Found entry)
      (hqueue : r.1.queue = (s.queue.unlink entry).1)
      (houts : r.2 = .settled entry (.resolved remaining resetTime) :: rest)
      (hrest : settledEntries rest = [])
      (hcount : r.1.shutdownQueueTimeoutUnlinks = s.shutdownQueueTimeoutUnlinks)
  | timedOut (he : isShutdownCall e = false) (entry : QueueEntry κ)
      (rest : List (QueueOutput κ)) (hfound : s.queue.Found entry)
      (hqueue : r.1.queue = (s.queue.unlink entry).1)
      (houts : r.2 = .settled entry (.rejected .queueTimeout) :: rest)
      (hrest : settledEntries rest = [])
      (hcount : r.1.shutdownQueueTimeoutUnlinks = s.shutdownQueueTimeoutUnlinks + 1)

/-- The `shutdown` that waits still waits, with the same length and reason. -/
def StillWaits (s s' : RateLimiterQueue κ) : Prop :=
  s'.isShutdown = true ∧ ∀ w ∈ s.shutdownWait, ∃ polls,
    s'.shutdownWait = some ⟨polls, w.lenAtStart, w.reason⟩

omit [DecidableEq κ] in
/-- A wait that stays the same goes on. -/
theorem SameWait.stillWaits {s' : RateLimiterQueue κ} (h : SameWait s s')
    (hshut : s.isShutdown = true) : StillWaits s s' := by
  refine ⟨h.1.trans hshut, fun w hw => ⟨w.pollsLeft, ?_⟩⟩
  rw [h.2.1]
  exact hw

/-- A timeout that finds its entry, and one that does not. -/
theorem queueTimeout_cases (o : QueueOptions) (entry : QueueEntry κ)
    (hshut : s.isShutdown = true) :
    DrainStep o s (.queueTimeout entry) (s.queueTimeout o entry) ∧
      StillWaits s (s.queueTimeout o entry).1 := by
  unfold RateLimiterQueue.queueTimeout
  split
  · simp only
    split
    · next hremoved =>
      have hfound : s.queue.Found entry := by
        by_contra hnot
        rw [LinkedList.unlink_of_not_found hnot] at hremoved
        exact Bool.noConfusion hremoved
      constructor
      · refine .timedOut rfl entry _ hfound ?_ rfl (keepsQueue_drain o _).quiet.2.1 ?_
        · rw [(keepsQueue_drain o _).queue]
          split <;> rfl
        · rw [(sameWait_drain o _).2.2]
          split <;> rfl
      · refine ⟨?_, fun w hw => ⟨w.pollsLeft, ?_⟩⟩
        · rw [(sameWait_drain o _).1]
          split <;> exact hshut
        · rw [(sameWait_drain o _).2.1]
          split <;> exact hw
    · next hkept =>
      have hsame : (s.queue.unlink entry).1 = s.queue :=
        LinkedList.unlink_eq_of_false (by simpa using hkept)
      refine ⟨.quiet rfl hsame rfl rfl, hshut, fun w hw => ⟨w.pollsLeft, hw⟩⟩
  · exact ⟨.quiet rfl rfl rfl rfl, hshut, fun w hw => ⟨w.pollsLeft, hw⟩⟩

/-- An answer of the store. -/
theorem incremented_cases (o : QueueOptions) (l : ℕ) (result : RateLimitResult)
    {q : List (QueueEntry κ)} (hq : s.queue.Represents q) (hshut : s.isShutdown = true) :
    DrainStep o s (.incremented l result) (s.incremented o l result) ∧
      StillWaits s (s.incremented o l result).1 := by
  have hstays : ∀ s' : RateLimiterQueue κ, s'.isShutdown = s.isShutdown →
      s'.shutdownWait = s.shutdownWait → StillWaits s s' := by
    intro s' hs hw
    exact ⟨hs.trans hshut, fun w h => ⟨w.pollsLeft, hw.trans h⟩⟩
  unfold RateLimiterQueue.incremented
  split
  · next entry hl =>
    have hundo := (quiet_undoCalls o l entry result.isBlocked).2.1
    simp only
    split
    · exact ⟨.quiet rfl rfl hundo rfl, hstays _ rfl rfl⟩
    · next hhead =>
      split
      · exact ⟨.quiet rfl rfl hundo rfl, hstays _ rfl rfl⟩
      · rw [not_not, hq.head] at hhead
        have hfound : s.queue.Found entry := hq.found_iff.mpr (List.mem_of_head? hhead)
        have hloop := keepsQueue_loopHead o l { s with
          queue := (s.queue.unlink entry).1
          timer := Function.update s.timer entry false }
        have hsame := sameWait_loopHead o l { s with
          queue := (s.queue.unlink entry).1
          timer := Function.update s.timer entry false }
        exact ⟨.resolved rfl entry _ _ _ hfound hloop.queue rfl hloop.quiet.2.1 hsame.2.2,
          hstays _ hsame.1 hsame.2.1⟩
  · exact ⟨.quiet rfl rfl rfl rfl, hstays _ rfl rfl⟩

/-- One run of the code while a `shutdown` waits; a poll may be its last. -/
theorem step_cases (o : QueueOptions) (e : QueueEvent κ) {q : List (QueueEntry κ)}
    (hq : s.queue.Represents q) (hshut : s.isShutdown = true) {polls : ℕ} {lenAtStart : ℤ}
    {reason : String} (hwait : s.shutdownWait = some ⟨polls, lenAtStart, reason⟩) :
    (DrainStep o s e (step o e s) ∧ StillWaits s (step o e s).1) ∨
      (e = .shutdownPoll ∧ step o e s =
        (((drain o s).1.finishShutdown o lenAtStart reason).1,
          (drain o s).2 ++ ((drain o s).1.finishShutdown o lenAtStart reason).2)) := by
  have hkeeps : ∀ r : RateLimiterQueue κ × List (QueueOutput κ), isShutdownCall e = false →
      KeepsQueue s r → SameWait s r.1 → DrainStep o s e r ∧ StillWaits s r.1 := by
    intro r he hqueue hsame
    exact ⟨.quiet he hqueue.queue hqueue.quiet.2.1 hsame.2.2, hsame.stillWaits hshut⟩
  cases e with
  | removeTokens key cost =>
    have hrefused : step o (.removeTokens key cost) s =
        (s, [.refused (.shutdownError "queue-shutdown")]) := by
      simp only [step, removeTokens, refusal, hshut, if_true]
    rw [hrefused]
    exact Or.inl (hkeeps _ rfl ⟨rfl, rfl, rfl, rfl, rfl⟩ ⟨rfl, rfl, rfl⟩)
  | clear =>
    have hthrown : step o .clear s = (s, [.thrown (.shutdownError "queue-shutdown")]) := by
      simp only [step, clear, hshut, if_true]
    rw [hthrown]
    exact Or.inl (hkeeps _ rfl ⟨rfl, rfl, rfl, rfl, rfl⟩ ⟨rfl, rfl, rfl⟩)
  | shutdown drainTimeoutMs reason' =>
    have hagain : step o (.shutdown drainTimeoutMs reason') s =
        ({ s with shutdownQueueTimeoutUnlinks := 0 }, [.shutdownDone 0 0]) := by
      simp only [step, shutdown, hshut, if_true]
    rw [hagain]
    exact Or.inl ⟨.called rfl rfl rfl rfl, hshut, fun w hw => ⟨w.pollsLeft, hw⟩⟩
  | queueTimeout entry => exact Or.inl (queueTimeout_cases o entry hshut)
  | drainTimer =>
    exact Or.inl (hkeeps _ rfl (keepsQueue_fireDrainTimer o s) (sameWait_fireDrainTimer o s))
  | shutdownPoll =>
    have hdrain := sameWait_drain o s
    by_cases hmore : 1 < polls ∧ 0 < (drain o s).1.queue.length
    · have hpoll : step o .shutdownPoll s = ({ (drain o s).1 with
          shutdownWait := some ⟨polls - 1, lenAtStart, reason⟩ }, (drain o s).2) := by
        simp only [step, shutdownPoll, hwait]
        rw [if_pos hmore]
      rw [hpoll]
      refine Or.inl ⟨.quiet rfl (keepsQueue_drain o s).queue (keepsQueue_drain o s).quiet.2.1
        hdrain.2.2, hdrain.1.trans hshut, ?_⟩
      intro w hw
      rw [hwait] at hw
      obtain rfl := Option.some.inj hw
      exact ⟨polls - 1, rfl⟩
    · refine Or.inr ⟨rfl, ?_⟩
      simp only [step, shutdownPoll, hwait]
      rw [if_neg hmore]
  | incremented l result => exact Or.inl (incremented_cases o l result hq hshut)
  | undone l now =>
    exact Or.inl (hkeeps _ rfl (keepsQueue_undone o l now s) (sameWait_undone o l now s))
  | storeRejected l =>
    exact Or.inl (hkeeps _ rfl (keepsQueue_storeRejected l s) (sameWait_storeRejected l s))

/-! ## The counts while it waits -/

/-- A shutdown that began with the `n` entries `q₀` in the list is under way: those in the
list are of them, as are those resolved since, and the timeouts counted are at most those
there were. -/
structure Draining (n : ℤ) (q₀ : List (QueueEntry κ)) (outs : List (QueueOutput κ))
    (s : RateLimiterQueue κ) : Prop where
  shut : s.isShutdown = true
  listed : ∃ q, s.queue.Represents q ∧ ∀ entry ∈ q, entry ∈ q₀
  resolved : ∀ entry ∈ resolvedEntries outs, entry ∈ q₀
  rejected : shutDownEntries outs = []
  balance : s.queue.length + (resolvedEntries outs).length + (timedOutEntries outs).length = n
  counted : 0 ≤ s.shutdownQueueTimeoutUnlinks ∧
    s.shutdownQueueTimeoutUnlinks ≤ (timedOutEntries outs).length

variable {n : ℤ} {q₀ : List (QueueEntry κ)} {outs : List (QueueOutput κ)}

omit [DecidableEq κ] in
/-- Outputs that settle nothing, and a list that stays. -/
theorem Draining.quiet (h : Draining n q₀ outs s) {s' : RateLimiterQueue κ}
    {outs' : List (QueueOutput κ)} (hshut : s'.isShutdown = true) (hqueue : s'.queue = s.queue)
    (hsettled : settledEntries outs' = [])
    (hcount : s'.shutdownQueueTimeoutUnlinks = s.shutdownQueueTimeoutUnlinks ∨
      s'.shutdownQueueTimeoutUnlinks = 0) :
    Draining n q₀ (outs ++ outs') s' := by
  obtain ⟨hres, htime, hrej⟩ := entries_of_settledEntries hsettled
  have hres' : resolvedEntries (outs ++ outs') = resolvedEntries outs := by
    rw [resolvedEntries_append, hres, List.append_nil]
  have htime' : timedOutEntries (outs ++ outs') = timedOutEntries outs := by
    rw [timedOutEntries_append, htime, List.append_nil]
  have hcounted := h.counted
  refine ⟨hshut, ?_, ?_, ?_, ?_, ?_⟩
  · rw [hqueue]
    exact h.listed
  · rw [hres']
    exact h.resolved
  · rw [shutDownEntries_append, h.rejected, hrej, List.append_nil]
  · rw [hres', htime', hqueue]
    exact h.balance
  · rw [htime']
    rcases hcount with hcount | hcount <;> rw [hcount] <;> omega

/-- An entry that leaves the list. -/
theorem Draining.leaves (h : Draining n q₀ outs s) {entry : QueueEntry κ}
    (hfound : s.queue.Found entry) :
    (s.queue.unlink entry).1.length = s.queue.length - 1 ∧ entry ∈ q₀ ∧
      ∃ q, (s.queue.unlink entry).1.Represents q ∧ ∀ e ∈ q, e ∈ q₀ := by
  obtain ⟨q, hq, hsub⟩ := h.listed
  have hmem := hq.found_iff.mp hfound
  exact ⟨LinkedList.length_unlink hfound, hsub entry hmem, q.erase entry,
    (hq.unlink entry).1, fun e he => hsub e (List.mem_of_mem_erase he)⟩

/-- The step lemma: a shutdown that still waits after a run of the code, and what the run did
to the counter. -/
theorem Draining.step (h : Draining n q₀ outs s) (o : QueueOptions) (e : QueueEvent κ)
    {r : RateLimiterQueue κ × List (QueueOutput κ)} (hr : DrainStep o s e r)
    (hshut : r.1.isShutdown = true) :
    Draining n q₀ (outs ++ r.2) r.1 ∧
      (r.1.shutdownQueueTimeoutUnlinks = (timedOutEntries (outs ++ r.2)).length ↔
        if isShutdownCall e then timedOutEntries outs = []
        else s.shutdownQueueTimeoutUnlinks = (timedOutEntries outs).length) := by
  cases hr with
  | quiet he hqueue hsettled hcount =>
    refine ⟨h.quiet hshut hqueue hsettled (Or.inl hcount), ?_⟩
    rw [timedOutEntries_append, (entries_of_settledEntries hsettled).2.1, List.append_nil,
      hcount, he]
    exact Iff.rfl
  | called he hqueue hsettled hcount =>
    refine ⟨h.quiet hshut hqueue hsettled (Or.inr hcount), ?_⟩
    rw [timedOutEntries_append, (entries_of_settledEntries hsettled).2.1, List.append_nil,
      hcount, he, if_pos rfl, eq_comm, Nat.cast_eq_zero, List.length_eq_zero_iff]
  | resolved he entry remaining resetTime rest hfound hqueue houts hrest hcount =>
    obtain ⟨hlength, hmem, hlisted⟩ := h.leaves hfound
    obtain ⟨hres, htime, hrej⟩ := entries_of_settledEntries hrest
    have hres' : resolvedEntries (outs ++ r.2) = resolvedEntries outs ++ [entry] := by
      rw [resolvedEntries_append, houts]
      exact congrArg (resolvedEntries outs ++ entry :: ·) hres
    have htime' : timedOutEntries (outs ++ r.2) = timedOutEntries outs := by
      rw [timedOutEntries_append, houts]
      exact (congrArg (timedOutEntries outs ++ ·) htime).trans (List.append_nil _)
    have hrej' : shutDownEntries (outs ++ r.2) = shutDownEntries outs := by
      rw [shutDownEntries_append, houts]
      exact (congrArg (shutDownEntries outs ++ ·) hrej).trans (List.append_nil _)
    have hbalance := h.balance
    refine ⟨⟨hshut, ?_, ?_, hrej'.trans h.rejected, ?_, ?_⟩, ?_⟩
    · rw [hqueue]
      exact hlisted
    · rw [hres']
      intro e' he'
      rcases List.mem_append.mp he' with he' | he'
      · exact h.resolved e' he'
      · rw [List.mem_singleton.mp he']
        exact hmem
    · rw [hres', htime', hqueue, hlength, List.length_append, List.length_singleton]
      omega
    · rw [htime', hcount]
      exact h.counted
    · rw [htime', hcount, he]
      exact Iff.rfl
  | timedOut he entry rest hfound hqueue houts hrest hcount =>
    obtain ⟨hlength, hmem, hlisted⟩ := h.leaves hfound
    obtain ⟨hres, htime, hrej⟩ := entries_of_settledEntries hrest
    have hres' : resolvedEntries (outs ++ r.2) = resolvedEntries outs := by
      rw [resolvedEntries_append, houts]
      exact (congrArg (resolvedEntries outs ++ ·) hres).trans (List.append_nil _)
    have htime' : timedOutEntries (outs ++ r.2) = timedOutEntries outs ++ [entry] := by
      rw [timedOutEntries_append, houts]
      exact congrArg (timedOutEntries outs ++ entry :: ·) htime
    have hrej' : shutDownEntries (outs ++ r.2) = shutDownEntries outs := by
      rw [shutDownEntries_append, houts]
      exact (congrArg (shutDownEntries outs ++ ·) hrej).trans (List.append_nil _)
    have hbalance := h.balance
    have hcounted := h.counted
    refine ⟨⟨hshut, ?_, ?_, hrej'.trans h.rejected, ?_, ?_⟩, ?_⟩
    · rw [hqueue]
      exact hlisted
    · rw [hres']
      exact h.resolved
    · rw [hres', htime', hqueue, hlength, List.length_append, List.length_singleton]
      omega
    · rw [htime', hcount, List.length_append, List.length_singleton]
      omega
    · rw [htime', hcount, he, List.length_append, List.length_singleton, Nat.cast_add,
        Nat.cast_one, add_left_inj]
      exact Iff.rfl

/-- No call of `shutdown` among these events comes after a timeout, with `outs` done before
them. -/
def NoLateCall (o : QueueOptions) (outs : List (QueueOutput κ)) (es : List (QueueEvent κ))
    (s : RateLimiterQueue κ) : Prop :=
  ∀ a b drainTimeoutMs reason, es = a ++ .shutdown drainTimeoutMs reason :: b →
    timedOutEntries (outs ++ runOutputs o a s) = []

/-- No events make no late call. -/
theorem noLateCall_nil (o : QueueOptions) : NoLateCall o outs [] s := by
  intro a b drainTimeoutMs reason he
  simp at he

/-- One event more. -/
theorem noLateCall_concat (o : QueueOptions) {es : List (QueueEvent κ)} {e : QueueEvent κ} :
    NoLateCall o outs (es ++ [e]) s ↔ NoLateCall o outs es s ∧
      (isShutdownCall e = true → timedOutEntries (outs ++ runOutputs o es s) = []) := by
  constructor
  · intro h
    refine ⟨fun a b t r he => h a (b ++ [e]) t r (by rw [he, List.append_assoc]; rfl),
      fun he => ?_⟩
    cases e with
    | shutdown drainTimeoutMs reason => exact h es [] drainTimeoutMs reason rfl
    | removeTokens key cost => exact Bool.noConfusion he
    | clear => exact Bool.noConfusion he
    | queueTimeout entry => exact Bool.noConfusion he
    | drainTimer => exact Bool.noConfusion he
    | shutdownPoll => exact Bool.noConfusion he
    | incremented loop result => exact Bool.noConfusion he
    | undone loop now => exact Bool.noConfusion he
    | storeRejected loop => exact Bool.noConfusion he
  · rintro ⟨h, hlast⟩ a b t r he
    rcases List.eq_nil_or_concat b with rfl | ⟨b', e', rfl⟩
    · obtain ⟨rfl, he'⟩ := List.append_inj' he rfl
      rw [List.cons.inj he' |>.1] at hlast
      exact hlast rfl
    · rw [List.concat_eq_append, ← List.cons_append, ← List.append_assoc] at he
      exact h a b' t r (List.append_inj_left' he rfl)

/-- The outputs of a run and of one event more. -/
theorem runOutputs_concat (o : QueueOptions) (es : List (QueueEvent κ)) (e : QueueEvent κ)
    (s : RateLimiterQueue κ) :
    runOutputs o (es ++ [e]) s =
      runOutputs o es s ++ (step o e (final (step o) es s)).2 := by
  simp only [runOutputs, outputs_append, List.flatten_append, outputs_cons, outputs_nil,
    List.flatten_cons, List.flatten_nil, List.append_nil]

/-- After any run in which the shutdown waits all the time, the counter is the number of
timeouts exactly if no call of `shutdown` came after one. -/
theorem Draining.run (h : Draining n q₀ outs s) (o : QueueOptions)
    (hcount : s.shutdownQueueTimeoutUnlinks = (timedOutEntries outs).length)
    (polls : ℕ) (reason : String) (hwait : s.shutdownWait = some ⟨polls, n, reason⟩)
    (es : List (QueueEvent κ))
    (hwaits : ∀ p, p <+: es → (final (RateLimiterQueue.step o) p s).shutdownWait ≠ none) :
    Draining n q₀ (outs ++ runOutputs o es s) (final (RateLimiterQueue.step o) es s) ∧
      (∃ polls, (final (RateLimiterQueue.step o) es s).shutdownWait = some ⟨polls, n, reason⟩) ∧
      ((final (RateLimiterQueue.step o) es s).shutdownQueueTimeoutUnlinks =
        (timedOutEntries (outs ++ runOutputs o es s)).length ↔ NoLateCall o outs es s) := by
  induction es using List.reverseRecOn with
  | nil =>
    have houts : outs ++ runOutputs o [] s = outs := List.append_nil outs
    rw [houts]
    exact ⟨h, ⟨polls, hwait⟩, iff_of_true hcount (noLateCall_nil o)⟩
  | append_singleton es e ih =>
    obtain ⟨hdrain, ⟨polls', hwait'⟩, hiff⟩ :=
      ih fun p hp => hwaits p (hp.trans (List.prefix_append es [e]))
    have hfinal : final (RateLimiterQueue.step o) (es ++ [e]) s =
        (RateLimiterQueue.step o e (final (RateLimiterQueue.step o) es s)).1 := by
      rw [final_append, final_cons, final_nil]
    have houts : outs ++ runOutputs o (es ++ [e]) s = (outs ++ runOutputs o es s) ++
        (RateLimiterQueue.step o e (final (RateLimiterQueue.step o) es s)).2 := by
      rw [runOutputs_concat, List.append_assoc]
    have hstays := hwaits (es ++ [e]) (List.prefix_refl _)
    rw [hfinal] at hstays ⊢
    obtain ⟨q, hq, -⟩ := hdrain.listed
    obtain ⟨hstep, hshut, hsame⟩ | ⟨-, hreturned⟩ := step_cases o e hq hdrain.shut hwait'
    · obtain ⟨hnext, hcount'⟩ := hdrain.step o e hstep hshut
      rw [houts, noLateCall_concat, hcount']
      refine ⟨hnext, hsame _ hwait', ?_⟩
      cases he : isShutdownCall e with
      | true =>
        rw [if_pos rfl]
        refine ⟨fun hnone => ⟨hiff.mp ?_, fun _ => hnone⟩, fun hboth => hboth.2 rfl⟩
        have hcounted := hdrain.counted
        rw [hnone, List.length_nil, Nat.cast_zero] at hcounted ⊢
        exact le_antisymm hcounted.2 hcounted.1
      | false =>
        rw [if_neg Bool.false_ne_true, hiff]
        exact ⟨fun hlate => ⟨hlate, fun hcall => Bool.noConfusion hcall⟩, And.left⟩
    · rw [hreturned] at hstays
      exact absurd rfl hstays

/-! ## The return -/

/-- These outputs of a `shutdown` end with its counts; the entries `q₀` it found in the list
are those it resolved, rejected and let time out. -/
def ShutdownAccounts (q₀ : List (QueueEntry κ)) (outs : List (QueueOutput κ)) : Prop :=
  ∃ rejected drained : ℤ, outs.getLast? = some (.shutdownDone rejected drained) ∧
    drained = ((resolvedEntries outs).filter q₀.contains).length ∧
    rejected = (shutDownEntries outs).length ∧
    drained + rejected + (timedOutEntries outs).length = q₀.length

/-- A shutdown that returns counts right exactly if its counter is that of the timeouts. -/
theorem Draining.finish_iff (h : Draining n q₀ outs s) (hn : n = q₀.length) (o : QueueOptions)
    (reason : String) :
    ShutdownAccounts q₀ (outs ++ ((drain o s).2 ++
      ((drain o s).1.finishShutdown o n reason).2)) ↔
        s.shutdownQueueTimeoutUnlinks = (timedOutEntries outs).length := by
  have hsame := sameWait_drain o s
  have hkeeps := keepsQueue_drain o s
  have hdrain : Draining n q₀ (outs ++ (drain o s).2) (drain o s).1 :=
    h.quiet (hsame.1.trans h.shut) hkeeps.queue hkeeps.quiet.2.1 (Or.inl hsame.2.2)
  have htime : timedOutEntries (outs ++ (drain o s).2) = timedOutEntries outs := by
    rw [timedOutEntries_append, (entries_of_settledEntries hkeeps.quiet.2.1).2.1,
      List.append_nil]
  rw [← List.append_assoc, ← hsame.2.2, ← htime]
  generalize outs ++ (drain o s).2 = outs' at hdrain ⊢
  generalize (drain o s).1 = s' at hdrain ⊢
  obtain ⟨q, hq, hsub⟩ := hdrain.listed
  have hfinish : (s'.finishShutdown o n reason).2 =
      q.map (fun e => .settled e (.rejected (.shutdownError reason))) ++
        ((if o.ownsStore then [.storeShutdown] else []) ++ [.shutdownDone s'.queue.length
          (max 0 (n - s'.queue.length - s'.shutdownQueueTimeoutUnlinks))]) := by
    rw [← List.append_assoc, finishShutdown, clearPending, hq.nodes_eq]
  have hres : resolvedEntries (s'.finishShutdown o n reason).2 = [] := by
    rw [hfinish]
    cases o.ownsStore <;> simp [resolvedEntries, QueueOutput.resolvedEntry]
  have htimed : timedOutEntries (s'.finishShutdown o n reason).2 = [] := by
    rw [hfinish]
    cases o.ownsStore <;>
      simp [timedOutEntries, QueueOutput.timedOutEntry, QueueError.shutdownError]
  have hrej : shutDownEntries (s'.finishShutdown o n reason).2 = q := by
    rw [hfinish]
    cases o.ownsStore <;>
      simp [shutDownEntries, QueueOutput.shutDownEntry, QueueError.shutdownError,
        Function.comp_def]
  have hlast : (outs' ++ (s'.finishShutdown o n reason).2).getLast? =
      some (.shutdownDone s'.queue.length
        (max 0 (n - s'.queue.length - s'.shutdownQueueTimeoutUnlinks))) := by
    rw [hfinish, ← List.append_assoc, ← List.append_assoc, List.getLast?_concat]
  have hfilter : (resolvedEntries outs').filter q₀.contains = resolvedEntries outs' :=
    List.filter_eq_self.mpr fun e he => List.contains_iff_mem.mpr (hdrain.resolved e he)
  have hbalance := hdrain.balance
  have hcounted := hdrain.counted
  unfold ShutdownAccounts
  rw [resolvedEntries_append, shutDownEntries_append, timedOutEntries_append, hres, htimed,
    hrej, hdrain.rejected, List.append_nil, List.append_nil, List.nil_append, hfilter, hlast,
    ← hn, ← hq.length]
  constructor
  · rintro ⟨rejected, drained, hout, hdrained, -, -⟩
    obtain ⟨-, rfl⟩ : s'.queue.length = rejected ∧
        max 0 (n - s'.queue.length - s'.shutdownQueueTimeoutUnlinks) = drained := by
      simpa using hout
    omega
  · intro hcount
    exact ⟨_, _, rfl, by omega, rfl, by omega⟩

/-- After the last of these events, and not before, no `shutdown` waits. -/
def ReturnsWith (o : QueueOptions) (es : List (QueueEvent κ)) (s : RateLimiterQueue κ) : Prop :=
  (final (step o) es s).shutdownWait = none ∧
    ∀ p, p <+: es → p ≠ es → (final (step o) p s).shutdownWait ≠ none

/-- An event before the shutdown returns comes before its result. -/
theorem ReturnsWith.cons {e : QueueEvent κ} {es : List (QueueEvent κ)}
    (hwait : s.shutdownWait ≠ none) (h : ReturnsWith o es (step o e s).1) :
    ReturnsWith o (e :: es) s := by
  refine ⟨h.1, fun p hp hne => ?_⟩
  cases p with
  | nil => exact hwait
  | cons e' p =>
    obtain ⟨rfl, htail⟩ := List.cons_prefix_cons.mp hp
    exact h.2 p htail fun heq => hne (congrArg _ heq)

/-- A shutdown that waited counts right exactly if no call came after a timeout. -/
theorem Draining.returns_iff (h : Draining n q₀ outs s) (hn : n = q₀.length) (o : QueueOptions)
    (hcount : s.shutdownQueueTimeoutUnlinks = (timedOutEntries outs).length)
    {polls : ℕ} {reason : String} (hwait : s.shutdownWait = some ⟨polls, n, reason⟩)
    {es : List (QueueEvent κ)} (hreturn : ReturnsWith o es s) :
    ShutdownAccounts q₀ (outs ++ runOutputs o es s) ↔ NoLateCall o outs es s := by
  obtain ⟨hnone, hwaits⟩ := hreturn
  rcases List.eq_nil_or_concat es with rfl | ⟨p, e, rfl⟩
  · rw [final_nil, hwait] at hnone
    exact absurd hnone (Option.some_ne_none _)
  · rw [List.concat_eq_append] at hnone hwaits ⊢
    have hprefix : ∀ p', p' <+: p → (final (RateLimiterQueue.step o) p' s).shutdownWait ≠ none := by
      intro p' hp'
      refine hwaits p' (hp'.trans (List.prefix_append p [e])) ?_
      rintro rfl
      have hle := hp'.length_le
      rw [List.length_append, List.length_singleton] at hle
      omega
    obtain ⟨hdrain, ⟨polls', hwait'⟩, hiff⟩ := h.run o hcount polls reason hwait p hprefix
    obtain ⟨q, hq, -⟩ := hdrain.listed
    rw [final_append, final_cons, final_nil] at hnone
    have houts : outs ++ runOutputs o (p ++ [e]) s = (outs ++ runOutputs o p s) ++
        (RateLimiterQueue.step o e (final (RateLimiterQueue.step o) p s)).2 := by
      rw [runOutputs_concat, List.append_assoc]
    obtain ⟨-, -, hstill⟩ | ⟨rfl, hreturned⟩ := step_cases o e hq hdrain.shut hwait'
    · obtain ⟨polls'', hstays⟩ := hstill _ hwait'
      rw [hnone] at hstays
      exact absurd hstays.symm (Option.some_ne_none _)
    · rw [houts, hreturned, hdrain.finish_iff hn o reason, hiff, noLateCall_concat]
      exact ⟨fun hlate => ⟨hlate, fun hcall => Bool.noConfusion hcall⟩, And.left⟩

end RateLimiterQueue

/-! ## Main result -/

/-- **The counts of a shutdown.**  The first `shutdown`, called in any state reached, returns
after events `es` of any kind and order.  Its `drained` is the number of the entries then in
the list that were resolved, its `rejected` that of those rejected with a `ShutdownError`,
and with those timed out they are all of them, exactly if no further `shutdown` was called
after an entry had timed out.
SOURCE: src/queue/RateLimiterQueue.ts:251-268, 360-398 -/
theorem queue_shutdown_accounting_iff (o : QueueOptions) (pre es : List (QueueEvent κ))
    (drainTimeoutMs : ℤ) (reason : String) :
    let s := final (RateLimiterQueue.step o) pre ({} : RateLimiterQueue κ)
    s.isShutdown = false →
      RateLimiterQueue.ReturnsWith o es (s.shutdown o drainTimeoutMs reason).1 →
        (RateLimiterQueue.ShutdownAccounts s.queue.nodes
            (RateLimiterQueue.runOutputs o (.shutdown drainTimeoutMs reason :: es) s) ↔
          ∀ a b drainTimeoutMs' reason', es = a ++ .shutdown drainTimeoutMs' reason' :: b →
            timedOutEntries (RateLimiterQueue.runOutputs o
              (.shutdown drainTimeoutMs reason :: a) s) = []) := by
  intro s hopen hreturn
  obtain ⟨q, hq⟩ := (RateLimiterQueue.listed_init o).run pre
  have hnodes : s.queue.nodes = q := hq.represents.nodes_eq
  have hlength : s.queue.length = q.length := hq.represents.length
  let s₀ : RateLimiterQueue κ := { s with shutdownQueueTimeoutUnlinks := 0, isShutdown := true }
  have hstart : RateLimiterQueue.Draining s.queue.length q [] s₀ :=
    { shut := rfl
      listed := ⟨q, hq.represents, fun entry he => he⟩
      resolved := fun entry he => absurd he List.not_mem_nil
      rejected := rfl
      balance := (add_zero _).trans (add_zero _)
      counted := ⟨le_refl _, le_refl _⟩ }
  have hsame := RateLimiterQueue.sameWait_drain o s₀
  have hkeeps := RateLimiterQueue.keepsQueue_drain o s₀
  simp only [RateLimiterQueue.runOutputs_cons, hnodes]
  by_cases hwaits : 0 < drainTimeoutMs ∧ 0 < (RateLimiterQueue.drain o s₀).1.queue.length
  · let maxPolls := max 1 (-(-drainTimeoutMs / minBlockRetryDelayMs)).toNat
    let called : RateLimiterQueue κ := { (RateLimiterQueue.drain o s₀).1 with
      shutdownWait := some ⟨maxPolls, s.queue.length, reason⟩ }
    have hcalled : s.shutdown o drainTimeoutMs reason =
        (called, (RateLimiterQueue.drain o s₀).2) := by
      unfold RateLimiterQueue.shutdown
      rw [hopen, if_neg Bool.false_ne_true]
      exact if_pos hwaits
    have hstep : RateLimiterQueue.step o (.shutdown drainTimeoutMs reason) s =
        (called, (RateLimiterQueue.drain o s₀).2) := hcalled
    have hdrain : RateLimiterQueue.Draining s.queue.length q (RateLimiterQueue.drain o s₀).2
        called := hstart.quiet hsame.1 hkeeps.queue hkeeps.quiet.2.1 (Or.inl hsame.2.2)
    have hcount : called.shutdownQueueTimeoutUnlinks =
        (timedOutEntries (RateLimiterQueue.drain o s₀).2).length := by
      rw [(entries_of_settledEntries hkeeps.quiet.2.1).2.1]
      exact hsame.2.2
    rw [hcalled] at hreturn
    rw [hstep]
    exact hdrain.returns_iff hlength o hcount rfl hreturn
  · have hcalled : s.shutdown o drainTimeoutMs reason =
        (((RateLimiterQueue.drain o s₀).1.finishShutdown o s.queue.length reason).1,
          (RateLimiterQueue.drain o s₀).2 ++
            ((RateLimiterQueue.drain o s₀).1.finishShutdown o s.queue.length reason).2) := by
      unfold RateLimiterQueue.shutdown
      rw [hopen, if_neg Bool.false_ne_true]
      exact if_neg hwaits
    have hstep : RateLimiterQueue.step o (.shutdown drainTimeoutMs reason) s = _ := hcalled
    obtain rfl : es = [] := by
      by_contra hne
      refine hreturn.2 [] List.nil_prefix (Ne.symm hne) ?_
      rw [hcalled]
      rfl
    rw [hstep]
    refine iff_of_true ?_ (fun a b t r he => absurd he (by simp))
    have hfinish := (hstart.finish_iff hlength o reason).mpr rfl
    rw [List.nil_append] at hfinish
    rw [RateLimiterQueue.runOutputs, outputs_nil, List.flatten_nil, List.append_nil]
    exact hfinish

/-- The list after two calls of `removeTokens`; the increment for the first is still out. -/
def twoQueued : List (QueueEvent ℕ) :=
  [.removeTokens 0 (.finite 1), .removeTokens 0 (.finite 1)]

/-- One of the two times out and a further `shutdown` is called, before the next poll. -/
def lateCall : List (QueueEvent ℕ) :=
  [.queueTimeout ⟨1, 0, .finite 1⟩, .shutdown 0 "again", .shutdownPoll]

def timingQueue : QueueOptions := { maxRequests := .finite 5, timesOut := true }

/-- Without the further call the counts are right. -/
theorem queue_shutdown_accounting_timeout :
    RateLimiterQueue.ShutdownAccounts
      (final (RateLimiterQueue.step timingQueue) twoQueued {}).queue.nodes
      (RateLimiterQueue.runOutputs timingQueue
        [.shutdown 10 "bye", .queueTimeout ⟨1, 0, .finite 1⟩, .shutdownPoll]
        (final (RateLimiterQueue.step timingQueue) twoQueued {})) := by
  have hreturn : RateLimiterQueue.ReturnsWith timingQueue
      [.queueTimeout ⟨1, 0, .finite 1⟩, .shutdownPoll]
      ((final (RateLimiterQueue.step timingQueue) twoQueued {}).shutdown timingQueue 10
        "bye").1 :=
    .cons (Option.some_ne_none _) (.cons (Option.some_ne_none _)
      ⟨rfl, fun p hp hne => absurd (List.prefix_nil.mp hp) hne⟩)
  refine (queue_shutdown_accounting_iff timingQueue twoQueued _ 10 "bye" rfl hreturn).mpr ?_
  intro a b drainTimeoutMs reason he
  have hmem : QueueEvent.shutdown drainTimeoutMs reason ∈
      [QueueEvent.queueTimeout (⟨1, 0, .finite 1⟩ : QueueEntry ℕ), .shutdownPoll] := by
    rw [he]
    exact List.mem_append_right a List.mem_cons_self
  simp at hmem

/-- With it the entry that timed out is counted as drained, though nothing was resolved. -/
theorem queue_shutdown_counts_timeout_as_drained :
    ¬ ∀ (o : QueueOptions) (pre es : List (QueueEvent ℕ)) (drainTimeoutMs : ℤ)
      (reason : String),
      let s := final (RateLimiterQueue.step o) pre ({} : RateLimiterQueue ℕ)
      s.isShutdown = false →
        RateLimiterQueue.ReturnsWith o es (s.shutdown o drainTimeoutMs reason).1 →
          RateLimiterQueue.ShutdownAccounts s.queue.nodes
            (RateLimiterQueue.runOutputs o (.shutdown drainTimeoutMs reason :: es) s) := by
  intro h
  have hreturn : RateLimiterQueue.ReturnsWith timingQueue lateCall
      ((final (RateLimiterQueue.step timingQueue) twoQueued {}).shutdown timingQueue 10
        "bye").1 :=
    .cons (Option.some_ne_none _) (.cons (Option.some_ne_none _) (.cons (Option.some_ne_none _)
      ⟨rfl, fun p hp hne => absurd (List.prefix_nil.mp hp) hne⟩))
  obtain ⟨rejected, drained, hlast, hdrained, -, -⟩ :=
    h timingQueue twoQueued lateCall 10 "bye" rfl hreturn
  have hcounts : some (QueueOutput.shutdownDone 1 1 : QueueOutput ℕ) =
      some (.shutdownDone rejected drained) := hlast
  have hnone : drained = 0 := hdrained
  rw [hnone] at hcounts
  simp at hcounts

end RatelimitFlex
