import RatelimitFlex.Program.RateLimiterQueue

/-!
# Who drains `RateLimiterQueue`

`processing` says that a drain loop is suspended or the drain timer is set, and so does a
nonempty list (`Driven`).  Each run of the queue's code ends in a loop that waits for the
store, in the timer, or with an empty list; only a store call that rejects ends a loop with
entries left.  `drain` does not handle it, so they are left to themselves unless another loop
is suspended or the timer is set.
-/

set_option autoImplicit false

namespace RatelimitFlex

open Library

variable {κ : Type} [DecidableEq κ]

namespace RateLimiterQueue

/-- A drain loop is suspended, or the drain timer is set. -/
def Active (s : RateLimiterQueue κ) : Prop := (∃ l, s.loops l ≠ none) ∨ s.drainTimer ≠ none

/-- Entries wait, and nothing is going to drain them. -/
def Stalled (s : RateLimiterQueue κ) : Prop := s.queue.head ≠ none ∧ ¬ s.Active

/-- Where entries wait or `processing` is set there is a loop or the timer. -/
structure Driven (s : RateLimiterQueue κ) : Prop where
  waiting : s.queue.head ≠ none → s.Active
  processing : s.processing = true → s.Active

/-- No store call rejects in the only suspended loop while entries wait and the drain timer
is not set. -/
def RejectionIsCovered (e : QueueEvent κ) (s : RateLimiterQueue κ) : Prop :=
  match e with
  | .storeRejected l => ∀ phase ∈ s.loops l, phase.callsStore = true → s.queue.head ≠ none →
      (∃ l', l' ≠ l ∧ s.loops l' ≠ none) ∨ s.drainTimer ≠ none
  | _ => True

variable {o : QueueOptions} {s : RateLimiterQueue κ}

omit [DecidableEq κ] in
/-- A timer that runs is activity. -/
theorem active_of_timer {d : ℤ} (h : s.drainTimer = some d) : s.Active := by
  refine Or.inr ?_
  simp [h]

omit [DecidableEq κ] in
/-- So is a loop in any phase. -/
theorem active_update (l : ℕ) (phase : DrainPhase κ) :
    ({ s with loops := Function.update s.loops l (some phase) } : RateLimiterQueue κ).Active := by
  refine Or.inl ⟨l, ?_⟩
  simp

omit [DecidableEq κ] in
/-- After the end of a loop there are the others, and the timer. -/
theorem active_endLoop (l : ℕ) :
    (s.endLoop l).Active ↔ (∃ l', l' ≠ l ∧ s.loops l' ≠ none) ∨ s.drainTimer ≠ none := by
  refine or_congr (exists_congr fun l' => ?_) Iff.rfl
  by_cases hl : l' = l
  · simp [endLoop, hl]
  · simp [endLoop, hl]

omit [DecidableEq κ] in
/-- A loop that is over with nothing left, or with the timer set. -/
theorem driven_endLoop (l : ℕ) (h : s.queue.head ≠ none → (s.endLoop l).Active) :
    (s.endLoop l).Driven where
  waiting := h
  processing hp := by
    cases ht : s.drainTimer with
    | none => simp [endLoop, ht] at hp
    | some d => exact active_of_timer (d := d) ht

omit [DecidableEq κ] in
/-- The head of the loop suspends it on the head of the list, or ends it with none. -/
theorem driven_loopHead (o : QueueOptions) (l : ℕ) (s : RateLimiterQueue κ) :
    (loopHead o l s).1.Driven := by
  unfold loopHead
  split
  · next hnone => exact driven_endLoop l fun hhead => absurd hnone hhead
  · next entry _ =>
    have hactive := active_update (s := s) l (.incrementing entry)
    exact ⟨fun _ => hactive, fun _ => hactive⟩

omit [DecidableEq κ] in
/-- After a drain somebody is at work on the list. -/
theorem driven_drain (o : QueueOptions) (h : s.processing = true → s.Active) :
    (drain o s).1.Driven := by
  unfold drain
  split
  · next hp => exact ⟨fun _ => h hp, h⟩
  · exact driven_loopHead o _ _

/-- A queue that was cleared has nothing that waits. -/
theorem driven_clearPending (error : QueueError) (s : RateLimiterQueue κ) :
    (s.clearPending error).1.Driven where
  waiting h := absurd rfl h
  processing h := by simp [clearPending] at h

/-- Nor has one whose shutdown has ended. -/
theorem driven_finishShutdown (o : QueueOptions) (lenAtStart : ℤ) (reason : String)
    (s : RateLimiterQueue κ) : (s.finishShutdown o lenAtStart reason).1.Driven := by
  have h := driven_clearPending (.shutdownError reason) s
  exact ⟨h.waiting, h.processing⟩

/-- A timeout leaves the others driven. -/
theorem Driven.queueTimeout (h : s.Driven) (o : QueueOptions) (entry : QueueEntry κ) :
    (s.queueTimeout o entry).1.Driven := by
  unfold RateLimiterQueue.queueTimeout
  split
  · simp only
    split
    · refine driven_drain o fun hp => ?_
      split at hp
      · simp at hp
      · next hkept =>
        rw [if_neg hkept]
        exact h.processing hp
    · next hkept =>
      have hsame : (s.queue.unlink entry).1 = s.queue :=
        LinkedList.unlink_eq_of_false (by simpa using hkept)
      rw [hsame]
      exact ⟨h.waiting, h.processing⟩
  · exact h

/-- One run of the queue's code. -/
theorem Driven.step (h : s.Driven) {e : QueueEvent κ} (he : RejectionIsCovered e s) :
    (step o e s).1.Driven := by
  cases e with
  | removeTokens key cost =>
    simp only [RateLimiterQueue.step, RateLimiterQueue.removeTokens]
    split
    · exact h
    · exact driven_drain o h.processing
  | clear =>
    simp only [RateLimiterQueue.step, RateLimiterQueue.clear]
    split
    · exact h
    · exact driven_clearPending _ s
  | shutdown drainTimeoutMs reason =>
    simp only [RateLimiterQueue.step, RateLimiterQueue.shutdown]
    split
    · exact ⟨h.waiting, h.processing⟩
    · split
      · have hd := driven_drain o (s := { s with
          shutdownQueueTimeoutUnlinks := 0
          isShutdown := true }) h.processing
        exact ⟨hd.waiting, hd.processing⟩
      · exact driven_finishShutdown o s.queue.length reason _
  | queueTimeout entry => exact h.queueTimeout o entry
  | drainTimer =>
    simp only [RateLimiterQueue.step, RateLimiterQueue.fireDrainTimer]
    split
    · exact driven_drain o fun hp => absurd hp (by simp)
    · exact h
  | shutdownPoll =>
    simp only [RateLimiterQueue.step, RateLimiterQueue.shutdownPoll]
    split
    · next pollsLeft lenAtStart reason _ =>
      split
      · have hd := driven_drain o h.processing
        exact ⟨hd.waiting, hd.processing⟩
      · exact driven_finishShutdown o lenAtStart reason _
    · exact h
  | incremented l result =>
    simp only [RateLimiterQueue.step, RateLimiterQueue.incremented]
    split
    · split
      · exact ⟨fun _ => active_update l _, fun _ => active_update l _⟩
      · split
        · exact ⟨fun _ => active_update l _, fun _ => active_update l _⟩
        · exact driven_loopHead o l _
    · exact h
  | undone l now =>
    simp only [RateLimiterQueue.step, RateLimiterQueue.undone]
    split
    · exact driven_loopHead o l s
    · exact driven_endLoop l fun _ => active_of_timer rfl
    · exact h
  | storeRejected l =>
    simp only [RateLimiterQueue.step, RateLimiterQueue.storeRejected]
    split
    · next phase hl =>
      split
      · next hcalls =>
        exact driven_endLoop l fun hhead => (active_endLoop l).mpr (he phase hl hcalls hhead)
      · exact h
    · exact h

omit [DecidableEq κ] in
/-- Nothing waits at the start. -/
theorem driven_init : ({} : RateLimiterQueue κ).Driven where
  waiting h := absurd rfl h
  processing h := by simp at h

/-- A run whose rejections are covered. -/
theorem Driven.run (h : s.Driven) {es : List (QueueEvent κ)}
    (hcovered : Guarded RejectionIsCovered (RateLimiterQueue.step o) es s) :
    (final (RateLimiterQueue.step o) es s).Driven := by
  induction es generalizing s with
  | nil => exact h
  | cons e es ih => exact ih (h.step hcovered.1) hcovered.2

/-- A rejection that is not covered leaves the entries to themselves. -/
theorem stalled_of_not_covered {e : QueueEvent κ} (h : ¬ RejectionIsCovered e s) :
    (RateLimiterQueue.step o e s).1.Stalled := by
  cases e with
  | storeRejected l =>
    simp only [RejectionIsCovered, not_forall] at h
    obtain ⟨phase, hl, hcalls, hhead, hnone⟩ := h
    have hend : (RateLimiterQueue.step o (.storeRejected l) s).1 = s.endLoop l := by
      simp only [RateLimiterQueue.step, RateLimiterQueue.storeRejected, Option.mem_def.mp hl,
        hcalls, if_true]
    rw [hend]
    exact ⟨hhead, fun hactive => hnone ((active_endLoop l).mp hactive)⟩
  | removeTokens key cost => exact absurd trivial h
  | clear => exact absurd trivial h
  | shutdown drainTimeoutMs reason => exact absurd trivial h
  | queueTimeout entry => exact absurd trivial h
  | drainTimer => exact absurd trivial h
  | shutdownPoll => exact absurd trivial h
  | incremented l result => exact absurd trivial h
  | undone l now => exact absurd trivial h

end RateLimiterQueue

/-! ## Main result -/

/-- **No lost wakeup.**  At every moment of a run entries that wait have a suspended drain loop
or the drain timer, exactly when no store call rejects in the only suspended loop while
entries wait and the timer is not set.
SOURCE: src/queue/RateLimiterQueue.ts:251-273, 435-460, 488-536 -/
theorem queue_never_stalls_iff (o : QueueOptions) (es : List (QueueEvent κ)) :
    (∀ p, p <+: es → ¬ (final (RateLimiterQueue.step o) p ({} : RateLimiterQueue κ)).Stalled) ↔
      Guarded RateLimiterQueue.RejectionIsCovered (RateLimiterQueue.step o) es {} := by
  constructor
  · intro h
    by_contra hnot
    obtain ⟨p, e, rest, rfl, -, he⟩ := exists_first_unguarded hnot
    refine h (p ++ [e]) ⟨rest, by simp⟩ ?_
    rw [final_append, final_cons, final_nil]
    exact RateLimiterQueue.stalled_of_not_covered he
  · rintro h p ⟨rest, rfl⟩ ⟨hhead, hactive⟩
    have hprefix := (guarded_append.mp h).1
    exact hactive ((RateLimiterQueue.driven_init.run hprefix).waiting hhead)

/-- A caller waits, and the increment for it rejects. -/
theorem queue_stalls_on_rejection :
    (final (RateLimiterQueue.step { maxRequests := 2 })
      [.removeTokens 7 1, .storeRejected 0] ({} : RateLimiterQueue ℕ)).Stalled := by
  have hnot : ¬ RateLimiterQueue.RejectionIsCovered (.storeRejected 0)
      (final (RateLimiterQueue.step { maxRequests := 2 }) [.removeTokens 7 1]
        ({} : RateLimiterQueue ℕ)) := by
    intro hcovered
    have hwork := hcovered (.incrementing ⟨0, 7, 1⟩) rfl rfl (by decide)
    rcases hwork with ⟨l, hl, hloop⟩ | htimer
    · exact hloop (Function.update_of_ne hl _ _)
    · exact htimer rfl
  exact RateLimiterQueue.stalled_of_not_covered hnot

end RatelimitFlex
