import RatelimitFlex.Program.RateLimiterQueue

/-!
# The list of `RateLimiterQueue` and the promises of its entries

The drain loop and its `finally` leave the list alone (`KeepsQueue`); a call that is accepted
appends an entry, and whatever removes entries settles them in the same run.  So at any
time the accepted entries are those settled so far and those in the list (`Listed`).  Only
the head of the list is resolved, so entries resolve in the order they came in.
-/

set_option autoImplicit false

namespace RatelimitFlex

open Library

variable {κ : Type} [DecidableEq κ]

/-- The entry an output accepts. -/
def QueueOutput.acceptedEntry {κ : Type} : QueueOutput κ → Option (QueueEntry κ)
  | .accepted entry => some entry
  | _ => none

/-- The entry an output settles. -/
def QueueOutput.settledEntry {κ : Type} : QueueOutput κ → Option (QueueEntry κ)
  | .settled entry _ => some entry
  | _ => none

/-- The entry an output resolves. -/
def QueueOutput.resolvedEntry {κ : Type} : QueueOutput κ → Option (QueueEntry κ)
  | .settled entry (.resolved _ _) => some entry
  | _ => none

/-- The entries accepted, in order. -/
def acceptedEntries {κ : Type} (outs : List (QueueOutput κ)) : List (QueueEntry κ) :=
  outs.filterMap QueueOutput.acceptedEntry

/-- The entries whose promises are settled, in order. -/
def settledEntries {κ : Type} (outs : List (QueueOutput κ)) : List (QueueEntry κ) :=
  outs.filterMap QueueOutput.settledEntry

/-- The entries whose promises are fulfilled, in order. -/
def resolvedEntries {κ : Type} (outs : List (QueueOutput κ)) : List (QueueEntry κ) :=
  outs.filterMap QueueOutput.resolvedEntry

section Entries

variable {κ : Type} (outs outs' : List (QueueOutput κ)) (entry : QueueEntry κ)

/-- The accepted entries of two stretches. -/
theorem acceptedEntries_append :
    acceptedEntries (outs ++ outs') = acceptedEntries outs ++ acceptedEntries outs' :=
  List.filterMap_append

/-- Their settled entries. -/
theorem settledEntries_append :
    settledEntries (outs ++ outs') = settledEntries outs ++ settledEntries outs' :=
  List.filterMap_append

/-- Their resolved entries. -/
theorem resolvedEntries_append :
    resolvedEntries (outs ++ outs') = resolvedEntries outs ++ resolvedEntries outs' :=
  List.filterMap_append

/-- A settlement accepts nothing. -/
theorem acceptedEntries_settled (settlement : QueueSettlement) :
    acceptedEntries (outs ++ [.settled entry settlement]) = acceptedEntries outs := by
  rw [acceptedEntries_append]
  exact List.append_nil _

end Entries

namespace RateLimiterQueue

variable {o : QueueOptions} {s : RateLimiterQueue κ}

/-- These outputs accept and settle nothing. -/
def Quiet (outs : List (QueueOutput κ)) : Prop :=
  acceptedEntries outs = [] ∧ settledEntries outs = [] ∧ resolvedEntries outs = []

/-- What a run does has no part in the list and its promises. -/
structure KeepsQueue (s : RateLimiterQueue κ) (r : RateLimiterQueue κ × List (QueueOutput κ)) :
    Prop where
  queue : r.1.queue = s.queue
  nextEntry : r.1.nextEntry = s.nextEntry
  quiet : Quiet r.2

omit [DecidableEq κ] in
/-- No outputs settle nothing. -/
theorem quiet_nil : Quiet ([] : List (QueueOutput κ)) := ⟨rfl, rfl, rfl⟩

omit [DecidableEq κ] in
/-- The head of a loop leaves the list alone. -/
theorem keepsQueue_loopHead (o : QueueOptions) (l : ℕ) (s : RateLimiterQueue κ) :
    KeepsQueue s (loopHead o l s) := by
  unfold loopHead
  split <;> exact ⟨rfl, rfl, rfl, rfl, rfl⟩

omit [DecidableEq κ] in
/-- So does a drain. -/
theorem keepsQueue_drain (o : QueueOptions) (s : RateLimiterQueue κ) :
    KeepsQueue s (drain o s) := by
  unfold drain
  split
  · exact ⟨rfl, rfl, quiet_nil⟩
  · have h := keepsQueue_loopHead o s.nextLoop
      { s with processing := true, nextLoop := s.nextLoop + 1 }
    exact ⟨h.queue, h.nextEntry, h.quiet⟩

omit [DecidableEq κ] in
/-- So does the answer to a decrement. -/
theorem keepsQueue_undone (o : QueueOptions) (l : ℕ) (now : ℤ) (s : RateLimiterQueue κ) :
    KeepsQueue s (undone o l now s) := by
  unfold undone
  split
  · exact keepsQueue_loopHead o l s
  · exact ⟨rfl, rfl, quiet_nil⟩
  · exact ⟨rfl, rfl, quiet_nil⟩

omit [DecidableEq κ] in
/-- So does a rejection by the store. -/
theorem keepsQueue_storeRejected (l : ℕ) (s : RateLimiterQueue κ) :
    KeepsQueue s (storeRejected l s, []) := by
  unfold storeRejected
  split
  · split <;> exact ⟨rfl, rfl, quiet_nil⟩
  · exact ⟨rfl, rfl, quiet_nil⟩

omit [DecidableEq κ] in
/-- So does the drain timer. -/
theorem keepsQueue_fireDrainTimer (o : QueueOptions) (s : RateLimiterQueue κ) :
    KeepsQueue s (fireDrainTimer o s) := by
  unfold fireDrainTimer
  split
  · have h := keepsQueue_drain o { s with drainTimer := none, processing := false }
    exact ⟨h.queue, h.nextEntry, h.quiet⟩
  · exact ⟨rfl, rfl, quiet_nil⟩

omit [DecidableEq κ] in
/-- An undo calls the store at most. -/
theorem quiet_undoCalls (o : QueueOptions) (l : ℕ) (entry : QueueEntry κ) (isBlocked : Bool) :
    Quiet (undoCalls o l entry isBlocked) := by
  unfold undoCalls
  cases o.strategy <;> cases isBlocked <;> exact ⟨rfl, rfl, rfl⟩

/-! ## The invariant -/

/-- After the outputs `outs` the list is `q`, no longer than allowed; the accepted entries are
the settled ones and those of `q`, and those resolved come in their order before those of
`q`. -/
structure Listed (o : QueueOptions) (outs : List (QueueOutput κ)) (q : List (QueueEntry κ))
    (s : RateLimiterQueue κ) : Prop where
  represents : s.queue.Represents q
  bounded : (q.length : ℕ∞) ≤ o.maxQueueSize
  accounted : (settledEntries outs ++ q).Perm (acceptedEntries outs)
  fresh : ∀ e ∈ acceptedEntries outs, e.id < s.nextEntry
  nodup : (acceptedEntries outs).Nodup
  fifo : (resolvedEntries outs ++ q).Sublist (acceptedEntries outs)

/-- After one run of the queue's code, with what it does outside, there is a list. -/
def ListedStep (o : QueueOptions) (outs : List (QueueOutput κ))
    (r : RateLimiterQueue κ × List (QueueOutput κ)) : Prop :=
  ∃ q', Listed o (outs ++ r.2) q' r.1

omit [DecidableEq κ] in
/-- The empty queue is listed. -/
theorem listed_init (o : QueueOptions) : Listed o [] [] ({} : RateLimiterQueue κ) where
  represents := LinkedList.represents_empty
  bounded := zero_le
  accounted := List.Perm.nil
  fresh := by simp [acceptedEntries]
  nodup := List.nodup_nil
  fifo := List.Sublist.refl _

variable {outs : List (QueueOutput κ)} {q : List (QueueEntry κ)}

omit [DecidableEq κ] in
/-- The other fields of the state do not matter. -/
theorem Listed.congr (h : Listed o outs q s) {s' : RateLimiterQueue κ}
    (hqueue : s'.queue = s.queue) (hnext : s'.nextEntry = s.nextEntry) :
    Listed o outs q s' where
  represents := by
    rw [hqueue]
    exact h.represents
  bounded := h.bounded
  accounted := h.accounted
  fresh := by
    rw [hnext]
    exact h.fresh
  nodup := h.nodup
  fifo := h.fifo

omit [DecidableEq κ] in
/-- Nor do outputs that accept and settle nothing. -/
theorem Listed.quiet (h : Listed o outs q s) {outs' : List (QueueOutput κ)} (hq : Quiet outs') :
    Listed o (outs ++ outs') q s where
  represents := h.represents
  bounded := h.bounded
  accounted := by
    rw [settledEntries_append, acceptedEntries_append, hq.1, hq.2.1, List.append_nil,
      List.append_nil]
    exact h.accounted
  fresh := by
    rw [acceptedEntries_append, hq.1, List.append_nil]
    exact h.fresh
  nodup := by
    rw [acceptedEntries_append, hq.1, List.append_nil]
    exact h.nodup
  fifo := by
    rw [resolvedEntries_append, acceptedEntries_append, hq.2.2, hq.1, List.append_nil,
      List.append_nil]
    exact h.fifo

omit [DecidableEq κ] in
/-- A run that keeps the list. -/
theorem Listed.keeps (h : Listed o outs q s)
    {r : RateLimiterQueue κ × List (QueueOutput κ)} (hr : KeepsQueue s r) :
    Listed o (outs ++ r.2) q r.1 :=
  (h.congr hr.queue hr.nextEntry).quiet hr.quiet

omit [DecidableEq κ] in
/-- One run after another. -/
theorem ListedStep.append {outs' : List (QueueOutput κ)}
    {r : RateLimiterQueue κ × List (QueueOutput κ)} (h : ListedStep o (outs ++ outs') r) :
    ListedStep o outs (r.1, outs' ++ r.2) := by
  obtain ⟨q', h⟩ := h
  rw [List.append_assoc] at h
  exact ⟨q', h⟩

/-- An entry leaves the list and is settled; it is resolved as the head only. -/
theorem Listed.leaves (h : Listed o outs q s) {entry : QueueEntry κ} (he : entry ∈ q)
    {settlement : QueueSettlement}
    (hhead : q.head? = some entry ∨ ∃ error, settlement = .rejected error)
    {s' : RateLimiterQueue κ} (hqueue : s'.queue = (s.queue.unlink entry).1)
    (hnext : s'.nextEntry = s.nextEntry) :
    Listed o (outs ++ [.settled entry settlement]) (q.erase entry) s' where
  represents := by
    rw [hqueue]
    exact (h.represents.unlink entry).1
  bounded := by
    refine le_trans ?_ h.bounded
    exact_mod_cast (List.erase_sublist (a := entry)).length_le
  accounted := by
    rw [settledEntries_append, acceptedEntries_settled, List.append_assoc]
    exact ((List.perm_cons_erase he).symm.append_left _).trans h.accounted
  fresh := by
    rw [hnext, acceptedEntries_settled]
    exact h.fresh
  nodup := by
    rw [acceptedEntries_settled]
    exact h.nodup
  fifo := by
    rw [resolvedEntries_append, acceptedEntries_settled]
    refine List.Sublist.trans ?_ h.fifo
    cases settlement with
    | rejected error =>
      have hnone : resolvedEntries [QueueOutput.settled entry (.rejected error)] = [] := rfl
      rw [hnone, List.append_nil]
      exact List.Sublist.append_left List.erase_sublist _
    | resolved remaining resetTime =>
      have hhead : q.head? = some entry := by simpa using hhead
      obtain ⟨rest, rfl⟩ := List.head?_eq_some_iff.mp hhead
      rw [List.erase_cons_head, List.append_assoc]
      exact List.Sublist.refl _

/-- An entry that leaves, and a drain after it. -/
theorem Listed.leaves_step (h : Listed o outs q s) {entry : QueueEntry κ} (he : entry ∈ q)
    {settlement : QueueSettlement}
    (hhead : q.head? = some entry ∨ ∃ error, settlement = .rejected error)
    {s' : RateLimiterQueue κ} {r : RateLimiterQueue κ × List (QueueOutput κ)}
    (hr : KeepsQueue s' r) (hqueue : s'.queue = (s.queue.unlink entry).1)
    (hnext : s'.nextEntry = s.nextEntry) :
    ListedStep o outs (r.1, .settled entry settlement :: r.2) := by
  have hleaves := (h.leaves he hhead hqueue hnext).keeps hr
  exact ListedStep.append ⟨_, hleaves⟩

/-! ## One run of the queue's code -/

omit [DecidableEq κ] in
/-- A call that is let in finds room. -/
theorem lt_maxQueueSize {cost : JsNumber} (h : s.refusal o cost = none) :
    (s.queue.length.toNat : ℕ∞) < o.maxQueueSize := by
  unfold refusal at h
  split at h
  · simp at h
  · split at h
    · simp at h
    · next hroom => exact not_le.mp hroom

/-- A new entry at the tail. -/
theorem Listed.enqueueTail (h : Listed o outs q s) {entry : QueueEntry κ}
    (hid : entry.id = s.nextEntry) (hroom : (s.queue.length.toNat : ℕ∞) < o.maxQueueSize)
    {s' : RateLimiterQueue κ} (hqueue : s'.queue = s.queue.enqueueTail entry)
    (hnext : s'.nextEntry = s.nextEntry + 1) :
    Listed o (outs ++ [.accepted entry]) (q ++ [entry]) s' := by
  have haccepted : acceptedEntries (outs ++ [.accepted entry]) = acceptedEntries outs ++ [entry] :=
    acceptedEntries_append _ _
  have hold : ∀ e ∈ acceptedEntries outs, e.id < entry.id := by
    rw [hid]
    exact h.fresh
  have hmem : ∀ e ∈ settledEntries outs ++ q, e ∈ acceptedEntries outs := h.accounted.subset
  have hq : entry ∉ q := fun he =>
    absurd (hold entry (hmem entry (List.mem_append_right _ he))) (lt_irrefl _)
  refine ⟨?_, ?_, ?_, ?_, ?_, ?_⟩
  · rw [hqueue]
    exact h.represents.enqueueTail hq
  · rw [h.represents.length, Int.toNat_natCast] at hroom
    rw [List.length_append, List.length_singleton]
    exact_mod_cast Order.add_one_le_of_lt hroom
  · rw [haccepted, settledEntries_append, ← List.append_assoc]
    have hnone : settledEntries [QueueOutput.accepted entry] = [] := rfl
    rw [hnone, List.append_nil]
    exact h.accounted.append_right [entry]
  · rw [haccepted, hnext]
    intro e he
    rcases List.mem_append.mp he with he | he
    · exact Nat.lt_succ_of_lt (h.fresh e he)
    · rw [List.mem_singleton.mp he, hid]
      exact Nat.lt_succ_self _
  · rw [haccepted, List.nodup_append]
    refine ⟨h.nodup, by simp, fun a ha b hb hab => ?_⟩
    have hlt := hold a ha
    rw [hab, List.mem_singleton.mp hb] at hlt
    exact lt_irrefl _ hlt
  · have hnone : resolvedEntries (outs ++ [.accepted entry]) = resolvedEntries outs := by
      rw [resolvedEntries_append]
      exact List.append_nil _
    rw [hnone, haccepted, ← List.append_assoc]
    exact h.fifo.append_right [entry]

/-- A request is put at the end, or settled at once. -/
theorem Listed.removeTokens (h : Listed o outs q s) (key : κ) (cost : JsNumber) :
    ListedStep o outs (s.removeTokens o key cost) := by
  unfold RateLimiterQueue.removeTokens
  split
  · exact ⟨q, h.quiet ⟨rfl, rfl, rfl⟩⟩
  · next hrefusal =>
    let entry : QueueEntry κ := ⟨s.nextEntry, key, cost⟩
    have hlisted : Listed o (outs ++ [.accepted entry]) (q ++ [entry])
        { s with
          queue := s.queue.enqueueTail entry
          timer := Function.update s.timer entry o.timesOut
          nextEntry := s.nextEntry + 1 } :=
      h.enqueueTail rfl (lt_maxQueueSize hrefusal) rfl rfl
    exact ListedStep.append ⟨_, hlisted.keeps (keepsQueue_drain o _)⟩

/-- All entries leave the list and are rejected. -/
theorem Listed.clearPending (h : Listed o outs q s) (error : QueueError) :
    Listed o (outs ++ (s.clearPending error).2) [] (s.clearPending error).1 := by
  have hout : (s.clearPending error).2 = q.map fun e => .settled e (.rejected error) := by
    rw [RateLimiterQueue.clearPending, h.represents.nodes_eq]
  have haccepted : acceptedEntries (s.clearPending error).2 = [] := by
    rw [hout]
    simp [acceptedEntries, QueueOutput.acceptedEntry]
  have hresolved : resolvedEntries (s.clearPending error).2 = [] := by
    rw [hout]
    simp [resolvedEntries, QueueOutput.resolvedEntry]
  have hsettled : settledEntries (s.clearPending error).2 = q := by
    rw [hout]
    simp [settledEntries, QueueOutput.settledEntry, Function.comp_def]
  refine ⟨h.represents.clear, zero_le, ?_, ?_, ?_, ?_⟩
  · rw [settledEntries_append, acceptedEntries_append, haccepted, hsettled, List.append_nil,
      List.append_nil]
    exact h.accounted
  · rw [acceptedEntries_append, haccepted, List.append_nil]
    exact h.fresh
  · rw [acceptedEntries_append, haccepted, List.append_nil]
    exact h.nodup
  · rw [resolvedEntries_append, acceptedEntries_append, hresolved, haccepted]
    simp only [List.append_nil]
    exact (List.sublist_append_left _ q).trans h.fifo

/-- The end of a shutdown settles everything that waits. -/
theorem Listed.finishShutdown (h : Listed o outs q s) (lenAtStart : ℤ) (reason : String) :
    ListedStep o outs (s.finishShutdown o lenAtStart reason) := by
  have hclear : Listed o (outs ++ (s.clearPending (.shutdownError reason)).2) []
      (s.finishShutdown o lenAtStart reason).1 :=
    (h.clearPending (.shutdownError reason)).congr rfl rfl
  refine ⟨[], ?_⟩
  unfold RateLimiterQueue.finishShutdown
  simp only [← List.append_assoc]
  refine (hclear.quiet ?_).quiet ⟨rfl, rfl, rfl⟩
  cases o.ownsStore <;> exact ⟨rfl, rfl, rfl⟩

/-- A shutdown keeps the list. -/
theorem Listed.shutdown (h : Listed o outs q s) (drainTimeoutMs : ℤ) (reason : String) :
    ListedStep o outs (s.shutdown o drainTimeoutMs reason) := by
  unfold RateLimiterQueue.shutdown
  split
  · exact ⟨q, h.keeps ⟨rfl, rfl, rfl, rfl, rfl⟩⟩
  · have hstart : Listed o outs q { s with shutdownQueueTimeoutUnlinks := 0, isShutdown := true } :=
      h.congr rfl rfl
    have hdrain := hstart.keeps (keepsQueue_drain o _)
    simp only
    split
    · exact ⟨q, hdrain.congr rfl rfl⟩
    · exact (hdrain.finishShutdown _ reason).append

/-- So does a poll of the shutdown. -/
theorem Listed.shutdownPoll (h : Listed o outs q s) : ListedStep o outs (s.shutdownPoll o) := by
  unfold RateLimiterQueue.shutdownPoll
  split
  · have hdrain := h.keeps (keepsQueue_drain o s)
    simp only
    split
    · exact ⟨q, hdrain.congr rfl rfl⟩
    · exact (hdrain.finishShutdown _ _).append
  · exact ⟨q, h.quiet quiet_nil⟩

/-- A timeout takes its entry out, wherever it is. -/
theorem Listed.queueTimeout (h : Listed o outs q s) (entry : QueueEntry κ) :
    ListedStep o outs (s.queueTimeout o entry) := by
  unfold RateLimiterQueue.queueTimeout
  split
  · simp only
    split
    · next hremoved =>
      have he : entry ∈ q := by
        rw [(h.represents.unlink entry).2] at hremoved
        exact of_decide_eq_true hremoved
      refine h.leaves_step he (Or.inr ⟨_, rfl⟩) (keepsQueue_drain o _) ?_ ?_ <;> split <;> rfl
    · next hkept =>
      have hsame : (s.queue.unlink entry).1 = s.queue :=
        LinkedList.unlink_eq_of_false (by simpa using hkept)
      exact ⟨q, h.keeps ⟨hsame, rfl, quiet_nil⟩⟩
  · exact ⟨q, h.quiet quiet_nil⟩

/-- The answer to an increment resolves the head or lets it wait. -/
theorem Listed.incremented (h : Listed o outs q s) (l : ℕ) (result : RateLimitResult) :
    ListedStep o outs (s.incremented o l result) := by
  unfold RateLimiterQueue.incremented
  split
  · next entry hl =>
    have hundo := quiet_undoCalls o l entry result.isBlocked
    simp only
    split
    · exact ⟨q, h.keeps ⟨rfl, rfl, hundo⟩⟩
    · next hhead =>
      split
      · exact ⟨q, h.keeps ⟨rfl, rfl, hundo⟩⟩
      · rw [not_not, h.represents.head] at hhead
        have hloop := keepsQueue_loopHead o l { s with
          queue := (s.queue.unlink entry).1
          timer := Function.update s.timer entry false }
        exact h.leaves_step (List.mem_of_head? hhead) (Or.inl hhead) hloop rfl rfl
  · exact ⟨q, h.quiet quiet_nil⟩

/-- One run of the queue's code. -/
theorem Listed.step (h : Listed o outs q s) (e : QueueEvent κ) :
    ListedStep o outs (step o e s) := by
  cases e with
  | removeTokens key cost => exact h.removeTokens key cost
  | clear =>
    unfold RateLimiterQueue.step RateLimiterQueue.clear
    simp only
    split
    · exact ⟨q, h.quiet ⟨rfl, rfl, rfl⟩⟩
    · exact ⟨[], h.clearPending .queueCleared⟩
  | shutdown drainTimeoutMs reason => exact h.shutdown drainTimeoutMs reason
  | queueTimeout entry => exact h.queueTimeout entry
  | drainTimer => exact ⟨q, h.keeps (keepsQueue_fireDrainTimer o s)⟩
  | shutdownPoll => exact h.shutdownPoll
  | incremented l result => exact h.incremented l result
  | undone l now => exact ⟨q, h.keeps (keepsQueue_undone o l now s)⟩
  | storeRejected l => exact ⟨q, h.keeps (keepsQueue_storeRejected l s)⟩

/-- What a run of the queue does outside, in order. -/
def runOutputs (o : QueueOptions) (es : List (QueueEvent κ)) (s : RateLimiterQueue κ) :
    List (QueueOutput κ) :=
  (outputs (RateLimiterQueue.step o) es s).flatten

/-- The outputs of a run, event after event. -/
theorem runOutputs_cons (o : QueueOptions) (e : QueueEvent κ) (es : List (QueueEvent κ))
    (s : RateLimiterQueue κ) :
    runOutputs o (e :: es) s =
      (RateLimiterQueue.step o e s).2 ++ runOutputs o es (RateLimiterQueue.step o e s).1 := by
  simp only [runOutputs, outputs_cons, List.flatten_cons]

/-- **Every run keeps the list**: an entry is settled as it leaves it. -/
theorem Listed.run (h : Listed o outs q s) (es : List (QueueEvent κ)) :
    ListedStep o outs (final (RateLimiterQueue.step o) es s, runOutputs o es s) := by
  induction es generalizing outs q s with
  | nil => exact ⟨q, h.quiet quiet_nil⟩
  | cons e es ih =>
    obtain ⟨q', h'⟩ := h.step e
    rw [runOutputs_cons]
    exact (ih h').append

end RateLimiterQueue

/-! ## Main result -/

/-- **The list and the promises.**  After any run of calls, timers and store answers, with
drain loops resuming in any order, the links form a list `q` of length `queueLength`, at most
`maxQueueSize`; no promise is settled twice, and of the accepted entries those and only those
are settled that are no longer in `q`.
SOURCE: src/queue/RateLimiterQueue.ts:222-273, 326-331, 360-453, 488-536 -/
theorem queue_settles_on_leaving (o : QueueOptions) (es : List (QueueEvent κ)) :
    let s := final (RateLimiterQueue.step o) es ({} : RateLimiterQueue κ)
    let outs := RateLimiterQueue.runOutputs o es ({} : RateLimiterQueue κ)
    ∃ q, s.queue.Represents q ∧ s.queue.length = q.length ∧ (q.length : ℕ∞) ≤ o.maxQueueSize ∧
      (acceptedEntries outs).Nodup ∧ (settledEntries outs).Nodup ∧
      (∀ e ∈ settledEntries outs, e ∈ acceptedEntries outs) ∧
      ∀ e ∈ acceptedEntries outs, (e ∈ settledEntries outs ↔ e ∉ q) := by
  intro s outs
  obtain ⟨q, h⟩ := (RateLimiterQueue.listed_init o).run es
  rw [List.nil_append] at h
  have hnodup : (settledEntries outs ++ q).Nodup := h.accounted.nodup_iff.mpr h.nodup
  obtain ⟨hsettled, -, hdisj⟩ := List.nodup_append.mp hnodup
  refine ⟨q, h.represents, h.represents.length, h.bounded, h.nodup, hsettled, ?_, ?_⟩
  · exact fun e he => h.accounted.subset (List.mem_append_left q he)
  · intro e he
    constructor
    · exact fun hs hq => hdisj e hs e hq rfl
    · intro hq
      rcases List.mem_append.mp (h.accounted.symm.subset he) with hs | hmem
      · exact hs
      · exact absurd hmem hq

end RatelimitFlex
