import RatelimitFlex.Analysis.BlockLifecycle

/-!
# A `setBlock` that rejects

What `block` and `penalty` leave behind when the block store rejects their `setBlock`.  Both write
the entry before they await it, and `penalty` counts the violation before that; nothing is taken
back.  The count sits in an object that the entry of `adjustments` refers to, so the runs are
first shown to keep the references valid.
-/

set_option autoImplicit false

namespace RatelimitFlex

open Library

variable {κ : Type} [DecidableEq κ]

/-! ## References to adjustment objects -/

/-- Objects are only added, and an entry that changed refers to one of them. -/
def KeepsReferences (km km' : KeyManager κ) : Prop :=
  ∀ k, (km.objects k).length ≤ (km'.objects k).length ∧
    (km'.adjustments k = km.adjustments k ∨
      ∀ r, km'.adjustments k = some r → r < (km'.objects k).length)

namespace KeepsReferences

variable {o : KeyManagerOptions} {now : ℤ} {km km' km'' : KeyManager κ} {key : κ}

omit [DecidableEq κ] in
/-- References stay when neither they nor the objects change. -/
theorem of_eq (hadj : km'.adjustments = km.adjustments) (hobj : km'.objects = km.objects) :
    KeepsReferences km km' :=
  fun k => ⟨(congrArg List.length (congrFun hobj k)).ge, Or.inl (congrFun hadj k)⟩

omit [DecidableEq κ] in
/-- References that are kept twice are kept. -/
theorem trans (h : KeepsReferences km km') (h' : KeepsReferences km' km'') :
    KeepsReferences km km'' := by
  intro k
  obtain ⟨hlen, hadj⟩ := h k
  obtain ⟨hlen', hadj'⟩ := h' k
  refine ⟨hlen.trans hlen', ?_⟩
  rcases hadj' with heq | hvalid
  · rcases hadj with heq' | hvalid
    · exact Or.inl (heq.trans heq')
    · refine Or.inr fun r hr => ?_
      rw [heq] at hr
      exact (hvalid r hr).trans_le hlen'
  · exact Or.inr hvalid

/-- Changing an object keeps its place. -/
theorem modifyObject (key : κ) (r : ℕ) (f : KeyAdjustment → KeyAdjustment) :
    KeepsReferences km (km.modifyObject key r f) := by
  intro k
  refine ⟨?_, Or.inl rfl⟩
  by_cases hk : k = key
  · subst hk
    simp [KeyManager.modifyObject]
  · simp [KeyManager.modifyObject, Function.update_of_ne hk]

/-- A new object comes behind the old ones. -/
theorem newAdjustment (key : κ) (adj : KeyAdjustment) :
    KeepsReferences km (km.newAdjustment key adj) := by
  intro k
  by_cases hk : k = key
  · subst hk
    refine ⟨by simp [KeyManager.newAdjustment], Or.inr fun r hr => ?_⟩
    simp only [KeyManager.newAdjustment, Function.update_self, Option.some.injEq] at hr
    simp [KeyManager.newAdjustment, ← hr]
  · refine ⟨?_, Or.inl ?_⟩
    · simp [KeyManager.newAdjustment, Function.update_of_ne hk]
    · exact Function.update_of_ne hk _ _

/-- A key may refer to any object it has. -/
theorem setAdjustment {r : ℕ} (hr : r < (km.objects key).length) :
    KeepsReferences km (km.setAdjustment key r) := by
  intro k
  refine ⟨le_rfl, ?_⟩
  by_cases hk : k = key
  · subst hk
    right
    intro r' hr'
    simp only [KeyManager.setAdjustment, Function.update_self, Option.some.injEq] at hr'
    exact hr' ▸ hr
  · exact Or.inl (Function.update_of_ne hk _ _)

/-- An entry that is written back. -/
theorem setAdjustment_self {r : ℕ} (hr : km.adjustments key = some r) :
    KeepsReferences km (km.setAdjustment key r) := by
  refine .of_eq ?_ rfl
  rw [KeyManager.setAdjustment, ← hr, Function.update_eq_self]

/-- Clearing the violations keeps the references. -/
theorem clearViolations (key : κ) : KeepsReferences km (km.clearViolations key) := by
  unfold KeyManager.clearViolations
  split
  · next r hr => exact (modifyObject key r _).trans (setAdjustment_self hr)
  · exact .of_eq rfl rfl

/-- So does lifting a block. -/
theorem liftBlock (now : ℤ) (key : κ) (wasReason : KeyBlockReason) :
    KeepsReferences km (km.liftBlock now key wasReason) := by
  have hclear : KeepsReferences ({ km with blocks := km.blocks.erase key } : KeyManager κ) _ :=
    clearViolations key
  exact (KeepsReferences.of_eq rfl rfl).trans (hclear.trans (.of_eq rfl rfl))

/-- So does lifting all. -/
theorem unblockAll (now : ℤ) : KeepsReferences km (km.unblockAll now) := by
  have hfold : ∀ (entries : List (Sigma fun _ : κ => KeyBlock)) (km : KeyManager κ),
      KeepsReferences km (entries.foldl (fun km e => km.liftBlock now e.1 e.2.reason) km) := by
    intro entries
    induction entries with
    | nil => exact fun km => .of_eq rfl rfl
    | cons e entries ih => exact fun km => (liftBlock now e.1 e.2.reason).trans (ih _)
  exact (KeepsReferences.of_eq rfl rfl).trans (hfold _ (km.expireDueBlocks now))

/-- So does touching a key. -/
theorem touch (key : κ) : KeepsReferences km (km.touch o now key) := by
  unfold KeyManager.touch KeyManager.touchAdjustmentWindow
  have hexpire : KeepsReferences km (km.expireDueBlocks now) := .of_eq rfl rfl
  split
  · exact hexpire.trans (newAdjustment key _)
  · dsimp only
    split
    · exact hexpire.trans (newAdjustment key _)
    · exact hexpire

variable (o now) in
/-- So does a penalty that settles. -/
theorem penaltySettle {key : κ} {r : ℕ} (hr : r < (km.objects key).length) (p : JsNumber)
    (snap : Option RateLimitResult) :
    KeepsReferences km (km.penaltySettle o now key p r snap).1 := by
  unfold KeyManager.penaltySettle
  dsimp only
  split
  · have hemitted : KeepsReferences km (km.emitTyped (.penalized key p
        (km.object key r).penaltyPoints (km.composeKeyStateInternal o now key snap) now)) :=
      .of_eq rfl rfl
    have hcounted := hemitted.trans (modifyObject key r fun adj =>
      { adj with penaltyViolationCount := adj.penaltyViolationCount + 1 })
    exact (hcounted.trans (setAdjustment (hr.trans_le (hcounted key).1))).trans (.of_eq rfl rfl)
  · exact .of_eq rfl rfl

/-- So does a call that begins. -/
theorem begin (s : KeyManagerRun κ) (hasBlockStore : Bool) (c : KeyManagerCall κ) :
    KeepsReferences s.km (s.begin o hasBlockStore now c).1.km := by
  cases c with
  | block key durationMs reason => exact .of_eq rfl rfl
  | unblock key =>
    have hexpire : KeepsReferences s.km (s.km.expireDueBlocks now) := .of_eq rfl rfl
    simp only [KeyManagerRun.begin, KeyManager.unblockStart]
    cases (s.km.expireDueBlocks now).blocks.lookup key with
    | none => exact hexpire
    | some entry =>
      cases hasBlockStore with
      | true => exact hexpire
      | false => exact (hexpire.trans (liftBlock now key entry.reason)).trans (.of_eq rfl rfl)
  | unblockAll => exact unblockAll now
  | penalty key points => exact touch key
  | reward key points => exact touch key
  | delete key => exact .of_eq rfl rfl
  | tick => exact .of_eq rfl rfl

end KeepsReferences

/-- Every reference to an object of a key is to one that was made. -/
structure KeyManagerRun.Valid (s : KeyManagerRun κ) : Prop where
  adjustments : ∀ k r, s.km.adjustments k = some r → r < (s.km.objects k).length
  pending : ∀ k p r, .penaltySettling k p r ∈ s.pending → r < (s.km.objects k).length

namespace KeepsReferences

variable {o : KeyManagerOptions} {now : ℤ} {s : KeyManagerRun κ}

/-- A `delete` drops the reference of its key and keeps its objects. -/
theorem deleteRemove (km : KeyManager κ) (key : κ) : KeepsReferences km (km.deleteRemove key) := by
  intro k
  refine ⟨le_rfl, ?_⟩
  by_cases hk : k = key
  · subst hk
    right
    intro r hr
    simp [KeyManager.deleteRemove] at hr
  · exact Or.inl (Function.update_of_ne hk _ _)

/-- An operation that goes on. -/
theorem advance (h : s.Valid) (hasBlockStore : Bool) (snap : Option RateLimitResult)
    {p : KeyManagerPending κ} (hp : p ∈ s.pending) :
    KeepsReferences s.km (KeyManagerRun.advance o hasBlockStore now snap s.km p).1 := by
  cases p with
  | block key b => exact .of_eq rfl rfl
  | unblock key entry => exact (liftBlock now key entry.reason).trans (.of_eq rfl rfl)
  | penaltyCounting key p =>
    simp only [KeyManagerRun.advance, KeyManager.penaltyCount]
    cases hr : s.km.adjustments key with
    | none => exact .of_eq rfl rfl
    | some r => exact (modifyObject key r _).trans (setAdjustment_self hr)
  | penaltySettling key p r =>
    have hsettle := penaltySettle o now (h.pending key p r hp) p snap
    simp only [KeyManagerRun.advance]
    generalize s.km.penaltySettle o now key p r snap = settled at hsettle ⊢
    obtain ⟨km', state, next⟩ := settled
    cases next with
    | none => exact hsettle
    | some b =>
      cases hasBlockStore with
      | true => exact hsettle
      | false => exact hsettle.trans (.of_eq rfl rfl)
  | penaltyBlocking key b snap => exact .of_eq rfl rfl
  | rewardCounting key p =>
    simp only [KeyManagerRun.advance, KeyManager.rewardCount]
    cases hr : s.km.adjustments key with
    | none => exact .of_eq rfl rfl
    | some r => exact (modifyObject key r _).trans (setAdjustment_self hr)
  | rewardSettling key p r => exact .of_eq rfl rfl
  | deleteLoading key =>
    cases hasBlockStore with
    | true => exact .of_eq rfl rfl
    | false => exact deleteRemove s.km key
  | deleteRemoving key previousState => exact deleteRemove s.km key
  | deleteFinishing key previousState => exact .of_eq rfl rfl

end KeepsReferences

namespace KeyManagerRun

variable {o : KeyManagerOptions} {hasBlockStore : Bool} {s : KeyManagerRun κ}

/-- A penalty comes to its settling by its count. -/
theorem penaltySettling_of_advance {now : ℤ} {snap : Option RateLimitResult} {km : KeyManager κ}
    {p : KeyManagerPending κ} {key : κ} {points : JsNumber} {r : ℕ}
    (h : (advance o hasBlockStore now snap km p).2.1 = some (.penaltySettling key points r)) :
    km.adjustments key = some r := by
  cases p with
  | penaltyCounting k p =>
    simp only [advance, KeyManager.penaltyCount] at h
    cases hr : km.adjustments k with
    | none => simp [hr] at h
    | some r' =>
      simp only [hr, Option.map_some, Option.some.injEq,
        KeyManagerPending.penaltySettling.injEq] at h
      obtain ⟨rfl, -, rfl⟩ := h
      exact hr
  | penaltySettling k p r' =>
    simp only [advance] at h
    generalize km.penaltySettle o now k p r' snap = settled at h
    obtain ⟨km', state, next⟩ := settled
    cases next with
    | none => simp at h
    | some b => cases hasBlockStore <;> simp at h
  | rewardCounting k p =>
    simp only [advance, KeyManager.rewardCount] at h
    cases hr : km.adjustments k <;> simp [hr] at h
  | deleteLoading k => cases hasBlockStore <;> simp [advance] at h
  | _ => simp [advance] at h

/-- A call adds an operation that has not come to its settling. -/
theorem pending_begin {now : ℤ} (c : KeyManagerCall κ) {k : κ} {p : JsNumber} {r : ℕ}
    (h : .penaltySettling k p r ∈ (s.begin o hasBlockStore now c).1.pending) :
    .penaltySettling k p r ∈ s.pending := by
  cases c with
  | unblock key =>
    simp only [begin, KeyManager.unblockStart] at h
    cases hentry : (s.km.expireDueBlocks now).blocks.lookup key with
    | none =>
      rw [hentry] at h
      exact h
    | some entry =>
      rw [hentry] at h
      cases hasBlockStore with
      | true => simpa using h
      | false => exact h
  | unblockAll => exact h
  | tick => exact h
  | _ => simpa [begin] using h

omit [DecidableEq κ] in
/-- A state stays valid when its references are kept and its pending penalties refer to objects. -/
theorem Valid.of_keepsReferences {km : KeyManager κ} {pending : List (KeyManagerPending κ)}
    (h : s.Valid) (hkeeps : KeepsReferences s.km km)
    (hpending : ∀ k p r, .penaltySettling k p r ∈ pending →
      .penaltySettling k p r ∈ s.pending ∨ s.km.adjustments k = some r) :
    (⟨km, pending⟩ : KeyManagerRun κ).Valid where
  adjustments k r hr := by
    rcases (hkeeps k).2 with heq | hvalid
    · exact (h.adjustments k r (heq ▸ hr)).trans_le (hkeeps k).1
    · exact hvalid r hr
  pending k p r hp := by
    rcases hpending k p r hp with hold | hnew
    · exact (h.pending k p r hold).trans_le (hkeeps k).1
    · exact (h.adjustments k r hnew).trans_le (hkeeps k).1

/-- Every step keeps the state valid. -/
theorem Valid.step (h : s.Valid) (i : Timed (KeyManagerInput κ)) :
    (step o hasBlockStore i s).1.Valid := by
  unfold KeyManagerRun.step
  cases i.op with
  | call c =>
    exact h.of_keepsReferences (.begin s hasBlockStore c) fun k p r hp => Or.inl (pending_begin c hp)
  | fail n =>
    exact h.of_keepsReferences (.of_eq rfl rfl) fun k p r hp =>
      Or.inl ((List.eraseIdx_sublist _ _).subset hp)
  | resume n snap =>
    cases hp : s.pending[n]? with
    | none => simpa only [hp] using h
    | some p =>
      simp only [hp]
      refine h.of_keepsReferences
        (.advance h hasBlockStore snap (List.mem_of_getElem? hp)) fun k q r hq => ?_
      cases hnext : (advance o hasBlockStore i.time snap s.km p).2.1 with
      | none =>
        simp only [hnext] at hq
        exact Or.inl ((List.eraseIdx_sublist _ _).subset hq)
      | some next =>
        simp only [hnext] at hq
        rcases List.mem_or_eq_of_mem_set hq with hold | rfl
        · exact Or.inl hold
        · exact Or.inr (penaltySettling_of_advance hnext)

omit [DecidableEq κ] in
/-- The empty state is valid. -/
theorem Valid.start : ({} : KeyManagerRun κ).Valid where
  adjustments _ r hr := absurd hr.symm (Option.some_ne_none r)
  pending _ _ _ hp := absurd hp List.not_mem_nil

/-- So is the state after every run. -/
theorem Valid.final (h : s.Valid) (is : List (Timed (KeyManagerInput κ))) :
    (Library.final (KeyManagerRun.step o hasBlockStore) is s).Valid := by
  induction is generalizing s with
  | nil => exact h
  | cons i is ih => exact ih (h.step i)

end KeyManagerRun

/-! ## The count of a violation -/

section Counts

variable {o : KeyManagerOptions} {now : ℤ} {km : KeyManager κ} {key : κ} {r : ℕ}

/-- The object that was changed. -/
theorem object_modifyObject (hr : r < (km.objects key).length)
    (f : KeyAdjustment → KeyAdjustment) :
    (km.modifyObject key r f).object key r = f (km.object key r) := by
  simp [KeyManager.object, KeyManager.modifyObject, List.getElem?_eq_getElem hr]

/-- The adjustment of a key is the object it refers to. -/
theorem getAdjustment_setAdjustment :
    (km.setAdjustment key r).getAdjustment key = km.object key r := by
  simp [KeyManager.getAdjustment, KeyManager.setAdjustment, KeyManager.object]

/-- Changing an object adds none. -/
theorem length_modifyObject (key' : κ) (r' : ℕ) (f : KeyAdjustment → KeyAdjustment) :
    ((km.modifyObject key' r' f).objects key).length = (km.objects key).length := by
  by_cases hk : key = key'
  · subst hk
    simp [KeyManager.modifyObject]
  · simp [KeyManager.modifyObject, Function.update_of_ne hk]

variable (km key) in
/-- A new object is the entry of its key. -/
theorem newAdjustment_spec (adj : KeyAdjustment) :
    ∃ r, (km.newAdjustment key adj).adjustments key = some r ∧
      r < ((km.newAdjustment key adj).objects key).length ∧
      (km.newAdjustment key adj).object key r = adj := by
  refine ⟨(km.objects key).length, ?_, ?_, ?_⟩
  · simp [KeyManager.newAdjustment]
  · simp [KeyManager.newAdjustment]
  · simp [KeyManager.newAdjustment, KeyManager.object]

variable (o now) in
/-- A penalty or a reward begins with an entry, which has the violations so far. -/
theorem touch_spec (hvalid : ∀ r, km.adjustments key = some r → r < (km.objects key).length) :
    ∃ r, (km.touch o now key).adjustments key = some r ∧
      r < ((km.touch o now key).objects key).length ∧
      ((km.touch o now key).object key r).penaltyViolationCount =
        (km.getAdjustment key).penaltyViolationCount := by
  unfold KeyManager.touch KeyManager.touchAdjustmentWindow KeyManager.getAdjustment
  cases hr : km.adjustments key with
  | none =>
    have hnone : (km.expireDueBlocks now).adjustments key = none := hr
    simp only [hnone]
    obtain ⟨r, hadj, hlt, hobj⟩ := newAdjustment_spec (km.expireDueBlocks now) key
      { windowStart := now }
    exact ⟨r, hadj, hlt, by rw [hobj]⟩
  | some r =>
    have hsome : (km.expireDueBlocks now).adjustments key = some r := hr
    simp only [hsome]
    split
    · obtain ⟨r', hadj, hlt, hobj⟩ := newAdjustment_spec (km.expireDueBlocks now) key
        { windowStart := now, penaltyViolationCount :=
            ((km.expireDueBlocks now).object key r).penaltyViolationCount }
      exact ⟨r', hadj, hlt, by rw [hobj]; rfl⟩
    · exact ⟨r, hr, hvalid r hr, rfl⟩

/-- A penalty counts on the object the key refers to, and leaves its violations. -/
theorem penaltyCount_spec (hadj : km.adjustments key = some r)
    (hr : r < (km.objects key).length) (p : JsNumber) :
    ∃ km', km.penaltyCount key p = some (km', r) ∧ r < (km'.objects key).length ∧
      (km'.object key r).penaltyViolationCount = (km.object key r).penaltyViolationCount := by
  refine ⟨_, by rw [KeyManager.penaltyCount, hadj, Option.map_some], ?_, ?_⟩
  · exact hr.trans_eq (length_modifyObject key r _).symm
  · show ((km.modifyObject key r _).object key r).penaltyViolationCount = _
    rw [object_modifyObject hr]

/-- A penalty that sets a block has counted one more violation. -/
theorem penaltySettle_violations (hr : r < (km.objects key).length)
    (h : KeyManager.thresholdReached o (km.object key r).penaltyPoints = true ∧
      km.isManualBlockActive now key = false) (p : JsNumber) (snap : Option RateLimitResult) :
    ((km.penaltySettle o now key p r snap).1.getAdjustment key).penaltyViolationCount =
      (km.object key r).penaltyViolationCount + 1 := by
  let emitted := km.emitTyped (.penalized key p (km.object key r).penaltyPoints
    (km.composeKeyStateInternal o now key snap) now)
  have hactive : emitted.isManualBlockActive now key = km.isManualBlockActive now key := rfl
  let counted := emitted.modifyObject key r fun adj =>
    { adj with penaltyViolationCount := adj.penaltyViolationCount + 1 }
  have hcounted : (counted.object key r).penaltyViolationCount =
      (km.object key r).penaltyViolationCount + 1 := by
    have hlt : r < (emitted.objects key).length := hr
    have hobject : counted.object key r = _ := object_modifyObject hlt _
    rw [hobject]
    rfl
  have hsettled : (km.penaltySettle o now key p r snap).1.getAdjustment key =
      (counted.setAdjustment key r).getAdjustment key := by
    unfold KeyManager.penaltySettle
    dsimp only
    rw [if_pos (by rw [hactive, h.1, h.2]; rfl)]
    rfl
  rw [hsettled, ← hcounted, getAdjustment_setAdjustment]

end Counts

/-! ## Main result -/

/-- The event says that a key was blocked. -/
def KeyManagerEvent.saysBlocked : KeyManagerEvent κ → Bool
  | .blocked _ _ _ _ _ => true
  | _ => false

/-- The blocks that were not due at `now`, the violation counts and the blocked events are as they
were. -/
structure AsBefore (now : ℤ) (before after : KeyManager κ) : Prop where
  blocks : ∀ k, after.blocks.lookup k = (before.expireDueBlocks now).blocks.lookup k
  violations : ∀ k, (after.getAdjustment k).penaltyViolationCount =
    (before.getAdjustment k).penaltyViolationCount
  blocked : after.emitted.filter KeyManagerEvent.saysBlocked =
    before.emitted.filter KeyManagerEvent.saysBlocked

/-- A block is as it was before exactly when the same one was there. -/
theorem blockStart_asBefore_iff (now : ℤ) (km : KeyManager κ) (key : κ) (durationMs : JsNumber)
    (reason : KeyBlockReason) :
    AsBefore now km (km.blockStart now key durationMs reason) ↔
      (km.expireDueBlocks now).blocks.lookup key =
        some (KeyManager.blockEntry now durationMs reason) := by
  constructor
  · intro h
    rw [← h.blocks key, KeyManager.lookup_blockStart, if_pos rfl]
  · intro h
    refine ⟨fun k => ?_, fun k => rfl, ?_⟩
    · rw [KeyManager.lookup_blockStart]
      by_cases hk : k = key
      · rw [if_pos hk, hk, h]
      · rw [if_neg hk]
    · show (km.emitted ++ List.map _ _).filter _ = _
      rw [List.filter_append, List.append_right_eq_self, List.filter_eq_nil_iff]
      intro e he
      obtain ⟨entry, -, rfl⟩ := List.mem_map.mp he
      exact Bool.false_ne_true

/-- With a block store a penalty stops after it has settled. -/
theorem advance_penaltySettling_km (o : KeyManagerOptions) (now : ℤ) (km : KeyManager κ) (key : κ)
    (p : JsNumber) (r : ℕ) (snap : Option RateLimitResult) :
    (KeyManagerRun.advance o true now snap km (.penaltySettling key p r)).1 =
      (km.penaltySettle o now key p r snap).1 := by
  simp only [KeyManagerRun.advance]
  generalize km.penaltySettle o now key p r snap = settled
  obtain ⟨km', state, next⟩ := settled
  cases next with
  | none => rfl
  | some b => rfl

/-- The last operation that waits goes on. -/
theorem step_resume_last {o : KeyManagerOptions} {hasBlockStore : Bool} {km : KeyManager κ}
    {pending : List (KeyManagerPending κ)} (p : KeyManagerPending κ) (t : ℤ)
    (snap : Option RateLimitResult) :
    let next := KeyManagerRun.advance o hasBlockStore t snap km p
    (KeyManagerRun.step o hasBlockStore ⟨t, .resume pending.length snap⟩
      ⟨km, pending ++ [p]⟩).1 = ⟨next.1, pending ++ next.2.1.toList⟩ := by
  intro next
  have hp : (pending ++ [p])[pending.length]? = some p := List.getElem?_concat_length
  simp only [KeyManagerRun.step, hp]
  cases hnext : next.2.1 with
  | none => simp [next, List.eraseIdx_append_of_length_le]
  | some q => simp [next]

/-- A penalty whose `setBlock` rejected has counted its violation. -/
theorem penalty_violations {o : KeyManagerOptions} {s : KeyManagerRun κ} (hvalid : s.Valid)
    {now t u later : ℤ} {key : κ} {points : JsNumber} {snap snap' : Option RateLimitResult}
    (h : violation o ⟨u, .resume s.pending.length snap'⟩
      (final (KeyManagerRun.step o true)
        [⟨now, .call (.penalty key points)⟩, ⟨t, .resume s.pending.length snap⟩] s) ≠ none) :
    ((final (KeyManagerRun.step o true)
      [⟨now, .call (.penalty key points)⟩, ⟨t, .resume s.pending.length snap⟩,
        ⟨u, .resume s.pending.length snap'⟩, ⟨later, .fail s.pending.length⟩] s).km.getAdjustment
          key).penaltyViolationCount = (s.km.getAdjustment key).penaltyViolationCount + 1 := by
  obtain ⟨r, hadj, hr, htouched⟩ := touch_spec o now (hvalid.adjustments key)
  obtain ⟨km', hcount, hr', hcounted⟩ := penaltyCount_spec hadj hr (KeyManager.pointsOf points)
  have hcall : (KeyManagerRun.step o true ⟨now, .call (.penalty key points)⟩ s).1 =
      ⟨s.km.touch o now key, s.pending ++
        [.penaltyCounting key (KeyManager.pointsOf points)]⟩ := rfl
  have hresume : (KeyManagerRun.step o true ⟨t, .resume s.pending.length snap⟩
      ⟨s.km.touch o now key, s.pending ++
        [.penaltyCounting key (KeyManager.pointsOf points)]⟩).1 =
      ⟨km', s.pending ++ [.penaltySettling key (KeyManager.pointsOf points) r]⟩ := by
    rw [step_resume_last]
    simp [KeyManagerRun.advance, hcount]
  simp only [final_cons, final_nil, hcall, hresume] at h ⊢
  have hreached : KeyManager.thresholdReached o (km'.object key r).penaltyPoints = true ∧
      km'.isManualBlockActive u key = false := by
    by_contra hcond
    refine h ?_
    have hp : (s.pending ++ [.penaltySettling key (KeyManager.pointsOf points) r])[
        s.pending.length]? = some (.penaltySettling key (KeyManager.pointsOf points) r) :=
      List.getElem?_concat_length
    simp only [violation, hp]
    exact if_neg hcond
  rw [step_resume_last, advance_penaltySettling_km]
  show ((km'.penaltySettle o u key _ r snap').1.getAdjustment key).penaltyViolationCount = _
  rw [penaltySettle_violations hr' hreached, hcounted, htouched]

/-- A `block` whose `setBlock` rejected leaves everything as it was exactly when its key carried
that very entry before; a `penalty` whose `setBlock` rejected never does. -/
theorem setBlock_failure_atomic_iff (o : KeyManagerOptions)
    (is : List (Timed (KeyManagerInput κ))) :
    let s := final (KeyManagerRun.step o true) is {}
    let n := s.pending.length
    (∀ now later key durationMs reason,
      AsBefore now s.km (final (KeyManagerRun.step o true)
        [⟨now, .call (.block key durationMs reason)⟩, ⟨later, .fail n⟩] s).km ↔
      (s.km.expireDueBlocks now).blocks.lookup key =
        some (KeyManager.blockEntry now durationMs reason)) ∧
    ∀ now t u later key points snap snap',
      violation o ⟨u, .resume n snap'⟩ (final (KeyManagerRun.step o true)
        [⟨now, .call (.penalty key points)⟩, ⟨t, .resume n snap⟩] s) ≠ none →
      ¬ AsBefore now s.km (final (KeyManagerRun.step o true)
        [⟨now, .call (.penalty key points)⟩, ⟨t, .resume n snap⟩, ⟨u, .resume n snap'⟩,
          ⟨later, .fail n⟩] s).km := by
  intro s n
  have hvalid : s.Valid := KeyManagerRun.Valid.start.final is
  refine ⟨fun now later key durationMs reason => ?_, ?_⟩
  · exact blockStart_asBefore_iff now s.km key durationMs reason
  · intro now t u later key points snap snap' h hbefore
    have hsame := hbefore.violations key
    rw [penalty_violations hvalid h] at hsame
    omega

/-- Two points set a block of key 9, and its `setBlock` rejects. -/
theorem setBlock_failure_atomic_second :
    ¬ AsBefore 0 ({} : KeyManager ℕ) (final (KeyManagerRun.step secondForTwo true)
      [⟨0, .call (.penalty 9 2)⟩, ⟨0, .resume 0 none⟩, ⟨0, .resume 0 none⟩, ⟨5, .fail 0⟩] {}).km :=
  (setBlock_failure_atomic_iff secondForTwo []).2 0 0 0 5 9 2 none none (by decide +kernel)

/-- Key 7 is reported as not blocked, and is blocked. -/
theorem setBlock_failure_leaves_block :
    let km := (final (KeyManagerRun.step secondForTwo true)
      [⟨0, .call (.block 7 1000 .manual)⟩, ⟨5, .fail 0⟩] ({} : KeyManagerRun ℕ)).km
    ¬ AsBefore 0 {} km ∧ (km.isBlocked 500 7).1 = true := by
  refine ⟨fun h => ?_, by decide +kernel⟩
  have hkey := h.blocks 7
  revert hkey
  decide +kernel

end RatelimitFlex
