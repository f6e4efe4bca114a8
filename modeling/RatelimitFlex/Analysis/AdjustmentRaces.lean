import RatelimitFlex.Analysis.BlockAtomicity

/-!
# Adjustments while a key is deleted

A `penalty` or a `reward` makes the entry of its key before one await and dereferences it after,
and a `penalty` that sets a block writes the entry back after another.  A `delete` that removes
the entry in between makes the first throw and the second bring the key back.
-/

set_option autoImplicit false

namespace RatelimitFlex

open Library

variable {κ : Type} [DecidableEq κ] (o : KeyManagerOptions) (hasBlockStore : Bool)

/-! ## Removals, and what needs an entry -/

omit [DecidableEq κ] in
/-- The key that a step is about to remove for a `delete`. -/
def removedKey (i : Timed (KeyManagerInput κ)) (s : KeyManagerRun κ) : Option κ :=
  match i.op with
  | .resume n _ =>
    match s.pending[n]? with
    | some (.deleteLoading key) => if hasBlockStore then none else some key
    | some (.deleteRemoving key _) => some key
    | _ => none
  | _ => none

omit [DecidableEq κ] in
/-- The key that a call penalizes or rewards. -/
def adjustedKey (i : Timed (KeyManagerInput κ)) : Option κ :=
  match i.op with
  | .call (.penalty key _) => some key
  | .call (.reward key _) => some key
  | _ => none

omit [DecidableEq κ] in
/-- The key that a call blocks. -/
def blockedKey (i : Timed (KeyManagerInput κ)) : Option κ :=
  match i.op with
  | .call (.block key _ _) => some key
  | _ => none

omit [DecidableEq κ] in
/-- The key of a penalty or a reward that is about to count its points. -/
def countedKey (i : Timed (KeyManagerInput κ)) (s : KeyManagerRun κ) : Option κ :=
  match i.op with
  | .resume n _ =>
    match s.pending[n]? with
    | some (.penaltyCounting key _) => some key
    | some (.rewardCounting key _) => some key
    | _ => none
  | _ => none

/-- A penalty or a reward that counts its points, and a penalty that sets a block, finds the
entry of its key. -/
structure FindsEntry (i : Timed (KeyManagerInput κ)) (s : KeyManagerRun κ) : Prop where
  counted : ∀ k ∈ countedKey i s, s.km.adjustments k ≠ none
  violated : ∀ e ∈ violation o i s, s.km.adjustments e.1 ≠ none

/-! ## What a step does to `adjustments` -/

section Steps

variable {o} {hasBlockStore} {now : ℤ} {km : KeyManager κ} {s : KeyManagerRun κ}
  {i : Timed (KeyManagerInput κ)} {k : κ}

omit [DecidableEq κ] in
/-- An expiry changes no adjustment. -/
@[simp] theorem adjustments_expireDueBlocks :
    (km.expireDueBlocks now).adjustments = km.adjustments := rfl

variable (km) in
/-- Nor do violations that are cleared. -/
@[simp] theorem adjustments_clearViolations (key : κ) :
    (km.clearViolations key).adjustments = km.adjustments := by
  unfold KeyManager.clearViolations
  split
  · next r hr =>
    show Function.update km.adjustments key (some r) = km.adjustments
    rw [← hr, Function.update_eq_self]
  · rfl

/-- Nor a block that is lifted. -/
@[simp] theorem adjustments_liftBlock (key : κ) (wasReason : KeyBlockReason) :
    (km.liftBlock now key wasReason).adjustments = km.adjustments :=
  adjustments_clearViolations { km with blocks := km.blocks.erase key } key

variable (km) in
/-- Nor several of them. -/
theorem adjustments_foldl_liftBlock (entries : List (Sigma fun _ : κ => KeyBlock)) :
    (entries.foldl (fun km e => km.liftBlock now e.1 e.2.reason) km).adjustments =
      km.adjustments := by
  induction entries generalizing km with
  | nil => rfl
  | cons e entries ih => rw [List.foldl_cons, ih, adjustments_liftBlock]

/-- Nor all of them. -/
theorem adjustments_unblockAll : (km.unblockAll now).adjustments = km.adjustments :=
  adjustments_foldl_liftBlock (km.expireDueBlocks now) _

/-- A key that is touched has an adjustment. -/
theorem adjustments_touch_self (key : κ) : (km.touch o now key).adjustments key ≠ none := by
  unfold KeyManager.touch KeyManager.touchAdjustmentWindow
  split
  · simp [KeyManager.newAdjustment]
  · next r hr =>
    dsimp only
    split
    · simp [KeyManager.newAdjustment]
    · rw [hr]
      exact Option.some_ne_none r

/-- The others stay. -/
theorem adjustments_touch_of_ne {key : κ} (hk : k ≠ key) :
    (km.touch o now key).adjustments k = km.adjustments k := by
  unfold KeyManager.touch KeyManager.touchAdjustmentWindow
  split
  · exact Function.update_of_ne hk _ _
  · dsimp only
    split
    · exact Function.update_of_ne hk _ _
    · rfl

/-- A call. -/
theorem adjustments_begin (c : KeyManagerCall κ) (hc : adjustedKey ⟨now, .call c⟩ ≠ some k) :
    (s.begin o hasBlockStore now c).1.km.adjustments k = s.km.adjustments k := by
  cases c with
  | block key durationMs reason => rfl
  | unblock key =>
    simp only [KeyManagerRun.begin, KeyManager.unblockStart]
    cases (s.km.expireDueBlocks now).blocks.lookup key with
    | none => rfl
    | some entry =>
      cases hasBlockStore with
      | true => rfl
      | false =>
        show ((s.km.expireDueBlocks now).liftBlock now key entry.reason).adjustments k = _
        rw [adjustments_liftBlock, adjustments_expireDueBlocks]
  | unblockAll => exact congrFun adjustments_unblockAll k
  | penalty key points => exact adjustments_touch_of_ne fun h => hc (congrArg some h.symm)
  | reward key points => exact adjustments_touch_of_ne fun h => hc (congrArg some h.symm)
  | delete key => rfl
  | tick => rfl

/-- A penalty that sets a block writes the entry back. -/
theorem adjustments_penaltySettling (key : κ) (p : JsNumber) (r : ℕ)
    (snap : Option RateLimitResult) :
    (KeyManagerRun.advance o hasBlockStore now snap km (.penaltySettling key p r)).1.adjustments =
      if KeyManager.thresholdReached o (km.object key r).penaltyPoints = true ∧
          km.isManualBlockActive now key = false then
        Function.update km.adjustments key (some r)
      else km.adjustments := by
  have hsettle : (km.penaltySettle o now key p r snap).1.adjustments =
      if KeyManager.thresholdReached o (km.object key r).penaltyPoints = true ∧
          km.isManualBlockActive now key = false then
        Function.update km.adjustments key (some r)
      else km.adjustments := by
    have hactive : (km.emitTyped (.penalized key p (km.object key r).penaltyPoints
        (km.composeKeyStateInternal o now key snap) now)).isManualBlockActive now key =
        km.isManualBlockActive now key := rfl
    simp only [KeyManager.penaltySettle, hactive, Bool.and_eq_true, Bool.not_eq_true']
    split
    · rfl
    · rfl
  rw [← hsettle]
  simp only [KeyManagerRun.advance]
  generalize km.penaltySettle o now key p r snap = settled
  obtain ⟨km', state, next⟩ := settled
  cases next with
  | none => rfl
  | some b =>
    cases hasBlockStore with
    | true => rfl
    | false => rfl

/-- An operation that goes on, when it neither removes the key nor sets a block for it. -/
theorem adjustments_advance (snap : Option RateLimitResult) (p : KeyManagerPending κ)
    (hremoving : ∀ prev, p ≠ .deleteRemoving k prev)
    (hloading : hasBlockStore = false → p ≠ .deleteLoading k)
    (hsettling : ∀ points r, p = .penaltySettling k points r →
      ¬ (KeyManager.thresholdReached o (km.object k r).penaltyPoints = true ∧
        km.isManualBlockActive now k = false)) :
    (KeyManagerRun.advance o hasBlockStore now snap km p).1.adjustments k = km.adjustments k := by
  cases p with
  | block key b => rfl
  | unblock key entry =>
    show (km.liftBlock now key entry.reason).adjustments k = _
    rw [adjustments_liftBlock]
  | penaltyCounting key p =>
    simp only [KeyManagerRun.advance, KeyManager.penaltyCount]
    cases hr : km.adjustments key with
    | none => rfl
    | some r =>
      show Function.update km.adjustments key (some r) k = _
      rw [← hr, Function.update_eq_self]
  | penaltySettling key p r =>
    rw [adjustments_penaltySettling]
    split
    · next hcond =>
      refine Function.update_of_ne (fun h => ?_) _ _
      subst h
      exact hsettling p r rfl hcond
    · rfl
  | penaltyBlocking key b snap => rfl
  | rewardCounting key p =>
    simp only [KeyManagerRun.advance, KeyManager.rewardCount]
    cases hr : km.adjustments key with
    | none => rfl
    | some r =>
      show Function.update km.adjustments key (some r) k = _
      rw [← hr, Function.update_eq_self]
  | rewardSettling key p r => rfl
  | deleteLoading key =>
    cases hasBlockStore with
    | true => rfl
    | false => exact Function.update_of_ne (fun h => hloading rfl (congrArg _ h.symm)) _ _
  | deleteRemoving key previousState =>
    exact Function.update_of_ne (fun h => hremoving previousState (by rw [h])) _ _
  | deleteFinishing key previousState => rfl

/-- A step that starts no penalty and no reward of a key, removes it for no delete and sets no
block for a violation of it leaves its entry as it was. -/
theorem adjustments_step (hadjusted : adjustedKey i ≠ some k)
    (hremoved : removedKey hasBlockStore i s ≠ some k) (hviolation : ∀ d, violation o i s ≠ some (k, d)) :
    (KeyManagerRun.step o hasBlockStore i s).1.km.adjustments k = s.km.adjustments k := by
  obtain ⟨time, op⟩ := i
  cases op with
  | call c => exact adjustments_begin c hadjusted
  | fail n => rfl
  | resume n snap =>
    cases hp : s.pending[n]? with
    | none => simp only [KeyManagerRun.step, hp]
    | some p =>
      rw [(step_resume rfl hp).1]
      refine adjustments_advance snap p ?_ ?_ ?_
      · rintro prev rfl
        simp [removedKey, hp] at hremoved
      · rintro rfl rfl
        simp [removedKey, hp] at hremoved
      · rintro points r rfl hcond
        refine hviolation
          (KeyManager.penaltyDuration o ((s.km.object k r).penaltyViolationCount + 1)) ?_
        simp only [violation, hp]
        exact if_pos hcond

/-- A step of a delete that removes its key. -/
theorem step_of_removed (h : removedKey hasBlockStore i s = some k) :
    (KeyManagerRun.step o hasBlockStore i s).1.km.adjustments k = none ∧
      (KeyManagerRun.step o hasBlockStore i s).1.km.blocks.lookup k = none := by
  have hgone : (s.km.deleteRemove k).adjustments k = none ∧
      (s.km.deleteRemove k).blocks.lookup k = none :=
    ⟨Function.update_self _ _ _, (KeyManager.lookup_deleteRemove _ _ _).trans (if_pos rfl)⟩
  obtain ⟨time, op⟩ := i
  cases op with
  | call c => simp [removedKey] at h
  | fail n => simp [removedKey] at h
  | resume n snap =>
    cases hp : s.pending[n]? with
    | none => simp [removedKey, hp] at h
    | some p =>
      rw [(step_resume rfl hp).1]
      simp only [removedKey, hp] at h
      cases p with
      | deleteLoading key =>
        cases hasBlockStore with
        | true => simp at h
        | false =>
          obtain rfl : key = k := by simpa using h
          exact hgone
      | deleteRemoving key previousState =>
        obtain rfl := Option.some.inj h
        exact hgone
      | _ => simp at h

/-- A penalty that sets a block leaves an entry. -/
theorem adjustments_of_violation {d : JsNumber} (h : violation o i s = some (k, d)) :
    (KeyManagerRun.step o hasBlockStore i s).1.km.adjustments k ≠ none := by
  obtain ⟨n, snap, p, r, hop, hp, hcond, -⟩ := violation_eq_some h
  rw [(step_resume hop hp).1, adjustments_penaltySettling, if_pos hcond, Function.update_self]
  exact Option.some_ne_none r

/-- A key that a call has adjusted has one. -/
theorem adjustments_of_adjusted (h : adjustedKey i = some k) :
    (KeyManagerRun.step o hasBlockStore i s).1.km.adjustments k ≠ none := by
  obtain ⟨time, op⟩ := i
  cases op with
  | call c =>
    cases c with
    | penalty key points =>
      obtain rfl := Option.some.inj h
      exact adjustments_touch_self key
    | reward key points =>
      obtain rfl := Option.some.inj h
      exact adjustments_touch_self key
    | _ => simp [adjustedKey] at h
  | resume n snap => simp [adjustedKey] at h
  | fail n => simp [adjustedKey] at h

/-- A call throws exactly when its points are to be counted and there is no entry. -/
theorem threw_iff :
    (∃ k, (KeyManagerRun.step o hasBlockStore i s).2.op = .threw k) ↔
      ∃ k ∈ countedKey i s, s.km.adjustments k = none := by
  obtain ⟨time, op⟩ := i
  cases op with
  | call c =>
    refine iff_of_false ?_ (by simp [countedKey])
    rintro ⟨k, hk⟩
    change (s.begin o hasBlockStore time c).2 = .threw k at hk
    cases c with
    | unblock key =>
      simp only [KeyManagerRun.begin, KeyManager.unblockStart] at hk
      cases hentry : (s.km.expireDueBlocks time).blocks.lookup key with
      | none =>
        rw [hentry] at hk
        simp at hk
      | some entry =>
        rw [hentry] at hk
        cases hasBlockStore <;> simp at hk
    | _ => simp [KeyManagerRun.begin] at hk
  | fail n => simp [KeyManagerRun.step, countedKey]
  | resume n snap =>
    cases hp : s.pending[n]? with
    | none => simp [KeyManagerRun.step, countedKey, hp]
    | some p =>
      rw [(step_resume rfl hp).2]
      simp only [countedKey, hp]
      cases p with
      | penaltyCounting key p =>
        simp only [KeyManagerRun.advance, KeyManager.penaltyCount]
        cases hr : s.km.adjustments key <;> simp [hr]
      | rewardCounting key p =>
        simp only [KeyManagerRun.advance, KeyManager.rewardCount]
        cases hr : s.km.adjustments key <;> simp [hr]
      | penaltySettling key p r =>
        have hcases := advance_penaltySettling_cases o time s.km hasBlockStore key p r snap
        simp only at hcases
        split at hcases
        · obtain ⟨b, -, -, hout⟩ := hcases
          simp [hout]
        · simp [hcases.2]
      | deleteLoading key => cases hasBlockStore <;> simp [KeyManagerRun.advance]
      | _ => simp [KeyManagerRun.advance]

end Steps

/-! ## A key that stays away -/

section Runs

variable {o} {hasBlockStore} {s : KeyManagerRun κ} {i : Timed (KeyManagerInput κ)} {k : κ}

/-- Without an entry, a step that finds its entry and starts nothing of the key leaves none. -/
theorem adjustments_stay_none (h : s.km.adjustments k = none) (hfinds : FindsEntry o i s)
    (hadjusted : adjustedKey i ≠ some k) :
    (KeyManagerRun.step o hasBlockStore i s).1.km.adjustments k = none := by
  by_cases hremoved : removedKey hasBlockStore i s = some k
  · exact (step_of_removed hremoved).1
  · rw [adjustments_step hadjusted hremoved fun d hd => hfinds.violated (k, d) hd h]
    exact h

/-- And without a block, none is set. -/
theorem blocks_stay_none (hadj : s.km.adjustments k = none) (h : s.km.blocks.lookup k = none)
    (hfinds : FindsEntry o i s) (hblocked : blockedKey i ≠ some k) :
    (KeyManagerRun.step o hasBlockStore i s).1.km.blocks.lookup k = none := by
  have hchange := step_change (o := o) hasBlockStore i s
  have hplaced := @placed_of_step κ _ o hasBlockStore i s
  have hswept : ∀ {entry}, Swept i.time (s.km.blocks.lookup k) entry → entry = none := by
    rintro entry (rfl | rfl)
    · exact h
    · rw [h]
      rfl
  generalize KeyManagerRun.step o hasBlockStore i s = next at hchange hplaced ⊢
  obtain ⟨s', time, out⟩ := next
  cases hchange with
  | quiet h' => exact hswept (h' k)
  | threw key h' => exact hswept (h' k)
  | liftedAll h' => exact h' k
  | lifted key hkey h' =>
    by_cases hk : k = key
    · exact hk ▸ hkey
    · exact hswept (h' k hk)
  | placed key length b hends hkey h' =>
    by_cases hk : k = key
    · subst hk
      rcases hplaced rfl with ⟨d, reason, hop, -⟩ | ⟨d, hv, -⟩
      · exact absurd (by rw [blockedKey, hop]) hblocked
      · exact absurd hadj (hfinds.violated (k, d) hv)
    · exact hswept (h' k hk)

/-- A run after a removal. -/
theorem stays_gone {is : List (Timed (KeyManagerInput κ))} (hadj : s.km.adjustments k = none)
    (hblocks : s.km.blocks.lookup k = none)
    (hfinds : Guarded (FindsEntry o) (KeyManagerRun.step o hasBlockStore) is s)
    (hadjusted : ∀ i ∈ is, adjustedKey i ≠ some k) :
    (final (KeyManagerRun.step o hasBlockStore) is s).km.adjustments k = none ∧
      ((∀ i ∈ is, blockedKey i ≠ some k) →
        (final (KeyManagerRun.step o hasBlockStore) is s).km.blocks.lookup k = none) := by
  have hentry : (final (KeyManagerRun.step o hasBlockStore) is s).km.adjustments k = none := by
    clear hblocks
    induction is generalizing s with
    | nil => exact hadj
    | cons i is ih =>
      exact ih (adjustments_stay_none hadj hfinds.1 (hadjusted i List.mem_cons_self)) hfinds.2
        fun j hj => hadjusted j (List.mem_cons_of_mem i hj)
  refine ⟨hentry, fun hblocked => ?_⟩
  clear hentry
  induction is generalizing s with
  | nil => exact hblocks
  | cons i is ih =>
    exact ih (adjustments_stay_none hadj hfinds.1 (hadjusted i List.mem_cons_self))
      (blocks_stay_none hadj hblocks hfinds.1 (hblocked i List.mem_cons_self)) hfinds.2
      (fun j hj => hadjusted j (List.mem_cons_of_mem i hj))
      fun j hj => hblocked j (List.mem_cons_of_mem i hj)

omit [DecidableEq κ] in
/-- The operation is a penalty of `k` that may still set a block. -/
def Penalizes (k : κ) (p : KeyManagerPending κ) : Prop :=
  (∃ points, p = .penaltyCounting k points) ∨ ∃ points r, p = .penaltySettling k points r

/-- What a penalty goes on as comes from a penalty of the key. -/
theorem penalizes_of_advance {now : ℤ} {snap : Option RateLimitResult} {km : KeyManager κ}
    {p q : KeyManagerPending κ}
    (h : (KeyManagerRun.advance o hasBlockStore now snap km p).2.1 = some q)
    (hq : Penalizes k q) : Penalizes k p := by
  cases p with
  | penaltyCounting key points =>
    simp only [KeyManagerRun.advance, KeyManager.penaltyCount] at h
    cases hr : km.adjustments key with
    | none => simp [hr] at h
    | some r =>
      simp only [hr, Option.map_some, Option.some.injEq] at h
      subst h
      rcases hq with ⟨points', hq⟩ | ⟨points', r', hq⟩
      · simp at hq
      · obtain ⟨rfl, -, -⟩ := KeyManagerPending.penaltySettling.inj hq
        exact Or.inl ⟨points, rfl⟩
  | penaltySettling key points r =>
    simp only [KeyManagerRun.advance] at h
    generalize km.penaltySettle o now key points r snap = settled at h
    obtain ⟨km', state, next⟩ := settled
    cases next with
    | none => simp at h
    | some b =>
      cases hasBlockStore with
      | false => simp at h
      | true =>
        obtain rfl := Option.some.inj h
        rcases hq with ⟨points', hq⟩ | ⟨points', r', hq⟩ <;> simp at hq
  | rewardCounting key points =>
    simp only [KeyManagerRun.advance, KeyManager.rewardCount] at h
    cases hr : km.adjustments key with
    | none => simp [hr] at h
    | some r =>
      simp only [hr, Option.map_some, Option.some.injEq] at h
      subst h
      rcases hq with ⟨points', hq⟩ | ⟨points', r', hq⟩ <;> simp at hq
  | deleteLoading key =>
    cases hasBlockStore with
    | true =>
      obtain rfl := Option.some.inj h
      rcases hq with ⟨points', hq⟩ | ⟨points', r', hq⟩ <;> simp at hq
    | false =>
      obtain rfl := Option.some.inj h
      rcases hq with ⟨points', hq⟩ | ⟨points', r', hq⟩ <;> simp at hq
  | deleteRemoving key previousState =>
    obtain rfl := Option.some.inj h
    rcases hq with ⟨points', hq⟩ | ⟨points', r', hq⟩ <;> simp at hq
  | _ => simp [KeyManagerRun.advance] at h

/-- A call that does not penalize the key adds no penalty of it. -/
theorem penalizes_of_begin {now : ℤ} {c : KeyManagerCall κ} {p : KeyManagerPending κ}
    (hadjusted : adjustedKey ⟨now, .call c⟩ ≠ some k)
    (hp : p ∈ (s.begin o hasBlockStore now c).1.pending) (hk : Penalizes k p) :
    p ∈ s.pending := by
  have hnew : ∀ new : KeyManagerPending κ, ¬ Penalizes k new → p ∈ s.pending ++ [new] →
      p ∈ s.pending := by
    intro new hnot hmem
    rcases List.mem_append.mp hmem with hold | hlast
    · exact hold
    · exact absurd (List.mem_singleton.mp hlast ▸ hk) hnot
  cases c with
  | block key durationMs reason => exact hnew _ (by simp [Penalizes]) hp
  | unblock key =>
    simp only [KeyManagerRun.begin, KeyManager.unblockStart] at hp
    cases hentry : (s.km.expireDueBlocks now).blocks.lookup key with
    | none =>
      rw [hentry] at hp
      exact hp
    | some entry =>
      rw [hentry] at hp
      cases hasBlockStore with
      | true => exact hnew _ (by simp [Penalizes]) hp
      | false => exact hp
  | unblockAll => exact hp
  | penalty key points =>
    refine hnew _ ?_ hp
    rintro (⟨points', hq⟩ | ⟨points', r', hq⟩)
    · obtain ⟨rfl, -⟩ := KeyManagerPending.penaltyCounting.inj hq
      exact hadjusted rfl
    · simp at hq
  | reward key points => exact hnew _ (by simp [Penalizes]) hp
  | delete key => exact hnew _ (by simp [Penalizes]) hp
  | tick => exact hp

/-- A penalty that waits has been waiting, or was just called. -/
theorem penalizes_of_step (hadjusted : adjustedKey i ≠ some k)
    (h : ∃ p ∈ (KeyManagerRun.step o hasBlockStore i s).1.pending, Penalizes k p) :
    ∃ p ∈ s.pending, Penalizes k p := by
  obtain ⟨p, hp, hk⟩ := h
  obtain ⟨time, op⟩ := i
  cases op with
  | call c => exact ⟨p, penalizes_of_begin hadjusted hp hk, hk⟩
  | fail n => exact ⟨p, (List.eraseIdx_sublist _ _).subset hp, hk⟩
  | resume n snap =>
    cases hold : s.pending[n]? with
    | none =>
      simp only [KeyManagerRun.step, hold] at hp
      exact ⟨p, hp, hk⟩
    | some old =>
      simp only [KeyManagerRun.step, hold] at hp
      cases hnext : (KeyManagerRun.advance o hasBlockStore time snap s.km old).2.1 with
      | none =>
        simp only [hnext] at hp
        exact ⟨p, (List.eraseIdx_sublist _ _).subset hp, hk⟩
      | some next =>
        simp only [hnext] at hp
        rcases List.mem_or_eq_of_mem_set hp with hmem | rfl
        · exact ⟨p, hmem, hk⟩
        · exact ⟨old, List.mem_of_getElem? hold, penalizes_of_advance hnext hk⟩

/-- A penalty that waits without an entry waits since before its key was removed. -/
theorem removed_of_none {is : List (Timed (KeyManagerInput κ))}
    (hadj : (final (KeyManagerRun.step o hasBlockStore) is {}).km.adjustments k = none)
    (hwaits : ∃ p ∈ (final (KeyManagerRun.step o hasBlockStore) is {}).pending, Penalizes k p) :
    ∃ p i q, is = p ++ i :: q ∧
      removedKey hasBlockStore i (final (KeyManagerRun.step o hasBlockStore) p {}) = some k ∧
      ∀ j ∈ q, adjustedKey j ≠ some k := by
  induction is using List.reverseRecOn with
  | nil =>
    obtain ⟨p, hp, -⟩ := hwaits
    exact absurd hp List.not_mem_nil
  | append_singleton is i ih =>
    rw [final_append, final_cons, final_nil] at hadj hwaits
    have hadjusted : adjustedKey i ≠ some k := fun h => adjustments_of_adjusted h hadj
    have hviolation : ∀ d, violation o i (final (KeyManagerRun.step o hasBlockStore) is {}) ≠
        some (k, d) := fun d h => adjustments_of_violation h hadj
    by_cases hremoved : removedKey hasBlockStore i
        (final (KeyManagerRun.step o hasBlockStore) is {}) = some k
    · exact ⟨is, i, [], rfl, hremoved, fun j hj => absurd hj List.not_mem_nil⟩
    · rw [adjustments_step hadjusted hremoved hviolation] at hadj
      obtain ⟨p, j, q, rfl, hj, hq⟩ := ih hadj (penalizes_of_step hadjusted hwaits)
      refine ⟨p, j, q ++ [i], by simp, hj, fun j' hj' => ?_⟩
      rcases List.mem_append.mp hj' with hold | hnew
      · exact hq j' hold
      · rwa [List.mem_singleton.mp hnew]

end Runs

/-! ## Main result -/

/-- In every run, no call throws and a key that a `delete` removed has no entry and no block
until a penalty, a reward or a block of it is started again, exactly when every penalty and
reward that counts its points, and every penalty that sets a block, finds the entry of its key. -/
theorem adjustments_survive_iff (is : List (Timed (KeyManagerInput κ))) :
    ((∀ r ∈ outputs (KeyManagerRun.step o hasBlockStore) is {}, ∀ k, r.op ≠ .threw k) ∧
      ∀ p i q, p ++ i :: q <+: is →
        ∀ k ∈ removedKey hasBlockStore i (final (KeyManagerRun.step o hasBlockStore) p {}),
          (∀ j ∈ q, adjustedKey j ≠ some k) →
          (final (KeyManagerRun.step o hasBlockStore) (p ++ i :: q) {}).km.adjustments k = none ∧
            ((∀ j ∈ q, blockedKey j ≠ some k) →
              (final (KeyManagerRun.step o hasBlockStore) (p ++ i :: q) {}).km.blocks.lookup k =
                none)) ↔
      Guarded (FindsEntry o) (KeyManagerRun.step o hasBlockStore) is {} := by
  constructor
  · rintro ⟨hthrows, hgone⟩
    by_contra hg
    obtain ⟨p, i, rest, rfl, -, hi⟩ := exists_first_unguarded hg
    apply hi
    refine ⟨fun k hk hnone => ?_, fun e he hnone => ?_⟩
    · obtain ⟨k', hthrew⟩ := threw_iff.mpr ⟨k, hk, hnone⟩
      refine hthrows _ ?_ k' hthrew
      rw [outputs_append, outputs_cons]
      exact List.mem_append_right _ List.mem_cons_self
    · obtain ⟨k, d⟩ := e
      obtain ⟨n, snap, points, r, hop, hp, -, -⟩ := violation_eq_some he
      obtain ⟨p, j, q, rfl, hj, hq⟩ := removed_of_none hnone
        ⟨_, List.mem_of_getElem? hp, Or.inr ⟨points, r, rfl⟩⟩
      have hprefix : p ++ j :: (q ++ [i]) <+: p ++ j :: q ++ i :: rest := ⟨rest, by simp⟩
      have hstart : ∀ j' ∈ q ++ [i], adjustedKey j' ≠ some k := by
        intro j' hj'
        rcases List.mem_append.mp hj' with hold | hnew
        · exact hq j' hold
        · rw [List.mem_singleton.mp hnew, adjustedKey, hop]
          exact (Option.some_ne_none k).symm
      have hend := (hgone p j (q ++ [i]) hprefix k hj hstart).1
      have hlast : p ++ j :: (q ++ [i]) = (p ++ j :: q) ++ [i] := by simp
      rw [hlast, final_append] at hend
      exact adjustments_of_violation he hend
  · intro hg
    refine ⟨?_, ?_⟩
    · rw [forall_outputs_iff]
      refine hg.mono fun i s hi k hk => ?_
      obtain ⟨k', hk', hnone⟩ := threw_iff.mp ⟨k, hk⟩
      exact hi.counted k' hk' hnone
    · rintro p i q ⟨rest, rfl⟩ k hk hadjusted
      have hrun := (guarded_append.mp (guarded_append.mp hg).1).2
      obtain ⟨hadj, hblocks⟩ := step_of_removed (o := o) hk
      rw [final_append]
      exact stays_gone hadj hblocks hrun.2 hadjusted

/-- A delete comes between a penalty's call of the store and its return: the penalty throws.  It
comes between the count and the snapshot: the penalty brings the key back. -/
theorem adjustments_survive_fails :
    let thrown : List (Timed (KeyManagerInput ℕ)) :=
      [⟨0, .call (.penalty 9 1)⟩, ⟨0, .call (.delete 9)⟩, ⟨0, .resume 1 none⟩,
        ⟨0, .resume 0 none⟩]
    let back : List (Timed (KeyManagerInput ℕ)) :=
      [⟨0, .call (.penalty 9 2)⟩, ⟨0, .resume 0 none⟩, ⟨0, .call (.delete 9)⟩,
        ⟨0, .resume 1 none⟩, ⟨0, .resume 1 none⟩, ⟨0, .resume 0 none⟩]
    ⟨0, .threw 9⟩ ∈ outputs (KeyManagerRun.step secondForTwo false) thrown {} ∧
      (final (KeyManagerRun.step secondForTwo false) back {}).pending.length = 0 ∧
      (final (KeyManagerRun.step secondForTwo false) back {}).km.adjustments 9 = some 0 ∧
      ((final (KeyManagerRun.step secondForTwo false) back {}).km.isBlocked 500 9).1 = true := by
  decide +kernel

end RatelimitFlex
