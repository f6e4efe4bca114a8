import RatelimitFlex.Program.KeyManagerRuns

/-!
# The life of a block

What the readers of `blocks` say of a key at a time `t`, against the latest block placed on the
key: it is in force until its time is over or it is lifted.  The readers compare dates, strictly
in one and not strictly in another, and a date can be invalid; a run is followed by one relation
between the entry of a key and the latest block of the key.
-/

set_option autoImplicit false

namespace RatelimitFlex

open Library

/-! ## The latest block of a key -/

/-- A block as it was asked for: from `start`, for `length` or for good. -/
structure PlacedBlock where
  start : ℤ
  length : Option JsNumber
  deriving DecidableEq

/-- The block is for good, or `t < start + length`. -/
def PlacedBlock.InForce (b : PlacedBlock) (t : ℤ) : Prop :=
  match b.length with
  | none => True
  | some d => (JsNumber.ofInt t).lt ((JsNumber.ofInt b.start).add d) = true

section Latest

variable {κ : Type} [DecidableEq κ]

/-- The latest block of `k` after one more step. -/
def latestStep (k : κ) (latest : Option PlacedBlock) (r : Timed (KeyManagerOutput κ)) :
    Option PlacedBlock :=
  match r.op with
  | .quiet => latest
  | .placed key length => if k = key then some ⟨r.time, length⟩ else latest
  | .lifted key => if k = key then none else latest
  | .liftedAll => none
  | .threw _ => latest

/-- The latest block of `k` that was not lifted since. -/
def latestBlock (k : κ) (rs : List (Timed (KeyManagerOutput κ))) : Option PlacedBlock :=
  rs.foldl (latestStep k) none

end Latest

/-- At `t` the readers of `blocks` agree with each other and with the latest block of `k`. -/
structure BlocksAgree {κ : Type} [DecidableEq κ] (t : ℤ) (k : κ) (km : KeyManager κ)
    (latest : Option PlacedBlock) : Prop where
  isBlocked : (km.isBlocked t k).1 = true ↔ ∃ b, latest = some b ∧ b.InForce t
  getBlockInfo : (km.getBlockInfo t k).1 ≠ none ↔ (km.isBlocked t k).1 = true
  getBlockedKeys : (∃ e ∈ (km.getBlockedKeys t).1, e.1 = k) ↔ (km.isBlocked t k).1 = true

/-! ## Dates -/

namespace JsNumber

/-- Whole numbers add as they do. -/
theorem add_ofInt (a b : ℤ) : (ofInt a).add (ofInt b) = ofInt (a + b) := by
  simp [ofInt, add]

/-- They compare as they do. -/
theorem lt_ofInt (a b : ℤ) : (ofInt a).lt (ofInt b) = decide (a < b) := by
  simp [ofInt, lt]

/-- A whole number below zero is raised to zero. -/
theorem max_zero_ofInt (z : ℤ) : max 0 (ofInt z) = ofInt z.toNat := by
  show max (ofInt 0) (ofInt z) = _
  unfold max
  rw [if_neg (by simp [ofInt])]
  by_cases hz : 0 ≤ z
  · have hle : (ofInt 0).le (ofInt z) = true := by simpa [ofInt, le] using hz
    rw [if_pos hle, Int.toNat_of_nonneg hz]
  · have hle : ¬ (ofInt 0).le (ofInt z) = true := by simpa [ofInt, le] using hz
    rw [if_neg hle, Int.toNat_of_nonpos (by omega)]
    rfl

/-- What `Math.max(0, Math.floor(x))` can be. -/
theorem max_zero_floor_cases (x : JsNumber) :
    max 0 x.floor = .nan ∨ max 0 x.floor = .posInfinity ∨ ∃ d : ℕ, max 0 x.floor = ofInt d := by
  cases x with
  | nan => exact Or.inl rfl
  | posInfinity => exact Or.inr (Or.inl rfl)
  | negInfinity => exact Or.inr (Or.inr ⟨0, rfl⟩)
  | finite q => exact Or.inr (Or.inr ⟨⌊q⌋.toNat, max_zero_ofInt ⌊q⌋⟩)

end JsNumber

namespace JsDate

/-- A number of milliseconds that a date can hold is that time. -/
theorem ofNumber_ofInt {z : ℤ} (h : |z| ≤ maxDateMs) : ofNumber (.ofInt z) = .time z := by
  have hq : |(z : ℚ)| ≤ (maxDateMs : ℤ) := by exact_mod_cast h
  simp only [JsNumber.ofInt, ofNumber, Int.floor_intCast, Int.ceil_intCast, ite_self]
  exact if_pos hq

/-- Any other makes an invalid date. -/
theorem ofNumber_ofInt_eq_invalid {z : ℤ} (h : maxDateMs < |z|) :
    ofNumber (.ofInt z) = .invalid := by
  have hq : ¬ |(z : ℚ)| ≤ (maxDateMs : ℤ) := by
    rw [not_le]
    exact_mod_cast h
  exact if_neg hq

end JsDate

/-! ## What a step does to `blocks` -/

section Steps

variable {κ : Type} [DecidableEq κ] (o : KeyManagerOptions)

/-- The entry of a key is as it was, or it was due and was dropped. -/
def Swept (now : ℤ) (entry entry' : Option KeyBlock) : Prop :=
  entry' = entry ∨ entry' = entry.bind fun v => if v.isDue now then none else some v

/-- `blocks` before and after a step, by what the step did. -/
inductive BlocksChange (now : ℤ) (km km' : KeyManager κ) : KeyManagerOutput κ → Prop
  | quiet (h : ∀ k, Swept now (km.blocks.lookup k) (km'.blocks.lookup k)) :
    BlocksChange now km km' .quiet
  | threw (key : κ) (h : ∀ k, Swept now (km.blocks.lookup k) (km'.blocks.lookup k)) :
    BlocksChange now km km' (.threw key)
  | placed (key : κ) (length : Option JsNumber) (b : KeyBlock)
      (hends : b.expiresAt = length.map fun d => .ofNumber ((JsNumber.ofInt now).add d))
      (hkey : km'.blocks.lookup key = some b)
      (h : ∀ k, k ≠ key → Swept now (km.blocks.lookup k) (km'.blocks.lookup k)) :
    BlocksChange now km km' (.placed key length)
  | lifted (key : κ) (hkey : km'.blocks.lookup key = none)
      (h : ∀ k, k ≠ key → Swept now (km.blocks.lookup k) (km'.blocks.lookup k)) :
    BlocksChange now km km' (.lifted key)
  | liftedAll (h : ∀ k, km'.blocks.lookup k = none) : BlocksChange now km km' .liftedAll

variable {o} {now : ℤ} {km : KeyManager κ}

/-- An expiry sweeps every entry. -/
theorem swept_expireDueBlocks (k : κ) :
    Swept now (km.blocks.lookup k) ((km.expireDueBlocks now).blocks.lookup k) :=
  Or.inr (KeyManager.lookup_expireDueBlocks _ _ _)

/-- What changes no block sweeps nothing, which is a sweep too. -/
theorem swept_of_blocks_eq {km' : KeyManager κ} (h : km'.blocks = km.blocks) (k : κ) :
    Swept now (km.blocks.lookup k) (km'.blocks.lookup k) :=
  Or.inl (congrArg _ h)

variable (o now km) in
/-- What a violation leaves. -/
theorem penaltySettle_cases (key : κ) (p : JsNumber) (r : ℕ) (snap : Option RateLimitResult) :
    let km' := km.penaltySettle o now key p r snap
    if KeyManager.thresholdReached o (km.object key r).penaltyPoints = true ∧
        km.isManualBlockActive now key = false then
      ∃ b, km'.2.2 = some b ∧ km'.1.blocks = km.blocks.set key b ∧
        b.expiresAt = some (.ofNumber ((JsNumber.ofInt now).add
          (KeyManager.penaltyDuration o ((km.object key r).penaltyViolationCount + 1))))
    else km'.2.2 = none ∧ km'.1.blocks = km.blocks := by
  intro km'
  have hactive : (km.emitTyped (.penalized key p (km.object key r).penaltyPoints
      (km.composeKeyStateInternal o now key snap) now)).isManualBlockActive now key =
      km.isManualBlockActive now key := rfl
  by_cases h : KeyManager.thresholdReached o (km.object key r).penaltyPoints = true ∧
      km.isManualBlockActive now key = false
  · rw [if_pos h]
    have hkm' : km' = km.penaltySettle o now key p r snap := rfl
    simp only [KeyManager.penaltySettle, hactive, h.1, h.2] at hkm'
    rw [hkm']
    exact ⟨_, rfl, rfl, rfl⟩
  · rw [if_neg h]
    have hkm' : km' = km.penaltySettle o now key p r snap := rfl
    have hfalse : (KeyManager.thresholdReached o (km.object key r).penaltyPoints &&
        !km.isManualBlockActive now key) = false := by
      rw [← Bool.not_eq_true, Bool.and_eq_true, Bool.not_eq_true']
      exact h
    simp only [KeyManager.penaltySettle, hactive, hfalse] at hkm'
    rw [hkm']
    exact ⟨rfl, rfl⟩

/-- Two sweeps are one. -/
theorem Swept.trans {a b c : Option KeyBlock} (hab : Swept now a b) (hbc : Swept now b c) :
    Swept now a c := by
  rcases hab with rfl | rfl
  · exact hbc
  · rcases hbc with rfl | rfl
    · exact Or.inr rfl
    · right
      cases a with
      | none => rfl
      | some v =>
        by_cases hv : v.isDue now = true
        · simp [hv]
        · simp [hv]

/-- An unblock removes the entry of its key, and sweeps the others. -/
theorem lookup_unblockRemove (key k : κ) (entry : KeyBlock) :
    (km.unblockRemove now key entry).blocks.lookup k =
      (if k = key then none else km.blocks.lookup k).bind fun v =>
        if v.isDue now then none else some v := by
  rw [KeyManager.unblockRemove, KeyManager.lookup_expireDueBlocks, KeyManager.blocks_liftBlock,
    InsertionMap.lookup_erase']

/-- An unblock that goes through, on what the sweeps before it left. -/
theorem unblockRemove_change {swept : KeyManager κ}
    (hswept : ∀ k, Swept now (km.blocks.lookup k) (swept.blocks.lookup k)) (key : κ)
    (entry : KeyBlock) : BlocksChange now km (swept.unblockRemove now key entry) (.lifted key) := by
  refine .lifted key ?_ fun k hk => ?_
  · rw [lookup_unblockRemove, if_pos rfl]
    rfl
  · rw [lookup_unblockRemove, if_neg hk]
    exact (hswept k).trans (Or.inr rfl)

/-- Touching a key changes no block. -/
theorem touch_change (key : κ) : BlocksChange now km (km.touch o now key) .quiet := by
  refine .quiet fun k => ?_
  rw [KeyManager.touch, KeyManager.blocks_touchAdjustmentWindow]
  exact swept_expireDueBlocks k

/-- A `delete` lifts the block of its key. -/
theorem deleteRemove_change (key : κ) :
    BlocksChange now km (km.deleteRemove key) (.lifted key) := by
  refine .lifted key ?_ fun k hk => ?_
  · rw [KeyManager.lookup_deleteRemove, if_pos rfl]
  · rw [KeyManager.lookup_deleteRemove, if_neg hk]
    exact Or.inl rfl

/-- A call. -/
theorem begin_change (s : KeyManagerRun κ) (hasBlockStore : Bool) (c : KeyManagerCall κ) :
    BlocksChange now s.km (s.begin o hasBlockStore now c).1.km
      (s.begin o hasBlockStore now c).2 := by
  cases c with
  | block key durationMs reason =>
    refine .placed key _ (KeyManager.blockEntry now durationMs reason) ?_ ?_ fun k hk => ?_
    · unfold KeyManager.blockEntry
      by_cases hd : durationMs = 0
      · rw [if_pos hd, if_pos hd]
        rfl
      · rw [if_neg hd, if_neg hd]
        rfl
    · exact (KeyManager.lookup_blockStart _ _ _ _ _ _).trans (if_pos rfl)
    · show Swept now _ ((s.km.blockStart now key durationMs reason).blocks.lookup k)
      rw [KeyManager.lookup_blockStart, if_neg hk]
      exact swept_expireDueBlocks k
  | unblock key =>
    simp only [KeyManagerRun.begin, KeyManager.unblockStart]
    cases (s.km.expireDueBlocks now).blocks.lookup key with
    | none => exact .quiet fun k => swept_expireDueBlocks k
    | some entry =>
      cases hasBlockStore with
      | true => exact .quiet fun k => swept_expireDueBlocks k
      | false => exact unblockRemove_change swept_expireDueBlocks key entry
  | unblockAll => exact .liftedAll fun k => KeyManager.lookup_unblockAll _ _ _
  | penalty key points => exact touch_change key
  | reward key points => exact touch_change key
  | delete key => exact .quiet fun k => swept_expireDueBlocks k
  | tick => exact .quiet fun k => swept_expireDueBlocks k

variable (o now km) in
/-- A penalty that goes on after its snapshot. -/
theorem advance_penaltySettling_cases (hasBlockStore : Bool) (key : κ) (p : JsNumber) (r : ℕ)
    (snap : Option RateLimitResult) :
    let length := KeyManager.penaltyDuration o ((km.object key r).penaltyViolationCount + 1)
    let next := KeyManagerRun.advance o hasBlockStore now snap km (.penaltySettling key p r)
    if KeyManager.thresholdReached o (km.object key r).penaltyPoints = true ∧
        km.isManualBlockActive now key = false then
      ∃ b, next.1.blocks = km.blocks.set key b ∧
        b.expiresAt = some (.ofNumber ((JsNumber.ofInt now).add length)) ∧
        next.2.2 = .placed key (some length)
    else next.1.blocks = km.blocks ∧ next.2.2 = .quiet := by
  have hcases := penaltySettle_cases o now km key p r snap
  simp only [KeyManagerRun.advance]
  generalize km.penaltySettle o now key p r snap = settled at hcases ⊢
  obtain ⟨km', state, next⟩ := settled
  split at hcases
  · next h =>
    rw [if_pos h]
    obtain ⟨b, rfl, hblocks, hends⟩ := hcases
    cases hasBlockStore with
    | true => exact ⟨b, hblocks, hends, rfl⟩
    | false => exact ⟨b, hblocks, hends, rfl⟩
  · next h =>
    rw [if_neg h]
    obtain ⟨rfl, hblocks⟩ := hcases
    exact ⟨hblocks, rfl⟩

/-- An operation that goes on. -/
theorem advance_change (hasBlockStore : Bool) (snap : Option RateLimitResult)
    (p : KeyManagerPending κ) :
    BlocksChange now km (KeyManagerRun.advance o hasBlockStore now snap km p).1
      (KeyManagerRun.advance o hasBlockStore now snap km p).2.2 := by
  cases p with
  | block key b => exact .quiet (swept_of_blocks_eq rfl)
  | unblock key entry => exact unblockRemove_change (fun _ => Or.inl rfl) key entry
  | penaltyCounting key p =>
    simp only [KeyManagerRun.advance, KeyManager.penaltyCount]
    cases km.adjustments key with
    | none => exact .threw key (swept_of_blocks_eq rfl)
    | some r => exact .quiet (swept_of_blocks_eq rfl)
  | penaltySettling key p r =>
    have hcases := advance_penaltySettling_cases o now km hasBlockStore key p r snap
    generalize KeyManagerRun.advance o hasBlockStore now snap km (.penaltySettling key p r) = next
      at hcases ⊢
    simp only at hcases
    split at hcases
    · obtain ⟨b, hblocks, hends, hout⟩ := hcases
      rw [hout]
      refine .placed key _ b hends ?_ fun k hk => ?_
      · rw [hblocks]
        exact InsertionMap.lookup_set_self _ _ _
      · left
        rw [hblocks]
        exact InsertionMap.lookup_set_ne _ _ hk
    · obtain ⟨hblocks, hout⟩ := hcases
      rw [hout]
      exact .quiet (swept_of_blocks_eq hblocks)
  | penaltyBlocking key b snap => exact .quiet (swept_of_blocks_eq rfl)
  | rewardCounting key p =>
    simp only [KeyManagerRun.advance, KeyManager.rewardCount]
    cases km.adjustments key with
    | none => exact .threw key (swept_of_blocks_eq rfl)
    | some r => exact .quiet (swept_of_blocks_eq rfl)
  | rewardSettling key p r => exact .quiet (swept_of_blocks_eq rfl)
  | deleteLoading key =>
    cases hasBlockStore with
    | true => exact .quiet (swept_of_blocks_eq rfl)
    | false => exact deleteRemove_change key
  | deleteRemoving key previousState => exact deleteRemove_change key
  | deleteFinishing key previousState => exact .quiet (swept_of_blocks_eq rfl)

/-- An output has the time of its input. -/
theorem step_time (hasBlockStore : Bool) (i : Timed (KeyManagerInput κ)) (s : KeyManagerRun κ) :
    (KeyManagerRun.step o hasBlockStore i s).2.time = i.time := by
  unfold KeyManagerRun.step
  cases i.op with
  | call c => rfl
  | resume n snap =>
    cases hp : s.pending[n]? with
    | none => simp only [hp]
    | some p => simp only [hp]
  | fail n => rfl

/-- A step. -/
theorem step_change (hasBlockStore : Bool) (i : Timed (KeyManagerInput κ))
    (s : KeyManagerRun κ) :
    BlocksChange i.time s.km (KeyManagerRun.step o hasBlockStore i s).1.km
      (KeyManagerRun.step o hasBlockStore i s).2.op := by
  unfold KeyManagerRun.step
  cases i.op with
  | call c => exact begin_change s hasBlockStore c
  | resume n snap =>
    cases hp : s.pending[n]? with
    | none =>
      simp only [hp]
      exact .quiet (swept_of_blocks_eq rfl)
    | some p =>
      simp only [hp]
      exact advance_change hasBlockStore snap p
  | fail n => exact .quiet (swept_of_blocks_eq rfl)

end Steps

/-! ## An entry and the latest block -/

/-- The end of an entry is the end of the block. -/
def EndsWith (v : KeyBlock) (b : PlacedBlock) : Prop :=
  (v.expiresAt = none ∧ b.length = none) ∨
    ∃ d : ℕ, v.expiresAt = some (.time (b.start + d)) ∧ b.length = some (.ofInt d)

/-- What the entry of a key says of the latest block, from `now` on: without an entry, there is
none or its time is over. -/
def Represents (now : ℤ) (entry : Option KeyBlock) (latest : Option PlacedBlock) : Prop :=
  match entry with
  | some v => ∃ b, latest = some b ∧ EndsWith v b
  | none => ∀ b, latest = some b → ∃ d : ℕ, b.length = some (.ofInt d) ∧ b.start + d ≤ now

/-- A block of `d` milliseconds is in force for `d` milliseconds. -/
theorem PlacedBlock.inForce_iff_lt {b : PlacedBlock} {d : ℕ} (h : b.length = some (.ofInt d))
    (t : ℤ) : b.InForce t ↔ t < b.start + d := by
  simp only [InForce, h, JsNumber.add_ofInt, JsNumber.lt_ofInt, decide_eq_true_eq]

/-- An entry is active while its block is in force. -/
theorem EndsWith.isActive_iff {v : KeyBlock} {b : PlacedBlock} (h : EndsWith v b) (t : ℤ) :
    v.isActive t = true ↔ b.InForce t := by
  rcases h with ⟨hv, hb⟩ | ⟨d, hv, hb⟩
  · simp [KeyBlock.isActive, PlacedBlock.InForce, hv, hb]
  · rw [PlacedBlock.inForce_iff_lt hb]
    simp [KeyBlock.isActive, JsDate.after, hv]

/-- An entry is due when it is no longer active. -/
theorem EndsWith.isDue_eq {v : KeyBlock} {b : PlacedBlock} (h : EndsWith v b) (t : ℤ) :
    v.isDue t = !v.isActive t := by
  rcases h with ⟨hv, -⟩ | ⟨d, hv, -⟩
  · simp [KeyBlock.isActive, KeyBlock.isDue, hv]
  · simp only [KeyBlock.isActive, KeyBlock.isDue, hv, JsDate.after, JsDate.notAfter]
    rw [← decide_not, decide_eq_decide, not_lt]

/-- A listed key is a blocked one. -/
theorem mem_getBlockedKeys_iff {κ : Type} [DecidableEq κ] (km : KeyManager κ) (t : ℤ) (k : κ) :
    (∃ e ∈ (km.getBlockedKeys t).1, e.1 = k) ↔ (km.isBlocked t k).1 = true := by
  simp only [KeyManager.getBlockedKeys, KeyManager.isBlocked, KeyManager.isManualBlockActive,
    List.mem_map, List.mem_filter]
  constructor
  · rintro ⟨_, ⟨e, ⟨he, hactive⟩, rfl⟩, rfl⟩
    rw [AList.mem_lookup_iff.mpr he]
    exact hactive
  · intro h
    cases hentry : (km.expireDueBlocks t).blocks.lookup k with
    | none => simp [hentry] at h
    | some v =>
      rw [hentry] at h
      exact ⟨_, ⟨⟨k, v⟩, ⟨AList.mem_lookup_iff.mp hentry, h⟩, rfl⟩, rfl⟩

namespace Represents

variable {κ : Type} [DecidableEq κ] {now t : ℤ} {entry entry' : Option KeyBlock}
  {latest : Option PlacedBlock}

/-- What an entry represents now it represents later. -/
theorem mono (h : Represents now entry latest) (ht : now ≤ t) : Represents t entry latest := by
  cases entry with
  | some v => exact h
  | none =>
    intro b hb
    obtain ⟨d, hd, hle⟩ := h b hb
    exact ⟨d, hd, hle.trans ht⟩

/-- The sweep drops an entry only when the time of the block is over. -/
theorem swept (h : Represents now entry latest) (hs : Swept now entry entry') :
    Represents now entry' latest := by
  rcases hs with rfl | rfl
  · exact h
  · cases entry with
    | none => exact h
    | some v =>
      obtain ⟨b, hlatest, hends⟩ := h
      by_cases hdue : v.isDue now = true
      · rw [Option.bind_some, if_pos hdue]
        intro b' hb'
        rcases hends with ⟨hv, -⟩ | ⟨d, hv, hb⟩
        · simp [KeyBlock.isDue, hv] at hdue
        · obtain rfl := Option.some.inj (hlatest.symm.trans hb')
          refine ⟨d, hb, ?_⟩
          simpa [KeyBlock.isDue, JsDate.notAfter, hv] using hdue
      · rw [Option.bind_some, if_neg hdue]
        exact ⟨b, hlatest, hends⟩

/-- What the readers say. -/
theorem blocksAgree {km : KeyManager κ} {k : κ}
    (h : Represents t (km.blocks.lookup k) latest) : BlocksAgree t k km latest := by
  have hswept : Represents t ((km.expireDueBlocks t).blocks.lookup k) latest :=
    h.swept (swept_expireDueBlocks k)
  have hlisted := mem_getBlockedKeys_iff km t k
  cases hentry : (km.expireDueBlocks t).blocks.lookup k with
  | none =>
    rw [hentry] at hswept
    have hfalse : (km.isBlocked t k).1 = false := by
      simp only [KeyManager.isBlocked, KeyManager.isManualBlockActive, hentry]
    refine ⟨?_, ?_, hlisted⟩
    · rw [hfalse]
      refine iff_of_false Bool.false_ne_true ?_
      rintro ⟨b, hb, hforce⟩
      obtain ⟨d, hd, hle⟩ := hswept b hb
      exact absurd ((PlacedBlock.inForce_iff_lt hd t).mp hforce) (not_lt.mpr hle)
    · rw [hfalse]
      simp only [KeyManager.getBlockInfo, hentry, ne_eq, not_true_eq_false, Bool.false_eq_true]
  | some v =>
    rw [hentry] at hswept
    obtain ⟨b, hb, hends⟩ := hswept
    have hactive : (km.isBlocked t k).1 = v.isActive t := by
      simp only [KeyManager.isBlocked, KeyManager.isManualBlockActive, hentry]
    refine ⟨?_, ?_, hlisted⟩
    · rw [hactive, hends.isActive_iff, hb]
      simp
    · rw [hactive]
      simp only [KeyManager.getBlockInfo, hentry, hends.isDue_eq]
      cases v.isActive t <;> simp

end Represents

/-! ## The block of a violation -/

/-- A whole number of milliseconds that ends by the last date there is. -/
def EndsByMaxDate (now : ℤ) (length : JsNumber) : Prop :=
  ∃ d : ℕ, length = .ofInt d ∧ now + d ≤ maxDateMs

/-- A duration that a date can hold the end of. -/
theorem endsByMaxDate_finite {now : ℤ} {q : ℚ} :
    EndsByMaxDate now (.finite q) ↔ q.den = 1 ∧ 0 ≤ q.num ∧ now + q.num ≤ maxDateMs := by
  constructor
  · rintro ⟨d, hd, hmax⟩
    obtain rfl : q = (d : ℤ) := JsNumber.finite.inj hd
    exact ⟨rfl, Int.natCast_nonneg d, hmax⟩
  · rintro ⟨hden, hnum, hmax⟩
    refine ⟨q.num.toNat, ?_, ?_⟩
    · rw [JsNumber.ofInt, Int.toNat_of_nonneg hnum, Rat.coe_int_num_of_den_eq_one hden]
    · rwa [Int.toNat_of_nonneg hnum]

instance (now : ℤ) : DecidablePred (EndsByMaxDate now)
  | .finite _ => decidable_of_iff _ endsByMaxDate_finite.symm
  | .nan => isFalse fun ⟨_, h, _⟩ => JsNumber.noConfusion h
  | .posInfinity => isFalse fun ⟨_, h, _⟩ => JsNumber.noConfusion h
  | .negInfinity => isFalse fun ⟨_, h, _⟩ => JsNumber.noConfusion h

/-- The entry of a block that ends in time ends with it. -/
theorem endsWith_of_placed {now : ℤ} (hpos : 0 ≤ now) {v : KeyBlock} {length : Option JsNumber}
    (hends : v.expiresAt = length.map fun d => .ofNumber ((JsNumber.ofInt now).add d))
    (h : ∀ d ∈ length, EndsByMaxDate now d) : EndsWith v ⟨now, length⟩ := by
  cases length with
  | none => exact Or.inl ⟨hends, rfl⟩
  | some d =>
    obtain ⟨d, rfl, hmax⟩ := h d rfl
    refine Or.inr ⟨d, ?_, rfl⟩
    rw [hends, Option.map_some, JsNumber.add_ofInt, JsDate.ofNumber_ofInt]
    rw [abs_of_nonneg (by omega)]
    exact hmax

section Runs

variable {κ : Type} [DecidableEq κ] (o : KeyManagerOptions)

/-- The key and the length of the block that a step is about to set for a violation. -/
def violation (i : Timed (KeyManagerInput κ)) (s : KeyManagerRun κ) : Option (κ × JsNumber) :=
  match i.op with
  | .resume n _ =>
    match s.pending[n]? with
    | some (.penaltySettling key _ r) =>
      if KeyManager.thresholdReached o (s.km.object key r).penaltyPoints = true ∧
          s.km.isManualBlockActive i.time key = false then
        some (key, KeyManager.penaltyDuration o ((s.km.object key r).penaltyViolationCount + 1))
      else none
    | _ => none
  | _ => none

/-- The block of a violation, if there is one, ends in time. -/
def ViolationEnds (i : Timed (KeyManagerInput κ)) (s : KeyManagerRun κ) : Prop :=
  ∀ e ∈ violation o i s, EndsByMaxDate i.time e.2

instance (i : Timed (KeyManagerInput κ)) (s : KeyManagerRun κ) :
    Decidable (ViolationEnds o i s) :=
  inferInstanceAs (Decidable (∀ e ∈ violation o i s, EndsByMaxDate i.time e.2))

/-- A call of `block` is for a whole number of milliseconds and ends in time. -/
def BlockEnds (i : Timed (KeyManagerInput κ)) : Prop :=
  ∀ key durationMs reason, i.op = .call (.block key durationMs reason) →
    EndsByMaxDate i.time durationMs

variable {o} {hasBlockStore : Bool} {i : Timed (KeyManagerInput κ)} {s : KeyManagerRun κ}

/-- A step that is about to set a block for a violation. -/
theorem violation_eq_some {key : κ} {length : JsNumber}
    (h : violation o i s = some (key, length)) :
    ∃ n snap p r, i.op = .resume n snap ∧ s.pending[n]? = some (.penaltySettling key p r) ∧
      (KeyManager.thresholdReached o (s.km.object key r).penaltyPoints = true ∧
        s.km.isManualBlockActive i.time key = false) ∧
      length = KeyManager.penaltyDuration o ((s.km.object key r).penaltyViolationCount + 1) := by
  unfold violation at h
  cases hop : i.op with
  | call c => simp [hop] at h
  | fail n => simp [hop] at h
  | resume n snap =>
    simp only [hop] at h
    cases hp : s.pending[n]? with
    | none => simp [hp] at h
    | some q =>
      simp only [hp] at h
      cases q with
      | penaltySettling k p r =>
        simp only at h
        split at h
        · next hcond =>
          obtain ⟨rfl, rfl⟩ := Prod.mk.inj (Option.some.inj h)
          exact ⟨n, snap, p, r, rfl, hp, hcond, rfl⟩
        · exact absurd h.symm (Option.some_ne_none _)
      | _ => simp at h

/-- A call that resumes goes on from where it waited. -/
theorem step_resume {n : ℕ} {snap : Option RateLimitResult} {p : KeyManagerPending κ}
    (hop : i.op = .resume n snap) (hp : s.pending[n]? = some p) :
    (KeyManagerRun.step o hasBlockStore i s).1.km =
        (KeyManagerRun.advance o hasBlockStore i.time snap s.km p).1 ∧
      (KeyManagerRun.step o hasBlockStore i s).2.op =
        (KeyManagerRun.advance o hasBlockStore i.time snap s.km p).2.2 := by
  simp [KeyManagerRun.step, hop, hp]

variable (hasBlockStore) in
/-- What a violation leaves in `blocks`. -/
theorem step_of_violation {key : κ} {length : JsNumber}
    (h : violation o i s = some (key, length)) :
    ∃ b, (KeyManagerRun.step o hasBlockStore i s).1.km.blocks.lookup key = some b ∧
      b.expiresAt = some (.ofNumber ((JsNumber.ofInt i.time).add length)) := by
  obtain ⟨n, snap, p, r, hop, hp, hcond, rfl⟩ := violation_eq_some h
  have hcases := advance_penaltySettling_cases o i.time s.km hasBlockStore key p r snap
  simp only [if_pos hcond] at hcases
  obtain ⟨b, hblocks, hends, -⟩ := hcases
  refine ⟨b, ?_, hends⟩
  rw [(step_resume hop hp).1, hblocks]
  exact InsertionMap.lookup_set_self _ _ _

/-- Where the blocks that are placed come from. -/
theorem placed_of_step {key : κ} {length : Option JsNumber}
    (h : (KeyManagerRun.step o hasBlockStore i s).2.op = .placed key length) :
    (∃ d reason, i.op = .call (.block key d reason) ∧ length = if d = 0 then none else some d) ∨
      ∃ d, violation o i s = some (key, d) ∧ length = some d := by
  cases hop : i.op with
  | fail n => simp [KeyManagerRun.step, hop] at h
  | call c =>
    left
    simp only [KeyManagerRun.step, hop] at h
    cases c with
    | block k d reason =>
      simp only [KeyManagerRun.begin, KeyManagerOutput.placed.injEq] at h
      obtain ⟨rfl, rfl⟩ := h
      exact ⟨d, reason, rfl, rfl⟩
    | unblock k =>
      simp only [KeyManagerRun.begin, KeyManager.unblockStart] at h
      cases hentry : (s.km.expireDueBlocks i.time).blocks.lookup k with
      | none =>
        rw [hentry] at h
        simp at h
      | some entry =>
        rw [hentry] at h
        cases hasBlockStore <;> simp at h
    | _ => simp [KeyManagerRun.begin] at h
  | resume n snap =>
    right
    cases hp : s.pending[n]? with
    | none => simp [KeyManagerRun.step, hop, hp] at h
    | some p =>
      rw [(step_resume hop hp).2] at h
      cases p with
      | penaltySettling k p r =>
        have hcases := advance_penaltySettling_cases o i.time s.km hasBlockStore k p r snap
        simp only at hcases
        split at hcases
        · next hcond =>
          obtain ⟨b, -, -, hout⟩ := hcases
          rw [hout, KeyManagerOutput.placed.injEq] at h
          obtain ⟨rfl, rfl⟩ := h
          refine ⟨_, ?_, rfl⟩
          simp only [violation, hop, hp]
          exact if_pos hcond
        · simp [hcases.2] at h
      | penaltyCounting k p =>
        simp only [KeyManagerRun.advance] at h
        split at h <;> simp at h
      | rewardCounting k p =>
        simp only [KeyManagerRun.advance] at h
        split at h <;> simp at h
      | deleteLoading k => cases hasBlockStore <;> simp [KeyManagerRun.advance] at h
      | _ => simp [KeyManagerRun.advance] at h

variable (hasBlockStore) in
/-- One step: every entry goes on representing the latest block of its key. -/
theorem Represents.step {t : ℤ} {latest : κ → Option PlacedBlock}
    (h : ∀ k, Represents t (s.km.blocks.lookup k) (latest k)) (ht : t ≤ i.time)
    (hpos : 0 ≤ i.time) (hblock : BlockEnds i) (hviolation : ViolationEnds o i s) (k : κ) :
    Represents i.time ((KeyManagerRun.step o hasBlockStore i s).1.km.blocks.lookup k)
      (latestStep k (latest k) (KeyManagerRun.step o hasBlockStore i s).2) := by
  have hnow : ∀ k, Represents i.time (s.km.blocks.lookup k) (latest k) := fun k => (h k).mono ht
  have hchange := step_change (o := o) hasBlockStore i s
  have htime := step_time (o := o) hasBlockStore i s
  have hplaced := @placed_of_step κ _ o hasBlockStore i s
  generalize KeyManagerRun.step o hasBlockStore i s = next at hchange htime hplaced ⊢
  obtain ⟨s', time, out⟩ := next
  subst htime
  cases hchange with
  | quiet h' => exact (hnow k).swept (h' k)
  | threw key h' => exact (hnow k).swept (h' k)
  | liftedAll h' =>
    rw [h' k]
    exact fun b hb => absurd hb.symm (Option.some_ne_none b)
  | lifted key hkey h' =>
    by_cases hk : k = key
    · subst hk
      rw [hkey]
      simp only [latestStep, if_pos]
      exact fun b hb => absurd hb.symm (Option.some_ne_none b)
    · simp only [latestStep, if_neg hk]
      exact (hnow k).swept (h' k hk)
  | placed key length b hends hkey h' =>
    by_cases hk : k = key
    · subst hk
      rw [hkey]
      simp only [latestStep, if_pos]
      refine ⟨_, rfl, ?_⟩
      have hinTime : ∀ d ∈ length, EndsByMaxDate i.time d := by
        intro d hd
        rcases hplaced rfl with ⟨d', reason, hop, rfl⟩ | ⟨d', hv, rfl⟩
        · obtain ⟨-, hd⟩ := Option.ite_none_left_eq_some.mp hd
          rw [← Option.some.inj hd]
          exact hblock k d' reason hop
        · rw [← Option.some.inj hd]
          exact hviolation (k, d') hv
      exact endsWith_of_placed hpos hends hinTime
    · simp only [latestStep, if_neg hk]
      exact (hnow k).swept (h' k hk)

/-- A run: the entries represent the latest blocks. -/
theorem Represents.run {t : ℤ} (latest : κ → Option PlacedBlock)
    (h : ∀ k, Represents t (s.km.blocks.lookup k) (latest k)) (hpos : 0 ≤ t)
    {is : List (Timed (KeyManagerInput κ))} (hord : OrderedFrom Timed.time t is)
    (hblocks : ∀ i ∈ is, BlockEnds i)
    (hg : Guarded (ViolationEnds o) (KeyManagerRun.step o hasBlockStore) is s) (k : κ) :
    Represents (lastClock Timed.time t is)
      ((final (KeyManagerRun.step o hasBlockStore) is s).km.blocks.lookup k)
      ((outputs (KeyManagerRun.step o hasBlockStore) is s).foldl (latestStep k) (latest k)) := by
  induction is generalizing t s latest with
  | nil => exact h k
  | cons i is ih =>
    have hnext := Represents.step hasBlockStore h hord.1
      (hpos.trans hord.1) (hblocks i List.mem_cons_self) hg.1
    exact ih _ hnext (hpos.trans hord.1) hord.2 (fun j hj => hblocks j (List.mem_cons_of_mem i hj))
      hg.2

/-! ## Main result -/

/-- A block without a valid end is there for one reader and not for another. -/
theorem not_blocksAgree_of_invalid {km : KeyManager κ} {k : κ} {v : KeyBlock}
    (h : km.blocks.lookup k = some v) (hv : v.expiresAt = some .invalid) (t : ℤ)
    (latest : Option PlacedBlock) : ¬ BlocksAgree t k km latest := by
  intro hagree
  have hdue : ∀ u, v.isDue u = false := fun u => by simp [KeyBlock.isDue, JsDate.notAfter, hv]
  have hactive : ∀ u, v.isActive u = false := fun u => by simp [KeyBlock.isActive, JsDate.after, hv]
  have hentry : (km.expireDueBlocks t).blocks.lookup k = some v := by
    rw [KeyManager.lookup_expireDueBlocks, h, Option.bind_some, hdue]
    rfl
  have hinfo : (km.getBlockInfo t k).1 ≠ none := by
    simp [KeyManager.getBlockInfo, hentry, hdue]
  have hblocked : (km.isBlocked t k).1 = false := by
    simp only [KeyManager.isBlocked, KeyManager.isManualBlockActive, hentry, hactive]
  have := hagree.getBlockInfo.mp hinfo
  rw [hblocked] at this
  exact Bool.false_ne_true this

/-- The end of a violation's block that is not in time is not a date. -/
theorem ofNumber_add_of_not_endsByMaxDate {now : ℤ} {violations : ℕ} (hpos : 0 ≤ now)
    (h : ¬ EndsByMaxDate now (KeyManager.penaltyDuration o violations)) :
    JsDate.ofNumber ((JsNumber.ofInt now).add (KeyManager.penaltyDuration o violations)) =
      .invalid := by
  have hcases := JsNumber.max_zero_floor_cases (o.penaltyEscalation violations)
  change KeyManager.penaltyDuration o violations = .nan ∨
    KeyManager.penaltyDuration o violations = .posInfinity ∨
    ∃ d : ℕ, KeyManager.penaltyDuration o violations = .ofInt d at hcases
  rcases hcases with hd | hd | ⟨d, hd⟩
  · rw [hd]
    rfl
  · rw [hd]
    rfl
  · rw [hd, JsNumber.add_ofInt]
    apply JsDate.ofNumber_ofInt_eq_invalid
    have hlate : ¬ now + d ≤ maxDateMs := fun hle => h ⟨d, hd, hle⟩
    rw [abs_of_nonneg (by omega)]
    exact not_le.mp hlate

/-- In every run the readers of `blocks` agree with each other and with the latest block of
every key, exactly when every block set for a violation ends at a date there is. -/
theorem block_lifecycle_iff (o : KeyManagerOptions) (is : List (Timed (KeyManagerInput κ)))
    (hord : OrderedFrom Timed.time 0 is) (hblocks : ∀ i ∈ is, BlockEnds i) :
    (∀ p, p <+: is → ∀ t, lastClock Timed.time 0 p ≤ t → ∀ k,
      BlocksAgree t k (final (KeyManagerRun.step o false) p {}).km
        (latestBlock k (outputs (KeyManagerRun.step o false) p {}))) ↔
      Guarded (ViolationEnds o) (KeyManagerRun.step o false) is {} := by
  constructor
  · intro h
    by_contra hg
    obtain ⟨p, i, rest, rfl, -, hi⟩ := exists_first_unguarded hg
    have hpos : 0 ≤ i.time :=
      (orderedFrom_append.mp hord).1.le_lastClock.trans (orderedFrom_append.mp hord).2.1
    simp only [ViolationEnds, not_forall] at hi
    obtain ⟨⟨key, length⟩, hv, hends⟩ := hi
    obtain ⟨b, hb, hdate⟩ := step_of_violation false hv
    obtain ⟨_, _, _, _, _, _, _, hlength⟩ := violation_eq_some hv
    rw [hlength] at hends hdate
    rw [ofNumber_add_of_not_endsByMaxDate hpos hends] at hdate
    have hfinal : (final (KeyManagerRun.step o false) (p ++ [i]) {}).km.blocks.lookup key =
        some b := by
      rw [final_append]
      exact hb
    have hprefix : p ++ [i] <+: p ++ i :: rest := ⟨rest, by simp⟩
    exact not_blocksAgree_of_invalid hfinal hdate _ _ (h _ hprefix _ le_rfl key)
  · rintro hg p ⟨q, rfl⟩ t ht k
    have hstart : ∀ k : κ, Represents 0 (({} : KeyManagerRun κ).km.blocks.lookup k) none :=
      fun k b hb => absurd hb.symm (Option.some_ne_none b)
    have hrun := Represents.run (fun _ => none) hstart le_rfl
      (orderedFrom_append.mp hord).1 (fun i hi => hblocks i (List.mem_append_left q hi))
      (guarded_append.mp hg).1 k
    exact (hrun.mono ht).blocksAgree

end Runs

/-- Two points in a window bring a block of a second. -/
def secondForTwo : KeyManagerOptions where
  maxRequests := 10
  windowMs := 60000
  penaltyBlockThreshold := some 2
  penaltyEscalation := fixedEscalation 1000

/-- Key 7 is blocked by hand, and key 9 for its two points. -/
def twoKeysBlocked : List (Timed (KeyManagerInput ℕ)) :=
  [⟨0, .call (.block 7 500 .manual)⟩, ⟨0, .resume 0 none⟩, ⟨10, .call (.penalty 9 2)⟩,
    ⟨10, .resume 0 none⟩, ⟨20, .resume 0 none⟩]

/-- The blocks of the run end. -/
theorem twoKeysBlocked_ends : ∀ i ∈ twoKeysBlocked, BlockEnds i := by
  intro i hi key durationMs reason hop
  simp only [twoKeysBlocked, List.mem_cons, List.not_mem_nil, or_false] at hi
  rcases hi with rfl | rfl | rfl | rfl | rfl
  · obtain ⟨rfl, rfl, rfl⟩ := KeyManagerCall.block.inj (KeyManagerInput.call.inj hop)
    exact ⟨500, rfl, by decide⟩
  all_goals simp at hop

/-- The block of the one key is over and that of the other is not, in the manager and by the
outputs. -/
theorem block_lifecycle_two_keys :
    BlocksAgree 600 9 (final (KeyManagerRun.step secondForTwo false) twoKeysBlocked {}).km
      (latestBlock 9 (outputs (KeyManagerRun.step secondForTwo false) twoKeysBlocked {})) := by
  refine (block_lifecycle_iff secondForTwo twoKeysBlocked (by decide) twoKeysBlocked_ends).mpr ?_
    twoKeysBlocked List.prefix_rfl 600 (by decide) 9
  decide +kernel

/-- A penalty is to last for as long as a number can say. -/
def longestPenalty : KeyManagerOptions :=
  { secondForTwo with penaltyEscalation := fixedEscalation (.ofInt maxSafeInteger) }

/-- The key of the violation has an entry, its block is still to last, and it is not blocked. -/
theorem block_lifecycle_fails :
    let is : List (Timed (KeyManagerInput ℕ)) :=
      [⟨0, .call (.penalty 9 2)⟩, ⟨0, .resume 0 none⟩, ⟨0, .resume 0 none⟩]
    let km := (final (KeyManagerRun.step longestPenalty false) is {}).km
    let latest := latestBlock 9 (outputs (KeyManagerRun.step longestPenalty false) is {})
    OrderedFrom Timed.time 0 is ∧ (∀ i ∈ is, BlockEnds i) ∧
      latest = some ⟨0, some (.ofInt maxSafeInteger)⟩ ∧
      PlacedBlock.InForce ⟨0, some (.ofInt maxSafeInteger)⟩ 500 ∧
      (km.isBlocked 500 9).1 = false ∧ (km.getBlockInfo 500 9).1 ≠ none ∧
      ¬ BlocksAgree 500 9 km latest := by
  intro is km latest
  have hends : ∀ i ∈ is, BlockEnds i := by
    intro i hi key durationMs reason hop
    simp only [is, List.mem_cons, List.not_mem_nil, or_false] at hi
    rcases hi with rfl | rfl | rfl <;> simp at hop
  have hblocked : (km.isBlocked 500 9).1 = false := by decide +kernel
  have hinfo : (km.getBlockInfo 500 9).1 ≠ none := by decide +kernel
  refine ⟨by decide, hends, by decide +kernel, ?_, hblocked, hinfo, fun hagree => ?_⟩
  · exact (PlacedBlock.inForce_iff_lt (d := maxSafeInteger) rfl 500).mpr (by decide)
  · have htrue := hagree.getBlockInfo.mp hinfo
    rw [hblocked] at htrue
    exact Bool.false_ne_true htrue

end RatelimitFlex
