import RatelimitFlex.Analysis.StoreCells

/-!
# When a background purge goes unnoticed

A purge drops at once what the operations of a window store drop when they come across it.
Two operations do not look at the clock: `delete` tells whether an expired entry was still
there, and a decrement that removes the oldest stamps spends its cost on stamps that a
purge would have taken away.  `Cell.purgeSafe` rules these two out; under it the purged
store answers as the other one does (`Purged` is what the two have in common).
-/

set_option autoImplicit false

namespace RatelimitFlex

open Library

variable {κ : Type}

/-! ## A purged cell beside the one it came from -/

/-- The purged entry is gone, or it has lost stamps at the front. -/
def TrimmedFrom (e e' : Option SlidingKeyState) : Prop :=
  ∀ s' ∈ e', ∃ s ∈ e, s'.wallExpiresAt = s.wallExpiresAt ∧ s'.stamps <:+ s.stamps ∧
    (s'.stamps = [] → s.stamps = [])

/-- An entry is trimmed from itself. -/
theorem trimmedFrom_refl (e : Option SlidingKeyState) : TrimmedFrom e e :=
  fun s hs => ⟨s, hs, rfl, List.suffix_rfl, id⟩

section Decrement

variable {o : WindowOptions} {now : ℤ} {f : List ℤ → List ℤ} {e e' : Option SlidingKeyState}

/-- A decrement keeps one entry trimmed from the other. -/
theorem TrimmedFrom.decrement (hf : ∀ l l', l' <:+ l → f l' <:+ f l) (h : TrimmedFrom e e') :
    TrimmedFrom (slidingAfterDecrement f e) (slidingAfterDecrement f e') := by
  intro s'' hs''
  cases e' with
  | none => simp [slidingAfterDecrement] at hs''
  | some s' =>
    obtain ⟨s, rfl, hwall, hsuf, hnil⟩ := h s' rfl
    simp only [slidingAfterDecrement] at hs'' ⊢
    by_cases hs' : s'.stamps = []
    · rw [if_pos hs'] at hs''
      obtain rfl := Option.some.inj hs''
      rw [if_pos (hnil hs')]
      exact ⟨s, rfl, hwall, hsuf, hnil⟩
    · rw [if_neg hs'] at hs''
      by_cases hd : f s'.stamps = []
      · simp [hd] at hs''
      · rw [if_neg hd] at hs''
        obtain rfl := Option.some.inj hs''
        have hs : s.stamps ≠ [] := fun hs => hs' (List.suffix_nil.mp (hs ▸ hsuf))
        have hfs : f s.stamps ≠ [] := fun hfs => hd (List.suffix_nil.mp (hfs ▸ hf _ _ hsuf))
        rw [if_neg hs, if_neg hfs]
        exact ⟨_, rfl, hwall, hf _ _ hsuf, fun h => absurd h hd⟩

/-- What is dead before the suffix begins does not matter to a decrement that keeps the
live stamps of the suffix. -/
theorem heldStamps_decrement (hsub : ∀ l, (f l).Sublist l) (htrim : TrimmedFrom e e')
    (hheld : heldStamps o now e' = heldStamps o now e)
    (hlive : ∀ s s' : SlidingKeyState, e = some s → s'.stamps <:+ s.stamps →
      liveStamps o now s'.stamps = liveStamps o now s.stamps →
      liveStamps o now (f s'.stamps) = liveStamps o now (f s.stamps)) :
    heldStamps o now (slidingAfterDecrement f e') =
      heldStamps o now (slidingAfterDecrement f e) := by
  have hf : f [] = [] := List.sublist_nil.mp (hsub [])
  cases e' with
  | none =>
    cases e with
    | none => rfl
    | some s =>
      rw [heldStamps_slidingAfterDecrement hf]
      rw [heldStamps_none, heldStamps_some] at hheld
      split
      · rfl
      · next hw =>
        rw [if_neg hw] at hheld
        exact (liveStamps_eq_nil_of_sublist (hsub _) hheld.symm).symm
  | some s' =>
    obtain ⟨s, rfl, hwall, hsuf, -⟩ := htrim s' rfl
    have hpassed : s'.wallPassed now = s.wallPassed now := by
      simp only [SlidingKeyState.wallPassed, hwall]
    rw [heldStamps_some, heldStamps_some, hpassed] at hheld
    rw [heldStamps_slidingAfterDecrement hf, heldStamps_slidingAfterDecrement hf, hpassed]
    split
    · rfl
    · next hw =>
      rw [if_neg hw, if_neg hw] at hheld
      exact hlive s s' rfl hsuf hheld

/-- Removing from the end spends nothing on what is dead at the front. -/
theorem liveStamps_take_suffix {l l' : List ℤ} (cost : ℕ) (hsuf : l' <:+ l)
    (h : liveStamps o now l' = liveStamps o now l) :
    liveStamps o now (l'.take (l'.length - cost)) = liveStamps o now (l.take (l.length - cost)) := by
  obtain ⟨d, rfl⟩ := hsuf
  have hd := liveStamps_prefix_nil h
  rw [List.take_append, liveStamps_append,
    liveStamps_eq_nil_of_sublist (List.take_sublist _ d) hd, List.nil_append]
  congr 2
  rw [List.length_append]
  omega

/-- The newest hits taken off a suffix leave a suffix. -/
theorem take_suffix_take {l l' : List ℤ} (cost : ℕ) (hsuf : l' <:+ l) :
    l'.take (l'.length - cost) <:+ l.take (l.length - cost) := by
  obtain ⟨d, rfl⟩ := hsuf
  rw [List.take_append]
  have : (d ++ l').length - cost - d.length = l'.length - cost := by
    rw [List.length_append]
    omega
  rw [this]
  exact List.suffix_append _ _

/-- So do the oldest. -/
theorem drop_suffix_drop {l l' : List ℤ} (cost : ℕ) (hsuf : l' <:+ l) :
    l'.drop cost <:+ l.drop cost := by
  obtain ⟨d, rfl⟩ := hsuf
  have : l'.drop cost = ((d ++ l').drop cost).drop d.length := by
    rw [List.drop_drop, Nat.add_comm, ← List.drop_drop, List.drop_left]
  rw [this]
  exact List.drop_suffix _ _

/-- Removing from the front does so only when there is nothing dead, nothing live, or
nothing left. -/
theorem liveStamps_drop_suffix {l l' : List ℤ} {cost : ℕ} (hsuf : l' <:+ l)
    (h : liveStamps o now l' = liveStamps o now l)
    (hsafe : liveStamps o now l = [] ∨ l = liveStamps o now l ∨ l.length ≤ cost) :
    liveStamps o now (l'.drop cost) = liveStamps o now (l.drop cost) := by
  obtain ⟨d, rfl⟩ := hsuf
  have hd := liveStamps_prefix_nil h
  rcases hsafe with hnone | hall | hcost
  · rw [liveStamps_eq_nil_of_sublist (List.drop_sublist _ _) hnone,
      liveStamps_eq_nil_of_sublist (List.drop_sublist _ _) (h.trans hnone)]
  · have : d = [] := by
      rw [liveStamps_append, hd, List.nil_append] at hall
      have := congrArg List.length hall
      rw [List.length_append] at this
      have hle : (liveStamps o now l').length ≤ l'.length := List.length_filter_le _ _
      exact List.length_eq_zero_iff.mp (by omega)
    rw [this, List.nil_append]
  · have hl' : l'.length ≤ cost := by
      rw [List.length_append] at hcost
      omega
    rw [List.drop_eq_nil_of_le hcost, List.drop_eq_nil_of_le hl']

end Decrement

/-- What purges up to `now` may have made of a cell: they took expired data only. -/
def Cell.Purged (now : ℤ) : Cell → Cell → Prop
  | .sliding o e, .sliding o' e' =>
    o' = o ∧ TrimmedFrom e e' ∧ heldStamps o now e' = heldStamps o now e
  | .fixed o e, .fixed o' e' => o' = o ∧ (e' = e ∨ e' = none ∧ ∀ s ∈ e, s.resetTime ≤ now)
  | _, _ => False

/-- The operation does not notice what a purge takes away: a `delete` finds a live entry or
none, and a decrement from the front finds no dead stamp, no live one, or takes them all. -/
def Cell.purgeSafe (i : Timed (StoreOp κ)) : Cell → Bool
  | .sliding o e =>
    match i.op with
    | .decrement _ options =>
      options.removeNewest || (heldStamps o i.time e).isEmpty ||
        decide (stampsOf e = heldStamps o i.time e) ||
        decide ((stampsOf e).length ≤ options.sanitizedCost)
    | .delete _ => e.isNone || !(heldStamps o i.time e).isEmpty
    | _ => true
  | .fixed _ e =>
    match i.op with
    | .delete _ => e.all fun s => decide (i.time < s.resetTime)
    | _ => true
  | .bucket _ _ => true

namespace Cell

variable {now t : ℤ} {x y : Cell}

/-- Nothing comes back to life. -/
theorem Purged.mono (h : Purged t x y) (ht : t ≤ now) : Purged now x y := by
  match x, y, h with
  | .sliding o e, .sliding _ e', ⟨rfl, htrim, hheld⟩ =>
    refine ⟨rfl, htrim, ?_⟩
    cases e' with
    | none =>
      cases e with
      | none => rfl
      | some s =>
        rw [heldStamps_later ht s, ← hheld]
        simp [liveStamps]
    | some s' =>
      obtain ⟨s, rfl, hwall, -, -⟩ := htrim s' rfl
      have hpassed : s'.wallPassed now = s.wallPassed now := by
        simp only [SlidingKeyState.wallPassed, hwall]
      rw [heldStamps_later ht s', heldStamps_later ht s, hheld, hpassed]
  | .fixed o e, .fixed _ e', ⟨rfl, h⟩ =>
    refine ⟨rfl, h.imp_right fun h => ⟨h.1, fun s hs => (h.2 s hs).trans ht⟩⟩

/-- A purge leaves what the entry holds, or nothing. -/
theorem purge_sliding (o : WindowOptions) (e : Option SlidingKeyState) :
    (Cell.sliding o e).purge now = .sliding o (e.bind fun s =>
      if heldStamps o now (some s) = [] then none
      else some { s with stamps := heldStamps o now (some s) }) := by
  cases e with
  | none => rfl
  | some s =>
    have hun : unexpired now (some s) = if s.wallPassed now then none else some s := by
      obtain ⟨stamps, wall⟩ := s
      cases wall with
      | none => simp [unexpired, SlidingKeyState.wallPassed, Option.filter]
      | some w =>
        by_cases hw : w ≤ now
        · simp [unexpired, SlidingKeyState.wallPassed, Option.filter, hw, not_lt.mpr hw]
        · simp [unexpired, SlidingKeyState.wallPassed, Option.filter, hw, lt_of_not_ge hw]
    simp only [Cell.purge, hun, heldStamps_some, Option.bind_some]
    by_cases hw : s.wallPassed now = true
    · simp [hw]
    · simp only [hw, Bool.false_eq_true, if_false, Option.bind_some]
      cases liveStamps o now s.stamps <;> simp

/-- A purge takes expired data only. -/
theorem Purged.purge (h : Purged now x y) (hx : x.Legal now) : Purged now x (y.purge now) := by
  match x, y, h with
  | .sliding o e, .sliding _ e', ⟨rfl, htrim, hheld⟩ =>
    rw [purge_sliding]
    cases e' with
    | none => exact ⟨rfl, htrim, hheld⟩
    | some s' =>
      obtain ⟨s, rfl, hwall, hsuf, hnil⟩ := htrim s' rfl
      have hsorted := (hx s rfl).1.sublist hsuf.sublist
      rw [Option.bind_some]
      by_cases hdead : heldStamps o now (some s') = []
      · rw [if_pos hdead]
        refine ⟨rfl, fun s hs => by simp at hs, ?_⟩
        rw [← hheld, hdead, heldStamps_none]
      · rw [if_neg hdead]
        have hpassed : ¬ s'.wallPassed now = true := by
          intro hw
          rw [heldStamps_some, if_pos hw] at hdead
          exact hdead rfl
        have hlive := @heldStamps_some o now s'
        rw [if_neg hpassed] at hlive
        refine ⟨rfl, ?_, ?_⟩
        · rintro _ ⟨⟩
          refine ⟨s, rfl, hwall, ?_, fun h => absurd h hdead⟩
          rw [hlive]
          exact (liveStamps_suffix hsorted).trans hsuf
        · rw [← hheld, hlive, heldStamps_some]
          have hsame : SlidingKeyState.wallPassed now
              { s' with stamps := liveStamps o now s'.stamps } = s'.wallPassed now := rfl
          rw [hsame, if_neg hpassed]
          exact liveStamps_liveStamps o le_rfl _
  | .fixed o e, .fixed _ e', ⟨rfl, h⟩ =>
    refine ⟨rfl, ?_⟩
    rcases h with rfl | ⟨rfl, hexp⟩
    · cases e' with
      | none => exact Or.inl rfl
      | some s =>
        by_cases hs : s.resetTime ≤ now
        · right
          simp [hs]
        · left
          simp [hs]
    · exact Or.inr ⟨rfl, hexp⟩

/-! ### One operation on both cells -/

/-- After the wall expiry is cleared the live stamps are those held. -/
theorem heldStamps_clearWall (o : WindowOptions) (e : Option SlidingKeyState) :
    liveStamps o now (stampsOf (unexpired now e)) = heldStamps o now e := rfl

/-- An increment does not see what is expired. -/
theorem Purged.increment (h : Purged now x y) (options : RateLimitIncrementOptions) :
    (x.clearWall now).increment now options = (y.clearWall now).increment now options := by
  match x, y, h with
  | .sliding o e, .sliding _ e', ⟨rfl, _, hheld⟩ =>
    simp only [clearWall, Cell.increment]
    rw [heldStamps_clearWall, heldStamps_clearWall, hheld]
  | .fixed o e, .fixed _ e', ⟨rfl, h⟩ =>
    rcases h with rfl | ⟨rfl, hexp⟩
    · rfl
    · cases e with
      | none => rfl
      | some s => simp only [clearWall, Cell.increment, fixedAfterIncrement, if_pos (hexp s rfl)]

/-- Nor does a read. -/
theorem Purged.snapshot (h : Purged now x y) :
    (x.clearWall now).snapshot now = (y.clearWall now).snapshot now := by
  match x, y, h with
  | .sliding o e, .sliding _ e', ⟨rfl, _, hheld⟩ =>
    simp only [clearWall, Cell.snapshot]
    rw [heldStamps_clearWall, heldStamps_clearWall, hheld]
  | .fixed o e, .fixed _ e', ⟨rfl, h⟩ =>
    rcases h with rfl | ⟨rfl, hexp⟩
    · rfl
    · cases e with
      | none => rfl
      | some s =>
        have := hexp s rfl
        simp [clearWall, Cell.snapshot, this]

/-- Clearing a wall expiry keeps a cell purged from the other. -/
theorem Purged.clearWall (h : Purged now x y) : Purged now (x.clearWall now) (y.clearWall now) := by
  match x, y, h with
  | .sliding o e, .sliding _ e', ⟨rfl, htrim, hheld⟩ =>
    refine ⟨rfl, ?_, ?_⟩
    · intro s' hs'
      obtain ⟨hs', hw⟩ := Option.mem_filter_iff.mp hs'
      obtain ⟨s, rfl, hwall, hsuf⟩ := htrim s' hs'
      refine ⟨s, ?_, hwall, hsuf⟩
      rw [hwall] at hw
      exact Option.mem_filter_iff.mpr ⟨rfl, hw⟩
    · have hagain : ∀ e, unexpired now (unexpired now e) = unexpired now e := by
        intro e
        cases e with
        | none => rfl
        | some s => simp [unexpired, Option.filter_filter]
      rw [heldStamps, hagain, heldStamps, hagain]
      exact hheld
  | .fixed o e, .fixed _ e', h => exact h

/-- A safe decrement keeps what the two cells have in common. -/
theorem Purged.decrement {key : κ} {options : RateLimitDecrementOptions} (h : Purged now x y)
    (hsafe : x.purgeSafe (⟨now, .decrement key options⟩ : Timed (StoreOp κ)) = true) :
    Purged now (x.decrement options) (y.decrement options) := by
  match x, y, h with
  | .sliding o e, .sliding _ e', ⟨rfl, htrim, hheld⟩ =>
    simp only [Cell.decrement]
    by_cases hn : options.removeNewest = true
    · rw [if_pos hn, if_pos hn]
      refine ⟨rfl, ?_, ?_⟩
      · apply htrim.decrement
        intro l l' hsuf
        exact take_suffix_take _ hsuf
      · apply heldStamps_decrement (fun l => List.take_sublist _ l) htrim hheld
        intro s s' _ hsuf hlive
        exact liveStamps_take_suffix _ hsuf hlive
    · rw [if_neg hn, if_neg hn]
      refine ⟨rfl, ?_, ?_⟩
      · apply htrim.decrement
        intro l l' hsuf
        exact drop_suffix_drop _ hsuf
      · cases e with
        | none =>
          apply heldStamps_decrement (fun l => List.drop_sublist _ l) htrim hheld
          intro s s' hs
          simp at hs
        | some s =>
          simp only [purgeSafe, hn, Bool.false_or, Bool.or_eq_true, List.isEmpty_iff,
            decide_eq_true_eq, stampsOf_some, heldStamps_some] at hsafe
          by_cases hw : s.wallPassed now = true
          · -- past the wall expiry nothing counts on either side
            have hpassed : ∀ s' ∈ e', s'.wallPassed now = true := by
              intro s' hs'
              obtain ⟨_, ⟨⟩, hwall, -⟩ := htrim s' hs'
              simpa only [SlidingKeyState.wallPassed, hwall] using hw
            rw [heldStamps_slidingAfterDecrement List.drop_nil, if_pos hw]
            cases e' with
            | none => rfl
            | some s' =>
              rw [heldStamps_slidingAfterDecrement List.drop_nil, if_pos (hpassed s' rfl)]
          · rw [if_neg hw] at hsafe
            apply heldStamps_decrement (fun l => List.drop_sublist _ l) htrim hheld
            rintro _ s' ⟨⟩ hsuf hlive
            rcases hsafe with (hsafe | hsafe) | hsafe
            · exact liveStamps_drop_suffix hsuf hlive (Or.inl hsafe)
            · exact liveStamps_drop_suffix hsuf hlive (Or.inr (Or.inl hsafe))
            · exact liveStamps_drop_suffix hsuf hlive (Or.inr (Or.inr (of_decide_eq_true hsafe)))
  | .fixed o e, .fixed _ e', ⟨rfl, h⟩ =>
    refine ⟨rfl, ?_⟩
    rcases h with rfl | ⟨rfl, hexp⟩
    · exact Or.inl rfl
    · refine Or.inr ⟨rfl, ?_⟩
      intro s hs
      cases e with
      | none => simp [fixedAfterDecrement] at hs
      | some s₀ =>
        have h₀ := hexp s₀ rfl
        simp only [fixedAfterDecrement] at hs
        split at hs
        · obtain rfl := Option.some.inj hs
          exact h₀
        · split at hs
          · simp at hs
          · obtain rfl := Option.some.inj hs
            exact h₀

/-- A safe `delete` finds the entry in both cells or in neither. -/
theorem Purged.isPresent {key : κ} (h : Purged now x y)
    (hsafe : x.purgeSafe (⟨now, .delete key⟩ : Timed (StoreOp κ)) = true) :
    x.isPresent = y.isPresent := by
  match x, y, h with
  | .sliding o e, .sliding _ e', ⟨rfl, htrim, hheld⟩ =>
    cases e' with
    | none =>
      rw [heldStamps_none] at hheld
      simpa [purgeSafe, ← hheld, Cell.isPresent] using hsafe
    | some s' =>
      obtain ⟨s, rfl, -⟩ := htrim s' rfl
      rfl
  | .fixed o e, .fixed _ e', ⟨rfl, h⟩ =>
    rcases h with rfl | ⟨rfl, hexp⟩
    · rfl
    · cases e with
      | none => rfl
      | some s =>
        have := hexp s rfl
        simp only [purgeSafe, Option.all_some, decide_eq_true_eq] at hsafe
        omega

/-- A safe operation answers alike and keeps what the cells have in common. -/
theorem Purged.window (h : Purged now x y) :
    (∃ o e e', x = .sliding o e ∧ y = .sliding o e') ∨
      ∃ o e e', x = .fixed o e ∧ y = .fixed o e' := by
  cases x with
  | bucket o e => exact h.elim
  | sliding o e =>
    cases y with
    | sliding o' e' => exact Or.inl ⟨o, e, e', rfl, by rw [h.1]⟩
    | fixed o' e' => exact h.elim
    | bucket o' e' => exact h.elim
  | fixed o e =>
    cases y with
    | fixed o' e' => exact Or.inr ⟨o, e, e', rfl, by rw [h.1]⟩
    | sliding o' e' => exact h.elim
    | bucket o' e' => exact h.elim

/-- Every safe operation answers alike and keeps the cells so. -/
theorem Purged.step {i : Timed (StoreOp κ)} (h : Purged i.time x y) (hop : i.op ≠ .purgeExpired)
    (hsafe : x.purgeSafe i = true) :
    (x.step i).2 = (y.step i).2 ∧ Purged i.time (x.step i).1 (y.step i).1 := by
  obtain ⟨now, op⟩ := i
  have hwindow : ∀ z : Cell, ((∃ o e, z = .sliding o e) ∨ ∃ o e, z = .fixed o e) →
      Purged now z z := by
    rintro _ (⟨o, e, rfl⟩ | ⟨o, e, rfl⟩)
    · exact ⟨rfl, trimmedFrom_refl e, rfl⟩
    · exact ⟨rfl, Or.inl rfl⟩
  cases op with
  | increment key options =>
    have heq := h.increment options
    refine ⟨congrArg (fun r : Cell × RateLimitResult => StoreReply.result r.2) heq, ?_⟩
    simp only [Cell.step, heq]
    apply hwindow
    obtain ⟨o, e, e', rfl, rfl⟩ | ⟨o, e, e', rfl, rfl⟩ := h.window
    · exact Or.inl ⟨_, _, rfl⟩
    · exact Or.inr ⟨_, _, rfl⟩
  | decrement key options => exact ⟨rfl, h.decrement hsafe⟩
  | get key => exact ⟨congrArg StoreReply.snapshot h.snapshot, h.clearWall⟩
  | set key totalHits expiresAt =>
    obtain ⟨o, e, e', rfl, rfl⟩ | ⟨o, e, e', rfl, rfl⟩ := h.window
    · exact ⟨rfl, rfl, trimmedFrom_refl _, rfl⟩
    · exact ⟨rfl, rfl, Or.inl rfl⟩
  | reset key =>
    obtain ⟨o, e, e', rfl, rfl⟩ | ⟨o, e, e', rfl, rfl⟩ := h.window
    · exact ⟨rfl, rfl, trimmedFrom_refl _, rfl⟩
    · exact ⟨rfl, rfl, Or.inl rfl⟩
  | delete key =>
    refine ⟨congrArg StoreReply.deleted (h.isPresent hsafe), ?_⟩
    obtain ⟨o, e, e', rfl, rfl⟩ | ⟨o, e, e', rfl, rfl⟩ := h.window
    · exact ⟨rfl, trimmedFrom_refl _, rfl⟩
    · exact ⟨rfl, Or.inl rfl⟩
  | purgeExpired => exact absurd rfl hop

end Cell

/-! ## The stores -/

variable [DecidableEq κ]

/-- A store of one of the two window strategies. -/
def MemoryStore.IsWindow : MemoryStore κ → Prop
  | .bucket _ _ => False
  | _ => True

/-- A store and what purges up to `now` may have made of it. -/
def StoresPurged (now : ℤ) (s s' : MemoryStore κ) : Prop :=
  s'.maxKeys = s.maxKeys ∧ ∀ k, (s.cell k).Legal now ∧ Cell.Purged now (s.cell k) (s'.cell k)

/-- The step neither reaches `maxKeys` nor notices what a purge takes away. -/
def PurgeSafeStep (i : Timed (StoreOp κ)) (s : MemoryStore κ) : Prop :=
  s.StepFits i ∧ ∀ key ∈ i.op.key, (s.cell key).purgeSafe i = true

/-- The input is one of the store's operations, not a firing of its timer. -/
def isOperation (i : Timed (StoreOp κ)) : Bool := decide (i.op ≠ .purgeExpired)

/-- A key that the purged store has, the other has. -/
theorem Cell.Purged.isPresent_of_purged {now : ℤ} {x y : Cell} (h : Cell.Purged now x y)
    (hy : y.isPresent = true) : x.isPresent = true := by
  match x, y, h with
  | .sliding o e, .sliding _ (some s'), ⟨rfl, htrim, _⟩ =>
    obtain ⟨s, rfl, -⟩ := htrim s' rfl
    rfl
  | .fixed o e, .fixed _ (some s'), ⟨rfl, h⟩ =>
    rcases h with rfl | ⟨h, -⟩
    · rfl
    · simp at h

/-- A step that fits the one fits the purged one. -/
theorem StoresPurged.fits {now : ℤ} {s s' : MemoryStore κ} {i : Timed (StoreOp κ)}
    (h : StoresPurged now s s') (hfits : s.StepFits i) : s'.StepFits i := by
  intro key hkey
  apply (hfits key hkey).of_keys_subset h.1
  intro k hk
  rw [MemoryStore.mem_keys] at hk ⊢
  exact (h.2 k).2.isPresent_of_purged hk

/-- A safe operation answers alike in both stores. -/
theorem StoresPurged.step {t : ℤ} {s s' : MemoryStore κ} {i : Timed (StoreOp κ)}
    (h : StoresPurged t s s') (ht : t ≤ i.time) (hop : isOperation i = true)
    (hsafe : PurgeSafeStep i s) :
    (s.step i).2 = (s'.step i).2 ∧ StoresPurged i.time (s.step i).1 (s'.step i).1 := by
  have hne : i.op ≠ .purgeExpired := of_decide_eq_true hop
  obtain ⟨key, hkey⟩ : ∃ key, i.op.key = some key := by
    obtain ⟨now, op⟩ := i
    cases op with
    | purgeExpired => exact absurd rfl hne
    | _ => exact ⟨_, rfl⟩
  obtain ⟨hout, hself⟩ := ((h.2 key).2.mono ht).step hne (hsafe.2 key hkey)
  refine ⟨?_, ?_, fun k => ?_⟩
  · rw [MemoryStore.step_snd hkey, MemoryStore.step_snd hkey, hout]
  · rw [MemoryStore.maxKeys_step, MemoryStore.maxKeys_step, h.1]
  · have hcond : (i.op.key = none ∨ i.op.key = some k) ↔ key = k := by
      simp [hkey]
    rw [MemoryStore.cell_step hsafe.1, MemoryStore.cell_step (h.fits hsafe.1)]
    simp only [hcond]
    by_cases hk : key = k
    · subst hk
      rw [if_pos rfl, if_pos rfl]
      exact ⟨(h.2 key).1.step ht, hself⟩
    · rw [if_neg hk, if_neg hk]
      exact ⟨(h.2 k).1.mono ht, (h.2 k).2.mono ht⟩

/-- A purge on one side goes unnoticed. -/
theorem StoresPurged.purge {t : ℤ} {s s' : MemoryStore κ} {i : Timed (StoreOp κ)}
    (h : StoresPurged t s s') (ht : t ≤ i.time) (hop : isOperation i = false) :
    StoresPurged i.time s (s'.step i).1 := by
  obtain ⟨now, op⟩ := i
  obtain rfl : op = .purgeExpired := by simpa [isOperation] using hop
  refine ⟨?_, fun k => ?_⟩
  · rw [MemoryStore.maxKeys_step, h.1]
  · have hlegal := (h.2 k).1.mono ht
    refine ⟨hlegal, ?_⟩
    simp only [MemoryStore.step, MemoryStore.cell_purgeExpired]
    exact ((h.2 k).2.mono ht).purge hlegal

/-- **When purging goes unnoticed.**  On a new window store, take any run of operations at
nondecreasing times in which each step neither reaches `maxKeys` nor notices what is
expired, and insert purges wherever you like: every operation answers as before.
SOURCE: src/stores/memory-store.ts:795-907, 1013-1045 -/
theorem purge_unobservable (s₀ : MemoryStore κ) (t₀ : ℤ) (is : List (Timed (StoreOp κ)))
    (hnew : s₀.IsNew) (hwindow : s₀.IsWindow) (hord : OrderedFrom Timed.time t₀ is)
    (hsafe : Guarded PurgeSafeStep MemoryStore.step (is.filter isOperation) s₀) :
    keptOutputs isOperation MemoryStore.step is s₀ =
      outputs MemoryStore.step (is.filter isOperation) s₀ := by
  have hstart : StoresPurged t₀ s₀ s₀ := by
    refine ⟨rfl, fun k => ⟨legal_of_isNew hnew t₀ k, ?_⟩⟩
    cases s₀ with
    | sliding o t => exact ⟨rfl, trimmedFrom_refl _, rfl⟩
    | fixed o t => exact ⟨rfl, Or.inl rfl⟩
    | bucket o t => exact hwindow.elim
  apply keptOutputs_eq_of_stuttering (R := StoresPurged) _ _ hstart hord hsafe
  · intro t s s' i hR ht hop hg
    exact hR.step ht hop hg
  · intro t s s' i hR ht hop
    exact hR.purge ht hop

/-! ## Two runs -/

/-- A purge at `1500` between the hits at `0` and `800` and a read at `1700`. -/
theorem purge_unobservable_read :
    keptOutputs isOperation MemoryStore.step
        [⟨0, .increment 7 {}⟩, ⟨800, .increment 7 {}⟩, ⟨1500, .purgeExpired⟩, ⟨1700, .get 7⟩]
        (.sliding twoASecond (KeyTable.new 0) : MemoryStore ℕ) =
      outputs MemoryStore.step [⟨0, .increment 7 {}⟩, ⟨800, .increment 7 {}⟩, ⟨1700, .get 7⟩]
        (.sliding twoASecond (KeyTable.new 0)) :=
  purge_unobservable (.sliding twoASecond (KeyTable.new 0)) 0
    [⟨0, .increment 7 {}⟩, ⟨800, .increment 7 {}⟩, ⟨1500, .purgeExpired⟩, ⟨1700, .get 7⟩]
    ⟨0, rfl⟩ trivial (by decide)
    ⟨⟨fun _ _ => Or.inl rfl, fun _ _ => rfl⟩, ⟨fun _ _ => Or.inl rfl, fun _ _ => rfl⟩,
      ⟨fun _ _ => Or.inl rfl, fun _ _ => rfl⟩, trivial⟩

/-- With hits at `0` and `600`, a decrement at `1100` takes the dead hit; after a purge it
takes the live one. -/
theorem purge_observable :
    ¬ ∀ (s₀ : MemoryStore ℕ) (t₀ : ℤ) (is : List (Timed (StoreOp ℕ))), s₀.IsNew → s₀.IsWindow →
      OrderedFrom Timed.time t₀ is →
      keptOutputs isOperation MemoryStore.step is s₀ =
        outputs MemoryStore.step (is.filter isOperation) s₀ := by
  intro h
  have := h (.sliding twoASecond (KeyTable.new 0)) 0
    [⟨0, .increment 7 {}⟩, ⟨600, .increment 7 {}⟩, ⟨1100, .purgeExpired⟩, ⟨1100, .decrement 7 {}⟩,
      ⟨1100, .get 7⟩] ⟨0, rfl⟩ trivial (by decide)
  revert this
  decide +kernel

end RatelimitFlex
