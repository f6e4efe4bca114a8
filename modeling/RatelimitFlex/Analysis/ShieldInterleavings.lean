import RatelimitFlex.Library.TimedRun
import RatelimitFlex.Program.InMemoryShield

/-!
# Unblocking a key while increments are in flight

An increment takes its count in the inner store, and its continuation puts the key in the
cache when it runs.  An operation that unblocks the key clears the cache at its beginning,
so a continuation that runs later brings the block back, on a count the operation has made
void.  `Fresh` says when no continuation does.
-/

set_option autoImplicit false

namespace RatelimitFlex

open Library InMemoryShield

variable {κ : Type} [DecidableEq κ]

/-- The increment started before the operation on its key, and its count was not taken after
the operation took effect. -/
def Flight.predates (f : Flight κ) (u : Unblocking κ) : Bool :=
  decide (u.key = f.key) && decide (f.started < u.begun) &&
    match u.effected, f.counted with
    | some m, some c => decide (c.1 < m)
    | _, _ => true

namespace ShieldRun

variable (o : InMemoryShieldOptions)

/-- No key is shielded on a count that an operation that is over has made void. -/
def NoStaleBlock (now : ℤ) (s : ShieldRun κ) : Prop :=
  ∀ u ∈ s.completed, isShielded now u.key s.cache = true →
    ∀ f ∈ s.origin u.key, f.predates u = false

instance (now : ℤ) (s : ShieldRun κ) : Decidable (s.NoStaleBlock now) :=
  inferInstanceAs (Decidable (∀ u ∈ s.completed, _ → ∀ f ∈ s.origin u.key, _))

/-- After every event of the run there is no stale block. -/
def StaysCurrent (is : List (Timed (ShieldEvent κ))) (s : ShieldRun κ) : Prop :=
  Guarded (fun i s => (step o i s).1.NoStaleBlock i.time) (step o) is s

/-- A continuation that reaches the threshold predates no operation on its key, over or
not. -/
def Fresh (i : Timed (ShieldEvent κ)) (s : ShieldRun κ) : Prop :=
  match i.op with
  | .resume n => ∀ p ∈ s.answered n, o.blockOnConsumed ≤ p.2.2.totalHits →
      ∀ u ∈ s.unblockings ++ s.completed, p.1.predates u = false
  | _ => True

/-- What is cached stems from increments of the key that predate no operation. -/
def Current (s : ShieldRun κ) : Prop :=
  ∀ k, (s.cache.lookup k).isSome = true → ∀ f ∈ s.origin k,
    f.key = k ∧ ∀ u ∈ s.unblockings ++ s.completed, f.predates u = false

/-! ## One event -/

section Step

variable {o} {s : ShieldRun κ} {i : Timed (ShieldEvent κ)}

/-- Nothing enters the cache, and no operation is new: what is cached stays current. -/
theorem Current.mono {s' : ShieldRun κ} (h : s.Current) (horigin : s'.origin = s.origin)
    (hcache : ∀ k, (s'.cache.lookup k).isSome = true → (s.cache.lookup k).isSome = true)
    (hops : ∀ k, (s'.cache.lookup k).isSome = true → ∀ f ∈ s.origin k, f.key = k →
      (∀ u ∈ s.unblockings ++ s.completed, f.predates u = false) →
      ∀ u ∈ s'.unblockings ++ s'.completed, f.predates u = false) : s'.Current := by
  intro k hk f hf
  rw [horigin] at hf
  obtain ⟨hkey, hold⟩ := h k (hcache k hk) f hf
  exact ⟨hkey, hops k hk f hf hkey hold⟩

/-- A flight predates no unblock of another key. -/
theorem predates_of_key_ne {f : Flight κ} {u : Unblocking κ} (h : u.key ≠ f.key) :
    f.predates u = false := by
  simp [Flight.predates, h]

/-- An operation takes effect: what it was not predated by it still is not. -/
theorem predates_effected {f : Flight κ} {u : Unblocking κ} (hnone : u.effected = none)
    (h : f.predates u = false) (m : ℕ) : f.predates { u with effected := some m } = false := by
  simp only [Flight.predates, hnone, Bool.and_true] at h
  simp only [Flight.predates, h, Bool.false_and]

/-- Every step keeps the cache current. -/
theorem Current.step (h : s.Current) (hfresh : Fresh o i s) : (step o i s).1.Current := by
  obtain ⟨now, op⟩ := i
  cases op with
  | start key =>
    simp only [ShieldRun.step]
    split
    · exact h
    · exact h.mono rfl (fun k hk => (isSome_lookup_erase hk).2) fun _ _ _ _ _ hold => hold
  | count n result =>
    simp only [ShieldRun.step]
    split
    · split <;> exact h
    · exact h
  | reject n => exact h
  | resume n =>
    simp only [ShieldRun.step]
    cases hanswered : s.answered n with
    | none => exact h
    | some p =>
      obtain ⟨f, c, result⟩ := p
      simp only
      -- whom an entry stems from afterwards
      have horigin : ∀ k f', f' ∈ (if o.blockOnConsumed ≤ result.totalHits then
          Function.update s.origin f.key (some f) else s.origin) k →
          k = f.key ∧ o.blockOnConsumed ≤ result.totalHits ∧ f' = f ∨
            ¬ (k = f.key ∧ o.blockOnConsumed ≤ result.totalHits) ∧ f' ∈ s.origin k := by
        intro k f' hf'
        split at hf'
        · next hreached =>
          by_cases hk : k = f.key
          · rw [hk, Function.update_self] at hf'
            exact Or.inl ⟨hk, hreached, (Option.some.inj hf').symm⟩
          · rw [Function.update_of_ne hk] at hf'
            exact Or.inr ⟨fun h => hk h.1, hf'⟩
        · next hnot => exact Or.inr ⟨fun h => hnot h.2, hf'⟩
      intro k hk f' hf'
      rcases horigin k f' hf' with ⟨rfl, hreached, rfl⟩ | ⟨hother, hf'⟩
      · exact ⟨rfl, hfresh _ hanswered hreached⟩
      · rcases isSome_lookup_afterAnswer hk with hself | hold
        · exact absurd hself hother
        · exact h k hold f' hf'
  | unblock key =>
    refine h.mono rfl (fun k hk => (isSome_lookup_erase hk).2) ?_
    intro k hk f hf hkey hold u hu
    have hne := (isSome_lookup_erase hk).1
    rcases List.mem_append.mp hu with hu | hu
    · rcases List.mem_append.mp hu with hu | hu
      · exact hold u (List.mem_append_left _ hu)
      · rw [List.mem_singleton.mp hu]
        exact predates_of_key_ne (hkey ▸ hne.symm)
    · exact hold u (List.mem_append_right _ hu)
  | effect n =>
    simp only [ShieldRun.step]
    split
    · next u hget =>
      split
      · next hnone =>
        refine h.mono rfl (fun _ hk => hk) fun _ _ f _ _ hold u' hu' => ?_
        rcases List.mem_append.mp hu' with hu' | hu'
        · rcases List.mem_or_eq_of_mem_set hu' with hu' | rfl
          · exact hold u' (List.mem_append_left _ hu')
          · exact predates_effected (Option.isNone_iff_eq_none.mp hnone)
              (hold u (List.mem_append_left _ (List.mem_of_getElem? hget))) _
        · exact hold u' (List.mem_append_right _ hu')
      · exact h
    · exact h
  | settle n =>
    simp only [ShieldRun.step]
    split
    · next u hget =>
      split
      · refine h.mono rfl (fun _ hk => hk) fun _ _ f _ _ hold u' hu' => ?_
        rcases List.mem_append.mp hu' with hu' | hu'
        · exact hold u' (List.mem_append_left _ (List.mem_of_mem_eraseIdx hu'))
        · rcases List.mem_cons.mp hu' with rfl | hu'
          · exact hold u' (List.mem_append_left _ (List.mem_of_getElem? hget))
          · exact hold u' (List.mem_append_right _ hu')
      · exact h
    · exact h
  | unshield key =>
    refine h.mono rfl (fun k hk => (isSome_lookup_erase hk).2) ?_
    intro k hk f hf hkey hold u hu
    have hne := (isSome_lookup_erase hk).1
    rcases List.mem_append.mp hu with hu | hu
    · exact hold u (List.mem_append_left _ hu)
    · rcases List.mem_cons.mp hu with rfl | hu
      · exact predates_of_key_ne (hkey ▸ hne.symm)
      · exact hold u (List.mem_append_right _ hu)
  | sweep =>
    refine h.mono rfl (fun k hk => ?_) fun _ _ _ _ _ hold => hold
    simp only [ShieldRun.step, sweep, InsertionMap.lookup_filterMapValues] at hk
    cases hget : s.cache.lookup k with
    | none => simp [hget] at hk
    | some entry => rfl
  | clearShield =>
    intro k hk
    simp [ShieldRun.step] at hk

/-- A current cache shields no key on a void count. -/
theorem Current.noStaleBlock (h : s.Current) (now : ℤ) : s.NoStaleBlock now :=
  fun u hu hshielded f hf =>
    (h u.key (isSome_of_isShielded hshielded) f hf).2 u (List.mem_append_right _ hu)

/-- A continuation that predates an operation which is over brings a stale block. -/
theorem stale_of_resume {now : ℤ} {n c : ℕ} {f : Flight κ} {result : RateLimitResult}
    (hanswered : s.answered n = some (f, c, result))
    (hreached : o.blockOnConsumed ≤ result.totalHits) (hend : now < blockEnd o now result)
    {u : Unblocking κ} (hu : u ∈ s.completed) (hpredates : f.predates u = true) :
    ¬ (step o ⟨now, .resume n⟩ s).1.NoStaleBlock now := by
  have hkey : u.key = f.key := by
    by_contra hne
    rw [predates_of_key_ne hne] at hpredates
    simp at hpredates
  have hshielded : isShielded now f.key (afterAnswer o now f.key result s.cache) = true := by
    rw [isShielded, blockedAnswer, afterAnswer, if_pos hreached, cacheBlock,
      InsertionMap.lookup_set_self]
    simp [hend]
  have horigin : f ∈ Function.update s.origin f.key (some f) u.key := by
    rw [hkey, Function.update_self]
    rfl
  intro hstale
  simp only [step, hanswered, if_pos hreached] at hstale
  have hfalse := hstale u hu (hkey ▸ hshielded) f horigin
  rw [hpredates] at hfalse
  simp at hfalse

end Step

/-- **No unblocked key is shielded on an old count**, in every run of increments, operations
that unblock, sweeps and clearings in any order whose continuations are fresh.
SOURCE: src/shield/InMemoryShield.ts:100-203, 313-315 -/
theorem shield_stays_current (is : List (Timed (ShieldEvent κ)))
    (hfresh : Guarded (Fresh o) (step o) is ({} : ShieldRun κ)) :
    StaysCurrent o is ({} : ShieldRun κ) := by
  have hrun : ∀ s : ShieldRun κ, s.Current → Guarded (Fresh o) (step o) is s →
      StaysCurrent o is s := by
    clear hfresh
    induction is with
    | nil => exact fun _ _ _ => trivial
    | cons i is ih =>
      intro s hs hg
      have hnext := hs.step hg.1
      exact ⟨hnext.noStaleBlock i.time, ih _ hnext hg.2⟩
  exact hrun _ (fun k hk => by simp at hk) hfresh

end ShieldRun

/-! ## A threshold of one -/

/-- The count of a hit in a window of a second. -/
def firstHit (now : ℤ) : RateLimitResult :=
  { totalHits := 1, remaining := 0, resetTime := now + 1000, isBlocked := false }

/-- A reset that begins and ends between two increments. -/
theorem shield_stays_current_reset :
    ShieldRun.StaysCurrent atFirstHit
      [⟨0, .start 7⟩, ⟨1, .count 0 (firstHit 1)⟩, ⟨2, .resume 0⟩, ⟨3, .unblock 7⟩, ⟨4, .effect 0⟩,
        ⟨5, .settle 0⟩, ⟨6, .start 7⟩, ⟨7, .count 0 (firstHit 7)⟩, ⟨8, .resume 0⟩]
      ({} : ShieldRun ℕ) := by
  apply ShieldRun.shield_stays_current
  refine ⟨trivial, trivial, ?_, trivial, trivial, trivial, trivial, trivial, ?_, trivial⟩
  all_goals
    intro p hp
    obtain rfl := Option.some.inj hp
    decide +kernel

/-- The increment is counted, the reset begins and clears the cache, and the continuation
blocks the key on the count that the reset then makes void. -/
theorem shield_blocks_after_reset :
    ¬ ∀ (o : InMemoryShieldOptions) (t : ℤ) (is : List (Timed (ShieldEvent ℕ))),
      OrderedFrom Timed.time t is → ShieldRun.StaysCurrent o is ({} : ShieldRun ℕ) := by
  intro h
  have hend := (h atFirstHit 0 [⟨0, .start 7⟩, ⟨1, .count 0 (firstHit 1)⟩, ⟨2, .unblock 7⟩,
    ⟨3, .resume 0⟩, ⟨4, .effect 0⟩, ⟨5, .settle 0⟩] (by decide)).2.2.2.2.2.1
  revert hend
  decide +kernel

end RatelimitFlex
