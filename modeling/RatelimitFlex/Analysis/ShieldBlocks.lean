import RatelimitFlex.Program.InMemoryShield

/-!
# What the blocks of a shield stand for

A block stands for something about its key in the store behind the shield, up to the moment it
ends.  An increment that the shield lets through may begin one, and may take away what the
blocks of other keys stand for; nothing else the shield does adds a block.
-/

set_option autoImplicit false

namespace RatelimitFlex

open Library

namespace InMemoryShield

variable {σ κ : Type} [DecidableEq κ] {o : InMemoryShieldOptions} {inner : RateLimitStore σ κ}
  {clock : σ → ℤ} {key : κ} {options : RateLimitIncrementOptions} {s : Shielded σ κ} {t now : ℤ}

/-- An entry that is not over shields its key. -/
theorem isShielded_of_lookup {cache : ShieldCache κ} {entry : ShieldEntry}
    (h : cache.lookup key = some entry) (hlive : now < entry.expiresAt) :
    isShielded now key cache = true := by
  simp [isShielded, blockedAnswer, h, hlive]

/-- A shielded key has such an entry. -/
theorem exists_entry_of_isShielded {cache : ShieldCache κ} (h : isShielded now key cache = true) :
    ∃ entry, cache.lookup key = some entry ∧ now < entry.expiresAt := by
  obtain ⟨result, hresult⟩ := Option.isSome_iff_exists.mp h
  obtain ⟨entry, hentry, hlive, -⟩ := exists_entry_of_blockedAnswer hresult
  exact ⟨entry, hentry, hlive⟩

/-- An answer at the threshold is cached. -/
theorem exists_entry_afterAnswer (o : InMemoryShieldOptions) (now : ℤ) (key : κ)
    (cache : ShieldCache κ) {result : RateLimitResult} (h : o.blockOnConsumed ≤ result.totalHits) :
    ∃ entry, (afterAnswer o now key result cache).lookup key = some entry ∧
      entry.expiresAt = blockEnd o now result := by
  rw [afterAnswer, if_pos h, cacheBlock, InsertionMap.lookup_set, if_pos rfl]
  exact ⟨_, rfl, rfl⟩

/-- A shielded increment: the cache answers, or the store behind is asked. -/
theorem increment_cases (o : InMemoryShieldOptions) (inner : RateLimitStore σ κ) (clock : σ → ℤ)
    (key : κ) (options : RateLimitIncrementOptions) (s : Shielded σ κ) :
    isShielded (clock s.inner) key s.cache = true ∧
        (InMemoryShield.increment o inner clock key options s).2 = s ∨
      isShielded (clock s.inner) key s.cache = false ∧
        (InMemoryShield.increment o inner clock key options s).2 =
          ⟨(inner.increment key options s.inner).2,
            match (inner.increment key options s.inner).1 with
            | .error _ => s.cache.erase key
            | .ok result => afterAnswer o (clock (inner.increment key options s.inner).2) key result
                (s.cache.erase key)⟩ := by
  unfold InMemoryShield.increment isShielded
  cases blockedAnswer (clock s.inner) key s.cache with
  | some result => exact Or.inl ⟨rfl, rfl⟩
  | none =>
    refine Or.inr ⟨rfl, ?_⟩
    obtain ⟨answer, inner'⟩ := inner.increment key options s.inner
    cases answer <;> rfl

/-- Every block that has not ended stands for `P` of its key and its end. -/
def Vouches (P : κ → ℤ → σ → Prop) (now : ℤ) (s : Shielded σ κ) : Prop :=
  ∀ k entry, s.cache.lookup k = some entry → now < entry.expiresAt → P k entry.expiresAt s.inner

variable {P : κ → ℤ → σ → Prop}

/-- What is vouched for now is vouched for later. -/
theorem Vouches.mono (h : Vouches P t s) (ht : t ≤ now) : Vouches P now s :=
  fun k entry hk hlive => h k entry hk (ht.trans_lt hlive)

/-- A shielded key is vouched for. -/
theorem Vouches.of_isShielded (h : Vouches P now s) (hs : isShielded now key s.cache = true) :
    ∃ ends, now < ends ∧ P key ends s.inner := by
  obtain ⟨entry, hentry, hlive⟩ := exists_entry_of_isShielded hs
  exact ⟨entry.expiresAt, hlive, h key entry hentry hlive⟩

/-- An increment keeps what blocks stand for, if the store behind keeps it of other keys and
what it answers to this one is worth the block that begins. -/
theorem Vouches.increment (o : InMemoryShieldOptions) (inner : RateLimitStore σ κ) (clock : σ → ℤ)
    (hnow : clock s.inner = now) (h : Vouches P now s)
    (hkeeps : isShielded now key s.cache = false → ∀ k ends, k ≠ key →
      isShielded now k s.cache = true → P k ends s.inner →
        P k ends (inner.increment key options s.inner).2)
    (hbegins : isShielded now key s.cache = false →
      ∀ result, (inner.increment key options s.inner).1 = .ok result →
        o.blockOnConsumed ≤ result.totalHits →
          P key (blockEnd o (clock (inner.increment key options s.inner).2) result)
            (inner.increment key options s.inner).2) :
    Vouches P now (InMemoryShield.increment o inner clock key options s).2 := by
  subst hnow
  rcases increment_cases o inner clock key options s with ⟨-, hsame⟩ | ⟨hfree, hasked⟩
  · rw [hsame]
    exact h
  · rw [hasked]
    intro k entry hk hlive
    have hold : (s.cache.erase key).lookup k = some entry →
        P k entry.expiresAt (inner.increment key options s.inner).2 := by
      intro hk
      have hne : k ≠ key := (isSome_lookup_erase (Option.isSome_iff_exists.mpr ⟨entry, hk⟩)).1
      have hk := lookup_of_erase hk
      exact hkeeps hfree k _ hne (isShielded_of_lookup hk hlive) (h k entry hk hlive)
    cases hanswer : (inner.increment key options s.inner).1 with
    | error e =>
      apply hold
      simpa only [hanswer] using hk
    | ok result =>
      simp only [hanswer] at hk
      rcases lookup_of_afterAnswer hk with ⟨rfl, hreached, hends, -⟩ | hk
      · rw [hends]
        exact hbegins hfree result hanswer hreached
      · exact hold hk

/-- A decrement ends the block of its key. -/
theorem Vouches.decrement (h : Vouches P now s) {dec : RateLimitDecrementOptions}
    (hkeeps : ∀ k ends, k ≠ key → P k ends s.inner → P k ends (inner.decrement key dec s.inner)) :
    Vouches P now (InMemoryShield.decrement inner key dec s) := by
  intro k entry hk hlive
  have hne : k ≠ key := (isSome_lookup_erase (Option.isSome_iff_exists.mpr ⟨entry, hk⟩)).1
  exact hkeeps k _ hne (h k entry (lookup_of_erase hk) hlive)

/-- A sweep drops nothing that is vouched for. -/
theorem Vouches.sweep (h : Vouches P now s) :
    Vouches P now { s with cache := InMemoryShield.sweep now s.cache } :=
  fun k entry hk hlive => h k entry (lookup_of_sweep hk) hlive

end InMemoryShield

end RatelimitFlex
