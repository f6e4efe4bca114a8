import RatelimitFlex.Library.InsertionMap
import RatelimitFlex.Program.MemoryStore
import RatelimitFlex.Program.RateLimitEngine

/-!
# `InMemoryShield`

`src/shield/InMemoryShield.ts`: a cache of blocked keys in front of a store.  `increment`
is one undisturbed call.  `ShieldRun` is the shield with calls in flight: a call starts,
the inner store takes its count, and the continuation runs when the answer is there; the
operations that unblock a key drop it from the cache first and wait for the inner store
then.  Events are numbered as they come.  Metrics and callbacks are left out.
-/

set_option autoImplicit false

namespace RatelimitFlex

open Library

/-- SOURCE: src/shield/types.ts:80-92 -/
structure ShieldEntry where
  blockedAt : ℤ
  expiresAt : ℤ
  cachedResult : RateLimitResult
  deriving DecidableEq

/-- What the constructor accepts.  Of a fractional threshold only the next integer matters,
as counts are integers; `none` is `undefined`.
SOURCE: src/shield/InMemoryShield.ts:37-56 -/
structure InMemoryShieldOptions where
  blockOnConsumed : ℤ
  blockDurationMs : Option ℤ := none
  maxBlockedKeys : ℕ := 10000
  one_le_blockOnConsumed : 1 ≤ blockOnConsumed
  blockDurationMs_nonneg : ∀ d ∈ blockDurationMs, 0 ≤ d

/-- Blocks a key at its first hit, until its window ends. -/
def atFirstHit : InMemoryShieldOptions where
  blockOnConsumed := 1
  one_le_blockOnConsumed := le_rfl
  blockDurationMs_nonneg := by nofun

/-- What the shield answers. -/
structure ShieldedResult extends RateLimitResult where
  shielded : Bool := false
  deriving DecidableEq

abbrev ShieldCache (κ : Type) := InsertionMap κ ShieldEntry

namespace InMemoryShield

variable {σ κ : Type} [DecidableEq κ] (o : InMemoryShieldOptions) (now : ℤ) (key : κ)

/-! ## The cache -/

/-- The cached answer, while the block lasts.
SOURCE: src/shield/InMemoryShield.ts:104-111 -/
def blockedAnswer (cache : ShieldCache κ) : Option ShieldedResult :=
  (cache.lookup key).bind fun entry =>
    if now < entry.expiresAt then some { entry.cachedResult with shielded := true } else none

/-- The end of a block that starts now.
SOURCE: src/shield/InMemoryShield.ts:139-144 -/
def blockEnd (result : RateLimitResult) : ℤ :=
  match o.blockDurationMs with
  | some d => if 0 < d then now + d else result.resetTime
  | none => result.resetTime

/-- SOURCE: src/shield/InMemoryShield.ts:146-153 -/
def evictOldest (cache : ShieldCache κ) : ShieldCache κ :=
  if 0 < o.maxBlockedKeys ∧ o.maxBlockedKeys ≤ cache.size then
    match cache.keys.head? with
    | some oldestKey => cache.erase oldestKey
    | none => cache
  else cache

/-- SOURCE: src/shield/InMemoryShield.ts:130-169 -/
def cacheBlock (result : RateLimitResult) (cache : ShieldCache κ) : ShieldCache κ :=
  (evictOldest o cache).set key
    { blockedAt := now
      expiresAt := blockEnd o now result
      cachedResult :=
        { totalHits := result.totalHits
          remaining := max 0 result.remaining
          resetTime := result.resetTime
          isBlocked := true } }

/-- What the continuation of an increment does when the inner store has answered.
SOURCE: src/shield/InMemoryShield.ts:118-122 -/
def afterAnswer (result : RateLimitResult) (cache : ShieldCache κ) : ShieldCache κ :=
  if o.blockOnConsumed ≤ result.totalHits then cacheBlock o now key result cache else cache

/-- SOURCE: src/shield/InMemoryShield.ts:253-265 -/
def sweep (cache : ShieldCache κ) : ShieldCache κ :=
  cache.filterMapValues fun entry => if entry.expiresAt ≤ now then none else some entry

/-- SOURCE: src/shield/InMemoryShield.ts:291-294 -/
def isShielded (cache : ShieldCache κ) : Bool := (blockedAnswer now key cache).isSome

variable {o now key} {k : κ} {cache : ShieldCache κ}

/-- What is left after an eviction was there. -/
theorem lookup_of_evictOldest {entry : ShieldEntry}
    (h : (evictOldest o cache).lookup k = some entry) : cache.lookup k = some entry := by
  unfold evictOldest at h
  split at h
  · split at h
    · rw [InsertionMap.lookup_erase'] at h
      split at h
      · simp at h
      · exact h
    · exact h
  · exact h

/-- A continuation writes its own key at most. -/
theorem lookup_of_afterAnswer {result : RateLimitResult} {entry : ShieldEntry}
    (h : (afterAnswer o now key result cache).lookup k = some entry) :
    (k = key ∧ o.blockOnConsumed ≤ result.totalHits ∧
      entry.expiresAt = blockEnd o now result ∧ entry.cachedResult.isBlocked = true ∧
      entry.cachedResult.remaining = max 0 result.remaining) ∨
      cache.lookup k = some entry := by
  unfold afterAnswer at h
  split at h
  · next hreached =>
    rw [cacheBlock, InsertionMap.lookup_set] at h
    split at h
    · next hk =>
      obtain rfl := Option.some.inj h
      exact Or.inl ⟨hk, hreached, rfl, rfl, rfl⟩
    · exact Or.inr (lookup_of_evictOldest h)
  · exact Or.inr h

/-- An answer caches its own key at most. -/
theorem isSome_lookup_afterAnswer {result : RateLimitResult}
    (h : ((afterAnswer o now key result cache).lookup k).isSome = true) :
    k = key ∧ o.blockOnConsumed ≤ result.totalHits ∨ (cache.lookup k).isSome = true := by
  obtain ⟨entry, hentry⟩ := Option.isSome_iff_exists.mp h
  rcases lookup_of_afterAnswer hentry with ⟨hk, hreached, -⟩ | hold
  · exact Or.inl ⟨hk, hreached⟩
  · exact Or.inr (Option.isSome_iff_exists.mpr ⟨entry, hold⟩)

/-- An erased key is gone, and no other. -/
theorem isSome_lookup_erase (h : ((cache.erase key).lookup k).isSome = true) :
    k ≠ key ∧ (cache.lookup k).isSome = true := by
  rw [InsertionMap.lookup_erase'] at h
  split at h
  · simp at h
  · next hk => exact ⟨hk, h⟩

/-- What is left was there. -/
theorem lookup_of_erase {entry : ShieldEntry} (h : (cache.erase key).lookup k = some entry) :
    cache.lookup k = some entry := by
  rw [InsertionMap.lookup_erase'] at h
  split at h
  · simp at h
  · exact h

/-- What a sweep leaves was there. -/
theorem lookup_of_sweep {entry : ShieldEntry} (h : (sweep now cache).lookup k = some entry) :
    cache.lookup k = some entry := by
  rw [sweep, InsertionMap.lookup_filterMapValues] at h
  obtain ⟨old, hold, hkept⟩ := Option.bind_eq_some_iff.mp h
  split at hkept
  · simp at hkept
  · rw [hold, ← Option.some.inj hkept]

/-- The entry behind an answer of the cache. -/
theorem exists_entry_of_blockedAnswer {result : ShieldedResult}
    (h : blockedAnswer now key cache = some result) :
    ∃ entry, cache.lookup key = some entry ∧ now < entry.expiresAt ∧
      result = { entry.cachedResult with shielded := true } := by
  obtain ⟨entry, hentry, hlive⟩ := Option.bind_eq_some_iff.mp h
  split at hlive
  · next hlt => exact ⟨entry, hentry, hlt, (Option.some.inj hlive).symm⟩
  · simp at hlive

/-- A shielded key is cached. -/
theorem isSome_of_isShielded (h : isShielded now key cache = true) :
    (cache.lookup key).isSome = true := by
  obtain ⟨result, hresult⟩ := Option.isSome_iff_exists.mp h
  obtain ⟨entry, hentry, -⟩ := exists_entry_of_blockedAnswer hresult
  exact Option.isSome_iff_exists.mpr ⟨entry, hentry⟩

end InMemoryShield

/-! ## One undisturbed call -/

/-- A shielded store. -/
structure Shielded (σ κ : Type) [DecidableEq κ] where
  inner : σ
  cache : ShieldCache κ := ∅

namespace InMemoryShield

variable {σ κ : Type} [DecidableEq κ] (o : InMemoryShieldOptions)

/-- SOURCE: src/shield/InMemoryShield.ts:100-127 -/
def increment (inner : RateLimitStore σ κ) (clock : σ → ℤ) (key : κ)
    (options : RateLimitIncrementOptions) (s : Shielded σ κ) :
    Except StoreError ShieldedResult × Shielded σ κ :=
  match blockedAnswer (clock s.inner) key s.cache with
  | some result => (.ok result, s)
  | none =>
    let cache := s.cache.erase key
    match inner.increment key options s.inner with
    | (.error e, inner) => (.error e, ⟨inner, cache⟩)
    | (.ok result, inner) =>
      (.ok { result with }, ⟨inner, afterAnswer o (clock inner) key result cache⟩)

/-- SOURCE: src/shield/InMemoryShield.ts:175-178 -/
def decrement (inner : RateLimitStore σ κ) (key : κ) (options : RateLimitDecrementOptions)
    (s : Shielded σ κ) : Shielded σ κ :=
  ⟨inner.decrement key options s.inner, s.cache.erase key⟩

end InMemoryShield

/-! ## Calls in flight -/

/-- An increment that asks the inner store: the number of the event it started with and, once
the inner store has counted it, the number of that event and the answer. -/
structure Flight (κ : Type) where
  key : κ
  started : ℕ
  counted : Option (ℕ × RateLimitResult) := none

/-- A `reset`, `delete`, `decrement` or `set` of a key: the events it began and took effect
with. -/
structure Unblocking (κ : Type) where
  key : κ
  begun : ℕ
  effected : Option ℕ := none

/-- The shield with calls in flight.  `origin` remembers the increment that an entry of the
cache stems from, `completed` the operations that are over. -/
structure ShieldRun (κ : Type) [DecidableEq κ] where
  cache : ShieldCache κ := ∅
  flights : List (Flight κ) := []
  unblockings : List (Unblocking κ) := []
  events : ℕ := 0
  origin : κ → Option (Flight κ) := fun _ => none
  completed : List (Unblocking κ) := []

inductive ShieldEvent (κ : Type) where
  | start (key : κ)
  | count (i : ℕ) (result : RateLimitResult)
  | reject (i : ℕ)
  | resume (i : ℕ)
  | unblock (key : κ)
  | effect (i : ℕ)
  | settle (i : ℕ)
  | unshield (key : κ)
  | sweep
  | clearShield

namespace ShieldRun

variable {κ : Type} [DecidableEq κ]

/-- The answer that the `i`-th increment in flight waits for. -/
def answered (i : ℕ) (s : ShieldRun κ) : Option (Flight κ × ℕ × RateLimitResult) :=
  s.flights[i]?.bind fun f => f.counted.map fun c => (f, c.1, c.2)

/-- One event, and what it answers to the caller of an increment.
SOURCE: src/shield/InMemoryShield.ts:100-127, 175-203, 253-265, 313-320 -/
def step (o : InMemoryShieldOptions) (i : Timed (ShieldEvent κ)) (s : ShieldRun κ) :
    ShieldRun κ × Option ShieldedResult :=
  let now := i.time
  let s' := { s with events := s.events + 1 }
  match i.op with
  | .start key =>
    match InMemoryShield.blockedAnswer now key s.cache with
    | some result => (s', some result)
    | none =>
      ({ s' with
         cache := s.cache.erase key
         flights := s.flights ++ [{ key, started := s.events }] }, none)
  | .count n result =>
    match s.flights[n]? with
    | some f =>
      if f.counted.isNone then
        ({ s' with flights := s.flights.set n { f with counted := some (s.events, result) } }, none)
      else (s', none)
    | none => (s', none)
  | .reject n => ({ s' with flights := s.flights.eraseIdx n }, none)
  | .resume n =>
    match s.answered n with
    | some (f, _, result) =>
      ({ s' with
         cache := InMemoryShield.afterAnswer o now f.key result s.cache
         flights := s.flights.eraseIdx n
         origin := if o.blockOnConsumed ≤ result.totalHits then
             Function.update s.origin f.key (some f)
           else s.origin },
        some { result with })
    | none => (s', none)
  | .unblock key =>
    ({ s' with
       cache := s.cache.erase key
       unblockings := s.unblockings ++ [{ key, begun := s.events }] }, none)
  | .effect n =>
    match s.unblockings[n]? with
    | some u =>
      if u.effected.isNone then
        ({ s' with unblockings := s.unblockings.set n { u with effected := some s.events } }, none)
      else (s', none)
    | none => (s', none)
  | .settle n =>
    match s.unblockings[n]? with
    | some u =>
      if u.effected.isSome then
        ({ s' with
           unblockings := s.unblockings.eraseIdx n
           completed := u :: s.completed }, none)
      else (s', none)
    | none => (s', none)
  | .unshield key =>
    ({ s' with
       cache := s.cache.erase key
       completed := { key, begun := s.events, effected := some s.events } :: s.completed }, none)
  | .sweep => ({ s' with cache := InMemoryShield.sweep now s.cache }, none)
  | .clearShield => ({ s' with cache := ∅ }, none)

end ShieldRun

end RatelimitFlex
