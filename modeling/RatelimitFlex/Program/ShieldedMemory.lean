import RatelimitFlex.Program.InMemoryShield
import RatelimitFlex.Program.StoreBank

/-!
# A shielded `MemoryStore`

`InMemoryShield` in front of the store of its own process, with increments in flight: a call
runs up to its `await`, the store having counted it, and its continuation runs at any later
point.  A call whose continuation runs at once is `InMemoryShield.increment`.
-/

set_option autoImplicit false

namespace RatelimitFlex

open Library InMemoryShield

variable {κ : Type} [DecidableEq κ]

/-- The shield and its store, and the increments whose continuation has not run yet. -/
structure ShieldedMemory (κ : Type) [DecidableEq κ] where
  inner : MemoryStore κ
  cache : ShieldCache κ := ∅
  flights : List (κ × RateLimitResult) := []

inductive ShieldedOp (κ : Type) where
  | increment (key : κ) (options : RateLimitIncrementOptions)
  | resume (i : ℕ)
  | sweep
  | purgeExpired

namespace ShieldedMemory

variable (o : InMemoryShieldOptions) (now : ℤ)

/-- An increment up to its `await`, and what the call answers.
SOURCE: src/shield/InMemoryShield.ts:100-116 -/
def start (key : κ) (options : RateLimitIncrementOptions) (s : ShieldedMemory κ) :
    ShieldedMemory κ × ShieldedResult :=
  match blockedAnswer now key s.cache with
  | some result => (s, result)
  | none =>
    let r := s.inner.increment now key options
    ({ inner := r.1
       cache := s.cache.erase key
       flights := s.flights ++ [(key, r.2)] }, { r.2 with })

/-- The continuation of an increment.
SOURCE: src/shield/InMemoryShield.ts:117-126 -/
def resume (i : ℕ) (s : ShieldedMemory κ) : ShieldedMemory κ :=
  match s.flights[i]? with
  | some (key, result) =>
    { s with
      cache := afterAnswer o now key result s.cache
      flights := s.flights.eraseIdx i }
  | none => s

/-- One step, and what it answers to the caller of an increment. -/
def step (i : Timed (ShieldedOp κ)) (s : ShieldedMemory κ) :
    ShieldedMemory κ × Option ShieldedResult :=
  match i.op with
  | .increment key options => let r := s.start i.time key options; (r.1, some r.2)
  | .resume n => (s.resume o i.time n, none)
  | .sweep => ({ s with cache := InMemoryShield.sweep i.time s.cache }, none)
  | .purgeExpired => ({ s with inner := s.inner.purgeExpired i.time }, none)

/-- A call that nothing comes between is one increment of the shielded store. -/
theorem increment_eq_start_resume (key : κ) (options : RateLimitIncrementOptions) (j : ℕ)
    (bank : StoreBank κ) (hup : bank.failing j = none) (cache : ShieldCache κ) :
    let s := (start bank.now key options ⟨bank.stores j, cache, []⟩)
    InMemoryShield.increment o (bankStore j) StoreBank.now key options ⟨bank, cache⟩ =
      (.ok s.2, ⟨bank.put j (s.1.resume o bank.now 0).inner, (s.1.resume o bank.now 0).cache⟩) := by
  simp only [InMemoryShield.increment, start]
  cases hcached : blockedAnswer bank.now key cache with
  | some result => simp [resume, StoreBank.put_stores_self]
  | none => simp [resume, bankStore, hup]

end ShieldedMemory

/-! ## Beside a bare store -/

/-- A shielded store, and a bare one that gets the same increments. -/
structure ShieldedBeside (κ : Type) [DecidableEq κ] where
  shielded : ShieldedMemory κ
  bare : MemoryStore κ

/-- The stores are purged by timers of their own. -/
inductive BesideOp (κ : Type) where
  | shielded (op : ShieldedOp κ)
  | purgeBare

namespace ShieldedBeside

/-- One step, and what the two stores answer to an increment. -/
def step (o : InMemoryShieldOptions) (i : Timed (BesideOp κ)) (s : ShieldedBeside κ) :
    ShieldedBeside κ × Option (ShieldedResult × RateLimitResult) :=
  match i.op with
  | .shielded op =>
    let r := s.shielded.step o ⟨i.time, op⟩
    match op with
    | .increment key options =>
      let b := s.bare.increment i.time key options
      (⟨r.1, b.1⟩, r.2.map fun answer => (answer, b.2))
    | _ => (⟨r.1, s.bare⟩, none)
  | .purgeBare => ({ s with bare := s.bare.purgeExpired i.time }, none)

end ShieldedBeside

end RatelimitFlex
