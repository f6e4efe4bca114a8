import RatelimitFlex.Program.StoreBank

/-!
# Window slots over `MemoryStore`s

`groupedWindowStores` with one store of a bank for each slot, and what a grouped consume
does to the stores when a slot ends it.
-/

set_option autoImplicit false

namespace RatelimitFlex

variable {κ : Type} [DecidableEq κ]

/-- The window and the cap of a slot. -/
structure SlotSpec where
  windowMs : ℤ
  maxRequests : ℤ

/-- The slots from number `n` on. -/
def slotsFrom (κ : Type) [DecidableEq κ] : ℕ → List SlotSpec → List (WindowSlot (StoreBank κ) κ)
  | _, [] => []
  | n, spec :: rest => ⟨spec.windowMs, spec.maxRequests, bankStore n⟩ :: slotsFrom κ (n + 1) rest

/-- One slot over its own store for each entry. -/
def memorySlots (κ : Type) [DecidableEq κ] (specs : List SlotSpec) :
    List (WindowSlot (StoreBank κ) κ) := slotsFrom κ 0 specs

/-- The options of the increment that a slot gets.
SOURCE: src/strategies/rate-limit-engine.ts:607-610 -/
def SlotSpec.incrementOptions (spec : SlotSpec) (incOpts : RateLimitIncrementOptions) :
    RateLimitIncrementOptions :=
  { maxRequests := some (JsNumber.ofInt spec.maxRequests), cost := incOpts.cost }

/-! ## What a grouped consume does to the stores -/

section Loop

variable (key : κ) (incOpts : RateLimitIncrementOptions)

/-- The number of the slot that ends the loop, by blocking or by throwing. -/
def stoppedAt {σ : Type} : List (WindowSlot σ κ) → σ → Option ℕ
  | [], _ => none
  | g :: rest, s =>
    match g.store.increment key
        { maxRequests := some (JsNumber.ofInt g.maxRequests), cost := incOpts.cost } s with
    | (.error _, _) => some 0
    | (.ok r, s) => if r.isBlocked then some 0 else (stoppedAt rest s).map (· + 1)

/-- The store of a slot after an increment that was undone. -/
def undone (spec : SlotSpec) (now : ℤ) (m : MemoryStore κ) : MemoryStore κ :=
  (m.increment now key (spec.incrementOptions incOpts)).1.decrement key
    (matchingDecrementOptions incOpts)

/-- A rollback decrements each slot of the list once. -/
theorem stores_rollbackSlots (dec : RateLimitDecrementOptions) (n : ℕ) (specs : List SlotSpec)
    (s : StoreBank κ) (j : ℕ) :
    (rollbackSlots key dec (slotsFrom κ n specs) s).stores j =
      if n ≤ j ∧ j < n + specs.length then (s.stores j).decrement key dec else s.stores j := by
  induction specs generalizing n s with
  | nil =>
    rw [if_neg (by simp only [List.length_nil]; omega)]
    rfl
  | cons spec rest ih =>
    have hstep : rollbackSlots key dec (slotsFrom κ n (spec :: rest)) s =
        rollbackSlots key dec (slotsFrom κ (n + 1) rest)
          (s.put n ((s.stores n).decrement key dec)) := rfl
    rw [hstep, ih, List.length_cons]
    by_cases hj : j = n
    · subst hj
      rw [if_neg (by omega), if_pos (by omega), StoreBank.stores_put_self]
    · rw [StoreBank.stores_put_of_ne hj]
      by_cases hin : n + 1 ≤ j ∧ j < n + 1 + rest.length
      · rw [if_pos hin, if_pos (by omega)]
      · rw [if_neg hin, if_neg (by omega)]

/-- The first slots are those of the first specs. -/
theorem slotsFrom_take (n m : ℕ) (specs : List SlotSpec) :
    (slotsFrom κ n specs).take m = slotsFrom κ n (specs.take m) := by
  induction specs generalizing n m with
  | nil => simp [slotsFrom]
  | cons spec rest ih =>
    cases m with
    | zero => rfl
    | succ m => simp only [slotsFrom, List.take_succ_cons, ih]

/-- The slots before the one that ends the loop let the request pass. -/
theorem allowed_of_stoppedAt (n : ℕ) (specs : List SlotSpec) (s : StoreBank κ) {i : ℕ}
    (hstop : stoppedAt key incOpts (slotsFrom κ n specs) s = some i) {j : ℕ} (hj : j < i) :
    ∃ spec, specs[j]? = some spec ∧
      ((s.stores (n + j)).increment s.now key (spec.incrementOptions incOpts)).2.isBlocked =
        false := by
  induction specs generalizing n s i j with
  | nil => simp [slotsFrom, stoppedAt] at hstop
  | cons spec rest ih =>
    cases hfail : s.failing n with
    | some e =>
      simp only [slotsFrom, stoppedAt, bankStore, hfail, Option.some.injEq] at hstop
      omega
    | none =>
      simp only [slotsFrom, stoppedAt, bankStore, hfail] at hstop
      split at hstop
      · obtain rfl := Option.some.inj hstop
        omega
      · next hb =>
        obtain ⟨i', hstop', rfl⟩ := Option.map_eq_some_iff.mp hstop
        cases j with
        | zero => exact ⟨spec, rfl, Bool.not_eq_true _ ▸ hb⟩
        | succ j =>
          obtain ⟨spec', hspec, hb'⟩ := ih (n + 1) _ hstop' (j := j) (by omega)
          refine ⟨spec', hspec, ?_⟩
          rw [StoreBank.stores_put_of_ne (by omega), StoreBank.now_put] at hb'
          rw [show n + (j + 1) = n + 1 + j by omega]
          exact hb'

/-- A loop that a slot ends takes back the increments of the slots before it. -/
theorem stores_groupedWindowsLoop (clock : StoreBank κ → ℤ) (pre rest : List SlotSpec)
    (done : List RateLimitResult) (s : StoreBank κ) {i : ℕ} (hdone : done.length = pre.length)
    (hstop : stoppedAt key incOpts (slotsFrom κ pre.length rest) s = some i) :
    let s' := (groupedWindowsLoop clock key (slotsFrom κ 0 (pre ++ rest)) false incOpts
      (slotsFrom κ pre.length rest) done s).2
    (∀ j < pre.length, s'.stores j = (s.stores j).decrement key (matchingDecrementOptions incOpts)) ∧
      ∀ j spec, j < i → rest[j]? = some spec →
        s'.stores (pre.length + j) =
          undone key incOpts spec s.now (s.stores (pre.length + j)) := by
  induction rest generalizing pre done s i with
  | nil => simp [slotsFrom, stoppedAt] at hstop
  | cons spec rest ih =>
    have htake : (slotsFrom κ 0 (pre ++ spec :: rest)).take done.length = slotsFrom κ 0 pre := by
      rw [slotsFrom_take, hdone, List.take_left]
    cases hfail : s.failing pre.length with
    | some e =>
      have hinc : ∀ o, (bankStore pre.length).increment key o s = (.error e, s) := by
        intro o
        simp only [bankStore, hfail]
      simp only [slotsFrom, stoppedAt, hinc, Option.some.injEq] at hstop
      subst hstop
      simp only [slotsFrom, groupedWindowsLoop, hinc, htake, stores_rollbackSlots, Nat.zero_le,
        true_and, Nat.zero_add, Nat.not_lt_zero, false_implies, implies_true, and_true]
      intro j hj
      rw [if_pos hj]
    | none =>
      have hinc : (bankStore pre.length).increment key
          { maxRequests := some (JsNumber.ofInt spec.maxRequests), cost := incOpts.cost } s =
          (.ok ((s.stores pre.length).increment s.now key (spec.incrementOptions incOpts)).2,
            s.put pre.length
              ((s.stores pre.length).increment s.now key (spec.incrementOptions incOpts)).1) := by
        simp only [bankStore, hfail]
        rfl
      set r := (s.stores pre.length).increment s.now key (spec.incrementOptions incOpts)
      simp only [slotsFrom, stoppedAt, hinc] at hstop
      by_cases hb : r.2.isBlocked = true
      · rw [if_pos hb] at hstop
        obtain rfl := Option.some.inj hstop
        simp only [slotsFrom, groupedWindowsLoop, hinc, hb, if_true, Bool.false_and,
          Bool.false_eq_true, if_false, htake, stores_rollbackSlots, Nat.zero_le, true_and,
          Nat.zero_add, Nat.not_lt_zero, false_implies, implies_true, and_true]
        intro j hj
        rw [if_pos hj, StoreBank.stores_put_of_ne (by omega)]
      · rw [if_neg hb] at hstop
        obtain ⟨i', hstop', rfl⟩ := Option.map_eq_some_iff.mp hstop
        obtain ⟨hbefore, hafter⟩ := ih (pre ++ [spec]) (done ++ [r.2]) (s.put pre.length r.1)
          (i := i') (by simp [hdone]) (by simpa using hstop')
        simp only [List.append_assoc, List.singleton_append, List.length_append,
          List.length_singleton] at hbefore hafter
        simp only [slotsFrom, groupedWindowsLoop, hinc, hb, Bool.false_eq_true, if_false]
        refine ⟨fun j hj => ?_, fun j spec' hj hspec => ?_⟩
        · rw [hbefore j (by omega), StoreBank.stores_put_of_ne (by omega)]
        · cases j with
          | zero =>
            obtain rfl : spec = spec' := by simpa using hspec
            have := hbefore pre.length (by omega)
            rw [StoreBank.stores_put_self] at this
            exact this
          | succ j =>
            have := hafter j spec' (by omega) (by simpa using hspec)
            rw [show pre.length + (j + 1) = pre.length + 1 + j by omega, this,
              StoreBank.stores_put_of_ne (by omega)]
            rfl

end Loop

end RatelimitFlex
