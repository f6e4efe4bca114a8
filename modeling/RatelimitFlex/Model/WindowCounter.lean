import RatelimitFlex.Program.RowOps

/-!
# One counter with an end for each key

What a fixed window is for, without the rows that hold it: a count and the moment it ends.
A counter that is over counts for nothing (`live`); the first charge after it begins a new one.
Nothing but the operations asked for happens to the counters (`counterStep`).
-/

set_option autoImplicit false

namespace RatelimitFlex

open Library

/-- What has been charged, and when that is over. -/
structure WindowCounter where
  count : ℤ
  endsAt : ℤ
  deriving DecidableEq

namespace WindowCounter

/-- The counter, while it is not over. -/
def live (now : ℤ) (c : Option WindowCounter) : Option WindowCounter :=
  c.filter fun c => decide (now < c.endsAt)

/-- The counter after a charge. -/
def charge (windowMs now cost : ℤ) (c : Option WindowCounter) : WindowCounter :=
  match live now c with
  | none => ⟨cost, now + windowMs⟩
  | some c => ⟨c.count + cost, c.endsAt⟩

/-- The counter after some of it was given back. -/
def refund (cost : ℤ) (c : WindowCounter) : WindowCounter := ⟨max 0 (c.count - cost), c.endsAt⟩

/-- What the counter says. -/
def answer (cap : ℕ) (c : WindowCounter) : RateLimitResult := .ofUsage c.count cap c.endsAt

section Live

variable {t now : ℤ} {c c' : Option WindowCounter}

/-- No counter is running. -/
@[simp] theorem live_none : live now none = none := rfl

/-- A counter runs until its end. -/
theorem live_some (now : ℤ) (c : WindowCounter) :
    live now (some c) = if now < c.endsAt then some c else none := by
  simp [live, Option.filter]

/-- Counters that look alike now look alike later. -/
theorem live_mono (h : live t c = live t c') (ht : t ≤ now) : live now c = live now c' := by
  have hlater : ∀ c : Option WindowCounter, live now c = live now (live t c) := by
    intro c
    cases c with
    | none => rfl
    | some c =>
      rw [live_some t]
      split
      · rfl
      · next hover =>
        rw [live_some, if_neg (by omega)]
        rfl
  rw [hlater c, h, ← hlater c']

/-- A charge looks at the running counter alone. -/
theorem charge_congr (h : live now c = live now c') (windowMs cost : ℤ) :
    charge windowMs now cost c = charge windowMs now cost c' := by
  rw [charge, charge, h]

/-- So does a refund. -/
theorem live_refund (h : live now c = live now c') (cost : ℤ) :
    live now (c.map (refund cost)) = live now (c'.map (refund cost)) := by
  have hmap : ∀ c : Option WindowCounter,
      live now (c.map (refund cost)) = (live now c).map (refund cost) := by
    intro c
    cases c with
    | none => rfl
    | some c =>
      have hend : (refund cost c).endsAt = c.endsAt := rfl
      rw [Option.map_some, live_some, live_some, hend]
      by_cases hc : now < c.endsAt
      · rw [if_pos hc, if_pos hc]
        rfl
      · rw [if_neg hc, if_neg hc]
        rfl
  rw [hmap, hmap, h]

/-- What a reader of a row says. -/
theorem map_answer_live (cap : ℕ) (now : ℤ) (c : WindowCounter) :
    (live now (some c)).map (answer cap) =
      if c.endsAt ≤ now then none else some (answer cap c) := by
  rw [live_some]
  by_cases hended : c.endsAt ≤ now
  · rw [if_neg (not_lt.mpr hended), if_pos hended]
    rfl
  · rw [if_pos (not_le.mp hended), if_neg hended]
    rfl

end Live

end WindowCounter

/-- One operation on the counters of all keys. -/
def counterStep {κ : Type} [DecidableEq κ] (o : WindowOptions) (i : Timed (RowOp κ))
    (t : RowTable κ WindowCounter) : RowTable κ WindowCounter × StoreReply :=
  match i.op with
  | .increment key options =>
    let c := WindowCounter.charge o.windowMs i.time options.sanitizedCost (t key)
    (Function.update t key (some c), .result (c.answer (o.cap options.maxRequests)))
  | .decrement key options =>
    (Function.update t key ((t key).map (WindowCounter.refund options.sanitizedCost)), .done)
  | .get key =>
    (t, .snapshot ((WindowCounter.live i.time (t key)).map (WindowCounter.answer o.maxRequests)))
  | .set key totalHits expiresAt =>
    let c : WindowCounter := ⟨max 0 totalHits, expiresAt.getD (i.time + o.windowMs)⟩
    (Function.update t key (some c), .result (c.answer o.maxRequests))
  | .reset key => (Function.update t key none, .done)
  | .housekeeping _ => (t, .done)

end RatelimitFlex
