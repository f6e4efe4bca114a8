import RatelimitFlex.Model.SlidingLog
import RatelimitFlex.Program.PgStore

/-!
# The hits a sliding window holds

The abstract model of the sliding window with decrements: every key's hits with their
costs, those forgotten that had left the window at the last increment.  An increment is
answered from the costs inside `(now - windowMs, now]`, itself included; a decrement takes
back that many units, the oldest or the newest.  Sweeps do not exist at this level.
-/

set_option autoImplicit false

namespace RatelimitFlex

open Library

/-- Every key's hits, oldest first. -/
abbrev HeldHits (κ : Type) := κ → List Hit

namespace HeldHits

/-- The hits left when `cost` units are taken back. -/
def takeBack (cost : ℕ) (removeNewest : Bool) (hits : List Hit) : List Hit :=
  if removeNewest then (Hit.dropUnits cost hits.reverse).reverse else Hit.dropUnits cost hits

/-- The hits after an increment: those still in the window, and the new one. -/
def afterIncrement (o : WindowOptions) (now : ℤ) (cost : ℕ) (hits : List Hit) : List Hit :=
  Hit.window (now - o.windowMs) now hits ++ [⟨now, cost⟩]

variable {κ : Type} [DecidableEq κ]

/-- One step of the model. -/
def step (o : WindowOptions) (i : Timed (PgOp κ)) (H : HeldHits κ) : HeldHits κ × StoreReply :=
  match i.op with
  | .increment key options =>
    let hits := afterIncrement o i.time options.sanitizedCost (H key)
    (Function.update H key hits,
      .result (SlidingLog.answer o (o.cap options.maxRequests) i.time hits))
  | .decrement key options =>
    (Function.update H key (takeBack options.sanitizedCost options.removeNewest (H key)), .done)
  | .reset key => (Function.update H key [], .done)
  | .sweep => (H, .done)

/-- Taking back units keeps the times that remain in order. -/
theorem map_time_takeBack_sublist (cost : ℕ) (removeNewest : Bool) (hits : List Hit) :
    ((takeBack cost removeNewest hits).map Hit.time).Sublist (hits.map Hit.time) := by
  cases removeNewest with
  | false => exact Hit.map_time_dropUnits_sublist cost hits
  | true =>
    have h := (Hit.map_time_dropUnits_sublist cost hits.reverse).reverse
    simpa [takeBack, List.map_reverse] using h

/-- What is left of a hit costs something. -/
theorem one_le_cost_takeBack (cost : ℕ) (removeNewest : Bool) {hits : List Hit}
    (hpos : ∀ h ∈ hits, 1 ≤ h.cost) : ∀ h ∈ takeBack cost removeNewest hits, 1 ≤ h.cost := by
  cases removeNewest with
  | false => exact Hit.one_le_cost_dropUnits hpos
  | true =>
    intro h hh
    refine Hit.one_le_cost_dropUnits (n := cost) (l := hits.reverse) ?_ h (by simpa [takeBack] using hh)
    intro x hx
    exact hpos x (List.mem_reverse.mp hx)

/-- In stamps: all but the first or the last `cost`. -/
theorem expand_takeBack (cost : ℕ) (removeNewest : Bool) (hits : List Hit) :
    Hit.expand (takeBack cost removeNewest hits) =
      if removeNewest then (Hit.expand hits).take ((Hit.expand hits).length - cost)
      else (Hit.expand hits).drop cost := by
  cases removeNewest with
  | false => exact Hit.expand_dropUnits cost hits
  | true =>
    simp only [takeBack, if_true, Hit.expand_reverse, Hit.expand_dropUnits, List.drop_reverse,
      List.reverse_reverse]

end HeldHits

end RatelimitFlex
