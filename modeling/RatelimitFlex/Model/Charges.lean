import RatelimitFlex.Library.HitLog
import RatelimitFlex.Program.MemoryStore

/-!
# The charges of one key over a run

What the admission bounds are about: the increments a run makes on one key, in order,
each with its cost and with whether it was allowed.
-/

set_option autoImplicit false

namespace RatelimitFlex

open Library

variable {κ : Type} [DecidableEq κ]

/-- The charge on `k` an operation and its reply stand for, `true` when it was allowed. -/
def chargeOf (k : κ) : Timed (StoreOp κ) × StoreReply → Option (Hit × Bool)
  | (⟨now, .increment key options⟩, .result r) =>
    if key = k then some (⟨now, options.sanitizedCost⟩, !r.isBlocked) else none
  | _ => none

/-- The charges on `k` of the operations `is` that were answered `rs`. -/
def charges (k : κ) (is : List (Timed (StoreOp κ))) (rs : List StoreReply) :
    List (Hit × Bool) :=
  (is.zip rs).filterMap (chargeOf k)

/-- No operations charge nothing. -/
@[simp] theorem charges_nil (k : κ) : charges k [] [] = [] := rfl

/-- The charges of one operation and those after it. -/
theorem charges_cons (k : κ) (i : Timed (StoreOp κ)) (is : List (Timed (StoreOp κ)))
    (r : StoreReply) (rs : List StoreReply) :
    charges k (i :: is) (r :: rs) = (chargeOf k (i, r)).toList ++ charges k is rs := by
  simp only [charges, List.zip_cons_cons, List.filterMap_cons]
  cases chargeOf k (i, r) <;> rfl

/-- A charge happens when its operation does. -/
theorem time_of_chargeOf {k : κ} {i : Timed (StoreOp κ)} {r : StoreReply} {p : Hit × Bool}
    (h : chargeOf k (i, r) = some p) : p.1.time = i.time := by
  obtain ⟨now, op⟩ := i
  unfold chargeOf at h
  split at h
  · next heq =>
    obtain ⟨⟨rfl, rfl⟩, rfl⟩ := by simpa using heq
    split at h
    · rw [← Option.some.inj h]
    · simp at h
  · simp at h

/-- The charges of a run in time order are in time order. -/
theorem orderedFrom_charges (k : κ) {t : ℤ} {is : List (Timed (StoreOp κ))}
    (h : OrderedFrom Timed.time t is) (rs : List StoreReply) :
    OrderedFrom (fun p : Hit × Bool => p.1.time) t (charges k is rs) := by
  induction is generalizing t rs with
  | nil => trivial
  | cons i is ih =>
    cases rs with
    | nil => trivial
    | cons r rs =>
      rw [charges_cons]
      cases hc : chargeOf k (i, r) with
      | none => exact (ih h.2 rs).mono h.1
      | some p =>
        have hp := time_of_chargeOf hc
        refine ⟨?_, ?_⟩
        · exact h.1.trans_eq hp.symm
        · exact (ih h.2 rs).mono hp.le

end RatelimitFlex
