import RatelimitFlex.Program.MemoryStore
import RatelimitFlex.Program.RateLimitEngine

/-!
# A bank of `MemoryStore`s

Numbered stores behind the engine's store interface, with the clock they read.  A
`MemoryStore` does not reject by itself; `failing` says which of them stand behind
something that does, and with what.  `firstSettled` is the store whose answer arrives first
when several are asked at once, `none` when none arrives in time.
-/

set_option autoImplicit false

namespace RatelimitFlex

variable {κ : Type} [DecidableEq κ]

structure StoreBank (κ : Type) [DecidableEq κ] where
  stores : ℕ → MemoryStore κ
  now : ℤ
  failing : ℕ → Option StoreError := fun _ => none
  firstSettled : Option ℕ := some 0

namespace StoreBank

/-- The bank with another store as number `j`. -/
def put (j : ℕ) (m : MemoryStore κ) (s : StoreBank κ) : StoreBank κ :=
  { s with stores := Function.update s.stores j m }

/-- Putting a store keeps the time. -/
@[simp] theorem now_put (j : ℕ) (m : MemoryStore κ) (s : StoreBank κ) :
    (s.put j m).now = s.now := rfl

/-- It keeps the failures. -/
@[simp] theorem failing_put (j : ℕ) (m : MemoryStore κ) (s : StoreBank κ) :
    (s.put j m).failing = s.failing := rfl

/-- It keeps the order of settling. -/
@[simp] theorem firstSettled_put (j : ℕ) (m : MemoryStore κ) (s : StoreBank κ) :
    (s.put j m).firstSettled = s.firstSettled := rfl

/-- The store that was put. -/
@[simp] theorem stores_put_self (j : ℕ) (m : MemoryStore κ) (s : StoreBank κ) :
    (s.put j m).stores j = m := Function.update_self _ _ _

/-- The others stay. -/
theorem stores_put_of_ne {j k : ℕ} (h : k ≠ j) (m : MemoryStore κ) (s : StoreBank κ) :
    (s.put j m).stores k = s.stores k := Function.update_of_ne h _ _

/-- Putting a store where it is changes nothing. -/
theorem put_stores_self (j : ℕ) (s : StoreBank κ) : s.put j (s.stores j) = s := by
  simp only [put, Function.update_eq_self]

/-- The bank with the stores from number `n` on rewritten, one for each entry of a list. -/
def mapStores {α : Type} (f : ℕ → α → MemoryStore κ → MemoryStore κ) :
    ℕ → List α → StoreBank κ → StoreBank κ
  | _, [], s => s
  | n, a :: rest, s => mapStores f (n + 1) rest (s.put n (f n a (s.stores n)))

section MapStores

variable {α : Type} (f : ℕ → α → MemoryStore κ → MemoryStore κ) (n : ℕ) (l : List α)
  (s : StoreBank κ)

/-- Changing the stores keeps the time. -/
@[simp] theorem now_mapStores : (mapStores f n l s).now = s.now := by
  induction l generalizing n s with
  | nil => rfl
  | cons a rest ih => exact ih _ _

/-- It keeps the failures. -/
@[simp] theorem failing_mapStores : (mapStores f n l s).failing = s.failing := by
  induction l generalizing n s with
  | nil => rfl
  | cons a rest ih => exact ih _ _

/-- It keeps the order of settling. -/
@[simp] theorem firstSettled_mapStores : (mapStores f n l s).firstSettled = s.firstSettled := by
  induction l generalizing n s with
  | nil => rfl
  | cons a rest ih => exact ih _ _

/-- The stores before the first stay. -/
theorem stores_mapStores_of_lt {j : ℕ} (h : j < n) : (mapStores f n l s).stores j = s.stores j := by
  induction l generalizing n s with
  | nil => rfl
  | cons a rest ih =>
    rw [mapStores, ih (n + 1) _ (by omega), stores_put_of_ne (by omega)]

/-- Changes that agree from the first store on agree. -/
theorem mapStores_congr {g : ℕ → α → MemoryStore κ → MemoryStore κ}
    (h : ∀ j, n ≤ j → ∀ a m, f j a m = g j a m) : mapStores f n l s = mapStores g n l s := by
  induction l generalizing n s with
  | nil => rfl
  | cons a rest ih =>
    rw [mapStores, mapStores, h n le_rfl, ih (n + 1) _ fun j hj => h j (by omega)]

/-- Every store is rewritten by its own entry. -/
theorem stores_mapStores (j : ℕ) :
    (mapStores f n l s).stores (n + j) =
      match l[j]? with
      | some a => f (n + j) a (s.stores (n + j))
      | none => s.stores (n + j) := by
  induction l generalizing n j s with
  | nil => rfl
  | cons a rest ih =>
    rw [mapStores]
    cases j with
    | zero => exact (stores_mapStores_of_lt f _ _ _ (by omega)).trans (stores_put_self _ _ _)
    | succ j =>
      rw [show n + (j + 1) = n + 1 + j by omega, ih, stores_put_of_ne (by omega)]
      rfl

end MapStores

end StoreBank

/-- SOURCE: src/stores/memory-store.ts:304-349 -/
def bankStore (j : ℕ) : RateLimitStore (StoreBank κ) κ where
  increment key options s :=
    match s.failing j with
    | some e => (.error e, s)
    | none =>
      let r := (s.stores j).increment s.now key options
      (.ok r.2, s.put j r.1)
  decrement key options s := s.put j ((s.stores j).decrement key options)

end RatelimitFlex
