import Mathlib.Tactic

/-!
# A ring buffer

A buffer that is written round and round, the place of the next write, and how much of it has been
written.  `RingBuffer.Holds` says that it has the end of a history.
-/

set_option autoImplicit false

namespace RatelimitFlex.Library

variable {α : Type*}

structure RingBuffer (α : Type*) where
  buffer : List α
  write : ℕ
  count : ℕ

namespace RingBuffer

/-- Nothing written yet. -/
def new (cap : ℕ) (init : α) : RingBuffer α where
  buffer := List.replicate cap init
  write := 0
  count := 0

def push (cap : ℕ) (d : α) (r : RingBuffer α) : RingBuffer α where
  buffer := r.buffer.set r.write d
  write := if r.write + 1 = cap then 0 else r.write + 1
  count := if r.count < cap then r.count + 1 else r.count

/-- The buffer is kept, and nothing of it counts. -/
def clear (r : RingBuffer α) : RingBuffer α := { r with write := 0, count := 0 }

/-- What has been written, oldest first: from the start while the buffer is not full, from the next
write on when it is. -/
def drain (cap : ℕ) (r : RingBuffer α) : List (Option α) :=
  if r.count = 0 then []
  else if r.count < cap then (List.range r.count).map fun i => r.buffer[i]?
  else (List.range r.count).map fun i => r.buffer[(r.write + i) % cap]?

/-- The last elements of a history, as many as there is room for. -/
structure Holds (cap : ℕ) (r : RingBuffer α) (history : List α) : Prop where
  length : r.buffer.length = cap
  count : r.count = min history.length cap
  write : r.write = history.length % cap
  recent : ∀ j, history.length ≤ j + cap → j < history.length →
    r.buffer[j % cap]? = history[j]?

variable {cap : ℕ} {r : RingBuffer α} {history : List α}

/-- A new buffer holds nothing. -/
theorem holds_new (init : α) : (new cap init).Holds cap [] where
  length := List.length_replicate
  count := by simp [new]
  write := by simp [new]
  recent j _ hj := absurd hj (Nat.not_lt_zero j)

/-- Nor does one that was cleared. -/
theorem Holds.clear (h : r.Holds cap history) : r.clear.Holds cap [] where
  length := h.length
  count := by simp [RingBuffer.clear]
  write := by simp [RingBuffer.clear]
  recent j _ hj := absurd hj (Nat.not_lt_zero j)

/-- Two places less than a round apart are different. -/
theorem mod_ne_of_lt {j n : ℕ} (hjn : j < n) (hn : n < j + cap) : j % cap ≠ n % cap := by
  intro heq
  have hdvd : cap ∣ n - j := (Nat.modEq_iff_dvd' hjn.le).mp heq
  have hle := Nat.le_of_dvd (by omega) hdvd
  omega

/-- **A push adds to the history.** -/
theorem Holds.push (hcap : 0 < cap) (h : r.Holds cap history) (d : α) :
    (r.push cap d).Holds cap (history ++ [d]) := by
  have hwrite := Nat.mod_lt history.length hcap
  constructor
  · show (r.buffer.set r.write d).length = cap
    rw [List.length_set, h.length]
  · show (if r.count < cap then r.count + 1 else r.count) = _
    rw [List.length_append, List.length_singleton, h.count]
    split <;> omega
  · show (if r.write + 1 = cap then 0 else r.write + 1) = _
    rw [List.length_append, List.length_singleton, h.write, ← Nat.mod_add_mod]
    split
    · next hlast => rw [hlast, Nat.mod_self]
    · next hnext => exact (Nat.mod_eq_of_lt (by omega)).symm
  · intro j hj hlt
    rw [List.length_append, List.length_singleton] at hj hlt
    show (r.buffer.set r.write d)[j % cap]? = _
    rcases Nat.lt_or_eq_of_le (Nat.lt_succ_iff.mp hlt) with hold | rfl
    · have hne : r.write ≠ j % cap := by
        rw [h.write]
        exact (mod_ne_of_lt hold (by omega)).symm
      rw [List.getElem?_set_ne hne, List.getElem?_append_left hold]
      exact h.recent j (by omega) hold
    · rw [h.write, List.getElem?_set_self (by rw [h.length]; exact hwrite),
        List.getElem?_append_right le_rfl, Nat.sub_self]
      rfl

/-- **The drain gives the end of the history**, oldest first. -/
theorem Holds.drain (hcap : 0 < cap) (h : r.Holds cap history) :
    r.drain cap = (history.drop (history.length - cap)).map some := by
  have hcount := h.count
  unfold RingBuffer.drain
  by_cases hzero : r.count = 0
  · have hnil : history = [] := by
      rw [← List.length_eq_zero_iff]
      omega
    rw [if_pos hzero, hnil, List.drop_nil, List.map_nil]
  · rw [if_neg hzero]
    by_cases hfull : r.count < cap
    · -- not full yet: nothing has been written over
      have hlength : r.count = history.length := by omega
      have hkept : history.length - cap = 0 := by omega
      rw [if_pos hfull, hkept, List.drop_zero, hlength]
      apply List.ext_getElem (by simp)
      intro i hi hi'
      rw [List.length_map, List.length_range] at hi
      have hrecent := h.recent i (by omega) hi
      rw [Nat.mod_eq_of_lt (by omega)] at hrecent
      rw [List.getElem_map, List.getElem_range, hrecent, List.getElem_map,
        List.getElem?_eq_getElem hi]
    · have hlength : r.count = cap := by omega
      rw [if_neg hfull, hlength]
      apply List.ext_getElem (by simp; omega)
      intro i hi hi'
      rw [List.length_map, List.length_range] at hi
      have hplace : (r.write + i) % cap = (history.length - cap + i) % cap := by
        rw [h.write, Nat.mod_add_mod, ← Nat.add_mod_right (history.length - cap + i)]
        congr 1
        omega
      rw [List.getElem_map, List.getElem_range, hplace, h.recent _ (by omega) (by omega),
        List.getElem_map, List.getElem_drop, List.getElem?_eq_getElem]

end RingBuffer

end RatelimitFlex.Library
