import Mathlib.Data.List.AList
import Mathlib.Tactic

/-!
# Maps that remember insertion order

`InsertionMap κ υ` is Mathlib's `AList` read as a dictionary whose iteration order is
observable: `set` keeps the place of a key that is already present and puts a new key at
the end, `touch` moves a present key to the end, `erase` removes it.  `lookup` sees none
of this order, which the lookup lemmas say one operation at a time.
-/

set_option autoImplicit false

namespace RatelimitFlex.Library

/-- A finite dictionary with an iteration order. -/
abbrev InsertionMap (κ υ : Type*) := AList (fun _ : κ => υ)

namespace InsertionMap

variable {κ υ : Type*} [DecidableEq κ]

/-- Put a new key at the end. -/
def append (m : InsertionMap κ υ) (k : κ) (v : υ) (h : k ∉ m) : InsertionMap κ υ where
  entries := m.entries ++ [⟨k, v⟩]
  nodupKeys := by
    rw [List.NodupKeys, List.keys_append, List.nodup_append]
    refine ⟨m.nodupKeys, by simp, ?_⟩
    intro a ha b hb hab
    simp only [List.keys_cons, List.keys_nil, List.mem_singleton] at hb
    exact h (AList.mem_keys.mpr (hb ▸ hab ▸ ha))

/-- Write a key: in place when it is present, at the end when it is new. -/
def set (m : InsertionMap κ υ) (k : κ) (v : υ) : InsertionMap κ υ :=
  if h : k ∈ m then AList.replace k v m else append m k v h

/-- Move a present key to the end. -/
def touch (m : InsertionMap κ υ) (k : κ) : InsertionMap κ υ :=
  match m.lookup k with
  | none => m
  | some v => set (m.erase k) k v

/-- An entry with its value rewritten, or none. -/
def rewriteEntry (f : υ → Option υ) (e : Sigma fun _ : κ => υ) : Option (Sigma fun _ : κ => υ) :=
  (f e.2).map (Sigma.mk e.1)

omit [DecidableEq κ] in
/-- Rewriting values keeps the keys in their order. -/
theorem keys_filterMap_sublist (f : υ → Option υ) (l : List (Sigma fun _ : κ => υ)) :
    (l.filterMap (rewriteEntry f)).keys.Sublist l.keys := by
  induction l with
  | nil => exact List.Sublist.refl _
  | cons e l ih =>
    cases hf : f e.2 with
    | none => simpa [rewriteEntry, hf] using ih.cons e.1
    | some v => simpa [rewriteEntry, hf] using ih.cons_cons e.1

/-- Rewrite every value in place, dropping the keys where `f` answers `none`. -/
def filterMapValues (f : υ → Option υ) (m : InsertionMap κ υ) : InsertionMap κ υ where
  entries := m.entries.filterMap (rewriteEntry f)
  nodupKeys := (keys_filterMap_sublist f m.entries).nodup m.nodupKeys

/-- The number of keys. -/
def size (m : InsertionMap κ υ) : ℕ := m.entries.length

/-- A value that was replaced is found. -/
theorem dlookup_kreplace_self {l : List (Sigma fun _ : κ => υ)} {k : κ} (v : υ)
    (h : k ∈ l.keys) : (l.kreplace k v).dlookup k = some v := by
  induction l with
  | nil => simp at h
  | cons e l ih =>
    obtain ⟨k', v'⟩ := e
    by_cases hk : k = k'
    · subst hk
      simp [List.kreplace]
    · have hmem : k ∈ l.keys := by simpa [hk] using h
      rw [List.kreplace, List.lookmap_cons_none _ _ (by simp [hk]), List.dlookup_cons_ne _ _ hk]
      exact ih hmem

/-- The others are not touched. -/
theorem dlookup_kreplace_ne {l : List (Sigma fun _ : κ => υ)} {k k' : κ} (v : υ)
    (h : k' ≠ k) : (l.kreplace k v).dlookup k' = l.dlookup k' := by
  induction l with
  | nil => rfl
  | cons e l ih =>
    obtain ⟨k₀, v₀⟩ := e
    by_cases hk : k = k₀
    · subst hk
      have hne : ∀ w : υ, (⟨k, w⟩ :: l : List (Sigma fun _ : κ => υ)).dlookup k' = l.dlookup k' :=
        fun w => List.dlookup_cons_ne l ⟨k, w⟩ h
      simp [List.kreplace, hne]
    · rw [List.kreplace, List.lookmap_cons_none _ _ (by simp [hk])]
      by_cases hk' : k' = k₀
      · subst hk'
        simp
      · rw [List.dlookup_cons_ne _ _ hk', List.dlookup_cons_ne _ _ hk']
        exact ih

/-- A value that was set is found. -/
@[simp] theorem lookup_set_self (m : InsertionMap κ υ) (k : κ) (v : υ) :
    (m.set k v).lookup k = some v := by
  unfold set
  split
  · next h => exact dlookup_kreplace_self v (AList.mem_keys.mp h)
  · next h =>
    have hnone : m.entries.dlookup k = none := List.dlookup_eq_none.mpr (fun hk => h hk)
    simp [append, AList.lookup, List.dlookup_append, hnone]

/-- The others are not touched. -/
theorem lookup_set_ne (m : InsertionMap κ υ) {k k' : κ} (v : υ) (h : k' ≠ k) :
    (m.set k v).lookup k' = m.lookup k' := by
  unfold set
  split
  · exact dlookup_kreplace_ne v h
  · have hne : ([⟨k, v⟩] : List (Sigma fun _ : κ => υ)).dlookup k' = none := by
      rw [List.dlookup_cons_ne (β := fun _ : κ => υ) [] ⟨k, v⟩ h, List.dlookup_nil]
    simp [append, AList.lookup, List.dlookup_append, hne]

/-- Reading back a write: the written key answers the new value, the others are unchanged. -/
theorem lookup_set (m : InsertionMap κ υ) (k k' : κ) (v : υ) :
    (m.set k v).lookup k' = if k' = k then some v else m.lookup k' := by
  split
  · next h => subst h; simp
  · next h => exact lookup_set_ne m v h

/-- A key that was erased is gone, and no other. -/
theorem lookup_erase' (m : InsertionMap κ υ) (k k' : κ) :
    (m.erase k).lookup k' = if k' = k then none else m.lookup k' := by
  split
  · next h => subst h; exact AList.lookup_erase k' m
  · next h => exact AList.lookup_erase_ne h

/-- Setting a key that is there keeps the size. -/
theorem size_set_of_mem {m : InsertionMap κ υ} {k : κ} (v : υ) (h : k ∈ m) :
    size (m.set k v) = m.size := by
  have hkeys : (m.entries.kreplace k v).keys = m.entries.keys := List.keys_kreplace k v m.entries
  unfold set
  rw [dif_pos h]
  show (m.entries.kreplace k v).length = m.entries.length
  simpa [List.keys] using congrArg List.length hkeys

/-- A new key adds one. -/
theorem size_set_of_notMem {m : InsertionMap κ υ} {k : κ} (v : υ) (h : k ∉ m) :
    size (m.set k v) = m.size + 1 := by
  unfold set
  rw [dif_neg h]
  exact List.length_append

/-- A new key is the last entry. -/
theorem entries_set_of_notMem {m : InsertionMap κ υ} {k : κ} (v : υ) (h : k ∉ m) :
    (m.set k v).entries = m.entries ++ [⟨k, v⟩] := by
  unfold set
  rw [dif_neg h]
  rfl

/-- A key that is touched is the last entry. -/
theorem entries_touch {m : InsertionMap κ υ} {k : κ} {v : υ} (h : m.lookup k = some v) :
    (m.touch k).entries = m.entries.kerase k ++ [⟨k, v⟩] := by
  unfold touch
  rw [h]
  exact entries_set_of_notMem v fun hmem => (AList.mem_erase.mp hmem).1 rfl

/-- Erasing the first key leaves the other entries. -/
theorem entries_erase_head {m : InsertionMap κ υ} {e : Sigma fun _ : κ => υ}
    {rest : List (Sigma fun _ : κ => υ)} (h : m.entries = e :: rest) :
    (m.erase e.1).entries = rest := by
  show m.entries.kerase e.1 = rest
  rw [h]
  exact List.kerase_cons_eq rfl

/-- Erasing a key that is there makes the map smaller. -/
theorem size_erase_lt {m : InsertionMap κ υ} {k : κ} (h : k ∈ m) :
    size (m.erase k) < m.size := by
  obtain ⟨v, l₁, l₂, -, hl, herase⟩ := List.exists_of_kerase (AList.mem_keys.mp h)
  show (m.entries.kerase k).length < m.entries.length
  rw [herase, hl]
  simp

/-- Touching a key changes no value. -/
@[simp] theorem lookup_touch (m : InsertionMap κ υ) (k k' : κ) :
    (m.touch k).lookup k' = m.lookup k' := by
  unfold touch
  split
  · rfl
  · next v hv =>
    rw [lookup_set, lookup_erase']
    split
    · next h => rw [h, hv]
    · rfl

/-- The values of a list that was rewritten. -/
theorem dlookup_filterMap (f : υ → Option υ) {l : List (Sigma fun _ : κ => υ)}
    (hl : l.NodupKeys) (k : κ) :
    (l.filterMap (rewriteEntry f)).dlookup k = (l.dlookup k).bind f := by
  induction l with
  | nil => rfl
  | cons e l ih =>
    obtain ⟨k', v⟩ := e
    have hnd := List.nodupKeys_cons.mp hl
    have ih := ih hnd.2
    by_cases hk : k' = k
    · subst hk
      -- the tail holds no second entry for the key, so a dropped head stays dropped
      have hnone : l.dlookup k' = none := List.dlookup_eq_none.mpr hnd.1
      cases hf : f v with
      | none => simp [rewriteEntry, hf, ih, hnone]
      | some w => simp [rewriteEntry, hf]
    · have hhead : ∀ (w : υ) (l : List (Sigma fun _ : κ => υ)),
          (⟨k', w⟩ :: l).dlookup k = l.dlookup k :=
        fun w l => List.dlookup_cons_ne l ⟨k', w⟩ (Ne.symm hk)
      cases hf : f v with
      | none => simp [rewriteEntry, hf, hhead, ih]
      | some w => simp [rewriteEntry, hf, hhead, ih]

/-- The values of a map that was rewritten. -/
@[simp] theorem lookup_filterMapValues (f : υ → Option υ) (m : InsertionMap κ υ) (k : κ) :
    (filterMapValues f m).lookup k = (m.lookup k).bind f :=
  dlookup_filterMap f m.nodupKeys k

end InsertionMap

end RatelimitFlex.Library
