import RatelimitFlex.Library.InsertionMap

/-!
# The key table of `MemoryStore`

`src/stores/memory-store.ts` keeps every key in one `Map`, whose insertion order is the
LRU order, and caps the number of keys with `maxKeys` (`0` disables the cap).  The table
is generic in the entry type: which entries count as expired is a parameter of
`ensureRoomForNewKey`.  `evictions` is the list of `onEvict` calls, oldest first; the
burst alert that only reports on them is left out.
-/

set_option autoImplicit false

namespace RatelimitFlex

open Library

/-- The second argument of `onEvict`. -/
inductive EvictReason where
  | lruCap
  | expired
  deriving DecidableEq

/-- SOURCE: src/stores/memory-store.ts:176-206 -/
structure KeyTable (κ ε : Type) where
  maxKeys : ℕ
  state : InsertionMap κ ε
  evictions : List (κ × EvictReason) := []

namespace KeyTable

variable {κ ε : Type} [DecidableEq κ]

/-- The table the constructor makes. -/
def new (maxKeys : ℕ) : KeyTable κ ε := { maxKeys, state := ∅ }

omit [DecidableEq κ] in
/-- The bound of a new table. -/
@[simp] theorem maxKeys_new (maxKeys : ℕ) : (new maxKeys : KeyTable κ ε).maxKeys = maxKeys := rfl

/-- It is empty. -/
@[simp] theorem lookup_new (maxKeys : ℕ) (k : κ) :
    (new maxKeys : KeyTable κ ε).state.lookup k = none := rfl

/-- SOURCE: src/stores/memory-store.ts:524-530 -/
def deleteKeyData (key : κ) (reason : EvictReason) (t : KeyTable κ ε) : KeyTable κ ε :=
  if key ∈ t.state then
    { t with state := t.state.erase key, evictions := t.evictions ++ [(key, reason)] }
  else t

/-- The loop of `ensureRoomForNewKey`: heads go, as `expired` or by the LRU rule, while
the map holds `maxKeys` entries or more.
SOURCE: src/stores/memory-store.ts:620-631 -/
def evictWhileFull (expired : ε → Bool) (maxKeys : ℕ) :
    List (Sigma fun _ : κ => ε) → List (Sigma fun _ : κ => ε) × List (κ × EvictReason)
  | [] => ([], [])
  | e :: rest =>
    if maxKeys ≤ rest.length + 1 then
      let r := evictWhileFull expired maxKeys rest
      (r.1, (e.1, if expired e.2 then .expired else .lruCap) :: r.2)
    else (e :: rest, [])

omit [DecidableEq κ] in
/-- What is evicted leaves the others in their order. -/
theorem evictWhileFull_sublist (expired : ε → Bool) (maxKeys : ℕ)
    (l : List (Sigma fun _ : κ => ε)) :
    (evictWhileFull expired maxKeys l).1.Sublist l := by
  induction l with
  | nil => exact List.Sublist.refl _
  | cons e rest ih =>
    simp only [evictWhileFull]
    split
    · exact ih.cons e
    · exact List.Sublist.refl _

/-- SOURCE: src/stores/memory-store.ts:615-633 -/
def ensureRoomForNewKey (expired : ε → Bool) (incomingKey : κ) (t : KeyTable κ ε) :
    KeyTable κ ε :=
  if t.maxKeys = 0 ∨ incomingKey ∈ t.state then t
  else
    let r := evictWhileFull expired t.maxKeys t.state.entries
    { t with
      state := ⟨r.1, t.state.nodupKeys.sublist (evictWhileFull_sublist expired t.maxKeys _)⟩
      evictions := t.evictions ++ r.2 }

/-- `this.state.set(key, e)`. -/
def put (key : κ) (e : ε) (t : KeyTable κ ε) : KeyTable κ ε :=
  { t with state := t.state.set key e }

/-- `this.state.delete(key)`. -/
def drop (key : κ) (t : KeyTable κ ε) : KeyTable κ ε :=
  { t with state := t.state.erase key }

/-- `if (this.maxKeys > 0 && this.state.has(key)) this.state.delete(key)`: the step that
makes the following `put` move the key to the end.
SOURCE: src/stores/memory-store.ts:882-884 -/
def dropForLru (key : κ) (t : KeyTable κ ε) : KeyTable κ ε :=
  if 0 < t.maxKeys then t.drop key else t

/-- SOURCE: src/stores/memory-store.ts:638-648 -/
def touchKey (key : κ) (t : KeyTable κ ε) : KeyTable κ ε :=
  if t.maxKeys = 0 then t else { t with state := t.state.touch key }

/-- One background sweep over all keys: `f` answers the entry to keep, or `none` for a
key that is dropped as `expired`.
SOURCE: src/stores/memory-store.ts:1013-1058 -/
def purge (f : ε → Option ε) (t : KeyTable κ ε) : KeyTable κ ε :=
  { t with
    state := t.state.filterMapValues f
    evictions := t.evictions ++
      (t.state.entries.filter fun e => (f e.2).isNone).map fun e => (e.1, .expired) }

/-- A write of `key` evicts nothing: the key is there, the cap is off or not reached. -/
def HasRoom (key : κ) (t : KeyTable κ ε) : Prop :=
  t.maxKeys = 0 ∨ key ∈ t.state ∨ t.state.size < t.maxKeys

instance (key : κ) (t : KeyTable κ ε) : Decidable (t.HasRoom key) :=
  inferInstanceAs (Decidable (_ ∨ _ ∨ _))

/-- `maxKeys` is not reached by a write of `key`, even if `key` is dropped first. -/
def Fits (key : κ) (t : KeyTable κ ε) : Prop :=
  t.maxKeys = 0 ∨ t.state.size < t.maxKeys ∨ (key ∈ t.state ∧ t.state.size ≤ t.maxKeys)

instance (key : κ) (t : KeyTable κ ε) : Decidable (t.Fits key) :=
  inferInstanceAs (Decidable (_ ∨ _ ∨ _))

omit [DecidableEq κ] in
/-- A key that fits finds room. -/
theorem Fits.hasRoom {key : κ} {t : KeyTable κ ε} (h : t.Fits key) : t.HasRoom key := by
  rcases h with h | h | ⟨h, -⟩
  · exact Or.inl h
  · exact Or.inr (Or.inr h)
  · exact Or.inr (Or.inl h)

/-! ## The cap on the keys stays what it is -/

omit [DecidableEq κ] in
/-- A purge keeps the bound. -/
@[simp] theorem maxKeys_purge (f : ε → Option ε) (t : KeyTable κ ε) :
    (t.purge f).maxKeys = t.maxKeys := rfl

/-- So does a write. -/
@[simp] theorem maxKeys_put (key : κ) (e : ε) (t : KeyTable κ ε) :
    (t.put key e).maxKeys = t.maxKeys := rfl

/-- So does a drop. -/
@[simp] theorem maxKeys_drop (key : κ) (t : KeyTable κ ε) : (t.drop key).maxKeys = t.maxKeys := rfl

/-- So does the drop before a write in recency order. -/
@[simp] theorem maxKeys_dropForLru (key : κ) (t : KeyTable κ ε) :
    (t.dropForLru key).maxKeys = t.maxKeys := by
  unfold dropForLru
  split <;> rfl

/-- So does touching a key. -/
@[simp] theorem maxKeys_touchKey (key : κ) (t : KeyTable κ ε) :
    (t.touchKey key).maxKeys = t.maxKeys := by
  unfold touchKey
  split <;> rfl

/-- So does deleting one. -/
@[simp] theorem maxKeys_deleteKeyData (key : κ) (reason : EvictReason) (t : KeyTable κ ε) :
    (t.deleteKeyData key reason).maxKeys = t.maxKeys := by
  unfold deleteKeyData
  split <;> rfl

/-- So does making room. -/
@[simp] theorem maxKeys_ensureRoomForNewKey (expired : ε → Bool) (key : κ) (t : KeyTable κ ε) :
    (t.ensureRoomForNewKey expired key).maxKeys = t.maxKeys := by
  unfold ensureRoomForNewKey
  split <;> rfl

/-! ## What each step does to the lookups -/

/-- A write changes the entry of its key alone. -/
@[simp] theorem lookup_put (key k : κ) (e : ε) (t : KeyTable κ ε) :
    (t.put key e).state.lookup k = if k = key then some e else t.state.lookup k :=
  InsertionMap.lookup_set _ _ _ _

/-- A drop takes the entry of its key alone. -/
@[simp] theorem lookup_drop (key k : κ) (t : KeyTable κ ε) :
    (t.drop key).state.lookup k = if k = key then none else t.state.lookup k :=
  InsertionMap.lookup_erase' _ _ _

/-- Touching a key changes no entry. -/
@[simp] theorem lookup_touchKey (key k : κ) (t : KeyTable κ ε) :
    (t.touchKey key).state.lookup k = t.state.lookup k := by
  unfold touchKey
  split
  · rfl
  · exact InsertionMap.lookup_touch _ _ _

/-- A purge changes each entry by itself. -/
@[simp] theorem lookup_purge (f : ε → Option ε) (k : κ) (t : KeyTable κ ε) :
    (t.purge f).state.lookup k = (t.state.lookup k).bind f :=
  InsertionMap.lookup_filterMapValues _ _ _

/-- Deleting a key takes its entry alone. -/
@[simp] theorem lookup_deleteKeyData (key k : κ) (reason : EvictReason) (t : KeyTable κ ε) :
    (t.deleteKeyData key reason).state.lookup k =
      if k = key then none else t.state.lookup k := by
  unfold deleteKeyData
  split
  · exact InsertionMap.lookup_erase' _ _ _
  · next h =>
    split
    · next hk => rw [hk]; exact AList.lookup_eq_none.mpr h
    · rfl

/-- `put` after `dropForLru` writes the key and nothing else, wherever it ends up in the
order. -/
@[simp] theorem lookup_put_dropForLru (key k : κ) (e : ε) (t : KeyTable κ ε) :
    ((t.dropForLru key).put key e).state.lookup k =
      if k = key then some e else t.state.lookup k := by
  rw [lookup_put]
  split
  · rfl
  · next h =>
    unfold dropForLru
    split
    · rw [lookup_drop, if_neg h]
    · rfl

omit [DecidableEq κ] in
/-- A table with room evicts nothing. -/
theorem evictWhileFull_of_lt (expired : ε → Bool) {maxKeys : ℕ}
    {l : List (Sigma fun _ : κ => ε)} (h : l.length < maxKeys) :
    evictWhileFull expired maxKeys l = (l, []) := by
  cases l with
  | nil => rfl
  | cons e rest =>
    simp only [List.length_cons] at h
    simp only [evictWhileFull]
    rw [if_neg (by omega)]

/-- With room, making room does nothing. -/
theorem ensureRoomForNewKey_of_hasRoom (expired : ε → Bool) {key : κ} {t : KeyTable κ ε}
    (h : t.HasRoom key) : t.ensureRoomForNewKey expired key = t := by
  unfold ensureRoomForNewKey
  split
  · rfl
  · next hn =>
    rw [not_or] at hn
    have hlt : t.state.entries.length < t.maxKeys := by
      rcases h with h | h | h
      · exact absurd h hn.1
      · exact absurd h hn.2
      · exact h
    simp [evictWhileFull_of_lt expired hlt]

/-- A key that is dropped for its expiry has room to come back. -/
theorem Fits.hasRoom_deleteKeyData {key : κ} {t : KeyTable κ ε} (h : t.Fits key)
    (reason : EvictReason) : (t.deleteKeyData key reason).HasRoom key := by
  unfold deleteKeyData
  split
  · next hmem =>
    rcases h with h | h | ⟨-, h⟩
    · exact Or.inl h
    · refine Or.inr (Or.inr (lt_of_le_of_lt ?_ h))
      exact (List.kerase_sublist key t.state.entries).length_le
    · refine Or.inr (Or.inr (lt_of_lt_of_le ?_ h))
      exact InsertionMap.size_erase_lt hmem
  · exact h.hasRoom

/-- Making room keeps an entry or evicts it. -/
theorem lookup_ensureRoomForNewKey (expired : ε → Bool) (key k : κ) (t : KeyTable κ ε) :
    (t.ensureRoomForNewKey expired key).state.lookup k = t.state.lookup k ∨
      (t.ensureRoomForNewKey expired key).state.lookup k = none := by
  unfold ensureRoomForNewKey
  split
  · exact Or.inl rfl
  · cases hl : AList.lookup k (⟨(evictWhileFull expired t.maxKeys t.state.entries).1,
        t.state.nodupKeys.sublist (evictWhileFull_sublist expired t.maxKeys _)⟩ :
          InsertionMap κ ε) with
    | none => exact Or.inr rfl
    | some e =>
      refine Or.inl (Eq.symm ?_)
      have hmem := AList.mem_lookup_iff.mp hl
      exact AList.mem_lookup_iff.mpr ((evictWhileFull_sublist expired t.maxKeys _).subset hmem)

end KeyTable

end RatelimitFlex
