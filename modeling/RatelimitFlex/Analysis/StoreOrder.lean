import RatelimitFlex.Library.RecencyOrder
import RatelimitFlex.Analysis.StoreCells

/-!
# The order of a store's keys

With `maxKeys` on, the map's insertion order is the recency order of `RecencyOrder`: an
increment uses its key, and evicts what the use drives out.  A `reset` may leave a store with
more than `maxKeys` keys, a sliding window never has more.
-/

set_option autoImplicit false

namespace RatelimitFlex

open Library RecencyOrder

variable {κ : Type} [DecidableEq κ]

/-! ## The keys of a table -/

namespace KeyTable

variable {ε : Type} {key : κ} {t : KeyTable κ ε}

/-- A write of a key that is there keeps the order. -/
theorem keys_put_of_mem (e : ε) (h : key ∈ t.state) :
    (t.put key e).state.keys = t.state.keys := by
  unfold put InsertionMap.set
  simp only [dif_pos h]
  exact List.keys_kreplace key e t.state.entries

/-- A new key comes at the end. -/
theorem keys_put_new (e : ε) (h : key ∉ t.state) :
    (t.put key e).state.keys = t.state.keys ++ [key] := by
  unfold put InsertionMap.set
  simp only [dif_neg h]
  exact List.map_append

/-- A drop takes the key out. -/
theorem keys_drop (key : κ) (t : KeyTable κ ε) :
    (t.drop key).state.keys = t.state.keys.erase key :=
  AList.keys_erase key t.state

/-- Dropping a missing key does nothing. -/
theorem drop_of_notMem (h : key ∉ t.state) : t.drop key = t := by
  have hstate : t.state.erase key = t.state :=
    AList.ext (List.kerase_of_notMem_keys h)
  unfold drop
  rw [hstate]

omit [DecidableEq κ] in
/-- What is left when heads go. -/
theorem evictWhileFull_eq_drop (expired : ε → Bool) (maxKeys : ℕ)
    (l : List (Sigma fun _ : κ => ε)) :
    (evictWhileFull expired maxKeys l).1 = l.drop (l.length + 1 - maxKeys) := by
  induction l with
  | nil => exact List.drop_nil.symm
  | cons e rest ih =>
    rw [evictWhileFull]
    by_cases h : maxKeys ≤ rest.length + 1
    · have hd : (e :: rest).length + 1 - maxKeys = (rest.length + 1 - maxKeys) + 1 := by
        rw [List.length_cons]
        omega
      rw [if_pos h, hd, List.drop_succ_cons]
      exact ih
    · have hd : (e :: rest).length + 1 - maxKeys = 0 := by
        rw [List.length_cons]
        omega
      rw [if_neg h, hd, List.drop_zero]

/-- Making room drops the oldest keys. -/
theorem keys_ensureRoomForNewKey (expired : ε → Bool) (hm : 1 ≤ t.maxKeys) (h : key ∉ t.state) :
    (t.ensureRoomForNewKey expired key).state.keys =
      t.state.keys.drop (t.state.keys.length + 1 - t.maxKeys) := by
  unfold ensureRoomForNewKey
  rw [if_neg (not_or.mpr ⟨by omega, h⟩)]
  show ((evictWhileFull expired t.maxKeys t.state.entries).1).keys = _
  rw [evictWhileFull_eq_drop]
  show ((t.state.entries.drop _).map Sigma.fst) = _
  rw [List.map_drop, AList.keys, List.keys, List.length_map]

/-- A dropped key is gone. -/
theorem notMem_drop (key : κ) (t : KeyTable κ ε) : key ∉ (t.drop key).state := by
  intro hmem
  have hkeys := AList.mem_keys.mp hmem
  rw [keys_drop] at hkeys
  exact t.state.nodupKeys.not_mem_erase hkeys

/-- A key that is there is written at the end. -/
theorem keys_write_of_mem (e : ε) (m : ℕ) (h : key ∈ t.state) :
    ((t.drop key).put key e).state.keys = touch m key t.state.keys := by
  rw [keys_put_new e (notMem_drop key t), keys_drop, touch_of_mem (AList.mem_keys.mp h)]

/-- A new key is written at the end, when there is room. -/
theorem keys_write_new (expired : ε → Bool) (e : ε) (hm : 1 ≤ t.maxKeys) (h : key ∉ t.state) :
    ((t.ensureRoomForNewKey expired key).put key e).state.keys =
      touch t.maxKeys key t.state.keys := by
  have hkeys := keys_ensureRoomForNewKey expired hm h
  have hnot : key ∉ (t.ensureRoomForNewKey expired key).state := by
    intro hmem
    have hin := AList.mem_keys.mp hmem
    rw [hkeys] at hin
    exact h (AList.mem_keys.mpr (List.mem_of_mem_drop hin))
  rw [keys_put_new e hnot, hkeys, touch_of_notMem (AList.mem_keys.not.mp h)]

/-- The same with the drop that the window and bucket stores put between. -/
theorem keys_write_dropForLru (expired : ε → Bool) (e : ε) (hm : 1 ≤ t.maxKeys)
    (h : key ∉ t.state) :
    (((t.ensureRoomForNewKey expired key).dropForLru key).put key e).state.keys =
      touch t.maxKeys key t.state.keys := by
  have hnot : key ∉ (t.ensureRoomForNewKey expired key).state := by
    intro hmem
    have hin := AList.mem_keys.mp hmem
    rw [keys_ensureRoomForNewKey expired hm h] at hin
    exact h (AList.mem_keys.mpr (List.mem_of_mem_drop hin))
  have hdrop : (t.ensureRoomForNewKey expired key).dropForLru key =
      t.ensureRoomForNewKey expired key := by
    unfold dropForLru
    split
    · exact drop_of_notMem hnot
    · rfl
  rw [hdrop, keys_write_new expired e hm h]

/-- A write in recency order is a use of the key. -/
theorem keys_write_dropForLru_of_mem (e : ε) (hm : 1 ≤ t.maxKeys) (h : key ∈ t.state) :
    ((t.dropForLru key).put key e).state.keys = touch t.maxKeys key t.state.keys := by
  unfold dropForLru
  rw [if_pos (show 0 < t.maxKeys by omega)]
  exact keys_write_of_mem e t.maxKeys h

/-- A `set` makes room and writes its key at the end. -/
theorem keys_set (expired : ε → Bool) (e : ε) (hm : 1 ≤ t.maxKeys) :
    (((t.ensureRoomForNewKey expired key).dropForLru key).put key e).state.keys =
      touch t.maxKeys key t.state.keys := by
  by_cases hmem : key ∈ t.state
  · rw [ensureRoomForNewKey_of_hasRoom _ (Or.inr (Or.inl hmem))]
    exact keys_write_dropForLru_of_mem e hm hmem
  · exact keys_write_dropForLru expired e hm hmem

/-- What happens to a table whose key keeps its place. -/
inductive InPlace (key : κ) (t : KeyTable κ ε) : KeyTable κ ε → Prop
  | kept : InPlace key t t
  | dropped : InPlace key t (t.drop key)
  | written (h : key ∈ t.state) (e : ε) : InPlace key t (t.put key e)

/-- A table changed in place keeps the order, and drops the key or not. -/
theorem keys_of_inPlace {t' : KeyTable κ ε} (h : InPlace key t t') :
    t'.state.keys =
      if (t'.state.lookup key).isSome then t.state.keys else t.state.keys.erase key := by
  cases h with
  | kept =>
    split
    · rfl
    · next hnone =>
      have hnot : key ∉ t.state := fun hmem => hnone (AList.lookup_isSome.mpr hmem)
      exact (List.erase_of_not_mem (AList.mem_keys.not.mp hnot)).symm
  | dropped =>
    rw [lookup_drop, if_pos rfl]
    exact keys_drop key t
  | written hmem e =>
    rw [lookup_put, if_pos rfl]
    exact keys_put_of_mem e hmem

end KeyTable

/-! ## The keys of a store -/

namespace MemoryStore

variable {s : MemoryStore κ} {key k : κ}

/-- The cell of a key that is not there. -/
def blank : MemoryStore κ → Cell
  | .sliding o _ => .sliding o none
  | .fixed o _ => .fixed o none
  | .bucket o _ => .bucket o none

/-- Without their entries the cells of a store are all the same. -/
theorem cleared_cell (s : MemoryStore κ) (k : κ) : (s.cell k).cleared = s.blank := by
  cases s <;> rfl

/-- A missing key has such a cell. -/
theorem cell_of_notMem (h : k ∉ s.keys) : s.cell k = s.blank := by
  cases s with
  | sliding o t => exact congrArg (Cell.sliding o) (AList.lookup_eq_none.mpr h)
  | fixed o t => exact congrArg (Cell.fixed o) (AList.lookup_eq_none.mpr h)
  | bucket o t => exact congrArg (Cell.bucket o) (AList.lookup_eq_none.mpr h)

/-- A sliding window holds no more than `maxKeys` keys. -/
def SlidingFits (s : MemoryStore κ) : Prop :=
  ∀ o, s.blank = .sliding o none → s.maxKeys = 0 ∨ s.keys.length ≤ s.maxKeys

/-- A wall expiry is cleared by dropping the key, when it has passed. -/
theorem clearSlidingWallExpiry_cases (now : ℤ) (key : κ) (t : KeyTable κ SlidingKeyState) :
    clearSlidingWallExpiryIfExpired now key t = t ∨
      key ∈ t.state ∧ clearSlidingWallExpiryIfExpired now key t =
        { t.drop key with evictions := t.evictions ++ [(key, .expired)] } := by
  unfold clearSlidingWallExpiryIfExpired
  split
  · next stamps w hlookup =>
    have hmem : key ∈ t.state := AList.lookup_isSome.mp (by rw [hlookup]; rfl)
    split
    · refine Or.inr ⟨hmem, ?_⟩
      unfold KeyTable.deleteKeyData
      rw [if_pos hmem]
      rfl
    · exact Or.inl rfl
  · exact Or.inl rfl

/-- A sliding increment is a use of the key. -/
theorem keys_incrementSliding (o : WindowOptions) (now : ℤ) (key : κ)
    (maxOverride : Option JsNumber) (cost : ℕ) {t : KeyTable κ SlidingKeyState}
    (hm : 1 ≤ t.maxKeys) (hfits : t.state.keys.length ≤ t.maxKeys) :
    (incrementSliding o now key maxOverride cost t).1.state.keys =
      touch t.maxKeys key t.state.keys := by
  simp only [incrementSliding]
  rcases clearSlidingWallExpiry_cases now key t with heq | ⟨hmem, heq⟩
  · rw [heq]
    cases hlookup : t.state.lookup key with
    | none => exact KeyTable.keys_write_new _ _ hm (AList.lookup_eq_none.mp hlookup)
    | some e =>
      exact KeyTable.keys_write_of_mem _ _ (AList.lookup_isSome.mp (by rw [hlookup]; rfl))
  · -- the key is dropped for its wall expiry, which makes the room that it takes
    rw [heq]
    have hlookup : (t.drop key).state.lookup key = none := by
      rw [KeyTable.lookup_drop, if_pos rfl]
    have hlen := List.length_erase_of_mem (AList.mem_keys.mp hmem)
    have hpos := List.length_pos_of_mem (AList.mem_keys.mp hmem)
    simp only [hlookup]
    refine (KeyTable.keys_write_new (t := { t.drop key with
      evictions := t.evictions ++ [(key, .expired)] }) _ _ hm
        (AList.lookup_eq_none.mp hlookup)).trans ?_
    show touch t.maxKeys key (t.drop key).state.keys = _
    rw [KeyTable.keys_drop, touch_of_mem (AList.mem_keys.mp hmem),
      touch_of_notMem (AList.keys_nodup t.state).not_mem_erase]
    have hd : (t.state.keys.erase key).length + 1 - t.maxKeys = 0 := by omega
    rw [hd, List.drop_zero]

/-- So is a fixed one. -/
theorem keys_incrementFixed (o : WindowOptions) (now : ℤ) (key : κ)
    (maxOverride : Option JsNumber) (cost : ℕ) {t : KeyTable κ FixedEntry} (hm : 1 ≤ t.maxKeys) :
    (incrementFixed o now key maxOverride cost t).1.state.keys =
      touch t.maxKeys key t.state.keys := by
  unfold incrementFixed
  cases hlookup : t.state.lookup key with
  | none => exact KeyTable.keys_write_dropForLru _ _ hm (AList.lookup_eq_none.mp hlookup)
  | some e =>
    have hmem : key ∈ t.state := AList.lookup_isSome.mp (by rw [hlookup]; rfl)
    by_cases hexp : e.resetTime ≤ now
    · simp only [if_pos hexp]
      exact KeyTable.keys_write_dropForLru_of_mem _ hm hmem
    · simp only [if_neg hexp]
      exact KeyTable.keys_write_dropForLru_of_mem _ hm hmem

/-- So is one of a bucket. -/
theorem keys_incrementTokenBucket (o : TokenBucketOptions) (now : ℤ) (key : κ) (cost : ℕ)
    {t : KeyTable κ BucketEntry} (hm : 1 ≤ t.maxKeys) :
    (incrementTokenBucket o now key cost t).1.state.keys = touch t.maxKeys key t.state.keys := by
  unfold incrementTokenBucket
  cases hlookup : t.state.lookup key with
  | none =>
    have hnot := AList.lookup_eq_none.mp hlookup
    simp only
    split
    · exact KeyTable.keys_write_dropForLru _ _ hm hnot
    · exact KeyTable.keys_write_dropForLru _ _ hm hnot
  | some b =>
    have hmem : key ∈ t.state := AList.lookup_isSome.mp (by rw [hlookup]; rfl)
    simp only
    split
    · exact KeyTable.keys_write_dropForLru_of_mem _ hm hmem
    · exact KeyTable.keys_write_dropForLru_of_mem _ hm hmem

/-- **An increment uses its key.** -/
theorem keys_increment (hm : 1 ≤ s.maxKeys) (hfits : s.SlidingFits) (now : ℤ) (key : κ)
    (options : RateLimitIncrementOptions) :
    (s.increment now key options).1.keys = touch s.maxKeys key s.keys := by
  cases s with
  | sliding o t =>
    have hm : 1 ≤ t.maxKeys := hm
    have hlen := (hfits o rfl).resolve_left (show t.maxKeys ≠ 0 by omega)
    exact keys_incrementSliding o now key _ _ hm hlen
  | fixed o t => exact keys_incrementFixed o now key _ _ hm
  | bucket o t => exact keys_incrementTokenBucket o now key _ hm

/-- A sliding increment keeps the entry of another key or evicts it. -/
theorem lookup_incrementSliding_kept (o : WindowOptions) (now : ℤ) (key k : κ)
    (t : KeyTable κ SlidingKeyState) (maxOverride : Option JsNumber) (cost : ℕ) (hk : k ≠ key) :
    (incrementSliding o now key maxOverride cost t).1.state.lookup k = t.state.lookup k ∨
      (incrementSliding o now key maxOverride cost t).1.state.lookup k = none := by
  have hclear := lookup_clearSlidingWallExpiryIfExpired now key k t
  rw [if_neg hk] at hclear
  rw [← hclear]
  simp only [incrementSliding]
  cases (clearSlidingWallExpiryIfExpired now key t).state.lookup key with
  | none =>
    simp only [KeyTable.lookup_put, if_neg hk]
    exact KeyTable.lookup_ensureRoomForNewKey _ _ _ _
  | some e =>
    simp only [KeyTable.lookup_put, KeyTable.lookup_drop, if_neg hk]
    exact Or.inl trivial

/-- An increment keeps the cell of another key, or evicts the key. -/
theorem cell_increment_kept (now : ℤ) (options : RateLimitIncrementOptions) (hk : k ≠ key) :
    (s.increment now key options).1.cell k = s.cell k ∨
      (s.increment now key options).1.cell k = s.blank := by
  cases s with
  | sliding o t =>
    exact (lookup_incrementSliding_kept o now key k t options.maxRequests options.sanitizedCost
      hk).imp (congrArg (Cell.sliding o)) (congrArg (Cell.sliding o))
  | fixed o t =>
    exact (lookup_incrementFixed_of_ne o now key k t options.maxRequests options.sanitizedCost
      hk).imp (congrArg (Cell.fixed o)) (congrArg (Cell.fixed o))
  | bucket o t =>
    exact (lookup_incrementTokenBucket_of_ne o now key k t options.sanitizedCost hk).imp
      (congrArg (Cell.bucket o)) (congrArg (Cell.bucket o))

/-- An increment keeps what an empty cell is. -/
theorem blank_increment (now : ℤ) (key : κ) (options : RateLimitIncrementOptions) :
    (s.increment now key options).1.blank = s.blank := by
  cases s <;> rfl

/-- An empty cell has no entry. -/
theorem isPresent_blank (s : MemoryStore κ) : s.blank.isPresent = false := by
  cases s <;> rfl

/-- The cell of another key, by what the use of this one leaves. -/
theorem cell_increment_other (hm : 1 ≤ s.maxKeys) (hfits : s.SlidingFits) (now : ℤ)
    (options : RateLimitIncrementOptions) (hk : k ≠ key) :
    (s.increment now key options).1.cell k =
      if k ∈ touch s.maxKeys key s.keys then s.cell k else s.blank := by
  have hkeys := keys_increment hm hfits now key options
  split
  · next hmem =>
    refine (cell_increment_kept now options hk).resolve_right fun hblank => ?_
    rw [← hkeys, mem_keys, hblank, isPresent_blank] at hmem
    exact Bool.noConfusion hmem
  · next hmem =>
    rw [← hkeys] at hmem
    rw [cell_of_notMem hmem, blank_increment]

/-- A decrement changes no place; it may delete its key. -/
theorem keys_decrement (key : κ) (options : RateLimitDecrementOptions) (s : MemoryStore κ) :
    (s.decrement key options).keys =
      if ((s.cell key).decrement options).isPresent then s.keys else s.keys.erase key := by
  rw [← cell_decrement_own]
  cases s with
  | sliding o t =>
    simp only [decrement]
    split
    · refine KeyTable.keys_of_inPlace ?_
      unfold decrementSlidingFromEnd
      split
      · exact .kept
      · next cur hlookup =>
        split
        · exact .kept
        · simp only
          split
          · exact .dropped
          · exact .written (AList.lookup_isSome.mp (by rw [hlookup]; rfl)) _
    · refine KeyTable.keys_of_inPlace ?_
      unfold decrementSliding
      split
      · exact .kept
      · next cur hlookup =>
        split
        · exact .kept
        · simp only
          split
          · exact .dropped
          · exact .written (AList.lookup_isSome.mp (by rw [hlookup]; rfl)) _
  | fixed o t =>
    refine KeyTable.keys_of_inPlace ?_
    unfold decrementFixed
    split
    · exact .kept
    · next e hlookup =>
      split
      · exact .kept
      · split
        · exact .dropped
        · exact .written (AList.lookup_isSome.mp (by rw [hlookup]; rfl)) _
  | bucket o t =>
    refine KeyTable.keys_of_inPlace ?_
    unfold decrementTokenBucket
    split
    · exact .kept
    · next b hlookup =>
      exact .written (AList.lookup_isSome.mp (by rw [hlookup]; rfl)) _

/-! ## All operations, evictions included -/

variable {i : Timed (StoreOp κ)}

/-- A `set` writes its key's cell, and keeps another one or evicts the key. -/
theorem cell_set_kept (now : ℤ) (key : κ) (totalHits : ℤ) (expiresAt : Option ℤ) (k : κ) :
    (s.set now key totalHits expiresAt).1.cell k = ((s.cell k).set now totalHits expiresAt).1 ∨
      (s.set now key totalHits expiresAt).1.cell k = s.cell k ∨
      (s.set now key totalHits expiresAt).1.cell k = s.blank := by
  cases s with
  | sliding o t =>
    simp only [set, setSliding, cell, Cell.set, blank, KeyTable.lookup_put_dropForLru]
    by_cases hk : k = key
    · exact Or.inl (by rw [if_pos hk])
    · rw [if_neg hk]
      exact Or.inr ((KeyTable.lookup_ensureRoomForNewKey _ key k t).imp (congrArg _) (congrArg _))
  | fixed o t =>
    simp only [set, setFixed, cell, Cell.set, blank, KeyTable.lookup_put_dropForLru]
    by_cases hk : k = key
    · exact Or.inl (by rw [if_pos hk])
    · rw [if_neg hk]
      exact Or.inr ((KeyTable.lookup_ensureRoomForNewKey _ key k t).imp (congrArg _) (congrArg _))
  | bucket o t =>
    simp only [set, setTokenBucket, cell, Cell.set, blank, KeyTable.lookup_put_dropForLru]
    by_cases hk : k = key
    · exact Or.inl (by rw [if_pos hk])
    · rw [if_neg hk]
      exact Or.inr ((KeyTable.lookup_ensureRoomForNewKey _ key k t).imp (congrArg _) (congrArg _))

/-- With or without room a step is a step of a cell, keeps it, or evicts its key. -/
theorem cell_step_kept (i : Timed (StoreOp κ)) (k : κ) :
    (s.step i).1.cell k = ((s.cell k).step i).1 ∨ (s.step i).1.cell k = s.cell k ∨
      (s.step i).1.cell k = s.blank := by
  obtain ⟨now, op⟩ := i
  have hite : ∀ {key : κ} {x : Cell}, x = (if k = key then x else s.cell k) ∨
      s.cell k = (if k = key then x else s.cell k) := by
    intro key x
    split
    · exact Or.inl rfl
    · exact Or.inr rfl
  cases op with
  | increment key options =>
    by_cases hk : k = key
    · subst hk
      exact Or.inl (cell_increment_own s now k options)
    · exact Or.inr (cell_increment_kept now options hk)
  | decrement key options =>
    simp only [step, Cell.step, cell_decrement, ite_cell fun x => x.decrement options]
    exact (hite.imp Eq.symm Eq.symm).imp_right Or.inl
  | get key =>
    simp only [step, Cell.step, cell_get, ite_cell fun x => x.clearWall now]
    exact (hite.imp Eq.symm Eq.symm).imp_right Or.inl
  | set key totalHits expiresAt => exact cell_set_kept now key totalHits expiresAt k
  | reset key =>
    simp only [step, Cell.step, cell_reset, ite_cell fun x => x.reset now]
    exact (hite.imp Eq.symm Eq.symm).imp_right Or.inl
  | delete key =>
    simp only [step, Cell.step, cell_delete, ite_cell Cell.cleared]
    exact (hite.imp Eq.symm Eq.symm).imp_right Or.inl
  | purgeExpired => exact Or.inl (cell_purgeExpired now k)

/-- Every operation keeps what an empty cell is. -/
theorem blank_step (i : Timed (StoreOp κ)) (s : MemoryStore κ) :
    (s.step i).1.blank = s.blank := by
  obtain ⟨now, op⟩ := i
  cases s with
  | sliding o t =>
    cases op with
    | decrement key options =>
      simp only [step, decrement]
      split <;> rfl
    | _ => rfl
  | fixed o t => cases op <;> rfl
  | bucket o t => cases op <;> rfl

/-- Without a key more there is none too many. -/
theorem SlidingFits.of_keys {s' : MemoryStore κ} (h : s.SlidingFits)
    (hblank : s'.blank = s.blank) (hmax : s'.maxKeys = s.maxKeys)
    (hkeys : ∀ o, s.blank = .sliding o none → ∀ k ∈ s'.keys, k ∈ s.keys) : s'.SlidingFits := by
  intro o ho
  rw [hblank] at ho
  rw [hmax]
  exact (h o ho).imp_right (s'.nodup_keys.subperm (hkeys o ho)).length_le.trans

/-- A key that is used takes no more than the room there is. -/
theorem SlidingFits.of_touch {s' : MemoryStore κ} (h : s.SlidingFits) (key : κ)
    (hblank : s'.blank = s.blank) (hmax : s'.maxKeys = s.maxKeys)
    (hkeys : 1 ≤ s.maxKeys → ∀ o, s.blank = .sliding o none →
      s'.keys = touch s.maxKeys key s.keys) :
    s'.SlidingFits := by
  intro o ho
  rw [hblank] at ho
  rw [hmax]
  rcases Nat.eq_zero_or_pos s.maxKeys with hzero | hm
  · exact Or.inl hzero
  · rw [hkeys hm o ho]
    exact Or.inr (length_touch_le hm ((h o ho).resolve_left (by omega)))

/-- **A `set` uses its key.** -/
theorem keys_set (hm : 1 ≤ s.maxKeys) (now : ℤ) (key : κ) (totalHits : ℤ)
    (expiresAt : Option ℤ) :
    (s.set now key totalHits expiresAt).1.keys = touch s.maxKeys key s.keys := by
  cases s with
  | sliding o t => exact KeyTable.keys_set (slidingExpired o now) _ hm
  | fixed o t => exact KeyTable.keys_set (fixedExpired now) _ hm
  | bucket o t => exact KeyTable.keys_set (isBucketIdleFullPurgeable o now) _ hm

omit [DecidableEq κ] in
/-- Of the operations on a sliding window only increments and `set`s make an entry. -/
theorem isPresent_of_isPresent_step {x : Cell} {o : WindowOptions}
    (hx : x.cleared = .sliding o none) (hop : i.op.writes = none)
    (h : (x.step i).1.isPresent = true) : x.isPresent = true := by
  obtain ⟨now, op⟩ := i
  cases x with
  | fixed o' e => cases hx
  | bucket o' e => cases hx
  | sliding o' e =>
    cases e with
    | some e => rfl
    | none =>
      cases op with
      | increment key options => cases hop
      | set key totalHits expiresAt => cases hop
      | decrement key options =>
        simp only [Cell.step, Cell.decrement] at h
        split at h <;> exact h
      | get key => exact h
      | reset key => exact h
      | delete key => exact h
      | purgeExpired => exact h

/-- No operation leaves a sliding window with too many keys. -/
theorem SlidingFits.step (h : s.SlidingFits) (i : Timed (StoreOp κ)) :
    (s.step i).1.SlidingFits := by
  have hblank := blank_step i s
  have hmax := maxKeys_step i s
  have hkeys : i.op.writes = none → (s.step i).1.SlidingFits := by
    intro hop
    refine h.of_keys hblank hmax fun o ho k hk => ?_
    rw [mem_keys] at hk ⊢
    rcases cell_step_kept i k with heq | heq | heq
    · rw [heq] at hk
      exact isPresent_of_isPresent_step ((cleared_cell s k).trans ho) hop hk
    · rw [heq] at hk
      exact hk
    · rw [heq, isPresent_blank] at hk
      exact Bool.noConfusion hk
  obtain ⟨now, op⟩ := i
  cases op with
  | increment key options =>
    exact h.of_touch key hblank hmax fun hm _ _ => keys_increment hm h now key options
  | set key totalHits expiresAt =>
    exact h.of_touch key hblank hmax fun hm _ _ => keys_set hm now key totalHits expiresAt
  | decrement key options => exact hkeys rfl
  | get key => exact hkeys rfl
  | reset key => exact hkeys rfl
  | delete key => exact hkeys rfl
  | purgeExpired => exact hkeys rfl

end MemoryStore

/-- What operations in time order make of a new store by `now`, evictions included. -/
def ReachableByOperations (now : ℤ) (s : MemoryStore κ) : Prop :=
  ∃ (s₀ : MemoryStore κ) (t₀ : ℤ) (is : List (Timed (StoreOp κ))), s₀.IsNew ∧
    OrderedFrom Timed.time t₀ is ∧ lastClock Timed.time t₀ is ≤ now ∧
    final MemoryStore.step is s₀ = s

/-- A new store is within its bound. -/
theorem slidingFits_of_isNew {s : MemoryStore κ} (h : s.IsNew) : s.SlidingFits := by
  intro o ho
  cases s with
  | sliding o' t =>
    obtain ⟨m, rfl⟩ := h
    exact Or.inr (Nat.zero_le m)
  | fixed o' t => cases ho
  | bucket o' t => cases ho

/-- An operation leaves legal cells, evictions included. -/
theorem legal_step {t : ℤ} {s : MemoryStore κ} (i : Timed (StoreOp κ)) (ht : t ≤ i.time)
    (h : ∀ k, (s.cell k).Legal t) (k : κ) : ((s.step i).1.cell k).Legal i.time := by
  rcases MemoryStore.cell_step_kept i k with heq | heq | heq
  · rw [heq]
    exact (h k).step ht
  · rw [heq]
    exact (h k).mono ht
  · rw [heq, ← MemoryStore.cleared_cell s k]
    cases s.cell k <;> simp [Cell.cleared, Cell.Legal]

/-- Its cells are legal, and a sliding window holds no more than `maxKeys` keys. -/
theorem ReachableByOperations.legal {now : ℤ} {s : MemoryStore κ}
    (h : ReachableByOperations now s) : (∀ k, (s.cell k).Legal now) ∧ s.SlidingFits := by
  obtain ⟨s₀, t₀, is, hnew, hord, hnow, rfl⟩ := h
  have hstep : ∀ (t : ℤ) (s : MemoryStore κ) (i : Timed (StoreOp κ)),
      (∀ k, (s.cell k).Legal t) ∧ s.SlidingFits → t ≤ i.time → True →
      (∀ k, ((MemoryStore.step i s).1.cell k).Legal i.time) ∧
        (MemoryStore.step i s).1.SlidingFits := by
    intro t s i hs ht _
    exact ⟨legal_step i ht hs.1, hs.2.step i⟩
  have hend := final_inv
    (I := fun t (s : MemoryStore κ) => (∀ k, (s.cell k).Legal t) ∧ s.SlidingFits) hstep
    ⟨legal_of_isNew hnew t₀, slidingFits_of_isNew hnew⟩ hord (guarded_true is s₀)
  exact ⟨fun k => (hend.1 k).mono hnow, hend.2⟩

end RatelimitFlex
