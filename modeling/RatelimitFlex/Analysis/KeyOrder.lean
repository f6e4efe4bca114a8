import RatelimitFlex.Analysis.Evictions

/-!
# How many keys a store holds, and in what order

The order of the keys is that of their last touches, whatever the strategy: an operation
that touches its key leaves a part of the others in place with the key behind them
(`keys_touched`), any other leaves a part of the keys in place (`keys_untouched`).  A store
holds `maxKeys` keys at most, except that a window's or a bucket's `reset` writes a new key
without making room (`maxKeys_respected_iff`).
-/

set_option autoImplicit false

namespace RatelimitFlex

open Library RecencyOrder

variable {κ : Type} [DecidableEq κ]

/-! ## Touches -/

/-- The key an operation touches: an increment's, a `set`'s, and that of a `get` which finds
something. -/
def touchOf : Timed (StoreOp κ) × StoreReply → Option κ
  | (⟨_, .increment key _⟩, _) => some key
  | (⟨_, .set key _ _⟩, _) => some key
  | (⟨_, .get key⟩, .snapshot (some _)) => some key
  | _ => none

/-- The touches of a run, in order. -/
def touches (is : List (Timed (StoreOp κ))) (rs : List StoreReply) : List κ :=
  (is.zip rs).filterMap touchOf

/-- The operation is a `reset`. -/
def StoreOp.isReset : StoreOp κ → Bool
  | .reset _ => true
  | _ => false

namespace KeyTable

variable {ε : Type} {key : κ} {t t' : KeyTable κ ε}

/-- Some of the others stay in place, and the key is behind them. -/
def Touched (key : κ) (t t' : KeyTable κ ε) : Prop :=
  ∃ l, l.Sublist t.state.keys ∧ key ∉ l ∧ t'.state.keys = l ++ [key]

/-- A write of a new key touches it. -/
theorem touched_put (e : ε) (hsub : t'.state.keys.Sublist t.state.keys) (h : key ∉ t'.state) :
    Touched key t (t'.put key e) :=
  ⟨t'.state.keys, hsub, AList.mem_keys.not.mp h, keys_put_new e h⟩

/-- A drop keeps the others in their order. -/
theorem keys_drop_sublist (key : κ) (t : KeyTable κ ε) :
    (t.drop key).state.keys.Sublist t.state.keys := by
  rw [keys_drop]
  exact List.erase_sublist

/-- A drop and a write touch the key. -/
theorem touched_put_drop (e : ε) (hsub : t'.state.keys.Sublist t.state.keys) :
    Touched key t ((t'.drop key).put key e) :=
  touched_put e ((keys_drop_sublist key t').trans hsub) (notMem_drop key t')

/-- So do the drop and the write in recency order. -/
theorem touched_put_dropForLru (e : ε) (hm : 1 ≤ t'.maxKeys)
    (hsub : t'.state.keys.Sublist t.state.keys) :
    Touched key t ((t'.dropForLru key).put key e) := by
  unfold dropForLru
  rw [if_pos (show 0 < t'.maxKeys by omega)]
  exact touched_put_drop e hsub

/-- So does touching a key that is there. -/
theorem touched_touchKey (hm : 1 ≤ t'.maxKeys) (hsub : t'.state.keys.Sublist t.state.keys)
    {e : ε} (he : t'.state.lookup key = some e) : Touched key t (t'.touchKey key) := by
  have heq : (t'.touchKey key).state = ((t'.drop key).put key e).state := by
    unfold touchKey
    rw [if_neg (show t'.maxKeys ≠ 0 by omega)]
    simp only [InsertionMap.touch, he]
    rfl
  obtain ⟨l, hl, hnot, hkeys⟩ := touched_put_drop e hsub
  exact ⟨l, hl, hnot, heq ▸ hkeys⟩

/-- Making room keeps the others in their order. -/
theorem keys_ensureRoom_sublist (f : ε → Bool) (key : κ) (t : KeyTable κ ε) :
    (t.ensureRoomForNewKey f key).state.keys.Sublist t.state.keys := by
  unfold ensureRoomForNewKey
  split
  · exact List.Sublist.refl _
  · exact (evictWhileFull_sublist f t.maxKeys t.state.entries).map Sigma.fst

/-- A key that is not there is not there when room is made for it. -/
theorem notMem_ensureRoom (f : ε → Bool) (h : key ∉ t.state) :
    key ∉ (t.ensureRoomForNewKey f key).state := fun hmem =>
  h (AList.mem_keys.mpr ((keys_ensureRoom_sublist f key t).subset (AList.mem_keys.mp hmem)))

end KeyTable

namespace MemoryStore

variable {s : MemoryStore κ} {key : κ}

/-- So does clearing a wall expiry. -/
theorem keys_clearSlidingWallExpiry_sublist (now : ℤ) (key : κ)
    (t : KeyTable κ SlidingKeyState) :
    (clearSlidingWallExpiryIfExpired now key t).state.keys.Sublist t.state.keys := by
  rcases clearSlidingWallExpiry_cases now key t with heq | ⟨-, heq⟩
  · rw [heq]
  · rw [heq]
    exact KeyTable.keys_drop_sublist key t

/-- The store with some of the others in place and the key behind them. -/
def Touched (key : κ) (s s' : MemoryStore κ) : Prop :=
  ∃ l, l.Sublist s.keys ∧ key ∉ l ∧ s'.keys = l ++ [key]

/-- An increment touches its key. -/
theorem touched_increment (hm : 1 ≤ s.maxKeys) (now : ℤ) (key : κ)
    (options : RateLimitIncrementOptions) :
    s.Touched key (s.increment now key options).1 := by
  cases s with
  | sliding o t =>
    have hsub := keys_clearSlidingWallExpiry_sublist now key t
    show KeyTable.Touched key t (incrementSliding o now key _ _ t).1
    simp only [incrementSliding]
    cases hlookup : (clearSlidingWallExpiryIfExpired now key t).state.lookup key with
    | none =>
      refine KeyTable.touched_put _ ((KeyTable.keys_ensureRoom_sublist _ key _).trans hsub) ?_
      exact KeyTable.notMem_ensureRoom _ (AList.lookup_eq_none.mp hlookup)
    | some e => exact KeyTable.touched_put_drop _ hsub
  | fixed o t =>
    show KeyTable.Touched key t (incrementFixed o now key _ _ t).1
    unfold incrementFixed
    cases t.state.lookup key with
    | none =>
      refine KeyTable.touched_put_dropForLru _ ?_ (KeyTable.keys_ensureRoom_sublist _ key t)
      rw [KeyTable.maxKeys_ensureRoomForNewKey]
      exact hm
    | some e =>
      by_cases hexp : e.resetTime ≤ now
      · simp only [if_pos hexp]
        exact KeyTable.touched_put_dropForLru _ hm (List.Sublist.refl _)
      · simp only [if_neg hexp]
        exact KeyTable.touched_put_dropForLru _ hm (List.Sublist.refl _)
  | bucket o t =>
    have hroom := KeyTable.keys_ensureRoom_sublist (isBucketIdleFullPurgeable o now) key t
    have hmax : 1 ≤ (t.ensureRoomForNewKey (isBucketIdleFullPurgeable o now) key).maxKeys := by
      rw [KeyTable.maxKeys_ensureRoomForNewKey]
      exact hm
    show KeyTable.Touched key t (incrementTokenBucket o now key _ t).1
    unfold incrementTokenBucket
    cases t.state.lookup key with
    | none =>
      simp only
      split
      · exact KeyTable.touched_put_dropForLru _ hmax hroom
      · exact KeyTable.touched_put_dropForLru _ hmax hroom
    | some b =>
      simp only
      split
      · exact KeyTable.touched_put_dropForLru _ hm (List.Sublist.refl _)
      · exact KeyTable.touched_put_dropForLru _ hm (List.Sublist.refl _)

/-- So does a `set`. -/
theorem touched_set (hm : 1 ≤ s.maxKeys) (now : ℤ) (key : κ) (totalHits : ℤ)
    (expiresAt : Option ℤ) : s.Touched key (s.set now key totalHits expiresAt).1 := by
  have hwrite : ∀ {ε : Type} (f : ε → Bool) (e : ε) (t : KeyTable κ ε), 1 ≤ t.maxKeys →
      KeyTable.Touched key t (((t.ensureRoomForNewKey f key).dropForLru key).put key e) := by
    intro ε f e t ht
    refine KeyTable.touched_put_dropForLru e ?_ (KeyTable.keys_ensureRoom_sublist f key t)
    rw [KeyTable.maxKeys_ensureRoomForNewKey]
    exact ht
  cases s with
  | sliding o t => exact hwrite (slidingExpired o now) _ t hm
  | fixed o t => exact hwrite (fixedExpired now) _ t hm
  | bucket o t => exact hwrite (isBucketIdleFullPurgeable o now) _ t hm

/-- So does a `get` that finds something. -/
theorem touched_get (hm : 1 ≤ s.maxKeys) (now : ℤ) (key : κ)
    (h : (s.get now key).2.isSome = true) : s.Touched key (s.get now key).1 := by
  cases s with
  | sliding o t =>
    have hsub := keys_clearSlidingWallExpiry_sublist now key t
    have hmax : 1 ≤ (clearSlidingWallExpiryIfExpired now key t).maxKeys := by
      rw [maxKeys_clearSlidingWallExpiryIfExpired]
      exact hm
    revert h
    show (getSlidingReadOnly o now key t).2.isSome = true →
      KeyTable.Touched key t (getSlidingReadOnly o now key t).1
    simp only [getSlidingReadOnly]
    split
    · exact fun h => Bool.noConfusion h
    · next cur hlookup =>
      split
      · exact fun h => Bool.noConfusion h
      · exact fun _ => KeyTable.touched_touchKey hmax hsub hlookup
  | fixed o t =>
    revert h
    show (getFixedReadOnly o now key t).2.isSome = true →
      KeyTable.Touched key t (getFixedReadOnly o now key t).1
    unfold getFixedReadOnly
    split
    · exact fun h => Bool.noConfusion h
    · next e hlookup =>
      split
      · exact fun h => Bool.noConfusion h
      · exact fun _ => KeyTable.touched_touchKey hm (List.Sublist.refl _) hlookup
  | bucket o t =>
    revert h
    show (getTokenBucketReadOnly o now key t).2.isSome = true →
      KeyTable.Touched key t (getTokenBucketReadOnly o now key t).1
    unfold getTokenBucketReadOnly
    split
    · exact fun h => Bool.noConfusion h
    · next b hlookup =>
      split
      · exact fun h => Bool.noConfusion h
      · exact fun _ => KeyTable.touched_touchKey hm (List.Sublist.refl _) hlookup

/-- A `get` that finds nothing leaves the keys in place, but for one whose wall expiry has
passed. -/
theorem keys_get_none (now : ℤ) (key : κ) (s : MemoryStore κ) (h : (s.get now key).2 = none) :
    (s.get now key).1.keys.Sublist s.keys := by
  cases s with
  | sliding o t =>
    revert h
    show (getSlidingReadOnly o now key t).2 = none →
      (getSlidingReadOnly o now key t).1.state.keys.Sublist t.state.keys
    simp only [getSlidingReadOnly]
    split
    · exact fun _ => keys_clearSlidingWallExpiry_sublist now key t
    · split
      · exact fun _ => keys_clearSlidingWallExpiry_sublist now key t
      · exact fun h => absurd h (Option.some_ne_none _)
  | fixed o t =>
    revert h
    show (getFixedReadOnly o now key t).2 = none →
      (getFixedReadOnly o now key t).1.state.keys.Sublist t.state.keys
    unfold getFixedReadOnly
    split
    · exact fun _ => List.Sublist.refl _
    · split
      · exact fun _ => List.Sublist.refl _
      · exact fun h => absurd h (Option.some_ne_none _)
  | bucket o t =>
    revert h
    show (getTokenBucketReadOnly o now key t).2 = none →
      (getTokenBucketReadOnly o now key t).1.state.keys.Sublist t.state.keys
    unfold getTokenBucketReadOnly
    split
    · exact fun _ => List.Sublist.refl _
    · split
      · exact fun _ => List.Sublist.refl _
      · exact fun h => absurd h (Option.some_ne_none _)

/-- A decrement keeps the order. -/
theorem keys_decrement_sublist (key : κ) (options : RateLimitDecrementOptions)
    (s : MemoryStore κ) : (s.decrement key options).keys.Sublist s.keys := by
  rw [keys_decrement]
  split
  · exact List.Sublist.refl _
  · exact List.erase_sublist

/-- A `delete` takes its key out. -/
theorem keys_delete (key : κ) (s : MemoryStore κ) :
    (s.delete key).1.keys = s.keys.erase key := by
  cases s <;> exact KeyTable.keys_drop key _

/-- A purge keeps the order. -/
theorem keys_purgeExpired_sublist (now : ℤ) (s : MemoryStore κ) :
    (s.purgeExpired now).keys.Sublist s.keys := by
  cases s with
  | sliding o t =>
    exact (InsertionMap.keys_filterMap_sublist _ _).trans
      (InsertionMap.keys_filterMap_sublist _ _)
  | fixed o t => exact InsertionMap.keys_filterMap_sublist _ _
  | bucket o t => exact InsertionMap.keys_filterMap_sublist _ _

/-- **An operation that touches its key** leaves some of the others in place, with the key
behind them. -/
theorem keys_touched (hm : 1 ≤ s.maxKeys) (i : Timed (StoreOp κ))
    (h : touchOf (i, (s.step i).2) = some key) : s.Touched key (s.step i).1 := by
  obtain ⟨now, op⟩ := i
  cases op with
  | increment k options =>
    obtain rfl := Option.some.inj h
    exact touched_increment hm now k options
  | set k totalHits expiresAt =>
    obtain rfl := Option.some.inj h
    exact touched_set hm now k totalHits expiresAt
  | get k =>
    revert h
    simp only [step]
    cases hr : (s.get now k).2 with
    | none => exact fun h => absurd h.symm (Option.some_ne_none key)
    | some r =>
      intro h
      obtain rfl := Option.some.inj h
      exact touched_get hm now k (by rw [hr]; rfl)
  | decrement k options => exact absurd h.symm (Option.some_ne_none key)
  | reset k => exact absurd h.symm (Option.some_ne_none key)
  | delete k => exact absurd h.symm (Option.some_ne_none key)
  | purgeExpired => exact absurd h.symm (Option.some_ne_none key)

/-- **Any other operation**, a `reset` apart, leaves some of the keys in place. -/
theorem keys_untouched (i : Timed (StoreOp κ)) (s : MemoryStore κ)
    (hreset : i.op.isReset = false) (h : touchOf (i, (s.step i).2) = none) :
    (s.step i).1.keys.Sublist s.keys := by
  obtain ⟨now, op⟩ := i
  cases op with
  | increment k options => exact absurd h (Option.some_ne_none k)
  | set k totalHits expiresAt => exact absurd h (Option.some_ne_none k)
  | get k =>
    refine keys_get_none now k s ?_
    simp only [step] at h
    cases hr : (s.get now k).2 with
    | none => rfl
    | some r =>
      rw [hr] at h
      exact absurd h (Option.some_ne_none k)
  | decrement k options => exact keys_decrement_sublist k options s
  | reset k => exact Bool.noConfusion hreset
  | delete k =>
    show (s.delete k).1.keys.Sublist s.keys
    rw [keys_delete]
    exact List.erase_sublist
  | purgeExpired => exact keys_purgeExpired_sublist now s

/-- One step keeps the keys in the order of their last touches. -/
theorem inOrder_step {uses : List κ} (hm : 1 ≤ s.maxKeys) (i : Timed (StoreOp κ))
    (hreset : i.op.isReset = false) (h : s.keys.Sublist uses.dedup) :
    (s.step i).1.keys.Sublist
      (uses ++ (touchOf (i, (s.step i).2)).toList).dedup := by
  cases ht : touchOf (i, (s.step i).2) with
  | none =>
    rw [Option.toList_none, List.append_nil]
    exact (keys_untouched i s hreset ht).trans h
  | some key =>
    obtain ⟨l, hl, hnot, hkeys⟩ := keys_touched hm i ht
    rw [Option.toList_some, hkeys]
    exact sublist_dedup_concat (hl.trans h) hnot

/-- A run keeps them so. -/
theorem inOrder_run {uses : List κ} (hm : 1 ≤ s.maxKeys) {is : List (Timed (StoreOp κ))}
    (hreset : ∀ i ∈ is, i.op.isReset = false) (h : s.keys.Sublist uses.dedup) :
    (final step is s).keys.Sublist (uses ++ touches is (outputs step is s)).dedup := by
  induction is generalizing s uses with
  | nil => simpa [touches] using h
  | cons i is ih =>
    have hi := inOrder_step hm i (hreset i List.mem_cons_self) h
    have hmax : 1 ≤ (s.step i).1.maxKeys := by
      rw [maxKeys_step]
      exact hm
    have hrest := ih hmax (fun j hj => hreset j (List.mem_cons_of_mem i hj)) hi
    have htouches : touches (i :: is) (outputs step (i :: is) s) =
        (touchOf (i, (s.step i).2)).toList ++ touches is (outputs step is (s.step i).1) := by
      rw [touches, outputs_cons, List.zip_cons_cons, List.filterMap_cons]
      cases touchOf (i, (s.step i).2) <;> rfl
    rw [final_cons, htouches, ← List.append_assoc]
    exact hrest

/-- A new store has no keys. -/
theorem keys_of_isNew (h : s.IsNew) : s.keys = [] := by
  cases s with
  | sliding o t => obtain ⟨m, rfl⟩ := h; rfl
  | fixed o t => obtain ⟨m, rfl⟩ := h; rfl
  | bucket o t => obtain ⟨m, rfl⟩ := h; rfl

end MemoryStore

/-- **The keys are in the order of their last touches, and go in that order.**  After any run
of operations without a `reset` the map's keys are those of the touched keys that are present,
ordered by their last touches; and what the next operation evicts goes one by one, by the LRU
rule the first key present when it is not expired, as expired a key that is.
SOURCE: src/stores/memory-store.ts:571-648, 795-969 -/
theorem evicts_in_recency_order (s : MemoryStore κ) (hnew : s.IsNew) (hm : 1 ≤ s.maxKeys)
    (is : List (Timed (StoreOp κ))) (hreset : ∀ i ∈ is, i.op.isReset = false) :
    let s' := final MemoryStore.step is s
    s'.keys = (touches is (outputs MemoryStore.step is s)).dedup.filter (· ∈ s'.keys) ∧
      ∀ i, ∃ gone, (s'.step i).1.evictions = s'.evictions ++ gone ∧
        EvictedInTurn (fun k => (s'.cell k).isEntryExpired i.time) s'.keys gone := by
  intro s'
  refine ⟨?_, fun i => s'.evicts_step i⟩
  refine eq_filter_of_sublist ?_ (List.nodup_dedup _)
  have hstart : s.keys.Sublist ([] : List κ).dedup := by
    rw [MemoryStore.keys_of_isNew hnew]
    exact List.Sublist.refl _
  exact MemoryStore.inOrder_run hm hreset hstart

/-- A `get` of the older of two keys makes it the newer one, so a third key drives out the
other. -/
theorem evicts_in_recency_order_of_get :
    let s : MemoryStore ℕ := .fixed oneASecond (KeyTable.new 2)
    let is : List (Timed (StoreOp ℕ)) :=
      [⟨0, .increment 7 {}⟩, ⟨1, .increment 8 {}⟩, ⟨2, .get 7⟩, ⟨3, .increment 9 {}⟩]
    let s' := final MemoryStore.step is s
    s'.keys = (touches is (outputs MemoryStore.step is s)).dedup.filter (· ∈ s'.keys) ∧
      ∀ i, ∃ gone, (s'.step i).1.evictions = s'.evictions ++ gone ∧
        EvictedInTurn (fun k => (s'.cell k).isEntryExpired i.time) s'.keys gone :=
  evicts_in_recency_order (.fixed oneASecond (KeyTable.new 2)) ⟨2, rfl⟩ (by decide)
    [⟨0, .increment 7 {}⟩, ⟨1, .increment 8 {}⟩, ⟨2, .get 7⟩, ⟨3, .increment 9 {}⟩] (by decide)

/-! ## How many keys -/

namespace MemoryStore

variable {s : MemoryStore κ} {key : κ} {i : Timed (StoreOp κ)}

/-- A `reset` writes an entry, as a window's and a bucket's does; the sliding window's drops
it. -/
def resetWrites : MemoryStore κ → Bool
  | .sliding _ _ => false
  | .fixed _ _ => true
  | .bucket _ _ => true

/-- A `reset` that writes a new key finds room for it. -/
def ResetHasRoom (i : Timed (StoreOp κ)) (s : MemoryStore κ) : Prop :=
  ∀ key, i.op = .reset key → s.resetWrites = true → key ∈ s.keys ∨ s.keys.length < s.maxKeys

/-- Fewer keys are fewer. -/
theorem length_keys_le {s' : MemoryStore κ} (h : ∀ k ∈ s'.keys, k ∈ s.keys) :
    s'.keys.length ≤ s.keys.length :=
  (s'.nodup_keys.subperm h).length_le

/-- A `reset` that writes leaves its key there. -/
theorem length_keys_reset (now : ℤ) (key : κ) (hw : s.resetWrites = true) :
    (s.reset now key).keys.length = if key ∈ s.keys then s.keys.length else s.keys.length + 1 := by
  have hput : ∀ {ε : Type} (e : ε) (t : KeyTable κ ε), (t.put key e).state.keys.length =
      if key ∈ t.state.keys then t.state.keys.length else t.state.keys.length + 1 := by
    intro ε e t
    split
    · next hmem => rw [KeyTable.keys_put_of_mem e (AList.mem_keys.mpr hmem)]
    · next hmem =>
      rw [KeyTable.keys_put_new e (mt AList.mem_keys.mp hmem), List.length_append,
        List.length_singleton]
  cases s with
  | sliding o t => exact Bool.noConfusion hw
  | fixed o t => exact hput _ t
  | bucket o t => exact hput _ t

/-- One operation: too many keys only by a `reset` without room. -/
theorem length_keys_step (hm : 1 ≤ s.maxKeys) (h : s.keys.length ≤ s.maxKeys) :
    (s.step i).1.keys.length ≤ s.maxKeys ↔ s.ResetHasRoom i := by
  have hfits : s.SlidingFits := fun o ho => Or.inr h
  have hother : i.op.isReset = false → (s.ResetHasRoom i ↔ True) := by
    intro hi
    refine iff_true_intro fun k hk => ?_
    rw [hk] at hi
    exact Bool.noConfusion hi
  obtain ⟨now, op⟩ := i
  cases op with
  | increment k options =>
    rw [hother rfl, iff_true]
    show (s.increment now k options).1.keys.length ≤ s.maxKeys
    rw [keys_increment hm hfits]
    exact length_touch_le hm h
  | set k totalHits expiresAt =>
    rw [hother rfl, iff_true]
    show (s.set now k totalHits expiresAt).1.keys.length ≤ s.maxKeys
    rw [keys_set hm]
    exact length_touch_le hm h
  | get k =>
    rw [hother rfl, iff_true]
    refine (length_keys_le fun j hj => ?_).trans h
    rw [mem_keys] at hj ⊢
    simp only [step, cell_get] at hj
    split at hj
    · next heq =>
      subst heq
      revert hj
      cases s.cell j with
      | sliding o e =>
        simp only [Cell.clearWall, Cell.isPresent, unexpired]
        cases e with
        | none => exact id
        | some e => exact fun _ => rfl
      | fixed o e => exact id
      | bucket o e => exact id
    · exact hj
  | decrement k options =>
    rw [hother rfl, iff_true]
    exact (keys_decrement_sublist k options s).length_le.trans h
  | delete k =>
    rw [hother rfl, iff_true]
    show (s.delete k).1.keys.length ≤ s.maxKeys
    rw [keys_delete]
    exact List.erase_sublist.length_le.trans h
  | purgeExpired =>
    rw [hother rfl, iff_true]
    exact (keys_purgeExpired_sublist now s).length_le.trans h
  | reset k =>
    show (s.reset now k).keys.length ≤ s.maxKeys ↔ s.ResetHasRoom ⟨now, .reset k⟩
    cases hw : s.resetWrites with
    | false =>
      have hsub : (s.reset now k).keys.Sublist s.keys := by
        cases s with
        | sliding o t => exact KeyTable.keys_drop_sublist k t
        | fixed o t => exact Bool.noConfusion hw
        | bucket o t => exact Bool.noConfusion hw
      refine iff_of_true (hsub.length_le.trans h) fun j _ hw' => ?_
      exact absurd hw' (by rw [hw]; exact Bool.false_ne_true)
    | true =>
      rw [length_keys_reset now k hw]
      constructor
      · intro hle j hj _
        obtain rfl : k = j := by simpa using hj
        split at hle
        · next hmem => exact Or.inl hmem
        · exact Or.inr hle
      · intro hroom
        split
        · exact h
        · next hmem => exact (hroom k rfl hw).resolve_left hmem

end MemoryStore

/-- **When a store holds `maxKeys` keys at most.**  From a new store, after every operation of
a run there are at most `maxKeys` keys exactly when no `reset` of a fixed window or a token
bucket writes a key that is not held into a full store.
SOURCE: src/stores/memory-store.ts:355-374, 615-633 -/
theorem maxKeys_respected_iff (s : MemoryStore κ) (hnew : s.IsNew) (hm : 1 ≤ s.maxKeys)
    (is : List (Timed (StoreOp κ))) :
    (∀ p, p <+: is → (final MemoryStore.step p s).keys.length ≤ s.maxKeys) ↔
      Guarded (fun i s => s.ResetHasRoom i) MemoryStore.step is s := by
  have hrun : ∀ (s : MemoryStore κ), 1 ≤ s.maxKeys → s.keys.length ≤ s.maxKeys →
      ((∀ p, p <+: is → (final MemoryStore.step p s).keys.length ≤ s.maxKeys) ↔
        Guarded (fun i s => s.ResetHasRoom i) MemoryStore.step is s) := by
    intro s hm h
    induction is generalizing s with
    | nil => simpa using h
    | cons i is ih =>
      have hmax := MemoryStore.maxKeys_step i s
      have hone := MemoryStore.length_keys_step (i := i) hm h
      rw [guarded_cons, ← hone]
      constructor
      · intro hp
        have hi : (s.step i).1.keys.length ≤ s.maxKeys := hp [i] (List.prefix_append [i] is)
        refine ⟨hi, (ih (s.step i).1 (by omega) (by omega)).mp fun p hpre => ?_⟩
        rw [hmax]
        exact hp (i :: p) ((List.prefix_cons_inj i).mpr hpre)
      · rintro ⟨hi, hg⟩ p hp
        rcases List.prefix_cons_iff.mp hp with rfl | ⟨q, rfl, hq⟩
        · exact h
        · have hrest := (ih (s.step i).1 (by omega) (by omega)).mpr hg q hq
          rw [hmax] at hrest
          exact hrest
  refine hrun s hm ?_
  rw [MemoryStore.keys_of_isNew hnew]
  exact Nat.zero_le _

/-- A full window whose only `reset` is of a key that is held. -/
theorem maxKeys_respected_of_held :
    (final MemoryStore.step [⟨0, .increment 7 {}⟩, ⟨1, .reset 7⟩, ⟨2, .increment 8 {}⟩]
      (.fixed oneASecond (KeyTable.new 1) : MemoryStore ℕ)).keys.length ≤ 1 := by
  refine (maxKeys_respected_iff (.fixed oneASecond (KeyTable.new 1)) ⟨1, rfl⟩ (by decide)
    [⟨0, .increment 7 {}⟩, ⟨1, .reset 7⟩, ⟨2, .increment 8 {}⟩]).mpr ⟨?_, ?_, ?_, trivial⟩ _
    List.prefix_rfl
  · intro k hk
    cases hk
  · intro k hk _
    obtain rfl := StoreOp.reset.inj hk
    exact Or.inl (by decide)
  · intro k hk
    cases hk

/-- Two `reset`s leave two keys in a window store that is to hold one. -/
theorem maxKeys_exceeded_by_reset :
    ¬ ∀ (s : MemoryStore ℕ) (is : List (Timed (StoreOp ℕ))), s.IsNew → 1 ≤ s.maxKeys →
      ∀ p, p <+: is → (final MemoryStore.step p s).keys.length ≤ s.maxKeys := by
  intro h
  have htwo := h (.fixed oneASecond (KeyTable.new 1)) [⟨0, .reset 7⟩, ⟨1, .reset 8⟩] ⟨1, rfl⟩
    (by decide) _ List.prefix_rfl
  revert htwo
  decide

end RatelimitFlex
