import RatelimitFlex.Library.TimedRun
import RatelimitFlex.Analysis.MemoryCells

/-!
# Runs of all operations, one cell at a time

`Cell.step` is every operation of `MemoryStore` on the cell of its key, wall expiries
included.  A step that does not reach `maxKeys` is a step of that cell (`cell_step`), so
two stores with equal cells cannot be told apart, and two that differ in one cell are told
apart by a run on its key that tells the cells apart.
-/

set_option autoImplicit false

namespace RatelimitFlex

open Library

variable {κ : Type} [DecidableEq κ]

/-! ## The operations on one cell -/

namespace Cell

/-- What a wall expiry leaves at `now`. -/
def clearWall (now : ℤ) : Cell → Cell
  | .sliding o e => .sliding o (unexpired now e)
  | x => x

/-- What a read answers when no wall expiry has passed. -/
def snapshot (now : ℤ) : Cell → Option RateLimitResult
  | .sliding o e =>
    match liveStamps o now (stampsOf e) with
    | [] => none
    | oldest :: rest => some (RateLimitResult.ofUsage (oldest :: rest).length o.maxRequests
        (oldest + o.windowMs))
  | .fixed o e => e.bind fun e =>
      if e.resetTime ≤ now then none
      else some (RateLimitResult.ofUsage e.count o.maxRequests e.resetTime)
  | .bucket o e => e.bind fun raw =>
      if isBucketIdleFullPurgeable o now raw then none
      else
        let b := raw.refill o now
        let totalHits := o.bucketSize - b.tokens
        some
          { totalHits
            remaining := b.tokens
            resetTime := b.lastRefill + o.interval
            isBlocked := decide (b.tokens = 0) && decide (o.bucketSize ≤ totalHits) }

/-- A `set`, on the cell alone. -/
def set (now totalHits : ℤ) (expiresAt : Option ℤ) : Cell → Cell × RateLimitResult
  | .sliding o _ =>
    (.sliding o (some ⟨List.replicate totalHits.toNat now, expiresAt⟩),
      RateLimitResult.ofUsage totalHits.toNat o.maxRequests (now + o.windowMs))
  | .fixed o _ =>
    let resetTime := expiresAt.getD (now + o.windowMs)
    (.fixed o (some ⟨max 0 totalHits, resetTime⟩),
      RateLimitResult.ofUsage (max 0 totalHits) o.maxRequests resetTime)
  | .bucket o _ =>
    let th := max 0 totalHits
    let isBlocked := decide (o.bucketSize ≤ th)
    let tokens := if isBlocked then 0 else max 0 (o.bucketSize - th)
    (.bucket o (some ⟨tokens, now⟩),
      { totalHits := if isBlocked then o.bucketSize else th
        remaining := tokens
        resetTime := now + o.interval
        isBlocked })

/-- A reset, on the cell alone. -/
def reset (now : ℤ) : Cell → Cell
  | .sliding o _ => .sliding o none
  | .fixed o _ => .fixed o (some ⟨0, now + o.windowMs⟩)
  | .bucket o _ => .bucket o (some ⟨o.bucketSize, now⟩)

/-- A background purge, on the cell alone. -/
def purge (now : ℤ) : Cell → Cell
  | .sliding o e => .sliding o ((unexpired now e).bind fun s =>
      match liveStamps o now s.stamps with
      | [] => none
      | filtered => some { s with stamps := filtered })
  | .fixed o e => .fixed o (e.bind fun e => if e.resetTime ≤ now then none else some e)
  | .bucket o e => .bucket o (e.filter fun b => !isBucketIdleFullPurgeable o now b)

/-- One operation, on the cell of its key. -/
def step (i : Timed (StoreOp κ)) (x : Cell) : Cell × StoreReply :=
  match i.op with
  | .increment _ options =>
    let r := (x.clearWall i.time).increment i.time options
    (r.1, .result r.2)
  | .decrement _ options => (x.decrement options, .done)
  | .get _ => (x.clearWall i.time, .snapshot ((x.clearWall i.time).snapshot i.time))
  | .set _ totalHits expiresAt =>
    let r := x.set i.time totalHits expiresAt
    (r.1, .result r.2)
  | .reset _ => (x.reset i.time, .done)
  | .delete _ => (x.cleared, .deleted x.isPresent)
  | .purgeExpired => (x.purge i.time, .done)

end Cell

/-! ## What the other operations do to the lookups -/

section Lookups

variable (now : ℤ) (key k : κ)

/-- A `get` of a sliding window drops the entry of its key when a wall expiry has passed. -/
theorem lookup_getSlidingReadOnly_cleared (o : WindowOptions) (t : KeyTable κ SlidingKeyState) :
    (getSlidingReadOnly o now key t).1.state.lookup k =
      if k = key then unexpired now (t.state.lookup key) else t.state.lookup k := by
  rw [← lookup_clearSlidingWallExpiryIfExpired]
  simp only [getSlidingReadOnly]
  split
  · rfl
  · split
    · rfl
    · exact KeyTable.lookup_touchKey _ _ _

/-- It answers with what the entry that is left shows. -/
theorem getSlidingReadOnly_snd_cleared (o : WindowOptions) (t : KeyTable κ SlidingKeyState) :
    (getSlidingReadOnly o now key t).2 =
      (Cell.sliding o (unexpired now (t.state.lookup key))).snapshot now := by
  have hself := lookup_clearSlidingWallExpiryIfExpired now key key t
  rw [if_pos rfl] at hself
  rw [← hself]
  simp only [getSlidingReadOnly, Cell.snapshot, WindowOptions.cap_none]
  cases he : (clearSlidingWallExpiryIfExpired now key t).state.lookup key with
  | none => rfl
  | some s =>
    simp only [stampsOf_some]
    cases liveStamps o now s.stamps <;> rfl

/-- A `set` writes all hits at the moment of the `set`, with its end as the wall expiry. -/
theorem lookup_setSliding (o : WindowOptions) (t : KeyTable κ SlidingKeyState) (totalHits : ℤ)
    (expiresAt : Option ℤ) (hroom : t.HasRoom key) :
    (setSliding o now key totalHits expiresAt t).1.state.lookup k =
      if k = key then some ⟨List.replicate totalHits.toNat now, expiresAt⟩
      else t.state.lookup k := by
  simp only [setSliding, KeyTable.ensureRoomForNewKey_of_hasRoom _ hroom,
    KeyTable.lookup_put_dropForLru]

/-- A purge drops the stamps that have left the window, and an entry without stamps. -/
theorem lookup_purgeSliding (o : WindowOptions) (t : KeyTable κ SlidingKeyState) :
    (purgeSliding o now t).state.lookup k =
      (unexpired now (t.state.lookup k)).bind fun s =>
        match liveStamps o now s.stamps with
        | [] => none
        | filtered => some { s with stamps := filtered } := by
  simp only [purgeSliding, KeyTable.lookup_purge]
  congr 1
  cases t.state.lookup k with
  | none => rfl
  | some s =>
    obtain ⟨stamps, wall⟩ := s
    cases wall with
    | none => rfl
    | some w =>
      by_cases hw : w ≤ now
      · simp [unexpired, Option.filter, hw, not_lt.mpr hw]
      · simp [unexpired, Option.filter, hw, lt_of_not_ge hw]

/-- A `get` of a fixed window changes no entry. -/
theorem lookup_getFixedReadOnly (o : WindowOptions) (t : KeyTable κ FixedEntry) :
    (getFixedReadOnly o now key t).1.state.lookup k = t.state.lookup k := by
  unfold getFixedReadOnly
  split
  · rfl
  · split
    · rfl
    · exact KeyTable.lookup_touchKey _ _ _

/-- It answers with what the entry shows. -/
theorem getFixedReadOnly_snd (o : WindowOptions) (t : KeyTable κ FixedEntry) :
    (getFixedReadOnly o now key t).2 = (Cell.fixed o (t.state.lookup key)).snapshot now := by
  simp only [getFixedReadOnly, Cell.snapshot, WindowOptions.cap_none]
  cases t.state.lookup key with
  | none => rfl
  | some e =>
    simp only [Option.bind_some]
    split <;> rfl

/-- A `set` of a fixed window writes the count and its end. -/
theorem lookup_setFixed (o : WindowOptions) (t : KeyTable κ FixedEntry) (totalHits : ℤ)
    (expiresAt : Option ℤ) (hroom : t.HasRoom key) :
    (setFixed o now key totalHits expiresAt t).1.state.lookup k =
      if k = key then some ⟨max 0 totalHits, expiresAt.getD (now + o.windowMs)⟩
      else t.state.lookup k := by
  simp only [setFixed, KeyTable.ensureRoomForNewKey_of_hasRoom _ hroom,
    KeyTable.lookup_put_dropForLru]

/-- A purge drops the fixed windows that are over. -/
theorem lookup_purgeFixed (t : KeyTable κ FixedEntry) :
    (purgeFixed now t).state.lookup k =
      (t.state.lookup k).bind fun e => if e.resetTime ≤ now then none else some e := by
  simp only [purgeFixed, KeyTable.lookup_purge]

/-- A `get` of a bucket answers with what its entry shows. -/
theorem getTokenBucketReadOnly_snd (o : TokenBucketOptions) (t : KeyTable κ BucketEntry) :
    (getTokenBucketReadOnly o now key t).2 =
      (Cell.bucket o (t.state.lookup key)).snapshot now := by
  simp only [getTokenBucketReadOnly, Cell.snapshot, refillBucketStateForNow_eq]
  cases t.state.lookup key with
  | none => rfl
  | some b =>
    simp only [Option.bind_some]
    split <;> rfl

/-- A `set` of a bucket takes the hits out of a full one. -/
theorem lookup_setTokenBucket (o : TokenBucketOptions) (t : KeyTable κ BucketEntry)
    (totalHits : ℤ) (hroom : t.HasRoom key) :
    (setTokenBucket o now key totalHits t).1.state.lookup k =
      if k = key then
        some ⟨if decide (o.bucketSize ≤ max 0 totalHits) then 0
          else max 0 (o.bucketSize - max 0 totalHits), now⟩
      else t.state.lookup k := by
  simp only [setTokenBucket, KeyTable.ensureRoomForNewKey_of_hasRoom _ hroom,
    KeyTable.lookup_put_dropForLru]

end Lookups

/-! ## A step of the store is a step of a cell -/

namespace MemoryStore

variable {s : MemoryStore κ} {i : Timed (StoreOp κ)}

/-- A key that fits has a place or finds one. -/
theorem Fits.hasRoom {key : κ} (h : s.Fits key) : s.HasRoom key := by
  cases s with
  | sliding o t => exact KeyTable.Fits.hasRoom h
  | fixed o t => exact KeyTable.Fits.hasRoom h
  | bucket o t => exact KeyTable.Fits.hasRoom h

/-- An increment of a key that fits changes the cell of that key alone. -/
theorem cell_increment_fits {now : ℤ} {key : κ} (hfits : s.Fits key)
    (options : RateLimitIncrementOptions) (k : κ) :
    (s.increment now key options).1.cell k =
      if k = key then (((s.cell key).clearWall now).increment now options).1 else s.cell k := by
  cases s with
  | sliding o t =>
    simp only [increment, cell, Cell.clearWall, Cell.increment,
      lookup_incrementSliding_cleared o now key k t _ _
        (hasRoom_clearSlidingWallExpiryIfExpired now key t hfits)]
    split <;> rfl
  | fixed o t =>
    simp only [increment, cell, Cell.clearWall, Cell.increment,
      lookup_incrementFixed o now key k t _ _ (KeyTable.Fits.hasRoom hfits)]
    split <;> rfl
  | bucket o t =>
    simp only [increment, cell, Cell.clearWall, Cell.increment,
      lookup_incrementTokenBucket o now key k t _ (KeyTable.Fits.hasRoom hfits)]
    split <;> rfl

/-- It answers from the cell of its key. -/
theorem increment_snd_cleared (now : ℤ) (key : κ) (options : RateLimitIncrementOptions) :
    (s.increment now key options).2 =
      (((s.cell key).clearWall now).increment now options).2 := by
  cases s with
  | sliding o t => exact incrementSliding_snd_cleared o now key t _ _
  | fixed o t => exact incrementFixed_snd o now key t _ _
  | bucket o t => exact incrementTokenBucket_snd o now key t _

/-- A `get` changes the cell of its key alone. -/
theorem cell_get (now : ℤ) (key k : κ) :
    (s.get now key).1.cell k = if k = key then (s.cell key).clearWall now else s.cell k := by
  cases s with
  | sliding o t =>
    simp only [get, cell, Cell.clearWall, lookup_getSlidingReadOnly_cleared]
    split <;> rfl
  | fixed o t =>
    simp only [get, cell, Cell.clearWall, lookup_getFixedReadOnly]
    split
    · next h => rw [h]
    · rfl
  | bucket o t =>
    simp only [get, cell, Cell.clearWall, lookup_getTokenBucketReadOnly]
    split
    · next h => rw [h]
    · rfl

/-- It answers with the snapshot of that cell. -/
theorem get_snd (now : ℤ) (key : κ) :
    (s.get now key).2 = ((s.cell key).clearWall now).snapshot now := by
  cases s with
  | sliding o t => exact getSlidingReadOnly_snd_cleared now key o t
  | fixed o t => exact getFixedReadOnly_snd now key o t
  | bucket o t => exact getTokenBucketReadOnly_snd now key o t

/-- A `set` of a key that finds room changes its cell alone. -/
theorem cell_set {now : ℤ} {key : κ} (hroom : s.HasRoom key) (totalHits : ℤ)
    (expiresAt : Option ℤ) (k : κ) :
    (s.set now key totalHits expiresAt).1.cell k =
      if k = key then ((s.cell key).set now totalHits expiresAt).1 else s.cell k := by
  cases s with
  | sliding o t =>
    simp only [set, cell, Cell.set, lookup_setSliding now key k o t _ _ hroom]
    split <;> rfl
  | fixed o t =>
    simp only [set, cell, Cell.set, lookup_setFixed now key k o t _ _ hroom]
    split <;> rfl
  | bucket o t =>
    simp only [set, cell, Cell.set, lookup_setTokenBucket now key k o t _ hroom]
    split <;> rfl

/-- It answers from that cell. -/
theorem set_snd (now : ℤ) (key : κ) (totalHits : ℤ) (expiresAt : Option ℤ) :
    (s.set now key totalHits expiresAt).2 = ((s.cell key).set now totalHits expiresAt).2 := by
  cases s with
  | sliding o t => simp only [set, setSliding, cell, Cell.set, WindowOptions.cap_none]
  | fixed o t => simp only [set, setFixed, cell, Cell.set, WindowOptions.cap_none]
  | bucket o t => rfl

/-- A `reset` changes the cell of its key alone. -/
theorem cell_reset (now : ℤ) (key k : κ) :
    (s.reset now key).cell k = if k = key then (s.cell key).reset now else s.cell k := by
  cases s with
  | sliding o t =>
    simp only [reset, cell, Cell.reset, KeyTable.lookup_drop]
    split <;> rfl
  | fixed o t =>
    simp only [reset, cell, Cell.reset, KeyTable.lookup_put]
    split <;> rfl
  | bucket o t =>
    simp only [reset, cell, Cell.reset, KeyTable.lookup_put]
    split <;> rfl

/-- A `delete` clears the cell of its key alone. -/
theorem cell_delete (key k : κ) :
    (s.delete key).1.cell k = if k = key then (s.cell key).cleared else s.cell k := by
  cases s with
  | sliding o t =>
    simp only [delete, cell, Cell.cleared, KeyTable.lookup_drop]
    split <;> rfl
  | fixed o t =>
    simp only [delete, cell, Cell.cleared, KeyTable.lookup_drop]
    split <;> rfl
  | bucket o t =>
    simp only [delete, cell, Cell.cleared, KeyTable.lookup_drop]
    split <;> rfl

/-- It answers whether the cell had an entry. -/
theorem delete_snd (key : κ) : (s.delete key).2 = (s.cell key).isPresent := by
  cases s with
  | sliding o t => exact decide_eq_true_iff.trans AList.lookup_isSome.symm |> Bool.eq_iff_iff.mpr
  | fixed o t => exact decide_eq_true_iff.trans AList.lookup_isSome.symm |> Bool.eq_iff_iff.mpr
  | bucket o t => exact decide_eq_true_iff.trans AList.lookup_isSome.symm |> Bool.eq_iff_iff.mpr

/-- A purge is a purge of every cell. -/
theorem cell_purgeExpired (now : ℤ) (k : κ) :
    (s.purgeExpired now).cell k = (s.cell k).purge now := by
  cases s with
  | sliding o t => simp only [purgeExpired, cell, Cell.purge, lookup_purgeSliding]
  | fixed o t => simp only [purgeExpired, cell, Cell.purge, lookup_purgeFixed]
  | bucket o t => simp only [purgeExpired, cell, Cell.purge, lookup_purgeBuckets]

/-- In a cell rewritten for one key the key may be read either way. -/
theorem ite_cell (f : Cell → Cell) (key k : κ) :
    (if k = key then f (s.cell key) else s.cell k) =
      if k = key then f (s.cell k) else s.cell k := by
  split
  · next h => rw [h]
  · rfl

/-- A step that does not reach `maxKeys` is a step of the cells it is about. -/
theorem cell_step (hfits : s.StepFits i) (k : κ) :
    (s.step i).1.cell k =
      if i.op.key = none ∨ i.op.key = some k then ((s.cell k).step i).1 else s.cell k := by
  obtain ⟨now, op⟩ := i
  have hcond (key : κ) : (some key = none ∨ some key = some k) ↔ k = key := by
    simp [eq_comm]
  cases op with
  | increment key options =>
    have := @cell_increment_fits _ _ _ now _ (hfits key rfl) options k
    simp only [step, StoreOp.key, hcond, Cell.step, this]
    exact ite_cell (fun x => ((x.clearWall now).increment now options).1) key k
  | decrement key options =>
    simp only [step, StoreOp.key, hcond, Cell.step, cell_decrement]
    exact ite_cell (fun x => x.decrement options) key k
  | get key =>
    simp only [step, StoreOp.key, hcond, Cell.step, cell_get]
    exact ite_cell (fun x => x.clearWall now) key k
  | set key totalHits expiresAt =>
    have := @cell_set _ _ _ now _ (hfits key rfl).hasRoom totalHits expiresAt k
    simp only [step, StoreOp.key, hcond, Cell.step, this]
    exact ite_cell (fun x => (x.set now totalHits expiresAt).1) key k
  | reset key =>
    simp only [step, StoreOp.key, hcond, Cell.step, cell_reset]
    exact ite_cell (fun x => x.reset now) key k
  | delete key =>
    simp only [step, StoreOp.key, hcond, Cell.step, cell_delete]
    exact ite_cell Cell.cleared key k
  | purgeExpired => simp only [step, StoreOp.key, Cell.step, cell_purgeExpired, true_or, if_true]

/-- The answer to a step is the answer of the cell it is about. -/
theorem step_snd {k : κ} (hk : i.op.key = some k) : (s.step i).2 = ((s.cell k).step i).2 := by
  obtain ⟨now, op⟩ := i
  cases op with
  | increment key options =>
    obtain rfl := Option.some.inj hk
    exact congrArg StoreReply.result (increment_snd_cleared now key options)
  | decrement key options => rfl
  | get key =>
    obtain rfl := Option.some.inj hk
    exact congrArg StoreReply.snapshot (get_snd now key)
  | set key totalHits expiresAt =>
    obtain rfl := Option.some.inj hk
    exact congrArg StoreReply.result (set_snd now key totalHits expiresAt)
  | reset key => rfl
  | delete key =>
    obtain rfl := Option.some.inj hk
    exact congrArg StoreReply.deleted (delete_snd key)
  | purgeExpired => rfl

end MemoryStore

/-! ## The keys of a store and their cap -/

namespace MemoryStore

def maxKeys : MemoryStore κ → ℕ
  | .sliding _ t => t.maxKeys
  | .fixed _ t => t.maxKeys
  | .bucket _ t => t.maxKeys

def keys : MemoryStore κ → List κ
  | .sliding _ t => t.state.keys
  | .fixed _ t => t.state.keys
  | .bucket _ t => t.state.keys

/-- The keys of a store are those whose cells have an entry. -/
theorem mem_keys (s : MemoryStore κ) (k : κ) : k ∈ s.keys ↔ (s.cell k).isPresent = true := by
  cases s with
  | sliding o t => exact AList.lookup_isSome.symm
  | fixed o t => exact AList.lookup_isSome.symm
  | bucket o t => exact AList.lookup_isSome.symm

/-- No key is listed twice. -/
theorem nodup_keys (s : MemoryStore κ) : s.keys.Nodup := by
  cases s with
  | sliding o t => exact t.state.nodupKeys
  | fixed o t => exact t.state.nodupKeys
  | bucket o t => exact t.state.nodupKeys

/-- When a key fits, by the list of the keys. -/
theorem fits_iff (s : MemoryStore κ) (k : κ) :
    s.Fits k ↔ s.maxKeys = 0 ∨ s.keys.length < s.maxKeys ∨
      k ∈ s.keys ∧ s.keys.length ≤ s.maxKeys := by
  have hsize : ∀ {ε : Type} (t : KeyTable κ ε), t.state.size = t.state.keys.length := by
    intro ε t
    exact (List.length_map _).symm
  cases s with
  | sliding o t => simp only [Fits, KeyTable.Fits, hsize]; rfl
  | fixed o t => simp only [Fits, KeyTable.Fits, hsize]; rfl
  | bucket o t => simp only [Fits, KeyTable.Fits, hsize]; rfl

/-- A store that holds no other keys has the room the other has. -/
theorem Fits.of_keys_subset {s s' : MemoryStore κ} {k : κ} (h : s.Fits k)
    (hmax : s'.maxKeys = s.maxKeys) (hkeys : s'.keys ⊆ s.keys) : s'.Fits k := by
  rw [fits_iff] at h ⊢
  rw [hmax]
  have hle : s'.keys.length ≤ s.keys.length := (s'.nodup_keys.subperm hkeys).length_le
  rcases h with h | h | ⟨hk, h⟩
  · exact Or.inl h
  · exact Or.inr (Or.inl (lt_of_le_of_lt hle h))
  · by_cases hk' : k ∈ s'.keys
    · exact Or.inr (Or.inr ⟨hk', hle.trans h⟩)
    · have hcons : (k :: s'.keys).Nodup := List.nodup_cons.mpr ⟨hk', s'.nodup_keys⟩
      have hlt := (hcons.subperm (List.cons_subset.mpr ⟨hk, hkeys⟩)).length_le
      rw [List.length_cons] at hlt
      exact Or.inr (Or.inl (by omega))

/-- Clearing a wall expiry keeps the bound on the keys. -/
theorem maxKeys_clearSlidingWallExpiryIfExpired (now : ℤ) (key : κ)
    (t : KeyTable κ SlidingKeyState) :
    (clearSlidingWallExpiryIfExpired now key t).maxKeys = t.maxKeys := by
  unfold clearSlidingWallExpiryIfExpired
  split
  · split
    · exact KeyTable.maxKeys_deleteKeyData _ _ _
    · rfl
  · rfl

/-- So does an increment. -/
theorem maxKeys_increment (now : ℤ) (key : κ) (options : RateLimitIncrementOptions)
    (s : MemoryStore κ) : (s.increment now key options).1.maxKeys = s.maxKeys := by
  cases s with
  | sliding o t =>
    simp only [increment, incrementSliding, maxKeys]
    split <;> simp [maxKeys_clearSlidingWallExpiryIfExpired]
  | fixed o t =>
    simp only [increment, incrementFixed, maxKeys]
    split
    · simp
    · split <;> simp
  | bucket o t =>
    simp only [increment, incrementTokenBucket, maxKeys]
    split <;> split <;> simp

/-- So does a decrement. -/
theorem maxKeys_decrement (key : κ) (options : RateLimitDecrementOptions) (s : MemoryStore κ) :
    (s.decrement key options).maxKeys = s.maxKeys := by
  cases s with
  | sliding o t =>
    simp only [decrement]
    split
    · simp only [maxKeys, decrementSlidingFromEnd]
      repeat' split
      all_goals rfl
    · simp only [maxKeys, decrementSliding]
      repeat' split
      all_goals rfl
  | fixed o t =>
    simp only [decrement, maxKeys, decrementFixed]
    repeat' split
    all_goals rfl
  | bucket o t =>
    simp only [decrement, maxKeys, decrementTokenBucket]
    split <;> rfl

/-- So does a `get`. -/
theorem maxKeys_get (now : ℤ) (key : κ) (s : MemoryStore κ) :
    (s.get now key).1.maxKeys = s.maxKeys := by
  cases s with
  | sliding o t =>
    simp only [get, getSlidingReadOnly, maxKeys]
    split
    · exact maxKeys_clearSlidingWallExpiryIfExpired now key t
    · split <;> simp [maxKeys_clearSlidingWallExpiryIfExpired]
  | fixed o t =>
    simp only [get, getFixedReadOnly, maxKeys]
    split
    · rfl
    · split <;> simp
  | bucket o t =>
    simp only [get, getTokenBucketReadOnly, maxKeys]
    split
    · rfl
    · split <;> simp

/-- No operation changes the cap on the keys. -/
theorem maxKeys_step (i : Timed (StoreOp κ)) (s : MemoryStore κ) :
    (s.step i).1.maxKeys = s.maxKeys := by
  obtain ⟨now, op⟩ := i
  cases op with
  | increment key options => exact maxKeys_increment now key options s
  | decrement key options => exact maxKeys_decrement key options s
  | get key => exact maxKeys_get now key s
  | set key totalHits expiresAt =>
    cases s <;> simp [step, set, setSliding, setFixed, setTokenBucket, maxKeys]
  | reset key => cases s <;> rfl
  | delete key => cases s <;> rfl
  | purgeExpired => cases s <;> rfl

end MemoryStore

/-! ## Live stamps -/

section Live

variable {o : WindowOptions} {now t : ℤ}

/-- The stamps of an entry that count at `now`. -/
def heldStamps (o : WindowOptions) (now : ℤ) (e : Option SlidingKeyState) : List ℤ :=
  liveStamps o now (stampsOf (unexpired now e))

/-- A missing entry holds no hits. -/
@[simp] theorem heldStamps_none : heldStamps o now none = [] := rfl

/-- The wall expiry of an entry has passed. -/
def SlidingKeyState.wallPassed (now : ℤ) (s : SlidingKeyState) : Bool :=
  s.wallExpiresAt.any fun w => decide (w ≤ now)

/-- An entry holds the stamps inside its window until its wall expiry. -/
theorem heldStamps_some (s : SlidingKeyState) :
    heldStamps o now (some s) = if s.wallPassed now then [] else liveStamps o now s.stamps := by
  obtain ⟨stamps, wall⟩ := s
  cases wall with
  | none => simp [heldStamps, unexpired, SlidingKeyState.wallPassed, Option.filter]
  | some w =>
    by_cases hw : w ≤ now
    · simp [heldStamps, unexpired, SlidingKeyState.wallPassed, Option.filter, hw, not_lt.mpr hw,
        liveStamps]
    · simp [heldStamps, unexpired, SlidingKeyState.wallPassed, Option.filter, hw,
        lt_of_not_ge hw]

/-- A wall expiry that has passed stays passed. -/
theorem wallPassed_mono {s : SlidingKeyState} (h : t ≤ now) (hs : s.wallPassed t = true) :
    s.wallPassed now = true := by
  obtain ⟨stamps, wall⟩ := s
  cases wall with
  | none => simp [SlidingKeyState.wallPassed] at hs
  | some w =>
    simp only [SlidingKeyState.wallPassed, Option.any_some, decide_eq_true_eq] at hs ⊢
    omega

/-- What counts later is what still lives of what counts now, until the wall expiry. -/
theorem heldStamps_later (h : t ≤ now) (s : SlidingKeyState) :
    heldStamps o now (some s) =
      if s.wallPassed now then [] else liveStamps o now (heldStamps o t (some s)) := by
  rw [heldStamps_some, heldStamps_some]
  by_cases hnow : s.wallPassed now = true
  · rw [if_pos hnow, if_pos hnow]
  · have ht : ¬ s.wallPassed t = true := fun ht => hnow (wallPassed_mono h ht)
    rw [if_neg hnow, if_neg hnow, if_neg ht, liveStamps_liveStamps o h]

/-- Of fewer stamps no more are alive. -/
theorem liveStamps_eq_nil_of_sublist {l l' : List ℤ} (h : l.Sublist l')
    (hl : liveStamps o now l' = []) : liveStamps o now l = [] :=
  List.sublist_nil.mp (hl ▸ h.filter _)

/-- In order, the dead stamps come first. -/
theorem liveStamps_suffix {l : List ℤ} (h : l.Pairwise (· ≤ ·)) : liveStamps o now l <:+ l := by
  induction l with
  | nil => exact List.suffix_rfl
  | cons a l ih =>
    obtain ⟨ha, hl⟩ := List.pairwise_cons.mp h
    by_cases hlive : now - o.windowMs < a
    · have hall : liveStamps o now (a :: l) = a :: l := by
        apply List.filter_eq_self.mpr
        intro b hb
        rcases List.mem_cons.mp hb with rfl | hb
        · exact decide_eq_true hlive
        · have := ha b hb
          exact decide_eq_true (by omega)
      rw [hall]
    · have hdrop : liveStamps o now (a :: l) = liveStamps o now l :=
        List.filter_cons_of_neg (by simpa using hlive)
      rw [hdrop]
      exact (ih hl).trans (List.suffix_cons a l)

/-- Stamps in front that add nothing to the live ones are all over. -/
theorem liveStamps_prefix_nil {d l : List ℤ}
    (h : liveStamps o now l = liveStamps o now (d ++ l)) : liveStamps o now d = [] := by
  rw [liveStamps_append] at h
  have := congrArg List.length h
  rw [List.length_append] at this
  exact List.length_eq_zero_iff.mp (by omega)

/-- What an entry holds after a decrement. -/
theorem heldStamps_slidingAfterDecrement {f : List ℤ → List ℤ}
    (hf : f [] = []) (s : SlidingKeyState) :
    heldStamps o now (slidingAfterDecrement f (some s)) =
      if s.wallPassed now then [] else liveStamps o now (f s.stamps) := by
  simp only [slidingAfterDecrement]
  by_cases hs : s.stamps = []
  · rw [if_pos hs, heldStamps_some, hs, hf]
  · rw [if_neg hs]
    by_cases hd : f s.stamps = []
    · rw [if_pos hd, hd]
      simp [liveStamps]
    · rw [if_neg hd, heldStamps_some]
      rfl

end Live

/-! ## Reachable stores -/

/-- What the operations make of a cell: stamps in order and not in the future, a count that
is not negative, a bucket within its bounds. -/
def Cell.Legal (now : ℤ) : Cell → Prop
  | .sliding _ e => ∀ s ∈ e, s.stamps.Pairwise (· ≤ ·) ∧ ∀ x ∈ s.stamps, x ≤ now
  | .fixed _ e => ∀ s ∈ e, 0 ≤ s.count
  | .bucket o e => ∀ b ∈ e, b.Wf o now

namespace Cell

variable {now : ℤ} {x : Cell}

/-- A cell that is legal now is legal later. -/
theorem Legal.mono {now' : ℤ} (h : x.Legal now) (hn : now ≤ now') : x.Legal now' := by
  cases x with
  | sliding o e => exact fun s hs => ⟨(h s hs).1, fun y hy => ((h s hs).2 y hy).trans hn⟩
  | fixed o e => exact h
  | bucket o e => exact fun b hb => (h b hb).mono hn

/-- Clearing a wall expiry keeps a cell legal. -/
theorem Legal.clearWall (h : x.Legal now) (t : ℤ) : (x.clearWall t).Legal now := by
  cases x with
  | sliding o e => exact fun s hs => h s (Option.eq_some_of_filter_eq_some hs)
  | fixed o e => exact h
  | bucket o e => exact h

/-- An increment keeps a cell legal. -/
theorem Legal.increment (h : x.Legal now) (options : RateLimitIncrementOptions) :
    (x.increment now options).1.Legal now := by
  cases x with
  | sliding o e =>
    rintro _ ⟨⟩
    have hlive : (liveStamps o now (stampsOf e)).Pairwise (· ≤ ·) ∧
        ∀ y ∈ liveStamps o now (stampsOf e), y ≤ now := by
      cases e with
      | none => simp [liveStamps]
      | some s =>
        obtain ⟨hsorted, hpast⟩ := h s rfl
        exact ⟨hsorted.sublist List.filter_sublist, fun y hy => hpast y (List.mem_of_mem_filter hy)⟩
    refine ⟨?_, ?_⟩
    · apply List.pairwise_append.mpr
      refine ⟨hlive.1, List.pairwise_replicate.mpr (Or.inr le_rfl), ?_⟩
      intro a ha b hb
      rw [List.eq_of_mem_replicate hb]
      exact hlive.2 a ha
    · intro y hy
      rcases List.mem_append.mp hy with hy | hy
      · exact hlive.2 y hy
      · rw [List.eq_of_mem_replicate hy]
  | fixed o e =>
    rintro _ ⟨⟩
    cases e with
    | none => exact Int.natCast_nonneg _
    | some s =>
      have hcount := h s rfl
      simp only [fixedAfterIncrement]
      split
      · exact Int.natCast_nonneg _
      · exact add_nonneg hcount (Int.natCast_nonneg _)
  | bucket o e =>
    rintro _ ⟨⟩
    have hstart : (startBucket o now e).Wf o now := by
      cases e with
      | none => exact Bucket.wf_full o now
      | some b => exact h b rfl
    exact hstart.request le_rfl _

/-- A decrement keeps a cell legal. -/
theorem Legal.decrement (h : x.Legal now) (options : RateLimitDecrementOptions) :
    (x.decrement options).Legal now := by
  have hsliding : ∀ {e : Option SlidingKeyState} {f : List ℤ → List ℤ},
      (∀ l, (f l).Sublist l) →
      (∀ s ∈ e, s.stamps.Pairwise (· ≤ ·) ∧ ∀ y ∈ s.stamps, y ≤ now) →
      ∀ s ∈ slidingAfterDecrement f e, s.stamps.Pairwise (· ≤ ·) ∧ ∀ y ∈ s.stamps, y ≤ now := by
    intro e f hf he s hs
    cases e with
    | none => simp [slidingAfterDecrement] at hs
    | some cur =>
      simp only [slidingAfterDecrement] at hs
      split at hs
      · exact he s hs
      · split at hs
        · simp at hs
        · obtain rfl := Option.some.inj hs
          have hcur := he cur rfl
          exact ⟨hcur.1.sublist (hf _), fun y hy => hcur.2 y ((hf _).subset hy)⟩
  cases x with
  | sliding o e =>
    simp only [Cell.decrement]
    split
    · exact hsliding (fun l => List.take_sublist _ l) h
    · exact hsliding (fun l => List.drop_sublist _ l) h
  | fixed o e =>
    cases e with
    | none => simp [Cell.decrement, fixedAfterDecrement, Legal]
    | some s =>
      have hcount := h s rfl
      simp only [Cell.decrement, fixedAfterDecrement]
      split
      · exact h
      · split
        · simp [Legal]
        · rintro _ ⟨⟩
          simp only
          omega
  | bucket o e =>
    intro b hb
    obtain ⟨b', hb', rfl⟩ := Option.mem_map.mp hb
    obtain ⟨h0, h1, h2⟩ := h b' hb'
    exact ⟨le_min (by have := o.bucketSize_pos; omega) (by omega), min_le_left _ _, h2⟩

/-- Every operation keeps a cell legal. -/
theorem Legal.step {κ : Type} {t : ℤ} {i : Timed (StoreOp κ)} (h : x.Legal t) (ht : t ≤ i.time) :
    (x.step i).1.Legal i.time := by
  obtain ⟨now, op⟩ := i
  replace h := h.mono ht
  cases op with
  | increment key options => exact (h.clearWall now).increment options
  | decrement key options => exact h.decrement options
  | get key => exact h.clearWall now
  | set key totalHits expiresAt =>
    cases x with
    | sliding o e =>
      rintro _ ⟨⟩
      exact ⟨List.pairwise_replicate.mpr (Or.inr le_rfl),
        fun y hy => le_of_eq (List.eq_of_mem_replicate hy)⟩
    | fixed o e =>
      rintro _ ⟨⟩
      exact le_max_left _ _
    | bucket o e =>
      rintro _ ⟨⟩
      have := o.bucketSize_pos
      refine ⟨?_, ?_, le_rfl⟩
      · simp only
        split <;> omega
      · simp only
        split <;> omega
  | reset key =>
    cases x with
    | sliding o e => simp [Cell.step, Cell.reset, Legal]
    | fixed o e =>
      rintro _ ⟨⟩
      exact le_rfl
    | bucket o e =>
      rintro _ ⟨⟩
      exact Bucket.wf_full o now
  | delete key => cases x <;> simp [Cell.step, Cell.cleared, Legal]
  | purgeExpired =>
    cases x with
    | sliding o e =>
      intro s hs
      obtain ⟨s', hs', hs⟩ := Option.bind_eq_some_iff.mp hs
      obtain ⟨hsorted, hpast⟩ := h s' (Option.eq_some_of_filter_eq_some hs')
      have hsub : s.stamps.Sublist s'.stamps := by
        split at hs
        · simp at hs
        · obtain rfl := Option.some.inj hs
          exact List.filter_sublist
      exact ⟨hsorted.sublist hsub, fun y hy => hpast y (hsub.subset hy)⟩
    | fixed o e =>
      intro s hs
      obtain ⟨s', hs', hs⟩ := Option.bind_eq_some_iff.mp hs
      split at hs
      · simp at hs
      · obtain rfl := Option.some.inj hs
        exact h s' hs'
    | bucket o e => exact fun b hb => h b (Option.eq_some_of_filter_eq_some hb)

end Cell

/-- What operations in time order make of a new store by `now`, `maxKeys` never reached. -/
def Reachable (now : ℤ) (s : MemoryStore κ) : Prop :=
  ∃ (s₀ : MemoryStore κ) (t₀ : ℤ) (is : List (Timed (StoreOp κ))), s₀.IsNew ∧
    OrderedFrom Timed.time t₀ is ∧ Guarded MemoryStore.StepFits MemoryStore.step is s₀ ∧
    lastClock Timed.time t₀ is ≤ now ∧ final MemoryStore.step is s₀ = s

/-- The cells of a new store are legal. -/
theorem legal_of_isNew {s : MemoryStore κ} (h : s.IsNew) (now : ℤ) (k : κ) :
    (s.cell k).Legal now := by
  cases s with
  | sliding o t => obtain ⟨m, rfl⟩ := h; simp [MemoryStore.cell, Cell.Legal]
  | fixed o t => obtain ⟨m, rfl⟩ := h; simp [MemoryStore.cell, Cell.Legal]
  | bucket o t => obtain ⟨m, rfl⟩ := h; simp [MemoryStore.cell, Cell.Legal]

/-- Every cell of a reachable store is legal. -/
theorem Reachable.legal {now : ℤ} {s : MemoryStore κ} (h : Reachable now s) (k : κ) :
    (s.cell k).Legal now := by
  obtain ⟨s₀, t₀, is, hnew, hord, hfits, hnow, rfl⟩ := h
  have hstep : ∀ (t : ℤ) (s : MemoryStore κ) (i : Timed (StoreOp κ)),
      (∀ k, (s.cell k).Legal t) → t ≤ i.time → s.StepFits i →
      ∀ k, ((MemoryStore.step i s).1.cell k).Legal i.time := by
    intro t s i hs ht hi k
    rw [MemoryStore.cell_step hi]
    split
    · exact (hs k).step ht
    · exact (hs k).mono ht
  have hend := final_inv (I := fun t (s : MemoryStore κ) => ∀ k, (s.cell k).Legal t) hstep
    (legal_of_isNew hnew t₀) hord hfits
  exact (hend k).mono hnow

/-! ## Telling stores apart -/

/-- Stores with equal cells answer every run alike. -/
theorem indistinguishable_of_cells {s s' : MemoryStore κ} (t : ℤ)
    (h : ∀ k, s.cell k = s'.cell k) :
    Indistinguishable Timed.time MemoryStore.StepFits MemoryStore.step t s s' := by
  apply indistinguishable_of_bisimulation
    (R := fun _ (s s' : MemoryStore κ) => ∀ k, s.cell k = s'.cell k) _ h
  intro t s s' i hcell ht hfits hfits'
  refine ⟨?_, fun k => ?_⟩
  · cases hk : i.op.key with
    | none =>
      obtain ⟨now, op⟩ := i
      cases op <;> first | rfl | simp [StoreOp.key] at hk
    | some k => rw [MemoryStore.step_snd hk, MemoryStore.step_snd hk, hcell k]
  · rw [MemoryStore.cell_step hfits, MemoryStore.cell_step hfits', hcell k]

/-- An operation on `key` that puts no key into the map. -/
def StoreOp.ObservesOn (key : κ) : StoreOp κ → Prop
  | .decrement k _ => k = key
  | .get k => k = key
  | .delete k => k = key
  | _ => False

/-- A run of such operations needs no room, and its answers are those of the cell. -/
theorem outputs_observesOn {s : MemoryStore κ} {key : κ} {is : List (Timed (StoreOp κ))}
    (h : ∀ i ∈ is, i.op.ObservesOn key) :
    Guarded MemoryStore.StepFits MemoryStore.step is s ∧
      outputs MemoryStore.step is s = outputs Cell.step is (s.cell key) := by
  induction is generalizing s with
  | nil => exact ⟨trivial, rfl⟩
  | cons i is ih =>
    have hi := h i List.mem_cons_self
    have hkey : i.op.key = some key ∧ i.op.writes = none := by
      obtain ⟨now, op⟩ := i
      cases op <;> simp_all [StoreOp.ObservesOn, StoreOp.key, StoreOp.writes]
    have hfits : s.StepFits i := by
      intro k hk
      simp [hkey.2] at hk
    obtain ⟨hg, hout⟩ := ih (s := (MemoryStore.step i s).1) fun j hj =>
      h j (List.mem_cons_of_mem i hj)
    refine ⟨⟨hfits, hg⟩, ?_⟩
    rw [outputs_cons, outputs_cons, hout, MemoryStore.step_snd hkey.1,
      MemoryStore.cell_step hfits, if_pos (Or.inr hkey.1)]

/-- Two stores are told apart by such a run whose answers their cells give differently. -/
theorem not_indistinguishable_of_observesOn {s s' : MemoryStore κ} {t : ℤ} {key : κ}
    {is : List (Timed (StoreOp κ))} (hord : OrderedFrom Timed.time t is)
    (hkey : ∀ i ∈ is, i.op.ObservesOn key)
    (hne : outputs Cell.step is (s.cell key) ≠ outputs Cell.step is (s'.cell key)) :
    ¬ Indistinguishable Timed.time MemoryStore.StepFits MemoryStore.step t s s' := by
  intro hind
  obtain ⟨hg, hout⟩ := outputs_observesOn (s := s) hkey
  obtain ⟨hg', hout'⟩ := outputs_observesOn (s := s') hkey
  apply hne
  rw [← hout, ← hout', hind is hord hg hg']

/-! ## The key's own cell, whatever the room -/

/-- An increment of a sliding window writes the hits it holds and its own, without a wall expiry. -/
theorem lookup_incrementSliding_self_cleared (o : WindowOptions) (now : ℤ) (key : κ)
    (t : KeyTable κ SlidingKeyState) (maxOverride : Option JsNumber) (cost : ℕ) :
    (incrementSliding o now key maxOverride cost t).1.state.lookup key =
      some ⟨heldStamps o now (t.state.lookup key) ++ List.replicate cost now, none⟩ := by
  have hself := lookup_clearSlidingWallExpiryIfExpired now key key t
  rw [if_pos rfl] at hself
  rw [heldStamps, ← hself]
  simp only [incrementSliding]
  cases (clearSlidingWallExpiryIfExpired now key t).state.lookup key with
  | none => simp only [KeyTable.lookup_put, if_true]; rfl
  | some s => simp only [KeyTable.lookup_put, if_true]; rfl

/-- An increment may evict other keys; its own it increments. -/
theorem MemoryStore.cell_increment_own (s : MemoryStore κ) (now : ℤ) (key : κ)
    (options : RateLimitIncrementOptions) :
    (s.increment now key options).1.cell key =
      (((s.cell key).clearWall now).increment now options).1 := by
  cases s with
  | sliding o t =>
    simp only [increment, cell, Cell.clearWall, Cell.increment,
      lookup_incrementSliding_self_cleared]
    rfl
  | fixed o t =>
    simp only [increment, cell, Cell.clearWall, Cell.increment, lookup_incrementFixed_self]
  | bucket o t =>
    simp only [increment, cell, Cell.clearWall, Cell.increment, lookup_incrementTokenBucket_self]

/-- A decrement of a key is one of its cell. -/
theorem MemoryStore.cell_decrement_own (s : MemoryStore κ) (key : κ)
    (options : RateLimitDecrementOptions) :
    (s.decrement key options).cell key = (s.cell key).decrement options := by
  rw [MemoryStore.cell_decrement, if_pos rfl]

end RatelimitFlex
