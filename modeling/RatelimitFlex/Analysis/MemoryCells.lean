import RatelimitFlex.Program.MemoryStore

/-!
# What each `MemoryStore` operation does to one key

The operations move keys around in the table's order, but what a later call reads is a
lookup.  For every operation one lemma gives the lookups afterwards: the operation's own
key gets a new entry that depends on its old entry alone, every other key keeps its own.
The increments need room (`KeyTable.HasRoom`), or another key is evicted.
-/

set_option autoImplicit false

namespace RatelimitFlex

open Library

variable {κ : Type} [DecidableEq κ]

/-! ## Sliding window -/

/-- The live stamps of two lists. -/
theorem liveStamps_append (o : WindowOptions) (now : ℤ) (l₁ l₂ : List ℤ) :
    liveStamps o now (l₁ ++ l₂) = liveStamps o now l₁ ++ liveStamps o now l₂ :=
  List.filter_append _ _

/-- What is live later was live before. -/
theorem liveStamps_liveStamps (o : WindowOptions) {now now' : ℤ} (h : now ≤ now')
    (l : List ℤ) : liveStamps o now' (liveStamps o now l) = liveStamps o now' l := by
  unfold liveStamps
  rw [List.filter_filter]
  refine List.filter_congr fun ts _ => ?_
  simp only [← Bool.decide_and]
  congr 1
  apply propext
  omega

/-- A stamp of now is alive. -/
theorem liveStamps_replicate_now (o : WindowOptions) (now : ℤ) (c : ℕ) :
    liveStamps o now (List.replicate c now) = List.replicate c now := by
  have := o.windowMs_pos
  refine List.filter_eq_self.mpr fun ts hts => ?_
  rw [List.eq_of_mem_replicate hts]
  simp only [decide_eq_true_eq]
  omega

/-- At the last moment at which this moment's stamps are live, a rolled back window that
lost an older stamp holds more than the old one. -/
theorem length_live_rolledBack_lt {o : WindowOptions} {now : ℤ} {live : List ℤ}
    (hsorted : live.Pairwise (· ≤ ·))
    (hpast : ∀ ts ∈ live, ts ≤ now) (hold : ∃ ts ∈ live, ts ≠ now) {cost : ℕ} (hcost : 1 ≤ cost) :
    (liveStamps o (now + o.windowMs - 1) live).length <
      (liveStamps o (now + o.windowMs - 1)
        ((live ++ List.replicate cost now).drop cost)).length := by
  obtain ⟨x, hx, hne⟩ := hold
  obtain ⟨h, rest, rfl⟩ := List.exists_cons_of_ne_nil (List.ne_nil_of_mem hx)
  obtain ⟨c, rfl⟩ := Nat.exists_eq_add_of_le' hcost
  have hhead : h < now := by
    rcases List.mem_cons.mp hx with rfl | hmem
    · exact lt_of_le_of_ne (hpast _ hx) hne
    · exact lt_of_le_of_lt ((List.pairwise_cons.mp hsorted).1 x hmem)
        (lt_of_le_of_ne (hpast x hx) hne)
  have hdead : liveStamps o (now + o.windowMs - 1) ((h :: rest ++
      List.replicate (c + 1) now).take (c + 1)) =
      liveStamps o (now + o.windowMs - 1) ((rest ++ List.replicate (c + 1) now).take c) := by
    simp only [List.cons_append, List.take_succ_cons, liveStamps]
    rw [List.filter_cons_of_neg (by simp only [decide_eq_true_eq]; omega)]
  have hnew : liveStamps o (now + o.windowMs - 1) (List.replicate (c + 1) now) =
      List.replicate (c + 1) now := by
    refine List.filter_eq_self.mpr fun ts hts => ?_
    rw [List.eq_of_mem_replicate hts]
    simp only [decide_eq_true_eq]
    omega
  -- the dropped stamps and the kept ones together are the old live ones and the new ones
  have hsplit := congrArg (fun l => (liveStamps o (now + o.windowMs - 1) l).length)
    (List.take_append_drop (c + 1) (h :: rest ++ List.replicate (c + 1) now))
  simp only [liveStamps_append, List.length_append, hdead, hnew, List.length_replicate] at hsplit
  have htake : (liveStamps o (now + o.windowMs - 1)
      ((rest ++ List.replicate (c + 1) now).take c)).length ≤ c :=
    (List.length_filter_le _ _).trans (List.length_take_le _ _)
  omega

section Sliding

variable (o : WindowOptions) (now : ℤ) (key k : κ) (t : KeyTable κ SlidingKeyState)

/-- The stamps of a key, none when it is not in the map. -/
def stampsOf (e : Option SlidingKeyState) : List ℤ := (e.map SlidingKeyState.stamps).getD []

/-- A missing entry has no stamps. -/
@[simp] theorem stampsOf_none : stampsOf none = [] := rfl

/-- The stamps of an entry. -/
@[simp] theorem stampsOf_some (s : SlidingKeyState) : stampsOf (some s) = s.stamps := rfl

/-- The entry a wall expiry leaves at `now`. -/
def unexpired (e : Option SlidingKeyState) : Option SlidingKeyState :=
  e.filter fun s => match s.wallExpiresAt with
    | some w => decide (now < w)
    | none => true

/-- An entry without a wall expiry does not expire. -/
theorem unexpired_of_none {e : Option SlidingKeyState}
    (h : ∀ s ∈ e, s.wallExpiresAt = none) : unexpired now e = e := by
  cases e with
  | none => rfl
  | some s => simp [unexpired, Option.filter, h s rfl]

/-- Clearing a wall expiry that has passed drops the entry of that key alone. -/
theorem lookup_clearSlidingWallExpiryIfExpired :
    (clearSlidingWallExpiryIfExpired now key t).state.lookup k =
      if k = key then unexpired now (t.state.lookup key) else t.state.lookup k := by
  unfold clearSlidingWallExpiryIfExpired
  by_cases hk : k = key
  · subst hk
    rw [if_pos rfl]
    cases he : t.state.lookup k with
    | none => simpa [unexpired] using he
    | some s =>
      obtain ⟨stamps, wall⟩ := s
      cases wall with
      | none => simpa [unexpired, Option.filter] using he
      | some w =>
        by_cases hw : w ≤ now
        · simp [unexpired, Option.filter, hw, not_lt.mpr hw]
        · simpa [unexpired, Option.filter, hw, lt_of_not_ge hw] using he
  · rw [if_neg hk]
    split
    · split
      · rw [KeyTable.lookup_deleteKeyData, if_neg hk]
      · rfl
    · rfl

/-- Clearing a wall expiry leaves room for the key. -/
theorem hasRoom_clearSlidingWallExpiryIfExpired (h : t.Fits key) :
    (clearSlidingWallExpiryIfExpired now key t).HasRoom key := by
  unfold clearSlidingWallExpiryIfExpired
  split
  · split
    · exact h.hasRoom_deleteKeyData _
    · exact h.hasRoom
  · exact h.hasRoom

/-- A key without a wall expiry is not cleared. -/
theorem clearSlidingWallExpiry_of_none (h : ∀ s ∈ t.state.lookup key, s.wallExpiresAt = none) :
    clearSlidingWallExpiryIfExpired now key t = t := by
  unfold clearSlidingWallExpiryIfExpired
  split
  · next stamps w hw => simpa using h _ hw
  · rfl

/-- An increment with room: the live stamps of what the wall expiry leaves, and the new
ones. -/
theorem lookup_incrementSliding_cleared (maxOverride : Option JsNumber) (cost : ℕ)
    (hroom : (clearSlidingWallExpiryIfExpired now key t).HasRoom key) :
    (incrementSliding o now key maxOverride cost t).1.state.lookup k =
      if k = key then
        some ⟨liveStamps o now (stampsOf (unexpired now (t.state.lookup key))) ++
          List.replicate cost now, none⟩
      else t.state.lookup k := by
  have hself := lookup_clearSlidingWallExpiryIfExpired now key key t
  have hother := lookup_clearSlidingWallExpiryIfExpired now key k t
  rw [if_pos rfl] at hself
  simp only [incrementSliding]
  cases he : (clearSlidingWallExpiryIfExpired now key t).state.lookup key with
  | none =>
    rw [← hself, he]
    simp only [KeyTable.ensureRoomForNewKey_of_hasRoom _ hroom, KeyTable.lookup_put]
    by_cases hk : k = key
    · rw [if_pos hk, if_pos hk]
      rfl
    · rw [if_neg hk, if_neg hk, hother, if_neg hk]
  | some s =>
    rw [← hself, he]
    simp only [KeyTable.lookup_put, KeyTable.lookup_drop]
    by_cases hk : k = key
    · rw [if_pos hk, if_pos hk]
      rfl
    · rw [if_neg hk, if_neg hk, if_neg hk, hother, if_neg hk]

/-- An increment with room and no wall expiry: the live stamps and the new ones. -/
theorem lookup_incrementSliding (maxOverride : Option JsNumber) (cost : ℕ)
    (hwall : ∀ s ∈ t.state.lookup key, s.wallExpiresAt = none) (hroom : t.HasRoom key) :
    (incrementSliding o now key maxOverride cost t).1.state.lookup k =
      if k = key then
        some ⟨liveStamps o now (stampsOf (t.state.lookup key)) ++ List.replicate cost now, none⟩
      else t.state.lookup k := by
  have hclear : (clearSlidingWallExpiryIfExpired now key t).HasRoom key := by
    rw [clearSlidingWallExpiry_of_none now key t hwall]
    exact hroom
  rw [lookup_incrementSliding_cleared o now key k t maxOverride cost hclear,
    unexpired_of_none now hwall]

/-- Without room an increment evicts other keys at most. -/
theorem lookup_incrementSliding_of_ne (maxOverride : Option JsNumber) (cost : ℕ) (hk : k ≠ key)
    (hwall : ∀ s ∈ t.state.lookup key, s.wallExpiresAt = none) :
    (incrementSliding o now key maxOverride cost t).1.state.lookup k = t.state.lookup k ∨
      (incrementSliding o now key maxOverride cost t).1.state.lookup k = none := by
  simp only [incrementSliding, clearSlidingWallExpiry_of_none now key t hwall]
  cases he : t.state.lookup key with
  | none =>
    simp only [KeyTable.lookup_put, if_neg hk]
    exact KeyTable.lookup_ensureRoomForNewKey _ _ _ _
  | some s =>
    simp only [KeyTable.lookup_put, KeyTable.lookup_drop, if_neg hk]
    exact Or.inl trivial

/-- The stamps an increment leaves, with or without room. -/
theorem lookup_incrementSliding_self (maxOverride : Option JsNumber) (cost : ℕ)
    (hwall : ∀ s ∈ t.state.lookup key, s.wallExpiresAt = none) :
    (incrementSliding o now key maxOverride cost t).1.state.lookup key =
      some ⟨liveStamps o now (stampsOf (t.state.lookup key)) ++ List.replicate cost now, none⟩ := by
  simp only [incrementSliding, clearSlidingWallExpiry_of_none now key t hwall]
  cases he : t.state.lookup key with
  | none =>
    simp only [KeyTable.lookup_put, if_true]
    rfl
  | some s =>
    simp only [KeyTable.lookup_put, if_true]
    rfl

/-- The figures an increment answers with. -/
theorem incrementSliding_snd_cleared (maxOverride : Option JsNumber) (cost : ℕ) :
    (incrementSliding o now key maxOverride cost t).2 =
      let trimmed := liveStamps o now (stampsOf (unexpired now (t.state.lookup key))) ++
        List.replicate cost now
      RateLimitResult.ofUsage trimmed.length (o.cap maxOverride)
        (trimmed.head?.getD now + o.windowMs) := by
  have hself := lookup_clearSlidingWallExpiryIfExpired now key key t
  rw [if_pos rfl] at hself
  simp only [incrementSliding]
  cases he : (clearSlidingWallExpiryIfExpired now key t).state.lookup key with
  | none =>
    rw [← hself, he]
    simp only [stampsOf_none]
    generalize liveStamps o now [] ++ List.replicate cost now = trimmed
    cases trimmed <;> rfl
  | some s =>
    rw [← hself, he]
    simp only [stampsOf_some]
    generalize liveStamps o now s.stamps ++ List.replicate cost now = trimmed
    cases trimmed <;> rfl

/-- A sliding increment answers from the live stamps and its own. -/
theorem incrementSliding_snd (maxOverride : Option JsNumber) (cost : ℕ)
    (hwall : ∀ s ∈ t.state.lookup key, s.wallExpiresAt = none) :
    (incrementSliding o now key maxOverride cost t).2 =
      let trimmed := liveStamps o now (stampsOf (t.state.lookup key)) ++ List.replicate cost now
      RateLimitResult.ofUsage trimmed.length (o.cap maxOverride)
        (trimmed.head?.getD now + o.windowMs) := by
  rw [incrementSliding_snd_cleared, unexpired_of_none now hwall]

/-- The entry a decrement leaves when `f` picks the stamps to keep: none without stamps. -/
def slidingAfterDecrement (f : List ℤ → List ℤ) : Option SlidingKeyState → Option SlidingKeyState
  | none => none
  | some cur =>
    if cur.stamps = [] then some cur
    else if f cur.stamps = [] then none
    else some { cur with stamps := f cur.stamps }

/-- Keeping some of the stamps keeps them, whether the entry stays or goes. -/
theorem stampsOf_slidingAfterDecrement {f : List ℤ → List ℤ} (hf : f [] = [])
    (e : Option SlidingKeyState) : stampsOf (slidingAfterDecrement f e) = f (stampsOf e) := by
  cases e with
  | none => simp [slidingAfterDecrement, hf]
  | some cur =>
    by_cases hs : cur.stamps = []
    · simp [slidingAfterDecrement, hs, hf]
    · by_cases hd : f cur.stamps = []
      · simp [slidingAfterDecrement, hs, hd]
      · simp [slidingAfterDecrement, hs, hd]

/-- A decrement sets no wall expiry. -/
theorem wall_slidingAfterDecrement (f : List ℤ → List ℤ) {e : Option SlidingKeyState}
    (hwall : ∀ s ∈ e, s.wallExpiresAt = none) :
    ∀ s ∈ slidingAfterDecrement f e, s.wallExpiresAt = none := by
  cases e with
  | none => simp [slidingAfterDecrement]
  | some cur =>
    have hcur := hwall cur rfl
    by_cases hs : cur.stamps = []
    · simp [slidingAfterDecrement, hs, hcur]
    · by_cases hd : f cur.stamps = []
      · simp [slidingAfterDecrement, hs, hd]
      · simp [slidingAfterDecrement, hs, hd, hcur]

/-- A decrement drops the oldest stamps. -/
theorem lookup_decrementSliding (cost : ℕ) :
    (decrementSliding key cost t).state.lookup k =
      if k = key then slidingAfterDecrement (List.drop cost) (t.state.lookup key)
      else t.state.lookup k := by
  unfold decrementSliding slidingAfterDecrement
  cases he : t.state.lookup key with
  | none =>
    by_cases hk : k = key
    · subst hk
      simpa using he
    · simp [hk]
  | some cur =>
    by_cases hs : cur.stamps = []
    · by_cases hk : k = key
      · subst hk
        simpa [hs] using he
      · simp [hs, hk]
    · by_cases hd : cur.stamps.drop cost = []
      · simp only [hs, hd, if_true, if_false, KeyTable.lookup_drop]
      · simp only [hs, hd, if_false, KeyTable.lookup_put]

/-- A decrement from the end drops the newest stamps. -/
theorem lookup_decrementSlidingFromEnd (cost : ℕ) :
    (decrementSlidingFromEnd key cost t).state.lookup k =
      if k = key then
        slidingAfterDecrement (fun stamps => stamps.take (stamps.length - cost))
          (t.state.lookup key)
      else t.state.lookup k := by
  unfold decrementSlidingFromEnd slidingAfterDecrement
  cases he : t.state.lookup key with
  | none =>
    by_cases hk : k = key
    · subst hk
      simpa using he
    · simp [hk]
  | some cur =>
    by_cases hs : cur.stamps = []
    · by_cases hk : k = key
      · subst hk
        simpa [hs] using he
      · simp [hs, hk]
    · by_cases hd : cur.stamps.take (cur.stamps.length - cost) = []
      · simp only [hs, hd, if_true, if_false, KeyTable.lookup_drop]
      · simp only [hs, hd, if_false, KeyTable.lookup_put]

/-- A read leaves every key's stamps in place when no wall expiry is set. -/
theorem lookup_getSlidingReadOnly (hwall : ∀ s ∈ t.state.lookup key, s.wallExpiresAt = none) :
    (getSlidingReadOnly o now key t).1.state.lookup k = t.state.lookup k := by
  simp only [getSlidingReadOnly, clearSlidingWallExpiry_of_none now key t hwall]
  split
  · rfl
  · split
    · rfl
    · exact KeyTable.lookup_touchKey _ _ _

/-- What a read answers: nothing without a live stamp, else the figures of the live ones. -/
theorem getSlidingReadOnly_snd (hwall : ∀ s ∈ t.state.lookup key, s.wallExpiresAt = none) :
    (getSlidingReadOnly o now key t).2 =
      match liveStamps o now (stampsOf (t.state.lookup key)) with
      | [] => none
      | oldest :: rest => some (RateLimitResult.ofUsage (oldest :: rest).length o.maxRequests
          (oldest + o.windowMs)) := by
  simp only [getSlidingReadOnly, clearSlidingWallExpiry_of_none now key t hwall,
    WindowOptions.cap_none]
  cases he : t.state.lookup key with
  | none => rfl
  | some s =>
    simp only [stampsOf_some]
    cases liveStamps o now s.stamps <;> rfl

/-- A purge keeps the live stamps of every key. -/
theorem stampsOf_purgeSliding (hwall : ∀ s ∈ t.state.lookup k, s.wallExpiresAt = none) :
    stampsOf ((purgeSliding o now t).state.lookup k) =
      liveStamps o now (stampsOf (t.state.lookup k)) := by
  simp only [purgeSliding, KeyTable.lookup_purge]
  cases he : t.state.lookup k with
  | none => rfl
  | some s =>
    have hw : s.wallExpiresAt = none := hwall s he
    simp only [Option.bind_some, hw, stampsOf_some]
    cases liveStamps o now s.stamps <;> simp

/-- A purge sets no wall expiry. -/
theorem wall_purgeSliding (hwall : ∀ s ∈ t.state.lookup k, s.wallExpiresAt = none) :
    ∀ s ∈ (purgeSliding o now t).state.lookup k, s.wallExpiresAt = none := by
  simp only [purgeSliding, KeyTable.lookup_purge]
  cases he : t.state.lookup k with
  | none => simp
  | some s =>
    have hw : s.wallExpiresAt = none := hwall s he
    simp only [Option.bind_some, hw]
    cases liveStamps o now s.stamps <;> simp

end Sliding

/-! ## Fixed window -/

section Fixed

variable (o : WindowOptions) (now : ℤ) (key k : κ) (t : KeyTable κ FixedEntry)

/-- The slice an increment leaves: the running one with the cost added, or a new one. -/
def fixedAfterIncrement (cost : ℕ) : Option FixedEntry → FixedEntry
  | none => ⟨cost, now + o.windowMs⟩
  | some e => if e.resetTime ≤ now then ⟨cost, now + o.windowMs⟩ else ⟨e.count + cost, e.resetTime⟩

/-- The slice a decrement leaves, none when nothing is left of its count. -/
def fixedAfterDecrement (cost : ℕ) : Option FixedEntry → Option FixedEntry
  | none => none
  | some e =>
    if e.count ≤ 0 then some e
    else if e.count - cost ≤ 0 then none
    else some ⟨e.count - cost, e.resetTime⟩

/-- A fixed increment changes the entry of its key alone. -/
theorem lookup_incrementFixed (maxOverride : Option JsNumber) (cost : ℕ)
    (hroom : t.HasRoom key) :
    (incrementFixed o now key maxOverride cost t).1.state.lookup k =
      if k = key then some (fixedAfterIncrement o now cost (t.state.lookup key))
      else t.state.lookup k := by
  unfold incrementFixed fixedAfterIncrement
  cases he : t.state.lookup key with
  | none =>
    simp only [KeyTable.ensureRoomForNewKey_of_hasRoom _ hroom, KeyTable.lookup_put_dropForLru]
  | some e =>
    by_cases hexp : e.resetTime ≤ now
    · simp only [hexp, if_true, KeyTable.lookup_put_dropForLru]
    · simp only [hexp, if_false, KeyTable.lookup_put_dropForLru]

/-- Without room an increment evicts other keys at most. -/
theorem lookup_incrementFixed_of_ne (maxOverride : Option JsNumber) (cost : ℕ) (hk : k ≠ key) :
    (incrementFixed o now key maxOverride cost t).1.state.lookup k = t.state.lookup k ∨
      (incrementFixed o now key maxOverride cost t).1.state.lookup k = none := by
  unfold incrementFixed
  cases he : t.state.lookup key with
  | none =>
    simp only [KeyTable.lookup_put_dropForLru, if_neg hk]
    exact KeyTable.lookup_ensureRoomForNewKey _ _ _ _
  | some e =>
    by_cases hexp : e.resetTime ≤ now
    · simp only [hexp, if_true, KeyTable.lookup_put_dropForLru, if_neg hk]
      exact Or.inl trivial
    · simp only [hexp, if_false, KeyTable.lookup_put_dropForLru, if_neg hk]
      exact Or.inl trivial

/-- The slice an increment leaves, with or without room. -/
theorem lookup_incrementFixed_self (maxOverride : Option JsNumber) (cost : ℕ) :
    (incrementFixed o now key maxOverride cost t).1.state.lookup key =
      some (fixedAfterIncrement o now cost (t.state.lookup key)) := by
  unfold incrementFixed fixedAfterIncrement
  cases he : t.state.lookup key with
  | none => simp only [KeyTable.lookup_put_dropForLru, if_true]
  | some e =>
    by_cases hexp : e.resetTime ≤ now
    · simp only [hexp, if_true, KeyTable.lookup_put_dropForLru]
    · simp only [hexp, if_false, if_true, KeyTable.lookup_put_dropForLru]

/-- The figures an increment answers with are those of the slice it leaves. -/
theorem incrementFixed_snd (maxOverride : Option JsNumber) (cost : ℕ) :
    (incrementFixed o now key maxOverride cost t).2 =
      let e := fixedAfterIncrement o now cost (t.state.lookup key)
      RateLimitResult.ofUsage e.count (o.cap maxOverride) e.resetTime := by
  unfold incrementFixed fixedAfterIncrement
  cases he : t.state.lookup key with
  | none => rfl
  | some e =>
    by_cases hexp : e.resetTime ≤ now
    · simp only [hexp, if_true]
    · simp only [hexp, if_false]

/-- So does a fixed decrement. -/
theorem lookup_decrementFixed (cost : ℕ) :
    (decrementFixed key cost t).state.lookup k =
      if k = key then fixedAfterDecrement cost (t.state.lookup key) else t.state.lookup k := by
  unfold decrementFixed fixedAfterDecrement
  cases he : t.state.lookup key with
  | none =>
    by_cases hk : k = key
    · subst hk
      simpa using he
    · simp [hk]
  | some e =>
    by_cases hc : e.count ≤ 0
    · by_cases hk : k = key
      · subst hk
        simpa [hc] using he
      · simp [hc, hk]
    · by_cases hz : e.count - cost ≤ 0
      · simp only [hc, hz, if_true, if_false, KeyTable.lookup_drop]
      · simp only [hc, hz, if_false, KeyTable.lookup_put]

end Fixed

/-! ## Token bucket -/

section Bucket

variable (o : TokenBucketOptions) (now : ℤ) (key k : κ) (t : KeyTable κ BucketEntry)

/-- The store's refill is the bucket's. -/
theorem refillBucketStateForNow_eq (b : BucketEntry) :
    refillBucketStateForNow o now b = b.refill o now := rfl

/-- The bucket an increment starts from: the stored one, or a full one made now. -/
def startBucket (e : Option BucketEntry) : BucketEntry := e.getD (Bucket.full o now)

/-- The figures of a request's outcome. -/
def bucketResult (q : Bucket × Bool) : RateLimitResult :=
  if q.2 then
    { totalHits := o.bucketSize - q.1.tokens
      remaining := q.1.tokens
      resetTime := q.1.lastRefill + o.interval
      isBlocked := false }
  else
    { totalHits := o.bucketSize
      remaining := 0
      resetTime := q.1.lastRefill + o.interval
      isBlocked := true }

/-- A bucket blocks what it does not consume. -/
@[simp] theorem isBlocked_bucketResult (q : Bucket × Bool) :
    (bucketResult o q).isBlocked = !q.2 := by
  obtain ⟨b, ok⟩ := q
  cases ok <;> rfl

/-- An increment of a key with a bucket makes a request to it. -/
theorem incrementTokenBucket_of_some (cost : ℕ) {b : BucketEntry}
    (he : t.state.lookup key = some b) :
    incrementTokenBucket o now key cost t =
      ((t.dropForLru key).put key (b.request o now cost).1,
        bucketResult o (b.request o now cost)) := by
  simp only [incrementTokenBucket, he, refillBucketStateForNow_eq]
  rcases le_or_gt (cost : ℤ) (b.refill o now).tokens with hc | hc
  · rw [Bucket.request_of_le o hc, if_pos hc]
    rfl
  · rw [Bucket.request_of_lt o hc, if_neg (not_le.mpr hc)]
    rfl

/-- An increment of a new key makes a request to a full bucket. -/
theorem incrementTokenBucket_of_none (cost : ℕ) (he : t.state.lookup key = none) :
    incrementTokenBucket o now key cost t =
      (((t.ensureRoomForNewKey (isBucketIdleFullPurgeable o now) key).dropForLru key).put key
          ((Bucket.full o now).request o now cost).1,
        bucketResult o ((Bucket.full o now).request o now cost)) := by
  have hfull : (⟨o.bucketSize, now⟩ : BucketEntry) = Bucket.full o now := rfl
  simp only [incrementTokenBucket, he, refillBucketStateForNow_eq, hfull]
  rcases le_or_gt (cost : ℤ) ((Bucket.full o now).refill o now).tokens with hc | hc
  · rw [Bucket.request_of_le o hc, if_pos hc]
    rfl
  · rw [Bucket.request_of_lt o hc, if_neg (not_le.mpr hc)]
    rfl

/-- An increment with room leaves the bucket its request leaves. -/
theorem lookup_incrementTokenBucket (cost : ℕ) (hroom : t.HasRoom key) :
    (incrementTokenBucket o now key cost t).1.state.lookup k =
      if k = key then
        some ((startBucket o now (t.state.lookup key)).request o now cost).1
      else t.state.lookup k := by
  cases he : t.state.lookup key with
  | none =>
    rw [incrementTokenBucket_of_none o now key t cost he,
      KeyTable.ensureRoomForNewKey_of_hasRoom _ hroom, KeyTable.lookup_put_dropForLru]
    rfl
  | some b =>
    rw [incrementTokenBucket_of_some o now key t cost he, KeyTable.lookup_put_dropForLru]
    rfl

/-- Without room an increment evicts other keys at most. -/
theorem lookup_incrementTokenBucket_of_ne (cost : ℕ) (hk : k ≠ key) :
    (incrementTokenBucket o now key cost t).1.state.lookup k = t.state.lookup k ∨
      (incrementTokenBucket o now key cost t).1.state.lookup k = none := by
  cases he : t.state.lookup key with
  | none =>
    rw [incrementTokenBucket_of_none o now key t cost he, KeyTable.lookup_put_dropForLru,
      if_neg hk]
    exact KeyTable.lookup_ensureRoomForNewKey _ _ _ _
  | some b =>
    rw [incrementTokenBucket_of_some o now key t cost he, KeyTable.lookup_put_dropForLru,
      if_neg hk]
    exact Or.inl rfl

/-- The bucket an increment leaves, with or without room. -/
theorem lookup_incrementTokenBucket_self (cost : ℕ) :
    (incrementTokenBucket o now key cost t).1.state.lookup key =
      some ((startBucket o now (t.state.lookup key)).request o now cost).1 := by
  cases he : t.state.lookup key with
  | none =>
    rw [incrementTokenBucket_of_none o now key t cost he, KeyTable.lookup_put_dropForLru,
      if_pos rfl]
    rfl
  | some b =>
    rw [incrementTokenBucket_of_some o now key t cost he, KeyTable.lookup_put_dropForLru,
      if_pos rfl]
    rfl

/-- An increment answers with the figures of its request. -/
theorem incrementTokenBucket_snd (cost : ℕ) :
    (incrementTokenBucket o now key cost t).2 =
      bucketResult o ((startBucket o now (t.state.lookup key)).request o now cost) := by
  cases he : t.state.lookup key with
  | none => rw [incrementTokenBucket_of_none o now key t cost he]; rfl
  | some b => rw [incrementTokenBucket_of_some o now key t cost he]; rfl

/-- A decrement gives tokens to a bucket that is there, up to its size. -/
theorem lookup_decrementTokenBucket (cost : ℕ) :
    (decrementTokenBucket o key cost t).state.lookup k =
      if k = key then (t.state.lookup key).map fun b =>
        ⟨min o.bucketSize (b.tokens + cost), b.lastRefill⟩
      else t.state.lookup k := by
  unfold decrementTokenBucket
  cases he : t.state.lookup key with
  | none =>
    by_cases hk : k = key
    · subst hk
      simpa using he
    · simp [hk]
  | some b => simp

/-- A read moves no tokens. -/
theorem lookup_getTokenBucketReadOnly :
    (getTokenBucketReadOnly o now key t).1.state.lookup k = t.state.lookup k := by
  unfold getTokenBucketReadOnly
  split
  · rfl
  · split
    · rfl
    · exact KeyTable.lookup_touchKey _ _ _

/-- A purge drops the buckets that are stored full and idle, and keeps the others. -/
theorem lookup_purgeBuckets :
    (purgeBuckets o now t).state.lookup k =
      (t.state.lookup k).filter fun b => !isBucketIdleFullPurgeable o now b := by
  simp only [purgeBuckets, KeyTable.lookup_purge]
  cases t.state.lookup k with
  | none => rfl
  | some b => cases h : isBucketIdleFullPurgeable o now b <;> simp [Option.filter, h]

end Bucket

/-! ## The store as one cell for each key -/

/-- What the store holds for one key, with the options it is read under. -/
inductive Cell where
  | sliding (o : WindowOptions) (e : Option SlidingKeyState)
  | fixed (o : WindowOptions) (e : Option FixedEntry)
  | bucket (o : TokenBucketOptions) (e : Option BucketEntry)

namespace Cell

/-- The key has an entry. -/
def isPresent : Cell → Bool
  | .sliding _ e => e.isSome
  | .fixed _ e => e.isSome
  | .bucket _ e => e.isSome

/-- An increment, on the cell alone. -/
def increment (now : ℤ) (options : RateLimitIncrementOptions) : Cell → Cell × RateLimitResult
  | .sliding o e =>
    let trimmed := liveStamps o now (stampsOf e) ++ List.replicate options.sanitizedCost now
    (.sliding o (some ⟨trimmed, none⟩),
      RateLimitResult.ofUsage trimmed.length (o.cap options.maxRequests)
        (trimmed.head?.getD now + o.windowMs))
  | .fixed o e =>
    let e := fixedAfterIncrement o now options.sanitizedCost e
    (.fixed o (some e), RateLimitResult.ofUsage e.count (o.cap options.maxRequests) e.resetTime)
  | .bucket o e =>
    let q := (startBucket o now e).request o now options.sanitizedCost
    (.bucket o (some q.1), bucketResult o q)

/-- A decrement, on the cell alone. -/
def decrement (options : RateLimitDecrementOptions) : Cell → Cell
  | .sliding o e =>
    if options.removeNewest then
      .sliding o (slidingAfterDecrement
        (fun stamps => stamps.take (stamps.length - options.sanitizedCost)) e)
    else .sliding o (slidingAfterDecrement (List.drop options.sanitizedCost) e)
  | .fixed o e => .fixed o (fixedAfterDecrement options.sanitizedCost e)
  | .bucket o e => .bucket o (e.map fun b =>
      ⟨min o.bucketSize (b.tokens + options.sanitizedCost), b.lastRefill⟩)

/-- The cell of a key that is not there. -/
def cleared : Cell → Cell
  | .sliding o _ => .sliding o none
  | .fixed o _ => .fixed o none
  | .bucket o _ => .bucket o none

/-- What increments make of a cell: stamps in order and not in the future, a positive
count, a bucket within its bounds. -/
def Wf (now : ℤ) : Cell → Prop
  | .sliding _ e => ∀ s ∈ e, s.wallExpiresAt = none ∧ s.stamps.Pairwise (· ≤ ·) ∧
      ∀ x ∈ s.stamps, x ≤ now
  | .fixed _ e => ∀ s ∈ e, 0 < s.count
  | .bucket o e => ∀ b ∈ e, b.Wf o now

/-- A cell without an entry is well formed. -/
theorem wf_cleared (now : ℤ) (x : Cell) : x.cleared.Wf now := by
  cases x <;> simp [cleared, Wf]

/-- A cell stays well formed as time passes. -/
theorem Wf.mono {now now' : ℤ} {x : Cell} (h : x.Wf now) (hn : now ≤ now') : x.Wf now' := by
  cases x with
  | sliding o e => exact fun s hs => ⟨(h s hs).1, (h s hs).2.1, fun y hy =>
      ((h s hs).2.2 y hy).trans hn⟩
  | fixed o e => exact h
  | bucket o e => exact fun b hb => (h b hb).mono hn

/-- The live stamps of a well-formed cell, in order and not in the future. -/
theorem Wf.liveStamps {o : WindowOptions} {e : Option SlidingKeyState} {now : ℤ}
    (h : (Cell.sliding o e).Wf now) :
    (liveStamps o now (stampsOf e)).Pairwise (· ≤ ·) ∧
      ∀ x ∈ RatelimitFlex.liveStamps o now (stampsOf e), x ≤ now := by
  cases e with
  | none => simp [RatelimitFlex.liveStamps]
  | some s =>
    obtain ⟨-, hsorted, hpast⟩ := h s rfl
    exact ⟨hsorted.sublist List.filter_sublist, fun x hx => hpast x (List.mem_of_mem_filter hx)⟩

/-- An increment keeps it so. -/
theorem Wf.increment {now now' : ℤ} {x : Cell} (h : x.Wf now) (hn : now ≤ now')
    (options : RateLimitIncrementOptions) : (x.increment now' options).1.Wf now' := by
  have h' := h.mono hn
  cases x with
  | sliding o e =>
    obtain ⟨hsorted, hpast⟩ := h'.liveStamps
    rintro _ ⟨⟩
    refine ⟨rfl, ?_, fun y hy => ?_⟩
    · refine List.pairwise_append.mpr ⟨hsorted, List.pairwise_replicate.mpr (Or.inr le_rfl), ?_⟩
      intro a ha b hb
      rw [List.eq_of_mem_replicate hb]
      exact hpast a ha
    · rcases List.mem_append.mp hy with hy | hy
      · exact hpast y hy
      · rw [List.eq_of_mem_replicate hy]
  | fixed o e =>
    have hcost := options.one_le_sanitizedCost
    rintro _ ⟨⟩
    cases e with
    | none =>
      simp only [fixedAfterIncrement]
      omega
    | some e =>
      have hpos := h e rfl
      simp only [fixedAfterIncrement]
      split
      · simp only
        omega
      · simp only
        omega
  | bucket o e =>
    rintro _ ⟨⟩
    have hstart : (startBucket o now' e).Wf o now' := by
      cases e with
      | none => exact Bucket.wf_full o now'
      | some b => exact h' b rfl
    exact hstart.request le_rfl _

end Cell

namespace MemoryStore

/-- The cell of a key. -/
def cell (k : κ) : MemoryStore κ → Cell
  | .sliding o t => .sliding o (t.state.lookup k)
  | .fixed o t => .fixed o (t.state.lookup k)
  | .bucket o t => .bucket o (t.state.lookup k)

/-- A store nothing has been done with. -/
def IsNew : MemoryStore κ → Prop
  | .sliding _ t => ∃ maxKeys, t = KeyTable.new maxKeys
  | .fixed _ t => ∃ maxKeys, t = KeyTable.new maxKeys
  | .bucket _ t => ∃ maxKeys, t = KeyTable.new maxKeys

/-- No `set` has left a wall expiry. -/
def NoWall : MemoryStore κ → Prop
  | .sliding _ t => ∀ k, ∀ s ∈ t.state.lookup k, s.wallExpiresAt = none
  | _ => True

variable {s : MemoryStore κ} {now : ℤ} {key : κ}

/-- With room an increment is an increment of the key's own cell. -/
theorem cell_increment (hwall : s.NoWall) (hroom : s.HasRoom key)
    (options : RateLimitIncrementOptions) (k : κ) :
    (s.increment now key options).1.cell k =
      if k = key then ((s.cell key).increment now options).1 else s.cell k := by
  cases s with
  | sliding o t =>
    simp only [increment, cell, Cell.increment,
      lookup_incrementSliding o now key k t _ _ (hwall key) hroom]
    split <;> rfl
  | fixed o t =>
    simp only [increment, cell, Cell.increment, lookup_incrementFixed o now key k t _ _ hroom]
    split <;> rfl
  | bucket o t =>
    simp only [increment, cell, Cell.increment, lookup_incrementTokenBucket o now key k t _ hroom]
    split <;> rfl

/-- With or without room an increment is one of the key's own cell. -/
theorem cell_increment_self (hwall : s.NoWall) (options : RateLimitIncrementOptions) :
    (s.increment now key options).1.cell key = ((s.cell key).increment now options).1 := by
  cases s with
  | sliding o t =>
    simp only [increment, cell, Cell.increment,
      lookup_incrementSliding_self o now key t _ _ (hwall key)]
  | fixed o t =>
    simp only [increment, cell, Cell.increment, lookup_incrementFixed_self o now key t]
  | bucket o t =>
    simp only [increment, cell, Cell.increment, lookup_incrementTokenBucket_self o now key t]

/-- An increment of another key leaves a cell, or evicts it. -/
theorem cell_increment_of_ne (hwall : s.NoWall) (now : ℤ) (options : RateLimitIncrementOptions)
    {k : κ} (hk : k ≠ key) :
    (s.increment now key options).1.cell k = s.cell k ∨
      (s.increment now key options).1.cell k = (s.cell k).cleared := by
  cases s with
  | sliding o t =>
    rcases lookup_incrementSliding_of_ne o now key k t options.maxRequests options.sanitizedCost hk
      (hwall key) with h | h
    · exact Or.inl (by simp only [increment, cell, h])
    · exact Or.inr (by simp only [increment, cell, h, Cell.cleared])
  | fixed o t =>
    rcases lookup_incrementFixed_of_ne o now key k t options.maxRequests options.sanitizedCost hk
      with h | h
    · exact Or.inl (by simp only [increment, cell, h])
    · exact Or.inr (by simp only [increment, cell, h, Cell.cleared])
  | bucket o t =>
    rcases lookup_incrementTokenBucket_of_ne o now key k t options.sanitizedCost hk with h | h
    · exact Or.inl (by simp only [increment, cell, h])
    · exact Or.inr (by simp only [increment, cell, h, Cell.cleared])

/-- Every cell is as increments make it. -/
def Wf (now : ℤ) (s : MemoryStore κ) : Prop := ∀ k, (s.cell k).Wf now

/-- A new store is well formed. -/
theorem IsNew.wf (h : s.IsNew) (now : ℤ) : s.Wf now := by
  intro k
  cases s with
  | sliding o t => obtain ⟨m, rfl⟩ := h; simp [cell, Cell.Wf]
  | fixed o t => obtain ⟨m, rfl⟩ := h; simp [cell, Cell.Wf]
  | bucket o t => obtain ⟨m, rfl⟩ := h; simp [cell, Cell.Wf]

/-- A well-formed store has no wall expiries. -/
theorem Wf.noWall (h : s.Wf now) : s.NoWall := by
  cases s with
  | sliding o t => exact fun k e he => (h k e he).1
  | fixed o t => trivial
  | bucket o t => trivial

/-- Increments keep every cell well formed, with or without evictions. -/
theorem Wf.increment {now' : ℤ} (h : s.Wf now) (hn : now ≤ now')
    (options : RateLimitIncrementOptions) : (s.increment now' key options).1.Wf now' := by
  intro k
  by_cases hk : k = key
  · subst hk
    rw [cell_increment_self h.noWall]
    exact (h k).increment hn options
  · rcases cell_increment_of_ne h.noWall now' options hk with he | he
    · rw [he]
      exact (h k).mono hn
    · rw [he]
      exact Cell.wf_cleared now' _

/-- An increment answers from the cell of its key. -/
theorem increment_snd (hwall : s.NoWall) (options : RateLimitIncrementOptions) :
    (s.increment now key options).2 = ((s.cell key).increment now options).2 := by
  cases s with
  | sliding o t => exact incrementSliding_snd o now key t _ _ (hwall key)
  | fixed o t => exact incrementFixed_snd o now key t _ _
  | bucket o t => exact incrementTokenBucket_snd o now key t _

/-- A decrement changes the cell of its key alone. -/
theorem cell_decrement (options : RateLimitDecrementOptions) (k : κ) :
    (s.decrement key options).cell k =
      if k = key then (s.cell key).decrement options else s.cell k := by
  cases s with
  | sliding o t =>
    cases hn : options.removeNewest with
    | true =>
      simp only [decrement, cell, Cell.decrement, hn, if_true, lookup_decrementSlidingFromEnd]
      split <;> rfl
    | false =>
      simp only [decrement, cell, Cell.decrement, hn, Bool.false_eq_true, if_false,
        lookup_decrementSliding]
      split <;> rfl
  | fixed o t =>
    simp only [decrement, cell, Cell.decrement, lookup_decrementFixed]
    split <;> rfl
  | bucket o t =>
    simp only [decrement, cell, Cell.decrement, lookup_decrementTokenBucket]
    split <;> rfl

/-- An increment sets no wall expiry. -/
theorem NoWall.increment (hwall : s.NoWall) (hroom : s.HasRoom key)
    (options : RateLimitIncrementOptions) : (s.increment now key options).1.NoWall := by
  cases s with
  | sliding o t =>
    intro k e he
    rw [lookup_incrementSliding o now key k t _ _ (hwall key) hroom] at he
    split at he
    · obtain rfl := Option.some.inj he
      rfl
    · exact hwall k e he
  | fixed o t => trivial
  | bucket o t => trivial

/-- Nor does a decrement. -/
theorem NoWall.decrement (hwall : s.NoWall) (options : RateLimitDecrementOptions) :
    (s.decrement key options).NoWall := by
  cases s with
  | sliding o t =>
    cases hn : options.removeNewest with
    | true =>
      simp only [MemoryStore.decrement, hn, if_true]
      intro k
      rw [lookup_decrementSlidingFromEnd]
      split
      · exact wall_slidingAfterDecrement _ (hwall key)
      · exact hwall k
    | false =>
      simp only [MemoryStore.decrement, hn, Bool.false_eq_true, if_false]
      intro k
      rw [lookup_decrementSliding]
      split
      · exact wall_slidingAfterDecrement _ (hwall key)
      · exact hwall k
  | fixed o t => trivial
  | bucket o t => trivial

end MemoryStore

/-- A key that is there needs no room. -/
theorem hasRoom_of_isPresent {s : MemoryStore κ} {key : κ} (h : (s.cell key).isPresent = true) :
    s.HasRoom key := by
  cases s with
  | sliding o t => exact Or.inr (Or.inl (AList.lookup_isSome.mp h))
  | fixed o t => exact Or.inr (Or.inl (AList.lookup_isSome.mp h))
  | bucket o t => exact Or.inr (Or.inl (AList.lookup_isSome.mp h))

end RatelimitFlex
