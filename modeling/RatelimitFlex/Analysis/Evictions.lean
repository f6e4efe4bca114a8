import RatelimitFlex.Analysis.StoreOrder

/-!
# Evictions go in the order of last uses

Every operation of `MemoryStore` appends its `onEvict` calls to those before it.  Seen one by
one (`EvictedInTurn`), a key that goes for the LRU rule is the first of those present and not
expired, and one that goes as expired is.  The order of the keys present is that of their last
touches, for every strategy (`keys_step_touch`, `keys_step_sublist`).
-/

set_option autoImplicit false

namespace RatelimitFlex

open Library RecencyOrder

variable {κ : Type} [DecidableEq κ]

/-! ## Keys that go in turn -/

/-- The keys go one by one from those present, oldest first: by the LRU rule goes the first,
when it is not expired, and as expired a key that is. -/
def EvictedInTurn (expired : κ → Bool) : List κ → List (κ × EvictReason) → Prop
  | _, [] => True
  | present, (key, reason) :: rest =>
    key ∈ present ∧ (reason = .lruCap → present.head? = some key) ∧
      (reason = .expired ↔ expired key = true) ∧
      EvictedInTurn expired (present.erase key) rest

section InTurn

variable {expired : κ → Bool} {present : List κ}

/-- Whether keys are evicted in turn depends on the present ones alone. -/
theorem evictedInTurn_congr {expired' : κ → Bool} (h : ∀ k ∈ present, expired k = expired' k)
    {gone : List (κ × EvictReason)} (hgone : EvictedInTurn expired present gone) :
    EvictedInTurn expired' present gone := by
  induction gone generalizing present with
  | nil => trivial
  | cons p gone ih =>
    obtain ⟨hmem, hhead, hexp, hrest⟩ := hgone
    refine ⟨hmem, hhead, ?_, ih (fun k hk => h k (List.mem_of_mem_erase hk)) hrest⟩
    rw [← h p.1 hmem]
    exact hexp

/-- The first keys go, each for what it is. -/
theorem evictedInTurn_take {ε : Type} {f : ε → Bool} {l : List (Sigma fun _ : κ => ε)}
    (h : ∀ e ∈ l, expired e.1 = f e.2) (n : ℕ) :
    EvictedInTurn expired l.keys
      ((l.take n).map fun e => (e.1, if f e.2 then .expired else .lruCap)) := by
  induction l generalizing n with
  | nil =>
    rw [List.take_nil]
    trivial
  | cons e l ih =>
    cases n with
    | zero => trivial
    | succ n =>
      have hhead := h e List.mem_cons_self
      refine ⟨List.mem_cons_self, fun _ => rfl, ?_, ?_⟩
      · rw [hhead]
        cases f e.2 <;> simp
      · rw [List.keys_cons, List.erase_cons_head]
        exact ih (fun e' he' => h e' (List.mem_cons_of_mem e he')) n

/-- Keys that are expired may go in any order. -/
theorem evictedInTurn_expired {l : List κ} (hnd : l.Nodup)
    (h : ∀ k ∈ l, k ∈ present ∧ expired k = true) :
    EvictedInTurn expired present (l.map fun k => (k, .expired)) := by
  induction l generalizing present with
  | nil => trivial
  | cons k l ih =>
    obtain ⟨hnot, hnd⟩ := List.nodup_cons.mp hnd
    obtain ⟨hmem, hexp⟩ := h k List.mem_cons_self
    refine ⟨hmem, ?_, ?_, ih hnd fun j hj => ?_⟩
    · exact fun hlru => EvictReason.noConfusion hlru
    · exact ⟨fun _ => hexp, fun _ => rfl⟩
    · obtain ⟨hj', hexp'⟩ := h j (List.mem_cons_of_mem k hj)
      have hne : j ≠ k := by
        rintro rfl
        exact hnot hj
      exact ⟨(List.mem_erase_of_ne hne).mpr hj', hexp'⟩

end InTurn

/-! ## The evictions of a table -/

namespace KeyTable

variable {ε : Type} {key k : κ} {t : KeyTable κ ε} {f : ε → Bool}

/-- A write evicts nothing. -/
@[simp] theorem evictions_put (e : ε) : (t.put key e).evictions = t.evictions := rfl

/-- A drop by itself is not counted as an eviction. -/
@[simp] theorem evictions_drop : (t.drop key).evictions = t.evictions := rfl

/-- Nor is the drop before a write in recency order. -/
@[simp] theorem evictions_dropForLru : (t.dropForLru key).evictions = t.evictions := by
  unfold dropForLru
  split <;> rfl

/-- Touching a key evicts nothing. -/
@[simp] theorem evictions_touchKey : (t.touchKey key).evictions = t.evictions := by
  unfold touchKey
  split <;> rfl

omit [DecidableEq κ] in
/-- A full table evicts its oldest keys, for the reason each has. -/
theorem evictWhileFull_snd (f : ε → Bool) (maxKeys : ℕ) (l : List (Sigma fun _ : κ => ε)) :
    (evictWhileFull f maxKeys l).2 = (l.take (l.length + 1 - maxKeys)).map
      fun e => (e.1, if f e.2 then .expired else .lruCap) := by
  induction l with
  | nil =>
    rw [List.take_nil]
    rfl
  | cons e rest ih =>
    rw [evictWhileFull]
    by_cases h : maxKeys ≤ rest.length + 1
    · have hd : (e :: rest).length + 1 - maxKeys = (rest.length + 1 - maxKeys) + 1 := by
        rw [List.length_cons]
        omega
      rw [if_pos h, hd, List.take_succ_cons, List.map_cons, ← ih]
    · have hd : (e :: rest).length + 1 - maxKeys = 0 := by
        rw [List.length_cons]
        omega
      rw [if_neg h, hd]
      rfl

/-- The keys whose entry is expired. -/
def expires (f : ε → Bool) (t : KeyTable κ ε) (k : κ) : Bool := (t.state.lookup k).any f

/-- Whether a key is expired is whether its entry is. -/
theorem expires_of_mem {e : Sigma fun _ : κ => ε} (h : e ∈ t.state.entries) :
    t.expires f e.1 = f e.2 := by
  have hlookup : t.state.lookup e.1 = some e.2 := AList.mem_lookup_iff.mpr h
  rw [expires, hlookup]
  rfl

/-- What made room went in turn. -/
def Evicts (f : ε → Bool) (t t' : KeyTable κ ε) : Prop :=
  ∃ gone, t'.evictions = t.evictions ++ gone ∧ EvictedInTurn (t.expires f) t.state.keys gone

/-- What counts no eviction evicts nothing. -/
theorem Evicts.of_eq {t' : KeyTable κ ε} (h : t'.evictions = t.evictions) : Evicts f t t' :=
  ⟨[], by rw [h, List.append_nil], trivial⟩

/-- Making room evicts the oldest keys. -/
theorem evicts_ensureRoomForNewKey (f : ε → Bool) (key : κ) (t : KeyTable κ ε) :
    Evicts f t (t.ensureRoomForNewKey f key) := by
  unfold ensureRoomForNewKey
  split
  · exact .of_eq rfl
  · refine ⟨_, rfl, ?_⟩
    rw [evictWhileFull_snd]
    exact evictedInTurn_take (fun e he => expires_of_mem he) _

/-- When no key goes by the LRU rule, making room keeps an entry or drops an expired one. -/
theorem lookup_ensureRoomForNewKey_expired
    (h : (k, .lruCap) ∉ (t.ensureRoomForNewKey f key).evictions) :
    (t.ensureRoomForNewKey f key).state.lookup k = t.state.lookup k ∨
      (t.ensureRoomForNewKey f key).state.lookup k = none ∧
        ∀ e ∈ t.state.lookup k, f e = true := by
  refine (lookup_ensureRoomForNewKey f key k t).imp_right fun hnone => ⟨hnone, fun e he => ?_⟩
  have hmem : (⟨k, e⟩ : Sigma fun _ : κ => ε) ∈ t.state.entries := AList.mem_lookup_iff.mp he
  revert h hnone
  unfold ensureRoomForNewKey
  split
  · intro _ hnone
    rw [hnone] at he
    exact absurd he (Option.not_mem_none e)
  · intro h hnone
    simp only [evictWhileFull_snd] at h
    -- the entry is not among those left, so it is among those gone
    have hleft : (⟨k, e⟩ : Sigma fun _ : κ => ε) ∉
        t.state.entries.drop (t.state.entries.length + 1 - t.maxKeys) := by
      rw [← evictWhileFull_eq_drop f]
      intro hin
      have hnot := AList.lookup_eq_none.mp hnone
      exact hnot (AList.mem_keys.mpr (List.mem_keys_of_mem hin))
    rw [← List.take_append_drop (t.state.entries.length + 1 - t.maxKeys) t.state.entries] at hmem
    have hgone := (List.mem_append.mp hmem).resolve_right hleft
    by_contra hf
    refine h (List.mem_append_right _ (List.mem_map.mpr ⟨⟨k, e⟩, hgone, ?_⟩))
    simp [hf]

/-- A key that is dropped as expired, then what makes room without it. -/
theorem Evicts.of_drop {t' : KeyTable κ ε} {e : ε} (he : t.state.lookup key = some e)
    (hf : f e = true)
    (h : Evicts f { t.drop key with evictions := t.evictions ++ [(key, .expired)] } t') :
    Evicts f t t' := by
  obtain ⟨gone, hgone, hturn⟩ := h
  refine ⟨(key, .expired) :: gone, ?_, ?_, ?_, ?_, ?_⟩
  · rw [hgone, List.append_assoc]
    rfl
  · exact AList.mem_keys.mp (AList.lookup_isSome.mp (by rw [he]; rfl))
  · exact fun hlru => EvictReason.noConfusion hlru
  · rw [expires, he]
    exact ⟨fun _ => hf, fun _ => rfl⟩
  · rw [← keys_drop]
    refine evictedInTurn_congr (fun k hk => ?_) hturn
    have hne : k ≠ key := by
      rintro rfl
      rw [keys_drop] at hk
      exact t.state.nodupKeys.not_mem_erase hk
    unfold expires
    rw [show ({ t.drop key with evictions := t.evictions ++ [(key, .expired)] } :
      KeyTable κ ε).state.lookup k = (t.drop key).state.lookup k from rfl, lookup_drop, if_neg hne]

/-- The keys that a sweep drops. -/
def purged (g : ε → Option ε) (t : KeyTable κ ε) : List κ :=
  (t.state.entries.filter fun e => (g e.2).isNone).map Sigma.fst

omit [DecidableEq κ] in
/-- A purge evicts what it purges, as expired. -/
theorem evictions_purge (g : ε → Option ε) (t : KeyTable κ ε) :
    (t.purge g).evictions = t.evictions ++ (t.purged g).map fun k => (k, .expired) := by
  rw [purged, List.map_map]
  rfl

omit [DecidableEq κ] in
/-- It evicts no key twice. -/
theorem nodup_purged (g : ε → Option ε) (t : KeyTable κ ε) : (t.purged g).Nodup :=
  (List.filter_sublist.map Sigma.fst).nodup t.state.nodupKeys

/-- A purged key had an entry that the purge drops. -/
theorem mem_purged {g : ε → Option ε} (h : k ∈ t.purged g) :
    ∃ e, t.state.lookup k = some e ∧ g e = none := by
  obtain ⟨⟨k', e⟩, he, rfl⟩ := List.mem_map.mp h
  obtain ⟨hmem, hnone⟩ := List.mem_filter.mp he
  exact ⟨e, AList.mem_lookup_iff.mpr hmem, Option.isNone_iff_eq_none.mp hnone⟩

/-- A sweep that drops only what is expired. -/
theorem evicts_purge {g : ε → Option ε} (h : ∀ e, g e = none → f e = true) (t : KeyTable κ ε) :
    Evicts f t (t.purge g) := by
  refine ⟨_, evictions_purge g t, evictedInTurn_expired (nodup_purged g t) fun k hk => ?_⟩
  obtain ⟨e, he, hnone⟩ := mem_purged hk
  constructor
  · exact AList.mem_keys.mp (AList.lookup_isSome.mp (by rw [he]; rfl))
  · rw [expires, he]
    exact h e hnone

/-- Two sweeps, one after the other, that drop only what is expired. -/
theorem evicts_purge_purge {g g' : ε → Option ε} (h : ∀ e, g e = none → f e = true)
    (h' : ∀ e e', g e = some e' → g' e' = none → f e = true) (t : KeyTable κ ε) :
    Evicts f t ((t.purge g).purge g') := by
  refine ⟨(t.purged g ++ (t.purge g).purged g').map fun k => (k, .expired), ?_,
    evictedInTurn_expired ?_ fun k hk => ?_⟩
  · rw [evictions_purge, evictions_purge, List.map_append, List.append_assoc]
  · refine List.nodup_append.mpr ⟨nodup_purged g t, nodup_purged g' _, ?_⟩
    rintro a ha _ hb rfl
    obtain ⟨e, he, hnone⟩ := mem_purged ha
    obtain ⟨e', he', -⟩ := mem_purged hb
    rw [lookup_purge, he, Option.bind_some, hnone] at he'
    exact absurd he' (Option.some_ne_none e').symm
  · rcases List.mem_append.mp hk with hk | hk
    · obtain ⟨e, he, hnone⟩ := mem_purged hk
      refine ⟨AList.mem_keys.mp (AList.lookup_isSome.mp (by rw [he]; rfl)), ?_⟩
      rw [expires, he]
      exact h e hnone
    · obtain ⟨e', he', hnone⟩ := mem_purged hk
      rw [lookup_purge] at he'
      obtain ⟨e, he, hge⟩ := Option.bind_eq_some_iff.mp he'
      refine ⟨AList.mem_keys.mp (AList.lookup_isSome.mp (by rw [he]; rfl)), ?_⟩
      rw [expires, he]
      exact h' e e' hge hnone

end KeyTable

/-! ## The evictions of a store -/

/-- SOURCE: src/stores/memory-store.ts:587-612 -/
def Cell.isEntryExpired (now : ℤ) : Cell → Bool
  | .sliding o e => e.any (slidingExpired o now)
  | .fixed _ e => e.any (fixedExpired now)
  | .bucket o e => e.any (isBucketIdleFullPurgeable o now)

namespace MemoryStore

/-- The `onEvict` calls so far. -/
def evictions : MemoryStore κ → List (κ × EvictReason)
  | .sliding _ t => t.evictions
  | .fixed _ t => t.evictions
  | .bucket _ t => t.evictions

section Sliding

variable (o : WindowOptions) (now : ℤ) (key : κ) (t : KeyTable κ SlidingKeyState)

/-- A wall expiry that has passed makes the entry expired, whatever its stamps. -/
theorem evicts_clearSlidingWallExpiry {t' : KeyTable κ SlidingKeyState}
    (h : KeyTable.Evicts (slidingExpired o now) (clearSlidingWallExpiryIfExpired now key t) t') :
    KeyTable.Evicts (slidingExpired o now) t t' := by
  revert h
  unfold clearSlidingWallExpiryIfExpired
  split
  · next stamps w hlookup =>
    split
    · next hw =>
      intro h
      have hmem : key ∈ t.state := AList.lookup_isSome.mp (by rw [hlookup]; rfl)
      refine .of_drop hlookup ?_ ?_
      · simp [slidingExpired, hw]
      · unfold KeyTable.deleteKeyData at h
        rw [if_pos hmem] at h
        exact h
    · exact id
  · exact id

/-- A sliding increment evicts in turn. -/
theorem evicts_incrementSliding (maxOverride : Option JsNumber) (cost : ℕ) :
    KeyTable.Evicts (slidingExpired o now) t (incrementSliding o now key maxOverride cost t).1 := by
  apply evicts_clearSlidingWallExpiry o now key t
  simp only [incrementSliding]
  cases (clearSlidingWallExpiryIfExpired now key t).state.lookup key with
  | none =>
    rw [KeyTable.Evicts, KeyTable.evictions_put]
    exact KeyTable.evicts_ensureRoomForNewKey _ key _
  | some e => exact .of_eq rfl

/-- So does a sliding `get`. -/
theorem evicts_getSliding :
    KeyTable.Evicts (slidingExpired o now) t (getSlidingReadOnly o now key t).1 := by
  apply evicts_clearSlidingWallExpiry o now key t
  simp only [getSlidingReadOnly]
  split
  · exact .of_eq rfl
  · split
    · exact .of_eq rfl
    · exact .of_eq KeyTable.evictions_touchKey

/-- The second sweep sees what the first left as it was. -/
theorem evicts_purgeSliding :
    KeyTable.Evicts (slidingExpired o now) t (purgeSliding o now t) := by
  unfold purgeSliding
  refine KeyTable.evicts_purge_purge (fun s hs => ?_) (fun s s' hs hs' => ?_) t
  · obtain ⟨stamps, wall⟩ := s
    cases wall with
    | none => exact absurd hs (Option.some_ne_none _)
    | some w =>
      simp only at hs
      split at hs
      · next hw => simp [slidingExpired, hw]
      · exact absurd hs (Option.some_ne_none _)
  · have heq : s' = s := by
      obtain ⟨stamps, wall⟩ := s
      cases wall with
      | none => exact (Option.some.inj hs).symm
      | some w =>
        simp only at hs
        split at hs
        · exact absurd hs.symm (Option.some_ne_none s')
        · exact (Option.some.inj hs).symm
    subst heq
    split at hs'
    · next hnil =>
      rw [liveStamps, List.filter_eq_nil_iff] at hnil
      simp only [slidingExpired, Bool.or_eq_true, List.all_eq_true, decide_eq_true_eq]
      refine Or.inr fun ts hts => ?_
      have hold := hnil ts hts
      simp only [decide_eq_true_eq] at hold
      omega
    · exact absurd hs' (Option.some_ne_none _)

end Sliding

/-- A decrement evicts nothing. -/
theorem evictions_decrement (key : κ) (options : RateLimitDecrementOptions) (s : MemoryStore κ) :
    (s.decrement key options).evictions = s.evictions := by
  cases s with
  | sliding o t =>
    simp only [decrement]
    split
    · simp only [evictions, decrementSlidingFromEnd]
      split
      · rfl
      · split
        · rfl
        · split <;> rfl
    · simp only [evictions, decrementSliding]
      split
      · rfl
      · split
        · rfl
        · split <;> rfl
  | fixed o t =>
    simp only [decrement, evictions, decrementFixed]
    split
    · rfl
    · split
      · rfl
      · split <;> rfl
  | bucket o t =>
    simp only [decrement, evictions, decrementTokenBucket]
    split <;> rfl

/-- What happens to the evictions of a store: those of its table. -/
theorem evicts_of_table {ε : Type} {f : ε → Bool} {t t' : KeyTable κ ε} {s s' : MemoryStore κ}
    {now : ℤ} (h : KeyTable.Evicts f t t') (he : s.evictions = t.evictions)
    (he' : s'.evictions = t'.evictions) (hkeys : s.keys = t.state.keys)
    (hexp : ∀ k, (s.cell k).isEntryExpired now = t.expires f k) :
    ∃ gone, s'.evictions = s.evictions ++ gone ∧
      EvictedInTurn (fun k => (s.cell k).isEntryExpired now) s.keys gone := by
  obtain ⟨gone, hgone, hturn⟩ := h
  refine ⟨gone, by rw [he', he, hgone], ?_⟩
  rw [hkeys]
  exact evictedInTurn_congr (fun k _ => (hexp k).symm) hturn

/-- An increment evicts in turn. -/
theorem evicts_increment (now : ℤ) (key : κ) (options : RateLimitIncrementOptions)
    (s : MemoryStore κ) :
    ∃ gone, (s.increment now key options).1.evictions = s.evictions ++ gone ∧
      EvictedInTurn (fun k => (s.cell k).isEntryExpired now) s.keys gone := by
  cases s with
  | sliding o t =>
    exact evicts_of_table (evicts_incrementSliding o now key t _ _) rfl rfl rfl fun _ => rfl
  | fixed o t =>
    have h : KeyTable.Evicts (fixedExpired now) t
        (incrementFixed o now key options.maxRequests options.sanitizedCost t).1 := by
      unfold incrementFixed
      cases t.state.lookup key with
      | none =>
        simp only [KeyTable.Evicts, KeyTable.evictions_put, KeyTable.evictions_dropForLru]
        exact KeyTable.evicts_ensureRoomForNewKey _ key t
      | some e =>
        by_cases hexp : e.resetTime ≤ now
        · simp only [if_pos hexp]
          exact .of_eq KeyTable.evictions_dropForLru
        · simp only [if_neg hexp]
          exact .of_eq KeyTable.evictions_dropForLru
    exact evicts_of_table h rfl rfl rfl fun _ => rfl
  | bucket o t =>
    have h : KeyTable.Evicts (isBucketIdleFullPurgeable o now) t
        (incrementTokenBucket o now key options.sanitizedCost t).1 := by
      unfold incrementTokenBucket
      cases t.state.lookup key with
      | none =>
        have hroom := KeyTable.evicts_ensureRoomForNewKey (isBucketIdleFullPurgeable o now) key t
        simp only
        split
        · simp only [KeyTable.Evicts, KeyTable.evictions_put, KeyTable.evictions_dropForLru]
          exact hroom
        · simp only [KeyTable.Evicts, KeyTable.evictions_put, KeyTable.evictions_dropForLru]
          exact hroom
      | some b =>
        simp only
        split
        · exact .of_eq KeyTable.evictions_dropForLru
        · exact .of_eq KeyTable.evictions_dropForLru
    exact evicts_of_table h rfl rfl rfl fun _ => rfl

/-- So does a `set`. -/
theorem evicts_set (now : ℤ) (key : κ) (totalHits : ℤ) (expiresAt : Option ℤ)
    (s : MemoryStore κ) :
    ∃ gone, (s.set now key totalHits expiresAt).1.evictions = s.evictions ++ gone ∧
      EvictedInTurn (fun k => (s.cell k).isEntryExpired now) s.keys gone := by
  cases s with
  | sliding o t =>
    refine evicts_of_table (KeyTable.evicts_ensureRoomForNewKey (slidingExpired o now) key t) rfl
      ?_ rfl fun _ => rfl
    simp only [set, setSliding, evictions, KeyTable.evictions_put, KeyTable.evictions_dropForLru]
  | fixed o t =>
    refine evicts_of_table (KeyTable.evicts_ensureRoomForNewKey (fixedExpired now) key t) rfl
      ?_ rfl fun _ => rfl
    simp only [set, setFixed, evictions, KeyTable.evictions_put, KeyTable.evictions_dropForLru]
  | bucket o t =>
    refine evicts_of_table (KeyTable.evicts_ensureRoomForNewKey (isBucketIdleFullPurgeable o now)
      key t) rfl ?_ rfl fun _ => rfl
    simp only [set, setTokenBucket, evictions, KeyTable.evictions_put,
      KeyTable.evictions_dropForLru]

/-- So does a `get`. -/
theorem evicts_get (now : ℤ) (key : κ) (s : MemoryStore κ) :
    ∃ gone, (s.get now key).1.evictions = s.evictions ++ gone ∧
      EvictedInTurn (fun k => (s.cell k).isEntryExpired now) s.keys gone := by
  cases s with
  | sliding o t =>
    exact evicts_of_table (evicts_getSliding o now key t) rfl rfl rfl fun _ => rfl
  | fixed o t =>
    refine ⟨[], ?_, trivial⟩
    simp only [get, evictions, getFixedReadOnly, List.append_nil]
    split
    · rfl
    · split
      · rfl
      · exact KeyTable.evictions_touchKey
  | bucket o t =>
    refine ⟨[], ?_, trivial⟩
    simp only [get, evictions, getTokenBucketReadOnly, List.append_nil]
    split
    · rfl
    · split
      · rfl
      · exact KeyTable.evictions_touchKey

/-- So does a purge. -/
theorem evicts_purgeExpired (now : ℤ) (s : MemoryStore κ) :
    ∃ gone, (s.purgeExpired now).evictions = s.evictions ++ gone ∧
      EvictedInTurn (fun k => (s.cell k).isEntryExpired now) s.keys gone := by
  cases s with
  | sliding o t =>
    exact evicts_of_table (evicts_purgeSliding o now t) rfl rfl rfl fun _ => rfl
  | fixed o t =>
    refine evicts_of_table (KeyTable.evicts_purge (f := fixedExpired now) (fun e he => ?_) t) rfl
      rfl rfl fun _ => rfl
    split at he
    · next hexp => exact decide_eq_true hexp
    · exact absurd he (Option.some_ne_none e)
  | bucket o t =>
    refine evicts_of_table (KeyTable.evicts_purge (f := isBucketIdleFullPurgeable o now)
      (fun b hb => ?_) t) rfl rfl rfl fun _ => rfl
    split at hb
    · next hexp => exact hexp
    · exact absurd hb (Option.some_ne_none b)

/-- **What an operation evicts goes in turn.** -/
theorem evicts_step (i : Timed (StoreOp κ)) (s : MemoryStore κ) :
    ∃ gone, (s.step i).1.evictions = s.evictions ++ gone ∧
      EvictedInTurn (fun k => (s.cell k).isEntryExpired i.time) s.keys gone := by
  obtain ⟨now, op⟩ := i
  cases op with
  | increment key options => exact evicts_increment now key options s
  | decrement key options =>
    refine ⟨[], ?_, trivial⟩
    rw [List.append_nil]
    exact evictions_decrement key options s
  | get key => exact evicts_get now key s
  | set key totalHits expiresAt => exact evicts_set now key totalHits expiresAt s
  | reset key => exact ⟨[], by cases s <;> exact (List.append_nil _).symm, trivial⟩
  | delete key => exact ⟨[], by cases s <;> exact (List.append_nil _).symm, trivial⟩
  | purgeExpired => exact evicts_purgeExpired now s

/-- Evictions stay on record. -/
theorem evictions_prefix_final (is : List (Timed (StoreOp κ))) (s : MemoryStore κ) :
    s.evictions <+: (final step is s).evictions := by
  induction is generalizing s with
  | nil => exact List.prefix_rfl
  | cons i is ih =>
    obtain ⟨gone, hgone, -⟩ := evicts_step i s
    have hone : s.evictions <+: (s.step i).1.evictions := ⟨gone, hgone.symm⟩
    exact hone.trans (ih (s.step i).1)

end MemoryStore

end RatelimitFlex
