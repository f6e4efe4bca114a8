import RatelimitFlex.Analysis.MetricsBalance
import RatelimitFlex.Library.TopRanked
import RatelimitFlex.Library.UntimedRun
import RatelimitFlex.Program.MetricsPipeline

/-!
# The hot keys of a snapshot

The map of hot keys counts the requests of an interval key by key, as long as there is room; then
the key with the fewest hits makes place for a new one, which starts at one.  So a figure is never
too high, and exact as long as no more keys were seen than there is room for: the hits are the
requests of the key (`HotKeysCount`), the blocks those of them that were answered so
(`AnswersCount`).  Of these the collector publishes the first few of the ranking
(`hot_keys_ranked`).
-/

set_option autoImplicit false

namespace RatelimitFlex

open Library

variable {ρ σ κ : Type} [DecidableEq κ]

/-! ## The map and the requests it has seen -/

/-- The map against the keys of the requests since it was last drained, one entry a request. -/
structure HotKeysCount (hotKeyMax : ℕ+) (seen : List κ)
    (hotKeys : InsertionMap κ HotKeyIntervalCounts) : Prop where
  bounded : HotKeysBounded hotKeyMax hotKeys
  pos : ∀ k c, hotKeys.lookup k = some c → 1 ≤ c.hits
  le_count : ∀ k c, hotKeys.lookup k = some c → c.hits ≤ seen.count k
  exact_count : seen.toFinset.card ≤ hotKeyMax → ∀ k ∈ seen, ∃ c, hotKeys.lookup k = some c ∧
    c.hits = seen.count k

/-- A drained map has seen nothing. -/
theorem hotKeysCount_empty (hotKeyMax : ℕ+) : HotKeysCount hotKeyMax ([] : List κ) ∅ where
  bounded := (balanced_empty hotKeyMax).hotKeys
  pos k c hc := absurd hc (by simp)
  le_count k c hc := absurd hc (by simp)
  exact_count _ k hk := absurd hk List.not_mem_nil

namespace HotKeysCount

variable {hotKeyMax : ℕ+} {seen : List κ} {m : MetricsCounters κ}

/-- As long as there is room, the keys of the map are the keys seen. -/
theorem size_eq (h : HotKeysCount hotKeyMax seen m.hotKeys)
    (hroom : seen.toFinset.card ≤ hotKeyMax) : m.hotKeys.size = seen.toFinset.card := by
  have hkeys : m.hotKeys.entries.keys.toFinset = seen.toFinset := by
    ext k
    rw [List.mem_toFinset, List.mem_toFinset]
    constructor
    · intro hk
      obtain ⟨c, hc⟩ :=
        Option.isSome_iff_exists.mp (AList.lookup_isSome.mpr (AList.mem_keys.mpr hk))
      exact List.count_pos_iff.mp ((h.pos k c hc).trans (h.le_count k c hc))
    · intro hk
      obtain ⟨c, hc, -⟩ := h.exact_count hroom k hk
      exact AList.mem_keys.mp (AList.lookup_isSome.mp (by rw [hc]; rfl))
  rw [← hkeys, List.toFinset_card_of_nodup m.hotKeys.nodupKeys, List.keys, List.length_map]
  rfl

/-- What is in the map was seen. -/
theorem mem_seen (h : HotKeysCount hotKeyMax seen m.hotKeys) {key : κ} {c : HotKeyIntervalCounts}
    (hc : m.hotKeys.lookup key = some c) : key ∈ seen :=
  List.count_pos_iff.mp ((h.pos key c hc).trans (h.le_count key c hc))

/-- Fewer keys were seen before. -/
theorem card_le_of_concat {key : κ} (h : (seen ++ [key]).toFinset.card ≤ hotKeyMax) :
    seen.toFinset.card ≤ hotKeyMax := by
  refine (Finset.card_le_card ?_).trans h
  rw [List.toFinset_append]
  exact Finset.subset_union_left

/-- A key that is in the map is hit once more. -/
theorem recordKey_present (h : HotKeysCount hotKeyMax seen m.hotKeys) {key : κ}
    {existing : HotKeyIntervalCounts} (hkey : m.hotKeys.lookup key = some existing) :
    HotKeysCount hotKeyMax (seen ++ [key])
      (m.hotKeys.set key { existing with hits := existing.hits + 1 }) := by
  have hmem : key ∈ m.hotKeys := AList.lookup_isSome.mp (by rw [hkey]; rfl)
  have hblocked := h.bounded.blocked_le_hits key existing hkey
  refine ⟨h.bounded.set key (Nat.le_succ_of_le hblocked) (.inl hmem), ?_, ?_, ?_⟩
  · intro k c hc
    rw [InsertionMap.lookup_set] at hc
    split at hc
    · obtain rfl := Option.some.inj hc
      exact Nat.succ_pos _
    · exact h.pos k c hc
  · intro k c hc
    rw [InsertionMap.lookup_set] at hc
    rw [List.count_append]
    split at hc
    · next hk =>
      subst hk
      obtain rfl := Option.some.inj hc
      rw [List.count_singleton_self]
      exact Nat.succ_le_succ (h.le_count k existing hkey)
    · exact (h.le_count k c hc).trans (Nat.le_add_right _ _)
  · intro hroom k hk
    have hexact := h.exact_count (card_le_of_concat hroom)
    rw [InsertionMap.lookup_set, List.count_append]
    split
    · next heq =>
      subst heq
      obtain ⟨c, hc, hhits⟩ := hexact k (h.mem_seen hkey)
      obtain rfl := Option.some.inj (hkey.symm.trans hc)
      exact ⟨_, rfl, by rw [List.count_singleton_self]; exact congrArg (· + 1) hhits⟩
    · next hne =>
      have hold : k ∈ seen := by
        rcases List.mem_append.mp hk with hk | hk
        · exact hk
        · exact absurd (List.mem_singleton.mp hk) hne
      rw [List.count_eq_zero.mpr (fun hk => hne (List.mem_singleton.mp hk)), Nat.add_zero]
      exact hexact k hold

/-- A new key starts at one, in a map that was not changed but for what it gave up. -/
theorem recordKey_new (h : HotKeysCount hotKeyMax seen m.hotKeys) {key : κ}
    (hkey : m.hotKeys.lookup key = none) {left : InsertionMap κ HotKeyIntervalCounts}
    (hleft : ∀ k c, left.lookup k = some c → m.hotKeys.lookup k = some c)
    (hbounded : HotKeysBounded hotKeyMax left) (hroom : left.size < hotKeyMax)
    (hall : (seen ++ [key]).toFinset.card ≤ hotKeyMax → left = m.hotKeys) :
    HotKeysCount hotKeyMax (seen ++ [key]) (left.set key { hits := 1, blocked := 0 }) := by
  refine ⟨hbounded.set key (Nat.zero_le _) (.inr hroom), ?_, ?_, ?_⟩
  · intro k c hc
    rw [InsertionMap.lookup_set] at hc
    split at hc
    · obtain rfl := Option.some.inj hc
      exact le_rfl
    · exact h.pos k c (hleft k c hc)
  · intro k c hc
    rw [InsertionMap.lookup_set] at hc
    rw [List.count_append]
    split at hc
    · next hk =>
      subst hk
      obtain rfl := Option.some.inj hc
      rw [List.count_singleton_self]
      exact Nat.le_add_left _ _
    · exact (h.le_count k c (hleft k c hc)).trans (Nat.le_add_right _ _)
  · intro hcard k hk
    have hexact := h.exact_count (card_le_of_concat hcard)
    rw [hall hcard, InsertionMap.lookup_set, List.count_append]
    split
    · next heq =>
      subst heq
      have hunseen : k ∉ seen := by
        intro hseen
        obtain ⟨c, hc, -⟩ := hexact k hseen
        rw [hkey] at hc
        cases hc
      exact ⟨_, rfl, by rw [List.count_eq_zero.mpr hunseen, List.count_singleton_self]⟩
    · next hne =>
      have hold : k ∈ seen := by
        rcases List.mem_append.mp hk with hk | hk
        · exact hk
        · exact absurd (List.mem_singleton.mp hk) hne
      rw [List.count_eq_zero.mpr (fun hk => hne (List.mem_singleton.mp hk)), Nat.add_zero]
      exact hexact k hold

/-- One more request for a key. -/
theorem recordKey (h : HotKeysCount hotKeyMax seen m.hotKeys) (key : κ) :
    HotKeysCount hotKeyMax (seen ++ [key]) (m.recordKey hotKeyMax key).hotKeys := by
  unfold MetricsCounters.recordKey
  cases hkey : m.hotKeys.lookup key with
  | some existing => exact h.recordKey_present hkey
  | none =>
    dsimp only
    split
    · next hroom =>
      exact h.recordKey_new hkey (fun k c hc => hc) h.bounded hroom fun _ => rfl
    · next hfull =>
      have hpos : 0 < m.hotKeys.size := lt_of_lt_of_le hotKeyMax.pos (not_lt.mp hfull)
      obtain ⟨minKey, hmem, hleast⟩ := MetricsCounters.exists_leastHit hpos
      rw [hleast]
      refine h.recordKey_new hkey (fun k c hc => ?_) (h.bounded.erase hmem)
        ((InsertionMap.size_erase_lt hmem).trans_le h.bounded.size_le) fun hcard => ?_
      · rw [InsertionMap.lookup_erase'] at hc
        split at hc
        · cases hc
        · exact hc
      · -- a full map has seen as many keys, and this one is new
        have hsize := h.size_eq (card_le_of_concat hcard)
        have hunseen : key ∉ seen := by
          intro hseen
          obtain ⟨c, hc, -⟩ := h.exact_count (card_le_of_concat hcard) key hseen
          rw [hkey] at hc
          cases hc
        have hmore : (seen ++ [key]).toFinset.card = seen.toFinset.card + 1 := by
          rw [List.toFinset_append, List.toFinset_cons, List.toFinset_nil, insert_empty_eq,
            Finset.union_comm, ← Finset.insert_eq, Finset.card_insert_of_notMem]
          rwa [List.mem_toFinset]
        omega

/-- A block is no request. -/
theorem recordKeyBlocked (h : HotKeysCount hotKeyMax seen m.hotKeys) {key : κ}
    {c : HotKeyIntervalCounts} (hc : m.hotKeys.lookup key = some c)
    (hspare : c.blocked < c.hits) :
    HotKeysCount hotKeyMax seen (m.recordKeyBlocked key).hotKeys := by
  obtain ⟨hotKeys, heq, hbounded⟩ := MetricsCounters.recordKeyBlocked_spec h.bounded hc hspare
  have hset : (m.recordKeyBlocked key).hotKeys =
      m.hotKeys.set key { c with blocked := c.blocked + 1 } := by
    unfold MetricsCounters.recordKeyBlocked
    rw [hc]
  have hhits : ∀ k c', (m.recordKeyBlocked key).hotKeys.lookup k = some c' →
      ∃ c'', m.hotKeys.lookup k = some c'' ∧ c'.hits = c''.hits := by
    intro k c' hc'
    rw [hset, InsertionMap.lookup_set] at hc'
    split at hc'
    · next hk =>
      subst hk
      obtain rfl := Option.some.inj hc'
      exact ⟨c, hc, rfl⟩
    · exact ⟨c', hc', rfl⟩
  refine ⟨by rw [heq]; exact hbounded, fun k c' hc' => ?_, fun k c' hc' => ?_,
    fun hroom k hk => ?_⟩
  · obtain ⟨c'', hc'', heq'⟩ := hhits k c' hc'
    rw [heq']
    exact h.pos k c'' hc''
  · obtain ⟨c'', hc'', heq'⟩ := hhits k c' hc'
    rw [heq']
    exact h.le_count k c'' hc''
  · obtain ⟨c'', hc'', hcount⟩ := h.exact_count hroom k hk
    rw [hset, InsertionMap.lookup_set]
    split
    · next heq' =>
      subst heq'
      obtain rfl := Option.some.inj (hc.symm.trans hc'')
      exact ⟨_, rfl, hcount⟩
    · exact ⟨c'', hc'', hcount⟩

end HotKeysCount

/-! ### The answers -/

/-- The exit is taken with a block. -/
def MetricsExit.blocks : MetricsExit → Bool
  | .skip => false
  | .allowlist => false
  | .policyBlock _ => true
  | .afterConsume out => out.isBlocked

/-- The map against the recorded answers, each with its key and whether it was a block. -/
structure AnswersCount (hotKeyMax : ℕ+) (answers : List (κ × Bool))
    (hotKeys : InsertionMap κ HotKeyIntervalCounts) : Prop where
  hits : HotKeysCount hotKeyMax (answers.map Prod.fst) hotKeys
  le_blocked : ∀ k c, hotKeys.lookup k = some c → c.blocked ≤ answers.count (k, true)
  exact_blocked : (answers.map Prod.fst).toFinset.card ≤ hotKeyMax →
    ∀ k c, hotKeys.lookup k = some c → c.blocked = answers.count (k, true)

/-- A drained map has no answers. -/
theorem answersCount_empty (hotKeyMax : ℕ+) : AnswersCount hotKeyMax ([] : List (κ × Bool)) ∅ where
  hits := hotKeysCount_empty hotKeyMax
  le_blocked k c hc := absurd hc (by simp)
  exact_blocked _ k c hc := absurd hc (by simp)

/-- A hit changes no block: the key's own are kept, or it comes with none. -/
theorem MetricsCounters.blocked_recordKey {hotKeyMax : ℕ+} {m : MetricsCounters κ} {key k : κ}
    {c : HotKeyIntervalCounts} (hc : (m.recordKey hotKeyMax key).hotKeys.lookup k = some c) :
    (∃ e, m.hotKeys.lookup k = some e ∧ c.blocked = e.blocked) ∨
      k = key ∧ m.hotKeys.lookup key = none ∧ c.blocked = 0 := by
  unfold MetricsCounters.recordKey at hc
  cases hkey : m.hotKeys.lookup key with
  | some existing =>
    simp only [hkey, InsertionMap.lookup_set] at hc
    split at hc
    · next hk =>
      obtain rfl := Option.some.inj hc
      exact .inl ⟨existing, hk ▸ hkey, rfl⟩
    · exact .inl ⟨c, hc, rfl⟩
  | none =>
    -- whatever makes place for the new key, it starts without blocks
    have hnew : ∀ left : InsertionMap κ HotKeyIntervalCounts,
        (∀ k c, left.lookup k = some c → m.hotKeys.lookup k = some c) →
        (left.set key { hits := 1, blocked := 0 }).lookup k = some c →
        (∃ e, m.hotKeys.lookup k = some e ∧ c.blocked = e.blocked) ∨
          k = key ∧ (none : Option HotKeyIntervalCounts) = none ∧ c.blocked = 0 := by
      intro left hleft hc
      rw [InsertionMap.lookup_set] at hc
      split at hc
      · next hk =>
        obtain rfl := Option.some.inj hc
        exact .inr ⟨hk, rfl, rfl⟩
      · exact .inl ⟨c, hleft k c hc, rfl⟩
    simp only [hkey] at hc
    split at hc
    · exact hnew _ (fun k c hc => hc) hc
    · refine hnew _ (fun k c hc => ?_) hc
      split at hc
      · rw [InsertionMap.lookup_erase'] at hc
        split at hc
        · cases hc
        · exact hc
      · exact hc

namespace AnswersCount

variable {hotKeyMax : ℕ+} {answers : List (κ × Bool)} {m : MetricsCounters κ}

/-- One more request, not blocked so far. -/
theorem recordKey (h : AnswersCount hotKeyMax answers m.hotKeys) (key : κ) :
    AnswersCount hotKeyMax (answers ++ [(key, false)]) (m.recordKey hotKeyMax key).hotKeys := by
  have hcount : ∀ k, (answers ++ [(key, false)]).count (k, true) = answers.count (k, true) := by
    intro k
    rw [List.count_append, List.count_singleton, if_neg (by simp), Nat.add_zero]
  refine ⟨?_, fun k c hc => ?_, fun hroom k c hc => ?_⟩
  · rw [List.map_append]
    exact h.hits.recordKey key
  · rw [hcount]
    obtain ⟨e, he, hblocked⟩ | ⟨-, -, hblocked⟩ := MetricsCounters.blocked_recordKey hc
    · rw [hblocked]
      exact h.le_blocked k e he
    · rw [hblocked]
      exact Nat.zero_le _
  · rw [List.map_append] at hroom
    have hbefore := HotKeysCount.card_le_of_concat hroom
    rw [hcount]
    obtain ⟨e, he, hblocked⟩ | ⟨rfl, hnone, hblocked⟩ := MetricsCounters.blocked_recordKey hc
    · rw [hblocked]
      exact h.exact_blocked hbefore k e he
    · -- with room a key that is not in the map was not seen
      rw [hblocked, eq_comm, List.count_eq_zero]
      intro hseen
      obtain ⟨e, he, -⟩ := h.hits.exact_count hbefore k (List.mem_map_of_mem hseen)
      rw [hnone] at he
      cases he

/-- The request was blocked. -/
theorem recordKeyBlocked {key : κ} (h : AnswersCount hotKeyMax (answers ++ [(key, false)]) m.hotKeys)
    {c : HotKeyIntervalCounts} (hc : m.hotKeys.lookup key = some c)
    (hspare : c.blocked < c.hits) :
    AnswersCount hotKeyMax (answers ++ [(key, true)]) (m.recordKeyBlocked key).hotKeys := by
  have hkeys : (answers ++ [(key, true)]).map Prod.fst = (answers ++ [(key, false)]).map Prod.fst := by
    rw [List.map_append, List.map_append]
    rfl
  have hcount : ∀ k, (answers ++ [(key, true)]).count (k, true) =
      (answers ++ [(key, false)]).count (k, true) + if k = key then 1 else 0 := by
    intro k
    by_cases hk : k = key
    · subst hk
      simp
    · simp [hk, Ne.symm hk]
  -- the blocks of the entries, with this one
  have hset : ∀ k c', (m.recordKeyBlocked key).hotKeys.lookup k = some c' →
      ∃ e, m.hotKeys.lookup k = some e ∧ c'.blocked = e.blocked + if k = key then 1 else 0 := by
    intro k c' hc'
    simp only [MetricsCounters.recordKeyBlocked, hc, InsertionMap.lookup_set] at hc'
    split at hc'
    · next hk =>
      obtain rfl := Option.some.inj hc'
      exact ⟨c, hk ▸ hc, by rw [if_pos hk]⟩
    · next hk => exact ⟨c', hc', by rw [if_neg hk, Nat.add_zero]⟩
  refine ⟨hkeys ▸ h.hits.recordKeyBlocked hc hspare, fun k c' hc' => ?_, fun hroom k c' hc' => ?_⟩
  · obtain ⟨e, he, hblocked⟩ := hset k c' hc'
    rw [hblocked, hcount]
    exact Nat.add_le_add_right (h.le_blocked k e he) _
  · obtain ⟨e, he, hblocked⟩ := hset k c' hc'
    rw [hblocked, hcount, h.exact_blocked (hkeys ▸ hroom) k e he]

/-- At every exit the key is recorded once, and a block of it after that. -/
theorem record (h : AnswersCount hotKeyMax answers m.hotKeys) (key : κ) (exit : MetricsExit) :
    AnswersCount hotKeyMax (answers ++ [(key, exit.blocks)])
      (exit.record hotKeyMax key m).hotKeys := by
  -- the request and the block of it, whatever the counts are
  have hblock : ∀ m' m'' : MetricsCounters κ, m'.hotKeys = m.hotKeys →
      m''.hotKeys = (m'.recordKey hotKeyMax key).hotKeys →
      AnswersCount hotKeyMax (answers ++ [(key, true)]) (m''.recordKeyBlocked key).hotKeys := by
    intro m' m'' hm' hm''
    have hrecorded := (hm' ▸ h : AnswersCount hotKeyMax answers m'.hotKeys).recordKey key
    obtain ⟨hotKeys, heq, -, c, hc, hspare⟩ :=
      MetricsCounters.recordKey_spec (m := m') (hm' ▸ h.hits.bounded) key
    rw [heq] at hm''
    rw [heq, ← hm''] at hrecorded
    exact hrecorded.recordKeyBlocked (by rw [hm'']; exact hc) hspare
  cases exit with
  | skip => exact AnswersCount.recordKey (m := { m with
      totalRequests := m.totalRequests + 1
      skippedRequests := m.skippedRequests + 1 }) h key
  | allowlist => exact AnswersCount.recordKey (m := { m with
      totalRequests := m.totalRequests + 1
      allowlistedRequests := m.allowlistedRequests + 1 }) h key
  | policyBlock reason =>
    cases reason with
    | blocklist => exact hblock { m with
        totalRequests := m.totalRequests + 1
        blockedRequests := m.blockedRequests + 1
        blockedByBlocklist := m.blockedByBlocklist + 1 } _ rfl rfl
    | penalty => exact hblock { m with
        totalRequests := m.totalRequests + 1
        blockedRequests := m.blockedRequests + 1
        blockedByPenalty := m.blockedByPenalty + 1 } _ rfl rfl
    | keyManager => exact hblock { m with
        totalRequests := m.totalRequests + 1
        blockedRequests := m.blockedRequests + 1
        blockedByKeyManager := m.blockedByKeyManager + 1 } _ rfl rfl
  | afterConsume out =>
    simp only [MetricsExit.record, MetricsCounters.recordMetricsAfterConsume, MetricsExit.blocks]
    split
    · next hout =>
      have hblocked := hblock { m with totalRequests := m.totalRequests + 1 }
        { ({ m with totalRequests := m.totalRequests + 1 } :
            MetricsCounters κ).recordKey hotKeyMax key with
          blockedRequests := (({ m with totalRequests := m.totalRequests + 1 } :
            MetricsCounters κ).recordKey hotKeyMax key).blockedRequests + 1 } rfl rfl
      rw [hout]
      cases out.blockReason with
      | none =>
        dsimp only
        split <;> exact hblocked
      | some reason => cases reason <;> exact hblocked
    · next hout =>
      rw [Bool.eq_false_of_not_eq_true hout]
      exact AnswersCount.recordKey (m := { m with totalRequests := m.totalRequests + 1 }) h key

end AnswersCount

/-! ## Runs -/

/-- At an exit of the policy checks the answer is a block when the exit is. -/
theorem blocks_policyExit {o : RateLimitOptions ρ σ κ} {key : κ} {req : ρ} {w : World σ κ}
    {exit : MetricsExit} {out : RateLimitConsumeResult}
    (h : (policyExit o key req w).1 = some (exit, out)) : exit.blocks = out.isBlocked := by
  have hpair : ∀ e : MetricsExit × RateLimitConsumeResult, e.1.blocks = e.2.isBlocked →
      some e = some (exit, out) → exit.blocks = out.isBlocked := by
    rintro e he heq
    obtain rfl := Option.some.inj heq
    exact he
  unfold policyExit at h
  dsimp only at h
  split at h
  · exact hpair _ rfl h
  split at h
  · exact hpair _ rfl h
  split at h
  · exact hpair _ rfl h
  cases hkm : o.keyManager with
  | none =>
    simp only [hkm] at h
    split at h
    · exact hpair _ rfl h
    · cases h
  | some km =>
    simp only [hkm] at h
    by_cases hb : (km.isBlocked key w.stores).1 = true
    · simp only [if_pos hb] at h
      exact hpair _ rfl h
    · simp only [if_neg hb] at h
      split at h
      · exact hpair _ rfl h
      · cases h

/-- What a segment records when it leaves its consume: the key, and whether the answer of the consume
is a block. -/
def MeteredEngine.recordedAnswer (o : RateLimitOptions ρ σ κ) (event : MeteredEvent ρ σ κ)
    (s : MeteredEngine ρ κ) : Option (κ × Bool) :=
  match event with
  | .consume key req stores =>
    (policyExit o key req ⟨s.engine, stores⟩).1.map fun r => (key, r.2.isBlocked)
  | .incremented n outcome _ =>
    match s.pending[n]?, outcome with
    | some ⟨key, _, none⟩, .ok g =>
      if awaitsCallbacks g then none else some (key, (consumeAnswer o g).isBlocked)
    | _, _ => none
  | .calledBack n outcome =>
    match s.pending[n]?, outcome with
    | some ⟨key, _, some g⟩, .ok _ => some (key, (consumeAnswer o g).isBlocked)
    | _, _ => none
  | .snapshot => none
  | .reset => none

/-- The answers recorded since the map was last drained, after another segment. -/
def MeteredEngine.nextAnswers (o : RateLimitOptions ρ σ κ) (event : MeteredEvent ρ σ κ)
    (s : MeteredEngine ρ κ) (answers : List (κ × Bool)) : List (κ × Bool) :=
  match event with
  | .snapshot => []
  | .reset => []
  | _ => answers ++ (s.recordedAnswer o event).toList

/-- The step lemma: one segment of one consume. -/
theorem AnswersCount.step {o : RateLimitOptions ρ σ κ} {hotKeyMax : ℕ+} {s : MeteredEngine ρ κ}
    {answers : List (κ × Bool)} (h : AnswersCount hotKeyMax answers s.metrics.hotKeys)
    (event : MeteredEvent ρ σ κ) :
    AnswersCount hotKeyMax (s.nextAnswers o event answers)
      (s.step o hotKeyMax event).1.metrics.hotKeys := by
  have hsame : AnswersCount hotKeyMax (answers ++ (none : Option (κ × Bool)).toList)
      s.metrics.hotKeys := by
    rwa [Option.toList_none, List.append_nil]
  cases event with
  | consume key req stores =>
    simp only [MeteredEngine.step, MeteredEngine.nextAnswers, MeteredEngine.recordedAnswer]
    have hblocks := @blocks_policyExit _ _ _ _ o key req ⟨s.engine, stores⟩
    generalize policyExit o key req ⟨s.engine, stores⟩ = r at hblocks
    obtain ⟨_ | ⟨exit, out⟩, w⟩ := r
    · exact hsame
    · rw [Option.map_some, ← hblocks rfl]
      exact h.record key exit
  | incremented n outcome stores =>
    simp only [MeteredEngine.step, MeteredEngine.nextAnswers, MeteredEngine.recordedAnswer]
    generalize s.pending[n]? = entry
    obtain _ | ⟨key, req, _ | g⟩ := entry
    · exact hsame
    · cases outcome with
      | error e => exact hsame
      | ok g =>
        dsimp only
        split
        · exact hsame
        · exact h.record key (.afterConsume (consumeAnswer o g))
    · exact hsame
  | calledBack n outcome =>
    simp only [MeteredEngine.step, MeteredEngine.nextAnswers, MeteredEngine.recordedAnswer]
    generalize s.pending[n]? = entry
    obtain _ | ⟨key, req, _ | g⟩ := entry
    · exact hsame
    · exact hsame
    · cases outcome with
      | error e => exact hsame
      | ok u => exact h.record key (.afterConsume (consumeAnswer o g))
  | snapshot => exact answersCount_empty hotKeyMax
  | reset => exact answersCount_empty hotKeyMax

/-- A pipeline with the answers its hot keys have seen, which it publishes with the snapshot. -/
def MetricsPipeline.seenStep (share : ℚ → ℕ → ℚ) (o : RateLimitOptions ρ σ κ) (hotKeyMax : ℕ+)
    (i : PipelineEvent ρ σ κ) (s : MetricsPipeline ρ κ × List (κ × Bool)) :
    (MetricsPipeline ρ κ × List (κ × Bool)) × Option (MetricsSnapshot κ × List (κ × Bool)) :=
  let r := s.1.step share o hotKeyMax i
  let answers := match i with
    | .segment event => s.1.engine.nextAnswers o event s.2
    | .tick => []
    | _ => s.2
  ((r.1, answers), r.2.map fun snap => (snap, s.2))

/-- The requests under a key, by their answers. -/
def requestsOf (key : κ) (answers : List (κ × Bool)) : ℕ := (answers.map Prod.fst).count key

/-- The blocks among them. -/
def blocksOf (key : κ) (answers : List (κ × Bool)) : ℕ := answers.count (key, true)

/-- The different keys of the requests. -/
def keysSeen (answers : List (κ × Bool)) : Finset κ := (answers.map Prod.fst).toFinset

/-- Hot keys of an interval that are worth their place.  No figure is too high; with no more keys
than the map has room for, the figures are exact and the list is the top of the ranking. -/
structure RanksHotKeys (topKSize : ℤ) (hotKeyMax : ℕ+) (answers : List (κ × Bool))
    (hotKeys : List (HotKey κ)) : Prop where
  nodup : (hotKeys.map HotKey.key).Nodup
  length_le : hotKeys.length ≤ topKSize.toNat
  sorted : hotKeys.Pairwise fun a b => b.hits ≤ a.hits
  bounds : ∀ hk ∈ hotKeys, hk.blocked ≤ hk.hits ∧ 1 ≤ hk.hits ∧
    hk.hits ≤ requestsOf hk.key answers ∧ hk.blocked ≤ blocksOf hk.key answers
  exact_count : (keysSeen answers).card ≤ hotKeyMax → ∀ hk ∈ hotKeys,
    hk.hits = requestsOf hk.key answers ∧ hk.blocked = blocksOf hk.key answers
  complete : (keysSeen answers).card ≤ hotKeyMax → ∀ key ∈ keysSeen answers,
    (∃ hk ∈ hotKeys, hk.key = key) ∨
      hotKeys.length = topKSize.toNat ∧ ∀ hk ∈ hotKeys, requestsOf key answers ≤ hk.hits

/-- The entry of the map as it is published. -/
def toHotKey (e : Sigma fun _ : κ => HotKeyIntervalCounts) : HotKey κ :=
  ⟨e.1, e.2.hits, e.2.blocked⟩

omit [DecidableEq κ] in
/-- The collector ranks the keys by their hits. -/
theorem hotKeysTopK_eq (map : InsertionMap κ HotKeyIntervalCounts) (k : ℤ) :
    MetricsCollector.hotKeysTopK map k =
      topRanked HotKey.hits k.toNat (map.entries.map toHotKey) := by
  unfold MetricsCollector.hotKeysTopK
  split
  · next hnone =>
    rcases hnone with hk | hsize
    · rw [topRanked, Int.toNat_of_nonpos hk, List.take_zero]
    · have hentries : map.entries = [] := List.length_eq_zero_iff.mp hsize
      rw [topRanked, hentries, List.map_nil, List.mergeSort_nil, List.take_nil]
  · rfl

/-- The ranking of a map that counts the answers. -/
theorem AnswersCount.ranks {hotKeyMax : ℕ+} {answers : List (κ × Bool)}
    {hotKeys : InsertionMap κ HotKeyIntervalCounts} (h : AnswersCount hotKeyMax answers hotKeys)
    (k : ℤ) : RanksHotKeys k hotKeyMax answers (MetricsCollector.hotKeysTopK hotKeys k) := by
  rw [hotKeysTopK_eq]
  have hlookup : ∀ hk ∈ topRanked HotKey.hits k.toNat (hotKeys.entries.map toHotKey),
      hotKeys.lookup hk.key = some ⟨hk.hits, hk.blocked⟩ := by
    intro hk hmem
    obtain ⟨e, he, rfl⟩ := List.mem_map.mp (mem_of_mem_topRanked hmem)
    exact AList.mem_lookup_iff.mpr he
  refine ⟨?_, length_topRanked_le _ _ _, pairwise_topRanked _ _ _, ?_, ?_, ?_⟩
  · refine nodup_map_topRanked ?_
    rw [List.map_map]
    exact hotKeys.nodupKeys
  · intro hk hmem
    have hk' := hlookup hk hmem
    exact ⟨h.hits.bounded.blocked_le_hits _ _ hk', h.hits.pos _ _ hk', h.hits.le_count _ _ hk',
      h.le_blocked _ _ hk'⟩
  · intro hroom hk hmem
    have hk' := hlookup hk hmem
    have hseen : hk.key ∈ answers.map Prod.fst :=
      List.count_pos_iff.mp ((h.hits.pos _ _ hk').trans (h.hits.le_count _ _ hk'))
    obtain ⟨c, hc, hcount⟩ := h.hits.exact_count hroom hk.key hseen
    obtain rfl := Option.some.inj (hk'.symm.trans hc)
    exact ⟨hcount, h.exact_blocked hroom _ _ hk'⟩
  · intro hroom key hkey
    obtain ⟨c, hc, hcount⟩ := h.hits.exact_count hroom key (List.mem_toFinset.mp hkey)
    have hentry : toHotKey ⟨key, c⟩ ∈ hotKeys.entries.map toHotKey :=
      List.mem_map_of_mem (AList.mem_lookup_iff.mp hc)
    by_cases hlisted : toHotKey ⟨key, c⟩ ∈ topRanked HotKey.hits k.toNat
        (hotKeys.entries.map toHotKey)
    · exact .inl ⟨_, hlisted, rfl⟩
    · obtain ⟨hfull, hle⟩ := le_of_notMem_topRanked hentry hlisted
      refine .inr ⟨hfull, fun hk hmem => ?_⟩
      rw [requestsOf, ← hcount]
      exact hle hk hmem

/-- The map of a pipeline counts the answers, and its collector lists so many of them. -/
structure SeesHotKeys (hotKeyMax : ℕ+) (topKSize : ℤ)
    (s : MetricsPipeline ρ κ × List (κ × Bool)) : Prop where
  count : AnswersCount hotKeyMax s.2 s.1.engine.metrics.hotKeys
  topKSize_eq : s.1.collector.topKSize = topKSize

/-- The step lemma: one event of the pipeline, and what it publishes. -/
theorem SeesHotKeys.step {hotKeyMax : ℕ+} {topKSize : ℤ}
    {s : MetricsPipeline ρ κ × List (κ × Bool)} (h : SeesHotKeys hotKeyMax topKSize s)
    (share : ℚ → ℕ → ℚ) (o : RateLimitOptions ρ σ κ) (i : PipelineEvent ρ σ κ) :
    SeesHotKeys hotKeyMax topKSize (MetricsPipeline.seenStep share o hotKeyMax i s).1 ∧
      ∀ r, (MetricsPipeline.seenStep share o hotKeyMax i s).2 = some r →
        RanksHotKeys topKSize hotKeyMax r.2 r.1.hotKeys := by
  obtain ⟨s, answers⟩ := s
  -- what a tick alone publishes
  have hsilent : ∀ r, (none : Option (MetricsSnapshot κ × List (κ × Bool))) = some r →
      RanksHotKeys topKSize hotKeyMax r.2 r.1.hotKeys :=
    fun r hr => absurd hr.symm (Option.some_ne_none r)
  cases i with
  | segment event => exact ⟨⟨h.count.step event, h.topKSize_eq⟩, hsilent⟩
  | latency now startTime => exact ⟨⟨h.count, h.topKSize_eq⟩, hsilent⟩
  | storeLatency now startTime => exact ⟨⟨h.count, h.topKSize_eq⟩, hsilent⟩
  | tick =>
    refine ⟨⟨answersCount_empty hotKeyMax, h.topKSize_eq⟩, fun r hr => ?_⟩
    obtain rfl := Option.some.inj hr
    have hranks := h.count.ranks s.collector.topKSize
    have htop : s.collector.topKSize = topKSize := h.topKSize_eq
    rw [htop] at hranks
    show RanksHotKeys topKSize hotKeyMax answers
      (MetricsCollector.hotKeysTopK s.engine.metrics.hotKeys s.collector.topKSize)
    rw [htop]
    exact hranks
  | registered n => exact ⟨⟨h.count, h.topKSize_eq⟩, hsilent⟩

/-- **Hot keys.**  The hot keys of every snapshot of every run are different keys, in order and no
more than asked for, never said to have more hits than requests were recorded for the key, or more
blocks than of these were answered so; and when no more keys were seen than there is room for, they
are the top of the ranking, with exactly these figures. -/
theorem hot_keys_ranked (share : ℚ → ℕ → ℚ) (o : RateLimitOptions ρ σ κ) (hotKeyMax : ℕ+)
    (intervalMs : ℚ) (topKSize : ℤ) (buckets : List ℚ) (sampleCapacity : ℕ)
    (is : List (PipelineEvent ρ σ κ)) :
    ∀ r ∈ emitted (MetricsPipeline.seenStep share o hotKeyMax) is
        (.start intervalMs topKSize buckets sampleCapacity, []),
      RanksHotKeys topKSize hotKeyMax r.2 r.1.hotKeys := by
  have hstart : SeesHotKeys (ρ := ρ) (κ := κ) hotKeyMax topKSize
      (.start intervalMs topKSize buckets sampleCapacity, []) :=
    ⟨answersCount_empty hotKeyMax, rfl⟩
  exact forall_emitted_of_invariant (fun i s h => h.step share o i) hstart

/-- A store that is never used up. -/
def neverSpent : RateLimitOptions Unit Unit ℕ where
  clock := fun _ => 0
  store :=
    { increment := fun _ _ s => (.ok (.ofUsage 1 2 1000), s)
      decrement := fun _ _ s => s }

/-- Two requests under one key, the second blocked, and one under another, then the tick. -/
def twoKeysOneTick : List (PipelineEvent Unit Unit ℕ) :=
  [.segment (.consume 7 () ()),
    .segment (.incremented 0 (.ok { result := .ofUsage 1 1 1000 }) ()),
    .segment (.consume 8 () ()),
    .segment (.incremented 0 (.ok { result := .ofUsage 1 1 1000 }) ()),
    .segment (.consume 7 () ()),
    .segment (.incremented 0 (.ok { result := .ofUsage 2 1 1000 }) ()),
    .segment (.calledBack 0 (.ok ())), .tick]

/-- What they publish. -/
theorem hot_keys_ranked_two_keys :
    ∃ r ∈ emitted (MetricsPipeline.seenStep (fun p n => p / 100 * n) neverSpent 2) twoKeysOneTick
        ((.start 10000 20 [1, 5] 4 : MetricsPipeline Unit ℕ), []),
      r.2 = [(7, false), (8, false), (7, true)] ∧ RanksHotKeys 20 2 r.2 r.1.hotKeys := by
  have hone : ∃ r, emitted (MetricsPipeline.seenStep (fun p n => p / 100 * n) neverSpent 2)
      twoKeysOneTick ((.start 10000 20 [1, 5] 4 : MetricsPipeline Unit ℕ), []) = [r] ∧
      r.2 = [(7, false), (8, false), (7, true)] := ⟨_, rfl, rfl⟩
  obtain ⟨r, hr, hanswers⟩ := hone
  have hmem : r ∈ emitted (MetricsPipeline.seenStep (fun p n => p / 100 * n) neverSpent 2)
      twoKeysOneTick ((.start 10000 20 [1, 5] 4 : MetricsPipeline Unit ℕ), []) := by
    rw [hr]
    exact List.mem_cons_self
  exact ⟨r, hmem, hanswers, hot_keys_ranked (fun p n => p / 100 * n) neverSpent 2 10000 20 [1, 5] 4
    twoKeysOneTick r hmem⟩

end RatelimitFlex
