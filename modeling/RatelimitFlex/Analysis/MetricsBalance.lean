import RatelimitFlex.Program.EngineMetrics

/-!
# The counters add up

Each consume that returns bumps the total and one of its four parts, and when it was blocked one
of the five reasons; a consume that throws bumps nothing.  Since a recording function runs
without an await, the sums hold after every segment of every interleaving
(`metrics_balanced`).

A blocked hit is recorded right after the hit itself, so the hot key is still there and has a hit
to spare (`HotKeysBounded.recordKey`); when the map is full the new key takes the place of an
old one.
-/

set_option autoImplicit false

namespace RatelimitFlex

open Library

variable {ρ σ κ : Type} [DecidableEq κ]

/-- No hot key is blocked more often than hit, and there are at most so many. -/
structure HotKeysBounded (hotKeyMax : ℕ+) (hotKeys : InsertionMap κ HotKeyIntervalCounts) :
    Prop where
  blocked_le_hits : ∀ k c, hotKeys.lookup k = some c → c.blocked ≤ c.hits
  size_le : hotKeys.size ≤ hotKeyMax

/-- The sums of the counters, and the bounds of the hot keys. -/
structure Balanced (hotKeyMax : ℕ+) (m : MetricsCounters κ) : Prop where
  total : m.totalRequests = m.allowedRequests + m.blockedRequests + m.skippedRequests +
    m.allowlistedRequests
  blocked : m.blockedRequests = m.blockedByRateLimit + m.blockedByBlocklist + m.blockedByPenalty +
    m.blockedByKeyManager + m.blockedByServiceUnavailable
  hotKeys : HotKeysBounded hotKeyMax m.hotKeys

/-! ## Hot keys -/

namespace MetricsCounters

omit [DecidableEq κ] in
/-- The loop ends in the key it began with or in one of the entries. -/
theorem foldl_lesserHit (entries : List (Sigma fun _ : κ => HotKeyIntervalCounts)) (k : κ)
    (minVal : ℕ) :
    ∃ r, entries.foldl lesserHit (some (k, minVal)) = some r ∧ (r.1 = k ∨ r.1 ∈ entries.keys) := by
  induction entries generalizing k minVal with
  | nil => exact ⟨_, rfl, .inl rfl⟩
  | cons e entries ih =>
    rw [List.foldl_cons, List.keys_cons]
    by_cases he : e.2.hits < minVal
    · obtain ⟨r, hr, hkey⟩ := ih e.1 e.2.hits
      refine ⟨r, ?_, .inr (List.mem_cons.mpr hkey)⟩
      rw [lesserHit, if_pos he]
      exact hr
    · obtain ⟨r, hr, hkey⟩ := ih k minVal
      refine ⟨r, ?_, hkey.imp_right (List.mem_cons_of_mem _)⟩
      rw [lesserHit, if_neg he]
      exact hr

omit [DecidableEq κ] in
/-- A map that is not empty has a least-hit key. -/
theorem exists_leastHit {hotKeys : InsertionMap κ HotKeyIntervalCounts}
    (h : 0 < InsertionMap.size hotKeys) : ∃ minKey ∈ hotKeys, leastHit hotKeys = some minKey := by
  cases hentries : hotKeys.entries with
  | nil =>
    rw [InsertionMap.size, hentries] at h
    exact absurd h (Nat.lt_irrefl 0)
  | cons e entries =>
    obtain ⟨r, hr, hkey⟩ := foldl_lesserHit entries e.1 e.2.hits
    refine ⟨r.1, ?_, ?_⟩
    · rw [AList.mem_keys]
      show r.1 ∈ hotKeys.entries.keys
      rw [hentries, List.keys_cons]
      exact List.mem_cons.mpr hkey
    · rw [leastHit, hentries, List.foldl_cons]
      exact congrArg (Option.map Prod.fst) hr

end MetricsCounters

/-- A write of counts that are in order, with room for the key. -/
theorem HotKeysBounded.set {hotKeyMax : ℕ+} {hotKeys : InsertionMap κ HotKeyIntervalCounts}
    (h : HotKeysBounded hotKeyMax hotKeys) (key : κ) {c : HotKeyIntervalCounts}
    (hc : c.blocked ≤ c.hits) (hroom : key ∈ hotKeys ∨ hotKeys.size < hotKeyMax) :
    HotKeysBounded hotKeyMax (hotKeys.set key c) where
  blocked_le_hits k c' hc' := by
    rw [InsertionMap.lookup_set] at hc'
    split at hc'
    · obtain rfl := Option.some.inj hc'
      exact hc
    · exact h.blocked_le_hits k c' hc'
  size_le := by
    by_cases hmem : key ∈ hotKeys
    · rw [InsertionMap.size_set_of_mem c hmem]
      exact h.size_le
    · rw [InsertionMap.size_set_of_notMem c hmem]
      exact hroom.resolve_left hmem

/-- A hot key that is dropped leaves the others within their bounds. -/
theorem HotKeysBounded.erase {hotKeyMax : ℕ+} {hotKeys : InsertionMap κ HotKeyIntervalCounts}
    (h : HotKeysBounded hotKeyMax hotKeys) {key : κ} (hmem : key ∈ hotKeys) :
    HotKeysBounded hotKeyMax (hotKeys.erase key) where
  blocked_le_hits k c hc := by
    rw [InsertionMap.lookup_erase'] at hc
    split at hc
    · cases hc
    · exact h.blocked_le_hits k c hc
  size_le := (InsertionMap.size_erase_lt hmem).le.trans h.size_le

namespace MetricsCounters

variable {hotKeyMax : ℕ+} {m : MetricsCounters κ}

/-- A hit changes the hot keys only, and leaves the key there with a hit that was not
blocked. -/
theorem recordKey_spec (h : HotKeysBounded hotKeyMax m.hotKeys) (key : κ) :
    ∃ hotKeys, m.recordKey hotKeyMax key = { m with hotKeys } ∧ HotKeysBounded hotKeyMax hotKeys ∧
      ∃ c, hotKeys.lookup key = some c ∧ c.blocked < c.hits := by
  unfold recordKey
  cases hkey : m.hotKeys.lookup key with
  | some existing =>
    have hle := h.blocked_le_hits key existing hkey
    refine ⟨_, rfl, h.set key (Nat.le_succ_of_le hle) (.inl ?_), _,
      InsertionMap.lookup_set_self _ _ _, Nat.lt_succ_of_le hle⟩
    exact AList.lookup_isSome.mp (by rw [hkey]; rfl)
  | none =>
    have hnew : ∀ hotKeys : InsertionMap κ HotKeyIntervalCounts,
        HotKeysBounded hotKeyMax hotKeys → hotKeys.size < hotKeyMax →
        HotKeysBounded hotKeyMax (hotKeys.set key { hits := 1, blocked := 0 }) ∧
          ∃ c, (hotKeys.set key { hits := 1, blocked := 0 }).lookup key = some c ∧
            c.blocked < c.hits :=
      fun hotKeys hb hroom => ⟨hb.set key (Nat.zero_le _) (.inr hroom), _,
        InsertionMap.lookup_set_self _ _ _, Nat.zero_lt_one⟩
    dsimp only
    split
    · next hroom => exact ⟨_, rfl, hnew _ h hroom⟩
    · next hfull =>
      -- the map is full, so it has a least-hit key to give up
      have hpos : 0 < m.hotKeys.size := lt_of_lt_of_le hotKeyMax.pos (not_lt.mp hfull)
      obtain ⟨minKey, hmem, hleast⟩ := exists_leastHit hpos
      rw [hleast]
      exact ⟨_, rfl, hnew _ (h.erase hmem) ((InsertionMap.size_erase_lt hmem).trans_le h.size_le)⟩

/-- A block of a key with a hit to spare changes the hot keys only. -/
theorem recordKeyBlocked_spec (h : HotKeysBounded hotKeyMax m.hotKeys) {key : κ}
    {c : HotKeyIntervalCounts} (hc : m.hotKeys.lookup key = some c) (hspare : c.blocked < c.hits) :
    ∃ hotKeys, m.recordKeyBlocked key = { m with hotKeys } ∧ HotKeysBounded hotKeyMax hotKeys := by
  unfold recordKeyBlocked
  rw [hc]
  exact ⟨_, rfl, h.set key hspare (.inl (AList.lookup_isSome.mp (by rw [hc]; rfl)))⟩

end MetricsCounters

/-! ## One recording -/

/-- The exits a consume takes: a block after the increments has one of the two reasons. -/
def MetricsExit.Proper : MetricsExit → Prop
  | .afterConsume out => out.isBlocked = true →
      out.blockReason = some .rateLimit ∨ out.blockReason = some .serviceUnavailable
  | _ => True

omit [DecidableEq κ] in
/-- What the engine answers after the increments is blocked for one of the two reasons. -/
theorem proper_consumeAnswer (o : RateLimitOptions ρ σ κ) (g : IncrementOutcome) :
    (MetricsExit.afterConsume (consumeAnswer o g)).Proper := by
  intro hblocked
  unfold consumeAnswer at hblocked ⊢
  split at hblocked
  · cases hblocked
  · next hdraft =>
    rw [if_neg hdraft]
    have hg : g.result.isBlocked = true := hblocked
    simp only [consumeResult, hg, if_true]
    split
    · exact .inr rfl
    · exact .inl rfl

/-- Recording an answer keeps the balance. -/
theorem Balanced.record {hotKeyMax : ℕ+} {m : MetricsCounters κ} (h : Balanced hotKeyMax m)
    (key : κ) {exit : MetricsExit} (hexit : exit.Proper) :
    Balanced hotKeyMax (exit.record hotKeyMax key m) := by
  have htotal := h.total
  have hblocked := h.blocked
  -- the hot keys after the hit, whatever the counts are
  have hhit : ∀ m' : MetricsCounters κ, m'.hotKeys = m.hotKeys →
      ∃ hotKeys, m'.recordKey hotKeyMax key = { m' with hotKeys } ∧
        HotKeysBounded hotKeyMax hotKeys ∧ ∃ c, hotKeys.lookup key = some c ∧ c.blocked < c.hits :=
    fun m' hm' => MetricsCounters.recordKey_spec (hm' ▸ h.hotKeys) key
  cases exit with
  | skip =>
    simp only [MetricsExit.record, MetricsCounters.recordMetricsSkip]
    obtain ⟨hotKeys, heq, hkeys, -⟩ := hhit { m with
      totalRequests := m.totalRequests + 1
      skippedRequests := m.skippedRequests + 1 } rfl
    rw [heq]
    exact ⟨by dsimp only; omega, hblocked, hkeys⟩
  | allowlist =>
    simp only [MetricsExit.record, MetricsCounters.recordMetricsAllowlist]
    obtain ⟨hotKeys, heq, hkeys, -⟩ := hhit { m with
      totalRequests := m.totalRequests + 1
      allowlistedRequests := m.allowlistedRequests + 1 } rfl
    rw [heq]
    exact ⟨by dsimp only; omega, hblocked, hkeys⟩
  | policyBlock reason =>
    have hrecorded : ∀ m' : MetricsCounters κ, m'.hotKeys = m.hotKeys → ∃ hotKeys,
        (m'.recordKey hotKeyMax key).recordKeyBlocked key = { m' with hotKeys } ∧
          HotKeysBounded hotKeyMax hotKeys := by
      intro m' hm'
      obtain ⟨hotKeys, heq, hkeys, c, hc, hspare⟩ := hhit m' hm'
      rw [heq]
      exact MetricsCounters.recordKeyBlocked_spec (m := { m' with hotKeys }) hkeys hc hspare
    simp only [MetricsExit.record, MetricsCounters.recordMetricsPolicyBlock]
    cases reason with
    | blocklist =>
      obtain ⟨hotKeys, heq, hkeys⟩ := hrecorded { m with
        totalRequests := m.totalRequests + 1
        blockedRequests := m.blockedRequests + 1
        blockedByBlocklist := m.blockedByBlocklist + 1 } rfl
      rw [heq]
      exact ⟨by dsimp only; omega, by dsimp only; omega, hkeys⟩
    | penalty =>
      obtain ⟨hotKeys, heq, hkeys⟩ := hrecorded { m with
        totalRequests := m.totalRequests + 1
        blockedRequests := m.blockedRequests + 1
        blockedByPenalty := m.blockedByPenalty + 1 } rfl
      rw [heq]
      exact ⟨by dsimp only; omega, by dsimp only; omega, hkeys⟩
    | keyManager =>
      obtain ⟨hotKeys, heq, hkeys⟩ := hrecorded { m with
        totalRequests := m.totalRequests + 1
        blockedRequests := m.blockedRequests + 1
        blockedByKeyManager := m.blockedByKeyManager + 1 } rfl
      rw [heq]
      exact ⟨by dsimp only; omega, by dsimp only; omega, hkeys⟩
  | afterConsume out =>
    simp only [MetricsExit.record, MetricsCounters.recordMetricsAfterConsume]
    obtain ⟨hotKeys, heq, hkeys, c, hc, hspare⟩ := hhit { m with
      totalRequests := m.totalRequests + 1 } rfl
    rw [heq]
    split
    · next hout =>
      obtain ⟨hotKeys', heq', hkeys'⟩ := MetricsCounters.recordKeyBlocked_spec (m := { m with
        totalRequests := m.totalRequests + 1
        blockedRequests := m.blockedRequests + 1
        hotKeys := hotKeys }) hkeys hc hspare
      rw [heq']
      rcases hexit hout with hreason | hreason
      · rw [hreason]
        exact ⟨by dsimp only; omega, by dsimp only; omega, hkeys'⟩
      · rw [hreason]
        exact ⟨by dsimp only; omega, by dsimp only; omega, hkeys'⟩
    · exact ⟨by dsimp only; omega, hblocked, hkeys⟩

/-! ## Runs -/

/-- The empty counters balance. -/
theorem balanced_empty (hotKeyMax : ℕ+) : Balanced hotKeyMax ({} : MetricsCounters κ) where
  total := rfl
  blocked := rfl
  hotKeys :=
    { blocked_le_hits := fun k c hc => absurd hc (by simp)
      size_le := Nat.zero_le _ }

/-- The exit of the policy checks has a reason of its own. -/
theorem proper_policyExit (o : RateLimitOptions ρ σ κ) (key : κ) (req : ρ) (w : World σ κ) :
    ∀ exit out, (policyExit o key req w).1 = some (exit, out) → exit.Proper := by
  intro exit out h
  unfold policyExit at h
  dsimp only at h
  split at h
  · cases h
    trivial
  · split at h
    · cases h
      trivial
    · split at h
      · cases h
        trivial
      · cases hkm : o.keyManager with
        | none =>
          simp only [hkm] at h
          split at h
          · cases h
            trivial
          · cases h
        | some km =>
          simp only [hkm] at h
          by_cases hb : (km.isBlocked key w.stores).1 = true
          · simp only [if_pos hb] at h
            cases h
            trivial
          · simp only [if_neg hb] at h
            split at h
            · cases h
              trivial
            · cases h

variable {o : RateLimitOptions ρ σ κ} {hotKeyMax : ℕ+} {s : MeteredEngine ρ κ}

/-- One segment of one consume, a snapshot or a reset. -/
theorem Balanced.step (h : Balanced hotKeyMax s.metrics) (i : MeteredEvent ρ σ κ) :
    Balanced hotKeyMax (s.step o hotKeyMax i).1.metrics ∧
      ∀ snap, (s.step o hotKeyMax i).2 = some snap → Balanced hotKeyMax snap := by
  cases i with
  | consume key req stores =>
    have hproper := proper_policyExit o key req ⟨s.engine, stores⟩
    simp only [MeteredEngine.step]
    split
    · next exit out w hexit =>
      exact ⟨h.record key (hproper exit out (by rw [hexit])), nofun⟩
    · exact ⟨h, nofun⟩
  | incremented n outcome stores =>
    simp only [MeteredEngine.step]
    split
    · next key req _ =>
      cases outcome with
      | error e => exact ⟨h, nofun⟩
      | ok g =>
        dsimp only
        split
        · exact ⟨h, nofun⟩
        · exact ⟨h.record key (proper_consumeAnswer o g), nofun⟩
    · exact ⟨h, nofun⟩
  | calledBack n outcome =>
    simp only [MeteredEngine.step]
    split
    · next key req g _ =>
      cases outcome with
      | error e => exact ⟨h, nofun⟩
      | ok u => exact ⟨h.record key (proper_consumeAnswer o g), nofun⟩
    · exact ⟨h, nofun⟩
  | snapshot =>
    refine ⟨⟨h.total, h.blocked, (balanced_empty hotKeyMax).hotKeys⟩, fun snap hsnap => ?_⟩
    obtain rfl := Option.some.inj hsnap
    exact h
  | reset => exact ⟨balanced_empty hotKeyMax, nofun⟩

/-- After every segment of every interleaving, and in every snapshot, the counters add up and the
hot keys keep their bounds. -/
theorem metrics_balanced (o : RateLimitOptions ρ σ κ) (hotKeyMax : ℕ+)
    (is : List (MeteredEvent ρ σ κ)) :
    Balanced hotKeyMax (final (MeteredEngine.step o hotKeyMax) is {}).metrics ∧
      ∀ snap, some snap ∈ outputs (MeteredEngine.step o hotKeyMax) is {} →
        Balanced hotKeyMax snap := by
  have hrun : ∀ s : MeteredEngine ρ κ, Balanced hotKeyMax s.metrics →
      Balanced hotKeyMax (final (MeteredEngine.step o hotKeyMax) is s).metrics ∧
        ∀ snap, some snap ∈ outputs (MeteredEngine.step o hotKeyMax) is s →
          Balanced hotKeyMax snap := by
    induction is with
    | nil => exact fun s hs => ⟨hs, fun snap hsnap => absurd hsnap List.not_mem_nil⟩
    | cons i is ih =>
      intro s hs
      obtain ⟨hnext, hsnap⟩ := hs.step (o := o) i
      obtain ⟨hfinal, hlater⟩ := ih _ hnext
      refine ⟨hfinal, fun snap hmem => ?_⟩
      rw [outputs_cons, List.mem_cons] at hmem
      rcases hmem with hnow | hmem
      · exact hsnap snap hnow.symm
      · exact hlater snap hmem
  exact hrun {} (balanced_empty hotKeyMax)

end RatelimitFlex
