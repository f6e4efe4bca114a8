import RatelimitFlex.Analysis.CellCounts
import RatelimitFlex.Analysis.RedisWindowRuns
import RatelimitFlex.Program.RedisSync

/-!
# What recovery does with the insured units

The sync takes every active key to one script and clears the insurance store at the end.  A
unit is lost when its script fails, or when it is counted after the keys were read, and the
counter of a fixed window gains a unit for an entry without any.  Nothing else happens to a
unit, so all are conserved exactly when none of this occurs.
-/

set_option autoImplicit false

namespace RatelimitFlex

open Library

variable {κ : Type} [DecidableEq κ]

/-! ## The entries that are read -/

/-- The units the entries hold for a key. -/
def entryUnits (k : κ) (l : List (κ × ℤ)) : ℤ := (l.map fun e => if e.1 = k then e.2 else 0).sum

/-- The units of one entry and those after it. -/
theorem entryUnits_cons (k : κ) (e : κ × ℤ) (l : List (κ × ℤ)) :
    entryUnits k (e :: l) = (if e.1 = k then e.2 else 0) + entryUnits k l := by
  simp only [entryUnits, List.map_cons, List.sum_cons]

/-- A key without an entry has none. -/
theorem entryUnits_of_not_mem {k : κ} {l : List (κ × ℤ)} (h : k ∉ l.map Prod.fst) :
    entryUnits k l = 0 := by
  refine List.sum_eq_zero fun z hz => ?_
  obtain ⟨e, he, rfl⟩ := List.mem_map.mp hz
  have hne : e.1 ≠ k := fun hk => h (hk ▸ List.mem_map_of_mem he)
  rw [if_neg hne]

/-- The entries of a table with distinct keys. -/
theorem entryUnits_filterMap {keys : List κ} (hnodup : keys.Nodup) (f : κ → Option ℤ) (k : κ) :
    entryUnits k (keys.filterMap fun k' => (f k').map (Prod.mk k')) =
      if k ∈ keys then (f k).getD 0 else 0 := by
  induction keys with
  | nil => rfl
  | cons k' keys ih =>
    obtain ⟨hnot, hrest⟩ := List.nodup_cons.mp hnodup
    by_cases hk : k = k'
    · subst hk
      rw [if_pos List.mem_cons_self]
      have hzero := ih hrest
      rw [if_neg hnot] at hzero
      cases hf : f k with
      | none => simpa [List.filterMap_cons, hf] using hzero
      | some n => simpa [List.filterMap_cons, hf, entryUnits_cons] using hzero
    · have hmem : k ∈ k' :: keys ↔ k ∈ keys := by simp [hk]
      rw [if_congr hmem rfl rfl, ← ih hrest]
      cases hf : f k' with
      | none => simp [hf]
      | some n => simp [hf, entryUnits_cons, Ne.symm hk]

omit [DecidableEq κ] in
/-- Keys that differ have entries that differ. -/
theorem nodup_keys_filterMap {keys : List κ} (hnodup : keys.Nodup) (f : κ → Option ℤ) :
    ((keys.filterMap fun k' => (f k').map (Prod.mk k')).map Prod.fst).Nodup := by
  refine List.Nodup.sublist ?_ hnodup
  clear hnodup
  induction keys with
  | nil => exact List.Sublist.refl _
  | cons k keys ih =>
    cases hf : f k with
    | none => simpa [List.filterMap_cons, hf] using ih.cons k
    | some n => simpa [List.filterMap_cons, hf] using ih.cons_cons k

namespace MemoryStore

/-- The keys of the store's table. -/
def tableKeys : MemoryStore κ → List κ
  | .sliding _ t => t.state.keys
  | .fixed _ t => t.state.keys
  | .bucket _ t => t.state.keys

/-- No key is listed twice. -/
theorem nodup_tableKeys (s : MemoryStore κ) : s.tableKeys.Nodup := by
  cases s with
  | sliding o t => exact t.state.keys_nodup
  | fixed o t => exact t.state.keys_nodup
  | bucket o t => exact t.state.keys_nodup

/-- Clearing the wall expiries of some keys. -/
theorem lookup_foldl_clearWall (now : ℤ) (keys : List κ) (t : KeyTable κ SlidingKeyState) (k : κ) :
    (keys.foldl (fun t k => clearSlidingWallExpiryIfExpired now k t) t).state.lookup k =
      if k ∈ keys then unexpired now (t.state.lookup k) else t.state.lookup k := by
  have htwice : ∀ e : Option SlidingKeyState, unexpired now (unexpired now e) = unexpired now e :=
    fun e => by simp only [unexpired, Option.filter_filter, Bool.and_self]
  induction keys generalizing t with
  | nil => rfl
  | cons k' keys ih =>
    rw [List.foldl_cons, ih, lookup_clearSlidingWallExpiryIfExpired]
    by_cases hk : k = k'
    · subst hk
      simp [htwice]
    · simp [hk]

/-- The hits a read of the cell reports, if it reports any figures. -/
def readHits (now : ℤ) (s : MemoryStore κ) (k : κ) : Option ℤ :=
  (((s.cell k).clearWall now).snapshot now).map RateLimitResult.totalHits

/-- Every key is read as `get` reads it. -/
theorem getActiveKeys_snd (now : ℤ) (s : MemoryStore κ) :
    (s.getActiveKeys now).2 =
      s.tableKeys.filterMap fun k => (s.readHits now k).map (Prod.mk k) := by
  cases s with
  | sliding o t =>
    refine List.filterMap_congr fun k hk => ?_
    replace hk : k ∈ t.state.keys := hk
    simp only [lookup_foldl_clearWall, if_pos hk, readHits, cell, Cell.clearWall, Cell.snapshot]
    cases unexpired now (t.state.lookup k) with
    | none => rfl
    | some cur =>
      simp only [Option.bind_some, stampsOf_some]
      cases liveStamps o now cur.stamps <;> rfl
  | fixed o t =>
    refine List.filterMap_congr fun k _ => ?_
    simp only [readHits, cell, Cell.clearWall, Cell.snapshot]
    cases t.state.lookup k with
    | none => rfl
    | some e =>
      simp only [Option.bind_some]
      split <;> rfl
  | bucket o t =>
    refine List.filterMap_congr fun k _ => ?_
    simp only [readHits, cell, Cell.clearWall, Cell.snapshot, refillBucketStateForNow_eq]
    cases t.state.lookup k with
    | none => rfl
    | some b =>
      simp only [Option.bind_some]
      split <;> rfl

/-- A key that is not in the table reads as nothing. -/
theorem readHits_of_not_mem {now : ℤ} {s : MemoryStore κ} {k : κ} (h : k ∉ s.tableKeys) :
    s.readHits now k = none := by
  cases s with
  | sliding o t =>
    have hnone : t.state.lookup k = none := AList.lookup_eq_none.mpr fun hk => h hk
    simp only [readHits, cell, Cell.clearWall, hnone]
    rfl
  | fixed o t =>
    have hnone : t.state.lookup k = none := AList.lookup_eq_none.mpr fun hk => h hk
    simp only [readHits, cell, Cell.clearWall, hnone]
    rfl
  | bucket o t =>
    have hnone : t.state.lookup k = none := AList.lookup_eq_none.mpr fun hk => h hk
    simp only [readHits, cell, Cell.clearWall, hnone]
    rfl

/-- The sync reads what the store counts. -/
theorem entryUnits_getActiveKeys (now : ℤ) (s : MemoryStore κ) (k : κ) :
    entryUnits k (s.getActiveKeys now).2 = storeCount now k s := by
  have hcount : storeCount now k s = (s.readHits now k).getD 0 := by
    rw [storeCount_eq]
    rfl
  rw [getActiveKeys_snd, entryUnits_filterMap s.nodup_tableKeys, hcount]
  split
  · rfl
  · next hk => rw [readHits_of_not_mem hk, Option.getD_none]

/-- Nor is an active one. -/
theorem nodup_getActiveKeys (now : ℤ) (s : MemoryStore κ) :
    ((s.getActiveKeys now).2.map Prod.fst).Nodup := by
  rw [getActiveKeys_snd]
  exact nodup_keys_filterMap s.nodup_tableKeys _

/-- A cleared store counts nothing. -/
theorem storeCount_resetAll (now : ℤ) (s : MemoryStore κ) (k : κ) :
    storeCount now k s.resetAll = 0 := by
  rw [storeCount_eq]
  cases s with
  | sliding o t => exact Cell.count_sliding o none
  | fixed o t => exact Cell.count_fixed o none
  | bucket o t => rfl

end MemoryStore

/-! ## The gain of a script -/

namespace RedisWindowKeys

variable {μ : Type} [LinearOrder μ]

/-- The units a script adds for an entry. -/
def scriptUnits (totalHits : ℤ) : RedisWindowKeys κ μ → ℤ
  | .sliding _ => max 0 totalHits
  | .fixed _ => max 1 totalHits

/-- New members are so many more. -/
theorem length_addAll (now : ℤ) {members : List μ} {z : ZSet μ} (hnodup : members.Nodup)
    (hfresh : ∀ p ∈ z, p.2 ∉ members) :
    (members.foldl (fun z m => ZSet.add now m z) z).length = z.length + members.length := by
  induction members generalizing z with
  | nil => rfl
  | cons m members ih =>
    obtain ⟨hnot, hrest⟩ := List.nodup_cons.mp hnodup
    have hself : (z.filter fun p => decide (p.2 ≠ m)) = z := by
      refine List.filter_eq_self.mpr fun p hp => ?_
      have hpm : p.2 ≠ m := fun h => hfresh p hp (h ▸ List.mem_cons_self)
      simpa using hpm
    have hlength : (ZSet.add now m z).length = z.length + 1 := by
      rw [ZSet.add, hself, (List.perm_orderedInsert _ _ _).length_eq, List.length_cons]
    rw [List.foldl_cons, ih hrest, hlength, List.length_cons]
    · omega
    · intro p hp
      rcases ZSet.mem_add hp with rfl | hp
      · exact hnot
      · exact fun hmem => hfresh p hp (List.mem_cons_of_mem m hmem)

/-- A script for an entry adds its units, a fixed window one at least. -/
theorem gain_syncOneKeyToRedis (o : WindowOptions) (clock now : ℤ) (key : κ) (totalHits : ℤ)
    (members : List μ) (redis : RedisWindowKeys κ μ)
    (hfresh : ∀ keys, redis = .sliding keys → 0 < totalHits →
      members.length = totalHits.toNat ∧ members.Nodup ∧
        ∀ h ∈ keys key, ∀ p ∈ h.value, p.2 ∉ members) :
    (redis.syncOneKeyToRedis o clock now key totalHits members).count o clock now key -
      redis.count o clock now key = redis.scriptUnits totalHits := by
  have hpos := o.windowMs_pos
  cases redis with
  | sliding keys =>
    by_cases hn : totalHits ≤ 0
    · simp only [syncOneKeyToRedis, if_pos hn, scriptUnits]
      omega
    · obtain ⟨hlength, hnodup, hnew⟩ := hfresh keys rfl (not_le.mp hn)
      have hpruned : ∀ p ∈ prunedAt o clock now (keys key), p.2 ∉ members := by
        intro p hp
        have hp := List.mem_of_mem_filter hp
        cases hl : RedisKey.live clock (keys key) with
        | none => simp [hl] at hp
        | some h =>
          rw [hl] at hp
          exact hnew h (RedisKey.eq_of_live hl) p hp
      have htake : members.take (max totalHits.toNat 1) = members :=
        List.take_of_length_le (by omega)
      have hadd := length_addAll now hnodup hpruned
      -- the new set is read back as it is: all in it is recent
      have hlater : ∀ {l : List μ} {z : ZSet μ}, (∀ p ∈ z, now - o.windowMs < p.1) →
          ∀ p ∈ l.foldl (fun z m => ZSet.add now m z) z, now - o.windowMs < p.1 := by
        intro l
        induction l with
        | nil => exact fun hz => hz
        | cons m l ih =>
          intro z hz
          refine ih fun p hp => ?_
          rcases ZSet.mem_add hp with rfl | hp
          · simp only
            omega
          · exact hz p hp
      have hrecent := hlater (l := members) (z := prunedAt o clock now (keys key)) fun p hp =>
        of_decide_eq_true (List.mem_filter.mp hp).2
      have hread : prunedAt o clock now
          (luaSlidingIncrAt o clock now totalHits.toNat members (keys key)) =
            members.foldl (fun z m => ZSet.add now m z) (prunedAt o clock now (keys key)) := by
        have hne : members.foldl (fun z m => ZSet.add now m z) (prunedAt o clock now (keys key)) ≠
            [] := by
          intro hnil
          rw [hnil, List.length_nil] at hadd
          omega
        rw [luaSlidingIncrAt, htake, ZSet.store, if_neg hne, prunedAt, RedisKey.live_some,
          if_pos (by omega)]
        refine List.filter_eq_self.mpr fun p hp => ?_
        simpa using hrecent p hp
      simp only [syncOneKeyToRedis, if_neg hn, count, Function.update_self, hread, hadd,
        scriptUnits, hlength]
      omega
  | fixed keys =>
    simp only [syncOneKeyToRedis, count, Function.update_self, scriptUnits]
    cases hl : RedisKey.live clock (keys key) with
    | none =>
      simp only [RedisFixed.luaFixedIncr, hl, if_true, RedisKey.live_some,
        if_pos (show clock < clock + (o.windowMs : ℤ) by omega), Option.map_some, Option.map_none,
        Option.getD_some, Option.getD_none]
      omega
    | some h =>
      have hlive : RedisKey.live clock (some ⟨h.value + (max totalHits.toNat 1 : ℕ), h.expireAt⟩) =
          some ⟨h.value + (max totalHits.toNat 1 : ℕ), h.expireAt⟩ := by
        have hall := (Option.filter_eq_some_iff.mp hl).2
        exact Option.filter_eq_some_iff.mpr ⟨rfl, hall⟩
      simp only [RedisFixed.luaFixedIncr, hl]
      split
      · simp only [RedisKey.live_some,
          if_pos (show clock < clock + (o.windowMs : ℤ) by omega), Option.map_some,
          Option.getD_some]
        omega
      · simp only [hlive, Option.map_some, Option.getD_some]
        omega

end RedisWindowKeys

/-! ## The loop -/

/-- What the insurance store counts for a key while the sync runs. -/
def countedUnits (k : κ) (outs : List (RedisSyncOutput κ)) : ℤ :=
  (outs.map fun
    | .counted key units => if key = k then units else 0
    | _ => 0).sum

/-- What the counter of a key gains in Redis. -/
def gainedUnits (k : κ) (outs : List (RedisSyncOutput κ)) : ℤ :=
  (outs.map fun
    | .gained key units => if key = k then units else 0
    | _ => 0).sum

namespace RedisSync

variable {μ : Type} [LinearOrder μ] {o : WindowOptions} {i : Timed (RedisSyncEvent κ μ)}
  {s : RedisSync κ μ}

/-- No unit is counted that the sync has not read; no script fails for an entry with units, and
none adds to a fixed window for an entry without. -/
def Lossless (i : Timed (RedisSyncEvent κ μ)) (s : RedisSync κ μ) : Prop :=
  match i.op with
  | .increment key options =>
    s.insuranceStore.countedBy options (s.insuranceStore.increment i.time key options).2 = 0
  | .purgeExpired => True
  | .script _ => ∀ e ∈ s.active.head?,
    match s.redis with
    | .sliding _ => 0 ≤ e.2
    | .fixed _ => 1 ≤ e.2
  | .scriptFailed => ∀ e ∈ s.active.head?, e.2 = 0

/-- A count is not negative. -/
theorem countedBy_nonneg (options : RateLimitIncrementOptions) (result : RateLimitResult)
    (store : MemoryStore κ) : 0 ≤ store.countedBy options result := by
  cases store with
  | sliding o t => exact Int.natCast_nonneg _
  | fixed o t => exact Int.natCast_nonneg _
  | bucket o t =>
    simp only [MemoryStore.countedBy]
    split
    · exact le_rfl
    · exact Int.natCast_nonneg _

/-- An event counts units, does one entry, or neither; it loses nothing when it counts none and
gives the entry's counter what the entry holds. -/
theorem step_cases (hfresh : FreshMembers i s) :
    (∃ key units, (step o i s).2 = .counted key units ∧ (step o i s).1.active = s.active ∧
      0 ≤ units ∧ (Lossless i s ↔ units = 0)) ∨
    ((step o i s).2 = .nothing ∧ (step o i s).1.active = s.active ∧ Lossless i s) ∨
    ∃ e units, s.active = e :: (step o i s).1.active ∧ (step o i s).2 = .gained e.1 units ∧
      (Lossless i s ↔ units = e.2) := by
  obtain ⟨now, op⟩ := i
  cases op with
  | increment key options =>
    exact Or.inl ⟨key, _, rfl, rfl, countedBy_nonneg _ _ _, Iff.rfl⟩
  | purgeExpired => exact Or.inr (Or.inl ⟨rfl, rfl, trivial⟩)
  | script members =>
    cases hactive : s.active with
    | nil =>
      refine Or.inr (Or.inl ⟨?_, ?_, ?_⟩)
      · simp only [step, hactive]
      · simp only [step, hactive]
      · simp [Lossless, hactive]
    | cons e rest =>
      have hgain := RedisWindowKeys.gain_syncOneKeyToRedis o now s.now e.1 e.2 members s.redis
        fun keys hkeys hpos => by
          simp only [FreshMembers, hactive, hkeys] at hfresh
          exact hfresh hpos
      refine Or.inr (Or.inr ⟨e, s.redis.scriptUnits e.2, ?_, ?_, ?_⟩)
      · simp only [step, hactive]
      · simp only [step, hactive, hgain]
      · have hhead : ∀ P : κ × ℤ → Prop, (∀ e' ∈ (e :: rest).head?, P e') ↔ P e := by simp
        simp only [Lossless, hactive, hhead]
        cases s.redis with
        | sliding keys => simp only [RedisWindowKeys.scriptUnits]; omega
        | fixed keys => simp only [RedisWindowKeys.scriptUnits]; omega
  | scriptFailed =>
    cases hactive : s.active with
    | nil =>
      refine Or.inr (Or.inl ⟨?_, ?_, ?_⟩)
      · simp only [step, hactive]
      · simp only [step, hactive]
      · simp [Lossless, hactive]
    | cons e rest =>
      refine Or.inr (Or.inr ⟨e, 0, ?_, ?_, ?_⟩)
      · simp only [step, hactive]
      · simp only [step, hactive]
      · have hhead : (∀ e' ∈ (e :: rest).head?, e'.2 = 0) ↔ e.2 = 0 := by simp
        simp only [Lossless, hactive, hhead]
        exact eq_comm

/-- The counter of a key without an entry gains nothing. -/
theorem gainedUnits_of_not_mem {k : κ} {xs : List (Timed (RedisSyncEvent κ μ))}
    (hfresh : Guarded FreshMembers (step o) xs s) (hk : k ∉ s.active.map Prod.fst) :
    gainedUnits k (outputs (step o) xs s) = 0 := by
  induction xs generalizing s with
  | nil => rfl
  | cons i xs ih =>
    rw [outputs_cons, gainedUnits, List.map_cons, List.sum_cons]
    rcases step_cases (o := o) hfresh.1 with ⟨key, units, hout, hactive, -, -⟩ |
      ⟨hout, hactive, -⟩ | ⟨e, units, hactive, hout, -⟩
    · rw [hout]
      simp only [zero_add]
      exact ih hfresh.2 (hactive ▸ hk)
    · rw [hout]
      simp only [zero_add]
      exact ih hfresh.2 (hactive ▸ hk)
    · rw [hactive, List.map_cons, List.mem_cons, not_or] at hk
      rw [hout]
      simp only [if_neg (Ne.symm hk.1), zero_add]
      exact ih hfresh.2 hk.2

/-- Nor are the counts of a run. -/
theorem countedUnits_nonneg {k : κ} {xs : List (Timed (RedisSyncEvent κ μ))}
    (hfresh : Guarded FreshMembers (step o) xs s) :
    0 ≤ countedUnits k (outputs (step o) xs s) := by
  induction xs generalizing s with
  | nil => exact le_rfl
  | cons i xs ih =>
    have hrest := ih hfresh.2
    rw [outputs_cons, countedUnits, List.map_cons, List.sum_cons]
    rw [countedUnits] at hrest
    rcases step_cases (o := o) hfresh.1 with ⟨key, units, hout, -, hpos, -⟩ | ⟨hout, -, -⟩ |
      ⟨e, units, -, hout, -⟩
    · rw [hout]
      simp only
      split <;> omega
    · rw [hout]
      simp only [zero_add]
      exact hrest
    · rw [hout]
      simp only [zero_add]
      exact hrest

/-- A loop to its end gives every counter exactly what the entries hold, and nothing is counted
meanwhile, exactly when no event loses anything. -/
theorem exact_iff {xs : List (Timed (RedisSyncEvent κ μ))}
    (hfresh : Guarded FreshMembers (step o) xs s) (hnodup : (s.active.map Prod.fst).Nodup)
    (hdone : (final (step o) xs s).active = []) :
    (∀ k, gainedUnits k (outputs (step o) xs s) = entryUnits k s.active ∧
      countedUnits k (outputs (step o) xs s) = 0) ↔ Guarded Lossless (step o) xs s := by
  induction xs generalizing s with
  | nil =>
    have hactive : s.active = [] := hdone
    rw [hactive]
    exact ⟨fun _ => trivial, fun _ _ => ⟨rfl, rfl⟩⟩
  | cons i xs ih =>
    have hgained : ∀ k, gainedUnits k (outputs (step o) (i :: xs) s) =
        gainedUnits k [(step o i s).2] + gainedUnits k (outputs (step o) xs (step o i s).1) := by
      intro k
      simp only [outputs_cons, gainedUnits, List.map_cons, List.map_nil, List.sum_cons,
        List.sum_nil, add_zero]
    have hcounted : ∀ k, countedUnits k (outputs (step o) (i :: xs) s) =
        countedUnits k [(step o i s).2] + countedUnits k (outputs (step o) xs (step o i s).1) := by
      intro k
      simp only [outputs_cons, countedUnits, List.map_cons, List.map_nil, List.sum_cons,
        List.sum_nil, add_zero]
    simp only [hgained, hcounted, guarded_cons]
    rcases step_cases (o := o) hfresh.1 with ⟨key, units, hout, hactive, hpos, hlossless⟩ |
      ⟨hout, hactive, hlossless⟩ | ⟨e, units, hactive, hout, hlossless⟩
    · rw [← hactive] at hnodup ⊢
      rw [hlossless, ← ih hfresh.2 hnodup hdone, hout]
      simp only [gainedUnits, countedUnits, List.map_cons, List.map_nil, List.sum_cons,
        List.sum_nil, add_zero, zero_add]
      constructor
      · intro h
        have hzero : ∀ k, (if key = k then units else 0) = 0 ∧
            countedUnits k (outputs (step o) xs (step o i s).1) = 0 := by
          intro k
          have hk := (h k).2
          have hrest := countedUnits_nonneg (k := k) hfresh.2
          rw [countedUnits] at hrest ⊢
          split at hk
          · rw [if_pos ‹_›]
            omega
          · rw [if_neg ‹_›]
            omega
        have hself := (hzero key).1
        rw [if_pos rfl] at hself
        exact ⟨hself, fun k => ⟨(h k).1, (hzero k).2⟩⟩
      · rintro ⟨rfl, h⟩ k
        refine ⟨(h k).1, ?_⟩
        rw [ite_self, zero_add]
        exact (h k).2
    · rw [← hactive] at hnodup ⊢
      rw [← ih hfresh.2 hnodup hdone, hout]
      simp only [gainedUnits, countedUnits, List.map_cons, List.map_nil, List.sum_cons,
        List.sum_nil, add_zero, zero_add]
      exact ⟨fun h => ⟨hlossless, h⟩, fun h => h.2⟩
    · rw [hactive, List.map_cons, List.nodup_cons] at hnodup
      obtain ⟨hnot, hrest⟩ := hnodup
      rw [hlossless, ← ih hfresh.2 hrest hdone, hout, hactive]
      simp only [entryUnits_cons]
      have hself : ∀ k, gainedUnits k [RedisSyncOutput.gained e.1 units] =
          if e.1 = k then units else 0 := fun k => add_zero _
      have hnone : ∀ k, countedUnits k [RedisSyncOutput.gained e.1 units] = 0 := fun k => rfl
      simp only [hself, hnone, zero_add]
      constructor
      · intro h
        have heq := (h e.1).1
        rw [if_pos rfl, if_pos rfl, gainedUnits_of_not_mem hfresh.2 hnot,
          entryUnits_of_not_mem hnot] at heq
        have hunits : units = e.2 := by omega
        refine ⟨hunits, fun k => ⟨?_, (h k).2⟩⟩
        have hk := (h k).1
        rw [hunits] at hk
        exact add_left_cancel hk
      · rintro ⟨rfl, h⟩ k
        exact ⟨by rw [(h k).1], (h k).2⟩

end RedisSync

/-! ## Main result -/

/-- **Recovery loses and invents no hits exactly when no script fails for a key with units, none
adds to a fixed window for a key without, and nothing is counted while the sync runs.**  Here a
key's units before and during the sync are those its counter in Redis gains and those that the
insurance store still counts, and the counter gains no more than the store counted.
SOURCE: src/stores/redis-store.ts:1041-1163, src/stores/memory-store.ts:393-463 -/
theorem insurance_sync_conserves_iff {μ : Type} [LinearOrder μ] (o : WindowOptions) (t₀ : ℤ)
    (store : MemoryStore κ) (redis : RedisWindowKeys κ μ)
    (xs : List (Timed (RedisSyncEvent κ μ)))
    (hfresh : Guarded RedisSync.FreshMembers (RedisSync.step o) xs
      (RedisSync.start t₀ store redis))
    (hdone : (final (RedisSync.step o) xs (RedisSync.start t₀ store redis)).active = []) :
    (∀ k t,
      gainedUnits k (outputs (RedisSync.step o) xs (RedisSync.start t₀ store redis)) ≤
        storeCount t₀ k store ∧
      storeCount t₀ k store +
          countedUnits k (outputs (RedisSync.step o) xs (RedisSync.start t₀ store redis)) =
        gainedUnits k (outputs (RedisSync.step o) xs (RedisSync.start t₀ store redis)) +
          storeCount t k (final (RedisSync.step o) xs (RedisSync.start t₀ store redis)).finish) ↔
      Guarded RedisSync.Lossless (RedisSync.step o) xs (RedisSync.start t₀ store redis) := by
  rw [← RedisSync.exact_iff hfresh (store.nodup_getActiveKeys t₀) hdone]
  have hread : ∀ k, entryUnits k (RedisSync.start t₀ store redis).active = storeCount t₀ k store :=
    store.entryUnits_getActiveKeys t₀
  have hcleared : ∀ t k, storeCount t k
      (final (RedisSync.step o) xs (RedisSync.start t₀ store redis)).finish = 0 :=
    fun t k => MemoryStore.storeCount_resetAll t _ k
  simp only [hread, hcleared, add_zero]
  constructor
  · intro h k
    have hk := h k t₀
    have hpos := RedisSync.countedUnits_nonneg (k := k) hfresh
    omega
  · intro h k _
    have hk := h k
    omega

/-- Two hits of a key that are replayed. -/
theorem insurance_sync_conserves_two :
    let store := ((MemoryStore.sliding twoASecond (KeyTable.new 0)).increment 0 7
      { cost := some 2 }).1
    let redis : RedisWindowKeys ℕ ℕ := .sliding fun _ => none
    let xs : List (Timed (RedisSyncEvent ℕ ℕ)) := [⟨6, .script [5, 3]⟩]
    ∀ k t,
      gainedUnits k (outputs (RedisSync.step twoASecond) xs (RedisSync.start 5 store redis)) ≤
        storeCount 5 k store ∧
      storeCount 5 k store + countedUnits k
          (outputs (RedisSync.step twoASecond) xs (RedisSync.start 5 store redis)) =
        gainedUnits k (outputs (RedisSync.step twoASecond) xs (RedisSync.start 5 store redis)) +
          storeCount t k
            (final (RedisSync.step twoASecond) xs (RedisSync.start 5 store redis)).finish := by
  refine (insurance_sync_conserves_iff (μ := ℕ) twoASecond 5 _ _ [⟨6, .script [5, 3]⟩] ?_ ?_).mpr ?_
  · refine ⟨fun _ => ⟨rfl, by decide, ?_⟩, trivial⟩
    rintro _ ⟨⟩
  · rfl
  · refine ⟨fun e he => ?_, trivial⟩
    cases he
    exact Int.natCast_nonneg 2

/-- The script for a key with a hit fails; the hit is gone from the insurance store, and never
came to Redis. -/
theorem insurance_sync_drops_failed :
    let store := ((MemoryStore.fixed twoASecond (KeyTable.new 0)).increment 0 7 {}).1
    let redis : RedisWindowKeys ℕ ℕ := .fixed fun _ => none
    let xs : List (Timed (RedisSyncEvent ℕ ℕ)) := [⟨6, .scriptFailed⟩]
    (final (RedisSync.step twoASecond) xs (RedisSync.start 5 store redis)).active = [] ∧
      storeCount 5 7 store = 1 ∧
      gainedUnits 7 (outputs (RedisSync.step twoASecond) xs (RedisSync.start 5 store redis)) = 0 ∧
      storeCount 7 7
        (final (RedisSync.step twoASecond) xs (RedisSync.start 5 store redis)).finish = 0 := by
  decide

end RatelimitFlex
