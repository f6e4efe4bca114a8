import RatelimitFlex.Analysis.Evictions
import RatelimitFlex.Library.Slices
import RatelimitFlex.Model.Charges

/-!
# The fixed window of `MemoryStore` counts in slices

Every key's entry is the slice of its last hit, unless a purge or an eviction dropped it when
it was over (`FixedMatches`).  So the answers of a run are those of the slices
(`fixed_answers`), and what slices admit bounds what the store does.
-/

set_option autoImplicit false

namespace RatelimitFlex

open Library

variable {κ : Type} [DecidableEq κ]

/-- Increments, reads and purges; the increments of `k` with this cap. -/
def chargesWithCap (o : WindowOptions) (k : κ) (cap : ℕ) : StoreOp κ → Bool
  | .increment key options => decide (key = k → o.cap options.maxRequests = cap)
  | .get _ => true
  | .purgeExpired => true
  | _ => false

/-- The hit on `k` that an operation is. -/
def hitOf (k : κ) (i : Timed (StoreOp κ)) : Option Hit :=
  match i.op with
  | .increment key options => if key = k then some ⟨i.time, options.sanitizedCost⟩ else none
  | _ => none

/-- The hits on `k` of a run. -/
def hitsOn (k : κ) (is : List (Timed (StoreOp κ))) : List Hit := is.filterMap (hitOf k)

/-- The hit on `k` and the beginning of the slice whose end the reply names. -/
def sliceOf (o : WindowOptions) (k : κ) : Timed (StoreOp κ) × StoreReply → Option (Hit × ℤ)
  | (⟨now, .increment key options⟩, .result r) =>
    if key = k then some (⟨now, options.sanitizedCost⟩, r.resetTime - o.windowMs) else none
  | _ => none

/-- The hits on `k`, each with the beginning of its slice. -/
def slicesOn (o : WindowOptions) (k : κ) (is : List (Timed (StoreOp κ)))
    (rs : List StoreReply) : List (Hit × ℤ) :=
  (is.zip rs).filterMap (sliceOf o k)

/-- The entry is the slice, or was dropped when the slice was over. -/
def FixedMatches (o : WindowOptions) (t : ℤ) (e : Option FixedEntry) (cur : Option Slice) : Prop :=
  e = cur.map (fun s => ⟨s.count, s.start + o.windowMs⟩) ∨
    e = none ∧ ∀ s ∈ cur, s.start + o.windowMs ≤ t

/-! ## One step -/

section Step

variable {o : WindowOptions} {t now : ℤ} {e : Option FixedEntry} {cur : Option Slice}

/-- A slice that matches does so later. -/
theorem FixedMatches.mono (h : FixedMatches o t e cur) (ht : t ≤ now) :
    FixedMatches o now e cur :=
  h.imp id fun ⟨he, hover⟩ => ⟨he, fun s hs => (hover s hs).trans ht⟩

/-- An increment charges the slice. -/
theorem FixedMatches.increment (h : FixedMatches o t e cur) (ht : t ≤ now) (cost : ℕ) :
    fixedAfterIncrement o now cost e =
      ⟨(Slice.charge o.windowMs cur ⟨now, cost⟩).count,
        (Slice.charge o.windowMs cur ⟨now, cost⟩).start + o.windowMs⟩ := by
  rcases h with rfl | ⟨rfl, hover⟩
  · cases cur with
    | none => rfl
    | some s =>
      simp only [Option.map_some, fixedAfterIncrement, Slice.charge]
      split
      · rfl
      · simp only [Nat.cast_add]
  · cases cur with
    | none => rfl
    | some s =>
      have hend := hover s rfl
      simp only [fixedAfterIncrement, Slice.charge]
      rw [if_pos (hend.trans ht)]

/-- An expired entry may be dropped. -/
theorem FixedMatches.dropped (h : FixedMatches o t e cur) (ht : t ≤ now)
    (hexp : ∀ x ∈ e, fixedExpired now x = true) : FixedMatches o now none cur := by
  refine Or.inr ⟨rfl, fun s hs => ?_⟩
  rcases h with rfl | ⟨rfl, hover⟩
  · obtain rfl : cur = some s := hs
    exact of_decide_eq_true (hexp _ rfl)
  · exact (hover s hs).trans ht

/-- A purge drops a slice that is over. -/
theorem FixedMatches.purge (h : FixedMatches o t e cur) (ht : t ≤ now) :
    FixedMatches o now (e.bind fun e => if e.resetTime ≤ now then none else some e) cur := by
  cases e with
  | none => exact h.mono ht
  | some x =>
    rw [Option.bind_some]
    split
    · next hend =>
      refine h.dropped ht ?_
      rintro _ ⟨⟩
      exact decide_eq_true hend
    · exact h.mono ht

end Step

/-- The store is a window store whose entry of `k` is the slice. -/
def AtSlice (o : WindowOptions) (k : κ) (t : ℤ) (s : MemoryStore κ) (cur : Option Slice) : Prop :=
  ∃ tbl, s = .fixed o tbl ∧ FixedMatches o t (tbl.state.lookup k) cur

section Run

variable {o : WindowOptions} {k : κ} {cap : ℕ} {t now : ℤ} {cur : Option Slice}
  {s : MemoryStore κ}

/-- An increment of another key keeps the entry, or drops it when it is expired. -/
theorem AtSlice.increment_other (h : AtSlice o k t s cur) (ht : t ≤ now) {key : κ} (hk : k ≠ key)
    (options : RateLimitIncrementOptions)
    (hlru : (k, .lruCap) ∉ (s.increment now key options).1.evictions) :
    AtSlice o k now (s.increment now key options).1 cur := by
  obtain ⟨tbl, rfl, hm⟩ := h
  refine ⟨_, rfl, ?_⟩
  revert hlru
  simp only [MemoryStore.increment, MemoryStore.evictions, incrementFixed]
  cases tbl.state.lookup key with
  | none =>
    simp only [KeyTable.evictions_put, KeyTable.evictions_dropForLru,
      KeyTable.lookup_put_dropForLru, if_neg hk]
    intro hlru
    rcases KeyTable.lookup_ensureRoomForNewKey_expired hlru with heq | ⟨hnone, hexp⟩
    · rw [heq]
      exact hm.mono ht
    · rw [hnone]
      exact hm.dropped ht hexp
  | some e =>
    intro _
    by_cases hexp : e.resetTime ≤ now
    · simp only [if_pos hexp, KeyTable.lookup_put_dropForLru, if_neg hk]
      exact hm.mono ht
    · simp only [if_neg hexp, KeyTable.lookup_put_dropForLru, if_neg hk]
      exact hm.mono ht

/-- An increment of the key charges the slice, and answers with it. -/
theorem AtSlice.increment (h : AtSlice o k t s cur) (ht : t ≤ now)
    (options : RateLimitIncrementOptions) :
    let next := Slice.charge o.windowMs cur ⟨now, options.sanitizedCost⟩
    AtSlice o k now (s.increment now k options).1 (some next) ∧
      (s.increment now k options).2 =
        RateLimitResult.ofUsage next.count (o.cap options.maxRequests)
          (next.start + o.windowMs) := by
  intro next
  obtain ⟨tbl, rfl, hm⟩ := h
  have hentry := hm.increment ht options.sanitizedCost
  refine ⟨⟨_, rfl, Or.inl ?_⟩, ?_⟩
  · rw [lookup_incrementFixed_self, hentry]
    rfl
  · show (incrementFixed o now k options.maxRequests options.sanitizedCost tbl).2 = _
    rw [incrementFixed_snd, hentry]

/-- **The answers of a run are those of its slices**: which hits are admitted, and which slice
each falls into. -/
theorem fixed_answers {is : List (Timed (StoreOp κ))} (hcur : AtSlice o k t s cur)
    (hord : OrderedFrom Timed.time t is)
    (hops : ∀ i ∈ is, chargesWithCap o k cap i.op = true)
    (hlru : (k, .lruCap) ∉ (final MemoryStore.step is s).evictions) :
    charges k is (outputs MemoryStore.step is s) =
        Slice.admissions cap (Slice.sliceRun o.windowMs cur (hitsOn k is)) ∧
      slicesOn o k is (outputs MemoryStore.step is s) =
        (Slice.sliceRun o.windowMs cur (hitsOn k is)).map fun p => (p.1, p.2.start) := by
  induction is generalizing t s cur with
  | nil => exact ⟨rfl, rfl⟩
  | cons i is ih =>
    obtain ⟨now, op⟩ := i
    obtain ⟨ht, hord⟩ := hord
    have hop := hops _ List.mem_cons_self
    have hrest := fun j hj => hops j (List.mem_cons_of_mem _ hj)
    have hone : (k, .lruCap) ∉ (s.step ⟨now, op⟩).1.evictions := fun hmem =>
      hlru ((MemoryStore.evictions_prefix_final is _).subset hmem)
    -- an operation that is no hit on the key adds nothing to either list
    have hskip : AtSlice o k now (s.step ⟨now, op⟩).1 cur → hitOf k ⟨now, op⟩ = none →
        chargeOf k (⟨now, op⟩, (s.step ⟨now, op⟩).2) = none →
        sliceOf o k (⟨now, op⟩, (s.step ⟨now, op⟩).2) = none →
        charges k (⟨now, op⟩ :: is) (outputs MemoryStore.step (⟨now, op⟩ :: is) s) =
            Slice.admissions cap (Slice.sliceRun o.windowMs cur (hitsOn k (⟨now, op⟩ :: is))) ∧
          slicesOn o k (⟨now, op⟩ :: is) (outputs MemoryStore.step (⟨now, op⟩ :: is) s) =
            (Slice.sliceRun o.windowMs cur (hitsOn k (⟨now, op⟩ :: is))).map
              fun p => (p.1, p.2.start) := by
      intro hnext hhit hcharge hslice
      have hall := ih hnext hord hrest hlru
      rw [outputs_cons, charges_cons, hcharge, slicesOn, List.zip_cons_cons,
        List.filterMap_cons_none hslice, hitsOn, List.filterMap_cons_none hhit]
      exact hall
    cases op with
    | increment key options =>
      by_cases hk : key = k
      · subst hk
        have hcap : o.cap options.maxRequests = cap := of_decide_eq_true hop rfl
        obtain ⟨hnext, hreply⟩ := hcur.increment ht options
        obtain ⟨hadm, hsl⟩ := ih hnext hord hrest hlru
        have hstep : (s.step ⟨now, .increment key options⟩).2 =
            .result (s.increment now key options).2 := rfl
        have hhit : hitOf key ⟨now, .increment key options⟩ =
            some ⟨now, options.sanitizedCost⟩ := if_pos rfl
        rw [hcap] at hreply
        rw [hitsOn, List.filterMap_cons_some hhit, Slice.sliceRun]
        constructor
        · rw [outputs_cons, charges_cons, hstep, hreply]
          simp only [chargeOf, if_true, Option.toList_some, List.singleton_append,
            RateLimitResult.isBlocked_ofUsage, Slice.admissions, List.map_cons]
          refine List.cons_eq_cons.mpr ⟨?_, hadm⟩
          simp only [← decide_not, Nat.cast_lt, not_lt]
        · rw [outputs_cons, slicesOn, List.zip_cons_cons, hstep, hreply]
          have hslice : sliceOf o key (⟨now, .increment key options⟩,
              .result (RateLimitResult.ofUsage
                (Slice.charge o.windowMs cur ⟨now, options.sanitizedCost⟩).count cap
                ((Slice.charge o.windowMs cur ⟨now, options.sanitizedCost⟩).start +
                  o.windowMs))) = some (⟨now, options.sanitizedCost⟩,
              (Slice.charge o.windowMs cur ⟨now, options.sanitizedCost⟩).start) := by
            simp only [sliceOf, if_true, RateLimitResult.resetTime_ofUsage, add_sub_cancel_right]
          rw [List.filterMap_cons_some hslice, List.map_cons]
          exact List.cons_eq_cons.mpr ⟨rfl, hsl⟩
      · exact hskip (hcur.increment_other ht (Ne.symm hk) options hone) (if_neg hk) (if_neg hk)
          (if_neg hk)
    | get key =>
      refine hskip ?_ rfl rfl rfl
      obtain ⟨tbl, rfl, hm⟩ := hcur
      refine ⟨_, rfl, ?_⟩
      rw [lookup_getFixedReadOnly]
      exact hm.mono ht
    | purgeExpired =>
      refine hskip ?_ rfl rfl rfl
      obtain ⟨tbl, rfl, hm⟩ := hcur
      refine ⟨_, rfl, ?_⟩
      rw [lookup_purgeFixed]
      exact hm.purge ht
    | decrement key options => exact Bool.noConfusion hop
    | set key totalHits expiresAt => exact Bool.noConfusion hop
    | reset key => exact Bool.noConfusion hop
    | delete key => exact Bool.noConfusion hop

end Run

/-- The hits on a key are in order. -/
theorem orderedFrom_hitsOn (k : κ) {t : ℤ} {is : List (Timed (StoreOp κ))}
    (h : OrderedFrom Timed.time t is) : OrderedFrom Hit.time t (hitsOn k is) := by
  induction is generalizing t with
  | nil => trivial
  | cons i is ih =>
    have hrest := ih h.2
    rw [hitsOn, List.filterMap_cons]
    cases hh : hitOf k i with
    | none => exact hrest.mono h.1
    | some x =>
      have htime : x.time = i.time := by
        revert hh
        unfold hitOf
        split
        · split
          · exact fun hh => (Option.some.inj hh) ▸ rfl
          · exact fun hh => absurd hh.symm (Option.some_ne_none x)
        · exact fun hh => absurd hh.symm (Option.some_ne_none x)
      exact ⟨htime ▸ h.1, htime ▸ hrest⟩

/-- **What a fixed window admits.**  In a run of increments, reads and purges in time order,
of which none drives out a key by the LRU rule: each hit on a key falls into its slice, a
slice begins with the first hit after the one before it and overlaps no other, and the hits
admitted weigh at most the cap in a slice and twice the cap in any interval of its length.
SOURCE: src/stores/memory-store.ts:708-726, 869-894, 1038-1045 -/
theorem fixed_window_admission (o : WindowOptions) (maxKeys cap : ℕ) (k : κ) (t : ℤ)
    (is : List (Timed (StoreOp κ))) (hord : OrderedFrom Timed.time t is)
    (hops : ∀ i ∈ is, chargesWithCap o k cap i.op = true)
    (hlru : ∀ j, (j, .lruCap) ∉
      (final MemoryStore.step is (.fixed o (KeyTable.new maxKeys))).evictions) :
    let rs := outputs MemoryStore.step is (.fixed o (KeyTable.new maxKeys))
    let admitted := Hit.admitted (charges k is rs)
    (∀ p ∈ slicesOn o k is rs, p.2 ≤ p.1.time ∧ p.1.time < p.2 + o.windowMs) ∧
      (∀ p ∈ (slicesOn o k is rs).head?, p.2 = p.1.time) ∧
      ((slicesOn o k is rs).IsChain fun p q : Hit × ℤ =>
        if p.2 + o.windowMs ≤ q.1.time then q.2 = q.1.time else q.2 = p.2) ∧
      ((slicesOn o k is rs).Pairwise fun p q : Hit × ℤ =>
        q.2 = p.2 ∨ p.2 + o.windowMs ≤ q.2) ∧
      (∀ p ∈ slicesOn o k is rs,
        Hit.windowCost (p.2 - 1) (p.2 + o.windowMs - 1) admitted ≤ cap) ∧
      ∀ a, Hit.windowCost a (a + o.windowMs) admitted ≤ 2 * cap := by
  intro rs admitted
  have hW : (1 : ℤ) ≤ o.windowMs := by exact_mod_cast o.windowMs_pos
  have hhits := orderedFrom_hitsOn k hord
  have hnone : Slice.Begun t none := fun s hs => absurd hs (Option.not_mem_none s)
  have hstart : AtSlice o k t (.fixed o (KeyTable.new maxKeys)) none :=
    ⟨KeyTable.new maxKeys, rfl, Or.inl rfl⟩
  obtain ⟨hadm, hsl⟩ := fixed_answers hstart hord hops (hlru k)
  simp only [admitted, rs, hadm, hsl]
  refine ⟨?_, ?_, ?_, ?_, ?_, ?_⟩
  · intro p hp
    obtain ⟨q, hq, rfl⟩ := List.mem_map.mp hp
    exact Slice.mem_sliceRun hW hnone hhits hq
  · cases hitsOn k is with
    | nil => exact fun p hp => absurd hp (Option.not_mem_none p)
    | cons h l =>
      rintro _ ⟨⟩
      rfl
  · exact (List.isChain_map _).mpr (Slice.isChain_sliceRun hW hnone hhits)
  · exact List.pairwise_map.mpr (Slice.pairwise_sliceRun hW hnone hhits)
  · intro p hp
    obtain ⟨q, hq, rfl⟩ := List.mem_map.mp hp
    exact Slice.windowCost_slice_le hW hhits cap hq
  · exact Slice.windowCost_admitted_le hW hhits cap

/-- Two hits, a purge when their slice is over, and a hit. -/
def hitsAroundPurge : List (Timed (StoreOp ℕ)) :=
  [⟨300, .increment 7 {}⟩, ⟨900, .increment 7 {}⟩, ⟨1300, .purgeExpired⟩, ⟨1400, .increment 7 {}⟩]

/-- Two slices of a second, the first admitting one of its two hits. -/
theorem fixed_window_admission_two_slices :
    Hit.windowCost 500 (500 + 1000) (Hit.admitted (charges 7 hitsAroundPurge
      (outputs MemoryStore.step hitsAroundPurge (.fixed oneASecond (KeyTable.new 2))))) ≤ 2 := by
  have hgone : (final MemoryStore.step hitsAroundPurge
      (.fixed oneASecond (KeyTable.new 2))).evictions = [(7, .expired)] := by decide
  have hlru : ∀ j, (j, .lruCap) ∉ (final MemoryStore.step hitsAroundPurge
      (.fixed oneASecond (KeyTable.new 2))).evictions := by
    rw [hgone]
    simp
  exact (fixed_window_admission oneASecond 2 1 7 0 hitsAroundPurge (by decide) (by decide)
    hlru).2.2.2.2.2 500

end RatelimitFlex
