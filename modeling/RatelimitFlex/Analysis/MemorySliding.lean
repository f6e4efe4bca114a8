import RatelimitFlex.Model.Charges
import RatelimitFlex.Model.SlidingLog
import RatelimitFlex.Analysis.MemoryCells

/-!
# The sliding window of `MemoryStore` refines the timestamp log

`SlidingMatches` ties a key's stored stamps to its logged hits: seen from now on, at
every later clock reading, the live part of the one is the live part of the other.
Increments, reads, resets, deletions and purges each keep it (`sliding_step`), so the
answers of a whole run are those of the log (`sliding_outputs`).  The admission bound is
then a fact about the log.
-/

set_option autoImplicit false

namespace RatelimitFlex

open Library SlidingLog

variable {κ : Type} [DecidableEq κ]

/-! ## Stamps and hits of one key -/

/-- A key's entry matches its hits at time `t`: no wall expiry is set, the hits are in
time order and over by `t`, each weighs something, and at every later time the live
stamps are the live hits written out. -/
structure SlidingMatches (o : WindowOptions) (t : ℤ) (e : Option SlidingKeyState)
    (hits : List Hit) : Prop where
  wall : ∀ s ∈ e, s.wallExpiresAt = none
  live : ∀ now, t ≤ now → liveStamps o now (stampsOf e) = liveStamps o now (Hit.expand hits)
  past : ∀ h ∈ hits, h.time ≤ t
  sorted : (hits.map Hit.time).Pairwise (· ≤ ·)
  pos : ∀ h ∈ hits, 1 ≤ h.cost

/-- An entry that matches its log does so later. -/
theorem SlidingMatches.mono {o : WindowOptions} {t t' : ℤ} {e : Option SlidingKeyState}
    {hits : List Hit} (h : SlidingMatches o t e hits) (ht : t ≤ t') :
    SlidingMatches o t' e hits where
  wall := h.wall
  live now hnow := h.live now (ht.trans hnow)
  past x hx := (h.past x hx).trans ht
  sorted := h.sorted
  pos := h.pos

/-- A key with no entry matches the empty log. -/
theorem slidingMatches_nil (o : WindowOptions) (t : ℤ) : SlidingMatches o t none [] where
  wall := by simp
  live := by simp [stampsOf]
  past := by simp
  sorted := by simp
  pos := by simp

/-- The live stamps of a log are its live hits written out, when none is in the future. -/
theorem liveStamps_expand (o : WindowOptions) {now : ℤ} {hits : List Hit}
    (hpast : ∀ h ∈ hits, h.time ≤ now) :
    liveStamps o now (Hit.expand hits) = Hit.expand (Hit.window (now - o.windowMs) now hits) := by
  unfold liveStamps
  rw [Hit.filter_expand]
  congr 1
  refine List.filter_congr fun h hh => ?_
  simp [hpast h hh]

section Figures

variable {o : WindowOptions} {now : ℤ} {hits : List Hit}

/-- The live units are the live costs. -/
theorem length_live_eq (hpast : ∀ h ∈ hits, h.time ≤ now) :
    (liveStamps o now (Hit.expand hits)).length = liveCost o now hits := by
  rw [liveStamps_expand o hpast, Hit.length_expand]
  rfl

/-- In a log in time order the first live stamp is the earliest live hit. -/
theorem head?_live_eq (hpast : ∀ h ∈ hits, h.time ≤ now)
    (hsorted : (hits.map Hit.time).Pairwise (· ≤ ·)) (hpos : ∀ h ∈ hits, 1 ≤ h.cost) :
    (liveStamps o now (Hit.expand hits)).head? = oldestLive o now hits := by
  have hposw : ∀ h ∈ Hit.window (now - o.windowMs) now hits, 1 ≤ h.cost :=
    fun h hh => hpos h (Hit.mem_window.mp hh).1
  rw [liveStamps_expand o hpast, Hit.head?_expand hposw, oldestLive, List.min?_eq_head?]
  have hsub : ((Hit.window (now - o.windowMs) now hits).map Hit.time).Sublist
      (hits.map Hit.time) := List.filter_sublist.map _
  exact (hsorted.sublist hsub).imp fun h => min_eq_left h

/-- The figures of a list of stamps that is the live part of the log are the log's. -/
theorem ofUsage_eq_answer {stamps : List ℤ} (cap : ℕ)
    (hstamps : stamps = liveStamps o now (Hit.expand hits)) (hpast : ∀ h ∈ hits, h.time ≤ now)
    (hsorted : (hits.map Hit.time).Pairwise (· ≤ ·)) (hpos : ∀ h ∈ hits, 1 ≤ h.cost) :
    RateLimitResult.ofUsage stamps.length cap (stamps.head?.getD now + o.windowMs) =
      answer o cap now hits := by
  rw [hstamps, length_live_eq hpast, head?_live_eq hpast hsorted hpos]
  have hrem := RateLimitResult.remaining_ofUsage (liveCost o now hits) cap
    ((oldestLive o now hits).getD now + o.windowMs)
  unfold answer RateLimitResult.ofUsage at *
  simp only [Nat.cast_lt] at *
  rw [hrem]

end Figures

/-! ## One step -/

/-- What the sliding window's run is required to be: increments, reads, resets, deletions
and purges, none of which meets the key cap. -/
def CoveredWithRoom (i : Timed (StoreOp κ)) (s : MemoryStore κ) : Prop :=
  covers i.op = true ∧ s.StepHasRoom i

instance (i : Timed (StoreOp κ)) (s : MemoryStore κ) : Decidable (CoveredWithRoom i s) :=
  inferInstanceAs (Decidable (_ ∧ _))

/-- An increment appends to the live stamps what it appends to the log. -/
theorem SlidingMatches.increment {o : WindowOptions} {t now : ℤ} {e : Option SlidingKeyState}
    {hits : List Hit} {cost : ℕ} (h : SlidingMatches o t e hits) (ht : t ≤ now)
    (hcost : 1 ≤ cost) :
    SlidingMatches o now
      (some ⟨liveStamps o now (stampsOf e) ++ List.replicate cost now, none⟩)
      (hits ++ [⟨now, cost⟩]) where
  wall := by simp
  live now' hnow' := by
    simp only [stampsOf_some, Hit.expand_append, Hit.expand_cons, Hit.expand_nil,
      List.append_nil, liveStamps_append]
    rw [liveStamps_liveStamps o hnow', h.live now' (ht.trans hnow')]
  past x hx := by
    rcases List.mem_append.mp hx with hx | hx
    · exact (h.past x hx).trans ht
    · rw [List.mem_singleton.mp hx]
  sorted := by
    rw [List.map_append, List.pairwise_append]
    refine ⟨h.sorted, by simp, ?_⟩
    intro a ha b hb
    obtain ⟨x, hx, rfl⟩ := List.mem_map.mp ha
    simp only [List.map_cons, List.map_nil, List.mem_singleton] at hb
    exact hb ▸ (h.past x hx).trans ht
  pos x hx := by
    rcases List.mem_append.mp hx with hx | hx
    · exact h.pos x hx
    · rw [List.mem_singleton.mp hx]
      exact hcost

/-- What an increment leaves in the map is the live part of the extended log. -/
theorem SlidingMatches.trimmed_eq {o : WindowOptions} {t now : ℤ} {e : Option SlidingKeyState}
    {hits : List Hit} (h : SlidingMatches o t e hits) (ht : t ≤ now) (cost : ℕ) :
    liveStamps o now (stampsOf e) ++ List.replicate cost now =
      liveStamps o now (Hit.expand (hits ++ [⟨now, cost⟩])) := by
  rw [Hit.expand_append, liveStamps_append, h.live now ht, Hit.expand_cons, Hit.expand_nil,
    List.append_nil, liveStamps_replicate_now]

/-- An entry with the same live stamps, and no wall expiry, matches the same hits. -/
theorem SlidingMatches.of_stamps {o : WindowOptions} {t now : ℤ} {e e' : Option SlidingKeyState}
    {hits : List Hit} (h : SlidingMatches o t e hits) (ht : t ≤ now)
    (hstamps : stampsOf e' = liveStamps o now (stampsOf e))
    (hwall : ∀ s ∈ e', s.wallExpiresAt = none) : SlidingMatches o now e' hits where
  wall := hwall
  live now' hnow' := by
    rw [hstamps, liveStamps_liveStamps o hnow', h.live now' (ht.trans hnow')]
  past x hx := (h.past x hx).trans ht
  sorted := h.sorted
  pos := h.pos

/-- The store is a sliding-window store whose every key matches the log. -/
def RefinesLog (o : WindowOptions) (t : ℤ) (s : MemoryStore κ) (L : SlidingLog κ) : Prop :=
  ∃ tbl, s = .sliding o tbl ∧ ∀ k, SlidingMatches o t (tbl.state.lookup k) (L k)

/-- Reading a snapshot off the live stamps is reading it off the log. -/
theorem SlidingMatches.snapshot_eq {o : WindowOptions} {t now : ℤ}
    {e : Option SlidingKeyState} {hits : List Hit} (h : SlidingMatches o t e hits)
    (ht : t ≤ now) :
    (match liveStamps o now (stampsOf e) with
      | [] => none
      | oldest :: rest => some (RateLimitResult.ofUsage (oldest :: rest).length o.maxRequests
          (oldest + o.windowMs))) =
      if liveCost o now hits = 0 then none else some (answer o o.maxRequests now hits) := by
  have hpast : ∀ x ∈ hits, x.time ≤ now := fun x hx => (h.past x hx).trans ht
  have hlen := length_live_eq (o := o) hpast
  rw [h.live now ht]
  cases hl : liveStamps o now (Hit.expand hits) with
  | nil =>
    rw [hl, List.length_nil] at hlen
    simp [← hlen]
  | cons oldest rest =>
    have hne : liveCost o now hits ≠ 0 := by
      rw [hl, List.length_cons] at hlen
      omega
    rw [if_neg hne, ← ofUsage_eq_answer o.maxRequests hl.symm hpast h.sorted h.pos]
    rfl

/-- One step of the store is one step of the log, and answers the same. -/
theorem sliding_step {o : WindowOptions} (t : ℤ) (s : MemoryStore κ) (L : SlidingLog κ)
    (i : Timed (StoreOp κ)) (hR : RefinesLog o t s L) (ht : t ≤ i.time)
    (hg : CoveredWithRoom i s) :
    (MemoryStore.step i s).2.withoutExisted = (SlidingLog.step o i L).2 ∧
      RefinesLog o i.time (MemoryStore.step i s).1 (SlidingLog.step o i L).1 := by
  obtain ⟨tbl, rfl, hm⟩ := hR
  obtain ⟨now, op⟩ := i
  obtain ⟨hcov, hroom⟩ := hg
  cases op with
  | increment key options =>
    have hk := hm key
    have hcost := options.one_le_sanitizedCost
    refine ⟨?_, _, rfl, fun k => ?_⟩
    · simp only [MemoryStore.step, MemoryStore.increment, SlidingLog.step,
        StoreReply.withoutExisted, incrementSliding_snd o now key tbl _ _ hk.wall]
      have hnew := hk.increment ht hcost
      rw [ofUsage_eq_answer _ (hk.trimmed_eq ht _) hnew.past hnew.sorted hnew.pos]
    · simp only [SlidingLog.step, lookup_incrementSliding o now key k tbl _ _ hk.wall hroom]
      by_cases hkk : k = key
      · subst hkk
        simpa using hk.increment ht hcost
      · simpa [hkk] using (hm k).mono ht
  | decrement key options => simp [covers] at hcov
  | get key =>
    have hk := hm key
    refine ⟨?_, _, rfl, fun k => ?_⟩
    · simp only [MemoryStore.step, MemoryStore.get, SlidingLog.step, StoreReply.withoutExisted,
        getSlidingReadOnly_snd o now key tbl hk.wall]
      exact congrArg StoreReply.snapshot (hk.snapshot_eq ht)
    · simp only [SlidingLog.step, lookup_getSlidingReadOnly o now key k tbl hk.wall]
      exact (hm k).mono ht
  | set key totalHits expiresAt => simp [covers] at hcov
  | reset key =>
    refine ⟨rfl, _, rfl, fun k => ?_⟩
    by_cases hkk : k = key
    · subst hkk
      simpa [SlidingLog.step] using slidingMatches_nil o now
    · simpa [SlidingLog.step, hkk] using (hm k).mono ht
  | delete key =>
    refine ⟨rfl, _, rfl, fun k => ?_⟩
    by_cases hkk : k = key
    · subst hkk
      simpa [SlidingLog.step] using slidingMatches_nil o now
    · simpa [SlidingLog.step, hkk] using (hm k).mono ht
  | purgeExpired =>
    refine ⟨rfl, _, rfl, fun k => ?_⟩
    exact (hm k).of_stamps ht (stampsOf_purgeSliding o now k tbl (hm k).wall)
      (wall_purgeSliding o now k tbl (hm k).wall)

/-! ## Whole runs -/

/-- A new store and the empty log correspond. -/
theorem refinesLog_new (o : WindowOptions) (maxKeys : ℕ) (t : ℤ) :
    RefinesLog o t (MemoryStore.sliding o (KeyTable.new maxKeys) : MemoryStore κ)
      (fun _ => []) :=
  ⟨_, rfl, fun _ => slidingMatches_nil o t⟩

/-- The answers of a whole run are those of the log. -/
theorem sliding_outputs {o : WindowOptions} {t : ℤ} {s : MemoryStore κ} {L : SlidingLog κ}
    {is : List (Timed (StoreOp κ))} (hR : RefinesLog o t s L)
    (hord : OrderedFrom Timed.time t is)
    (hg : Guarded CoveredWithRoom MemoryStore.step is s) :
    (outputs MemoryStore.step is s).map StoreReply.withoutExisted =
        outputs (SlidingLog.step o) is L ∧
      RefinesLog o (lastClock Timed.time t is) (final MemoryStore.step is s)
        (final (SlidingLog.step o) is L) :=
  outputs_eq_of_simulation StoreReply.withoutExisted
    (fun t s L i hR ht hg => sliding_step t s L i hR ht hg) hR hord hg

/-! ## The admission bound -/

/-- The operation leaves the hits recorded for `k` in place. -/
def keepsHits (k : κ) (i : Timed (StoreOp κ)) : Bool :=
  match i.op with
  | .reset key => decide (key ≠ k)
  | .delete key => decide (key ≠ k)
  | _ => true

/-- The operation does not increment `k` under another cap than `cap`. -/
def underCap (o : WindowOptions) (k : κ) (cap : ℕ) (i : Timed (StoreOp κ)) : Bool :=
  match i.op with
  | .increment key options => decide (key = k → o.cap options.maxRequests = cap)
  | _ => true

/-- Charges read the figures of a reply only. -/
theorem charges_withoutExisted (k : κ) (is : List (Timed (StoreOp κ))) (rs : List StoreReply) :
    charges k is (rs.map StoreReply.withoutExisted) = charges k is rs := by
  induction is generalizing rs with
  | nil => cases rs <;> rfl
  | cons i is ih =>
    cases rs with
    | nil => rfl
    | cons r rs =>
      rw [List.map_cons, charges_cons, charges_cons, ih]
      congr 2
      obtain ⟨now, op⟩ := i
      cases op <;> cases r <;> rfl

/-- While the hits of `k` are kept and its cap is constant, the log admits a hit only when
the hits recorded in its own window, itself included, fit the cap. -/
theorem admittedWithin_log {o : WindowOptions} {k : κ} {cap : ℕ}
    {is : List (Timed (StoreOp κ))} (hkeep : ∀ i ∈ is, keepsHits k i = true)
    (hcap : ∀ i ∈ is, underCap o k cap i = true) (L : SlidingLog κ) :
    Hit.AdmittedWithin o.windowMs cap (L k)
      (charges k is (outputs (SlidingLog.step o) is L)) := by
  induction is generalizing L with
  | nil => trivial
  | cons i is ih =>
    rw [outputs_cons, charges_cons]
    have hrest := ih (fun j hj => hkeep j (List.mem_cons_of_mem i hj))
      (fun j hj => hcap j (List.mem_cons_of_mem i hj)) (SlidingLog.step o i L).1
    have hki := hkeep i List.mem_cons_self
    have hci := hcap i List.mem_cons_self
    obtain ⟨now, op⟩ := i
    cases op with
    | increment key options =>
      by_cases hk : key = k
      · subst hk
        simp only [underCap, forall_const, decide_eq_true_eq] at hci
        simp only [SlidingLog.step, Function.update_self] at hrest
        simp only [SlidingLog.step, chargeOf, if_true, Option.toList_some, List.singleton_append]
        refine ⟨fun hok => ?_, hrest⟩
        simpa [answer, hci, liveCost] using hok
      · simp only [SlidingLog.step, Function.update_of_ne (Ne.symm hk)] at hrest
        simpa [SlidingLog.step, chargeOf, hk] using hrest
    | reset key =>
      have hk : key ≠ k := by simpa [keepsHits] using hki
      simp only [SlidingLog.step, Function.update_of_ne hk.symm] at hrest
      exact hrest
    | delete key =>
      have hk : key ≠ k := by simpa [keepsHits] using hki
      simp only [SlidingLog.step, Function.update_of_ne hk.symm] at hrest
      exact hrest
    | decrement key options => exact hrest
    | get key => exact hrest
    | set key totalHits expiresAt => exact hrest
    | purgeExpired => exact hrest

/-- The admission bound from any state that corresponds to a log. -/
theorem sliding_admission {o : WindowOptions} {t₀ : ℤ} {s : MemoryStore κ} {L : SlidingLog κ}
    {is : List (Timed (StoreOp κ))} (hR : RefinesLog o t₀ s L)
    (hord : OrderedFrom Timed.time t₀ is)
    (hg : Guarded CoveredWithRoom MemoryStore.step is s) {k : κ} {cap : ℕ}
    (hkeep : ∀ i ∈ is, keepsHits k i = true) (hcap : ∀ i ∈ is, underCap o k cap i = true)
    (t : ℤ) :
    Hit.windowCost (t - o.windowMs) t
      (Hit.admitted (charges k is (outputs MemoryStore.step is s))) ≤ cap := by
  have hout := (sliding_outputs hR hord hg).1
  rw [← charges_withoutExisted, hout]
  obtain ⟨tbl, -, hm⟩ := hR
  exact Hit.admitted_window_le (hm k).past (orderedFrom_charges k hord _)
    (admittedWithin_log hkeep hcap L) t

/-- **The sliding window of `MemoryStore` is the timestamp log.**  Every run of
increments, reads, resets, deletions and purges in time order, without eviction, is
answered as the log answers it.  And of the increments of a key under a constant cap,
those allowed in any window of length `windowMs` cost at most the cap together, counted
over a stretch of the run in which the key is neither reset nor deleted.
SOURCE: src/stores/memory-store.ts:355-359, 659-684, 795-826, 1013-1036 -/
theorem slidingWindow_refines_timestampLog (o : WindowOptions) (maxKeys : ℕ) (t₀ : ℤ)
    (is : List (Timed (StoreOp κ))) (hord : OrderedFrom Timed.time t₀ is)
    (hg : Guarded CoveredWithRoom MemoryStore.step is (.sliding o (KeyTable.new maxKeys))) :
    (outputs MemoryStore.step is (.sliding o (KeyTable.new maxKeys))).map
        StoreReply.withoutExisted = outputs (SlidingLog.step o) is (fun _ => []) ∧
      ∀ before stretch : List (Timed (StoreOp κ)), is = before ++ stretch →
        ∀ (k : κ) (cap : ℕ), (∀ i ∈ stretch, keepsHits k i = true) →
          (∀ i ∈ stretch, underCap o k cap i = true) →
          ∀ t : ℤ, Hit.windowCost (t - o.windowMs) t
            (Hit.admitted (charges k stretch (outputs MemoryStore.step stretch
              (final MemoryStore.step before (.sliding o (KeyTable.new maxKeys)))))) ≤ cap := by
  have hnew := refinesLog_new (κ := κ) o maxKeys t₀
  refine ⟨(sliding_outputs hnew hord hg).1, ?_⟩
  rintro before stretch rfl k cap hkeep hcap t
  obtain ⟨hord₁, hord₂⟩ := orderedFrom_append.mp hord
  obtain ⟨hg₁, hg₂⟩ := guarded_append.mp hg
  have hmid := (sliding_outputs hnew hord₁ hg₁).2
  exact sliding_admission hmid hord₂ hg₂ hkeep hcap t

/-- Two hits on one key half a second apart, and a third when the first has left. -/
def threeHits : List (Timed (StoreOp ℕ)) :=
  [⟨0, .increment 7 {}⟩, ⟨500, .increment 7 {}⟩, ⟨1000, .purgeExpired⟩,
    ⟨1200, .get 7⟩, ⟨1600, .increment 7 {}⟩]

/-- The refinement at a run: the second hit is blocked and recorded, so the third waits
for it to leave. -/
theorem slidingWindow_refines_timestampLog_threeHits :
    (outputs MemoryStore.step threeHits (.sliding oneASecond (KeyTable.new 0))).map
        StoreReply.withoutExisted = outputs (SlidingLog.step oneASecond) threeHits (fun _ => []) ∧
      ∀ t : ℤ, Hit.windowCost (t - oneASecond.windowMs) t (Hit.admitted (charges 7 threeHits
        (outputs MemoryStore.step threeHits (.sliding oneASecond (KeyTable.new 0))))) ≤ 1 := by
  have h := slidingWindow_refines_timestampLog oneASecond 0 0 threeHits (by decide +kernel)
    (by decide +kernel)
  exact ⟨h.1, fun t => h.2 [] threeHits rfl 7 1 (by decide +kernel) (by decide +kernel) t⟩

/-- A reset forgets what was admitted: with cap one, a hit, a reset and another hit within
the window are both allowed. -/
theorem slidingWindow_reset_admits_more :
    ¬ ∀ (o : WindowOptions) (is : List (Timed (StoreOp ℕ))) (k : ℕ) (cap : ℕ) (t : ℤ),
      OrderedFrom Timed.time 0 is →
      Guarded CoveredWithRoom MemoryStore.step is (.sliding o (KeyTable.new 0)) →
      (∀ i ∈ is, underCap o k cap i = true) →
      Hit.windowCost (t - o.windowMs) t (Hit.admitted (charges k is
        (outputs MemoryStore.step is (.sliding o (KeyTable.new 0))))) ≤ cap := by
  intro h
  have := h oneASecond [⟨0, .increment 7 {}⟩, ⟨1, .reset 7⟩, ⟨2, .increment 7 {}⟩] 7 1 2
    (by decide +kernel) (by decide +kernel) (by decide +kernel)
  revert this
  decide +kernel

end RatelimitFlex
