import RatelimitFlex.Analysis.StoreCells
import RatelimitFlex.Program.RedisWindows

/-!
# The windows of `RedisStore` beside those of `MemoryStore`

Both stores are given the same operations on one key.  For the sliding window the scores of
the sorted set are the stamps of the array, until the key outlives its last stamp; from
then on the array has dead stamps only (`SameStamps`), and the two answer alike.  For the
fixed window the counter is the slice as long as something is counted in it (`counted`).
A slice that a `reset` or a seeded zero left open is known to `MemoryStore` alone: Redis
begins a new one at the next increment.
-/

set_option autoImplicit false

namespace RatelimitFlex

open Library

variable {κ : Type} [DecidableEq κ]

/-! ## Own cells, whatever the room -/

/-- A `set` writes the count and the end. -/
theorem lookup_setFixed_self (o : WindowOptions) (now : ℤ) (key : κ) (t : KeyTable κ FixedEntry)
    (totalHits : ℤ) (expiresAt : Option ℤ) :
    (setFixed o now key totalHits expiresAt t).1.state.lookup key =
      some ⟨max 0 totalHits, expiresAt.getD (now + o.windowMs)⟩ := by
  simp only [setFixed, KeyTable.lookup_put_dropForLru, if_true]

namespace RedisKey

variable {α : Type} {now t : ℤ}

/-- A missing key is not alive. -/
@[simp] theorem live_none : live now (none : Option (RedisKey α)) = none := rfl

/-- A key is alive until it expires. -/
theorem live_some (v : α) (e : ℤ) :
    live now (some ⟨v, some e⟩) = if now < e then some ⟨v, some e⟩ else none := by
  by_cases h : now < e <;> simp [live, Option.filter, h]

/-- A key that is alive is there. -/
theorem eq_of_live {s : Option (RedisKey α)} {h : RedisKey α} (hl : live now s = some h) :
    s = some h := (Option.filter_eq_some_iff.mp hl).1

/-- What is gone stays gone. -/
theorem live_mono {s : Option (RedisKey α)} (ht : t ≤ now) (h : live t s = none) :
    live now s = none := by
  cases s with
  | none => rfl
  | some x =>
    obtain ⟨v, e⟩ := x
    cases e with
    | none => simp [live, Option.filter] at h
    | some e =>
      rw [live_some] at h ⊢
      by_cases he : t < e
      · simp [he] at h
      · rw [if_neg (by omega)]

end RedisKey

/-! ## Sorted sets whose scores only grow -/

namespace ZSet

variable {μ : Type} [LinearOrder μ]

/-- The scores, lowest first. -/
def scores (z : ZSet μ) : List ℤ := z.map Prod.fst

omit [LinearOrder μ] in
/-- Removing up to a score keeps the higher ones. -/
theorem scores_removeUpTo (x : ℤ) (z : ZSet μ) :
    scores (removeUpTo x z) = (scores z).filter fun ts => decide (x < ts) := by
  simp only [scores, removeUpTo, List.filter_map]
  rfl

/-- A member of now comes last. -/
theorem scores_orderedInsert {now : ℤ} (m : μ) {z : ZSet μ} (hsorted : (scores z).Pairwise (· ≤ ·))
    (hpast : ∀ ts ∈ scores z, ts ≤ now) :
    scores (List.orderedInsert (fun p q => toLex p ≤ toLex q) (now, m) z) = scores z ++ [now] := by
  induction z with
  | nil => rfl
  | cons p z ih =>
    obtain ⟨hp, hz⟩ := List.pairwise_cons.mp hsorted
    have hpnow : p.1 ≤ now := hpast p.1 (by simp [scores])
    rw [List.orderedInsert]
    split
    · next hle =>
      -- only a stamp of this very moment may come after
      have hnow : now ≤ p.1 := by
        rcases Prod.Lex.toLex_le_toLex.mp hle with h | ⟨h, -⟩
        · exact h.le
        · exact h.le
      have hall : ∀ ts ∈ scores (p :: z), ts = now := by
        intro ts hts
        have hle' : p.1 ≤ ts := by
          rcases List.mem_cons.mp hts with rfl | hts
          · exact le_rfl
          · exact hp ts hts
        have := hpast ts hts
        omega
      have hrep := List.eq_replicate_of_mem hall
      show now :: scores (p :: z) = _
      rw [hrep, ← List.replicate_succ, List.replicate_succ']
    · show p.1 :: scores (List.orderedInsert _ (now, m) z) = _
      rw [ih hz fun ts hts => hpast ts (List.mem_cons_of_mem _ hts)]
      rfl

/-- Adding it puts its score at the end. -/
theorem scores_add {now : ℤ} {m : μ} {z : ZSet μ} (hfresh : ∀ p ∈ z, p.2 ≠ m)
    (hsorted : (scores z).Pairwise (· ≤ ·)) (hpast : ∀ ts ∈ scores z, ts ≤ now) :
    scores (add now m z) = scores z ++ [now] := by
  have hself : (z.filter fun p => decide (p.2 ≠ m)) = z := by
    apply List.filter_eq_self.mpr
    intro p hp
    exact decide_eq_true (hfresh p hp)
  rw [add, hself, scores_orderedInsert m hsorted hpast]

/-- A set gains the added member at most. -/
theorem mem_add {now : ℤ} {m : μ} {z : ZSet μ} {p : ℤ × μ} (h : p ∈ add now m z) :
    p = (now, m) ∨ p ∈ z := by
  rcases (List.mem_orderedInsert _).mp h with h | h
  · exact Or.inl h
  · exact Or.inr (List.mem_of_mem_filter h)

/-- New members at one moment, one after the other. -/
theorem scores_addAll {now : ℤ} {members : List μ} {z : ZSet μ} (hnodup : members.Nodup)
    (hfresh : ∀ p ∈ z, p.2 ∉ members) (hsorted : (scores z).Pairwise (· ≤ ·))
    (hpast : ∀ ts ∈ scores z, ts ≤ now) :
    scores (members.foldl (fun z m => add now m z) z) =
      scores z ++ List.replicate members.length now := by
  induction members generalizing z with
  | nil => simp
  | cons m members ih =>
    obtain ⟨hm, hnodup⟩ := List.nodup_cons.mp hnodup
    have hadd : scores (add now m z) = scores z ++ [now] := by
      apply scores_add _ hsorted hpast
      intro p hp heq
      exact hfresh p hp (by rw [heq]; exact List.mem_cons_self)
    have hfresh' : ∀ p ∈ add now m z, p.2 ∉ members := by
      intro p hp
      rcases mem_add hp with rfl | hp
      · exact hm
      · exact fun hin => hfresh p hp (List.mem_cons_of_mem _ hin)
    have hpast' : ∀ ts ∈ scores (add now m z), ts ≤ now := by
      rw [hadd]
      intro ts hts
      rcases List.mem_append.mp hts with hts | hts
      · exact hpast ts hts
      · exact (List.mem_singleton.mp hts).le
    have hsorted' : (scores (add now m z)).Pairwise (· ≤ ·) := by
      rw [hadd]
      refine List.pairwise_append.mpr ⟨hsorted, List.pairwise_singleton _ _, ?_⟩
      intro a ha b hb
      rw [List.mem_singleton.mp hb]
      exact hpast a ha
    rw [List.foldl_cons, ih hnodup hfresh' hsorted' hpast', hadd, List.append_assoc,
      List.length_cons, List.replicate_succ]
    rfl

omit [LinearOrder μ] in
/-- Popping from the front drops the oldest. -/
theorem popMin_iterate (n : ℕ) (z : ZSet μ) : popMin^[n] z = z.drop n := by
  induction n generalizing z with
  | zero => rfl
  | succ n ih => rw [Function.iterate_succ_apply, ih, popMin, List.drop_tail]

omit [LinearOrder μ] in
/-- Popping from the back drops the newest. -/
theorem popMax_iterate (n : ℕ) (z : ZSet μ) : popMax^[n] z = z.take (z.length - n) := by
  induction n generalizing z with
  | zero => simp
  | succ n ih =>
    rw [Function.iterate_succ_apply, ih, popMax, List.length_dropLast, List.dropLast_eq_take,
      List.take_take]
    congr 1
    omega

end ZSet

/-! ## Sliding window -/

namespace RedisSliding

variable {μ : Type} [LinearOrder μ] {o : WindowOptions}

/-- The set and the array hold the same stamps, all of them dead when the key expires; or
the key is gone, and what is left in the array is dead. -/
def SameStamps (o : WindowOptions) (t : ℤ) (e : Option SlidingKeyState)
    (s : Option (RedisKey (ZSet μ))) : Prop :=
  (Cell.sliding o e).Wf t ∧
    ((∃ z x, s = some ⟨z, some x⟩ ∧ ZSet.scores z = stampsOf e ∧
        ∀ ts ∈ stampsOf e, ts + o.windowMs ≤ x) ∨
      (RedisKey.live t s = none ∧ ∀ ts ∈ stampsOf e, ts + o.windowMs ≤ t))

variable {t now : ℤ} {e : Option SlidingKeyState} {s : Option (RedisKey (ZSet μ))}

omit [LinearOrder μ] in
/-- What holds the same stamps now does so later. -/
theorem SameStamps.mono (h : SameStamps o t e s) (ht : t ≤ now) : SameStamps o now e s := by
  obtain ⟨hwf, h | ⟨hgone, hdead⟩⟩ := h
  · exact ⟨hwf.mono ht, Or.inl h⟩
  · exact ⟨hwf.mono ht, Or.inr ⟨RedisKey.live_mono ht hgone, fun ts hts => (hdead ts hts).trans ht⟩⟩

omit [LinearOrder μ] in
/-- What a script finds is the live part of the array, and perhaps dead stamps. -/
theorem SameStamps.cases (h : SameStamps o now e s) :
    (∃ z x, RedisKey.live now s = some ⟨z, some x⟩ ∧ s = some ⟨z, some x⟩ ∧
        ZSet.scores z = stampsOf e ∧ ∀ ts ∈ stampsOf e, ts + o.windowMs ≤ x) ∨
      (RedisKey.live now s = none ∧ ∀ ts ∈ stampsOf e, ts + o.windowMs ≤ now) := by
  obtain ⟨-, ⟨z, x, rfl, hscores, hlease⟩ | h⟩ := h
  · by_cases hx : now < x
    · left
      exact ⟨z, x, by rw [RedisKey.live_some, if_pos hx], rfl, hscores, hlease⟩
    · right
      refine ⟨by rw [RedisKey.live_some, if_neg hx], ?_⟩
      intro ts hts
      have := hlease ts hts
      omega
  · exact Or.inr h

omit [LinearOrder μ] in
/-- What an increment finds of the set, once it is pruned, is the live part of the array. -/
theorem SameStamps.scores_pruned (h : SameStamps o now e s) :
    ZSet.scores (((RedisKey.live now s).map RedisKey.value).getD [] |>.removeUpTo
      (now - o.windowMs)) = liveStamps o now (stampsOf e) := by
  rw [ZSet.scores_removeUpTo]
  rcases h.cases with ⟨z, x, hlive, -, hscores, -⟩ | ⟨hgone, hdead⟩
  · rw [hlive, Option.map_some, Option.getD_some, hscores]
    rfl
  · rw [hgone]
    symm
    apply List.filter_eq_nil_iff.mpr
    intro ts hts
    have := hdead ts hts
    simp only [decide_eq_true_eq]
    omega

/-- One increment: the same figures, and the same stamps again. -/
theorem SameStamps.increment (h : SameStamps o now e s) {options : RateLimitIncrementOptions}
    {members : List μ} (hfresh : Fresh ⟨now, .increment options members⟩ s) :
    (luaSlidingIncr o now (o.cap options.maxRequests) options.sanitizedCost members s).2 =
        ((Cell.sliding o e).increment now options).2 ∧
      SameStamps o now
        (some ⟨liveStamps o now (stampsOf e) ++ List.replicate options.sanitizedCost now, none⟩)
        (luaSlidingIncr o now (o.cap options.maxRequests) options.sanitizedCost members s).1 := by
  obtain ⟨hlen, hnodup, hmem⟩ := hfresh
  have hcost := options.one_le_sanitizedCost
  have hpruned := h.scores_pruned
  have hlegal := h.1.liveStamps
  set found := ((RedisKey.live now s).map RedisKey.value).getD [] with hfound
  have hfoundMem : ∀ p ∈ found, p.2 ∉ members := by
    intro p hp
    cases hl : RedisKey.live now s with
    | none => simp [hfound, hl] at hp
    | some x =>
      rw [hfound, hl] at hp
      exact hmem x (RedisKey.eq_of_live hl) p hp
  have hscores : ZSet.scores ((members.take (max options.sanitizedCost 1)).foldl
      (fun z m => ZSet.add now m z) (found.removeUpTo (now - o.windowMs))) =
      liveStamps o now (stampsOf e) ++ List.replicate options.sanitizedCost now := by
    rw [max_eq_left hcost, List.take_of_length_le hlen.le, ZSet.scores_addAll hnodup, hpruned, hlen]
    · exact fun p hp => hfoundMem p (List.mem_of_mem_filter hp)
    · rw [hpruned]
      exact hlegal.1
    · rw [hpruned]
      exact hlegal.2
  set z := (members.take (max options.sanitizedCost 1)).foldl
    (fun z m => ZSet.add now m z) (found.removeUpTo (now - o.windowMs)) with hz
  have hlength : z.length = (liveStamps o now (stampsOf e) ++
      List.replicate options.sanitizedCost now).length := by
    rw [← hscores, ZSet.scores, List.length_map]
  have hhead : (z.head?.map Prod.fst) = (liveStamps o now (stampsOf e) ++
      List.replicate options.sanitizedCost now).head? := by
    rw [← hscores, ZSet.scores, List.head?_map]
  refine ⟨?_, ?_, Or.inl ⟨z, now + o.windowMs, ?_, hscores, ?_⟩⟩
  · simp only [luaSlidingIncr, Cell.increment, redisWindowResult_eq]
    rw [← hfound, ← hz, hlength, hhead]
  · exact h.1.increment le_rfl options
  · simp only [luaSlidingIncr]
    rw [← hfound, ← hz, ZSet.store, if_neg]
    intro hnil
    rw [hnil, List.length_nil, List.length_append, List.length_replicate] at hlength
    omega
  · intro ts hts
    rcases List.mem_append.mp hts with hts | hts
    · have := hlegal.2 ts hts
      omega
    · rw [List.eq_of_mem_replicate hts]

omit [LinearOrder μ] in
/-- The scores after popping, from either end. -/
theorem scores_pops (newest : Bool) (n : ℕ) (z : ZSet μ) :
    ZSet.scores ((if newest then ZSet.popMax else ZSet.popMin)^[n] z) =
      if newest then (ZSet.scores z).take ((ZSet.scores z).length - n)
      else (ZSet.scores z).drop n := by
  cases newest with
  | true =>
    simp only [if_true, ZSet.popMax_iterate, ZSet.scores, List.map_take, List.length_map]
  | false =>
    simp only [Bool.false_eq_true, if_false, ZSet.popMin_iterate, ZSet.scores, List.map_drop]

omit [LinearOrder μ] in
/-- One decrement pops the same end of both. -/
theorem SameStamps.decrement (h : SameStamps o now e s) (options : RateLimitDecrementOptions) :
    ∃ e', (Cell.sliding o e).decrement options = .sliding o e' ∧
      SameStamps o now e'
        (luaSlidingDecr now options.sanitizedCost options.removeNewest s) := by
  have hcost := options.one_le_sanitizedCost
  set f : List ℤ → List ℤ := fun stamps =>
    if options.removeNewest then stamps.take (stamps.length - options.sanitizedCost)
    else stamps.drop options.sanitizedCost with hf
  have hnil : f [] = [] := by
    simp only [hf]
    split <;> simp
  have hsub : ∀ l, (f l).Sublist l := by
    intro l
    simp only [hf]
    split
    · exact List.take_sublist _ _
    · exact List.drop_sublist _ _
  have hcell : (Cell.sliding o e).decrement options = .sliding o (slidingAfterDecrement f e) := by
    simp only [Cell.decrement, hf]
    split
    · rfl
    · rfl
  have hstamps := stampsOf_slidingAfterDecrement hnil e
  have hwf : (Cell.sliding o (slidingAfterDecrement f e)).Wf now := by
    intro x hx
    refine ⟨wall_slidingAfterDecrement f (fun y hy => (h.1 y hy).1) x hx, ?_⟩
    have hxs : x.stamps = f (stampsOf e) := by
      rw [← hstamps, hx, stampsOf_some]
    cases e with
    | none => simp [slidingAfterDecrement] at hx
    | some y =>
      obtain ⟨-, hsorted, hpast⟩ := h.1 y rfl
      rw [hxs]
      exact ⟨hsorted.sublist (hsub _), fun z hz => hpast z ((hsub _).subset hz)⟩
  refine ⟨slidingAfterDecrement f e, hcell, hwf, ?_⟩
  rw [hstamps]
  rcases h.cases with ⟨z, x, hlive, rfl, hscores, hlease⟩ | ⟨hgone, hdead⟩
  · have hpops : ZSet.scores ((if options.removeNewest then ZSet.popMax else ZSet.popMin)^[
        max options.sanitizedCost 1] z) = f (stampsOf e) := by
      rw [scores_pops, max_eq_left hcost, hscores]
    simp only [luaSlidingDecr, hlive]
    set popped := (if options.removeNewest then ZSet.popMax else ZSet.popMin)^[
      max options.sanitizedCost 1] z
    by_cases hempty : popped = []
    · right
      rw [ZSet.store, if_pos hempty, ← hpops, hempty]
      exact ⟨rfl, by simp [ZSet.scores]⟩
    · left
      rw [ZSet.store, if_neg hempty]
      exact ⟨_, x, rfl, hpops, fun ts hts => hlease ts ((hsub _).subset hts)⟩
  · right
    simp only [luaSlidingDecr, hgone]
    exact ⟨rfl, fun ts hts => hdead ts ((hsub _).subset hts)⟩

end RedisSliding

/-- The key's array and the key's sorted set, beside each other. -/
def SlidingAlike {μ : Type} [LinearOrder μ] (o : WindowOptions) (key : κ) (t : ℤ)
    (s : Option (RedisKey (ZSet μ))) (m : MemoryStore κ) : Prop :=
  ∃ e, m.cell key = .sliding o e ∧ RedisSliding.SameStamps o t e s

/-- **One operation keeps the two sliding windows alike**, and they answer alike. -/
theorem slidingAlike_step {μ : Type} [LinearOrder μ] {o : WindowOptions} {key : κ} {t : ℤ}
    {s : Option (RedisKey (ZSet μ))} {m : MemoryStore κ} {i : Timed (RedisSliding.Op μ)}
    (h : SlidingAlike o key t s m) (ht : t ≤ i.time) (hfresh : RedisSliding.Fresh i s) :
    (RedisSliding.step o i s).2 = (MemoryStore.step ⟨i.time, i.op.toStoreOp key⟩ m).2 ∧
      SlidingAlike o key i.time (RedisSliding.step o i s).1
        (MemoryStore.step ⟨i.time, i.op.toStoreOp key⟩ m).1 := by
  obtain ⟨e, hcell, hsame⟩ := h
  replace hsame := hsame.mono ht
  obtain ⟨now, op⟩ := i
  cases op with
  | increment options members =>
    obtain ⟨hres, hnext⟩ := hsame.increment hfresh
    have hwall : unexpired now e = e := unexpired_of_none now fun x hx => (hsame.1 x hx).1
    have hown : (m.cell key).clearWall now = .sliding o e := by
      rw [hcell, Cell.clearWall, hwall]
    refine ⟨?_, _, ?_, hnext⟩
    · simp only [RedisSliding.step, MemoryStore.step, RedisSliding.Op.toStoreOp, hres,
        MemoryStore.increment_snd_cleared, hown]
    · simp only [MemoryStore.step, RedisSliding.Op.toStoreOp]
      rw [MemoryStore.cell_increment_own, hown]
      rfl
  | decrement options =>
    obtain ⟨e', hdec, hnext⟩ := hsame.decrement options
    refine ⟨rfl, e', ?_, hnext⟩
    simp only [MemoryStore.step, RedisSliding.Op.toStoreOp]
    rw [MemoryStore.cell_decrement_own, hcell, hdec]

/-- **The sliding window of Redis is that of memory.**  On every run of increments and
decrements of one key, each with its own cost, cap and end, the two stores give the same
answers.
SOURCE: src/stores/redis-store.ts:173-227, 1165-1197, src/stores/memory-store.ts:795-865 -/
theorem redisSliding_eq_memory {μ : Type} [LinearOrder μ] (o : WindowOptions) (key : κ)
    (table : KeyTable κ SlidingKeyState) (hkey : table.state.lookup key = none) (t : ℤ)
    (is : List (Timed (RedisSliding.Op μ))) (hord : OrderedFrom Timed.time t is)
    (hfresh : Guarded RedisSliding.Fresh (RedisSliding.step o) is none) :
    outputs (RedisSliding.step o) is none =
      outputs (fun i : Timed (RedisSliding.Op μ) =>
        MemoryStore.step ⟨i.time, i.op.toStoreOp key⟩) is (.sliding o table) := by
  have hstart : SlidingAlike (μ := μ) o key t none (.sliding o table) := by
    refine ⟨none, by rw [MemoryStore.cell, hkey], ?_, Or.inr ⟨rfl, ?_⟩⟩
    · simp [Cell.Wf]
    · simp
  have hsim := outputs_eq_of_simulation id (R := SlidingAlike (μ := μ) o key)
    (fun t s m (i : Timed (RedisSliding.Op μ)) h (ht : t ≤ i.time) hg =>
      slidingAlike_step h ht hg) hstart hord hfresh
  rw [List.map_id] at hsim
  exact hsim.1

/-- Three hits, the oldest two taken back after a second, the newest of what is left, and a
hit that finds the key gone. -/
theorem redisSliding_eq_memory_run :
    let is : List (Timed (RedisSliding.Op ℕ)) :=
      [⟨0, .increment { cost := some 2 } [8, 5]⟩, ⟨600, .increment {} [7]⟩,
        ⟨1100, .decrement { cost := some 2 }⟩, ⟨1100, .decrement { removeNewest := true }⟩,
        ⟨1700, .increment {} [6]⟩]
    outputs (RedisSliding.step twoASecond) is none =
      outputs (fun i : Timed (RedisSliding.Op ℕ) =>
        MemoryStore.step ⟨i.time, i.op.toStoreOp 7⟩) is (.sliding twoASecond (KeyTable.new 0)) :=
  redisSliding_eq_memory twoASecond 7 (KeyTable.new 0) rfl 0 _
    (by decide)
    ⟨⟨by decide +kernel, by decide, by simp⟩, ⟨by decide +kernel, by decide, by decide +kernel⟩,
      trivial, trivial, ⟨by decide +kernel, by decide, by decide +kernel⟩, trivial⟩

/-! ## Fixed window -/

namespace RedisFixed

variable {o : WindowOptions} {now u : ℤ}

/-- What is counted at `u` in the slice of a `MemoryStore`, and when it ends. -/
def countedInMemory (u : ℤ) (e : Option FixedEntry) : Option (ℤ × ℤ) :=
  (e.filter fun e => decide (u < e.resetTime) && decide (e.count ≠ 0)).map fun e =>
    (e.count, e.resetTime)

/-- What is counted at `u` in a counter, and when it expires. -/
def countedInRedis (u : ℤ) (s : Option (RedisKey ℤ)) : Option (ℤ × ℤ) :=
  ((RedisKey.live u s).filter fun h => decide (h.value ≠ 0)).bind fun h =>
    h.expireAt.map fun x => (h.value, x)

/-- From `t` on the two count the same. -/
def SameCount (t : ℤ) (e : Option FixedEntry) (s : Option (RedisKey ℤ)) : Prop :=
  (∀ x ∈ e, 0 ≤ x.count) ∧ (∀ h ∈ s, 0 ≤ h.value ∧ h.expireAt.isSome) ∧
    ∀ u, t ≤ u → countedInMemory u e = countedInRedis u s

/-- What a decrement leaves of it. -/
def lessCost (cost : ℕ) (p : ℤ × ℤ) : Option (ℤ × ℤ) :=
  if p.1 - cost ≤ 0 then none else some (p.1 - cost, p.2)

/-- No increment comes upon an open slice in which nothing is counted, unless that slice
ends when a new one would. -/
def NoEmptySlice (o : WindowOptions) (now : ℤ) : Option FixedEntry → Prop
  | none => True
  | some x => x.count = 0 → now < x.resetTime → x.resetTime = now + o.windowMs

instance (o : WindowOptions) (now : ℤ) : ∀ e, Decidable (NoEmptySlice o now e)
  | none => isTrue trivial
  | some x =>
    inferInstanceAs (Decidable (x.count = 0 → now < x.resetTime → x.resetTime = now + o.windowMs))

/-- The count of a slice in memory. -/
theorem countedInMemory_some (x : FixedEntry) :
    countedInMemory u (some x) =
      if u < x.resetTime ∧ x.count ≠ 0 then some (x.count, x.resetTime) else none := by
  by_cases h : u < x.resetTime <;> by_cases h0 : x.count = 0 <;>
    simp [countedInMemory, Option.filter, h, h0]

/-- The count of a slice in Redis. -/
theorem countedInRedis_some (v x : ℤ) :
    countedInRedis u (some ⟨v, some x⟩) = if u < x ∧ v ≠ 0 then some (v, x) else none := by
  rw [countedInRedis, RedisKey.live_some]
  by_cases h : u < x <;> by_cases h0 : v = 0 <;> simp [Option.filter, h, h0]

/-- A decrement takes its cost off the count in memory, and drops the slice at zero. -/
theorem countedInMemory_decrement (cost : ℕ) {e : Option FixedEntry} (h : ∀ x ∈ e, 0 ≤ x.count) :
    countedInMemory u (fixedAfterDecrement cost e) =
      (countedInMemory u e).bind (lessCost cost) := by
  cases e with
  | none => rfl
  | some x =>
    have hx := h x rfl
    simp only [fixedAfterDecrement]
    by_cases h0 : x.count = 0
    · rw [if_pos h0.le, countedInMemory_some, if_neg (fun hn => hn.2 h0)]
      rfl
    · rw [if_neg (by omega), countedInMemory_some]
      by_cases hu : u < x.resetTime
      · rw [if_pos (And.intro hu h0), Option.bind_some, lessCost]
        by_cases hc : x.count - cost ≤ 0
        · rw [if_pos hc, if_pos hc]
          rfl
        · rw [if_neg hc, if_neg hc, countedInMemory_some,
            if_pos (And.intro hu (by simp only; omega))]
      · rw [if_neg (fun hn : u < x.resetTime ∧ x.count ≠ 0 => hu hn.1), Option.bind_none]
        by_cases hc : x.count - cost ≤ 0
        · rw [if_pos hc]
          rfl
        · rw [if_neg hc, countedInMemory_some, if_neg fun hn => hu hn.1]

/-- It does the same in Redis. -/
theorem countedInRedis_decrement {cost : ℕ} (hcost : 1 ≤ cost) {s : Option (RedisKey ℤ)}
    (h : ∀ y ∈ s, 0 ≤ y.value ∧ y.expireAt.isSome) (hu : now ≤ u) :
    countedInRedis u (luaFixedDecr now cost s) = (countedInRedis u s).bind (lessCost cost) := by
  cases s with
  | none => rfl
  | some y =>
    obtain ⟨v, _ | x⟩ := y
    · simpa using (h _ rfl).2
    · have hv : 0 ≤ v := (h _ rfl).1
      by_cases hx : now < x
      · simp only [luaFixedDecr, RedisKey.live_some, if_pos hx]
        by_cases h0 : v = 0
        · rw [if_pos h0.le, countedInRedis_some, if_neg (fun hn => hn.2 h0)]
          rfl
        · rw [if_neg (by omega), countedInRedis_some, countedInRedis_some, max_eq_left hcost]
          by_cases hux : u < x
          · rw [if_pos (And.intro hux h0), Option.bind_some, lessCost]
            by_cases hc : v - cost ≤ 0
            · rw [if_pos hc, if_neg (by omega)]
            · rw [if_neg hc, min_eq_right (by omega), if_pos ⟨hux, by omega⟩]
          · rw [if_neg (fun hn => hux hn.1), if_neg (fun hn => hux hn.1)]
            rfl
      · simp only [luaFixedDecr, RedisKey.live_some, if_neg hx]
        rw [countedInRedis_some, if_neg (by omega)]
        rfl

/-- What an increment of Redis starts from: what is counted, or a new slice. -/
theorem luaFixedIncr_eq (maxRequests : ℕ) {cost : ℕ} (hcost : 1 ≤ cost) {s : Option (RedisKey ℤ)}
    (h : ∀ y ∈ s, 0 ≤ y.value ∧ y.expireAt.isSome) :
    let p := match countedInRedis now s with
      | none => ((cost : ℤ), now + o.windowMs)
      | some p => (p.1 + cost, p.2)
    luaFixedIncr o now maxRequests cost s =
      (some ⟨p.1, some p.2⟩, redisWindowResult p.1 maxRequests p.2) := by
  have hW := o.windowMs_pos
  have hnew : luaFixedIncr o now maxRequests cost none =
      (some ⟨cost, some (now + o.windowMs)⟩,
        redisWindowResult cost maxRequests (now + o.windowMs)) := by
    simp only [luaFixedIncr, RedisKey.live_none, max_eq_left hcost, if_true, RedisKey.pttl]
    rw [if_neg (by omega)]
    congr 2
    omega
  cases s with
  | none => simpa [countedInRedis] using hnew
  | some y =>
    obtain ⟨v, _ | x⟩ := y
    · simpa using (h _ rfl).2
    · simp only [countedInRedis_some]
      by_cases hx : now < x
      · have hlive : RedisKey.live now (some (⟨v, some x⟩ : RedisKey ℤ)) = some ⟨v, some x⟩ := by
          rw [RedisKey.live_some, if_pos hx]
        by_cases h0 : v = 0
        · subst h0
          rw [if_neg (by simp)]
          simp only [luaFixedIncr, hlive, max_eq_left hcost, zero_add, if_true, RedisKey.pttl]
          rw [if_neg (by omega)]
          congr 2
          omega
        · rw [if_pos ⟨hx, h0⟩]
          simp only [luaFixedIncr, hlive, max_eq_left hcost, RedisKey.pttl]
          rw [if_neg (by omega)]
          simp only
          rw [if_neg (by omega)]
          congr 2
          omega
      · rw [if_neg (fun hn => hx hn.1)]
        have hgone : RedisKey.live now (some (⟨v, some x⟩ : RedisKey ℤ)) = none := by
          rw [RedisKey.live_some, if_neg hx]
        simpa only [luaFixedIncr, hgone, RedisKey.live_none] using hnew

/-- What an increment of memory starts from, but for an open slice without a count. -/
theorem fixedAfterIncrement_eq {e : Option FixedEntry} (hslice : NoEmptySlice o now e) (cost : ℕ) :
    fixedAfterIncrement o now cost e =
      match countedInMemory now e with
      | none => ⟨cost, now + o.windowMs⟩
      | some p => ⟨p.1 + cost, p.2⟩ := by
  cases e with
  | none => rfl
  | some x =>
    simp only [fixedAfterIncrement, countedInMemory_some]
    by_cases hx : x.resetTime ≤ now
    · rw [if_pos hx, if_neg (by omega)]
    · rw [if_neg hx]
      by_cases h0 : x.count = 0
      · rw [if_neg (by simp [h0])]
        simp only [h0, zero_add, hslice h0 (by omega)]
      · rw [if_pos ⟨by omega, h0⟩]

/-- The step comes upon no open slice without a count. -/
def Meets (key : κ) (i : Timed Op) (m : MemoryStore κ) : Prop :=
  i.op.isIncrement = true →
    match m.cell key with
    | .fixed o e => NoEmptySlice o i.time e
    | _ => True

instance (key : κ) (i : Timed Op) (m : MemoryStore κ) : Decidable (Meets key i m) :=
  match h : m.cell key with
  | .fixed o e => decidable_of_iff (i.op.isIncrement = true → NoEmptySlice o i.time e)
      (by simp only [Meets, h])
  | .sliding _ _ => isTrue (by simp [Meets, h])
  | .bucket _ _ => isTrue (by simp [Meets, h])

/-- The same operation of a `MemoryStore`. -/
def memoryStep (key : κ) (i : Timed Op) (m : MemoryStore κ) : MemoryStore κ × StoreReply :=
  MemoryStore.step ⟨i.time, i.op.toStoreOp key⟩ m

/-- The key's slice and the key's counter, beside each other. -/
def Alike (o : WindowOptions) (key : κ) (t : ℤ) (m : MemoryStore κ) (s : Option (RedisKey ℤ)) :
    Prop :=
  ∃ e, m.cell key = .fixed o e ∧ SameCount t e s

section Step

variable {key : κ} {t : ℤ} {m : MemoryStore κ} {s : Option (RedisKey ℤ)}

/-- Slices that count alike now do so later. -/
theorem SameCount.mono {t' : ℤ} {e : Option FixedEntry} (h : SameCount t e s) (ht : t ≤ t') :
    SameCount t' e s := ⟨h.1, h.2.1, fun u hu => h.2.2 u (ht.trans hu)⟩

/-- The same count with the same end counts alike. -/
theorem sameCount_slice {n x : ℤ} (hn : 0 ≤ n) : SameCount t (some ⟨n, x⟩) (some ⟨n, some x⟩) := by
  refine ⟨?_, ?_, fun u _ => ?_⟩
  · rintro _ ⟨⟩
    exact hn
  · rintro _ ⟨⟩
    exact ⟨hn, rfl⟩
  · rw [countedInMemory_some, countedInRedis_some]

/-- One increment, on what both count. -/
theorem SameCount.increment {e : Option FixedEntry} (h : SameCount now e s)
    (hslice : NoEmptySlice o now e) (options : RateLimitIncrementOptions) :
    (luaFixedIncr o now (o.cap options.maxRequests) options.sanitizedCost s).2 =
        ((Cell.fixed o e).increment now options).2 ∧
      SameCount now (some (fixedAfterIncrement o now options.sanitizedCost e))
        (luaFixedIncr o now (o.cap options.maxRequests) options.sanitizedCost s).1 := by
  have hcost := options.one_le_sanitizedCost
  have hsame := h.2.2 now le_rfl
  have hcount : ∀ p ∈ countedInMemory now e, 0 ≤ p.1 := by
    intro p hp
    obtain ⟨x, hx, rfl⟩ := Option.map_eq_some_iff.mp hp
    exact h.1 x (Option.filter_eq_some_iff.mp hx).1
  simp only [Cell.increment, luaFixedIncr_eq (o.cap options.maxRequests) hcost h.2.1,
    fixedAfterIncrement_eq hslice, ← hsame, redisWindowResult_eq]
  cases hm : countedInMemory now e with
  | none => exact ⟨rfl, sameCount_slice (by simp)⟩
  | some p =>
    have := hcount p hm
    exact ⟨rfl, sameCount_slice (by omega)⟩

/-- A decrement keeps the two slices alike. -/
theorem SameCount.decrement {e : Option FixedEntry} (h : SameCount now e s)
    (options : RateLimitDecrementOptions) :
    SameCount now (fixedAfterDecrement options.sanitizedCost e)
      (luaFixedDecr now options.sanitizedCost s) := by
  have hcost := options.one_le_sanitizedCost
  refine ⟨?_, ?_, fun u hu => ?_⟩
  · intro x hx
    cases e with
    | none => simp [fixedAfterDecrement] at hx
    | some y =>
      have hy := h.1 y rfl
      simp only [fixedAfterDecrement] at hx
      split at hx
      · obtain rfl := Option.some.inj hx
        exact hy
      · split at hx
        · simp at hx
        · obtain rfl := Option.some.inj hx
          simp only
          omega
  · intro y hy
    simp only [luaFixedDecr] at hy
    split at hy
    · simp at hy
    · next z hz =>
      obtain ⟨hv, hx⟩ := h.2.1 z (RedisKey.eq_of_live hz)
      split at hy
      · obtain rfl := Option.some.inj hy
        exact ⟨hv, hx⟩
      · obtain rfl := Option.some.inj hy
        exact ⟨by simp only; omega, hx⟩
  · rw [countedInMemory_decrement _ h.1, countedInRedis_decrement hcost h.2.1 hu, h.2.2 u hu]

/-- One step keeps the two alike, and an increment is answered alike. -/
theorem alike_step {i : Timed Op} (h : Alike o key t m s) (ht : t ≤ i.time) (hok : Admissible i)
    (hmeets : Meets key i m) :
    (i.op.isIncrement = true → (memoryStep key i m).2 = (step o i s).2) ∧
      Alike o key i.time (memoryStep key i m).1 (step o i s).1 := by
  obtain ⟨e, hcell, hsame⟩ := h
  replace hsame := hsame.mono ht
  obtain ⟨now, op⟩ := i
  cases op with
  | increment options =>
    obtain ⟨hres, hnext⟩ := hsame.increment (by simpa only [Meets, hcell] using hmeets rfl) options
    have hown : (m.cell key).clearWall now = .fixed o e := by rw [hcell]; rfl
    refine ⟨fun _ => ?_, _, ?_, hnext⟩
    · simp only [memoryStep, step, MemoryStore.step, Op.toStoreOp, hres,
        MemoryStore.increment_snd_cleared, hown]
    · simp only [memoryStep, MemoryStore.step, Op.toStoreOp]
      rw [MemoryStore.cell_increment_own, hown]
      rfl
  | decrement options =>
    refine ⟨fun hinc => Bool.noConfusion hinc, _, ?_, hsame.decrement options⟩
    simp only [memoryStep, MemoryStore.step, Op.toStoreOp]
    rw [MemoryStore.cell_decrement_own, hcell]
    rfl
  | reset =>
    refine ⟨fun hinc => Bool.noConfusion hinc, some ⟨0, now + o.windowMs⟩, ?_, ?_, ?_, ?_⟩
    · simp only [memoryStep, MemoryStore.step, Op.toStoreOp]
      rw [MemoryStore.cell_reset, if_pos rfl, hcell]
      rfl
    · rintro _ ⟨⟩
      exact le_rfl
    · simp [step]
    · intro u _
      rw [countedInMemory_some, if_neg (by simp)]
      rfl
  | set totalHits expiresAt =>
    refine ⟨fun hinc => Bool.noConfusion hinc,
      some ⟨max 0 totalHits, expiresAt.getD (now + o.windowMs)⟩, ?_, ?_⟩
    · simp only [memoryStep, MemoryStore.step, Op.toStoreOp]
      cases m with
      | sliding o' table => simp [MemoryStore.cell] at hcell
      | bucket o' table => simp [MemoryStore.cell] at hcell
      | fixed o' table =>
        obtain rfl : o' = o := (Cell.fixed.inj hcell).1
        simp only [MemoryStore.set, MemoryStore.cell, lookup_setFixed_self]
    · exact sameCount_slice (le_max_left _ _)

/-- At an open slice without a count the two give different ends. -/
theorem differ_of_not_meets {i : Timed Op} (h : Alike o key t m s) (ht : t ≤ i.time)
    (hnot : ¬ Meets key i m) :
    i.op.isIncrement = true ∧ (memoryStep key i m).2 ≠ (step o i s).2 := by
  obtain ⟨e, hcell, hsame⟩ := h
  replace hsame := hsame.mono ht
  obtain ⟨now, op⟩ := i
  simp only [Meets, hcell, not_forall, exists_prop] at hnot
  obtain ⟨hinc, hnot⟩ := hnot
  obtain ⟨x, rfl, h0, hopen, hend⟩ : ∃ x, e = some x ∧ x.count = 0 ∧ now < x.resetTime ∧
      x.resetTime ≠ now + o.windowMs := by
    cases e with
    | none => exact absurd trivial hnot
    | some x => exact ⟨x, rfl, by simpa only [NoEmptySlice, not_forall, exists_prop] using hnot⟩
  refine ⟨hinc, ?_⟩
  cases op with
  | decrement options => exact Bool.noConfusion hinc
  | reset => exact Bool.noConfusion hinc
  | set totalHits expiresAt => exact Bool.noConfusion hinc
  | increment options =>
    have hnone : countedInRedis now s = none := by
      rw [← hsame.2.2 now le_rfl, countedInMemory_some, if_neg (by simp [h0])]
    have hown : (m.cell key).clearWall now = .fixed o (some x) := by rw [hcell]; rfl
    simp only [memoryStep, step, MemoryStore.step, Op.toStoreOp,
      MemoryStore.increment_snd_cleared, hown,
      luaFixedIncr_eq (o.cap options.maxRequests) options.one_le_sanitizedCost hsame.2.1, hnone,
      Cell.increment, fixedAfterIncrement, if_neg (not_le.mpr hopen)]
    intro heq
    have hreset := congrArg RateLimitResult.resetTime (StoreReply.result.inj heq)
    exact hend hreset

end Step

end RedisFixed

/-- Wherever the run has an increment, the two stores answer it alike. -/
def FixedAnswersAgree (o : WindowOptions) (key : κ) (is : List (Timed RedisFixed.Op))
    (m : MemoryStore κ) : Prop :=
  ∀ p i rest, is = p ++ i :: rest → i.op.isIncrement = true →
    (RedisFixed.memoryStep key i (final (RedisFixed.memoryStep key) p m)).2 =
      (RedisFixed.step o i (final (RedisFixed.step o) p none)).2

/-- **When the fixed window of Redis is that of memory.**  On a run of increments,
decrements, resets and seeds of one key every increment is answered alike if and only if
none comes upon an open slice in which nothing is counted (a `reset` or a seeded zero
leaves one) that does not end just when a new slice would.
SOURCE: src/stores/redis-store.ts:229-264, 1318-1347, 1577-1599,
src/stores/memory-store.ts:355-374, 708-743, 869-907 -/
theorem redisFixed_eq_memory_iff (o : WindowOptions) (key : κ) (table : KeyTable κ FixedEntry)
    (hkey : table.state.lookup key = none) (t : ℤ) (is : List (Timed RedisFixed.Op))
    (hord : OrderedFrom Timed.time t is) (hok : ∀ i ∈ is, RedisFixed.Admissible i) :
    FixedAnswersAgree o key is (.fixed o table) ↔
      Guarded (RedisFixed.Meets key) (RedisFixed.memoryStep key) is (.fixed o table) := by
  have hstart : RedisFixed.Alike o key t (.fixed o table) none := by
    refine ⟨none, by rw [MemoryStore.cell, hkey], ?_, ?_, ?_⟩
    · simp
    · simp
    · exact fun u _ => rfl
  -- as long as the run meets the condition the two stay alike
  have hrun : ∀ p, OrderedFrom Timed.time t p → (∀ i ∈ p, RedisFixed.Admissible i) →
      Guarded (RedisFixed.Meets key) (RedisFixed.memoryStep key) p (.fixed o table) →
      RedisFixed.Alike o key (lastClock Timed.time t p)
        (final (RedisFixed.memoryStep key) p (.fixed o table))
        (final (RedisFixed.step o) p none) := by
    intro p hp hadm hg
    apply final_of_coupling _ hstart hp (hg.and_mem hadm)
    intro t m s i h ht hg
    exact (RedisFixed.alike_step h ht hg.2 hg.1).2
  constructor
  · intro hagree
    by_contra hnot
    obtain ⟨p, i, rest, rfl, hp, hmiss⟩ := exists_first_unguarded hnot
    obtain ⟨hordp, hordi⟩ := orderedFrom_append.mp hord
    obtain ⟨hinc, hne⟩ := RedisFixed.differ_of_not_meets
      (hrun p hordp (fun j hj => hok j (List.mem_append_left _ hj)) hp) hordi.1 hmiss
    exact hne (hagree p i rest rfl hinc)
  · rintro hg p i rest rfl hinc
    obtain ⟨hordp, hordi⟩ := orderedFrom_append.mp hord
    obtain ⟨hp, hi⟩ := guarded_append.mp hg
    have halike := hrun p hordp (fun j hj => hok j (List.mem_append_left _ hj)) hp
    exact (RedisFixed.alike_step halike hordi.1
      (hok i (List.mem_append_right _ List.mem_cons_self)) hi.1).1 hinc

/-- A slice that is given back whole, one that is seeded, and one begun anew after both. -/
theorem redisFixed_eq_memory_iff_run :
    FixedAnswersAgree twoASecond 7
      [⟨0, .increment {}⟩, ⟨300, .decrement {}⟩, ⟨400, .increment { cost := some 2 }⟩,
        ⟨500, .set 1 (some 2000)⟩, ⟨900, .increment {}⟩, ⟨2000, .increment {}⟩]
      (.fixed twoASecond (KeyTable.new 0)) :=
  (redisFixed_eq_memory_iff twoASecond 7 (KeyTable.new 0) rfl 0 _ (by decide)
    (by simp [RedisFixed.Admissible])).mpr
    (by decide +kernel)

/-- A key seeded with nothing until `5000` is hit at `500`: `MemoryStore` keeps the slice's
end, Redis takes the hit for the first one of a slice and answers `1500`. -/
theorem redisFixed_forgets_seeded_end :
    ¬ ∀ (is : List (Timed RedisFixed.Op)), OrderedFrom Timed.time 0 is →
      (∀ i ∈ is, RedisFixed.Admissible i) →
      FixedAnswersAgree oneASecond 7 is (.fixed oneASecond (KeyTable.new 0)) := by
  intro h
  have hanswer := h [⟨0, .set 0 (some 5000)⟩, ⟨500, .increment {}⟩] (by decide)
    (by simp [RedisFixed.Admissible]) [⟨0, .set 0 (some 5000)⟩] ⟨500, .increment {}⟩ [] rfl rfl
  revert hanswer
  decide +kernel

end RatelimitFlex
