import RatelimitFlex.Analysis.RedisWindowRuns

/-!
# `get` of a sliding window in Redis

The script counts the members in the window and takes the oldest of all members for the
reset.  The count is that of memory; the reset is as long as no expired member is left beside
a live one (`redisSlidingGet_eq_memory_iff`), which decrements and the passing of time bring
about, since only an increment prunes the set.
-/

set_option autoImplicit false

namespace RatelimitFlex

open Library

variable {κ : Type} [DecidableEq κ]

namespace RedisSliding

variable {μ : Type} {o : WindowOptions} {now : ℤ} {e : Option SlidingKeyState}
  {s : Option (RedisKey (ZSet μ))}

/-- A `get` answers `null` exactly when no member is in the window, else what memory
answers, with a reset still to come. -/
def GetAgrees (o : WindowOptions) (now : ℤ) (s : Option (RedisKey (ZSet μ)))
    (snapshot : Option RateLimitResult) : Prop :=
  (getSlidingRedis o now s = none ↔ ∀ p ∈ members now s, ¬ now - o.windowMs < p.1) ∧
    getSlidingRedis o now s = snapshot ∧
    ∀ r ∈ getSlidingRedis o now s, now < r.resetTime

/-- The live members are the live part of the array, and the members are in order. -/
theorem SameStamps.members_live (h : SameStamps o now e s) :
    ((members now s).filter fun p => decide (now - o.windowMs < p.1)).map Prod.fst =
        liveStamps o now (stampsOf e) ∧
      (ZSet.scores (members now s)).Pairwise (· ≤ ·) := by
  refine ⟨h.scores_pruned, ?_⟩
  rcases h.cases with ⟨z, x, hlive, -, hscores, -⟩ | ⟨hgone, -⟩
  · have hmembers : members now s = z := by
      rw [members, hlive]
      rfl
    rw [hmembers, hscores]
    cases e with
    | none => exact List.Pairwise.nil
    | some y => exact (h.1 y rfl).2.1
  · have hmembers : members now s = [] := by
      rw [members, hgone]
      rfl
    rw [hmembers]
    exact List.Pairwise.nil

/-- Nothing in the window: both answer `null`. -/
theorem getAgrees_of_nil (h : SameStamps o now e s)
    (hnil : liveStamps o now (stampsOf e) = []) :
    GetAgrees o now s ((Cell.sliding o e).snapshot now) := by
  have hfilter := h.members_live.1
  rw [hnil, List.map_eq_nil_iff] at hfilter
  have hnone : getSlidingRedis o now s = none := by
    simp only [getSlidingRedis, hfilter, List.length_nil, if_true]
  have hdead : ∀ p ∈ members now s, ¬ now - o.windowMs < p.1 := by
    intro p hp
    simpa using List.filter_eq_nil_iff.mp hfilter p hp
  refine ⟨iff_of_true hnone hdead, ?_, by simp [hnone]⟩
  simp only [hnone, Cell.snapshot, hnil]

/-- Something in the window: Redis answers from the head of the set, memory from the oldest
live stamp. -/
theorem getAgrees_iff_head (h : SameStamps o now e s) {oldest : ℤ} {rest : List ℤ}
    (hlive : liveStamps o now (stampsOf e) = oldest :: rest) {p : ℤ × μ} {z : ZSet μ}
    (hmembers : members now s = p :: z) :
    GetAgrees o now s ((Cell.sliding o e).snapshot now) ↔ p.1 = oldest := by
  have hfilter := h.members_live.1
  have hcount : ((members now s).filter fun p => decide (now - o.windowMs < p.1)).length =
      (oldest :: rest).length := by
    rw [← hlive, ← hfilter, List.length_map]
  have hget : getSlidingRedis o now s =
      some (RateLimitResult.ofUsage (oldest :: rest).length o.maxRequests (p.1 + o.windowMs)) := by
    simp only [getSlidingRedis, hcount, redisWindowResult_eq, WindowOptions.cap_none]
    rw [if_neg (by simp), hmembers]
    rfl
  have hsnapshot : (Cell.sliding o e).snapshot now =
      some (RateLimitResult.ofUsage (oldest :: rest).length o.maxRequests
        (oldest + o.windowMs)) := by
    simp only [Cell.snapshot, hlive]
  constructor
  · rintro ⟨-, heq, -⟩
    rw [hget, hsnapshot] at heq
    have hreset := congrArg RateLimitResult.resetTime (Option.some.inj heq)
    simp only [RateLimitResult.resetTime_ofUsage] at hreset
    omega
  · rintro rfl
    have hmem : p.1 ∈ liveStamps o now (stampsOf e) := by
      rw [hlive]
      exact List.mem_cons_self
    have hin : now - o.windowMs < p.1 := by
      simpa using (List.mem_filter.mp hmem).2
    refine ⟨iff_of_false (by simp [hget]) ?_, by rw [hget, hsnapshot], ?_⟩
    · intro hdead
      exact hdead p (by rw [hmembers]; exact List.mem_cons_self) hin
    · rw [hget]
      rintro r ⟨⟩
      simp only [RateLimitResult.resetTime_ofUsage]
      omega

/-- The two agree exactly when no expired member stands beside a live one. -/
theorem SameStamps.getAgrees_iff (h : SameStamps o now e s) :
    GetAgrees o now s ((Cell.sliding o e).snapshot now) ↔
      ∀ p ∈ members now s, now - o.windowMs < p.1 → ∀ q ∈ members now s, now - o.windowMs < q.1 := by
  obtain ⟨hfilter, hsorted⟩ := h.members_live
  cases hlive : liveStamps o now (stampsOf e) with
  | nil =>
    refine iff_of_true (getAgrees_of_nil h hlive) ?_
    rw [hlive, List.map_eq_nil_iff] at hfilter
    intro p hp hin
    have := List.filter_eq_nil_iff.mp hfilter p hp
    simp only [decide_eq_true_eq] at this
    exact absurd hin this
  | cons oldest rest =>
    rw [hlive] at hfilter
    cases hmembers : members now s with
    | nil => simp [hmembers] at hfilter
    | cons p z =>
      rw [getAgrees_iff_head h hlive hmembers]
      rw [hmembers] at hfilter hsorted
      simp only [ZSet.scores, List.map_cons, List.pairwise_cons] at hsorted
      by_cases hin : now - o.windowMs < p.1
      · -- the head is live, so all are and the filter keeps it
        rw [List.filter_cons_of_pos (by simpa using hin)] at hfilter
        refine iff_of_true (List.cons.inj hfilter).1 ?_
        intro _ _ _ q hq
        rcases List.mem_cons.mp hq with rfl | hq
        · exact hin
        · exact hin.trans_le (hsorted.1 q.1 (List.mem_map_of_mem hq))
      · -- the head is expired, and the oldest live stamp is behind it
        have hmem : oldest ∈ ((p :: z).filter fun q => decide (now - o.windowMs < q.1)).map
            Prod.fst := by
          rw [hfilter]
          exact List.mem_cons_self
        obtain ⟨q, hq, rfl⟩ := List.mem_map.mp hmem
        obtain ⟨hqmem, hqin⟩ := List.mem_filter.mp hq
        simp only [decide_eq_true_eq] at hqin
        refine iff_of_false ?_ ?_
        · intro heq
          exact hin (heq ▸ hqin)
        · intro hall
          exact hin (hall q hqmem hqin p List.mem_cons_self)

end RedisSliding

/-- **`get` of a sliding window in Redis.**  After every run of increments and decrements of
one key, and at every later time, the script answers `null` when nothing is in the window and
otherwise what `MemoryStore.get` answers, exactly when the set does not hold an expired member
beside a live one.
SOURCE: src/stores/redis-store.ts:335-356, 1455-1482, src/stores/memory-store.ts:659-684 -/
theorem redisSlidingGet_eq_memory_iff {μ : Type} [LinearOrder μ] (o : WindowOptions) (key : κ)
    (table : KeyTable κ SlidingKeyState) (hkey : table.state.lookup key = none) (t : ℤ)
    (is : List (Timed (RedisSliding.Op μ))) (hord : OrderedFrom Timed.time t is)
    (hfresh : Guarded RedisSliding.Fresh (RedisSliding.step o) is none) (now : ℤ)
    (hnow : lastClock Timed.time t is ≤ now) :
    let s := final (RedisSliding.step o) is none
    let m := final (fun i : Timed (RedisSliding.Op μ) =>
      MemoryStore.step ⟨i.time, i.op.toStoreOp key⟩) is (.sliding o table)
    RedisSliding.GetAgrees o now s (m.get now key).2 ↔
      ∀ p ∈ RedisSliding.members now s, now - o.windowMs < p.1 →
        ∀ q ∈ RedisSliding.members now s, now - o.windowMs < q.1 := by
  intro s m
  have hstart : SlidingAlike (μ := μ) o key t none (.sliding o table) := by
    refine ⟨none, by rw [MemoryStore.cell, hkey], ?_, Or.inr ⟨rfl, ?_⟩⟩
    · simp [Cell.Wf]
    · simp
  obtain ⟨e, hcell, hsame⟩ : SlidingAlike o key (lastClock Timed.time t is) s m :=
    final_of_coupling (R := SlidingAlike (μ := μ) o key)
      (fun t s m (i : Timed (RedisSliding.Op μ)) h (ht : t ≤ i.time) hg =>
        (slidingAlike_step h ht hg).2) hstart hord hfresh
  replace hsame := hsame.mono hnow
  have hwall : unexpired now e = e := unexpired_of_none now fun x hx => (hsame.1 x hx).1
  rw [MemoryStore.get_snd, hcell, Cell.clearWall, hwall]
  exact hsame.getAgrees_iff

/-- Two hits, read while both are in the window. -/
theorem redisSlidingGet_eq_memory_iff_both_live :
    let is : List (Timed (RedisSliding.Op ℕ)) :=
      [⟨0, .increment {} [8]⟩, ⟨600, .increment {} [7]⟩]
    RedisSliding.GetAgrees twoASecond 900 (final (RedisSliding.step twoASecond) is none)
      ((final (fun i : Timed (RedisSliding.Op ℕ) =>
        MemoryStore.step ⟨i.time, i.op.toStoreOp 7⟩) is
          (.sliding twoASecond (KeyTable.new 0))).get 900 7).2 := by
  intro is
  have hfresh : Guarded RedisSliding.Fresh (RedisSliding.step twoASecond) is none :=
    ⟨⟨by decide +kernel, by decide, by simp⟩, ⟨by decide +kernel, by decide, by decide +kernel⟩,
      trivial⟩
  exact (redisSlidingGet_eq_memory_iff twoASecond 7 (KeyTable.new 0) rfl 0 is (by decide) hfresh
    900 (by decide)).mpr (by decide +kernel)

/-- A hit at 0 and one at 900, read at 1500: the expired one is still in the set, and the
reset that Redis reports is half a second past. -/
theorem redisSlidingGet_reset_past :
    let is : List (Timed (RedisSliding.Op ℕ)) :=
      [⟨0, .increment {} [8]⟩, ⟨900, .increment {} [7]⟩]
    let s := final (RedisSliding.step twoASecond) is none
    let m := final (fun i : Timed (RedisSliding.Op ℕ) =>
      MemoryStore.step ⟨i.time, i.op.toStoreOp 7⟩) is (.sliding twoASecond (KeyTable.new 0))
    (RedisSliding.getSlidingRedis twoASecond 1500 s).map (fun r => (r.totalHits, r.resetTime)) =
        some (1, 1000) ∧
      (m.get 1500 7).2.map (fun r => (r.totalHits, r.resetTime)) = some (1, 1900) ∧
      ¬ RedisSliding.GetAgrees twoASecond 1500 s (m.get 1500 7).2 := by
  intro is s m
  have hredis : (RedisSliding.getSlidingRedis twoASecond 1500 s).map
      (fun r => (r.totalHits, r.resetTime)) = some (1, 1000) := by decide +kernel
  have hmemory : (m.get 1500 7).2.map (fun r => (r.totalHits, r.resetTime)) = some (1, 1900) := by
    decide +kernel
  refine ⟨hredis, hmemory, ?_⟩
  rintro ⟨-, heq, -⟩
  rw [heq, hmemory] at hredis
  exact absurd hredis (by decide)

end RatelimitFlex
