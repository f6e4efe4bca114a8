import RatelimitFlex.Analysis.MemoryTokenBucket
import RatelimitFlex.Analysis.RedisBucketExpiry
import RatelimitFlex.Analysis.ShieldTransparent
import RatelimitFlex.Analysis.SyncConservation
import RatelimitFlex.Program.InsuredRedis

/-!
# What an increment counts, and what a decrement of its cost takes back

A store `Lasts` from `t` to `u` when nothing it counts at `t` expires, no slice ends and no
bucket refills by `u`.  Meanwhile an increment adds its cost to the count, unless a bucket
refuses it, and a decrement of the same cost takes it off again: the pair leaves the count
alone except on a bucket that refuses the increment and is not full.  This holds of a cell
of a `MemoryStore` and of a key in Redis alike.
-/

set_option autoImplicit false

namespace RatelimitFlex

open Library

/-! ## The cells of a `MemoryStore` -/

namespace Cell

variable {t now u : ℤ} {x : Cell}

/-- Nothing that counts at `t` expires by `u`, no slice ends and no bucket refills. -/
def Lasts (t u : ℤ) : Cell → Prop
  | .sliding o e => u < t + o.windowMs ∧ heldStamps o u e = heldStamps o t e
  | .fixed o e => u < t + o.windowMs ∧ ∀ s ∈ e, t < s.resetTime → u < s.resetTime
  | .bucket o e => u < t + o.interval ∧ ∀ b ∈ e, b.refill o u = b.refill o t

/-- A bucket has fewer tokens left than the cost; a window counts every hit. -/
def Refuses (now : ℤ) (cost : ℕ) : Cell → Prop
  | .bucket o e => o.bucketSize - (Cell.bucket o e).count now < cost
  | _ => False

/-- A decrement keeps a cell well formed. -/
theorem Wf.decrement (h : x.Wf now) (options : RateLimitDecrementOptions) :
    (x.decrement options).Wf now := by
  have hsliding : ∀ {e : Option SlidingKeyState} {f : List ℤ → List ℤ},
      (∀ l, (f l).Sublist l) →
      (∀ s ∈ e, s.wallExpiresAt = none ∧ s.stamps.Pairwise (· ≤ ·) ∧ ∀ y ∈ s.stamps, y ≤ now) →
      ∀ s ∈ slidingAfterDecrement f e,
        s.wallExpiresAt = none ∧ s.stamps.Pairwise (· ≤ ·) ∧ ∀ y ∈ s.stamps, y ≤ now := by
    intro e f hf he s hs
    cases e with
    | none => simp [slidingAfterDecrement] at hs
    | some cur =>
      simp only [slidingAfterDecrement] at hs
      split at hs
      · exact he s hs
      · split at hs
        · simp at hs
        · obtain rfl := Option.some.inj hs
          obtain ⟨hwall, hsorted, hpast⟩ := he cur rfl
          exact ⟨hwall, hsorted.sublist (hf _), fun y hy => hpast y ((hf _).subset hy)⟩
  cases x with
  | sliding o e =>
    simp only [Cell.decrement]
    split
    · exact hsliding (fun l => List.take_sublist _ l) h
    · exact hsliding (fun l => List.drop_sublist _ l) h
  | fixed o e =>
    cases e with
    | none => simp [Cell.decrement, fixedAfterDecrement, Wf]
    | some s =>
      simp only [Cell.decrement, fixedAfterDecrement]
      split
      · exact h
      · split
        · simp [Wf]
        · rintro _ ⟨⟩
          simp only
          omega
  | bucket o e =>
    intro b hb
    obtain ⟨b', hb', rfl⟩ := Option.mem_map.mp hb
    obtain ⟨hnonneg, hle, hlast⟩ := h b' hb'
    exact ⟨le_min (by have := o.bucketSize_pos; omega) (by omega), min_le_left _ _, hlast⟩

/-- A bucket that is not due for a refill counts the tokens it is short of. -/
theorem count_bucket_of_lt {o : TokenBucketOptions} {b : BucketEntry}
    (h : now < b.lastRefill + o.interval) :
    (Cell.bucket o (some b)).count now = o.bucketSize - b.tokens := by
  have hI := o.interval_pos
  have hkept : isBucketIdleFullPurgeable o now b = false := by
    simp only [isBucketIdleFullPurgeable, Bool.and_eq_false_iff, decide_eq_false_iff_not]
    omega
  simp only [count, clearWall, snapshot, Option.bind_some, hkept, Bool.false_eq_true, if_false,
    Option.map_some, Option.getD_some, Bucket.refill_of_lt h]

/-- Any bucket counts the tokens it is short of. -/
theorem count_bucket {o : TokenBucketOptions} {e : Option BucketEntry}
    (h : (Cell.bucket o e).Wf now) :
    (Cell.bucket o e).count now =
      o.bucketSize - ((startBucket o now e).refill o now).tokens := by
  cases e with
  | none =>
    have hfull : (Bucket.full o now).refill o now = Bucket.full o now :=
      Bucket.refill_of_lt (by have := o.interval_pos; simp only [Bucket.full]; omega)
    rw [startBucket, Option.getD_none, hfull]
    exact (sub_self _).symm
  | some b =>
    simp only [count, clearWall, snapshot, Option.bind_some, startBucket, Option.getD_some]
    split
    · next hfull =>
      have hle := full_of_purgeable hfull (h b rfl)
      have hge := ((h b rfl).refill le_rfl).tokens_le
      simp only [Option.map_none, Option.getD_none]
      omega
    · simp only [Option.map_some, Option.getD_some]

/-- A lasting bucket is open until `u`, whenever it is asked. -/
theorem Lasts.openBucket {o : TokenBucketOptions} {e : Option BucketEntry}
    (h : (Cell.bucket o e).Lasts t u) (hwf : (Cell.bucket o e).Wf t) (ht : t ≤ now)
    (hu : now ≤ u) :
    ((startBucket o now e).refill o now).tokens = o.bucketSize - (Cell.bucket o e).count t ∧
      u < ((startBucket o now e).refill o now).lastRefill + o.interval ∧
      0 ≤ (Cell.bucket o e).count t := by
  rw [count_bucket hwf]
  obtain ⟨hopen, hrefill⟩ := h
  cases e with
  | none =>
    have hI := o.interval_pos
    have hfull : ∀ a, (Bucket.full o a).refill o a = Bucket.full o a := fun a =>
      Bucket.refill_of_lt (by simp only [Bucket.full]; omega)
    simp only [startBucket, Option.getD_none, hfull]
    simp only [Bucket.full]
    omega
  | some b =>
    simp only [startBucket, Option.getD_some]
    obtain ⟨hsame, hlater⟩ := Bucket.refill_between (hrefill b rfl) ht hu
    have hle := ((hwf b rfl).refill le_rfl).tokens_le
    rw [hsame]
    omega

/-- What lasts is counted alike at both ends. -/
theorem Lasts.count_eq (h : x.Lasts t u) (hwf : x.Wf t) (ht : t ≤ u) : x.count u = x.count t := by
  cases x with
  | sliding o e => rw [count_sliding, count_sliding, h.2]
  | fixed o e =>
    have hsteady : (Cell.fixed o e).Steady t u :=
      ⟨h.1, fun s hs => ⟨(hwf s hs).le, h.2 s hs⟩⟩
    exact (hsteady.count_eq le_rfl ht).symm
  | bucket o e =>
    have hlater : (Cell.bucket o e).Wf u := hwf.mono ht
    obtain ⟨htokens, -, -⟩ := h.openBucket hwf ht le_rfl
    rw [count_bucket hlater, htokens]
    omega

/-- An increment adds its cost, unless it is refused. -/
theorem Lasts.count_increment (h : x.Lasts t u) (hwf : x.Wf t) (ht : t ≤ now) (hu : now ≤ u)
    (options : RateLimitIncrementOptions) :
    (x.Refuses t options.sanitizedCost →
      ((x.clearWall now).increment now options).1.count u = x.count t) ∧
    (¬ x.Refuses t options.sanitizedCost →
      ((x.clearWall now).increment now options).1.count u = x.count t + options.sanitizedCost) := by
  have hsteady : x.Steady t u →
      ((x.clearWall now).increment now options).1.count u = x.count t + options.sanitizedCost := by
    intro hs
    rw [(hs.increment ht hu options).2, hs.count_eq le_rfl (ht.trans hu)]
  cases x with
  | sliding o e => exact ⟨False.elim, fun _ => hsteady h⟩
  | fixed o e => exact ⟨False.elim, fun _ => hsteady ⟨h.1, fun s hs => ⟨(hwf s hs).le, h.2 s hs⟩⟩⟩
  | bucket o e =>
    obtain ⟨htokens, hlater, hnonneg⟩ := h.openBucket hwf ht hu
    simp only [Refuses, clearWall, Cell.increment]
    constructor
    · intro hlt
      rw [Bucket.request_of_lt o (by omega), count_bucket_of_lt hlater, htokens]
      omega
    · intro hle
      rw [Bucket.request_of_le o (by omega)]
      refine (count_bucket_of_lt ?_).trans ?_
      · exact hlater
      · simp only [htokens]
        omega

/-- A decrement of the same cost takes it off again; from a bucket that refused it it takes
something off unless there is nothing. -/
theorem Lasts.count_decrement (h : x.Lasts t u) (hwf : x.Wf t) (ht : t ≤ now) (hu : now ≤ u)
    {inc : RateLimitIncrementOptions} {dec : RateLimitDecrementOptions}
    (hcost : dec.sanitizedCost = inc.sanitizedCost) :
    (((x.clearWall now).increment now inc).1.decrement dec).count u = x.count t ↔
      (x.Refuses t inc.sanitizedCost → x.count t = 0) := by
  have hsteady : x.Steady t u →
      (((x.clearWall now).increment now inc).1.decrement dec).count u = x.count t := by
    intro hs
    obtain ⟨hpruned, hcount⟩ := hs.increment ht hu inc
    have hnonneg : 0 ≤ x.count u := hs.count_nonneg
    rw [(hpruned.decrement (by rw [hcost, hcount]; omega)).2, hcount, hcost,
      hs.count_eq le_rfl (ht.trans hu)]
    omega
  cases x with
  | sliding o e => exact iff_of_true (hsteady h) False.elim
  | fixed o e =>
    exact iff_of_true (hsteady ⟨h.1, fun s hs => ⟨(hwf s hs).le, h.2 s hs⟩⟩) False.elim
  | bucket o e =>
    obtain ⟨htokens, hlater, hnonneg⟩ := h.openBucket hwf ht hu
    have hpos := inc.one_le_sanitizedCost
    simp only [Refuses, clearWall, Cell.increment, Cell.decrement, Option.map_some]
    by_cases hlt : o.bucketSize - (Cell.bucket o e).count t < inc.sanitizedCost
    · rw [Bucket.request_of_lt o (by omega), count_bucket_of_lt (by exact hlater)]
      simp only [htokens, hcost]
      omega
    · rw [Bucket.request_of_le o (by omega), count_bucket_of_lt (by exact hlater)]
      simp only [htokens, hcost]
      omega

end Cell

/-! ## Sorted sets in Redis -/

namespace RedisKey

variable {α : Type} {t now u : ℤ} {s : Option (RedisKey α)}

/-- What is there at two moments is there in between. -/
theorem live_between (h : live u s = live t s) (ht : t ≤ now) (hu : now ≤ u) :
    live now s = live t s := by
  cases hl : live t s with
  | none => exact live_mono ht hl
  | some x =>
    rw [hl] at h
    obtain ⟨rfl, hall⟩ := Option.filter_eq_some_iff.mp h
    refine Option.filter_eq_some_iff.mpr ⟨rfl, ?_⟩
    cases he : x.expireAt with
    | none => rfl
    | some e =>
      rw [he] at hall
      simp only [Option.all_some, decide_eq_true_eq] at hall ⊢
      omega

/-- Less and less is left of a key. -/
theorem live_later (ht : t ≤ now) : live now s = live t s ∨ live now s = none := by
  cases hl : live now s with
  | none => exact Or.inr rfl
  | some x =>
    refine Or.inl ?_
    obtain ⟨rfl, -⟩ := Option.filter_eq_some_iff.mp hl
    cases ht' : live t (some x) with
    | none => rw [live_mono ht ht'] at hl; exact hl.symm ▸ rfl
    | some y => rw [← eq_of_live ht']

end RedisKey

namespace ZSet

variable {μ : Type} [LinearOrder μ]

/-- By score and then by member. -/
def Sorted (z : ZSet μ) : Prop := z.Pairwise fun p q => toLex p ≤ toLex q

/-- A new member comes at its place. -/
theorem Sorted.add {z : ZSet μ} (h : Sorted z) (score : ℤ) (m : μ) : Sorted (ZSet.add score m z) := by
  have htrans : IsTrans (ℤ × μ) fun p q => toLex p ≤ toLex q := ⟨fun _ _ _ => le_trans⟩
  have htotal : Std.Total fun p q : ℤ × μ => toLex p ≤ toLex q := ⟨fun _ _ => le_total _ _⟩
  exact List.Pairwise.orderedInsert _ _ (h.sublist List.filter_sublist)

/-- So do all new members. -/
theorem Sorted.addAll {z : ZSet μ} (h : Sorted z) (score : ℤ) (members : List μ) :
    Sorted (members.foldl (fun z m => ZSet.add score m z) z) := by
  induction members generalizing z with
  | nil => exact h
  | cons m members ih => exact ih (h.add score m)

omit [LinearOrder μ] in
/-- A set is stored as it is. -/
theorem value_of_mem_store {z : ZSet μ} {e : Option ℤ} {x : RedisKey (ZSet μ)}
    (h : x ∈ ZSet.store z e) : x.value = z := by
  unfold ZSet.store at h
  split at h
  · simp at h
  · exact (Option.some.inj h) ▸ rfl

/-- The scores of a sorted set are in order. -/
theorem Sorted.scores {z : ZSet μ} (h : Sorted z) : (ZSet.scores z).Pairwise (· ≤ ·) := by
  refine List.pairwise_map.mpr (h.imp ?_)
  intro p q hpq
  rcases Prod.Lex.toLex_le_toLex.mp hpq with hlt | ⟨heq, -⟩
  · exact hlt.le
  · exact heq.le

end ZSet

namespace RedisSliding

open RedisWindowKeys

variable {μ : Type} [LinearOrder μ] {o : WindowOptions} {t now clock u : ℤ}
  {s : Option (RedisKey (ZSet μ))}

omit [LinearOrder μ] in
/-- Less and less of a set counts. -/
theorem prunedAt_sublist (ht : t ≤ now) (hc : t ≤ clock) :
    (prunedAt o clock now s).Sublist (prunedAt o t t s) := by
  unfold prunedAt
  rcases RedisKey.live_later (s := s) hc with hl | hl
  · rw [hl]
    refine List.monotone_filter_right _ fun p hp => ?_
    simp only [decide_eq_true_eq] at hp ⊢
    omega
  · rw [hl]
    exact List.nil_sublist _

omit [LinearOrder μ] in
/-- A set that lasts is found as it is by a script in between, whatever moment it is told. -/
theorem prunedAt_between (h : prunedAt o u u s = prunedAt o t t s) (ht : t ≤ now)
    (hn : now ≤ clock) (hc : clock ≤ u) : prunedAt o clock now s = prunedAt o t t s := by
  have hfound : (prunedAt o clock now s).Sublist (prunedAt o t t s) :=
    prunedAt_sublist ht (ht.trans hn)
  have hlast : (prunedAt o u u s).Sublist (prunedAt o clock now s) := by
    unfold prunedAt
    rcases RedisKey.live_later (s := s) hc with hl | hl
    · rw [hl]
      refine List.monotone_filter_right _ fun p hp => ?_
      simp only [decide_eq_true_eq] at hp ⊢
      omega
    · rw [hl]
      exact List.nil_sublist _
  exact hfound.antisymm (h ▸ hlast)

omit [LinearOrder μ] in
/-- A stored set is read back, if it is recent. -/
theorem prunedAt_store {z : ZSet μ} {e : ℤ} (hrecent : ∀ p ∈ z, u - o.windowMs < p.1)
    (he : u < e) : prunedAt o u u (ZSet.store z (some e)) = z := by
  unfold prunedAt ZSet.store
  split
  · next hz => rw [hz]; rfl
  · rw [RedisKey.live_some, if_pos he]
    refine List.filter_eq_self.mpr fun p hp => ?_
    exact decide_eq_true (hrecent p hp)

/-- What the script of an increment leaves: its members are added to what counts. -/
theorem luaSlidingIncrAt_spec (h : prunedAt o u u s = prunedAt o t t s)
    (hW : u < t + o.windowMs) (ht : t ≤ now) (hn : now ≤ clock) (hc : clock ≤ u) {cost : ℕ}
    (hcost : 1 ≤ cost) {members : List μ} (hlength : members.length = cost)
    (hnodup : members.Nodup) (hnew : ∀ x ∈ s, ∀ p ∈ x.value, p.2 ∉ members) :
    ∃ z : ZSet μ, luaSlidingIncrAt o clock now cost members s =
        ZSet.store z (some (clock + o.windowMs)) ∧
      (∀ p ∈ z, u - o.windowMs < p.1) ∧ z.length = (prunedAt o t t s).length + cost := by
  have hfound := prunedAt_between h ht hn hc
  have htake : members.take (max cost 1) = members := List.take_of_length_le (by omega)
  refine ⟨_, by rw [luaSlidingIncrAt, htake, hfound], ?_, ?_⟩
  · have hlater : ∀ {l : List μ} {z : ZSet μ}, (∀ p ∈ z, u - o.windowMs < p.1) →
        ∀ p ∈ l.foldl (fun z m => ZSet.add now m z) z, u - o.windowMs < p.1 := by
      intro l
      induction l with
      | nil => exact fun hz => hz
      | cons m l ih =>
        intro z hz
        refine ih fun p hp => ?_
        rcases ZSet.mem_add hp with rfl | hp
        · simp only
          omega
        · exact hz p hp
    refine hlater fun p hp => ?_
    rw [← h] at hp
    exact of_decide_eq_true (List.mem_filter.mp hp).2
  · rw [length_addAll now hnodup, hlength]
    intro p hp
    have hp := List.mem_of_mem_filter hp
    cases hl : RedisKey.live t s with
    | none => simp [hl] at hp
    | some x =>
      rw [hl] at hp
      exact hnew x (RedisKey.eq_of_live hl) p hp

omit [LinearOrder μ] in
/-- Popping `n` members leaves so many fewer. -/
theorem length_pops (newest : Bool) (n : ℕ) (z : ZSet μ) :
    ((if newest then ZSet.popMax else ZSet.popMin)^[n] z).length = z.length - n := by
  have hscores := congrArg List.length (scores_pops newest n z)
  simp only [ZSet.scores, List.length_map] at hscores
  rw [hscores]
  cases newest with
  | true => simp only [if_true, List.length_take, List.length_map]; omega
  | false => simp only [Bool.false_eq_true, if_false, List.length_drop, List.length_map]

omit [LinearOrder μ] in
/-- It leaves them in their order. -/
theorem pops_sublist (newest : Bool) (n : ℕ) (z : ZSet μ) :
    ((if newest then ZSet.popMax else ZSet.popMin)^[n] z).Sublist z := by
  cases newest with
  | true => simpa only [if_true, ZSet.popMax_iterate] using List.take_sublist _ _
  | false => simpa only [Bool.false_eq_true, if_false, ZSet.popMin_iterate] using List.drop_sublist _ _

omit [LinearOrder μ] in
/-- A decrement of a recent set takes its cost off. -/
theorem prunedAt_decr_store {z : ZSet μ} {e : ℤ} (hrecent : ∀ p ∈ z, u - o.windowMs < p.1)
    (he : u < e) {cost : ℕ} (hcost : 1 ≤ cost) (newest : Bool) :
    (prunedAt o u u (luaSlidingDecr u cost newest (ZSet.store z (some e)))).length =
      z.length - cost := by
  unfold ZSet.store
  split
  · next hz =>
    rw [hz]
    simp [luaSlidingDecr, prunedAt, ZSet.removeUpTo]
  · simp only [luaSlidingDecr, RedisKey.live_some, if_pos he]
    rw [prunedAt_store (fun p hp => hrecent p ((pops_sublist _ _ _).subset hp)) he, length_pops]
    omega

/-- What counts of stamps in order, once some went at one end: the dead stamps are the oldest. -/
theorem length_liveStamps_drop {l : List ℤ} (h : l.Pairwise (· ≤ ·)) (n : ℕ) :
    (liveStamps o u (l.drop n)).length =
      (liveStamps o u l).length - (n - (l.length - (liveStamps o u l).length)) := by
  obtain ⟨d, hd⟩ : liveStamps o u l <:+ l := liveStamps_suffix h
  have hdead : liveStamps o u d = [] := liveStamps_prefix_nil (l := liveStamps o u l) <| by
    rw [hd, liveStamps_liveStamps o le_rfl]
  have hlive : ∀ k, liveStamps o u ((liveStamps o u l).drop k) = (liveStamps o u l).drop k :=
    fun k => List.filter_eq_self.mpr fun ts hts =>
      (List.mem_filter.mp ((List.drop_sublist _ _).subset hts)).2
  have hlength : d.length = l.length - (liveStamps o u l).length := by
    rw [← congrArg List.length hd, List.length_append]
    omega
  have hsplit : l.drop n = d.drop n ++ (liveStamps o u l).drop (n - d.length) := by
    rw [← List.drop_append, hd]
  rw [hsplit, liveStamps_append, liveStamps_eq_nil_of_sublist (List.drop_sublist _ _) hdead, hlive,
    List.nil_append, List.length_drop, hlength]

/-- Taking the newest stamps away takes live ones first. -/
theorem length_liveStamps_take {l : List ℤ} (h : l.Pairwise (· ≤ ·)) (n : ℕ) :
    (liveStamps o u (l.take (l.length - n))).length = (liveStamps o u l).length - n := by
  obtain ⟨d, hd⟩ : liveStamps o u l <:+ l := liveStamps_suffix h
  have hdead : liveStamps o u d = [] := liveStamps_prefix_nil (l := liveStamps o u l) <| by
    rw [hd, liveStamps_liveStamps o le_rfl]
  have hlive : ∀ k, liveStamps o u ((liveStamps o u l).take k) = (liveStamps o u l).take k :=
    fun k => List.filter_eq_self.mpr fun ts hts =>
      (List.mem_filter.mp ((List.take_sublist _ _).subset hts)).2
  have hlength : l.length = d.length + (liveStamps o u l).length := by
    rw [← List.length_append, hd]
  have hsplit : l.take (l.length - n) =
      d.take (l.length - n) ++ (liveStamps o u l).take (l.length - n - d.length) := by
    rw [← List.take_append, hd]
  rw [hsplit, liveStamps_append, liveStamps_eq_nil_of_sublist (List.take_sublist _ _) hdead, hlive,
    List.nil_append, List.length_take]
  omega

/-- The members of a set that are still there, whether they count or not. -/
def held (now : ℤ) (s : Option (RedisKey (ZSet μ))) : ℕ :=
  ((RedisKey.live now s).map fun x => x.value.length).getD 0

/-- A decrement alone takes something off, unless there is nothing or it pops only members that
no longer count. -/
theorem length_decr_iff (hsorted : ∀ x ∈ s, ZSet.Sorted x.value) {cost : ℕ} (hcost : 1 ≤ cost)
    (newest : Bool) :
    (prunedAt o u u (luaSlidingDecr u cost newest s)).length = (prunedAt o u u s).length ↔
      (prunedAt o u u s).length = 0 ∨
        newest = false ∧ (prunedAt o u u s).length + cost ≤ held u s := by
  have hread : ∀ z : ZSet μ, (z.removeUpTo (u - o.windowMs)).length =
      (liveStamps o u (ZSet.scores z)).length := by
    intro z
    rw [liveStamps, ← ZSet.scores_removeUpTo, ZSet.scores, List.length_map]
  unfold luaSlidingDecr held
  cases hl : RedisKey.live u s with
  | none => simp [prunedAt, hl, ZSet.removeUpTo]
  | some x =>
    have hx : ZSet.Sorted x.value := hsorted x (RedisKey.eq_of_live hl)
    have hstored : ∀ z : ZSet μ, prunedAt o u u (ZSet.store z x.expireAt) =
        z.removeUpTo (u - o.windowMs) := by
      intro z
      unfold ZSet.store prunedAt
      split
      · next hz => rw [hz]; rfl
      · have hlive : RedisKey.live u (some ⟨z, x.expireAt⟩) = some ⟨z, x.expireAt⟩ :=
          Option.filter_eq_some_iff.mpr ⟨rfl, (Option.filter_eq_some_iff.mp hl).2⟩
        rw [hlive]
        rfl
    have hpruned : prunedAt o u u s = x.value.removeUpTo (u - o.windowMs) := by
      rw [prunedAt, hl]
      rfl
    have hle : (liveStamps o u (ZSet.scores x.value)).length ≤ (ZSet.scores x.value).length :=
      List.length_filter_le _ _
    have hlength : (ZSet.scores x.value).length = x.value.length := List.length_map _
    simp only [hstored, hpruned, hread, scores_pops, Option.map_some, Option.getD_some]
    cases newest with
    | true =>
      simp only [if_true, length_liveStamps_take hx.scores, Bool.true_eq_false, false_and, or_false]
      omega
    | false =>
      simp only [Bool.false_eq_true, if_false, length_liveStamps_drop hx.scores, true_and]
      omega

end RedisSliding

/-! ## Counters and buckets in Redis -/

namespace RedisFixed

variable {o : WindowOptions} {t clock u : ℤ} {s : Option (RedisKey ℤ)}

/-- The counter a command finds. -/
def value (now : ℤ) (s : Option (RedisKey ℤ)) : ℤ :=
  ((RedisKey.live now s).map RedisKey.value).getD 0

/-- A counter is not negative. -/
theorem value_nonneg (h : ∀ x ∈ s, 0 ≤ x.value) (now : ℤ) : 0 ≤ value now s := by
  unfold value
  cases hl : RedisKey.live now s with
  | none => exact le_rfl
  | some x => exact h x (RedisKey.eq_of_live hl)

/-- What the script of an increment leaves is there until `u`, with its cost added. -/
theorem luaFixedIncr_spec (h : RedisKey.live u s = RedisKey.live t s) (hW : u < t + o.windowMs)
    (ht : t ≤ clock) (hu : clock ≤ u) (maxRequests : ℕ) {cost : ℕ} (hcost : 1 ≤ cost) :
    ∃ x, RedisKey.live u (luaFixedIncr o clock maxRequests cost s).1 = some x ∧
      x.value = value t s + cost := by
  have hmax : max cost 1 = cost := by omega
  have hfound := RedisKey.live_between h ht hu
  unfold value
  simp only [luaFixedIncr, hmax, hfound]
  cases hl : RedisKey.live t s with
  | none =>
    refine ⟨⟨cost, some (clock + o.windowMs)⟩, ?_, ?_⟩
    · simp only [if_true]
      rw [RedisKey.live_some, if_pos (by omega)]
    · simp
  | some x =>
    by_cases hzero : x.value + (cost : ℤ) = cost
    · refine ⟨⟨x.value + cost, some (clock + o.windowMs)⟩, ?_, rfl⟩
      simp only [if_pos hzero]
      rw [RedisKey.live_some, if_pos (by omega)]
    · refine ⟨⟨x.value + cost, x.expireAt⟩, ?_, rfl⟩
      simp only [if_neg hzero]
      rw [hl] at h
      exact Option.filter_eq_some_iff.mpr ⟨rfl, (Option.filter_eq_some_iff.mp h).2⟩

/-- A decrement stops at zero. -/
theorem value_decr (h : ∀ x ∈ s, 0 ≤ x.value) {cost : ℕ} (hcost : 1 ≤ cost) :
    value u (luaFixedDecr u cost s) = max 0 (value u s - cost) := by
  unfold value luaFixedDecr
  cases hl : RedisKey.live u s with
  | none => simp
  | some x =>
    have hx := h x (RedisKey.eq_of_live hl)
    have hlive : ∀ v : ℤ, RedisKey.live u (some ⟨v, x.expireAt⟩) = some ⟨v, x.expireAt⟩ := fun v =>
      Option.filter_eq_some_iff.mpr ⟨rfl, (Option.filter_eq_some_iff.mp hl).2⟩
    by_cases hzero : x.value ≤ 0
    · simp only [if_pos hzero]
      rw [hlive]
      simp only [Option.map_some, Option.getD_some]
      omega
    · simp only [if_neg hzero, hlive, Option.map_some, Option.getD_some]
      omega

end RedisFixed

namespace RedisBucket

variable {o : TokenBucketOptions} {t now clock u : ℤ} {s : Option RedisHash}

/-- The tokens a bucket is short of. -/
def missing (o : TokenBucketOptions) (now : ℤ) (s : Option RedisHash) : ℤ :=
  ((live now s).map fun h =>
    o.bucketSize - ((Bucket.mk h.tokens h.lastRefill).refill o now).tokens).getD 0

/-- The bucket lasts until `u`: it does not expire and is not refilled. -/
def Lasts (o : TokenBucketOptions) (t u : ℤ) (s : Option RedisHash) : Prop :=
  u < t + o.interval ∧ live u s = live t s ∧
    ∀ h ∈ live t s, (bucket h).refill o u = (bucket h).refill o t

/-- Before the next refill a bucket misses what was taken. -/
theorem missing_of_lt {h : RedisHash} (hexpire : now < h.expireAt)
    (hopen : now < h.lastRefill + o.interval) :
    missing o now (some h) = o.bucketSize - h.tokens := by
  have hlive : live now (some h) = some h := by simp [live, Option.filter, hexpire]
  rw [missing, hlive, Option.map_some, Option.getD_some, Bucket.refill_of_lt hopen]

/-- No bucket misses less than nothing. -/
theorem missing_nonneg (hsize : ∀ h ∈ s, h.tokens ≤ o.bucketSize) : 0 ≤ missing o now s := by
  unfold missing
  cases hl : live now s with
  | none => exact le_rfl
  | some h =>
    have hle := hsize h (Option.eq_some_of_filter_eq_some hl)
    exact sub_nonneg.mpr (Bucket.tokens_refill_le hle)

/-- A key that lives until `u` lives all the time before. -/
theorem live_between (h : live u s = live t s) (ht : t ≤ clock) (hu : clock ≤ u) :
    live clock s = live t s := by
  cases s with
  | none => rfl
  | some x =>
    simp only [live, Option.filter_some, decide_eq_true_eq] at h ⊢
    by_cases hx : t < x.expireAt
    · rw [if_pos hx] at h ⊢
      by_cases hux : u < x.expireAt
      · rw [if_pos (by omega)]
      · rw [if_neg hux] at h
        exact absurd h.symm (Option.some_ne_none x)
    · rw [if_neg hx, if_neg (by omega)]

/-- The script of an increment leaves a bucket that is open until `u`: without the cost, or as it
was when that is more than its tokens. -/
theorem luaBucketIncrAt_spec (h : Lasts o t u s) (ht : t ≤ now) (hn : now ≤ clock)
    (hc : clock ≤ u) {cost : ℕ} (hcost : 1 ≤ cost) :
    u < (luaBucketIncrAt o clock now cost s).1.expireAt ∧
      u < (luaBucketIncrAt o clock now cost s).1.lastRefill + o.interval ∧
      (luaBucketIncrAt o clock now cost s).1.tokens =
        if o.bucketSize - missing o t s < cost then o.bucketSize - missing o t s
        else o.bucketSize - missing o t s - cost := by
  obtain ⟨hW, hlive, hrefill⟩ := h
  have hI := o.interval_pos
  have hmax : charged cost = cost := by unfold charged; omega
  have hfound := live_between hlive (ht.trans hn) hc
  have hopen : (refilled o now (live t s)).tokens = o.bucketSize - missing o t s ∧
      u < (refilled o now (live t s)).lastRefill + o.interval := by
    unfold missing refilled
    cases hl : live t s with
    | none =>
      have hfull : (Bucket.full o now).refill o now = Bucket.full o now :=
        Bucket.refill_of_lt (by simp only [Bucket.full]; omega)
      simp only [Option.map_none, Bucket.orFull, Option.getD_none, hfull]
      simp only [Bucket.full]
      omega
    | some x =>
      obtain ⟨hsame, hlater⟩ :=
        Bucket.refill_between (hrefill x hl) ht (hn.trans hc)
      simp only [Option.map_some, Bucket.orFull, Option.getD_some, hsame]
      refine ⟨?_, hlater⟩
      simp only [bucket]
      omega
  rw [luaBucketIncrAt, hfound, luaBucketIncr_refilled, hmax, hopen.1]
  refine ⟨by simp only; omega, ?_, ?_⟩
  · simp only
    split
    · exact hopen.2
    · exact hopen.2
  · simp only
    split
    · rw [if_neg (by omega)]
    · rw [if_pos (by omega)]

/-- A decrement alone adds tokens that are not refilled, unless the bucket is full. -/
theorem missing_decr_iff (hsize : ∀ h ∈ s, h.tokens ≤ o.bucketSize) (cost : ℕ) :
    missing o u (luaBucketDecr o u cost s) = missing o u s ↔ missing o u s = 0 := by
  unfold missing luaBucketDecr
  cases hl : live u s with
  | none => simp [live]
  | some x =>
    have hx := hsize x (Option.eq_some_of_filter_eq_some hl)
    have hlive : ∀ n, live u (some { x with tokens := n }) = some { x with tokens := n } := fun n =>
      Option.filter_eq_some_iff.mpr ⟨rfl, (Option.filter_eq_some_iff.mp hl).2⟩
    simp only [Option.map_some, hlive, Option.getD_some, Bucket.refill]
    by_cases hk : 0 < (u - x.lastRefill) / o.interval
    · have hgain := mul_pos hk (show 0 < o.tokensPerInterval by
        have := o.tokensPerInterval_pos; omega)
      simp only [if_pos hk]
      generalize (u - x.lastRefill) / o.interval * o.tokensPerInterval = g at *
      omega
    · simp only [if_neg hk]
      omega

end RedisBucket

/-! ## A key of any strategy -/

namespace RedisKeys

variable {κ μ : Type} [DecidableEq κ] [LinearOrder μ] {t now clock u : ℤ} {key : κ}
  {r : RedisKeys κ μ}

/-- What scripts write: sets in order, counters that are not negative, and buckets with at most
as many tokens as they hold. -/
def Legal : RedisKeys κ μ → Prop
  | .windows _ (.sliding keys) => ∀ key, ∀ h ∈ keys key, ZSet.Sorted h.value
  | .windows _ (.fixed keys) => ∀ key, ∀ h ∈ keys key, 0 ≤ h.value
  | .bucket o keys => ∀ key, ∀ h ∈ keys key, h.tokens ≤ o.bucketSize

omit [DecidableEq κ] [LinearOrder μ] in
/-- Nothing of the key that counts at `t` expires by `u`, and no bucket refills. -/
def Lasts (t u : ℤ) (key : κ) : RedisKeys κ μ → Prop
  | .windows o (.sliding keys) => u < t + o.windowMs ∧
      RedisWindowKeys.prunedAt o u u (keys key) = RedisWindowKeys.prunedAt o t t (keys key)
  | .windows o (.fixed keys) => u < t + o.windowMs ∧
      RedisKey.live u (keys key) = RedisKey.live t (keys key)
  | .bucket o keys => RedisBucket.Lasts o t u (keys key)

/-- A bucket has fewer tokens left than the cost; a window counts every hit. -/
def Refuses (now : ℤ) (key : κ) (cost : ℕ) (r : RedisKeys κ μ) : Prop :=
  match r with
  | .bucket o _ => o.bucketSize - r.count now key < cost
  | .windows _ _ => False

/-- A decrement finds nothing that counts: nothing at all, or at the end of a sorted set where it
pops as many members as it pops that have expired. -/
def NothingToTake (now : ℤ) (key : κ) (options : RateLimitDecrementOptions)
    (r : RedisKeys κ μ) : Prop :=
  match r with
  | .windows _ (.sliding keys) => r.count now key = 0 ∨
      options.removeNewest = false ∧
        r.count now key + options.sanitizedCost ≤ RedisSliding.held now (keys key)
  | _ => r.count now key = 0

/-- The members of an increment are as many as its cost, and neither drawn twice nor in the set.
SOURCE: src/stores/redis-store.ts:18-28 -/
def Fresh (key : κ) (cost : ℕ) (members : List μ) : RedisKeys κ μ → Prop
  | .windows _ (.sliding keys) => members.length = cost ∧ members.Nodup ∧
      ∀ h ∈ keys key, ∀ p ∈ h.value, p.2 ∉ members
  | _ => True

omit [DecidableEq κ] [LinearOrder μ] in
/-- A count that lasts is the same at the end. -/
theorem Lasts.count_eq (h : r.Lasts t u key) : r.count u key = r.count t key := by
  cases r with
  | windows o keys =>
    cases keys with
    | sliding keys => simp only [count, RedisWindowKeys.count, h.2]
    | fixed keys => simp only [count, RedisWindowKeys.count, h.2]
  | bucket o keys =>
    obtain ⟨-, hlive, hrefill⟩ := h
    simp only [count, hlive]
    congr 1
    refine Option.map_congr fun x hx => ?_
    have hsame := hrefill x hx
    unfold RedisBucket.bucket at hsame
    rw [hsame]

/-- An increment and a decrement of its cost leave the count alone, except for a bucket that
refuses the increment and is not full. -/
theorem Lasts.count_decrement (h : r.Lasts t u key) (hlegal : r.Legal) (ht : t ≤ now)
    (hn : now ≤ clock) (hc : clock ≤ u) {inc : RateLimitIncrementOptions}
    {dec : RateLimitDecrementOptions} (hcost : dec.sanitizedCost = inc.sanitizedCost)
    {members : List μ} (hfresh : r.Fresh key inc.sanitizedCost members) :
    ((r.increment clock now key inc members).1.decrement u key dec).count u key =
        r.count t key ↔
      (r.Refuses t key inc.sanitizedCost → r.count t key = 0) := by
  have hpos := inc.one_le_sanitizedCost
  cases r with
  | windows o keys =>
    refine iff_of_true ?_ False.elim
    cases keys with
    | sliding keys =>
      obtain ⟨hW, hlast⟩ := h
      obtain ⟨hlength, hnodup, hnew⟩ := hfresh
      obtain ⟨z, hz, hrecent, hcount⟩ :=
        RedisSliding.luaSlidingIncrAt_spec hlast hW ht hn hc hpos hlength hnodup hnew
      simp only [increment, decrement, count, RedisWindowKeys.count, Function.update_self, hz]
      rw [RedisSliding.prunedAt_decr_store hrecent (by omega) (hcost ▸ hpos), hcount]
      omega
    | fixed keys =>
      obtain ⟨hW, hlast⟩ := h
      obtain ⟨x, hx, hvalue⟩ := RedisFixed.luaFixedIncr_spec hlast hW (ht.trans hn) hc
        (o.cap inc.maxRequests) hpos
      have hnonneg := RedisFixed.value_nonneg (hlegal key) t
      have hstored := RedisKey.eq_of_live hx
      have hread : RedisFixed.value u (some x) = x.value := by
        rw [RedisFixed.value, ← hstored, hx]
        rfl
      have hdecr : RedisFixed.value u (RedisFixed.luaFixedDecr u dec.sanitizedCost (some x)) =
          max 0 (RedisFixed.value u (some x) - dec.sanitizedCost) :=
        RedisFixed.value_decr (by rintro _ ⟨⟩; omega) (hcost ▸ hpos)
      simp only [increment, decrement, count, RedisWindowKeys.count, Function.update_self, hstored]
      change RedisFixed.value u _ = RedisFixed.value t (keys key)
      rw [hdecr, hread, hvalue]
      omega
  | bucket o keys =>
    obtain ⟨hexpire, hopen, htokens⟩ := RedisBucket.luaBucketIncrAt_spec h ht hn hc hpos
    have hnonneg : 0 ≤ RedisBucket.missing o t (keys key) :=
      RedisBucket.missing_nonneg (hlegal key)
    simp only [Refuses, increment, decrement, count, Function.update_self]
    change RedisBucket.missing o u _ = RedisBucket.missing o t (keys key) ↔
      (o.bucketSize - RedisBucket.missing o t (keys key) < _ →
        RedisBucket.missing o t (keys key) = 0)
    generalize RedisBucket.luaBucketIncrAt o clock now inc.sanitizedCost (keys key) = p at *
    have hlive : RedisBucket.live u (some p.1) = some p.1 := by
      simp [RedisBucket.live, Option.filter, hexpire]
    rw [RedisBucket.luaBucketDecr, hlive, Option.map_some,
      RedisBucket.missing_of_lt (by exact hexpire) (by exact hopen)]
    simp only [htokens, hcost]
    split <;> omega

/-- A decrement alone changes the count, unless it finds nothing. -/
theorem count_decrement_iff (hlegal : r.Legal) (dec : RateLimitDecrementOptions) :
    (r.decrement u key dec).count u key = r.count u key ↔ r.NothingToTake u key dec := by
  have hpos := dec.one_le_sanitizedCost
  cases r with
  | windows o keys =>
    cases keys with
    | sliding keys =>
      have hiff := RedisSliding.length_decr_iff (o := o) (u := u) (hlegal key) hpos dec.removeNewest
      simp only [NothingToTake, decrement, count, RedisWindowKeys.count, Function.update_self]
      exact_mod_cast hiff
    | fixed keys =>
      have hnonneg := RedisFixed.value_nonneg (hlegal key) u
      simp only [NothingToTake, decrement, count, RedisWindowKeys.count, Function.update_self]
      change RedisFixed.value u _ = RedisFixed.value u _ ↔ RedisFixed.value u _ = 0
      rw [RedisFixed.value_decr (hlegal key) hpos]
      omega
  | bucket o keys =>
    simp only [NothingToTake, decrement, count, Function.update_self]
    exact RedisBucket.missing_decr_iff (hlegal key) dec.sanitizedCost

/-! ### Scripts write what is legal -/

/-- An increment keeps the set sorted. -/
theorem sorted_luaSlidingIncrAt {s : Option (RedisKey (ZSet μ))} {o : WindowOptions}
    (h : ∀ x ∈ s, ZSet.Sorted x.value) (cost : ℕ) (members : List μ) :
    ∀ x ∈ RedisWindowKeys.luaSlidingIncrAt o clock now cost members s, ZSet.Sorted x.value := by
  have hpruned : ZSet.Sorted (RedisWindowKeys.prunedAt o clock now s) := by
    unfold RedisWindowKeys.prunedAt
    cases hl : RedisKey.live clock s with
    | none => exact List.Pairwise.nil
    | some x => exact (h x (RedisKey.eq_of_live hl)).sublist List.filter_sublist
  intro x hx
  rw [ZSet.value_of_mem_store hx]
  exact hpruned.addAll now _

/-- So does a decrement. -/
theorem sorted_luaSlidingDecr {s : Option (RedisKey (ZSet μ))}
    (h : ∀ x ∈ s, ZSet.Sorted x.value) (cost : ℕ) (newest : Bool) :
    ∀ x ∈ RedisSliding.luaSlidingDecr clock cost newest s, ZSet.Sorted x.value := by
  intro x hx
  unfold RedisSliding.luaSlidingDecr at hx
  split at hx
  · simp at hx
  · next y hl =>
    rw [ZSet.value_of_mem_store hx]
    exact (h y (RedisKey.eq_of_live hl)).sublist (RedisSliding.pops_sublist _ _ _)

/-- An increment keeps the counter from being negative. -/
theorem nonneg_luaFixedIncr {s : Option (RedisKey ℤ)} (h : ∀ x ∈ s, 0 ≤ x.value)
    (o : WindowOptions) (maxRequests cost : ℕ) :
    ∀ x ∈ (RedisFixed.luaFixedIncr o clock maxRequests cost s).1, 0 ≤ x.value := by
  intro x hx
  simp only [RedisFixed.luaFixedIncr] at hx
  obtain rfl := Option.some.inj hx
  cases hl : RedisKey.live clock s with
  | none => simp
  | some y =>
    have hy := h y (RedisKey.eq_of_live hl)
    simp only
    split
    · exact add_nonneg hy (Int.natCast_nonneg _)
    · exact add_nonneg hy (Int.natCast_nonneg _)

/-- So does a decrement. -/
theorem nonneg_luaFixedDecr {s : Option (RedisKey ℤ)} (h : ∀ x ∈ s, 0 ≤ x.value) (cost : ℕ) :
    ∀ x ∈ RedisFixed.luaFixedDecr clock cost s, 0 ≤ x.value := by
  intro x hx
  unfold RedisFixed.luaFixedDecr at hx
  split at hx
  · simp at hx
  · next y hl =>
    have hy := h y (RedisKey.eq_of_live hl)
    split at hx
    · exact Option.some.inj hx ▸ hy
    · obtain rfl := Option.some.inj hx
      simp only
      omega

/-- An increment never leaves more tokens than the bucket holds. -/
theorem tokens_luaBucketIncrAt_le {s : Option RedisHash} {o : TokenBucketOptions}
    (h : ∀ x ∈ s, x.tokens ≤ o.bucketSize) (cost : ℕ) :
    (RedisBucket.luaBucketIncrAt o clock now cost s).1.tokens ≤ o.bucketSize := by
  have hstart : (RedisBucket.refilled o now (RedisBucket.live clock s)).tokens ≤ o.bucketSize := by
    unfold RedisBucket.refilled
    cases hl : RedisBucket.live clock s with
    | none =>
      have hwf : (Bucket.full o now).Wf o now := Bucket.wf_full o now
      exact (hwf.refill le_rfl).tokens_le
    | some x =>
      have hx : (RedisBucket.bucket x).tokens ≤ o.bucketSize :=
        h x (Option.eq_some_of_filter_eq_some hl)
      exact Bucket.tokens_refill_le hx
  rw [RedisBucket.luaBucketIncrAt, RedisBucket.luaBucketIncr_refilled]
  simp only
  split
  · simp only
    omega
  · exact hstart

omit [LinearOrder μ] in
/-- A property of all keys is kept by a write of one. -/
theorem forall_update {α : Type} {P : α → Prop} {keys : κ → Option α} {s : Option α}
    (h : ∀ k, ∀ x ∈ keys k, P x) (hs : ∀ x ∈ s, P x) :
    ∀ k, ∀ x ∈ Function.update keys key s k, P x := by
  intro k
  by_cases hk : k = key
  · subst hk
    rwa [Function.update_self]
  · rw [Function.update_of_ne hk]
    exact h k

/-- An increment keeps the keys legal. -/
theorem Legal.increment (h : r.Legal) (options : RateLimitIncrementOptions) (members : List μ) :
    (r.increment clock now key options members).1.Legal := by
  cases r with
  | windows o keys =>
    cases keys with
    | sliding keys => exact forall_update h (sorted_luaSlidingIncrAt (h key) _ _)
    | fixed keys => exact forall_update h (nonneg_luaFixedIncr (h key) _ _ _)
  | bucket o keys =>
    refine forall_update (P := fun x : RedisHash => x.tokens ≤ o.bucketSize) h ?_
    rintro _ ⟨⟩
    exact tokens_luaBucketIncrAt_le (h key) _

/-- So does a decrement. -/
theorem Legal.decrement (h : r.Legal) (options : RateLimitDecrementOptions) :
    (r.decrement clock key options).Legal := by
  cases r with
  | windows o keys =>
    cases keys with
    | sliding keys => exact forall_update h (sorted_luaSlidingDecr (h key) _ _)
    | fixed keys => exact forall_update h (nonneg_luaFixedDecr (h key) _)
  | bucket o keys =>
    refine forall_update (P := fun x : RedisHash => x.tokens ≤ o.bucketSize) h ?_
    intro x hx
    obtain ⟨y, -, rfl⟩ := Option.map_eq_some_iff.mp hx
    exact min_le_left _ _

/-- So does a sync from the insurance store. -/
theorem Legal.syncOneKey (h : r.Legal) (totalHits : ℕ) (resetTime : ℤ) (members : List μ) :
    (r.syncOneKey clock now key totalHits resetTime members).Legal := by
  cases r with
  | windows o keys =>
    cases keys with
    | sliding keys =>
      simp only [RedisKeys.syncOneKey, RedisWindowKeys.syncOneKeyToRedis]
      split
      · exact h
      · exact forall_update h (sorted_luaSlidingIncrAt (h key) _ _)
    | fixed keys => exact forall_update h (nonneg_luaFixedIncr (h key) _ _ _)
  | bucket o keys =>
    have hsize := o.bucketSize_pos
    refine forall_update (P := fun x : RedisHash => x.tokens ≤ o.bucketSize) h ?_
    rintro _ ⟨⟩
    simp only [RedisBucket.luaBucketSync]
    omega

/-- So does every operation. -/
theorem Legal.run (h : r.Legal) (clock now : ℤ) (op : StoreOp κ) (members : List μ) :
    (r.run clock now op members).1.Legal := by
  cases op with
  | increment key options => exact h.increment options members
  | decrement key options => exact h.decrement options
  | get key => exact h
  | set key totalHits expiresAt => exact h
  | reset key => exact h
  | delete key => exact h
  | purgeExpired => exact h

end RedisKeys

end RatelimitFlex
