import RatelimitFlex.Analysis.RedisBucketExpiry
import RatelimitFlex.Analysis.SetThenGet
import RatelimitFlex.Analysis.ShieldTransparent
import RatelimitFlex.Program.PersistedBlocks

/-!
# How long `MemoryStore` and Redis reject a key that was set to the cap

A window forgets the hits when they leave it or when the expiry that came with the `set` has
passed, and a bucket refills after an interval.  Up to then an increment is rejected and keeps
it so (`SpentUntil`, `FullUntil`, `EmptyUntil`); at that moment a first hit is allowed, and after
a `set` to less than the cap it is allowed at once.
-/

set_option autoImplicit false

namespace RatelimitFlex

open Library

variable {κ μ : Type} [DecidableEq κ]

/-! ## Token buckets -/

/-- Less than the size was taken: at the same moment a token is left. -/
theorem Bucket.one_le_tokens_of_lt {o : TokenBucketOptions} {t totalHits : ℤ}
    (h : totalHits < o.bucketSize) :
    1 ≤ ((⟨bucketTokens o totalHits, t⟩ : Bucket).refill o t).tokens := by
  have hI := o.interval_pos
  have hsize := o.bucketSize_pos
  rw [Bucket.refill_of_lt (show t < t + (o.interval : ℤ) by omega)]
  have hnot : ¬ o.bucketSize ≤ max 0 totalHits := by omega
  simp only [bucketTokens, decide_eq_false hnot, Bool.false_eq_true, if_false]
  omega

/-- An interval later there is a token again. -/
theorem Bucket.one_le_tokens_refill {p : BucketParams} {now : ℤ} {b : Bucket} (hb : 0 ≤ b.tokens)
    (h : b.lastRefill + p.interval ≤ now) : 1 ≤ (b.refill p now).tokens := by
  have hI := p.interval_pos
  have hR := p.tokensPerInterval_pos
  have hsize := p.bucketSize_pos
  have hq : 1 ≤ (now - b.lastRefill) / p.interval :=
    Int.le_ediv_of_mul_le (by omega) (by omega)
  have hgain := one_le_mul_of_one_le_of_one_le hq hR
  rw [Bucket.refill_of_le h]
  exact le_min hsize (by omega)

/-- A bucket has no fewer than no tokens. -/
theorem bucketTokens_nonneg (o : TokenBucketOptions) (totalHits : ℤ) :
    0 ≤ bucketTokens o totalHits := by
  unfold bucketTokens
  split
  · exact le_rfl
  · exact le_max_left _ _

/-- A `set` to its size empties it. -/
theorem bucketTokens_of_le {o : TokenBucketOptions} {totalHits : ℤ} (h : o.bucketSize ≤ totalHits) :
    bucketTokens o totalHits = 0 := by
  unfold bucketTokens
  rw [decide_eq_true (h.trans (le_max_right 0 totalHits)), if_pos rfl]

/-! ## Memory -/

namespace Cell

variable {now t cap ends : ℤ} {x : Cell}

/-- No wall expiry is before `ends`. -/
def WallsFrom (ends : ℤ) : Cell → Prop
  | .sliding _ e => ∀ s ∈ e, ∀ w ∈ s.wallExpiresAt, ends ≤ w
  | _ => True

/-- Up to then there is nothing to clear. -/
theorem WallsFrom.clearWall (h : x.WallsFrom ends) (hnow : now < ends) : x.clearWall now = x := by
  cases x with
  | sliding o e =>
    cases e with
    | none => rfl
    | some s =>
      obtain ⟨stamps, wall⟩ := s
      cases wall with
      | none => rfl
      | some w =>
        have hw : ends ≤ w := h _ rfl w rfl
        have hlive : now < w := by omega
        simp [Cell.clearWall, unexpired, Option.filter, hlive]
  | fixed o e => rfl
  | bucket o e => rfl

/-- An increment leaves no wall expiry behind. -/
theorem wallsFrom_increment (ends now : ℤ) (options : RateLimitIncrementOptions) (x : Cell) :
    (x.increment now options).1.WallsFrom ends := by
  cases x with
  | sliding o e =>
    rintro _ ⟨⟩ w hw
    simp at hw
  | fixed o e => trivial
  | bucket o e => trivial

/-- What a `set` to more than the cap at `t`, with the expiry `expiry`, rejects up to `ends`. -/
def KeepsUntil (t ends expiry : ℤ) : Cell → Prop
  | .sliding o _ => ends ≤ expiry ∧ ends ≤ t + o.windowMs
  | .fixed _ _ => ends ≤ expiry
  | .bucket o _ => ends ≤ t + o.interval

variable {expiry : ℤ} {options : RateLimitIncrementOptions}

/-- Every cap is one hit at least. -/
theorem one_le_capFor (options : RateLimitIncrementOptions) (x : Cell) :
    1 ≤ x.capFor options := by
  have hcap : ∀ o : WindowOptions, (1 : ℤ) ≤ o.cap options.maxRequests := fun o => by
    have h : 1 ≤ o.cap options.maxRequests := le_sanitizeAtLeast _ (by decide) o.maxRequests_pos
    exact_mod_cast h
  cases x with
  | sliding o e => exact hcap o
  | fixed o e => exact hcap o
  | bucket o e => exact o.bucketSize_pos

/-- A `set` keeps the cap. -/
@[simp] theorem capFor_set (t totalHits : ℤ) (expiresAt : Option ℤ) (x : Cell) :
    (x.set t totalHits expiresAt).1.capFor options = x.capFor options := by
  cases x <;> rfl

/-- So does clearing a wall expiry. -/
@[simp] theorem capFor_clearWall (t : ℤ) (x : Cell) :
    (x.clearWall t).capFor options = x.capFor options := by
  cases x <;> rfl

/-- A block that is kept has its wall behind its end. -/
theorem wallsFrom_set (h : x.KeepsUntil t ends expiry) (totalHits : ℤ) :
    (x.set t totalHits (some expiry)).1.WallsFrom ends := by
  cases x with
  | sliding o e =>
    rintro _ ⟨⟩ _ ⟨⟩
    exact h.1
  | fixed o e => trivial
  | bucket o e => trivial

/-- Set to the cap or more, the cell is used up. -/
theorem exists_spentUntil_set (h : x.KeepsUntil t ends expiry) {totalHits : ℤ}
    (hhits : x.capFor {} ≤ totalHits) :
    ∃ e, ends ≤ e ∧ (x.set t totalHits (some expiry)).1.SpentUntil (x.capFor {}) e := by
  have hcap := one_le_capFor {} x
  cases x with
  | sliding o e =>
    refine ⟨t + o.windowMs, h.2, ?_⟩
    simp only [SpentUntil, Cell.set, stampsOf_some, List.countP_replicate, le_refl, decide_true,
      if_true]
    omega
  | fixed o e =>
    refine ⟨expiry, h, _, rfl, rfl, ?_⟩
    simp only
    omega
  | bucket o e =>
    refine ⟨t + o.interval, h, _, rfl, rfl, ?_⟩
    exact (bucketTokens_of_le hhits).le

/-- Set to less than the cap, a first hit at that moment is allowed. -/
theorem isBlocked_set_of_lt {totalHits : ℤ} (hhits : totalHits < x.capFor {}) (hpos : 0 ≤ totalHits)
    (expiry : ℤ) :
    ((((x.set t totalHits (some expiry)).1.clearWall t).clearWall t).increment t {}).2.isBlocked =
      false := by
  have hcap := one_le_capFor {} x
  have hone : ({} : RateLimitIncrementOptions).sanitizedCost = 1 := rfl
  cases x with
  | sliding o e =>
    simp only [capFor] at hhits hcap
    -- no more stamps are left than were written
    have hlength : ∀ y : Option SlidingKeyState,
        (∀ z ∈ y, z = ⟨List.replicate totalHits.toNat t, some expiry⟩) →
        ((liveStamps o t (stampsOf y)).length : ℤ) ≤ totalHits := by
      intro y hy
      cases y with
      | none => exact hpos
      | some z =>
        obtain rfl := hy z rfl
        have hle : (liveStamps o t (List.replicate totalHits.toNat t)).length ≤
            totalHits.toNat := by
          rw [liveStamps]
          exact (List.length_filter_le _ _).trans_eq List.length_replicate
        show ((liveStamps o t (List.replicate totalHits.toNat t)).length : ℤ) ≤ totalHits
        omega
    have hleft := hlength (unexpired t (unexpired t
        (some ⟨List.replicate totalHits.toNat t, some expiry⟩))) (fun z hz =>
      (Option.some.inj (Option.eq_some_of_filter_eq_some
        (Option.eq_some_of_filter_eq_some hz))).symm)
    simp only [Cell.set, clearWall, Cell.increment, RateLimitResult.isBlocked_ofUsage,
      List.length_append, List.length_replicate, hone, decide_eq_false_iff_not]
    omega
  | fixed o e =>
    simp only [capFor] at hhits hcap
    simp only [Cell.set, clearWall, Cell.increment, fixedAfterIncrement, Option.getD_some, hone,
      RateLimitResult.isBlocked_ofUsage, decide_eq_false_iff_not]
    split
    · simp only
      omega
    · simp only
      omega
  | bucket o e =>
    have hleft : 1 ≤ ((⟨bucketTokens o totalHits, t⟩ : Bucket).refill o t).tokens :=
      Bucket.one_le_tokens_of_lt hhits
    simp only [Cell.set, clearWall, Cell.increment, startBucket, Option.getD_some,
      isBlocked_bucketResult]
    rw [Bucket.request_of_le o (by exact_mod_cast hleft)]
    rfl

/-- A sliding cell with no live stamps allows a first hit. -/
theorem isBlocked_increment_of_liveStamps_nil {o : WindowOptions} {e : Option SlidingKeyState}
    (h : liveStamps o now (stampsOf e) = []) :
    ((Cell.sliding o e).increment now {}).2.isBlocked = false := by
  have hcap := one_le_capFor {} (Cell.sliding o e)
  have hone : ({} : RateLimitIncrementOptions).sanitizedCost = 1 := rfl
  simp only [capFor] at hcap
  simp only [Cell.increment, h, hone, RateLimitResult.isBlocked_ofUsage, decide_eq_false_iff_not]
  exact not_lt.mpr hcap

/-- A block that is not kept lets a hit through before its end. -/
theorem exists_allowed_set (h : ¬ x.KeepsUntil t ends expiry) (hexpiry : t ≤ expiry)
    (totalHits : ℤ) :
    ∃ u, t ≤ u ∧ u < ends ∧ (((((x.set t totalHits (some expiry)).1.clearWall t).clearWall
      u).increment u {}).2.isBlocked = false) := by
  cases x with
  | sliding o e =>
    set kept := unexpired t (some ⟨List.replicate totalHits.toNat t, some expiry⟩) with hkept
    have hset : ∀ y ∈ kept, y = ⟨List.replicate totalHits.toNat t, some expiry⟩ := fun y hy =>
      (Option.some.inj (Option.eq_some_of_filter_eq_some hy)).symm
    by_cases hle : ends ≤ expiry
    -- the stamps leave the window
    · have hwindow : t + o.windowMs < ends := not_le.mp fun hw => h ⟨hle, hw⟩
      refine ⟨t + o.windowMs, by omega, hwindow, isBlocked_increment_of_liveStamps_nil ?_⟩
      cases hlater : unexpired (t + o.windowMs) kept with
      | none => rfl
      | some y =>
        obtain rfl := hset y (Option.eq_some_of_filter_eq_some hlater)
        rw [stampsOf_some]
        refine List.filter_eq_nil_iff.mpr fun ts hts => ?_
        obtain rfl := List.eq_of_mem_replicate hts
        simp
    -- the entry is cleared
    · refine ⟨expiry, hexpiry, not_le.mp hle, isBlocked_increment_of_liveStamps_nil ?_⟩
      have hgone : unexpired expiry kept = none := by
        refine Option.filter_eq_none_iff.mpr fun y hy => ?_
        simp [hset y hy]
      rw [← hkept, hgone]
      rfl
  | fixed o e =>
    have hcap := one_le_capFor {} (Cell.fixed o e)
    refine ⟨expiry, hexpiry, not_le.mp h, ?_⟩
    simp only [capFor] at hcap
    simp only [Cell.set, clearWall, Cell.increment, fixedAfterIncrement, Option.getD_some, le_refl,
      if_true, RateLimitResult.isBlocked_ofUsage, decide_eq_false_iff_not]
    exact not_lt.mpr hcap
  | bucket o e =>
    have hI := o.interval_pos
    refine ⟨t + o.interval, by omega, not_le.mp h, ?_⟩
    have hone : 1 ≤ ((⟨bucketTokens o totalHits, t⟩ : Bucket).refill o (t + o.interval)).tokens :=
      Bucket.one_le_tokens_refill (bucketTokens_nonneg o totalHits) le_rfl
    simp only [Cell.set, clearWall, Cell.increment, startBucket, Option.getD_some,
      isBlocked_bucketResult]
    rw [Bucket.request_of_le o (by exact_mod_cast hone)]
    rfl

end Cell

/-! ## Redis -/

/-- A key is there as it was written, or it has expired. -/
theorem RedisKey.live_eq_or {α : Type} (now : ℤ) (s : Option (RedisKey α)) :
    RedisKey.live now s = s ∨ RedisKey.live now s = none := by
  cases s with
  | none => exact Or.inl rfl
  | some h =>
    rw [RedisKey.live, Option.filter_some]
    split
    · exact Or.inl rfl
    · exact Or.inr rfl

section SortedSets

variable [LinearOrder μ] {now : ℤ} {z : ZSet μ}

namespace ZSet

/-- Hits at one moment, one after the other. -/
def addAll (now : ℤ) (members : List μ) (z : ZSet μ) : ZSet μ :=
  members.foldl (fun z m => add now m z) z

/-- The members of a set. -/
def memberSet (z : ZSet μ) : Finset μ := (z.map Prod.snd).toFinset

/-- The members after one more. -/
theorem memberSet_add (now : ℤ) (m : μ) (z : ZSet μ) :
    memberSet (add now m z) = insert m (memberSet z) := by
  ext m'
  simp only [memberSet, add, List.mem_toFinset, List.mem_map, List.mem_orderedInsert,
    List.mem_filter, decide_eq_true_eq, Finset.mem_insert]
  constructor
  · rintro ⟨p, rfl | ⟨hp, -⟩, rfl⟩
    · exact Or.inl rfl
    · exact Or.inr ⟨p, hp, rfl⟩
  · rintro (rfl | ⟨p, hp, rfl⟩)
    · exact ⟨(now, m'), Or.inl rfl, rfl⟩
    · by_cases hm : p.2 = m
      · exact ⟨(now, m), Or.inl rfl, hm.symm⟩
      · exact ⟨p, Or.inr ⟨hp, hm⟩, rfl⟩

/-- The members after several more. -/
theorem memberSet_addAll (now : ℤ) (members : List μ) (z : ZSet μ) :
    memberSet (addAll now members z) = members.toFinset ∪ memberSet z := by
  induction members generalizing z with
  | nil => simp [addAll]
  | cons m members ih =>
    have hcons : addAll now (m :: members) z = addAll now members (add now m z) := rfl
    rw [hcons, ih, memberSet_add, List.toFinset_cons, Finset.union_insert, Finset.insert_union]

/-- There are no more members than entries. -/
theorem card_memberSet_le (z : ZSet μ) : (memberSet z).card ≤ z.length := by
  have h := List.toFinset_card_le (z.map Prod.snd)
  rwa [List.length_map] at h

/-- What holds of the new members and the old ones holds of all. -/
theorem forall_mem_addAll {P : ℤ × μ → Prop} (hnew : ∀ m, P (now, m)) (members : List μ)
    (h : ∀ p ∈ z, P p) : ∀ p ∈ addAll now members z, P p := by
  induction members generalizing z with
  | nil => exact h
  | cons m members ih =>
    refine ih fun p hp => ?_
    rcases mem_add hp with rfl | hp
    · exact hnew m
    · exact h p hp

end ZSet

namespace RedisSliding

variable {o : WindowOptions} {ends : ℤ} {cap : ℕ} {s : Option (RedisKey (ZSet μ))}

/-- Up to `ends` as many members as the cap are in the window, and the key does not expire; at
just the cap they are those of the `set`. -/
def FullUntil (o : WindowOptions) (cap : ℕ) (ends : ℤ) (drawn : List μ)
    (s : Option (RedisKey (ZSet μ))) : Prop :=
  ∃ h, s = some h ∧ (∀ p ∈ h.value, ends ≤ p.1 + o.windowMs) ∧
    (cap < (ZSet.memberSet h.value).card ∨
      cap ≤ (ZSet.memberSet h.value).card ∧ ZSet.memberSet h.value ⊆ drawn.toFinset) ∧
    ∀ e ∈ h.expireAt, ends ≤ e

/-- With a member that is not one of the `set` there are more than the cap. -/
theorem card_lt_addAll {cap : ℕ} {drawn members : List μ} {z : ZSet μ}
    (h : cap < (ZSet.memberSet z).card ∨
      cap ≤ (ZSet.memberSet z).card ∧ ZSet.memberSet z ⊆ drawn.toFinset)
    (hfresh : ∃ m ∈ members, m ∉ drawn) (now : ℤ) :
    cap < (ZSet.memberSet (ZSet.addAll now members z)).card := by
  rw [ZSet.memberSet_addAll]
  rcases h with hmore | ⟨hcap, hdrawn⟩
  · exact hmore.trans_le (Finset.card_le_card Finset.subset_union_right)
  · obtain ⟨m, hm, hnew⟩ := hfresh
    refine hcap.trans_lt (Finset.card_lt_card ?_)
    refine Finset.ssubset_iff_subset_ne.mpr ⟨Finset.subset_union_right, fun heq => ?_⟩
    have hmem : m ∈ ZSet.memberSet z := by
      rw [heq]
      exact Finset.mem_union_left _ (List.mem_toFinset.mpr hm)
    exact hnew (List.mem_toFinset.mp (hdrawn hmem))

/-- An increment that draws a new member is rejected, and leaves the key full. -/
theorem FullUntil.increment {drawn members : List μ} (h : FullUntil o cap ends drawn s)
    (hnow : now < ends) (hwindow : ends ≤ now + o.windowMs) {cost : ℕ}
    (hfresh : ∃ m ∈ members.take (max cost 1), m ∉ drawn) :
    FullUntil o cap ends drawn (luaSlidingIncr o now cap cost members s).1 ∧
      (luaSlidingIncr o now cap cost members s).2.isBlocked = true := by
  obtain ⟨⟨z, expireAt⟩, rfl, hscores, hcard, hexpire⟩ := h
  have hlive : RedisKey.live now (some ⟨z, expireAt⟩) = some ⟨z, expireAt⟩ := by
    have hall : expireAt.all fun e => decide (now < e) := by
      cases expireAt with
      | none => rfl
      | some e => exact decide_eq_true (hnow.trans_le (hexpire e rfl))
    simp [RedisKey.live, Option.filter, hall]
  have hkept : z.removeUpTo (now - o.windowMs) = z := by
    refine List.filter_eq_self.mpr fun p hp => decide_eq_true ?_
    have hp := hscores p hp
    omega
  set z' := ZSet.addAll now (members.take (max cost 1)) z with hz'
  have hcard' : cap < (ZSet.memberSet z').card := card_lt_addAll hcard hfresh now
  have hlength : cap < z'.length := hcard'.trans_le (ZSet.card_memberSet_le z')
  have hne : z' ≠ [] := by
    intro hnil
    simp [hnil] at hlength
  have hscores' : ∀ p ∈ z', ends ≤ p.1 + o.windowMs :=
    ZSet.forall_mem_addAll (fun m => hwindow) _ hscores
  have hincr : luaSlidingIncr o now cap cost members (some ⟨z, expireAt⟩) =
      (some ⟨z', some (now + o.windowMs)⟩,
        redisWindowResult z'.length cap ((z'.head?.map Prod.fst).getD now + o.windowMs)) := by
    simp only [luaSlidingIncr, hlive, Option.map_some, Option.getD_some, hkept]
    rw [← ZSet.addAll, ← hz', ZSet.store, if_neg hne]
  rw [hincr]
  refine ⟨⟨_, rfl, hscores', .inl hcard', ?_⟩, ?_⟩
  · rintro _ ⟨⟩
    exact hwindow
  · exact decide_eq_true (by exact_mod_cast hlength)

/-- Set to the cap or more, the key is full. -/
theorem fullUntil_setSlidingRedis {t expiry : ℤ} {members : List μ} (ht : 0 ≤ t)
    (hexpiry : ends ≤ expiry) (hwindow : ends ≤ t + o.windowMs) (hends : t < ends)
    (hcap : 1 ≤ cap) (hlength : cap ≤ members.length) (hnodup : members.Nodup) :
    FullUntil o cap ends members (setSlidingRedis o t (some expiry) members).1 := by
  set z := ZSet.addAll t members [] with hz
  have hmembers : ZSet.memberSet z = members.toFinset := by
    rw [hz, ZSet.memberSet_addAll]
    simp [ZSet.memberSet]
  have hcard : (ZSet.memberSet z).card = members.length := by
    rw [hmembers, List.toFinset_card_of_nodup hnodup]
  have hne : z ≠ [] := by
    intro hnil
    simp [hnil, ZSet.memberSet] at hcard
    omega
  have hset : (setSlidingRedis o t (some expiry) members).1 = some ⟨z, some expiry⟩ := by
    simp only [setSlidingRedis, Option.getD_some, if_neg (show ¬ expiry < 0 by omega)]
    rw [← ZSet.addAll, ← hz, ZSet.store, if_neg hne]
  rw [hset]
  refine ⟨_, rfl, ?_, .inr ⟨hcard ▸ hlength, hmembers.subset⟩, ?_⟩
  · exact ZSet.forall_mem_addAll (fun m => hwindow) _ (by simp)
  · rintro _ ⟨⟩
    exact hexpiry

/-- A set grows by at most one member a hit. -/
theorem length_addAll_le (now : ℤ) (members : List μ) (z : ZSet μ) :
    (ZSet.addAll now members z).length ≤ z.length + members.length := by
  induction members generalizing z with
  | nil => exact le_rfl
  | cons m members ih =>
    have hone : (ZSet.add now m z).length ≤ z.length + 1 := by
      rw [ZSet.add, List.orderedInsert_length]
      exact Nat.succ_le_succ (List.length_filter_le _ _)
    have hrest := ih (ZSet.add now m z)
    rw [List.length_cons]
    exact hrest.trans (by omega)

/-- Set to less than the cap, a first hit at that moment is allowed. -/
theorem isBlocked_setSlidingRedis_of_lt {t : ℤ} {members : List μ} (m : μ) (expiresAt : Option ℤ)
    (hlength : members.length < cap) :
    (luaSlidingIncr o t cap 1 [m] (setSlidingRedis o t expiresAt members).1).2.isBlocked =
      false := by
  -- no more members are left than were written
  have hleft : (((RedisKey.live t (setSlidingRedis o t expiresAt members).1).map
      RedisKey.value).getD []).length ≤ members.length := by
    have hset := length_addAll_le t members []
    rw [List.length_nil, zero_add] at hset
    simp only [setSlidingRedis]
    rw [← ZSet.addAll, ZSet.store]
    split
    · exact Nat.zero_le _
    · rcases RedisKey.live_eq_or t (some (⟨ZSet.addAll t members [], _⟩ : RedisKey (ZSet μ))) with
        heq | heq
      · rw [heq]
        exact hset
      · rw [heq]
        exact Nat.zero_le _
  have hgrown := length_addAll_le t ([m].take (max 1 1)) (ZSet.removeUpTo (t - o.windowMs)
    (((RedisKey.live t (setSlidingRedis o t expiresAt members).1).map RedisKey.value).getD []))
  have hpruned : (ZSet.removeUpTo (t - o.windowMs)
      (((RedisKey.live t (setSlidingRedis o t expiresAt members).1).map
        RedisKey.value).getD [])).length ≤ members.length :=
    (List.length_filter_le _ _).trans hleft
  have hone : ([m].take (max 1 1)).length = 1 := rfl
  have hbound := hgrown.trans (Nat.add_le_add hpruned hone.le)
  simp only [luaSlidingIncr, redisWindowResult, decide_eq_false_iff_not]
  rw [← ZSet.addAll]
  omega

/-- A first hit in the window is allowed. -/
theorem isBlocked_luaSlidingIncr_of_nil {m : μ} (hcap : 1 ≤ cap)
    (h : (RedisSliding.members now s).removeUpTo (now - o.windowMs) = []) :
    (luaSlidingIncr o now cap 1 [m] s).2.isBlocked = false := by
  rw [RedisSliding.members] at h
  have hone : ([m].take (max 1 1)).foldl (fun z m => ZSet.add now m z) [] = [(now, m)] := rfl
  simp only [luaSlidingIncr, h, hone, redisWindowResult, decide_eq_false_iff_not]
  exact not_lt.mpr (by exact_mod_cast hcap)

/-- A sliding set that expires, or empties, before the end lets a hit through. -/
theorem exists_allowed_setSlidingRedis {t expiry : ℤ} (members : List μ) (m : μ) (ht : 0 ≤ t)
    (h : ¬ (ends ≤ expiry ∧ ends ≤ t + o.windowMs)) (hexpiry : t ≤ expiry) (hcap : 1 ≤ cap) :
    ∃ u, t ≤ u ∧ u < ends ∧ (luaSlidingIncr o u cap 1 [m]
      (setSlidingRedis o t (some expiry) members).1).2.isBlocked = false := by
  have hset : (setSlidingRedis o t (some expiry) members).1 =
      ZSet.store (ZSet.addAll t members []) (some expiry) := by
    simp only [setSlidingRedis, Option.getD_some, if_neg (show ¬ expiry < 0 by omega)]
    rfl
  have hscores : ∀ p ∈ ZSet.addAll t members [], p.1 = t :=
    ZSet.forall_mem_addAll (fun _ => rfl) _ (by simp)
  rw [hset, ZSet.store]
  by_cases hle : ends ≤ expiry
  -- the members leave the window
  · have hwindow : t + o.windowMs < ends := not_le.mp fun hw => h ⟨hle, hw⟩
    refine ⟨t + o.windowMs, by omega, hwindow, isBlocked_luaSlidingIncr_of_nil hcap ?_⟩
    refine List.filter_eq_nil_iff.mpr fun p hp => ?_
    have hmem : p ∈ ZSet.addAll t members [] := by
      unfold RedisSliding.members RedisKey.live at hp
      split at hp
      · simp at hp
      · cases hlive : Option.filter (fun h : RedisKey (ZSet μ) =>
            h.expireAt.all fun e => decide (t + o.windowMs < e))
            (some ⟨ZSet.addAll t members [], some expiry⟩) with
        | none => simp [hlive] at hp
        | some y =>
          obtain rfl := Option.some.inj (Option.eq_some_of_filter_eq_some hlive)
          simpa [hlive] using hp
    simp [hscores p hmem]
  -- the key expires
  · refine ⟨expiry, hexpiry, not_le.mp hle, isBlocked_luaSlidingIncr_of_nil hcap ?_⟩
    have hgone : ∀ s : Option (RedisKey (ZSet μ)), (∀ y ∈ s, y.expireAt = some expiry) →
        RedisKey.live expiry s = none := fun s hs =>
      Option.filter_eq_none_iff.mpr fun y hy => by simp [hs y hy]
    rw [RedisSliding.members, hgone]
    · rfl
    · split
      · simp
      · rintro _ ⟨⟩
        rfl

end RedisSliding

end SortedSets

namespace RedisFixed

variable {o : WindowOptions} {now ends : ℤ} {cap : ℕ} {s : Option (RedisKey ℤ)}

/-- The count is the cap or more, and the key does not expire before `ends`. -/
def FullUntil (cap : ℕ) (ends : ℤ) (s : Option (RedisKey ℤ)) : Prop :=
  ∃ h, s = some h ∧ (cap : ℤ) ≤ h.value ∧ ∀ e ∈ h.expireAt, ends ≤ e

/-- An increment is rejected, and leaves the key full. -/
theorem FullUntil.increment (h : FullUntil cap ends s) (hcap : 1 ≤ cap) (hnow : now < ends)
    (o : WindowOptions) (cost : ℕ) :
    FullUntil cap ends (luaFixedIncr o now cap cost s).1 ∧
      (luaFixedIncr o now cap cost s).2.isBlocked = true := by
  obtain ⟨⟨value, expireAt⟩, rfl, hvalue, hexpire⟩ := h
  have hlive : RedisKey.live now (some ⟨value, expireAt⟩) = some ⟨value, expireAt⟩ := by
    have hall : expireAt.all fun e => decide (now < e) := by
      cases expireAt with
      | none => rfl
      | some e => exact decide_eq_true (hnow.trans_le (hexpire e rfl))
    simp [RedisKey.live, Option.filter, hall]
  simp only at hvalue
  have hmore : ¬ value + (max cost 1 : ℕ) = (max cost 1 : ℕ) := by omega
  simp only [luaFixedIncr, hlive, if_neg hmore]
  refine ⟨⟨_, rfl, ?_, hexpire⟩, decide_eq_true ?_⟩
  · simp only
    omega
  · omega

/-- Set to the cap or more, the key is full. -/
theorem fullUntil_setFixedRedis {t expiry totalHits : ℤ} (hexpiry : ends ≤ expiry)
    (hhits : cap ≤ totalHits) : FullUntil cap ends (setFixedRedis o t totalHits (some expiry)).1 := by
  refine ⟨_, rfl, ?_, ?_⟩
  · simp only
    omega
  · rintro _ ⟨⟩
    exact hexpiry

/-- Set to less than the cap, a first hit at that moment is allowed. -/
theorem isBlocked_setFixedRedis_of_lt {t totalHits : ℤ} (expiresAt : Option ℤ)
    (hhits : totalHits < cap) (hpos : 0 ≤ totalHits) :
    (luaFixedIncr o t cap 1 (setFixedRedis o t totalHits expiresAt).1).2.isBlocked = false := by
  have hvalue : max 0 totalHits = totalHits := max_eq_right hpos
  rcases RedisKey.live_eq_or t (setFixedRedis o t totalHits expiresAt).1 with heq | heq
  · simp only [luaFixedIncr, heq, redisWindowResult, decide_eq_false_iff_not]
    simp only [setFixedRedis, hvalue]
    split <;> simp only <;> omega
  · simp only [luaFixedIncr, heq, redisWindowResult, decide_eq_false_iff_not]
    split <;> simp only <;> omega

/-- When the key has expired a first hit is allowed. -/
theorem isBlocked_luaFixedIncr_setFixedRedis {t expiry : ℤ} (totalHits : ℤ) (hcap : 1 ≤ cap) :
    (luaFixedIncr o expiry cap 1 (setFixedRedis o t totalHits (some expiry)).1).2.isBlocked =
      false := by
  have hgone : RedisKey.live expiry (setFixedRedis o t totalHits (some expiry)).1 = none := by
    simp [setFixedRedis, RedisKey.live, Option.filter]
  simp only [luaFixedIncr, hgone, if_true, redisWindowResult, decide_eq_false_iff_not]
  exact not_lt.mpr (by exact_mod_cast hcap)

end RedisFixed

namespace RedisBucket

variable {o : TokenBucketOptions} {now ends : ℤ} {s : Option RedisHash}

/-- There are no tokens, none come back before `ends`, and the key does not expire. -/
def EmptyUntil (o : TokenBucketOptions) (ends : ℤ) (s : Option RedisHash) : Prop :=
  ∃ h, s = some h ∧ h.tokens ≤ 0 ∧ ends ≤ h.lastRefill + o.interval ∧ ends ≤ h.expireAt

/-- An increment finds an empty bucket and leaves it empty. -/
theorem EmptyUntil.increment (h : EmptyUntil o ends s) (hnow : now < ends)
    (hinterval : ends ≤ now + o.interval) (cost : ℕ) :
    EmptyUntil o ends (incrBucketRedis o ⟨now, cost⟩ s).1 ∧
      (incrBucketRedis o ⟨now, cost⟩ s).2.isBlocked = true := by
  obtain ⟨x, rfl, htokens, hrefill, hexpire⟩ := h
  have hI := o.interval_pos
  have hlive : live now (some x) = some x := by
    simp [live, Option.filter, hnow.trans_le hexpire]
  have hsame : refilled o now (some x) = ⟨x.tokens, x.lastRefill⟩ :=
    Bucket.refill_of_lt (b := ⟨x.tokens, x.lastRefill⟩) (hnow.trans_le hrefill)
  have hcharged : 1 ≤ charged cost := le_max_right _ _
  simp only [incrBucketRedis, hlive, luaBucketIncr_refilled, hsame]
  rw [if_neg (by omega)]
  refine ⟨⟨_, rfl, htokens, hrefill, ?_⟩, rfl⟩
  simp only
  omega

/-- A `set` to its size leaves a bucket empty until the next interval. -/
theorem emptyUntil_setBucketRedis {t totalHits : ℤ} (hsize : o.bucketSize ≤ totalHits)
    (hinterval : ends ≤ t + o.interval) :
    EmptyUntil o ends (some (setBucketRedis o t totalHits).1) := by
  have hI := o.interval_pos
  refine ⟨_, rfl, (bucketTokens_of_le hsize).le, hinterval, ?_⟩
  simp only [setBucketRedis]
  omega

/-- Set to less than the size, a first hit at that moment is allowed. -/
theorem isBlocked_setBucketRedis_of_lt {t totalHits : ℤ} (hhits : totalHits < o.bucketSize) :
    (incrBucketRedis o ⟨t, 1⟩ (some (setBucketRedis o t totalHits).1)).2.isBlocked = false := by
  have hI := o.interval_pos
  have hlive : live t (some (setBucketRedis o t totalHits).1) =
      some (setBucketRedis o t totalHits).1 := by
    have hlater : t < t + o.interval * 10 := by omega
    simp [live, Option.filter, setBucketRedis, hlater]
  have hone : 1 ≤ (refilled o t (some (setBucketRedis o t totalHits).1)).tokens :=
    Bucket.one_le_tokens_of_lt hhits
  simp only [incrBucketRedis, hlive, luaBucketIncr_refilled]
  rw [if_pos (by simpa [charged] using hone)]

/-- An interval after the `set` there is a token. -/
theorem isBlocked_incrBucketRedis_setBucketRedis (t totalHits : ℤ) :
    (incrBucketRedis o ⟨t + o.interval, 1⟩ (some (setBucketRedis o t totalHits).1)).2.isBlocked =
      false := by
  have hI := o.interval_pos
  have hlive : live (t + o.interval) (some (setBucketRedis o t totalHits).1) =
      some (setBucketRedis o t totalHits).1 := by
    have hlater : t + o.interval < t + o.interval * 10 := by omega
    simp [live, Option.filter, setBucketRedis, hlater]
  have hone : 1 ≤ (refilled o (t + o.interval) (some (setBucketRedis o t totalHits).1)).tokens :=
    Bucket.one_le_tokens_refill (b := ⟨bucketTokens o totalHits, t⟩)
      (bucketTokens_nonneg o totalHits) le_rfl
  simp only [incrBucketRedis, hlive, luaBucketIncr_refilled]
  rw [if_pos (by simpa [charged] using hone)]

end RedisBucket

end RatelimitFlex
