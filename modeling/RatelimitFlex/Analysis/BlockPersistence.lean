import RatelimitFlex.Analysis.HeldItems

/-!
# How long a block in a store lasts

After `persistToStore` the block is what the store makes of one hit more than the manager's own
cap and of an expiry.  When these are the cap of the store or more, `HoldsUntil` says of each
strategy that it rejects the key, and an increment keeps it so (`HoldsUntil.increment`); where a
store does not hold the key until the end, the first increment after that is allowed
(`exists_allowed`), and below its cap a first one is allowed at once (`allowed_of_lt`).
-/

set_option autoImplicit false

namespace RatelimitFlex

open Library

variable {κ μ : Type} [DecidableEq κ]


/-! ## Any store -/

namespace BlockedStore

variable [LinearOrder μ] {key : κ} {t clock now ends end' hits : ℤ} {drawn : List μ}
  {options : RateLimitIncrementOptions} {s : BlockedStore κ μ}

/-- The store rejects the key up to `ends`: what it holds since `t` of the `hits` that were set, with
the members `drawn`, says so. -/
def HoldsUntil (hits : ℤ) (drawn : List μ) (key : κ) (t ends now : ℤ) : BlockedStore κ μ → Prop
  | memory m => (m.cell key).WallsFrom ends ∧
      ∃ e, ends ≤ e ∧ (m.cell key).SpentUntil ((m.cell key).capFor {}) e
  | redisSliding o x =>
    ends ≤ t + o.windowMs ∧ RedisSliding.FullUntil o o.maxRequests ends drawn x
  | redisFixed o x => RedisFixed.FullUntil o.maxRequests ends x
  | redisBucket o x => ends ≤ t + o.interval ∧ RedisBucket.EmptyUntil o ends x
  | dynamoSliding o item => DynamoStore.StillWeighs o hits t (ends - 1) ∧
      ∃ x, item = some x ∧ DynamoStore.FullSince o.windowMs hits t now x.toWeightedWindowState
  | dynamoFixed o item =>
    ends ≤ DynamoStore.fixedWindowBoundaryMs t o.windowMs + o.windowMs ∧
      ∃ x, item = some x ∧ DynamoStore.FixedFull o o.maxRequests t x
  | dynamoBucket o item => ∃ x, item = some x ∧ DynamoStore.EmptyUntil o ends x

omit [LinearOrder μ] in
/-- The cap of a key's cell is that of the store. -/
theorem capFor_cell (m : MemoryStore κ) (key : κ) (options : RateLimitIncrementOptions) :
    (m.cell key).capFor options = (memory m : BlockedStore κ μ).capFor options := by
  cases m <;> rfl

omit [LinearOrder μ] in
/-- A store allows something. -/
theorem one_le_cap (s : BlockedStore κ μ) : 1 ≤ s.cap := by
  have hwindow : ∀ o : WindowOptions, (1 : ℤ) ≤ o.cap none := fun o => by
    rw [WindowOptions.cap_none]
    exact_mod_cast o.maxRequests_pos
  cases s with
  | memory m =>
    cases m with
    | sliding o x => exact hwindow o
    | fixed o x => exact hwindow o
    | bucket o x => exact o.bucketSize_pos
  | redisSliding o x => exact hwindow o
  | redisFixed o x => exact hwindow o
  | redisBucket o x => exact o.bucketSize_pos
  | dynamoSliding o item => exact hwindow o
  | dynamoFixed o item => exact hwindow o
  | dynamoBucket o item => exact o.bucketSize_pos

/-- A `set` changes no cap. -/
theorem capFor_persist (totalHits : ℤ) (expiresAt : Option ℤ) (members : List μ) :
    (s.persist t key totalHits expiresAt members).capFor options = s.capFor options := by
  cases s with
  | memory m => cases m <;> rfl
  | redisSliding o x => rfl
  | redisFixed o x => rfl
  | redisBucket o x => rfl
  | dynamoSliding o item => rfl
  | dynamoFixed o item => rfl
  | dynamoBucket o item => rfl

/-- An increment changes no cap. -/
theorem capFor_increment (i : Timed (DrawnIncrement μ)) :
    (s.increment key i).1.capFor options = s.capFor options := by
  cases s with
  | memory m => cases m <;> rfl
  | redisSliding o x => rfl
  | redisFixed o x => rfl
  | redisBucket o x => rfl
  | dynamoSliding o item => simp only [increment, capFor]
  | dynamoFixed o item => simp only [increment, capFor]
  | dynamoBucket o item => rfl

/-- An increment draws a member for each hit, and none that the `set` drew. -/
def Draws (drawn : List μ) (i : Timed (DrawnIncrement μ)) : Prop :=
  i.op.members.length = i.op.options.sanitizedCost ∧ ∀ m ∈ i.op.members, m ∉ drawn

omit [LinearOrder μ] in
/-- Of those that the script adds one is new. -/
theorem Draws.exists_fresh {i : Timed (DrawnIncrement μ)} (h : Draws drawn i) :
    ∃ m ∈ i.op.members.take (max i.op.options.sanitizedCost 1), m ∉ drawn := by
  obtain ⟨hlength, hnew⟩ := h
  have hcost := i.op.options.one_le_sanitizedCost
  obtain ⟨m, hm⟩ := List.exists_mem_of_length_pos (l := i.op.members) (by omega)
  rw [List.take_of_length_le (by omega)]
  exact ⟨m, hm, hnew m hm⟩

/-- An increment is rejected, and leaves the store that way. -/
theorem HoldsUntil.increment (h : s.HoldsUntil hits drawn key t ends clock) (ht : t ≤ clock)
    (hhits : s.cap ≤ hits) {i : Timed (DrawnIncrement μ)} (hclock : clock ≤ i.time)
    (hends : i.time < ends) (hdraws : Draws drawn i) (hcap : s.capFor i.op.options = s.cap) :
    (s.increment key i).1.HoldsUntil hits drawn key t ends i.time ∧
      ∃ r, (s.increment key i).2 = some r ∧ r.isBlocked = true := by
  have hfresh := hdraws.exists_fresh
  obtain ⟨now, options, members⟩ := i
  simp only at hclock hends hcap hfresh
  cases s with
  | memory m =>
    obtain ⟨hwalls, e, hle, hspent⟩ := h
    have hclear := hwalls.clearWall hends
    have hcell : (m.increment now key options).1.cell key =
        ((m.cell key).increment now options).1 := by
      rw [MemoryStore.cell_increment_own, hclear]
    have hcellCap : (m.cell key).capFor options = (m.cell key).capFor {} := by
      rw [capFor_cell (μ := μ), capFor_cell (μ := μ)]
      exact hcap
    refine ⟨⟨?_, e, hle, ?_⟩, _, rfl, ?_⟩
    · rw [hcell]
      exact Cell.wallsFrom_increment ends now options _
    · rw [hcell, Cell.capFor_increment]
      exact hspent.increment (hends.trans_le hle)
    · rw [MemoryStore.increment_snd_cleared, hclear]
      exact hspent.isBlocked (hends.trans_le hle) hcellCap
  | redisSliding o x =>
    obtain ⟨hlater, hfull⟩ := h
    replace hcap : o.cap options.maxRequests = o.maxRequests := by simpa [cap, capFor] using hcap
    have hstep := hfull.increment hends (by omega) hfresh
    simp only [BlockedStore.increment, hcap]
    exact ⟨⟨hlater, hstep.1⟩, _, rfl, hstep.2⟩
  | redisFixed o x =>
    replace hcap : o.cap options.maxRequests = o.maxRequests := by simpa [cap, capFor] using hcap
    have hstep := h.increment o.maxRequests_pos hends o options.sanitizedCost
    simp only [BlockedStore.increment, hcap]
    exact ⟨hstep.1, _, rfl, hstep.2⟩
  | redisBucket o x =>
    obtain ⟨hlater, hempty⟩ := h
    have hstep := hempty.increment hends (by omega) options.sanitizedCost
    exact ⟨⟨hlater, hstep.1⟩, _, rfl, hstep.2⟩
  | dynamoSliding o item =>
    obtain ⟨hstill, x, rfl, hfull⟩ := h
    replace hcap : o.cap options.maxRequests = o.maxRequests := by simpa [cap, capFor] using hcap
    replace hhits : o.maxRequests ≤ hits := by simpa [cap, capFor] using hhits
    obtain ⟨⟨new, hnew, hfull'⟩, r, hr, hblocked⟩ :=
      hfull.increment hclock hhits (hstill.mono hhits (by omega)) hcap
    simp only [BlockedStore.increment, hnew, hr]
    exact ⟨⟨hstill, new, rfl, hfull'⟩, r, rfl, hblocked⟩
  | dynamoFixed o item =>
    obtain ⟨hlater, x, rfl, hfull⟩ := h
    replace hcap : o.cap options.maxRequests = o.maxRequests := by simpa [cap, capFor] using hcap
    obtain ⟨⟨new, hnew, hfull'⟩, r, hr, hblocked⟩ :=
      hfull.increment (ht.trans hclock) (hends.trans_le hlater) hcap
    simp only [BlockedStore.increment, hnew, hr]
    exact ⟨⟨hlater, new, rfl, hfull'⟩, r, rfl, hblocked⟩
  | dynamoBucket o item =>
    obtain ⟨x, rfl, hempty⟩ := h
    obtain ⟨⟨new, hnew, hempty'⟩, hblocked⟩ :=
      hempty.increment hends options.one_le_sanitizedCost
    exact ⟨⟨new, hnew, hempty'⟩, _, rfl, hblocked⟩

/-- Of enough hits the store keeps the key rejected up to `ends` when it is told to until
`expiry`. -/
def KeepsUntil (hits t ends expiry : ℤ) : BlockedStore κ μ → Prop
  | memory (.sliding o _) | redisSliding o _ => ends ≤ expiry ∧ ends ≤ t + o.windowMs
  | memory (.fixed _ _) | redisFixed _ _ => ends ≤ expiry
  | memory (.bucket o _) | redisBucket o _ | dynamoBucket o _ => ends ≤ t + o.interval
  | dynamoSliding o _ => DynamoStore.StillWeighs o hits t (ends - 1)
  | dynamoFixed o _ => ends ≤ DynamoStore.fixedWindowBoundaryMs t o.windowMs + o.windowMs

omit [LinearOrder μ] in
/-- In memory that is a matter of the cell. -/
theorem keepsUntil_memory (m : MemoryStore κ) (key : κ) {expiry : ℤ} :
    (memory m : BlockedStore κ μ).KeepsUntil hits t ends expiry ↔
      (m.cell key).KeepsUntil t ends expiry := by
  cases m <;> exact Iff.rfl

/-- The cell that `set` and `get` leave. -/
theorem cell_persist (m : MemoryStore κ) (t : ℤ) (key : κ) (totalHits : ℤ)
    (expiresAt : Option ℤ) :
    ((m.set t key totalHits expiresAt).1.get t key).1.cell key =
      ((m.cell key).set t totalHits expiresAt).1.clearWall t := by
  rw [MemoryStore.cell_get, if_pos rfl, MemoryStore.cell_set_self]

/-- Of the cap or more, the `set` leaves the store that way. -/
theorem holdsUntil_persist {expiry : ℤ} {members : List μ} (h : s.KeepsUntil hits t ends expiry)
    (hhits : s.cap ≤ hits) (ht : 0 ≤ t) (hends : t < ends) (hlength : (members.length : ℤ) = hits)
    (hnodup : members.Nodup) :
    (s.persist t key hits (some expiry) members).HoldsUntil hits members key t ends t := by
  have hpos := s.one_le_cap
  cases s with
  | memory m =>
    have hkeeps := (keepsUntil_memory m key).mp h
    have hcap : (memory m : BlockedStore κ μ).cap = (m.cell key).capFor {} :=
      (capFor_cell m key {}).symm
    obtain ⟨e, hle, hspent⟩ := Cell.exists_spentUntil_set hkeeps (hcap ▸ hhits)
    have hwalls := Cell.wallsFrom_set hkeeps hits
    have hcell := cell_persist m t key hits (some expiry)
    rw [hwalls.clearWall hends] at hcell
    refine ⟨?_, e, hle, ?_⟩
    · rw [hcell]
      exact hwalls
    · rw [hcell, Cell.capFor_set]
      exact hspent
  | redisSliding o x =>
    have hcap : cap (redisSliding o x : BlockedStore κ μ) = o.maxRequests := by simp [cap, capFor]
    exact ⟨h.2, RedisSliding.fullUntil_setSlidingRedis ht h.1 h.2 hends o.maxRequests_pos
      (by omega) hnodup⟩
  | redisFixed o x =>
    have hcap : cap (redisFixed o x : BlockedStore κ μ) = o.maxRequests := by simp [cap, capFor]
    exact RedisFixed.fullUntil_setFixedRedis h (hcap ▸ hhits)
  | redisBucket o x => exact ⟨h, RedisBucket.emptyUntil_setBucketRedis hhits h⟩
  | dynamoSliding o item => exact ⟨h, _, rfl, DynamoStore.fullSince_setSliding o t (by omega)⟩
  | dynamoFixed o item =>
    have hcap : cap (dynamoFixed o item : BlockedStore κ μ) = o.maxRequests := by
      simp [cap, capFor]
    exact ⟨h, _, rfl, DynamoStore.fixedFull_setFixed o t _ (hcap ▸ hhits)⟩
  | dynamoBucket o item => exact ⟨_, rfl, DynamoStore.emptyUntil_setTokenBucket hhits h⟩

/-- The answer rejects the request. -/
def Rejects (r : Option RateLimitResult) : Prop := ∃ x, r = some x ∧ x.isBlocked = true

/-- An increment of cost one at the cap of the store. -/
def hit (u : ℤ) (m : μ) : Timed (DrawnIncrement μ) := ⟨u, {}, [m]⟩

omit [DecidableEq κ] [LinearOrder μ] in
/-- What is allowed is not rejected. -/
theorem not_rejects {x : RateLimitResult} (hx : x.isBlocked = false) : ¬ Rejects (some x) := by
  rintro ⟨_, ⟨⟩, hblocked⟩
  rw [hx] at hblocked
  exact Bool.false_ne_true hblocked

/-- When fewer hits than the cap were set, a hit at that moment is allowed. -/
theorem allowed_of_lt {expiry : ℤ} (key : κ) {members : List μ} (m : μ) (hhits : hits < s.cap)
    (hlength : (members.length : ℤ) = hits) :
    ¬ Rejects ((s.persist t key hits (some expiry) members).increment key (hit t m)).2 := by
  have hpos : 0 ≤ hits := by omega
  cases s with
  | memory b =>
    refine not_rejects ?_
    rw [MemoryStore.increment_snd_cleared, cell_persist]
    refine Cell.isBlocked_set_of_lt ?_ hpos expiry
    rw [capFor_cell (μ := μ)]
    exact hhits
  | redisSliding o x =>
    have hcap : cap (redisSliding o x : BlockedStore κ μ) = o.cap none := rfl
    have hlt : members.length < o.cap none := by omega
    exact not_rejects (RedisSliding.isBlocked_setSlidingRedis_of_lt m (some expiry) hlt)
  | redisFixed o x =>
    exact not_rejects (RedisFixed.isBlocked_setFixedRedis_of_lt (some expiry) hhits hpos)
  | redisBucket o x => exact not_rejects (RedisBucket.isBlocked_setBucketRedis_of_lt hhits)
  | dynamoSliding o item =>
    have hcap : cap (dynamoSliding o item : BlockedStore κ μ) = o.maxRequests := by
      simp [cap, capFor]
    obtain ⟨r, hr, hblocked⟩ := DynamoStore.exists_allowed_setSliding_of_lt (t := t)
      (hcap ▸ hhits) hpos
    simp only [persist, increment, hit, hr]
    exact not_rejects hblocked
  | dynamoFixed o item =>
    have hcap : cap (dynamoFixed o item : BlockedStore κ μ) = o.maxRequests := by
      simp [cap, capFor]
    obtain ⟨r, hr, hblocked⟩ := DynamoStore.exists_allowed_setFixed_of_lt (t := t) (some expiry)
      (hcap ▸ hhits) hpos
    simp only [persist, increment, hit, hr]
    exact not_rejects hblocked
  | dynamoBucket o item => exact not_rejects (DynamoStore.isBlocked_bucketAlone_of_lt hhits)

/-- When the store does not keep the key until `ends`, a hit before that is allowed. -/
theorem exists_allowed {expiry : ℤ} (key : κ) (members : List μ) (m : μ)
    (h : ¬ s.KeepsUntil hits t ends expiry) (hhits : s.cap ≤ hits) (ht : 0 ≤ t)
    (hexpiry : t ≤ expiry) :
    ∃ u, t ≤ u ∧ u < ends ∧ ¬ Rejects
      ((s.persist t key hits (some expiry) members).increment key (hit u m)).2 := by
  cases s with
  | memory b =>
    obtain ⟨u, htu, hu, hblocked⟩ := Cell.exists_allowed_set
      (fun hk => h ((keepsUntil_memory b key).mpr hk)) hexpiry hits
    refine ⟨u, htu, hu, not_rejects ?_⟩
    rw [MemoryStore.increment_snd_cleared, cell_persist]
    exact hblocked
  | redisSliding o x =>
    obtain ⟨u, htu, hu, hblocked⟩ := RedisSliding.exists_allowed_setSlidingRedis members m ht h
      hexpiry o.maxRequests_pos
    rw [← WindowOptions.cap_none o] at hblocked
    exact ⟨u, htu, hu, not_rejects hblocked⟩
  | redisFixed o x =>
    have hpos : 1 ≤ o.cap none := by
      rw [WindowOptions.cap_none]
      exact o.maxRequests_pos
    exact ⟨expiry, hexpiry, not_le.mp h,
      not_rejects (RedisFixed.isBlocked_luaFixedIncr_setFixedRedis _ hpos)⟩
  | redisBucket o x =>
    have hI := o.interval_pos
    exact ⟨t + o.interval, by omega, not_le.mp h,
      not_rejects (RedisBucket.isBlocked_incrBucketRedis_setBucketRedis t _)⟩
  | dynamoSliding o item =>
    have hcap : cap (dynamoSliding o item : BlockedStore κ μ) = o.maxRequests := by
      simp [cap, capFor]
    obtain ⟨u, htu, hu, r, hr, hblocked⟩ := DynamoStore.exists_allowed_setSliding (hcap ▸ hhits) h
    refine ⟨u, htu, hu, ?_⟩
    simp only [persist, increment, hit, hr]
    exact not_rejects hblocked
  | dynamoFixed o item =>
    obtain ⟨u, htu, hu, r, hr, hblocked⟩ := DynamoStore.exists_allowed_setFixed hits (some expiry)
      (not_le.mp h)
    refine ⟨u, htu, hu, ?_⟩
    simp only [persist, increment, hit, hr]
    exact not_rejects hblocked
  | dynamoBucket o item =>
    have hI := o.interval_pos
    exact ⟨t + o.interval, by omega, not_le.mp h,
      not_rejects (DynamoStore.isBlocked_bucketAlone_setTokenBucket o t _)⟩

/-- When the block lasts, of enough hits: the expiry that the store is told is no earlier than the
end of the block, the hits do not leave the window before it, no token comes back, and in a table
the window of the block is not over or weighs enough in the next one. -/
def LastsOf (hits t : ℤ) (d : ℚ) : BlockedStore κ μ → Prop
  | memory (.sliding o _) | redisSliding o _ => d.den = 1 ∧ d ≤ o.windowMs
  | memory (.fixed _ _) | redisFixed _ _ => d.den = 1
  | memory (.bucket o _) | redisBucket o _ | dynamoBucket o _ => d ≤ o.interval
  | dynamoSliding o _ => DynamoStore.StillWeighs o hits t (t + ⌈d⌉ - 1)
  | dynamoFixed o _ => t + d ≤ DynamoStore.fixedWindowBoundaryMs t o.windowMs + o.windowMs

/-- The block of a manager with this cap lasts: what it sets is the cap of the store or more, and
the store keeps it that long. -/
def Lasts (maxRequests : ℕ) (t : ℤ) (d : ℚ) (s : BlockedStore κ μ) : Prop :=
  s.cap ≤ maxRequests + 1 ∧ s.LastsOf (maxRequests + 1) t d

omit [LinearOrder μ] in
/-- The whole milliseconds of a block. -/
theorem keepsUntil_iff_lastsOf (hits t : ℤ) (d : ℚ) :
    s.KeepsUntil hits t (t + ⌈d⌉) (t + ⌊d⌋) ↔ s.LastsOf hits t d := by
  have hwhole : t + ⌈d⌉ ≤ t + ⌊d⌋ ↔ d.den = 1 := by
    rw [add_le_add_iff_left, Int.ceil_le]
    constructor
    · intro hle
      rw [le_antisymm hle (Int.floor_le d), Rat.den_intCast]
    · intro hden
      rw [← Rat.coe_int_num_of_den_eq_one hden, Int.floor_intCast]
  have hceil : ∀ z : ℤ, t + ⌈d⌉ ≤ t + z ↔ d ≤ z := fun z => by
    rw [add_le_add_iff_left, Int.ceil_le]
  cases s with
  | memory m =>
    cases m with
    | sliding o x => exact and_congr hwhole (hceil o.windowMs)
    | fixed o x => exact hwhole
    | bucket o x => exact hceil o.interval
  | redisSliding o x => exact and_congr hwhole (hceil o.windowMs)
  | redisFixed o x => exact hwhole
  | redisBucket o x => exact hceil o.interval
  | dynamoSliding o item => exact Iff.rfl
  | dynamoFixed o item =>
    simp only [KeepsUntil, LastsOf]
    rw [← le_sub_iff_add_le', Int.ceil_le, ← le_sub_iff_add_le']
    push_cast
    rfl
  | dynamoBucket o item => exact hceil o.interval

/-- A run of increments before the end of the block. -/
theorem HoldsUntil.run (s₀ : BlockedStore κ μ) {is : List (Timed (DrawnIncrement μ))}
    (h : s.HoldsUntil hits drawn key t ends t) (hhits : s₀.cap ≤ hits)
    (hcap : ∀ options, s.capFor options = s₀.capFor options) (hord : OrderedFrom Timed.time t is)
    (his : ∀ i ∈ is, i.time < ends ∧ Draws drawn i ∧ s₀.capFor i.op.options = s₀.cap) :
    ∀ r ∈ outputs (BlockedStore.increment key) is s, Rejects r := by
  rw [forall_outputs_iff]
  refine guarded_of_inv
    (I := fun clock (x : BlockedStore κ μ) => x.HoldsUntil hits drawn key t ends clock ∧
      t ≤ clock ∧ ∀ options, x.capFor options = s₀.capFor options)
    ?_ ⟨h, le_rfl, hcap⟩ hord ((guarded_true is s).and_mem his)
  rintro clock x i ⟨hx, ht, hsame⟩ hclock ⟨-, hends, hdraws, hi⟩
  have hxcap : x.capFor i.op.options = x.cap := by
    rw [hsame, hi, cap, cap, hsame]
  have hxhits : x.cap ≤ hits := by
    rw [cap, hsame]
    exact hhits
  obtain ⟨hkept, hrejects⟩ := hx.increment ht hxhits hclock hends hdraws hxcap
  refine ⟨hrejects, hkept, ht.trans hclock, fun options => ?_⟩
  rw [capFor_increment, hsame]

/-- The expiry is the end of the block without its fraction of a millisecond. -/
theorem expiry_eq {t expiry : ℤ} {d : ℚ} {reason : KeyBlockReason} (ht : 0 ≤ t) (hd : 0 < d)
    (h : (KeyManager.blockEntry t (.finite d) reason).expiresAt = some (.time expiry)) :
    expiry = t + ⌊d⌋ := by
  have hne : ¬ JsNumber.finite d = 0 := fun hzero => hd.ne' (JsNumber.finite.inj hzero)
  have hsum : (JsNumber.ofInt t).add (.finite d) = .finite (t + d) := rfl
  have hnonneg : (0 : ℚ) ≤ t + d := add_nonneg (by exact_mod_cast ht) hd.le
  simp only [KeyManager.blockEntry, if_neg hne, hsum, JsDate.ofNumber, if_pos hnonneg] at h
  split at h
  · rw [← JsDate.time.inj (Option.some.inj h), Int.floor_intCast_add]
  · cases h

/-- **A block in the store of a key manager.**  A manager with the cap `maxRequests` blocks a key at
`t` for `d` milliseconds with `persistToStore`: it sets one hit more than its own cap.  Then every
run of increments of any costs at the cap of the store before `t + d`, whoever makes them, is
rejected throughout exactly when the block `Lasts`: these hits are the store's cap or more, and it
keeps them that long.  The random bytes of a hit are none that the `set` drew.
SOURCE: src/key-manager/KeyManager.ts:199-229 -/
theorem persisted_block_lasts_iff (s : BlockedStore κ μ) (key : κ) (maxRequests : ℕ)
    (t expiry : ℤ) (d : ℚ) (reason : KeyBlockReason) (members : List μ) (ht : 0 ≤ t) (hd : 0 < d)
    (hexpiry : (KeyManager.blockEntry t (.finite d) reason).expiresAt = some (.time expiry))
    (hlength : members.length = maxRequests + 1) (hnodup : members.Nodup)
    (hother : ∃ m, m ∉ members) :
    (∀ is : List (Timed (DrawnIncrement μ)), OrderedFrom Timed.time t is →
      (∀ i ∈ is, (i.time : ℚ) < t + d ∧ Draws members i ∧ s.capFor i.op.options = s.cap) →
      ∀ r ∈ outputs (increment key) is
        (s.persist t key (maxRequests + 1) (some expiry) members), Rejects r) ↔
      s.Lasts maxRequests t d := by
  obtain rfl := expiry_eq ht hd hexpiry
  have hbefore : ∀ u : ℤ, (u : ℚ) < t + d ↔ u < t + ⌈d⌉ := fun u => by
    rw [← sub_lt_iff_lt_add', ← sub_lt_iff_lt_add', Int.lt_ceil]
    push_cast
    rfl
  have hpos : 0 < ⌈d⌉ := Int.ceil_pos.mpr hd
  rw [Lasts, ← keepsUntil_iff_lastsOf]
  constructor
  · intro hall
    obtain ⟨m, hm⟩ := hother
    -- one hit is a run
    have hone : ∀ u, t ≤ u → u < t + ⌈d⌉ → Rejects ((s.persist t key (maxRequests + 1)
        (some (t + ⌊d⌋)) members).increment key (hit u m)).2 := by
      intro u htu hu
      refine hall [hit u m] ⟨htu, trivial⟩ ?_ _ List.mem_cons_self
      intro i hi
      obtain rfl := List.mem_singleton.mp hi
      refine ⟨(hbefore u).mpr hu, ⟨rfl, fun m' hm' => ?_⟩, rfl⟩
      rw [List.mem_singleton.mp hm']
      exact hm
    have hhits : s.cap ≤ maxRequests + 1 := by
      by_contra hlt
      exact allowed_of_lt key m (not_le.mp hlt) (by exact_mod_cast hlength)
        (hone t le_rfl (by omega))
    refine ⟨hhits, ?_⟩
    by_contra hkeeps
    obtain ⟨u, htu, hu, hallowed⟩ := exists_allowed key members m hkeeps hhits ht
      (le_add_of_nonneg_right (Int.floor_nonneg.mpr hd.le))
    exact hallowed (hone u htu hu)
  · rintro ⟨hhits, hkeeps⟩ is hord his
    have hholds : (s.persist t key (maxRequests + 1) (some (t + ⌊d⌋)) members).HoldsUntil
        (maxRequests + 1) members key t (t + ⌈d⌉) t :=
      holdsUntil_persist hkeeps hhits ht (by omega) (by exact_mod_cast hlength) hnodup
    refine hholds.run s hhits (fun _ => capFor_persist _ _ _) hord fun i hi => ?_
    obtain ⟨htime, hdraws, hcap⟩ := his i hi
    exact ⟨(hbefore i.time).mp htime, hdraws, hcap⟩

end BlockedStore

/-- A block of five seconds in a sliding window of one second does not last. -/
theorem persisted_block_lasts_iff_five_seconds :
    ¬ ∀ is : List (Timed (DrawnIncrement ℕ)), OrderedFrom Timed.time 1000 is →
      (∀ i ∈ is, (i.time : ℚ) < (1000 : ℤ) + 5000 ∧ BlockedStore.Draws [0, 1] i ∧
        BlockedStore.capFor i.op.options (.memory (.sliding oneASecond (.new 0)) :
          BlockedStore ℕ ℕ) = BlockedStore.cap (.memory (.sliding oneASecond (.new 0)) :
          BlockedStore ℕ ℕ)) →
      ∀ r ∈ outputs (BlockedStore.increment 7) is (BlockedStore.persist 1000 7 ((1 : ℕ) + 1)
        (some 6000) [0, 1] (.memory (.sliding oneASecond (.new 0)))), BlockedStore.Rejects r := by
  intro hall
  have hlasts := (BlockedStore.persisted_block_lasts_iff
    (.memory (.sliding oneASecond (.new 0)) : BlockedStore ℕ ℕ) 7 1 1000 6000 5000 .manual [0, 1]
    (by decide) (by norm_num) (by decide +kernel) (by decide) (by decide) ⟨2, by decide⟩).mp hall
  exact absurd hlasts.2.2 (by norm_num [oneASecond])

end RatelimitFlex
