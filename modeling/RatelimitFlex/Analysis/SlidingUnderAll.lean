import RatelimitFlex.Analysis.ConcurrentAll

/-!
# A sliding window under overlapping increments of mode `all`

One layer is a `MemoryStore` with a sliding window, the others are any stores.  A rollback
takes the newest stamp of the key, which may stand for another request that the layer has
allowed meanwhile; that request then counts as older than it is.  `Covered` says that the
stamps of all requests that are or may still be allowed are there; while every rollback
leaves them there, the cap holds in every window.
-/

set_option autoImplicit false

namespace RatelimitFlex

open Library

variable {τ κ : Type} [DecidableEq κ]

/-! ## The watched layer -/

/-- A store beside whatever the other layers keep, and the clock. -/
structure Beside (τ κ : Type) [DecidableEq κ] where
  watched : MemoryStore κ
  now : ℤ
  rest : τ

/-- The watched store behind the engine's interface. -/
def watchedStore : RateLimitStore (Beside τ κ) κ where
  increment key options s :=
    let r := s.watched.increment s.now key options
    (.ok r.2, { s with watched := r.1 })
  decrement key options s := { s with watched := s.watched.decrement key options }

/-- The layer over it. -/
def LayerSpec.watched (spec : LayerSpec κ) : CompositionLayer (Beside τ κ) κ :=
  ⟨spec.label, watchedStore, spec.keyTransform, spec.maxRequests⟩

/-- A store that is not the watched one. -/
structure LeavesWatched (store : RateLimitStore (Beside τ κ) κ) : Prop where
  increment : ∀ key options s, (store.increment key options s).2.watched = s.watched
  decrement : ∀ key options s, (store.decrement key options s).watched = s.watched

/-- The requests, and when the watched layer took the increment of each. -/
structure TimedAll (τ κ : Type) [DecidableEq κ] where
  run : AllState (Beside τ κ) κ
  asked : List (Option ℤ) := []

namespace TimedAll

/-- Request `n` has layer `j` still to ask. -/
def asks (n j : ℕ) (s : TimedAll τ κ) : Bool :=
  match s.run.requests[n]? with
  | some ⟨_, _, .asking answers⟩ => (answers j).isNone
  | _ => false

/-- One event, at its clock reading; `L` is the number of the watched layer. -/
def step (c : ComposedStore (Beside τ κ) κ) (L : ℕ) (i : Timed (AllEvent κ)) (s : TimedAll τ κ) :
    TimedAll τ κ × Unit :=
  let inner := { s.run.composed.inner with now := i.time }
  ({ run := c.allEvent i.op { s.run with composed := { s.run.composed with inner } }
     asked := match i.op with
      | .call _ _ => s.asked ++ [none]
      | .ask n j => if j = L ∧ s.asks n j = true then s.asked.set n (some i.time) else s.asked
      | _ => s.asked }, ())

/-- What is stored under a key of the watched layer. -/
def stamps (k : κ) (s : TimedAll τ κ) : List ℤ :=
  match s.run.composed.inner.watched.cell k with
  | .sliding _ e => stampsOf e
  | _ => []

end TimedAll

/-- The watched layer has allowed the request, and the request is or may still be allowed. -/
def AllPhase.needs (L : ℕ) : AllPhase → Bool
  | .asking answers => (answers L).any allows
  | .rollingBack _ _ _ => false
  | .answered _ result => !result.isBlocked

/-- The options of a request that comes in. -/
def AllEvent.options? : AllEvent κ → Option RateLimitIncrementOptions
  | .call _ options => some options
  | _ => none

/-- The watched layer is the next one to be rolled back. -/
def AllPhase.rollsBack (L : ℕ) : AllPhase → Bool
  | .rollingBack _ _ (j :: _) => decide (j = L)
  | _ => false

section Needed

variable (spec : LayerSpec κ) (L : ℕ) (k : κ)

/-- When the watched layer took the increment of a request that needs it under `k`. -/
def neededAt (p : AllRequest κ × Option ℤ) : Option ℤ :=
  if spec.storageKey p.1.key = k ∧ p.1.phase.needs L = true then p.2 else none

/-- The stamps that the requests need under `k`. -/
def TimedAll.needed (s : TimedAll τ κ) : List ℤ :=
  (s.run.requests.zip s.asked).filterMap (neededAt spec L k)

/-- How many requests were allowed whose increment the watched layer took, under `k`, in
`(lo, hi]`. -/
def TimedAll.admitted (lo hi : ℤ) (s : TimedAll τ κ) : ℕ :=
  (s.run.requests.zip s.asked).countP fun p =>
    decide (spec.storageKey p.1.key = k) && p.1.phase.isAllowed &&
      p.2.any fun a => decide (lo < a ∧ a ≤ hi)

end Needed

/-- In every window the watched layer has taken at most `cap` requests that were allowed. -/
def TimedAll.WithinCap (spec : LayerSpec κ) (o : WindowOptions) (cap : ℕ) (s : TimedAll τ κ) :
    Prop :=
  ∀ k t, s.admitted spec k (t - o.windowMs) t ≤ cap

/-- The event takes no stamp from a request that needs it: an increment of the watched layer
reaches no `maxKeys`, and the newest stamp, which a rollback takes, is not needed or there
once more. -/
def TimedAll.SparesOthers (spec : LayerSpec κ) (L : ℕ) (o : WindowOptions)
    (i : Timed (AllEvent κ)) (s : TimedAll τ κ) : Prop :=
  match i.op with
  | .ask n j => j = L → ∀ req ∈ s.run.requests[n]?,
      s.run.composed.inner.watched.Fits (spec.storageKey req.key)
  | .rollback n => ∀ req ∈ s.run.requests[n]?, req.phase.rollsBack L = true →
      ∀ b ∈ (s.stamps (spec.storageKey req.key)).getLast?, i.time - o.windowMs < b →
        (s.needed spec L (spec.storageKey req.key)).count b <
          (s.stamps (spec.storageKey req.key)).count b
  | _ => True

instance (spec : LayerSpec κ) (L : ℕ) (o : WindowOptions) :
    ∀ (i : Timed (AllEvent κ)) (s : TimedAll τ κ), Decidable (s.SparesOthers spec L o i)
  | ⟨_, .ask n j⟩, s => inferInstanceAs (Decidable (j = L → ∀ req ∈ s.run.requests[n]?,
      s.run.composed.inner.watched.Fits (spec.storageKey req.key)))
  | ⟨t, .rollback n⟩, s => inferInstanceAs (Decidable (∀ req ∈ s.run.requests[n]?,
      req.phase.rollsBack L = true →
      ∀ b ∈ (s.stamps (spec.storageKey req.key)).getLast?, t - o.windowMs < b →
        (s.needed spec L (spec.storageKey req.key)).count b <
          (s.stamps (spec.storageKey req.key)).count b))
  | ⟨_, .call _ _⟩, _ => isTrue trivial
  | ⟨_, .settle _⟩, _ => isTrue trivial

/-! ## Lists of requests -/

section Lists

variable {α β : Type} {l : List α} {l' : List β} {n : ℕ} {x y : α}

/-- A request that moves on needs what it needed, or nothing. -/
theorem filterMap_zip_set_sublist {f : α × β → Option ℤ} (hx : l[n]? = some x)
    (hf : ∀ b, f (y, b) = f (x, b) ∨ f (y, b) = none) :
    (((l.set n y).zip l').filterMap f).Sublist ((l.zip l').filterMap f) := by
  induction l generalizing l' n with
  | nil => simp
  | cons a l ih =>
    cases l' with
    | nil => simp
    | cons b l' =>
      cases n with
      | zero =>
        obtain rfl := Option.some.inj hx
        simp only [List.set_cons_zero, List.zip_cons_cons]
        rcases hf b with hsame | hnone
        · rw [List.filterMap_cons, List.filterMap_cons, hsame]
        · rw [List.filterMap_cons_none hnone]
          exact (List.sublist_cons_self _ _).filterMap f
      | succ n =>
        simp only [List.set_cons_succ, List.zip_cons_cons]
        have htail := @ih l' n hx
        cases hab : f (a, b) with
        | none =>
          rw [List.filterMap_cons_none hab, List.filterMap_cons_none hab]
          exact htail
        | some v =>
          rw [List.filterMap_cons_some hab, List.filterMap_cons_some hab]
          exact htail.cons_cons v

/-- A request that needed nothing adds what it needs now. -/
theorem countP_filterMap_zip_set {f : α × β → Option ℤ} {z w : β} (hx : l[n]? = some x)
    (hz : l'[n]? = some z) (hf : f (x, z) = none) (p : ℤ → Bool) :
    (((l.set n y).zip (l'.set n w)).filterMap f).countP p =
      ((l.zip l').filterMap f).countP p + (f (y, w)).toList.countP p := by
  induction l generalizing l' n with
  | nil => simp at hx
  | cons a l ih =>
    cases l' with
    | nil => simp at hz
    | cons b l' =>
      cases n with
      | zero =>
        obtain rfl := Option.some.inj hx
        obtain rfl := Option.some.inj hz
        simp only [List.set_cons_zero, List.zip_cons_cons]
        rw [List.filterMap_cons_none hf]
        cases hyw : f (y, w) with
        | none => rw [List.filterMap_cons_none hyw, Option.toList_none, List.countP_nil, add_zero]
        | some v =>
          rw [List.filterMap_cons_some hyw, Option.toList_some, List.countP_cons,
            List.countP_singleton]
      | succ n =>
        simp only [List.set_cons_succ, List.zip_cons_cons]
        have htail := @ih l' n hx hz
        cases hab : f (a, b) with
        | none =>
          rw [List.filterMap_cons_none hab, List.filterMap_cons_none hab]
          exact htail
        | some v =>
          rw [List.filterMap_cons_some hab, List.filterMap_cons_some hab, List.countP_cons,
            List.countP_cons, htail]
          omega

/-- Elements counted one by one are counted by what they map to. -/
theorem countP_le_countP_filterMap {f : α → Option ℤ} {q : α → Bool} {p : ℤ → Bool} (l : List α)
    (h : ∀ a ∈ l, q a = true → ∃ b, f a = some b ∧ p b = true) :
    l.countP q ≤ (l.filterMap f).countP p := by
  rw [List.countP_filterMap]
  apply List.countP_mono_left
  intro a ha hq
  obtain ⟨b, hb, hp⟩ := h a ha hq
  rw [hb]
  exact hp

/-- What is needed after `m` is no more than what is there, if every stamp is there often
enough. -/
theorem length_filter_le_of_count {needed stamps : List ℤ} {m : ℤ}
    (h : ∀ b, m < b → needed.count b ≤ stamps.count b) :
    (needed.filter fun b => decide (m < b)).length ≤ stamps.length := by
  apply List.Subperm.length_le
  apply List.subperm_ext_iff.mpr
  intro b hb
  have hm : m < b := of_decide_eq_true (List.mem_filter.mp hb).2
  exact ((List.filter_sublist).count_le b).trans (h b hm)

/-- The last stamp may go where it is not needed, or there once more. -/
theorem count_le_dropLast {needed stamps : List ℤ} {b : ℤ} (hle : needed.count b ≤ stamps.count b)
    (hspare : b ∈ stamps.getLast? → needed.count b < stamps.count b) :
    needed.count b ≤ stamps.dropLast.count b := by
  cases hlast : stamps.getLast? with
  | none =>
    rw [List.getLast?_eq_none_iff.mp hlast] at hle ⊢
    exact hle
  | some newest =>
    have hsplit : stamps.dropLast ++ [newest] = stamps := List.dropLast_append_getLast? newest hlast
    rw [← hsplit, List.count_append, List.count_singleton] at hle
    by_cases hbn : newest = b
    · subst hbn
      have hlt := hspare hlast
      rw [← hsplit, List.count_append, List.count_singleton, if_pos (beq_self_eq_true _)] at hlt
      omega
    · rw [if_neg (by simpa using hbn), add_zero] at hle
      exact hle

end Lists

/-! ## The invariant -/

/-- The stamps of all requests that need them are there, as long as they count. -/
structure Covered (spec : LayerSpec κ) (L : ℕ) (o : WindowOptions) (cap : ℕ) (now : ℤ)
    (s : TimedAll τ κ) : Prop where
  sliding : ∃ table, s.run.composed.inner.watched = .sliding o table
  length_asked : s.asked.length = s.run.requests.length
  options : ∀ req ∈ s.run.requests, req.options.sanitizedCost = 1 ∧
    o.cap (spec.incrementOptions req.options).maxRequests = cap
  refused : ∀ req ∈ s.run.requests, ∀ settled result layers,
    req.phase = .rollingBack settled result layers → result.isBlocked = true
  past : ∀ k, ∀ b ∈ s.needed spec L k, b ≤ now
  noWall : ∀ k, s.needed spec L k ≠ [] → ∀ table,
    s.run.composed.inner.watched = .sliding o table →
      ∀ e ∈ table.state.lookup k, e.wallExpiresAt = none
  cover : ∀ k b, now - o.windowMs < b →
    (s.needed spec L k).count b ≤ (s.stamps k).count b
  bound : ∀ k (t : ℤ), (s.needed spec L k).countP (fun b => decide (t - o.windowMs < b ∧ b ≤ t)) ≤ cap

namespace Covered

variable {spec : LayerSpec κ} {L : ℕ} {o : WindowOptions} {cap : ℕ} {now t : ℤ}
  {s s' : TimedAll τ κ}

/-- What is covered now is covered later. -/
theorem mono (h : Covered spec L o cap t s) (ht : t ≤ now) : Covered spec L o cap now s where
  sliding := h.sliding
  length_asked := h.length_asked
  options := h.options
  refused := h.refused
  past := fun k b hb => (h.past k b hb).trans ht
  noWall := h.noWall
  cover := fun k b hb => h.cover k b (by omega)
  bound := h.bound

/-- Nothing more is needed, and the watched store is as it was. -/
theorem of_sublist (h : Covered spec L o cap now s)
    (hwatched : s'.run.composed.inner.watched = s.run.composed.inner.watched)
    (hlength : s'.asked.length = s'.run.requests.length)
    (hoptions : ∀ req ∈ s'.run.requests, req.options.sanitizedCost = 1 ∧
      o.cap (spec.incrementOptions req.options).maxRequests = cap)
    (hrefused : ∀ req ∈ s'.run.requests, ∀ settled result layers,
      req.phase = .rollingBack settled result layers → result.isBlocked = true)
    (hsub : ∀ k, (s'.needed spec L k).Sublist (s.needed spec L k)) :
    Covered spec L o cap now s' where
  sliding := by
    rw [hwatched]
    exact h.sliding
  length_asked := hlength
  options := hoptions
  refused := hrefused
  past := fun k b hb => h.past k b ((hsub k).subset hb)
  noWall := by
    intro k hne table htable
    rw [hwatched] at htable
    refine h.noWall k (fun hnil => hne ?_) table htable
    have hk := hsub k
    rw [hnil] at hk
    exact List.sublist_nil.mp hk
  cover := by
    intro k b hb
    have hstamps : s'.stamps k = s.stamps k := by rw [TimedAll.stamps, TimedAll.stamps, hwatched]
    rw [hstamps]
    exact ((hsub k).count_le b).trans (h.cover k b hb)
  bound := fun k u => ((hsub k).countP_le).trans (h.bound k u)

/-- Request `n` moves on, and needs what it needed or nothing. -/
theorem move (h : Covered spec L o cap now s) {n : ℕ} {key : κ}
    {options : RateLimitIncrementOptions} {phase : AllPhase}
    (hreq : s.run.requests[n]? = some ⟨key, options, phase⟩) (phase' : AllPhase)
    (hwatched : s'.run.composed.inner.watched = s.run.composed.inner.watched)
    (hrequests : s'.run.requests = s.run.requests.set n ⟨key, options, phase'⟩)
    (hasked : s'.asked = s.asked)
    (hneeds : phase'.needs L = true → phase.needs L = true)
    (hrefused : ∀ settled result layers, phase' = .rollingBack settled result layers →
      result.isBlocked = true) :
    Covered spec L o cap now s' := by
  have hmem := List.mem_of_getElem? hreq
  refine h.of_sublist hwatched ?_ ?_ ?_ ?_
  · rw [hasked, hrequests, List.length_set]
    exact h.length_asked
  · intro req hr
    rw [hrequests] at hr
    rcases List.mem_or_eq_of_mem_set hr with hr | rfl
    · exact h.options req hr
    · exact h.options ⟨key, options, phase⟩ hmem
  · intro req hr
    rw [hrequests] at hr
    rcases List.mem_or_eq_of_mem_set hr with hr | rfl
    · exact h.refused req hr
    · exact hrefused
  · intro k
    unfold TimedAll.needed
    rw [hrequests, hasked]
    apply filterMap_zip_set_sublist hreq
    intro b
    unfold neededAt
    by_cases hk : spec.storageKey key = k ∧ phase'.needs L = true
    · exact Or.inl (by rw [if_pos hk, if_pos ⟨hk.1, hneeds hk.2⟩])
    · exact Or.inr (if_neg hk)

/-- A new request needs nothing. -/
theorem call (h : Covered spec L o cap now s) {key : κ} {options : RateLimitIncrementOptions}
    (hoptions : options.sanitizedCost = 1 ∧
      o.cap (spec.incrementOptions options).maxRequests = cap)
    (hwatched : s'.run.composed.inner.watched = s.run.composed.inner.watched)
    (hrequests : s'.run.requests = s.run.requests ++ [⟨key, options, .asking fun _ => none⟩])
    (hasked : s'.asked = s.asked ++ [none]) : Covered spec L o cap now s' := by
  refine h.of_sublist hwatched ?_ ?_ ?_ ?_
  · rw [hasked, hrequests, List.length_append, List.length_append, h.length_asked]
    rfl
  · intro req hr
    rw [hrequests] at hr
    rcases List.mem_append.mp hr with hr | hr
    · exact h.options req hr
    · rw [List.mem_singleton.mp hr]
      exact hoptions
  · intro req hr
    rw [hrequests] at hr
    rcases List.mem_append.mp hr with hr | hr
    · exact h.refused req hr
    · rw [List.mem_singleton.mp hr]
      simp
  · intro k
    unfold TimedAll.needed
    rw [hrequests, hasked, List.zip_append h.length_asked.symm, List.filterMap_append]
    simp [neededAt, AllPhase.needs]

/-- What the watched store holds after an increment, and whether it allows. -/
theorem increment_spec {m : MemoryStore κ} {table : KeyTable κ SlidingKeyState} (now : ℤ)
    (hm : m = .sliding o table) {k₀ : κ} (hfits : m.Fits k₀) {options : RateLimitIncrementOptions}
    (hcost : options.sanitizedCost = 1) (hcap : o.cap options.maxRequests = cap) :
    ∃ table', (m.increment now k₀ options).1 = .sliding o table' ∧
      (∀ k, k ≠ k₀ → table'.state.lookup k = table.state.lookup k) ∧
      table'.state.lookup k₀ =
        some ⟨liveStamps o now (stampsOf (unexpired now (table.state.lookup k₀))) ++ [now], none⟩ ∧
      ((m.increment now k₀ options).2.isBlocked = false →
        (liveStamps o now (stampsOf (unexpired now (table.state.lookup k₀)))).length + 1 ≤ cap) := by
  have hcell := fun k => @MemoryStore.cell_increment_fits _ _ m now k₀ hfits options k
  have hanswer := @MemoryStore.increment_snd_cleared _ _ m now k₀ options
  subst hm
  refine ⟨_, rfl, ?_, ?_, ?_⟩
  · intro k hk
    have hother := hcell k
    rw [if_neg hk] at hother
    exact (Cell.sliding.inj hother).2
  · have hself := hcell k₀
    rw [if_pos rfl] at hself
    simp only [MemoryStore.cell, Cell.clearWall, Cell.increment, hcost, List.replicate_one] at hself
    exact (Cell.sliding.inj hself).2
  · intro hallowed
    rw [hanswer] at hallowed
    simp only [MemoryStore.cell, Cell.clearWall, Cell.increment, hcost, hcap,
      RateLimitResult.isBlocked_ofUsage, decide_eq_false_iff_not, List.length_append,
      List.length_replicate] at hallowed
    omega

/-- What an increment under `k₀` does to the watched window and to what is needed: `live` are the
stamps inside the window before it. -/
structure TakesHit (spec : LayerSpec κ) (L : ℕ) (o : WindowOptions) (cap : ℕ) (now : ℤ) (k₀ : κ)
    (blocked : Bool) (live : List ℤ) (s s' : TimedAll τ κ) : Prop where
  stamps : ∀ k, s'.stamps k = if k = k₀ then live ++ [now] else s.stamps k
  count : ∀ k p, (s'.needed spec L k).countP p = (s.needed spec L k).countP p +
    (if k₀ = k ∧ blocked = false then [now] else []).countP p
  covered : ∀ b, now - o.windowMs < b → (s.needed spec L k₀).count b ≤ live.count b
  room : blocked = false → live.length + 1 ≤ cap

namespace TakesHit

variable {k₀ k : κ} {blocked : Bool} {live : List ℤ}

/-- Under another key the same is needed. -/
theorem kept (h : TakesHit spec L o cap now k₀ blocked live s s') (hk : k ≠ k₀) (p : ℤ → Bool) :
    (s'.needed spec L k).countP p = (s.needed spec L k).countP p := by
  rw [h.count, if_neg fun hand => hk hand.1.symm, List.countP_nil, add_zero]

/-- Nothing is needed of the future. -/
theorem past (h : TakesHit spec L o cap now k₀ blocked live s s')
    (hpast : ∀ b ∈ s.needed spec L k, b ≤ now) : ∀ b ∈ s'.needed spec L k, b ≤ now := by
  intro b hb
  have hpos := List.count_pos_iff.mpr hb
  rw [List.count, h.count] at hpos
  by_cases hold : b ∈ s.needed spec L k
  · exact hpast b hold
  · have hzero : (s.needed spec L k).countP (fun x => x == b) = 0 := List.count_eq_zero.mpr hold
    rw [hzero, zero_add] at hpos
    split at hpos
    · obtain ⟨x, hx, hxb⟩ := List.countP_pos_iff.mp hpos
      rw [List.mem_singleton.mp hx] at hxb
      exact (eq_of_beq hxb).ge
    · simp at hpos

/-- What is needed is there. -/
theorem cover (h : TakesHit spec L o cap now k₀ blocked live s s')
    (hcover : ∀ b, now - o.windowMs < b → (s.needed spec L k).count b ≤ (s.stamps k).count b)
    {b : ℤ} (hb : now - o.windowMs < b) : (s'.needed spec L k).count b ≤ (s'.stamps k).count b := by
  rw [h.stamps]
  by_cases hk : k = k₀
  · rw [hk, if_pos rfl, List.count_append, List.count, h.count]
    have hle := h.covered b hb
    rw [List.count] at hle
    split
    · exact Nat.add_le_add_right hle _
    · rw [List.countP_nil, add_zero]
      exact hle.trans (Nat.le_add_right _ _)
  · rw [if_neg hk, List.count, h.kept hk]
    exact hcover b hb

/-- No window needs more than the cap. -/
theorem bound (h : TakesHit spec L o cap now k₀ blocked live s s') {u : ℤ}
    (hbound : (s.needed spec L k).countP (fun b => decide (u - o.windowMs < b ∧ b ≤ u)) ≤ cap) :
    (s'.needed spec L k).countP (fun b => decide (u - o.windowMs < b ∧ b ≤ u)) ≤ cap := by
  by_cases hnew : (k₀ = k ∧ blocked = false) ∧ u - o.windowMs < now ∧ now ≤ u
  · obtain ⟨⟨rfl, hallowed⟩, hlo, hhi⟩ := hnew
    have hbefore : (s.needed spec L k₀).countP
        (fun b => decide (u - o.windowMs < b ∧ b ≤ u)) ≤ live.length := by
      refine le_trans ?_ (length_filter_le_of_count h.covered)
      rw [← List.countP_eq_length_filter]
      apply List.countP_mono_left
      intro b hb hwindow
      have hwin := of_decide_eq_true hwindow
      exact decide_eq_true (by omega)
    rw [h.count, if_pos ⟨rfl, hallowed⟩, List.countP_singleton, if_pos (decide_eq_true ⟨hlo, hhi⟩)]
    have hroom := h.room hallowed
    omega
  · rw [h.count]
    have hzero : (if k₀ = k ∧ blocked = false then [now] else []).countP
        (fun b => decide (u - o.windowMs < b ∧ b ≤ u)) = 0 := by
      split
      · next hand =>
        rw [List.countP_singleton, if_neg]
        intro hwindow
        exact hnew ⟨hand, of_decide_eq_true hwindow⟩
      · rfl
    rw [hzero, add_zero]
    exact hbound

end TakesHit

/-- The watched layer takes the increment of a request. -/
theorem takesHit (h : Covered spec L o cap now s) {n : ℕ} {key : κ}
    {options : RateLimitIncrementOptions}
    {answers : ℕ → Option (Except StoreError RateLimitResult)} {r : RateLimitResult}
    (hreq : s.run.requests[n]? = some ⟨key, options, .asking answers⟩) (hnone : answers L = none)
    (hrequests : s'.run.requests = s.run.requests.set n
      ⟨key, options, .asking (Function.update answers L (some (.ok r)))⟩)
    (hasked : s'.asked = s.asked.set n (some now)) {table table' : KeyTable κ SlidingKeyState}
    (htable : s.run.composed.inner.watched = .sliding o table)
    (htable' : s'.run.composed.inner.watched = .sliding o table') {live : List ℤ}
    (hlive : live =
      liveStamps o now (stampsOf (unexpired now (table.state.lookup (spec.storageKey key)))))
    (hother : ∀ k, k ≠ spec.storageKey key → table'.state.lookup k = table.state.lookup k)
    (hself : table'.state.lookup (spec.storageKey key) = some ⟨live ++ [now], none⟩)
    (hallows : r.isBlocked = false → live.length + 1 ≤ cap) :
    TakesHit spec L o cap now (spec.storageKey key) r.isBlocked live s s' where
  stamps := by
    intro k
    simp only [TimedAll.stamps, htable', htable, MemoryStore.cell]
    split
    · next hk => rw [hk, hself, stampsOf_some]
    · next hk => rw [hother k hk]
  count := by
    intro k p
    -- what is needed grows by the new stamp where the layer allows
    obtain ⟨z, hz⟩ : ∃ z, s.asked[n]? = some z := by
      refine ⟨_, List.getElem?_eq_getElem ?_⟩
      rw [h.length_asked]
      exact (List.getElem?_eq_some_iff.mp hreq).1
    unfold TimedAll.needed
    rw [hrequests, hasked, countP_filterMap_zip_set hreq hz
      (by simp [neededAt, AllPhase.needs, hnone])]
    congr 2
    simp only [neededAt, AllPhase.needs, Function.update_self, Option.any_some, allows,
      Bool.not_eq_true']
    split <;> rfl
  covered := by
    intro b hb
    by_cases hnil : s.needed spec L (spec.storageKey key) = []
    · rw [hnil]
      exact Nat.zero_le _
    · have hsame : live = (s.stamps (spec.storageKey key)).filter
          fun ts => decide (now - o.windowMs < ts) := by
        have hunexpired := unexpired_of_none now (h.noWall _ hnil table htable)
        simp only [hlive, hunexpired, TimedAll.stamps, htable, MemoryStore.cell]
        rfl
      have hfilter := @List.count_filter _ _ _ (fun ts => decide (now - o.windowMs < ts)) b
        (s.stamps (spec.storageKey key)) (decide_eq_true hb)
      rw [hsame, hfilter]
      exact h.cover _ b hb
  room := hallows

/-- After it the requests are covered. -/
theorem ask (h : Covered spec L o cap now s) {n : ℕ} {key : κ}
    {options : RateLimitIncrementOptions}
    {answers : ℕ → Option (Except StoreError RateLimitResult)}
    (hreq : s.run.requests[n]? = some ⟨key, options, .asking answers⟩) (hnone : answers L = none)
    (hfits : s.run.composed.inner.watched.Fits (spec.storageKey key))
    (hwatched : s'.run.composed.inner.watched = (s.run.composed.inner.watched.increment now
      (spec.storageKey key) (spec.incrementOptions options)).1)
    (hrequests : s'.run.requests = s.run.requests.set n ⟨key, options,
      .asking (Function.update answers L (some (.ok (s.run.composed.inner.watched.increment now
        (spec.storageKey key) (spec.incrementOptions options)).2)))⟩)
    (hasked : s'.asked = s.asked.set n (some now)) : Covered spec L o cap now s' := by
  obtain ⟨hcost, hcap⟩ := h.options _ (List.mem_of_getElem? hreq)
  obtain ⟨table, htable⟩ := h.sliding
  obtain ⟨table', htable', hother, hself, hallows⟩ := increment_spec now htable hfits
    ((spec.sanitizedCost_incrementOptions options).trans hcost) hcap
  rw [← hwatched] at htable'
  have htakes := h.takesHit hreq hnone hrequests hasked htable htable' rfl hother hself hallows
  exact
    { sliding := ⟨table', htable'⟩
      length_asked := by
        rw [hasked, hrequests, List.length_set, List.length_set]
        exact h.length_asked
      options := by
        intro req hr
        rw [hrequests] at hr
        rcases List.mem_or_eq_of_mem_set hr with hr | rfl
        · exact h.options req hr
        · exact ⟨hcost, hcap⟩
      refused := by
        intro req hr
        rw [hrequests] at hr
        rcases List.mem_or_eq_of_mem_set hr with hr | rfl
        · exact h.refused req hr
        · simp
      past := fun k => htakes.past (h.past k)
      noWall := by
        intro k hne table'' htable'' e he
        obtain rfl : table'' = table' :=
          (MemoryStore.sliding.inj (htable''.symm.trans htable')).2
        by_cases hk : k = spec.storageKey key
        · rw [hk, hself] at he
          obtain rfl := Option.some.inj he
          rfl
        · rw [hother k hk] at he
          refine h.noWall k (fun hnil => hne ?_) table htable e he
          have hlength := htakes.kept hk fun _ => true
          simp only [List.countP_true, hnil] at hlength
          exact List.length_eq_zero_iff.mp hlength
      cover := fun k b hb => htakes.cover (h.cover k) hb
      bound := fun k u => htakes.bound (h.bound k u) }

/-- The newest stamp under a key goes, which none needs or which is there once more. -/
theorem pop (h : Covered spec L o cap now s) {k₀ : κ} {dec : RateLimitDecrementOptions}
    (hnewest : dec.removeNewest = true) (hcost : dec.sanitizedCost = 1)
    (hspare : ∀ b ∈ (s.stamps k₀).getLast?, now - o.windowMs < b →
      (s.needed spec L k₀).count b < (s.stamps k₀).count b)
    (hwatched : s'.run.composed.inner.watched = s.run.composed.inner.watched.decrement k₀ dec)
    (hrequests : s'.run.requests = s.run.requests) (hasked : s'.asked = s.asked) :
    Covered spec L o cap now s' := by
  obtain ⟨table, htable⟩ := h.sliding
  have hcell : ∀ k, s'.run.composed.inner.watched.cell k = if k = k₀ then
      .sliding o (slidingAfterDecrement (fun stamps => stamps.take (stamps.length - 1))
        (table.state.lookup k₀)) else .sliding o (table.state.lookup k) := by
    intro k
    rw [hwatched, htable, MemoryStore.cell_decrement]
    simp only [MemoryStore.cell, Cell.decrement, hnewest, hcost, if_true]
  obtain ⟨table', htable'⟩ : ∃ table', s'.run.composed.inner.watched = .sliding o table' := by
    rw [hwatched, htable, MemoryStore.decrement, hnewest]
    exact ⟨_, rfl⟩
  have hneeded : ∀ k, s'.needed spec L k = s.needed spec L k := by
    intro k
    rw [TimedAll.needed, TimedAll.needed, hrequests, hasked]
  have hstamps : ∀ k, s'.stamps k = if k = k₀ then (s.stamps k₀).dropLast else s.stamps k := by
    intro k
    have hbefore : ∀ k, s.stamps k = stampsOf (table.state.lookup k) := by
      intro k
      simp only [TimedAll.stamps, htable, MemoryStore.cell]
    simp only [TimedAll.stamps, hcell] at hbefore ⊢
    by_cases hk : k = k₀
    · rw [if_pos hk, if_pos hk, hbefore, List.dropLast_eq_take]
      exact stampsOf_slidingAfterDecrement (by simp) _
    · rw [if_neg hk, if_neg hk, hbefore]
  exact
    { sliding := ⟨table', htable'⟩
      length_asked := by
        rw [hrequests, hasked]
        exact h.length_asked
      options := by
        rw [hrequests]
        exact h.options
      refused := by
        rw [hrequests]
        exact h.refused
      past := by
        intro k b hb
        rw [hneeded] at hb
        exact h.past k b hb
      noWall := by
        intro k hne table'' htable'' e he
        rw [hneeded] at hne
        have hlookup := hcell k
        rw [htable'', MemoryStore.cell] at hlookup
        split at hlookup
        · next hk =>
          rw [(Cell.sliding.inj hlookup).2, ← hk] at he
          exact wall_slidingAfterDecrement _ (h.noWall k hne table htable) e he
        · rw [(Cell.sliding.inj hlookup).2] at he
          exact h.noWall k hne table htable e he
      cover := by
        intro k b hb
        rw [hneeded, hstamps]
        by_cases hk : k = k₀
        · subst hk
          rw [if_pos rfl]
          exact count_le_dropLast (h.cover k b hb) fun hlast => hspare b hlast hb
        · rw [if_neg hk]
          exact h.cover k b hb
      bound := by
        intro k u
        rw [hneeded]
        exact h.bound k u }

/-- Only the watched store, the requests and what was asked of it matter. -/
theorem congr (h : Covered spec L o cap now s)
    (hwatched : s'.run.composed.inner.watched = s.run.composed.inner.watched)
    (hrequests : s'.run.requests = s.run.requests) (hasked : s'.asked = s.asked) :
    Covered spec L o cap now s' := by
  refine h.of_sublist hwatched ?_ ?_ ?_ ?_
  · rw [hrequests, hasked]
    exact h.length_asked
  · rw [hrequests]
    exact h.options
  · rw [hrequests]
    exact h.refused
  · intro k
    rw [TimedAll.needed, TimedAll.needed, hrequests, hasked]

/-- A layer that answered in time, and did not make the request be refused, allowed it. -/
theorem needs_of_settled {answers : ℕ → Option (Except StoreError RateLimitResult)} {n : ℕ}
    {settled : List (Except StoreError RateLimitResult)} (hgather : gather answers n = some settled)
    (hL : L < n) (hrefused : isRefused settled = false) :
    (AllPhase.asking answers).needs L = true := by
  have hget := getElem?_gather hgather hL
  obtain ⟨r, hr⟩ : ∃ r, settled[L]? = some r := by
    refine ⟨_, List.getElem?_eq_getElem ?_⟩
    rw [length_gather hgather]
    exact hL
  obtain ⟨hnorejection, hnoblock⟩ := Bool.or_eq_false_iff.mp hrefused
  have hmem := List.mem_of_getElem? hr
  have hok := List.any_eq_false.mp hnorejection r hmem
  have hopen := List.any_eq_false.mp hnoblock r hmem
  rw [AllPhase.needs, ← hget, hr, Option.any_some]
  cases r with
  | error e => simp [isRejected] at hok
  | ok r => simpa [blocks, allows] using hopen

/-! ### One event -/

section Events

variable {c : ComposedStore (Beside τ κ) κ} {n j : ℕ} {key : κ}
  {options : RateLimitIncrementOptions}

/-- Another layer takes the increment of a request. -/
theorem askOther (h : Covered spec L o cap now s)
    {answers : ℕ → Option (Except StoreError RateLimitResult)}
    (hreq : s.run.requests[n]? = some ⟨key, options, .asking answers⟩) (hans : answers j = none)
    (hj : j ≠ L) {layer : CompositionLayer (Beside τ κ) κ} (hother : c.layers[j]? = some layer)
    (hleaves : LeavesWatched layer.store) :
    Covered spec L o cap now (s.step c L ⟨now, .ask n j⟩).1 := by
  set r := layer.store.increment (layer.layerKey key) (mergeIncOpts layer options)
    { s.run.composed.inner with now } with hr
  have hrun : c.allEvent (.ask n j) { s.run with
      composed := { s.run.composed with
        inner := { s.run.composed.inner with now } } } =
      ⟨{ s.run.composed with inner := r.2 }, s.run.requests.set n ⟨key, options,
        .asking (Function.update answers j (some r.1))⟩⟩ := by
    simp only [ComposedStore.allEvent, hreq, hother, hans, Option.isSome_none,
      Bool.false_eq_true, if_false, ← hr]
  apply h.move hreq (.asking (Function.update answers j (some r.1)))
  · rw [TimedAll.step, hrun]
    exact hleaves.increment _ _ _
  · rw [TimedAll.step, hrun]
  · simp only [TimedAll.step, hj, false_and, if_false]
  · intro hneeds
    rwa [AllPhase.needs, Function.update_of_ne (Ne.symm hj)] at hneeds
  · simp

/-- A layer that has the request still to ask takes its increment; any other does nothing. -/
theorem step_ask (h : Covered spec L o cap now s) (hlayer : c.layers[L]? = some spec.watched)
    (hothers : ∀ j layer, j ≠ L → c.layers[j]? = some layer → LeavesWatched layer.store)
    (hspares : s.SparesOthers spec L o ⟨now, .ask n j⟩) :
    Covered spec L o cap now (s.step c L ⟨now, .ask n j⟩).1 := by
  cases hreq : s.run.requests[n]? with
  | none =>
    have hasks : s.asks n j = false := by simp only [TimedAll.asks, hreq]
    apply h.congr <;> simp [TimedAll.step, ComposedStore.allEvent, hreq, hasks]
  | some req =>
    obtain ⟨key, options, phase⟩ := req
    cases phase with
    | rollingBack settled result layers =>
      have hasks : s.asks n j = false := by simp only [TimedAll.asks, hreq]
      apply h.congr <;> simp [TimedAll.step, ComposedStore.allEvent, hreq, hasks]
    | answered settled result =>
      have hasks : s.asks n j = false := by simp only [TimedAll.asks, hreq]
      apply h.congr <;> simp [TimedAll.step, ComposedStore.allEvent, hreq, hasks]
    | asking answers =>
      cases hans : answers j with
      | some r =>
        have hasks : s.asks n j = false := by
          simp only [TimedAll.asks, hreq, hans, Option.isNone_some]
        have hrun : c.allEvent (.ask n j) { s.run with
            composed := { s.run.composed with
              inner := { s.run.composed.inner with now } } } = { s.run with
            composed := { s.run.composed with
              inner := { s.run.composed.inner with now } } } := by
          simp only [ComposedStore.allEvent, hreq]
          cases c.layers[j]? <;> simp [hans]
        apply h.congr <;> simp [TimedAll.step, hrun, hasks]
      | none =>
        have hasks : s.asks n j = true := by
          simp only [TimedAll.asks, hreq, hans, Option.isNone_none]
        by_cases hj : j = L
        · subst hj
          refine h.ask hreq hans (hspares rfl _ hreq) ?_ ?_ ?_ <;>
            simp only [TimedAll.step, ComposedStore.allEvent, hreq, hlayer, hans, hasks,
              Option.isSome_none, Bool.false_eq_true, if_false, and_self, if_true] <;> rfl
        · cases hother : c.layers[j]? with
          | none =>
            apply h.congr <;> simp [TimedAll.step, ComposedStore.allEvent, hreq, hother, hj]
          | some layer => exact h.askOther hreq hans hj hother (hothers j layer hj hother)

/-- Once all layers have answered, a request is answered or goes on to be rolled back. -/
theorem step_settle (h : Covered spec L o cap now s) (hL : L < c.layers.length) :
    Covered spec L o cap now (s.step c L ⟨now, .settle n⟩).1 := by
  cases hreq : s.run.requests[n]? with
  | none => apply h.congr <;> simp [TimedAll.step, ComposedStore.allEvent, hreq]
  | some req =>
    obtain ⟨key, options, phase⟩ := req
    cases phase with
    | rollingBack settled result layers =>
      apply h.congr <;> simp [TimedAll.step, ComposedStore.allEvent, hreq]
    | answered settled result =>
      apply h.congr <;> simp [TimedAll.step, ComposedStore.allEvent, hreq]
    | asking answers =>
      cases hgather : gather answers c.layers.length with
      | none => apply h.congr <;> simp [TimedAll.step, ComposedStore.allEvent, hreq, hgather]
      | some settled =>
        cases hrefused : isRefused settled with
        | true =>
          apply h.move hreq (.rollingBack settled (c.blockedAll
            (c.clock { s.run.composed.inner with now }) settled)
            (if c.rollbackOnBlock then allowedLayers settled else []))
          · simp only [TimedAll.step, ComposedStore.allEvent, hreq, hgather, hrefused, if_true]
          · simp only [TimedAll.step, ComposedStore.allEvent, hreq, hgather, hrefused, if_true]
          · rfl
          · simp [AllPhase.needs]
          · rintro _ _ _ ⟨⟩
            rfl
        | false =>
          apply h.move hreq (.answered settled (c.allowedAll
            (c.clock { s.run.composed.inner with now }) settled))
          · simp only [TimedAll.step, ComposedStore.allEvent, hreq, hgather, hrefused,
              Bool.false_eq_true, if_false, ComposedStore.pushFrame]
          · simp only [TimedAll.step, ComposedStore.allEvent, hreq, hgather, hrefused,
              Bool.false_eq_true, if_false]
          · rfl
          · exact fun _ => needs_of_settled hgather hL hrefused
          · simp

/-- The next layer of a rollback takes the hit of the request back. -/
theorem rollLayer (h : Covered spec L o cap now s) (hlayer : c.layers[L]? = some spec.watched)
    (hothers : ∀ j layer, j ≠ L → c.layers[j]? = some layer → LeavesWatched layer.store)
    {settled : List (Except StoreError RateLimitResult)} {result : RateLimitResult}
    {rest : List ℕ}
    (hreq : s.run.requests[n]? = some ⟨key, options, .rollingBack settled result (j :: rest)⟩)
    {layer : CompositionLayer (Beside τ κ) κ} (hother : c.layers[j]? = some layer)
    (hspare : (AllPhase.rollingBack settled result (j :: rest)).rollsBack L = true →
      ∀ b ∈ (s.stamps (spec.storageKey key)).getLast?, now - o.windowMs < b →
        (s.needed spec L (spec.storageKey key)).count b <
          (s.stamps (spec.storageKey key)).count b) :
    Covered spec L o cap now (s.step c L ⟨now, .rollback n⟩).1 := by
  have hmem := List.mem_of_getElem? hreq
  have hresult := h.refused _ hmem settled result (j :: rest) rfl
  by_cases hj : j = L
  · subst hj
    obtain rfl := Option.some.inj (hother.symm.trans hlayer)
    -- first the stamp goes, then the request moves on
    have hpop : Covered spec j o cap now ⟨⟨{ s.run.composed with
        inner := { s.run.composed.inner with
          watched := s.run.composed.inner.watched.decrement (spec.storageKey key)
            (spec.rollbackOptions options) } }, s.run.requests⟩, s.asked⟩ := by
      refine h.pop rfl ?_ (hspare (decide_eq_true rfl)) rfl rfl rfl
      exact (sanitizedCost_matchingDecrementOptions _).trans (h.options _ hmem).1
    apply hpop.move hreq (.rollingBack settled result rest)
    · simp only [TimedAll.step, ComposedStore.allEvent, hreq, hother]
      rfl
    · simp only [TimedAll.step, ComposedStore.allEvent, hreq, hother]
    · rfl
    · simp [AllPhase.needs]
    · rintro _ _ _ ⟨⟩
      exact hresult
  · apply h.move hreq (.rollingBack settled result rest)
    · simp only [TimedAll.step, ComposedStore.allEvent, hreq, hother]
      exact (hothers j layer hj hother).decrement _ _ _
    · simp only [TimedAll.step, ComposedStore.allEvent, hreq, hother]
    · rfl
    · simp [AllPhase.needs]
    · rintro _ _ _ ⟨⟩
      exact hresult

/-- A rollback goes on with its next layer, or answers the request. -/
theorem step_rollback (h : Covered spec L o cap now s)
    (hlayer : c.layers[L]? = some spec.watched)
    (hothers : ∀ j layer, j ≠ L → c.layers[j]? = some layer → LeavesWatched layer.store)
    (hspares : s.SparesOthers spec L o ⟨now, .rollback n⟩) :
    Covered spec L o cap now (s.step c L ⟨now, .rollback n⟩).1 := by
  cases hreq : s.run.requests[n]? with
  | none => apply h.congr <;> simp [TimedAll.step, ComposedStore.allEvent, hreq]
  | some req =>
    obtain ⟨key, options, phase⟩ := req
    cases phase with
    | asking answers => apply h.congr <;> simp [TimedAll.step, ComposedStore.allEvent, hreq]
    | answered settled result =>
      apply h.congr <;> simp [TimedAll.step, ComposedStore.allEvent, hreq]
    | rollingBack settled result layers =>
      have hmem := List.mem_of_getElem? hreq
      cases layers with
      | nil =>
        apply h.move hreq (.answered settled result)
        · simp only [TimedAll.step, ComposedStore.allEvent, hreq]
        · simp only [TimedAll.step, ComposedStore.allEvent, hreq]
        · rfl
        · simp [AllPhase.needs, h.refused _ hmem settled result [] rfl]
        · simp
      | cons j rest =>
        cases hother : c.layers[j]? with
        | none => apply h.congr <;> simp [TimedAll.step, ComposedStore.allEvent, hreq, hother]
        | some layer =>
          exact h.rollLayer hlayer hothers hreq hother (hspares _ hreq)

end Events

/-- **Every event that takes no stamp from a request that needs it keeps them covered.** -/
theorem step {c : ComposedStore (Beside τ κ) κ} {i : Timed (AllEvent κ)}
    (h : Covered spec L o cap t s) (ht : t ≤ i.time) (hlayer : c.layers[L]? = some spec.watched)
    (hothers : ∀ j layer, j ≠ L → c.layers[j]? = some layer → LeavesWatched layer.store)
    (hcall : ∀ options ∈ i.op.options?, options.sanitizedCost = 1 ∧
      o.cap (spec.incrementOptions options).maxRequests = cap)
    (hspares : s.SparesOthers spec L o i) : Covered spec L o cap i.time (s.step c L i).1 := by
  replace h := h.mono ht
  obtain ⟨now, ev⟩ := i
  cases ev with
  | call key options => exact h.call (hcall options rfl) rfl rfl rfl
  | ask n j => exact h.step_ask hlayer hothers hspares
  | settle n => exact h.step_settle (List.getElem?_eq_some_iff.mp hlayer).1
  | rollback n => exact h.step_rollback hlayer hothers hspares

/-- Covered requests are within the cap. -/
theorem withinCap (h : Covered spec L o cap now s) : s.WithinCap spec o cap := by
  intro k u
  refine le_trans ?_ (h.bound k u)
  apply countP_le_countP_filterMap
  rintro ⟨req, a⟩ - hadmitted
  simp only [Bool.and_eq_true, decide_eq_true_eq] at hadmitted
  obtain ⟨⟨hkey, hallowed⟩, hwindow⟩ := hadmitted
  have hneeds : req.phase.needs L = true := by
    obtain ⟨key, options, phase⟩ := req
    cases phase with
    | asking answers => simp [AllPhase.isAllowed] at hallowed
    | rollingBack settled result layers => simp [AllPhase.isAllowed] at hallowed
    | answered settled result => exact hallowed
  cases a with
  | none => simp at hwindow
  | some b => exact ⟨b, if_pos ⟨hkey, hneeds⟩, hwindow⟩

end Covered

/-- **A sliding layer holds its cap under overlapping increments of mode `all`**, in every
state of every run, as long as no event takes a stamp from a request that needs it.  The
requests cost one and have the cap `cap` at this layer; the other layers are any stores.
SOURCE: src/composition/ComposedStore.ts:307-321, 404-496, src/stores/memory-store.ts:795-865 -/
theorem sliding_within_cap (c : ComposedStore (Beside τ κ) κ) (L : ℕ) (spec : LayerSpec κ)
    (hlayer : c.layers[L]? = some spec.watched)
    (hothers : ∀ j layer, j ≠ L → c.layers[j]? = some layer → LeavesWatched layer.store)
    (o : WindowOptions) (table : KeyTable κ SlidingKeyState) (st : ComposedState (Beside τ κ) κ)
    (hwatched : st.inner.watched = .sliding o table) (cap : ℕ) (t : ℤ)
    (is : List (Timed (AllEvent κ))) (hord : OrderedFrom Timed.time t is)
    (hcalls : ∀ i ∈ is, ∀ options ∈ i.op.options?, options.sanitizedCost = 1 ∧
      o.cap (spec.incrementOptions options).maxRequests = cap)
    (hspares : Guarded (TimedAll.SparesOthers spec L o) (TimedAll.step c L) is ⟨⟨st, []⟩, []⟩)
    (p rest : List (Timed (AllEvent κ))) (hp : is = p ++ rest) :
    (final (TimedAll.step c L) p ⟨⟨st, []⟩, []⟩).WithinCap spec o cap := by
  subst hp
  have hstart : Covered spec L o cap t (⟨⟨st, []⟩, []⟩ : TimedAll τ κ) :=
    { sliding := ⟨table, hwatched⟩
      length_asked := rfl
      options := by simp
      refused := by simp
      past := by simp [TimedAll.needed]
      noWall := by simp [TimedAll.needed]
      cover := by simp [TimedAll.needed]
      bound := by simp [TimedAll.needed] }
  have hstep : ∀ (t : ℤ) (s : TimedAll τ κ) (i : Timed (AllEvent κ)), Covered spec L o cap t s →
      t ≤ i.time → (s.SparesOthers spec L o i ∧ ∀ options ∈ i.op.options?,
        options.sanitizedCost = 1 ∧ o.cap (spec.incrementOptions options).maxRequests = cap) →
      Covered spec L o cap i.time (s.step c L i).1 :=
    fun t s i h ht hguard => h.step ht hlayer hothers hguard.2 hguard.1
  have hguarded := (guarded_append.mp hspares).1.and_mem
    fun i hi => hcalls i (List.mem_append_left rest hi)
  exact (final_inv hstep hstart (orderedFrom_append.mp hord).1 hguarded).withinCap

/-! ## A layer for all users, and one for each -/

/-- A store beside the watched one. -/
def restStore : RateLimitStore (Beside (MemoryStore κ) κ) κ where
  increment key options s :=
    let r := s.rest.increment s.now key options
    (.ok r.2, { s with rest := r.1 })
  decrement key options s := { s with rest := s.rest.decrement key options }

/-- A store beside the watched one leaves it alone. -/
theorem leavesWatched_restStore :
    LeavesWatched (restStore : RateLimitStore (Beside (MemoryStore κ) κ) κ) :=
  ⟨fun _ _ _ => rfl, fun _ _ _ => rfl⟩

/-- One key for all users. -/
def global : LayerSpec ℕ where
  label := "global"
  keyTransform := some fun _ => 0

/-- A layer for all users, and one for each of them. -/
def globalAndUser : ComposedStore (Beside (MemoryStore ℕ) ℕ) ℕ where
  mode := .all
  layers := [global.watched, ⟨"user", restStore, none, none⟩]
  burstKey := id
  clock := Beside.now
  settledFirst := fun _ => none
  layers_ne := List.cons_ne_nil _ _
  labels_nodup := by decide
  overflow_two := nofun

/-- Two a second for all, one a second for each user; user `7` has had it. -/
def userSpent : ComposedState (Beside (MemoryStore ℕ) ℕ) ℕ where
  inner :=
    { watched := .sliding twoASecond (KeyTable.new 0)
      now := 0
      rest := ((MemoryStore.fixed oneASecond (KeyTable.new 0)).increment 0 7 {}).1 }

/-- Request `n` asks both layers at `t`, and settles. -/
def asksBoth (n user : ℕ) (t : ℤ) : List (Timed (AllEvent ℕ)) :=
  [⟨t, .call user {}⟩, ⟨t, .ask n 0⟩, ⟨t, .ask n 1⟩, ⟨t, .settle n⟩]

/-- The second layer is beside the watched one. -/
theorem globalAndUser_others (j : ℕ) (layer : CompositionLayer (Beside (MemoryStore ℕ) ℕ) ℕ)
    (hj : j ≠ 0) (hlayer : globalAndUser.layers[j]? = some layer) : LeavesWatched layer.store := by
  match j with
  | 0 => exact absurd rfl hj
  | 1 =>
    obtain rfl := Option.some.inj hlayer
    exact leavesWatched_restStore
  | j + 2 => simp [globalAndUser] at hlayer

/-- User `7` is rolled back before user `8` comes: the cap holds for the two more that come
at `1005`. -/
theorem sliding_within_cap_prompt :
    (final (TimedAll.step globalAndUser 0)
      (asksBoth 0 7 0 ++ [⟨0, .rollback 0⟩] ++ asksBoth 1 8 10 ++ asksBoth 2 9 1005 ++
        asksBoth 3 10 1005) ⟨⟨userSpent, []⟩, []⟩).WithinCap global twoASecond 2 :=
  sliding_within_cap globalAndUser 0 global rfl globalAndUser_others twoASecond (KeyTable.new 0)
    userSpent rfl 2 0 _ (by decide) (by decide) (by decide +kernel) _ [] (List.append_nil _).symm

/-- The global layer takes user `7` at `0` and user `8` at `10`; then user `7` is rolled back,
which takes the stamp of user `8`.  At `1005` the other one has expired, and two more are
allowed: three within a second. -/
theorem sliding_over_cap :
    ¬ ∀ (c : ComposedStore (Beside (MemoryStore ℕ) ℕ) ℕ) (L : ℕ) (spec : LayerSpec ℕ),
      c.layers[L]? = some spec.watched →
      (∀ j layer, j ≠ L → c.layers[j]? = some layer → LeavesWatched layer.store) →
      ∀ (o : WindowOptions) (st : ComposedState (Beside (MemoryStore ℕ) ℕ) ℕ),
      st.inner.watched = .sliding o (KeyTable.new 0) → ∀ (cap : ℕ) (t : ℤ)
      (is : List (Timed (AllEvent ℕ))), OrderedFrom Timed.time t is →
      (∀ i ∈ is, ∀ options ∈ i.op.options?, options.sanitizedCost = 1 ∧
        o.cap (spec.incrementOptions options).maxRequests = cap) →
      (final (TimedAll.step c L) is ⟨⟨st, []⟩, []⟩).WithinCap spec o cap := by
  intro h
  have hcap := h globalAndUser 0 global rfl globalAndUser_others twoASecond userSpent rfl 2 0
    ([⟨0, .call 7 {}⟩, ⟨0, .ask 0 0⟩] ++ asksBoth 1 8 10 ++
      [⟨20, .ask 0 1⟩, ⟨20, .settle 0⟩, ⟨20, .rollback 0⟩] ++ asksBoth 2 9 1005 ++
      asksBoth 3 10 1005) (by decide) (by decide) 0 1005
  revert hcap
  decide +kernel

end RatelimitFlex
