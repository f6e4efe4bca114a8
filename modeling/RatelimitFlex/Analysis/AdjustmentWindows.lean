import RatelimitFlex.Program.KeyManagerOps

/-!
# The points of a `KeyState` and the window they belong to

A penalty or a reward rolls the adjustment window of its key before it adds to it; the other
operations read the points as they were left.  So what is read is the points of the last
window that was opened (`WindowOf`), and the returned points are those of the current window
exactly when that one is not over (`points_current_iff`).
-/

set_option autoImplicit false

namespace RatelimitFlex

open Library

variable {κ : Type} [DecidableEq κ]

/-! ## Points and windows -/

/-- A penalty, or a reward. -/
structure PointEvent where
  time : ℤ
  isReward : Bool
  points : JsNumber

/-- A window that began at `start` is over at `now`. -/
def windowOver (o : KeyManagerOptions) (now start : ℤ) : Bool :=
  o.windowMs.le (JsNumber.ofInt (now - start))

/-- The window that an event at `time` falls into, after the one that began at `cur`. -/
def rollWindow (o : KeyManagerOptions) (time : ℤ) : Option ℤ → ℤ
  | none => time
  | some start => if windowOver o time start then time else start

/-- When the last window was opened: by the first event, or by the first at or after the end of
the one before. -/
def windowStart (o : KeyManagerOptions) (events : List PointEvent) : Option ℤ :=
  events.foldl (fun cur e => some (rollWindow o e.time cur)) none

/-- The points of one kind from `start` on. -/
def pointsFrom (start : ℤ) (isReward : Bool) (events : List PointEvent) : JsNumber :=
  ((events.filter fun e => decide (start ≤ e.time) && decide (e.isReward = isReward)).map
    PointEvent.points).foldl JsNumber.add 0

/-- The points of one kind in the window that contains `now`. -/
def currentPoints (o : KeyManagerOptions) (now : ℤ) (isReward : Bool)
    (events : List PointEvent) : JsNumber :=
  match windowStart o events with
  | none => 0
  | some start => if windowOver o now start then 0 else pointsFrom start isReward events

/-- The penalties and rewards of `k` after one more operation: none after its `delete`. -/
def eventsAfter (k : κ) (events : List PointEvent) (i : KeyManagerCallAt κ) : List PointEvent :=
  match i.op with
  | .penalty key points =>
    if key = k then events ++ [⟨i.started, false, KeyManager.pointsOf points⟩] else events
  | .reward key points =>
    if key = k then events ++ [⟨i.started, true, KeyManager.pointsOf points⟩] else events
  | .delete key => if key = k then [] else events
  | _ => events

/-- The penalties and rewards of `k` since its last `delete`. -/
def pointEvents (k : κ) (is : List (KeyManagerCallAt κ)) : List PointEvent :=
  is.foldl (eventsAfter k) []

/-- The points of a run, and of one call more. -/
theorem pointEvents_append (k : κ) (is : List (KeyManagerCallAt κ)) (i : KeyManagerCallAt κ) :
    pointEvents k (is ++ [i]) = eventsAfter k (pointEvents k is) i :=
  List.foldl_append

/-- The window that is current after one event more. -/
theorem windowStart_append (o : KeyManagerOptions) (events : List PointEvent) (e : PointEvent) :
    windowStart o (events ++ [e]) = some (rollWindow o e.time (windowStart o events)) :=
  List.foldl_append

/-- The points of a window after one event more. -/
theorem pointsFrom_append (start : ℤ) (isReward : Bool) (events : List PointEvent)
    (e : PointEvent) :
    pointsFrom start isReward (events ++ [e]) =
      if start ≤ e.time ∧ e.isReward = isReward then
        (pointsFrom start isReward events).add e.points
      else pointsFrom start isReward events := by
  unfold pointsFrom
  rw [List.filter_append]
  by_cases h : start ≤ e.time ∧ e.isReward = isReward
  · simp [h.1, h.2]
  · rw [if_neg h, List.filter_cons_of_neg (by simpa using h), List.filter_nil, List.append_nil]

/-- Points before a window are not in it. -/
theorem pointsFrom_eq_zero {start : ℤ} {isReward : Bool} {events : List PointEvent}
    (h : ∀ e ∈ events, e.time < start) : pointsFrom start isReward events = 0 := by
  have hnone : (events.filter fun e =>
      decide (start ≤ e.time) && decide (e.isReward = isReward)) = [] := by
    rw [List.filter_eq_nil_iff]
    intro e he
    have := h e he
    simp
    omega
  rw [pointsFrom, hnone]
  rfl

/-! ## Points add up to something -/

namespace JsNumber

/-- What `pointsOf` gives, and sums of it. -/
inductive IsPoints : JsNumber → Prop
  | nan : IsPoints .nan
  | posInfinity : IsPoints .posInfinity
  | finite (q : ℚ) (h : 1 ≤ q) : IsPoints (.finite q)

/-- An amount of points is not zero. -/
theorem IsPoints.ne_zero {x : JsNumber} (h : x.IsPoints) : x ≠ 0 := by
  cases h with
  | nan => exact fun h => JsNumber.noConfusion h
  | posInfinity => exact fun h => JsNumber.noConfusion h
  | finite q hq =>
    intro h
    have hzero : q = 0 := JsNumber.finite.inj h
    linarith

/-- What a call counts is an amount of points. -/
theorem isPoints_pointsOf (x : JsNumber) : (KeyManager.pointsOf x).IsPoints := by
  unfold KeyManager.pointsOf JsNumber.max
  cases x with
  | nan => exact .nan
  | posInfinity => exact .posInfinity
  | negInfinity => exact .finite 1 le_rfl
  | finite q =>
    have hfin : ¬ ((1 : JsNumber) = .nan ∨ (JsNumber.finite q).floor = .nan) := by
      rintro (h | h) <;> exact JsNumber.noConfusion h
    rw [if_neg hfin]
    split
    · next hle => exact .finite _ (of_decide_eq_true hle)
    · exact .finite 1 le_rfl

/-- Points that are added up are an amount of points. -/
theorem IsPoints.add {x y : JsNumber} (hx : x = 0 ∨ x.IsPoints) (hy : y.IsPoints) :
    (x.add y).IsPoints := by
  have hzero : ∃ q : ℚ, 0 ≤ q ∧ x = .finite q ∨ x = .nan ∨ x = .posInfinity := by
    rcases hx with rfl | hx
    · exact ⟨0, Or.inl ⟨le_rfl, rfl⟩⟩
    · cases hx with
      | nan => exact ⟨0, Or.inr (Or.inl rfl)⟩
      | posInfinity => exact ⟨0, Or.inr (Or.inr rfl)⟩
      | finite q hq => exact ⟨q, Or.inl ⟨by linarith, rfl⟩⟩
  obtain ⟨q, ⟨hq, rfl⟩ | rfl | rfl⟩ := hzero
  · cases hy with
    | nan => exact .nan
    | posInfinity => exact .posInfinity
    | finite r hr => exact .finite _ (by linarith)
  · exact .nan
  · cases hy with
    | nan => exact .nan
    | posInfinity => exact .posInfinity
    | finite r hr => exact .posInfinity

end JsNumber

/-- A sum of points is nothing only when there are none. -/
theorem pointsFrom_ne_zero {start : ℤ} {isReward : Bool} {events : List PointEvent}
    (hpoints : ∀ e ∈ events, e.points.IsPoints)
    (h : ∃ e ∈ events, start ≤ e.time ∧ e.isReward = isReward) :
    pointsFrom start isReward events ≠ 0 := by
  have hsum : ∀ (l : List JsNumber) (x : JsNumber), (∀ y ∈ l, y.IsPoints) → x.IsPoints →
      (l.foldl JsNumber.add x).IsPoints := by
    intro l
    induction l with
    | nil => exact fun x _ hx => hx
    | cons y l ih =>
      exact fun x hl hx => ih _ (fun z hz => hl z (List.mem_cons_of_mem y hz))
        (.add (Or.inr hx) (hl y List.mem_cons_self))
  obtain ⟨e, he, hstart, hkind⟩ := h
  have hmem : e.points ∈ (events.filter fun e =>
      decide (start ≤ e.time) && decide (e.isReward = isReward)).map PointEvent.points :=
    List.mem_map_of_mem (List.mem_filter.mpr ⟨he, by simp [hstart, hkind]⟩)
  have hall : ∀ y ∈ (events.filter fun e =>
      decide (start ≤ e.time) && decide (e.isReward = isReward)).map PointEvent.points,
      y.IsPoints := by
    intro y hy
    obtain ⟨e', he', rfl⟩ := List.mem_map.mp hy
    exact hpoints e' (List.mem_of_mem_filter he')
  refine JsNumber.IsPoints.ne_zero ?_
  unfold pointsFrom
  revert hmem hall
  generalize (events.filter fun e =>
    decide (start ≤ e.time) && decide (e.isReward = isReward)).map PointEvent.points = l
  intro hmem hall
  cases l with
  | nil => exact absurd hmem List.not_mem_nil
  | cons y l =>
    exact hsum l _ (fun z hz => hall z (List.mem_cons_of_mem y hz))
      (.add (Or.inl rfl) (hall y List.mem_cons_self))

/-! ## Windows and their points -/

section Window

variable {o : KeyManagerOptions} {t now : ℤ} {events : List PointEvent}

/-- Where a window began, and its points so far. -/
structure WindowPoints where
  start : ℤ
  penaltyPoints : JsNumber
  rewardPoints : JsNumber

/-- The points of one kind. -/
def WindowPoints.points (w : WindowPoints) (isReward : Bool) : JsNumber :=
  if isReward then w.rewardPoints else w.penaltyPoints

/-- The window that is open for an event at `now`. -/
def rolled (o : KeyManagerOptions) (now : ℤ) : Option WindowPoints → WindowPoints
  | none => ⟨now, 0, 0⟩
  | some w => if windowOver o now w.start then ⟨now, 0, 0⟩ else w

/-- The window with the points of an event. -/
def WindowPoints.add (w : WindowPoints) (isReward : Bool) (p : JsNumber) : WindowPoints :=
  if isReward then { w with rewardPoints := w.rewardPoints.add p }
  else { w with penaltyPoints := w.penaltyPoints.add p }

/-- The last window of the events up to `t`, and what fell into it. -/
structure WindowOf (o : KeyManagerOptions) (t : ℤ) (events : List PointEvent) (w : WindowPoints) :
    Prop where
  start_eq : windowStart o events = some w.start
  points_eq : ∀ isReward, w.points isReward = pointsFrom w.start isReward events
  past : ∀ e ∈ events, e.time ≤ t
  isPoints : ∀ e ∈ events, e.points.IsPoints
  within : ∀ e ∈ events, w.start ≤ e.time → windowOver o e.time w.start = false
  opened : ∃ e ∈ events, w.start ≤ e.time

/-- No events, or their last window. -/
def LastWindow (o : KeyManagerOptions) (t : ℤ) (events : List PointEvent) :
    Option WindowPoints → Prop
  | none => events = []
  | some w => WindowOf o t events w

/-- The last window stays the last as time passes. -/
theorem LastWindow.mono {w : Option WindowPoints} (h : LastWindow o t events w) (ht : t ≤ now) :
    LastWindow o now events w := by
  cases w with
  | none => exact h
  | some w => exact { h with past := fun e he => (h.past e he).trans ht }

/-- A window is not over when it begins. -/
theorem windowOver_self (hW : o.windowMs.IsPoints) (now : ℤ) : windowOver o now now = false := by
  unfold windowOver
  rw [sub_self]
  cases h : o.windowMs with
  | nan => rfl
  | posInfinity => rfl
  | negInfinity =>
    rw [h] at hW
    cases hW
  | finite q =>
    rw [h] at hW
    cases hW with
    | finite q hq =>
      refine decide_eq_false fun hle => ?_
      have hle : q ≤ ((0 : ℤ) : ℚ) := hle
      rw [Int.cast_zero] at hle
      linarith

/-- **An event opens a window or falls into the last one.** -/
theorem LastWindow.add (hW : o.windowMs.IsPoints) {w : Option WindowPoints}
    (h : LastWindow o t events w) (ht : t ≤ now) (isReward : Bool) {p : JsNumber}
    (hp : p.IsPoints) :
    WindowOf o now (events ++ [⟨now, isReward, p⟩]) ((rolled o now w).add isReward p) := by
  have hpast : (∀ e ∈ events, e.time ≤ t) →
      ∀ e ∈ events ++ [⟨now, isReward, p⟩], e.time ≤ now := by
    intro hold e he
    rcases List.mem_append.mp he with he | he
    · exact (hold e he).trans ht
    · rw [List.mem_singleton.mp he]
  have hpoints : (∀ e ∈ events, e.points.IsPoints) →
      ∀ e ∈ events ++ [⟨now, isReward, p⟩], e.points.IsPoints := by
    intro hold e he
    rcases List.mem_append.mp he with he | he
    · exact hold e he
    · rw [List.mem_singleton.mp he]
      exact hp
  have hadd : ∀ (w : WindowPoints), w.start ≤ now →
      (∀ kind, w.points kind = pointsFrom w.start kind events) →
      ∀ kind, (w.add isReward p).points kind =
        pointsFrom w.start kind (events ++ [⟨now, isReward, p⟩]) := by
    intro w hstart hw kind
    have hkind := hw kind
    rw [pointsFrom_append, ← hkind]
    cases isReward <;> cases kind <;> simp [WindowPoints.add, WindowPoints.points, hstart]
  have hstart_add : ∀ w : WindowPoints, (w.add isReward p).start = w.start := by
    intro w
    cases isReward <;> rfl
  have hnew : ∃ e ∈ events ++ [⟨now, isReward, p⟩], now ≤ e.time :=
    ⟨_, List.mem_append_right events (List.mem_singleton_self _), le_rfl⟩
  -- a window that opens now has only the new event
  have hopens : (∀ e ∈ events, e.time < now) → (∀ e ∈ events, e.points.IsPoints) →
      windowStart o (events ++ [⟨now, isReward, p⟩]) = some now →
      WindowOf o now (events ++ [⟨now, isReward, p⟩])
        ((⟨now, 0, 0⟩ : WindowPoints).add isReward p) := by
    intro hbefore hold hstart
    have hzero : ∀ kind, (⟨now, 0, 0⟩ : WindowPoints).points kind = pointsFrom now kind events := by
      intro kind
      rw [pointsFrom_eq_zero hbefore]
      cases kind <;> rfl
    refine
      { start_eq := by rw [hstart_add]; exact hstart
        points_eq := by rw [hstart_add]; exact hadd _ le_rfl hzero
        past := ?_
        isPoints := hpoints hold
        within := ?_
        opened := by rw [hstart_add]; exact hnew }
    · intro e he
      rcases List.mem_append.mp he with he | he
      · exact (hbefore e he).le
      · rw [List.mem_singleton.mp he]
    · rw [hstart_add]
      intro e he hle
      rcases List.mem_append.mp he with he | he
      · exact absurd (hbefore e he) (not_lt.mpr hle)
      · rw [List.mem_singleton.mp he]
        exact windowOver_self hW now
  cases w with
  | none =>
    obtain rfl : events = [] := h
    exact hopens (fun e he => absurd he List.not_mem_nil) (fun e he => absurd he List.not_mem_nil)
      rfl
  | some w =>
    have h : WindowOf o t events w := h
    have hstart : w.start ≤ now := by
      obtain ⟨e, he, hle⟩ := h.opened
      exact hle.trans ((h.past e he).trans ht)
    have hroll : windowStart o (events ++ [⟨now, isReward, p⟩]) =
        some (if windowOver o now w.start then now else w.start) := by
      rw [windowStart_append, h.start_eq]
      rfl
    cases hover : windowOver o now w.start with
    | true =>
      have hbefore : ∀ e ∈ events, e.time < now := by
        intro e he
        refine lt_of_le_of_ne ((h.past e he).trans ht) fun heq => ?_
        have hwithin := h.within e he (by rw [heq]; exact hstart)
        rw [heq, hover] at hwithin
        exact Bool.noConfusion hwithin
      simp only [rolled, hover, if_true]
      refine hopens hbefore h.isPoints ?_
      rw [hroll, hover]
      rfl
    | false =>
      simp only [rolled, hover]
      exact
        { start_eq := by
            rw [hstart_add, hroll, hover]
            rfl
          points_eq := by
            rw [hstart_add]
            exact hadd w hstart h.points_eq
          past := hpast h.past
          isPoints := hpoints h.isPoints
          within := by
            rw [hstart_add]
            intro e he hle
            rcases List.mem_append.mp he with he | he
            · exact h.within e he hle
            · rw [List.mem_singleton.mp he]
              exact hover
          opened := by
            rw [hstart_add]
            exact ⟨_, List.mem_append_right events (List.mem_singleton_self _), hstart⟩ }

/-- **The points of the last window are those of the current one** exactly when it is not
over. -/
theorem WindowOf.current_iff {w : WindowPoints} (h : WindowOf o t events w) (now : ℤ) :
    (w.penaltyPoints = currentPoints o now false events ∧
        w.rewardPoints = currentPoints o now true events) ↔ windowOver o now w.start = false := by
  have hpenalty : w.penaltyPoints = pointsFrom w.start false events := h.points_eq false
  have hreward : w.rewardPoints = pointsFrom w.start true events := h.points_eq true
  simp only [currentPoints, h.start_eq]
  cases hover : windowOver o now w.start with
  | false =>
    simp only [Bool.false_eq_true, if_false]
    exact iff_of_true ⟨hpenalty, hreward⟩ trivial
  | true =>
    simp only [if_true, Bool.true_eq_false, iff_false]
    rintro ⟨hp, hr⟩
    obtain ⟨e, he, hle⟩ := h.opened
    cases hkind : e.isReward with
    | false =>
      exact pointsFrom_ne_zero h.isPoints ⟨e, he, hle, hkind⟩ (hpenalty.symm.trans hp)
    | true =>
      exact pointsFrom_ne_zero h.isPoints ⟨e, he, hle, hkind⟩ (hreward.symm.trans hr)

end Window

/-! ## The entry of a key -/

/-- What an entry says of its window. -/
def KeyAdjustment.window (adj : KeyAdjustment) : WindowPoints where
  start := adj.windowStart
  penaltyPoints := adj.penaltyPoints
  rewardPoints := adj.rewardPoints

/-- A penalty counts as one in the window. -/
theorem window_penalty (adj : KeyAdjustment) (p : JsNumber) :
    ({ adj with penaltyPoints := adj.penaltyPoints.add p } : KeyAdjustment).window =
      adj.window.add false p := rfl

/-- A reward counts as one. -/
theorem window_reward (adj : KeyAdjustment) (p : JsNumber) :
    ({ adj with rewardPoints := adj.rewardPoints.add p } : KeyAdjustment).window =
      adj.window.add true p := rfl

/-- The entry of `k` holds `w`, and is one of the objects made for `k`. -/
def StoresPoints (k : κ) (km : KeyManager κ) : Option WindowPoints → Prop
  | none => km.adjustments k = none
  | some w => ∃ r adj, km.adjustments k = some r ∧ (km.objects k)[r]? = some adj ∧ adj.window = w

/-- A state with the points of `w`. -/
structure HasPoints (st : KeyState κ) (w : Option WindowPoints) : Prop where
  penaltyPoints_eq : st.penaltyPoints = (w.map WindowPoints.penaltyPoints).getD 0
  rewardPoints_eq : st.rewardPoints = (w.map WindowPoints.rewardPoints).getD 0

section Entry

variable {k key : κ} {km km' : KeyManager κ} {w : Option WindowPoints}

omit [DecidableEq κ] in
/-- The points of a key are those of its adjustment object. -/
theorem StoresPoints.of_eq (h : StoresPoints k km w) (ha : km'.adjustments k = km.adjustments k)
    (ho : km'.objects k = km.objects k) : StoresPoints k km' w := by
  cases w with
  | none => exact ha.trans h
  | some w =>
    obtain ⟨r, adj, hr, hadj, hw⟩ := h
    exact ⟨r, adj, ha.trans hr, by rw [ho]; exact hadj, hw⟩

/-- Another field of the object may change. -/
theorem StoresPoints.modifyObject (h : StoresPoints k km w) (r : ℕ)
    {f : KeyAdjustment → KeyAdjustment} (hf : ∀ adj, (f adj).window = adj.window) :
    StoresPoints k (km.modifyObject key r f) w := by
  by_cases hk : k = key
  · subst hk
    cases w with
    | none => exact h
    | some w =>
      obtain ⟨r', adj, hr, hadj, hw⟩ := h
      refine ⟨r', if r = r' then f adj else adj, hr, ?_, ?_⟩
      · simp only [KeyManager.modifyObject, Function.update_self, List.getElem?_modify, hadj]
        rfl
      · split
        · exact (hf adj).trans hw
        · exact hw
  · exact h.of_eq rfl (Function.update_of_ne hk _ _)

/-- An entry that is put back. -/
theorem setAdjustment_self {r : ℕ} (h : km.adjustments key = some r) :
    km.setAdjustment key r = km := by
  unfold KeyManager.setAdjustment
  rw [← h, Function.update_eq_self]

/-- The violations may be cleared. -/
theorem StoresPoints.clearViolations (h : StoresPoints k km w) (key : κ) :
    StoresPoints k (km.clearViolations key) w := by
  unfold KeyManager.clearViolations
  cases hr : km.adjustments key with
  | none => exact h
  | some r =>
    have hput : (km.modifyObject key r fun adj => { adj with penaltyViolationCount := 0
        }).adjustments key = some r := hr
    show StoresPoints k ((km.modifyObject key r fun adj =>
      { adj with penaltyViolationCount := 0 }).setAdjustment key r) w
    rw [setAdjustment_self hput]
    exact h.modifyObject r fun adj => rfl

/-- A block may be lifted. -/
theorem StoresPoints.liftBlock (h : StoresPoints k km w) (now : ℤ) (key : κ)
    (wasReason : KeyBlockReason) :
    StoresPoints k (km.liftBlock now key wasReason) w := by
  have hblocks : StoresPoints k ({ km with blocks := km.blocks.erase key } : KeyManager κ) w :=
    h.of_eq rfl rfl
  exact (hblocks.clearViolations key).of_eq rfl rfl

/-- All blocks may be lifted. -/
theorem StoresPoints.unblockAll (h : StoresPoints k km w) (now : ℤ) :
    StoresPoints k (km.unblockAll now) w := by
  have hfold : ∀ (entries : List (Sigma fun _ : κ => KeyBlock)) (km : KeyManager κ),
      StoresPoints k km w →
        StoresPoints k (entries.foldl (fun km e => km.liftBlock now e.1 e.2.reason) km) w := by
    intro entries
    induction entries with
    | nil => exact fun km h => h
    | cons e entries ih => exact fun km h => ih _ (h.liftBlock now e.1 e.2.reason)
  exact hfold _ _ (h.of_eq rfl rfl)

/-- A new adjustment stores its window. -/
theorem StoresPoints.newAdjustment {adj : KeyAdjustment} :
    StoresPoints key (km.newAdjustment key adj) (some adj.window) := by
  refine ⟨(km.objects key).length, adj, Function.update_self .., ?_, rfl⟩
  simp [KeyManager.newAdjustment]

/-- **The two mutating operations roll the window of their key first.** -/
theorem StoresPoints.touch (o : KeyManagerOptions) (now : ℤ) (h : StoresPoints k km w)
    (key : κ) :
    StoresPoints k (km.touch o now key) (if key = k then some (rolled o now w) else w) := by
  have h : StoresPoints k (km.expireDueBlocks now) w := h.of_eq rfl rfl
  unfold KeyManager.touch
  generalize km.expireDueBlocks now = km at h
  by_cases hk : key = k
  · subst hk
    rw [if_pos rfl]
    cases w with
    | none =>
      have hnone : km.adjustments key = none := h
      rw [KeyManager.touchAdjustmentWindow, hnone]
      exact .newAdjustment
    | some w =>
      obtain ⟨r, adj, hr, hadj, rfl⟩ := h
      have hobject : km.object key r = adj := by
        rw [KeyManager.object, hadj, Option.getD_some]
      rw [KeyManager.touchAdjustmentWindow, hr]
      dsimp only
      rw [hobject]
      by_cases hover : windowOver o now adj.windowStart = true
      · have hroll : rolled o now (some adj.window) = ⟨now, 0, 0⟩ := if_pos hover
        rw [hroll]
        show StoresPoints key (if windowOver o now adj.windowStart = true then _ else km) _
        rw [if_pos hover]
        exact .newAdjustment
      · have hroll : rolled o now (some adj.window) = adj.window := if_neg hover
        rw [hroll]
        show StoresPoints key (if windowOver o now adj.windowStart = true then _ else km) _
        rw [if_neg hover]
        exact ⟨r, adj, hr, hadj, rfl⟩
  · rw [if_neg hk]
    have hne : k ≠ key := fun heq => hk heq.symm
    unfold KeyManager.touchAdjustmentWindow
    split
    · exact h.of_eq (Function.update_of_ne hne _ _) (Function.update_of_ne hne _ _)
    · dsimp only
      split
      · exact h.of_eq (Function.update_of_ne hne _ _) (Function.update_of_ne hne _ _)
      · exact h

/-- There is an entry after that. -/
theorem exists_adjustments_touch (o : KeyManagerOptions) (now : ℤ) (key : κ)
    (km : KeyManager κ) : ∃ r, (km.touch o now key).adjustments key = some r := by
  unfold KeyManager.touch KeyManager.touchAdjustmentWindow
  split
  · exact ⟨_, Function.update_self ..⟩
  · next r hr =>
    dsimp only
    split
    · exact ⟨_, Function.update_self ..⟩
    · exact ⟨r, hr⟩

/-- Points are added to the entry of a key. -/
theorem StoresPoints.count {isReward : Bool} {p : JsNumber} {f : KeyAdjustment → KeyAdjustment}
    {r : ℕ} (h : StoresPoints k km w) (hr : km.adjustments key = some r)
    (hf : ∀ adj, (f adj).window = adj.window.add isReward p) :
    StoresPoints k ((km.modifyObject key r f).setAdjustment key r)
      (if key = k then w.map fun w => w.add isReward p else w) := by
  by_cases hk : key = k
  · subst hk
    rw [if_pos rfl]
    have hput : (km.modifyObject key r f).adjustments key = some r := hr
    rw [setAdjustment_self hput]
    cases w with
    | none => exact h
    | some w =>
      obtain ⟨r', adj, hr', hadj, rfl⟩ := h
      obtain rfl : r = r' := Option.some.inj (hr.symm.trans hr')
      refine ⟨r, f adj, hr, ?_, hf adj⟩
      simp only [KeyManager.modifyObject, Function.update_self, List.getElem?_modify, hadj]
      show some (if True then f adj else adj) = some (f adj)
      rw [if_pos trivial]
  · rw [if_neg hk]
    exact h.of_eq (Function.update_of_ne (Ne.symm hk) _ _) (Function.update_of_ne (Ne.symm hk) _ _)

/-- The window is rolled, and the points are added to it. -/
theorem StoresPoints.rollAndCount {isReward : Bool} {p : JsNumber}
    {f : KeyAdjustment → KeyAdjustment} {r : ℕ} (o : KeyManagerOptions) (now : ℤ)
    (h : StoresPoints k km w) (hr : (km.touch o now key).adjustments key = some r)
    (hf : ∀ adj, (f adj).window = adj.window.add isReward p) :
    StoresPoints k (((km.touch o now key).modifyObject key r f).setAdjustment key r)
      (if key = k then some ((rolled o now w).add isReward p) else w) := by
  have hcount := (h.touch o now key).count hr hf
  by_cases hk : key = k
  · rw [if_pos hk, if_pos hk] at hcount
    rw [if_pos hk]
    exact hcount
  · rw [if_neg hk, if_neg hk] at hcount
    rw [if_neg hk]
    exact hcount

/-- An automatic block counts a violation, and no points. -/
theorem StoresPoints.penaltySettle (h : StoresPoints k km w) (o : KeyManagerOptions) (now : ℤ)
    (p : JsNumber) {r : ℕ} (hr : km.adjustments key = some r) (snap : Option RateLimitResult) :
    StoresPoints k (km.penaltySettle o now key p r snap).1 w := by
  unfold KeyManager.penaltySettle
  dsimp only
  split
  · generalize hemit : km.emitTyped _ = km'
    have h' : StoresPoints k km' w := by
      rw [← hemit]
      exact h.of_eq rfl rfl
    have hput : (km'.modifyObject key r fun adj => { adj with
        penaltyViolationCount := adj.penaltyViolationCount + 1 }).adjustments key = some r := by
      rw [← hemit]
      exact hr
    rw [setAdjustment_self hput]
    have hcounted : StoresPoints k (km'.modifyObject key r fun adj => { adj with
        penaltyViolationCount := adj.penaltyViolationCount + 1 }) w :=
      h'.modifyObject r fun adj => rfl
    exact hcounted.of_eq rfl rfl
  · exact h.of_eq rfl rfl

/-- The state of a penalty that blocks nothing. -/
theorem state_penaltySettle (o : KeyManagerOptions) (now : ℤ) (p : JsNumber) (r : ℕ)
    (snap : Option RateLimitResult) :
    (km.penaltySettle o now key p r snap).2.1 = km.composeKeyStateInternal o now key snap := by
  unfold KeyManager.penaltySettle
  dsimp only
  split
  · rfl
  · rfl

/-! ### States -/

omit [DecidableEq κ] in
/-- A state that copies the points has those of the window. -/
theorem StoresPoints.hasPoints {st : KeyState κ} (h : StoresPoints k km w)
    (hp : st.penaltyPoints = (km.getAdjustment k).penaltyPoints)
    (hr : st.rewardPoints = (km.getAdjustment k).rewardPoints) : HasPoints st w := by
  cases w with
  | none =>
    have hnone : km.adjustments k = none := h
    rw [KeyManager.getAdjustment, hnone] at hp hr
    exact ⟨hp, hr⟩
  | some w =>
    obtain ⟨r, adj, hadjustment, hadj, rfl⟩ := h
    have hobject : km.object k r = adj := by
      rw [KeyManager.object, hadj, Option.getD_some]
    rw [KeyManager.getAdjustment, hadjustment] at hp hr
    dsimp only at hp hr
    rw [hobject] at hp hr
    exact ⟨hp, hr⟩

/-- The state that a `get` composes has the points of the window. -/
theorem StoresPoints.composeKeyStateInternal (h : StoresPoints key km w) (o : KeyManagerOptions)
    (now : ℤ) (snap : Option RateLimitResult) :
    HasPoints (km.composeKeyStateInternal o now key snap) w := by
  unfold KeyManager.composeKeyStateInternal
  split
  · split
    · exact h.hasPoints rfl rfl
    · split
      · exact h.hasPoints rfl rfl
      · exact h.hasPoints rfl rfl
  · exact h.hasPoints rfl rfl
  · exact h.hasPoints rfl rfl

/-- It is the state of the key. -/
theorem key_composeKeyStateInternal (o : KeyManagerOptions) (now : ℤ)
    (snap : Option RateLimitResult) :
    (km.composeKeyStateInternal o now key snap).key = key := by
  unfold KeyManager.composeKeyStateInternal
  split
  · split
    · rfl
    · split
      · rfl
      · rfl
  · rfl
  · rfl

/-- So has every state that is loaded. -/
theorem StoresPoints.loadedKeyState (h : StoresPoints key km w) (o : KeyManagerOptions)
    (now : ℤ) (snap : Option RateLimitResult) :
    ∀ st ∈ km.loadedKeyState o now key snap, HasPoints st w := by
  intro st hst
  unfold KeyManager.loadedKeyState at hst
  split at hst
  · split at hst
    · rw [← Option.mem_some.mp hst]
      exact h.hasPoints rfl rfl
    · obtain ⟨s, -, rfl⟩ := Option.mem_map.mp hst
      exact h.hasPoints rfl rfl
  · obtain ⟨s, -, rfl⟩ := Option.mem_map.mp hst
    exact h.hasPoints rfl rfl

/-- There is a state of a key that is blocked or that the store knows. -/
theorem map_key_loadedKeyState (o : KeyManagerOptions) (now : ℤ) (key : κ)
    (snap : Option RateLimitResult) (km : KeyManager κ) :
    (km.loadedKeyState o now key snap).map KeyState.key =
      if km.isManualBlockActive now key || snap.isSome then some key else none := by
  unfold KeyManager.loadedKeyState KeyManager.isManualBlockActive
  cases km.blocks.lookup key with
  | none => cases snap <;> rfl
  | some b =>
    cases hb : b.isActive now with
    | true => simp [hb, KeyManager.composeBlocked]
    | false => cases snap <;> simp [hb, KeyManager.composeOpen]

end Entry

/-! ## One operation -/

/-- The last window of `k` after one more operation. -/
def windowAfter (o : KeyManagerOptions) (k : κ) (w : Option WindowPoints)
    (i : KeyManagerCallAt κ) : Option WindowPoints :=
  match i.op with
  | .penalty key points =>
    if key = k then some ((rolled o i.started w).add false (KeyManager.pointsOf points)) else w
  | .reward key points =>
    if key = k then some ((rolled o i.started w).add true (KeyManager.pointsOf points)) else w
  | .delete key => if key = k then none else w
  | _ => w

/-- The key whose state an operation returns: `get` returns one when the key is blocked or the
store knows it, `unblock` when there is a block to lift. -/
def KeyManagerCallAt.stateOf (i : KeyManagerCallAt κ) (km : KeyManager κ) : Option κ :=
  match i.op with
  | .get key =>
    if (km.expireDueBlocks i.started).isManualBlockActive i.done key || i.snap.isSome then some key
    else none
  | .unblock key => ((km.expireDueBlocks i.started).blocks.lookup key).map fun _ => key
  | .set key | .block key _ _ | .penalty key _ | .reward key _ => some key
  | _ => none

section Operation

variable {k key : κ} {km : KeyManager κ} {w : Option WindowPoints} (o : KeyManagerOptions)
  (started done : ℤ) (snap : Option RateLimitResult)

/-- A penalty counts its points in the entry it left, and blocks the key when that reaches the
threshold. -/
theorem penalty_cases (key : κ) (km : KeyManager κ) (points : JsNumber) :
    ∃ r, (km.touch o started key).adjustments key = some r ∧
      let counted := ((km.touch o started key).modifyObject key r fun adj =>
        { adj with penaltyPoints := adj.penaltyPoints.add (KeyManager.pointsOf points) }
        ).setAdjustment key r
      let s := counted.penaltySettle o done key (KeyManager.pointsOf points) r snap
      km.penalty o started done key snap points = (s.1, some s.2.1) ∨
        ∃ b, km.penalty o started done key snap points =
          ((s.1.blockFinish o done key b snap).1, some (s.1.blockFinish o done key b snap).2) := by
  obtain ⟨r, hr⟩ := exists_adjustments_touch o started key km
  refine ⟨r, hr, ?_⟩
  intro counted s
  have hcount : (km.touch o started key).penaltyCount key (KeyManager.pointsOf points) =
      some (counted, r) := by
    rw [KeyManager.penaltyCount, hr]
    rfl
  unfold KeyManager.penalty
  dsimp only
  rw [hcount]
  dsimp only
  have hs : s = counted.penaltySettle o done key (KeyManager.pointsOf points) r snap := rfl
  rw [← hs]
  clear_value s
  obtain ⟨settled, state, b⟩ := s
  cases b with
  | none => exact Or.inl rfl
  | some b => exact Or.inr ⟨b, rfl⟩

/-- A reward counts its points in the entry it left. -/
theorem reward_eq (key : κ) (km : KeyManager κ) (points : JsNumber) :
    ∃ r, (km.touch o started key).adjustments key = some r ∧
      let counted := ((km.touch o started key).modifyObject key r fun adj =>
        { adj with rewardPoints := adj.rewardPoints.add (KeyManager.pointsOf points) }
        ).setAdjustment key r
      let s := counted.rewardSettle o done key (KeyManager.pointsOf points) r snap
      km.reward o started done key snap points = (s.1, some s.2) := by
  obtain ⟨r, hr⟩ := exists_adjustments_touch o started key km
  refine ⟨r, hr, ?_⟩
  intro counted s
  have hcount : (km.touch o started key).rewardCount key (KeyManager.pointsOf points) =
      some (counted, r) := by
    rw [KeyManager.rewardCount, hr]
    rfl
  unfold KeyManager.reward
  dsimp only
  rw [hcount]

/-- A penalty rolls the window of its key and adds its points. -/
theorem StoresPoints.penalty (h : StoresPoints k km w) (points : JsNumber) :
    StoresPoints k (km.penalty o started done key snap points).1
      (if key = k then some ((rolled o started w).add false (KeyManager.pointsOf points))
        else w) := by
  obtain ⟨r, hr, hcases⟩ := penalty_cases o started done snap key km points
  have hcount := h.rollAndCount o started hr fun adj =>
    window_penalty adj (KeyManager.pointsOf points)
  have hsettle := hcount.penaltySettle o done (KeyManager.pointsOf points)
    (Function.update_self ..) snap
  rcases hcases with hout | ⟨b, hout⟩
  · rw [hout]
    exact hsettle
  · rw [hout]
    exact hsettle.of_eq rfl rfl

/-- The points a penalty answers with. -/
theorem StoresPoints.penalty_state (h : StoresPoints key km w) (points : JsNumber) :
    ∃ st, (km.penalty o started done key snap points).2 = some st ∧ st.key = key ∧
      HasPoints st (some ((rolled o started w).add false (KeyManager.pointsOf points))) := by
  obtain ⟨r, hr, hcases⟩ := penalty_cases o started done snap key km points
  have hcount := h.rollAndCount o started hr fun adj =>
    window_penalty adj (KeyManager.pointsOf points)
  rw [if_pos rfl] at hcount
  rcases hcases with hout | ⟨b, hout⟩
  · refine ⟨_, congrArg Prod.snd hout, ?_, ?_⟩
    · rw [state_penaltySettle]
      exact key_composeKeyStateInternal o done snap
    · rw [state_penaltySettle]
      exact hcount.composeKeyStateInternal o done snap
  · have hsettle := hcount.penaltySettle o done (KeyManager.pointsOf points)
      (Function.update_self ..) snap
    exact ⟨_, congrArg Prod.snd hout, rfl, hsettle.hasPoints rfl rfl⟩

/-- A reward does the same on the other side. -/
theorem StoresPoints.reward (h : StoresPoints k km w) (points : JsNumber) :
    StoresPoints k (km.reward o started done key snap points).1
      (if key = k then some ((rolled o started w).add true (KeyManager.pointsOf points))
        else w) := by
  obtain ⟨r, hr, hout⟩ := reward_eq o started done snap key km points
  have hcount := h.rollAndCount o started hr fun adj =>
    window_reward adj (KeyManager.pointsOf points)
  rw [hout]
  exact hcount.of_eq rfl rfl

/-- The points a reward answers with. -/
theorem StoresPoints.reward_state (h : StoresPoints key km w) (points : JsNumber) :
    ∃ st, (km.reward o started done key snap points).2 = some st ∧ st.key = key ∧
      HasPoints st (some ((rolled o started w).add true (KeyManager.pointsOf points))) := by
  obtain ⟨r, hr, hout⟩ := reward_eq o started done snap key km points
  have hcount := h.rollAndCount o started hr fun adj =>
    window_reward adj (KeyManager.pointsOf points)
  rw [if_pos rfl] at hcount
  exact ⟨_, congrArg Prod.snd hout, key_composeKeyStateInternal o done snap,
    hcount.composeKeyStateInternal o done snap⟩

/-- A block that starts changes no points. -/
theorem StoresPoints.blockStart (h : StoresPoints k km w) (key : κ) (durationMs : JsNumber)
    (reason : KeyBlockReason) :
    StoresPoints k (km.blockStart started key durationMs reason) w := h.of_eq rfl rfl

/-- An unblock that removes the entry changes no points. -/
theorem StoresPoints.unblockRemove (h : StoresPoints k km w) (key : κ) (entry : KeyBlock) :
    StoresPoints k (km.unblockRemove started key entry) w := by
  have hlift := h.liftBlock started key entry.reason
  exact hlift.of_eq rfl rfl

/-- An unblock changes no points. -/
theorem StoresPoints.unblock (h : StoresPoints k km w) :
    StoresPoints k (km.unblock o started done key snap).1 w := by
  have hstart : StoresPoints k (km.expireDueBlocks started) w := h.of_eq rfl rfl
  unfold KeyManager.unblock KeyManager.unblockStart
  dsimp only
  cases (km.expireDueBlocks started).blocks.lookup key with
  | none => exact hstart
  | some entry => exact hstart.unblockRemove started key entry

/-- The points an unblock answers with. -/
theorem StoresPoints.unblock_state (h : StoresPoints k km w) (st : KeyState κ)
    (hst : st ∈ (km.unblock o started done key snap).2) (hk : st.key = k) : HasPoints st w := by
  have hstart : StoresPoints k (km.expireDueBlocks started) w := h.of_eq rfl rfl
  unfold KeyManager.unblock KeyManager.unblockStart at hst
  dsimp only at hst
  cases hentry : (km.expireDueBlocks started).blocks.lookup key with
  | none =>
    rw [hentry] at hst
    exact absurd hst (Option.not_mem_none st)
  | some entry =>
    rw [hentry] at hst
    dsimp only at hst
    have hremove := hstart.unblockRemove started key entry
    cases hload : ((km.expireDueBlocks started).unblockRemove started key entry).loadedKeyState o
        done key snap with
    | none =>
      rw [hload] at hst
      obtain rfl := Option.some.inj hst
      obtain rfl : key = k := hk
      exact hremove.hasPoints rfl rfl
    | some st' =>
      rw [hload] at hst
      obtain rfl : st' = st := Option.some.inj hst
      have hkey := map_key_loadedKeyState o done key snap
        ((km.expireDueBlocks started).unblockRemove started key entry)
      rw [hload, Option.map_some, eq_comm, Option.ite_none_right_eq_some] at hkey
      obtain rfl : key = k := (Option.some.inj hkey.2).trans hk
      exact hremove.loadedKeyState o done snap st' hload

/-- A `delete` drops the points of its key. -/
theorem StoresPoints.delete (h : StoresPoints k km w) :
    StoresPoints k (km.delete o started done key snap) (if key = k then none else w) := by
  by_cases hk : key = k
  · subst hk
    rw [if_pos rfl]
    exact Function.update_self ..
  · rw [if_neg hk]
    exact h.of_eq (Function.update_of_ne (Ne.symm hk) _ _) rfl

/-- **One operation**: what the entry of `k` says afterwards. -/
theorem StoresPoints.perform (h : StoresPoints k km w) (i : KeyManagerCallAt κ) :
    StoresPoints k (km.perform o i).1 (windowAfter o k w i) := by
  obtain ⟨started, done, op, snap⟩ := i
  cases op with
  | get key => exact h.of_eq rfl rfl
  | set key => exact h
  | block key durationMs reason =>
    have hstart := h.blockStart started key durationMs reason
    exact hstart.of_eq rfl rfl
  | unblock key => exact h.unblock o started done snap
  | unblockAll => exact h.unblockAll started
  | penalty key points => exact h.penalty o started done snap points
  | reward key points => exact h.reward o started done snap points
  | delete key => exact h.delete o started done snap
  | expireDueBlocks => exact h.of_eq rfl rfl
  | sync remote => exact h.of_eq rfl rfl

/-- The state that is returned is the one of `stateOf`. -/
theorem map_key_perform (i : KeyManagerCallAt κ) (km : KeyManager κ) :
    (km.perform o i).2.map KeyState.key = i.stateOf km := by
  obtain ⟨started, done, op, snap⟩ := i
  cases op with
  | get key => exact map_key_loadedKeyState o done key snap _
  | set key => exact congrArg some (key_composeKeyStateInternal o done snap)
  | block key durationMs reason => rfl
  | unblock key =>
    show ((km.unblock o started done key snap).2).map KeyState.key = Option.map _ _
    unfold KeyManager.unblock KeyManager.unblockStart
    dsimp only
    cases (km.expireDueBlocks started).blocks.lookup key with
    | none => rfl
    | some entry =>
      dsimp only
      rw [Option.map_some, Option.map_some]
      refine congrArg some ?_
      have hkey := map_key_loadedKeyState o done key snap
        ((km.expireDueBlocks started).unblockRemove started key entry)
      cases hst : ((km.expireDueBlocks started).unblockRemove started key entry).loadedKeyState o
          done key snap with
      | none => rfl
      | some st =>
        rw [hst, Option.map_some] at hkey
        split at hkey
        · exact Option.some.inj hkey
        · exact absurd hkey (Option.some_ne_none _)
  | unblockAll => rfl
  | penalty key points =>
    obtain ⟨r, -, hout | ⟨b, hout⟩⟩ := penalty_cases o started done snap key km points
    · show ((km.penalty o started done key snap points).2).map KeyState.key = some key
      rw [hout, Option.map_some, state_penaltySettle]
      exact congrArg some (key_composeKeyStateInternal o done snap)
    · show ((km.penalty o started done key snap points).2).map KeyState.key = some key
      rw [hout]
      rfl
  | reward key points =>
    obtain ⟨r, -, hout⟩ := reward_eq o started done snap key km points
    show ((km.reward o started done key snap points).2).map KeyState.key = some key
    rw [hout]
    exact congrArg some (key_composeKeyStateInternal o done snap)
  | delete key => rfl
  | expireDueBlocks => rfl
  | sync remote => rfl

/-- **The points that are returned** are those the entry is left with. -/
theorem StoresPoints.perform_state (i : KeyManagerCallAt κ) {st : KeyState κ}
    (hst : st ∈ (km.perform o i).2) (h : StoresPoints st.key km w) :
    HasPoints st (windowAfter o st.key w i) := by
  have hkey : i.stateOf km = some st.key := by
    rw [← map_key_perform o, Option.mem_def.mp hst, Option.map_some]
  obtain ⟨started, done, op, snap⟩ := i
  cases op with
  | get key =>
    simp only [KeyManagerCallAt.stateOf, Option.ite_none_right_eq_some] at hkey
    obtain rfl := Option.some.inj hkey.2
    have hstart : StoresPoints st.key (km.expireDueBlocks started) w := h.of_eq rfl rfl
    exact hstart.loadedKeyState o done snap st hst
  | set key =>
    obtain rfl := Option.some.inj hkey
    rw [← Option.some.inj hst]
    exact h.composeKeyStateInternal o done snap
  | block key durationMs reason =>
    obtain rfl := Option.some.inj hkey
    have hstart := h.blockStart started st.key durationMs reason
    rw [← Option.some.inj hst]
    exact hstart.hasPoints rfl rfl
  | unblock key => exact h.unblock_state o started done snap st hst rfl
  | unblockAll => exact absurd hkey.symm (Option.some_ne_none _)
  | penalty key points =>
    obtain rfl := Option.some.inj hkey
    obtain ⟨st', hst', -, hpoints⟩ := h.penalty_state o started done snap points
    obtain rfl := Option.some.inj (hst'.symm.trans hst)
    have hafter : windowAfter o st'.key w ⟨started, done, .penalty st'.key points, snap⟩ =
      some ((rolled o started w).add false (KeyManager.pointsOf points)) := if_pos rfl
    rw [hafter]
    exact hpoints
  | reward key points =>
    obtain rfl := Option.some.inj hkey
    obtain ⟨st', hst', -, hpoints⟩ := h.reward_state o started done snap points
    obtain rfl := Option.some.inj (hst'.symm.trans hst)
    have hafter : windowAfter o st'.key w ⟨started, done, .reward st'.key points, snap⟩ =
      some ((rolled o started w).add true (KeyManager.pointsOf points)) := if_pos rfl
    rw [hafter]
    exact hpoints
  | delete key => exact absurd hkey.symm (Option.some_ne_none _)
  | expireDueBlocks => exact absurd hkey.symm (Option.some_ne_none _)
  | sync remote => exact absurd hkey.symm (Option.some_ne_none _)

end Operation

/-! ## Runs -/

section Run

variable {o : KeyManagerOptions} {t : ℤ}

/-- One operation, and the last window. -/
theorem LastWindow.after (hW : o.windowMs.IsPoints) {k : κ} {events : List PointEvent}
    {w : Option WindowPoints} (h : LastWindow o t events w) (i : KeyManagerCallAt κ)
    (ht : t ≤ i.started) :
    LastWindow o i.started (eventsAfter k events i) (windowAfter o k w i) := by
  obtain ⟨started, done, op, snap⟩ := i
  cases op with
  | penalty key points =>
    simp only [eventsAfter, windowAfter]
    split
    · exact h.add hW ht false (JsNumber.isPoints_pointsOf points)
    · exact h.mono ht
  | reward key points =>
    simp only [eventsAfter, windowAfter]
    split
    · exact h.add hW ht true (JsNumber.isPoints_pointsOf points)
    · exact h.mono ht
  | delete key =>
    simp only [eventsAfter, windowAfter]
    split
    · rfl
    · exact h.mono ht
  | get _ => exact h.mono ht
  | set _ => exact h.mono ht
  | block _ _ _ => exact h.mono ht
  | unblock _ => exact h.mono ht
  | unblockAll => exact h.mono ht
  | expireDueBlocks => exact h.mono ht
  | sync _ => exact h.mono ht

/-- **At every point of a run the entry of a key holds its last window.** -/
theorem exists_lastWindow (hW : o.windowMs.IsPoints) (k : κ) (is : List (KeyManagerCallAt κ))
    (hord : OrderedFrom KeyManagerCallAt.started t is) :
    ∃ w, StoresPoints k (final (KeyManager.perform o) is {}) w ∧
      LastWindow o (lastClock KeyManagerCallAt.started t is) (pointEvents k is) w := by
  induction is using List.reverseRecOn with
  | nil => exact ⟨none, rfl, rfl⟩
  | append_singleton is i ih =>
    obtain ⟨hbefore, hlast, -⟩ := orderedFrom_append.mp hord
    obtain ⟨w, hstores, hwindow⟩ := ih hbefore
    refine ⟨windowAfter o k w i, ?_, ?_⟩
    · rw [final_append]
      exact hstores.perform o i
    · rw [lastClock_append, pointEvents_append]
      exact hwindow.after hW i hlast

omit [DecidableEq κ] in
/-- The points of the last window are those of the current one, if there is any. -/
theorem LastWindow.current_iff {events : List PointEvent} {w : Option WindowPoints}
    (h : LastWindow o t events w) {st : KeyState κ} (hst : HasPoints st w) (now : ℤ) :
    (st.penaltyPoints = currentPoints o now false events ∧
        st.rewardPoints = currentPoints o now true events) ↔
      ∀ start ∈ windowStart o events, windowOver o now start = false := by
  rw [hst.penaltyPoints_eq, hst.rewardPoints_eq]
  cases w with
  | none =>
    obtain rfl : events = [] := h
    exact iff_of_true ⟨rfl, rfl⟩ fun start hstart => absurd hstart (Option.not_mem_none start)
  | some w =>
    have h : WindowOf o t events w := h
    rw [h.start_eq]
    refine (h.current_iff now).trans ⟨?_, ?_⟩
    · rintro hover start hstart
      rw [← Option.some.inj hstart]
      exact hover
    · exact fun hall => hall w.start rfl

/-- **Returned points are those of the current window** exactly when no state of a key is
returned after the end of the window that its last penalties and rewards fell into. -/
theorem points_current_iff (o : KeyManagerOptions) (windowMs : JsNumber)
    (hW : o.windowMs = JsNumber.max 1 windowMs.floor) (t : ℤ) (is : List (KeyManagerCallAt κ))
    (hord : OrderedFrom KeyManagerCallAt.started t is) :
    (∀ pre i post, is = pre ++ i :: post →
        ∀ st ∈ ((final (KeyManager.perform o) pre {}).perform o i).2,
          st.penaltyPoints = currentPoints o i.done false (pointEvents st.key (pre ++ [i])) ∧
          st.rewardPoints = currentPoints o i.done true (pointEvents st.key (pre ++ [i]))) ↔
      ∀ pre i post, is = pre ++ i :: post →
        ∀ key ∈ i.stateOf (final (KeyManager.perform o) pre {}),
          ∀ start ∈ windowStart o (pointEvents key (pre ++ [i])),
            windowOver o i.done start = false := by
  have hpoints : o.windowMs.IsPoints := by
    rw [hW]
    exact JsNumber.isPoints_pointsOf windowMs
  have hstep : ∀ pre i post, is = pre ++ i :: post →
      ∀ st ∈ ((final (KeyManager.perform o) pre {}).perform o i).2,
        ((st.penaltyPoints = currentPoints o i.done false (pointEvents st.key (pre ++ [i])) ∧
            st.rewardPoints = currentPoints o i.done true (pointEvents st.key (pre ++ [i]))) ↔
          ∀ start ∈ windowStart o (pointEvents st.key (pre ++ [i])),
            windowOver o i.done start = false) := by
    rintro pre i post rfl st hst
    obtain ⟨hbefore, hlast, -⟩ := orderedFrom_append.mp hord
    obtain ⟨w, hstores, hwindow⟩ := exists_lastWindow hpoints st.key pre hbefore
    rw [pointEvents_append]
    exact (hwindow.after hpoints i hlast).current_iff (hstores.perform_state o i hst) i.done
  constructor
  · intro h pre i post his key hkey
    rw [← map_key_perform o] at hkey
    obtain ⟨st, hst, rfl⟩ := Option.mem_map.mp hkey
    exact (hstep pre i post his st hst).mp (h pre i post his st hst)
  · intro h pre i post his st hst
    refine (hstep pre i post his st hst).mpr (h pre i post his st.key ?_)
    rw [← map_key_perform o, Option.mem_map]
    exact ⟨st, hst, rfl⟩

end Run

/-! ## A penalty and a read -/

/-- Windows of a second. -/
def secondWindows : KeyManagerOptions where
  maxRequests := 10
  windowMs := 1000
  penaltyEscalation := fixedEscalation 1000

/-- Five points at zero. -/
def penaltyAtZero : KeyManagerCallAt ℕ := ⟨0, 0, .penalty 7 5, none⟩

/-- The same key is read at `now`, when the store has five hits of it. -/
def readAt (now : ℤ) : KeyManagerCallAt ℕ where
  started := now
  done := now
  op := .get 7
  snap := some { totalHits := 5, remaining := 5, resetTime := 1000, isBlocked := false }

/-- Half a second later the points are current. -/
theorem points_current_within_window :
    ((final (KeyManager.perform secondWindows) [penaltyAtZero] {}).perform secondWindows
        (readAt 500)).2.map KeyState.penaltyPoints =
      some (currentPoints secondWindows 500 false (pointEvents 7 [penaltyAtZero, readAt 500])) := by
  refine congrArg some ((points_current_iff secondWindows 1000 (by decide) 0
    [penaltyAtZero, readAt 500] (by decide)).mpr ?_ [penaltyAtZero] (readAt 500) [] rfl _ rfl).1
  intro pre i post his key hkey
  rcases pre with _ | ⟨i', _ | ⟨i'', pre⟩⟩
  · obtain ⟨rfl, -⟩ := List.cons.inj his
    obtain rfl : key = 7 := (Option.some.inj hkey).symm
    decide
  · obtain ⟨rfl, htail⟩ := List.cons.inj his
    obtain ⟨rfl, -⟩ := List.cons.inj htail
    have hkey : some 7 = some key := hkey
    obtain rfl := Option.some.inj hkey
    decide
  · have hlength := congrArg List.length his
    simp only [List.length_cons, List.length_append, List.length_nil] at hlength
    omega

/-- A second later they are not: the window is over, and nothing has rolled it. -/
theorem points_outlive_window :
    ¬ ∀ pre i post, [penaltyAtZero, readAt 1000] = pre ++ i :: post →
      ∀ st ∈ ((final (KeyManager.perform secondWindows) pre {}).perform secondWindows i).2,
        st.penaltyPoints =
            currentPoints secondWindows i.done false (pointEvents st.key (pre ++ [i])) ∧
          st.rewardPoints =
            currentPoints secondWindows i.done true (pointEvents st.key (pre ++ [i])) := by
  intro h
  have hread := (h [penaltyAtZero] (readAt 1000) [] rfl _ rfl).1
  have hover : currentPoints secondWindows 1000 false
      (pointEvents 7 [penaltyAtZero, readAt 1000]) = 0 := by decide
  have hfive : ((0 : JsNumber).add (KeyManager.pointsOf 5)).IsPoints :=
    .add (Or.inl rfl) (JsNumber.isPoints_pointsOf 5)
  exact hfive.ne_zero (hread.trans hover)

end RatelimitFlex
