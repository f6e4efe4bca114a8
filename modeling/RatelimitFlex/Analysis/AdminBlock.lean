import RatelimitFlex.Program.AdminCommon
import RatelimitFlex.Analysis.BlockLifecycle

/-!
# A block through the admin API

A request that is not answered with 400 calls `block`, and the answer writes two dates as text.
The body is checked for a finite number, but the block is kept as a date: it lasts, and the
answer is a 200, exactly when the time that was asked for ends at a date there is
(`admin_block_iff`).
-/

set_option autoImplicit false

namespace RatelimitFlex

open Library

variable {κ : Type} [DecidableEq κ]

/-! ## Dates as text -/

namespace JsDate

/-- A time is written when a date can hold it. -/
theorem toISOString_time (ms : ℤ) :
    (∃ ms', (time ms).toISOString = .ok ms') ↔ |ms| ≤ maxDateMs := by
  rw [toISOString]
  by_cases h : |ms| ≤ maxDateMs
  · rw [if_pos h]
    exact iff_of_true ⟨ms, rfl⟩ h
  · rw [if_neg h]
    refine iff_of_false ?_ h
    rintro ⟨ms', hms⟩
    cases hms

/-- A number makes a date that can be written when it is within the range of dates. -/
theorem toISOString_ofNumber (x : JsNumber) :
    (∃ ms, (ofNumber x).toISOString = .ok ms) ↔ ∃ q : ℚ, x = .finite q ∧ |q| ≤ maxDateMs := by
  constructor
  · rintro ⟨ms, h⟩
    cases x with
    | finite q =>
      refine ⟨q, rfl, ?_⟩
      by_contra hq
      rw [ofNumber, if_neg hq] at h
      cases h
    | nan => cases h
    | posInfinity => cases h
    | negInfinity => cases h
  · rintro ⟨q, rfl, hq⟩
    obtain ⟨hlow, hhigh⟩ := abs_le.mp hq
    rw [ofNumber, if_pos hq]
    refine ⟨_, if_pos ?_⟩
    split
    · next h =>
      rw [abs_of_nonneg (Int.floor_nonneg.mpr h)]
      exact_mod_cast (Int.floor_le q).trans hhigh
    · next h =>
      rw [abs_le]
      constructor
      · have hceil : (-(maxDateMs : ℤ) : ℚ) ≤ (⌈q⌉ : ℤ) := hlow.trans (Int.le_ceil q)
        exact_mod_cast hceil
      · have hneg : ⌈q⌉ ≤ 0 := Int.ceil_le.mpr (by exact_mod_cast (not_le.mp h).le)
        exact hneg.trans (by decide)

end JsDate

/-- The reset time of the answer is a date: that of the store, or one window from `now`. -/
def ResetsByMaxDate (o : KeyManagerOptions) (now : ℤ) (snap : Option RateLimitResult) : Prop :=
  match snap with
  | some r => |r.resetTime| ≤ maxDateMs
  | none => ∃ q : ℚ, o.windowMs = .finite q ∧ |now + q| ≤ maxDateMs

omit [DecidableEq κ] in
/-- A block is composed into an answer exactly when its reset can be written. -/
theorem resetsByMaxDate_iff (o : KeyManagerOptions) (now : ℤ) (key : κ)
    (snap : Option RateLimitResult) (reason : KeyBlockReason) (expiresAt : Option JsDate)
    (km : KeyManager κ) :
    (∃ ms, (km.composeBlocked o now key snap reason expiresAt).resetTime.toISOString = .ok ms) ↔
      ResetsByMaxDate o now snap := by
  cases snap with
  | some r => exact JsDate.toISOString_time r.resetTime
  | none =>
    refine (JsDate.toISOString_ofNumber _).trans ?_
    constructor
    · rintro ⟨q, hsum, hq⟩
      cases hw : o.windowMs with
      | finite w =>
        rw [hw] at hsum
        obtain rfl : now + w = q := JsNumber.finite.inj hsum
        exact ⟨w, hw, hq⟩
      | nan =>
        rw [hw] at hsum
        cases hsum
      | posInfinity =>
        rw [hw] at hsum
        cases hsum
      | negInfinity =>
        rw [hw] at hsum
        cases hsum
    · rintro ⟨w, hw, hq⟩
      exact ⟨now + w, by rw [hw]; rfl, hq⟩

/-- The answer is a 200 exactly when both of its dates can be written. -/
theorem status_adminPostBlockFinish (o : KeyManagerOptions) (now : ℤ) (key : κ) (b : KeyBlock)
    (snap : Option RateLimitResult) (km : KeyManager κ) :
    (adminRoute (adminPostBlockFinish o now key b snap km).2).status = 200 ↔
      (∀ date ∈ b.expiresAt, ∃ ms, date.toISOString = .ok ms) ∧ ResetsByMaxDate o now snap := by
  rw [← resetsByMaxDate_iff o now key snap b.reason b.expiresAt km]
  have hexpires : (km.composeBlocked o now key snap b.reason b.expiresAt).blockExpiresAt =
    b.expiresAt := rfl
  simp only [adminPostBlockFinish, KeyManager.blockFinish, keyStateToJson, hexpires]
  generalize (km.composeBlocked o now key snap b.reason b.expiresAt).resetTime.toISOString = reset
  have hwritten : (∀ date ∈ b.expiresAt, ∃ ms, date.toISOString = .ok ms) ↔
      ∃ end', JsDate.toISOStringOrNull b.expiresAt = .ok end' := by
    cases b.expiresAt with
    | none => exact iff_of_true (fun date hdate => absurd hdate (Option.not_mem_none date)) ⟨_, rfl⟩
    | some date =>
      rw [JsDate.toISOStringOrNull]
      constructor
      · intro h
        obtain ⟨ms, hms⟩ := h date rfl
        exact ⟨some ms, by rw [hms]; rfl⟩
      · rintro ⟨end', hend⟩ date' hdate
        obtain rfl : date = date' := Option.some.inj hdate
        cases hms : date.toISOString with
        | ok ms => exact ⟨ms, rfl⟩
        | error message =>
          rw [hms] at hend
          cases hend
  rw [hwritten]
  cases JsDate.toISOStringOrNull b.expiresAt with
  | error message =>
    refine iff_of_false (fun h => ?_) ?_
    · have hstatus : 500 = 200 := h
      omega
    · rintro ⟨⟨end', hend⟩, -⟩
      cases hend
  | ok end' =>
    cases reset with
    | error message =>
      refine iff_of_false (fun h => ?_) ?_
      · have hstatus : 500 = 200 := h
        omega
      · rintro ⟨-, ms, hms⟩
        cases hms
    | ok ms => exact iff_of_true rfl ⟨⟨end', rfl⟩, ms, rfl⟩

/-! ## A block that lasts -/

/-- `b'` ends at a date there is, and no earlier than `b`. -/
def PlacedBlock.OutlastedBy (b b' : PlacedBlock) : Prop :=
  ∀ d ∈ b'.length, EndsByMaxDate b'.start d ∧ ∀ t, b.InForce t → b'.InForce t

/-- A step neither lifts the block of `key` nor puts one in its place that ends before. -/
def KeepsBlock (key : κ) (b : PlacedBlock) (r : Timed (KeyManagerOutput κ)) : Prop :=
  match r.op with
  | .quiet => True
  | .placed k length => k = key → b.OutlastedBy ⟨r.time, length⟩
  | .lifted k => k ≠ key
  | .liftedAll => False
  | .threw _ => True

/-- From `now` on the entry is active while `b` is in force. -/
def LastsFor (b : PlacedBlock) (now : ℤ) (entry : Option KeyBlock) : Prop :=
  ∀ t, now ≤ t → b.InForce t → ∃ v, entry = some v ∧ v.isActive t = true

/-- What is active later is not due before. -/
theorem KeyBlock.isDue_of_isActive {v : KeyBlock} {now t : ℤ} (h : v.isActive t = true)
    (ht : now ≤ t) : v.isDue now = false := by
  unfold KeyBlock.isActive at h
  unfold KeyBlock.isDue
  cases hv : v.expiresAt with
  | none => rfl
  | some date =>
    rw [hv] at h
    cases date with
    | invalid => rfl
    | time ms =>
      have hlt : t < ms := of_decide_eq_true h
      exact decide_eq_false (by omega)

namespace LastsFor

variable {b : PlacedBlock} {now t : ℤ} {entry entry' : Option KeyBlock}

/-- An entry that lasts long enough does so later. -/
theorem mono (h : LastsFor b now entry) (ht : now ≤ t) : LastsFor b t entry :=
  fun u hu => h u (ht.trans hu)

/-- The sweep leaves the entry while the block is in force. -/
theorem swept (h : LastsFor b now entry) (hs : Swept now entry entry') :
    LastsFor b now entry' := by
  intro t ht hforce
  obtain ⟨v, rfl, hactive⟩ := h t ht hforce
  refine ⟨v, ?_, hactive⟩
  rcases hs with rfl | rfl
  · rfl
  · rw [Option.bind_some, KeyBlock.isDue_of_isActive hactive ht]
    rfl

/-- An entry at least as long as the block lasts. -/
theorem placed {b' : PlacedBlock} {v : KeyBlock} (hends : EndsWith v b')
    (hlast : ∀ t, b.InForce t → b'.InForce t) : LastsFor b now (some v) :=
  fun t _ hforce => ⟨v, rfl, (hends.isActive_iff t).mpr (hlast t hforce)⟩

/-- While the block is in force the manager reports the key as blocked. -/
theorem isBlocked {km : KeyManager κ} {key : κ} (h : LastsFor b t (km.blocks.lookup key))
    (hforce : b.InForce t) : (km.isBlocked t key).1 = true := by
  obtain ⟨v, hv, hactive⟩ := h.swept (swept_expireDueBlocks key) t le_rfl hforce
  simp only [KeyManager.isBlocked, KeyManager.isManualBlockActive, hv, hactive]

end LastsFor

section Runs

variable {o : KeyManagerOptions} {key : κ} {b : PlacedBlock}

/-- One step that keeps the block. -/
theorem LastsFor.step {s : KeyManagerRun κ} {i : Timed (KeyManagerInput κ)}
    (h : LastsFor b i.time (s.km.blocks.lookup key)) (hpos : 0 ≤ i.time)
    (hkeep : KeepsBlock key b (KeyManagerRun.step o false i s).2) :
    LastsFor b i.time ((KeyManagerRun.step o false i s).1.km.blocks.lookup key) := by
  have hchange := step_change (o := o) false i s
  have htime := step_time (o := o) false i s
  generalize KeyManagerRun.step o false i s = next at hchange htime hkeep ⊢
  obtain ⟨s', time, out⟩ := next
  subst htime
  cases hchange with
  | quiet h' => exact h.swept (h' key)
  | threw k h' => exact h.swept (h' key)
  | liftedAll h' => exact absurd hkeep id
  | lifted k hkey h' => exact h.swept (h' key (Ne.symm hkeep))
  | placed k length v hends hkey h' =>
    by_cases hk : k = key
    · subst hk
      have hkeep : b.OutlastedBy ⟨i.time, length⟩ := hkeep rfl
      rw [hkey]
      have hinTime : ∀ d ∈ length, EndsByMaxDate i.time d := fun d hd => (hkeep d hd).1
      refine .placed (endsWith_of_placed hpos hends hinTime) fun t hforce => ?_
      cases length with
      | none => trivial
      | some d => exact (hkeep d rfl).2 t hforce
    · exact h.swept (h' key (Ne.symm hk))

/-- A run of steps that keep it. -/
theorem LastsFor.run {s : KeyManagerRun κ} {t : ℤ} (h : LastsFor b t (s.km.blocks.lookup key))
    (hpos : 0 ≤ t) {is : List (Timed (KeyManagerInput κ))} (hord : OrderedFrom Timed.time t is)
    (hkeep : ∀ r ∈ outputs (KeyManagerRun.step o false) is s, KeepsBlock key b r) :
    LastsFor b (lastClock Timed.time t is)
      ((final (KeyManagerRun.step o false) is s).km.blocks.lookup key) := by
  induction is generalizing t s with
  | nil => exact h
  | cons i is ih =>
    have hstep := (h.mono hord.1).step (hpos.trans hord.1) (hkeep _ List.mem_cons_self)
    exact ih hstep (hpos.trans hord.1) hord.2 fun r hr => hkeep r (List.mem_cons_of_mem _ hr)

/-! ## Main result -/

/-- A whole number of milliseconds whose sum is a date. -/
theorem endsByMaxDate_of_whole {start : ℤ} {q : ℚ} (hq : 0 ≤ q) (hwhole : q = ⌊q⌋)
    (hmax : |start + q| ≤ maxDateMs) : EndsByMaxDate start (.finite q) := by
  have hnat : (⌊q⌋.toNat : ℤ) = ⌊q⌋ := Int.toNat_of_nonneg (Int.floor_nonneg.mpr hq)
  refine ⟨⌊q⌋.toNat, ?_, ?_⟩
  · rw [JsNumber.ofInt, hnat, ← hwhole]
  · rw [hnat]
    have hle : (start : ℚ) + ⌊q⌋ ≤ maxDateMs := by
      rw [← hwhole]
      exact (le_abs_self _).trans hmax
    exact_mod_cast hle

/-- A block for a fraction of a millisecond more ends before it should. -/
theorem isBlocked_of_fraction {start : ℤ} (hstart : 0 ≤ start) {q : ℚ} (hq : 0 < q)
    (hmax : |start + q| ≤ maxDateMs) {km : KeyManager κ} {v : KeyBlock}
    (hv : km.blocks.lookup key = some v)
    (hends : v.expiresAt = some (.ofNumber ((JsNumber.ofInt start).add (.finite q)))) :
    (km.isBlocked (start + ⌊q⌋) key).1 = false := by
  have hsum : (0 : ℚ) ≤ start + q := by
    have hcast : (0 : ℚ) ≤ start := by exact_mod_cast hstart
    linarith
  have hend : JsDate.ofNumber ((JsNumber.ofInt start).add (.finite q)) = .time (start + ⌊q⌋) := by
    show JsDate.ofNumber (.finite (start + q)) = _
    rw [JsDate.ofNumber, if_pos hmax, if_pos hsum, add_comm, Int.floor_add_intCast, add_comm]
  rw [hend] at hends
  have hdue : v.isDue (start + ⌊q⌋) = true := by
    rw [KeyBlock.isDue, hends]
    exact decide_eq_true le_rfl
  simp only [KeyManager.isBlocked, KeyManager.isManualBlockActive,
    KeyManager.lookup_expireDueBlocks, hv, Option.bind_some, hdue, if_true]

/-- **A block through the admin API**: what is not answered with 400 is answered with 200 and
lasts for as long as was asked, exactly when it ends at a date there is and the reset time of the
answer is one. -/
theorem admin_block_iff (o : KeyManagerOptions) (text : JsValue → String) (s : KeyManagerRun κ)
    {start : ℤ} (hstart : 0 ≤ start) (done : ℤ) (snap : Option RateLimitResult) (key : κ)
    (rawBody : JsValue) {durationMs : JsNumber} {reason : KeyBlockReason}
    (hcall : adminPostBlockStart text key rawBody = .ok (.block key durationMs reason)) :
    let b := KeyManager.blockEntry start durationMs reason
    let placed : PlacedBlock := ⟨start, if durationMs = 0 then none else some durationMs⟩
    let s₁ := (s.begin o false start (.block key durationMs reason)).1
    ((∀ km, (adminRoute (adminPostBlockFinish o done key b snap km).2).status = 200) ∧
      ∀ is, OrderedFrom Timed.time start is →
        (∀ r ∈ outputs (KeyManagerRun.step o false) is s₁, KeepsBlock key placed r) →
        ∀ t, lastClock Timed.time start is ≤ t → placed.InForce t →
          ((final (KeyManagerRun.step o false) is s₁).km.isBlocked t key).1 = true) ↔
      (durationMs = 0 ∨ EndsByMaxDate start durationMs) ∧ ResetsByMaxDate o done snap := by
  intro b placed s₁
  obtain ⟨q, hq, rfl⟩ : ∃ q : ℚ, 0 ≤ q ∧ durationMs = .finite q := by
    rcases adminPostBlockStart_cases text key rawBody with ⟨message, h⟩ | ⟨q, r, hq, h⟩
    · rw [h] at hcall
      cases hcall
    · rw [h] at hcall
      obtain ⟨-, hd, -⟩ := KeyManagerCall.block.inj (Except.ok.inj hcall)
      exact ⟨q, hq, hd.symm⟩
  have hentry : s₁.km.blocks.lookup key = some b :=
    (KeyManager.lookup_blockStart _ _ _ _ _ _).trans (if_pos rfl)
  have hends : b.expiresAt =
      placed.length.map fun d => .ofNumber ((JsNumber.ofInt start).add d) := by
    show (if JsNumber.finite q = 0 then none else some _) =
      Option.map _ (if JsNumber.finite q = 0 then none else some _)
    split
    · rfl
    · rfl
  constructor
  · rintro ⟨hstatus, hlasts⟩
    obtain ⟨hdate, hreset⟩ := (status_adminPostBlockFinish o done key b snap s.km).mp
      (hstatus s.km)
    refine ⟨?_, hreset⟩
    by_contra hnot
    obtain ⟨hzero, hlate⟩ := not_or.mp hnot
    have hlength : placed.length = some (.finite q) := if_neg hzero
    rw [hlength, Option.map_some] at hends
    obtain ⟨q', hq', hmax⟩ := (JsDate.toISOString_ofNumber _).mp (hdate _ hends)
    obtain rfl : start + q = q' := JsNumber.finite.inj hq'
    have hpos : 0 < q := lt_of_le_of_ne hq fun h => hzero (by rw [← h]; rfl)
    have hforce : placed.InForce (start + ⌊q⌋) := by
      have hfraction : (⌊q⌋ : ℚ) < q := by
        refine lt_of_le_of_ne (Int.floor_le q) fun hwhole => hlate ?_
        exact endsByMaxDate_of_whole hq hwhole.symm hmax
      rw [PlacedBlock.InForce, hlength]
      refine decide_eq_true ?_
      push_cast
      linarith
    have hblocked := hlasts [] trivial (fun r hr => absurd hr List.not_mem_nil) (start + ⌊q⌋)
      (le_add_of_nonneg_right (Int.floor_nonneg.mpr hq)) hforce
    have hfree := isBlocked_of_fraction hstart hpos hmax hentry hends
    exact Bool.false_ne_true (hfree.symm.trans hblocked)
  · rintro ⟨htime, hreset⟩
    have hinTime : ∀ d ∈ placed.length, EndsByMaxDate start d := by
      intro d hd
      obtain ⟨hzero, hd⟩ := Option.ite_none_left_eq_some.mp hd
      rw [← Option.some.inj hd]
      exact htime.resolve_left hzero
    have hwith : EndsWith b placed := endsWith_of_placed hstart hends hinTime
    constructor
    · intro km
      refine (status_adminPostBlockFinish o done key b snap km).mpr ⟨fun date hdate => ?_, hreset⟩
      rw [hends] at hdate
      obtain ⟨d, hd, rfl⟩ := Option.mem_map.mp hdate
      obtain ⟨n, rfl, hmax⟩ := hinTime d hd
      rw [JsNumber.add_ofInt, JsDate.ofNumber_ofInt]
      · rw [JsDate.toISOString_time, abs_of_nonneg (by omega)]
        exact hmax
      · rw [abs_of_nonneg (by omega)]
        exact hmax
    · intro is hord hkeep t ht hforce
      have hlast : LastsFor placed start (s₁.km.blocks.lookup key) := by
        rw [hentry]
        exact .placed hwith fun t h => h
      exact ((hlast.run hstart hord hkeep).mono ht).isBlocked hforce

end Runs

/-- Half a second, with no reason given. -/
def halfSecondBody : JsValue := .object [("durationMs", .number 500)]

/-- Key 7 is blocked for half a second from 1000 on. -/
theorem admin_block_half_second :
    let s₁ := (({} : KeyManagerRun ℕ).begin secondForTwo false 1000 (.block 7 500 .manual)).1
    (adminRoute (adminPostBlockFinish secondForTwo 1000 7
        (KeyManager.blockEntry 1000 500 .manual) none s₁.km).2).status = 200 ∧
      (s₁.km.isBlocked 1499 7).1 = true := by
  intro s₁
  have hcall : adminPostBlockStart (fun _ => "") 7 halfSecondBody = .ok (.block 7 500 .manual) :=
    rfl
  obtain ⟨hstatus, hlasts⟩ := (admin_block_iff secondForTwo (fun _ => "") {}
    (show (0 : ℤ) ≤ 1000 by decide) 1000 none 7 halfSecondBody hcall).mpr
    ⟨Or.inr ⟨500, rfl, by decide⟩, 60000, rfl, by norm_num [maxDateMs]⟩
  refine ⟨hstatus s₁.km, hlasts [] trivial (fun r hr => absurd hr List.not_mem_nil) 1499 ?_ ?_⟩
  · decide
  · exact (PlacedBlock.inForce_iff_lt (d := 500) rfl 1499).mpr (by decide)

/-- As many milliseconds as there are up to the last date there is. -/
def longestBody : JsValue := .object [("durationMs", .number (.ofInt maxDateMs))]

/-- The request is accepted, answered with a 500, and leaves an entry that blocks nothing. -/
theorem admin_block_too_long :
    let call : KeyManagerCall ℕ := .block 7 (.ofInt maxDateMs) .manual
    let b := KeyManager.blockEntry 1 (.ofInt maxDateMs) .manual
    let s₁ := (({} : KeyManagerRun ℕ).begin secondForTwo false 1 call).1
    adminPostBlockStart (fun _ => "") 7 longestBody = .ok call ∧
      (adminRoute (adminPostBlockFinish secondForTwo 1 7 b none s₁.km).2).status = 500 ∧
      s₁.km.blocks.lookup 7 = some b ∧ (s₁.km.isBlocked 2 7).1 = false := by
  intro call b s₁
  refine ⟨rfl, ?_, ?_, ?_⟩
  · decide +kernel
  · decide +kernel
  · decide +kernel

end RatelimitFlex
