import RatelimitFlex.Program.AuditLog

/-!
# The audit log is bounded

With a size that is at least zero the trimming loop ends, and what is left is the end of the
history.  A negative size is never reached: the loop shifts the empty log forever.  With `NaN`
nothing is trimmed.  A limit of -1 or less cuts from the other side (`auditLog_bounded_iff`).
-/

set_option autoImplicit false

namespace RatelimitFlex

variable {κ δ : Type}

/-! ## What is to hold -/

/-- Of `all` there are as many elements as the bound allows. -/
def CutTo {α : Type} (bound : JsNumber) (all part : List α) : Prop :=
  ∀ k : ℕ, 0 < k → k ≤ all.length → (k ≤ part.length ↔ (JsNumber.ofInt k).le bound = true)

def historyStep (history : List (AuditEntry κ δ)) : AuditInput κ δ → List (AuditEntry κ δ)
  | .push now action key details actor => history ++ [⟨now, key, action, details, actor⟩]
  | .clear => []

/-- What has been audited since the log was emptied last. -/
def auditHistory (is : List (AuditInput κ δ)) : List (AuditEntry κ δ) := is.foldl historyStep []

/-- The run comes to an end, with the most recent entries in the log. -/
def AuditBounded (maxAuditLogSize : JsNumber) (is : List (AuditInput κ δ)) : Prop :=
  ∃ fuel auditLog, auditRun maxAuditLogSize fuel is = some auditLog ∧
    auditLog <:+ auditHistory is ∧
    CutTo (JsNumber.max 0 maxAuditLogSize) (auditHistory is) auditLog

/-- An entry passes the filters that are given. -/
def AuditFilter.Matches [DecidableEq κ] (filter : AuditFilter κ) (e : AuditEntry κ δ) : Bool :=
  (filter.key.all fun key => e.key = key) && (filter.action.all fun action => e.action = action) &&
    filter.since.all fun since => since.notAfter e.timestamp

/-- The rows are the newest of those that match, as many as the limit allows. -/
def NewestMatching [DecidableEq κ] (filter : AuditFilter κ)
    (auditLog rows : List (AuditEntry κ δ)) : Prop :=
  rows <+: (auditLog.filter filter.Matches).reverse ∧
    (∀ limit, filter.limit = some limit →
      CutTo limit (auditLog.filter filter.Matches).reverse rows) ∧
    (filter.limit = none → rows = (auditLog.filter filter.Matches).reverse)

/-! ## Comparisons -/

/-- A whole number against a bound. -/
theorem ofInt_le_finite (k : ℕ) (q : ℚ) :
    (JsNumber.ofInt k).le (.finite q) = decide ((k : ℚ) ≤ q) := by
  rw [JsNumber.ofInt, JsNumber.le, Int.cast_natCast]

/-- A bound against a whole number. -/
theorem finite_lt_ofInt (k : ℕ) (q : ℚ) :
    (JsNumber.finite q).lt (.ofInt k) = decide (q < (k : ℚ)) := by
  rw [JsNumber.ofInt, JsNumber.lt, Int.cast_natCast]

/-- A bound that is not negative. -/
theorem zero_le_finite_iff (q : ℚ) : JsNumber.le 0 (.finite q) = true ↔ 0 ≤ q := by
  rw [show (0 : JsNumber) = .ofInt (0 : ℕ) from rfl, ofInt_le_finite, decide_eq_true_iff,
    Nat.cast_zero]

/-- A positive number is not at most zero. -/
theorem ofInt_le_zero {k : ℕ} (hk : 0 < k) : (JsNumber.ofInt k).le 0 = false := by
  rw [show (0 : JsNumber) = .finite ((0 : ℤ) : ℚ) from rfl, ofInt_le_finite, Int.cast_zero]
  exact decide_eq_false (not_le.mpr (Nat.cast_pos.mpr hk))

/-- Raising a bound to zero cuts off the same. -/
theorem ofInt_le_max_zero {k : ℕ} (hk : 0 < k) (m : JsNumber) :
    (JsNumber.ofInt k).le (JsNumber.max 0 m) = (JsNumber.ofInt k).le m := by
  have hzero := ofInt_le_zero hk
  cases m with
  | finite q =>
    have hnan : ¬ ((0 : JsNumber) = .nan ∨ JsNumber.finite q = .nan) := by
      rintro (h | h)
      · exact absurd h (by decide)
      · cases h
    by_cases hq : 0 ≤ q
    · have hmax : JsNumber.max 0 (.finite q) = .finite q := by
        unfold JsNumber.max
        rw [if_neg hnan, if_pos ((zero_le_finite_iff q).mpr hq)]
      rw [hmax]
    · have hmax : JsNumber.max 0 (.finite q) = 0 := by
        unfold JsNumber.max
        rw [if_neg hnan, if_neg (fun h => hq ((zero_le_finite_iff q).mp h))]
      rw [hmax, hzero, ofInt_le_finite]
      have hneg : q < k := (not_le.mp hq).trans_le (Nat.cast_nonneg k)
      exact (decide_eq_false (not_le.mpr hneg)).symm
  | nan => rfl
  | posInfinity => rfl
  | negInfinity =>
    show (JsNumber.ofInt k).le 0 = _
    rw [hzero]
    rfl

/-- A size that is at least zero is compared with lengths as numbers are. -/
theorem lt_ofInt_eq_false_iff {m : JsNumber} (hm : JsNumber.le 0 m = true) (n : ℕ) :
    m.lt (.ofInt n) = false ↔ (JsNumber.ofInt n).le m = true := by
  cases m with
  | finite q =>
    rw [finite_lt_ofInt, ofInt_le_finite, decide_eq_false_iff_not, decide_eq_true_iff, not_lt]
  | nan => cases hm
  | posInfinity => exact iff_of_true rfl rfl
  | negInfinity => cases hm

/-- What is allowed stays allowed for less. -/
theorem ofInt_le_of_le {m : JsNumber} {j k : ℕ} (hjk : j ≤ k)
    (h : (JsNumber.ofInt k).le m = true) : (JsNumber.ofInt j).le m = true := by
  cases m with
  | finite q =>
    rw [ofInt_le_finite] at h ⊢
    exact decide_eq_true ((Nat.cast_le.mpr hjk).trans (of_decide_eq_true h))
  | nan => cases h
  | posInfinity => rfl
  | negInfinity => cases h

/-! ## Trimming -/

/-- **The loop ends** when the size is at least zero. -/
theorem trimAuditLog_spec {m : JsNumber} (hm : JsNumber.le 0 m = true) (fuel : ℕ)
    {auditLog : List (AuditEntry κ δ)} (hfuel : auditLog.length < fuel) :
    ∃ trimmed, trimAuditLog m fuel auditLog = some trimmed ∧ trimmed <:+ auditLog ∧
      (JsNumber.ofInt trimmed.length).le m = true ∧
      (trimmed = auditLog ∨ (JsNumber.ofInt (trimmed.length + 1 : ℕ)).le m = false) := by
  induction fuel generalizing auditLog with
  | zero => exact absurd hfuel (Nat.not_lt_zero _)
  | succ fuel ih =>
    unfold trimAuditLog
    by_cases hlong : m.lt (.ofInt auditLog.length) = true
    · rw [if_pos hlong]
      cases auditLog with
      | nil =>
        have hzero := (lt_ofInt_eq_false_iff hm 0).mpr hm
        exact absurd hlong (by rw [List.length_nil, hzero]; exact Bool.false_ne_true)
      | cons e auditLog =>
        rw [List.length_cons] at hfuel hlong
        obtain ⟨trimmed, htrim, hsuffix, hle, hmost⟩ := ih (show auditLog.length < fuel by omega)
        refine ⟨trimmed, htrim, hsuffix.trans (List.suffix_cons e auditLog), hle, Or.inr ?_⟩
        rcases hmost with rfl | hmost
        · have hnot := (lt_ofInt_eq_false_iff hm (trimmed.length + 1)).not
          rw [Bool.not_eq_false, Bool.not_eq_true] at hnot
          exact hnot.mp hlong
        · exact hmost
    · rw [if_neg hlong]
      have hle := (lt_ofInt_eq_false_iff hm auditLog.length).mp (Bool.eq_false_iff.mpr hlong)
      exact ⟨auditLog, rfl, List.suffix_refl _, hle, Or.inl rfl⟩

/-- A size below zero is never reached. -/
theorem trimAuditLog_of_negative {m : JsNumber} (hm : m.lt 0 = true) (fuel : ℕ)
    (auditLog : List (AuditEntry κ δ)) : trimAuditLog m fuel auditLog = none := by
  have hlong : ∀ n : ℕ, m.lt (.ofInt n) = true := by
    intro n
    cases m with
    | finite q =>
      have hneg : q < 0 := by
        rw [show (0 : JsNumber) = .ofInt (0 : ℕ) from rfl, finite_lt_ofInt, Nat.cast_zero] at hm
        exact of_decide_eq_true hm
      rw [finite_lt_ofInt]
      exact decide_eq_true (hneg.trans_le (Nat.cast_nonneg n))
    | nan => cases hm
    | posInfinity => cases hm
    | negInfinity => rfl
  induction fuel generalizing auditLog with
  | zero => rfl
  | succ fuel ih =>
    unfold trimAuditLog
    rw [if_pos (hlong auditLog.length), ih]

/-! ## Pushing -/

/-- Bounds that agree on positive numbers cut off the same. -/
theorem CutTo.mono_bound {α : Type} {b b' : JsNumber} {all part : List α}
    (hb : ∀ k : ℕ, 0 < k → (JsNumber.ofInt k).le b = (JsNumber.ofInt k).le b')
    (h : CutTo b all part) : CutTo b' all part := by
  intro k hk hle
  rw [← hb k hk]
  exact h k hk hle

/-- A bound below zero cuts off as zero does. -/
theorem cutTo_max_zero_iff {α : Type} {m : JsNumber} {all part : List α} :
    CutTo (JsNumber.max 0 m) all part ↔ CutTo m all part :=
  ⟨fun h => h.mono_bound fun _ hk => ofInt_le_max_zero hk m,
    fun h => h.mono_bound fun _ hk => (ofInt_le_max_zero hk m).symm⟩

/-- The end of the history, one entry later. -/
theorem CutTo.concat {α : Type} {m : JsNumber} {history log trimmed : List α} {e : α}
    (h : CutTo m history log) (hsuffix : trimmed <:+ log ++ [e])
    (hle : (JsNumber.ofInt trimmed.length).le m = true)
    (hmost : trimmed = log ++ [e] ∨ (JsNumber.ofInt (trimmed.length + 1 : ℕ)).le m = false) :
    CutTo m (history ++ [e]) trimmed := by
  intro k hk hlength
  rw [List.length_append, List.length_singleton] at hlength
  constructor
  · exact fun hkt => ofInt_le_of_le hkt hle
  · intro hkm
    rcases hmost with rfl | hmost
    · rw [List.length_append, List.length_singleton]
      by_contra hgt
      have hprev := (h (k - 1) (by omega) (by omega)).mpr (ofInt_le_of_le (Nat.sub_le k 1) hkm)
      omega
    · by_contra hgt
      have hnext := ofInt_le_of_le (show trimmed.length + 1 ≤ k by omega) hkm
      rw [hmost] at hnext
      cases hnext

/-- Nothing is kept when the size is zero. -/
theorem eq_nil_of_cutTo_zero {α : Type} {history log : List α} (hsuffix : log <:+ history)
    (h : CutTo 0 history log) : log = [] := by
  by_contra hne
  have hpos : 0 < log.length := List.length_pos_iff.mpr hne
  have hone := (h 1 Nat.one_pos (hpos.trans_le hsuffix.length_le)).mp hpos
  exact absurd hone (by decide)

/-- The log has the end of the history. -/
structure AuditTail (m : JsNumber) (history log : List (AuditEntry κ δ)) : Prop where
  suffix : log <:+ history
  cut : CutTo m history log

/-- The empty log is a tail of itself. -/
theorem auditTail_nil (m : JsNumber) : AuditTail m ([] : List (AuditEntry κ δ)) [] where
  suffix := List.suffix_refl _
  cut _ hk hle := absurd hk (Nat.not_lt.mpr hle)

/-- **A push of an allowed size** ends, and keeps the end of the history. -/
theorem AuditTail.step {m : JsNumber} (hm : JsNumber.le 0 m = true)
    {history log : List (AuditEntry κ δ)} (h : AuditTail m history log) {fuel : ℕ}
    (hfuel : log.length + 1 < fuel) (i : AuditInput κ δ) :
    ∃ log', auditStep m fuel log i = some log' ∧ AuditTail m (historyStep history i) log' ∧
      log'.length ≤ log.length + 1 := by
  cases i with
  | clear => exact ⟨[], rfl, auditTail_nil m, Nat.zero_le _⟩
  | push now action key details actor =>
    show ∃ log', pushAudit m fuel now action key details actor log = some log' ∧ _
    unfold pushAudit
    by_cases hzero : m = 0
    · subst hzero
      obtain rfl := eq_nil_of_cutTo_zero h.suffix h.cut
      refine ⟨[], if_pos rfl, ⟨List.nil_suffix, fun k hk _ => ?_⟩, Nat.zero_le _⟩
      rw [ofInt_le_zero hk]
      exact iff_of_false (Nat.not_le.mpr hk) Bool.false_ne_true
    · rw [if_neg hzero]
      have hpushed : (log ++ [AuditEntry.mk now key action details actor]).length < fuel := by
        rw [List.length_append]
        exact hfuel
      obtain ⟨trimmed, htrim, hsuffix, hle, hmost⟩ := trimAuditLog_spec hm fuel hpushed
      refine ⟨trimmed, htrim, ⟨?_, h.cut.concat hsuffix hle hmost⟩, ?_⟩
      · obtain ⟨before, hbefore⟩ := h.suffix
        refine hsuffix.trans ⟨before, ?_⟩
        show before ++ (log ++ _) = history ++ _
        rw [← List.append_assoc, hbefore]
      · have hlength := hsuffix.length_le
        rwa [List.length_append] at hlength

/-- A run of an allowed size. -/
theorem auditRun_spec {m : JsNumber} (hm : JsNumber.le 0 m = true) (is : List (AuditInput κ δ))
    {fuel : ℕ} (hfuel : is.length + 1 < fuel) :
    ∃ log, auditRun m fuel is = some log ∧ AuditTail m (auditHistory is) log ∧
      log.length ≤ is.length := by
  induction is using List.reverseRecOn with
  | nil => exact ⟨[], rfl, auditTail_nil m, le_rfl⟩
  | append_singleton is i ih =>
    rw [List.length_append, List.length_singleton] at hfuel
    obtain ⟨log, hrun, htail, hlength⟩ := ih (by omega)
    obtain ⟨log', hstep, htail', hlength'⟩ := htail.step hm (show log.length + 1 < fuel by omega) i
    refine ⟨log', ?_, ?_, ?_⟩
    · rw [auditRun, List.foldlM_append, ← auditRun, hrun]
      exact (bind_pure _).trans hstep
    · rw [auditHistory, List.foldl_append]
      exact htail'
    · rw [List.length_append, List.length_singleton]
      omega

/-! ## Sizes that do not bound the log -/

/-- Something has been pushed. -/
def AuditInput.IsPush : AuditInput κ δ → Prop
  | .push .. => True
  | .clear => False

/-- A size is at least zero, below zero, or no number. -/
theorem size_cases (m : JsNumber) : JsNumber.le 0 m = true ∨ m.lt 0 = true ∨ m = .nan := by
  cases m with
  | finite q =>
    have hlt : (JsNumber.finite q).lt 0 = true ↔ q < 0 := by
      rw [show (0 : JsNumber) = .ofInt (0 : ℕ) from rfl, finite_lt_ofInt, decide_eq_true_iff,
        Nat.cast_zero]
    rw [zero_le_finite_iff, hlt]
    rcases le_or_gt 0 q with h | h
    · exact Or.inl h
    · exact Or.inr (Or.inl h)
  | nan => exact Or.inr (Or.inr rfl)
  | posInfinity => exact Or.inl rfl
  | negInfinity => exact Or.inr (Or.inl rfl)

/-- A run that has not pushed anything. -/
theorem auditRun_of_no_push (m : JsNumber) (fuel : ℕ) {is : List (AuditInput κ δ)}
    (h : ∀ i ∈ is, ¬ i.IsPush) : auditRun m fuel is = some [] ∧ auditHistory is = [] := by
  induction is using List.reverseRecOn with
  | nil => exact ⟨rfl, rfl⟩
  | append_singleton is i ih =>
    obtain ⟨hrun, hhistory⟩ := ih fun i' hi' => h i' (List.mem_append_left _ hi')
    cases i with
    | push now action key details actor =>
      exact absurd trivial (h (.push now action key details actor) (by simp))
    | clear =>
      constructor
      · rw [auditRun, List.foldlM_append, ← auditRun, hrun]
        rfl
      · rw [auditHistory, List.foldl_append]
        rfl

/-- The first push does not go well with a size that is negative or `NaN`. -/
theorem not_auditBounded_push {m : JsNumber} (hm : ¬ JsNumber.le 0 m = true)
    {is : List (AuditInput κ δ)} (his : ∀ i ∈ is, ¬ i.IsPush) (now : ℤ) (action : AuditAction)
    (key : κ) (details : δ) (actor : Option String) :
    ¬ AuditBounded m (is ++ [.push now action key details actor]) := by
  rintro ⟨fuel, log, hrun, -, hcut⟩
  obtain ⟨hbefore, hhistory⟩ := auditRun_of_no_push m fuel his
  have hne : m ≠ 0 := by
    rintro rfl
    exact hm (by decide)
  have hpush : trimAuditLog m fuel [⟨now, key, action, details, actor⟩] = some log := by
    rw [auditRun, List.foldlM_append, ← auditRun, hbefore] at hrun
    have hstep : pushAudit m fuel now action key details actor [] = some log :=
      (bind_pure _).symm.trans hrun
    rwa [pushAudit, if_neg hne] at hstep
  rcases size_cases m with hsize | hsize | rfl
  · exact hm hsize
  · rw [trimAuditLog_of_negative hsize] at hpush
    cases hpush
  · -- `NaN` is not exceeded, and not reached either
    cases fuel with
    | zero => cases hpush
    | succ fuel =>
      obtain rfl := Option.some.inj hpush
      have hlength : (auditHistory (is ++ [AuditInput.push now action key details actor])).length =
          1 := by
        rw [auditHistory, List.foldl_append, ← auditHistory, hhistory]
        rfl
      have hone := (hcut 1 Nat.one_pos hlength.ge).mp le_rfl
      cases hone

/-- A run with entries has a first one. -/
theorem exists_first_push {is : List (AuditInput κ δ)} (h : ∃ i ∈ is, i.IsPush) :
    ∃ before i, before ++ [i] <+: is ∧ i.IsPush ∧ ∀ j ∈ before, ¬ j.IsPush := by
  induction is with
  | nil =>
    obtain ⟨i, hi, -⟩ := h
    exact absurd hi List.not_mem_nil
  | cons i is ih =>
    by_cases hi : i.IsPush
    · exact ⟨[], i, List.prefix_append [i] is, hi, fun j hj => absurd hj List.not_mem_nil⟩
    · obtain ⟨i', hmem, hpush⟩ := h
      have hrest : i' ∈ is := by
        rcases List.mem_cons.mp hmem with rfl | hrest
        · exact absurd hpush hi
        · exact hrest
      obtain ⟨before, first, hinit, hfirst, hnone⟩ := ih ⟨i', hrest, hpush⟩
      refine ⟨i :: before, first, List.cons_prefix_cons.mpr ⟨rfl, hinit⟩, hfirst, ?_⟩
      intro j hj
      rcases List.mem_cons.mp hj with rfl | hj
      · exact hi
      · exact hnone j hj

/-- **The run is bounded at every point** exactly when the size is at least zero, or nothing is
ever pushed. -/
theorem auditBounded_iff (m : JsNumber) (is : List (AuditInput κ δ)) :
    (∀ is', is' <+: is → AuditBounded m is') ↔
      JsNumber.le 0 m = true ∨ ∀ i ∈ is, ¬ i.IsPush := by
  constructor
  · intro h
    by_contra hnot
    obtain ⟨hm, hpush⟩ := not_or.mp hnot
    push Not at hpush
    obtain ⟨before, i, hinit, hi, hnone⟩ := exists_first_push hpush
    cases i with
    | push now action key details actor =>
      exact not_auditBounded_push hm hnone now action key details actor (h _ hinit)
    | clear => exact hi
  · rintro (hm | hnone) is' hinit
    · obtain ⟨log, hrun, htail, -⟩ := auditRun_spec hm is' (Nat.lt_succ_self _)
      exact ⟨_, log, hrun, htail.suffix, cutTo_max_zero_iff.mpr htail.cut⟩
    · obtain ⟨hrun, hhistory⟩ :=
        auditRun_of_no_push m 0 fun i hi => hnone i (hinit.subset hi)
      refine ⟨0, [], hrun, List.nil_suffix, fun k hk hle => ?_⟩
      rw [hhistory] at hle
      exact absurd hk (Nat.not_lt.mpr hle)

/-! ## Queries -/

/-- A filter that is not given lets everything through. -/
theorem filterRows_eq {α ε : Type} (given : Option α) (p : α → ε → Bool) (rows : List ε) :
    filterRows given p rows = rows.filter fun e => given.all fun a => p a e := by
  cases given with
  | some a => rfl
  | none => exact (List.filter_eq_self.mpr fun _ _ => rfl).symm

/-- The filters one after another. -/
theorem getAuditLog_eq [DecidableEq κ] (filter : AuditFilter κ)
    (auditLog : List (AuditEntry κ δ)) :
    getAuditLog filter auditLog =
      limitRows filter.limit (auditLog.filter filter.Matches).reverse := by
  unfold getAuditLog
  dsimp only
  rw [filterRows_eq, filterRows_eq, filterRows_eq, List.filter_filter, List.filter_filter]
  have hmatches : ∀ e ∈ auditLog, (((filter.since.all fun since => since.notAfter e.timestamp) &&
      filter.action.all fun action => decide (e.action = action)) &&
        filter.key.all fun key => decide (e.key = key)) = filter.Matches e := by
    intro e _
    unfold AuditFilter.Matches
    rw [Bool.and_comm, Bool.and_comm (filter.since.all _), ← Bool.and_assoc]
  rw [List.filter_congr hmatches]

/-- A whole or fractional limit takes its floor. -/
theorem sliceTo_of_nonneg {α : Type} {q : ℚ} (hq : 0 ≤ q) (rows : List α) :
    sliceTo (.finite q) rows = rows.take ⌊q⌋.toNat := by
  have hfloor : ¬ ⌊q⌋ < 0 := not_lt.mpr (Int.floor_nonneg.mpr hq)
  simp only [sliceTo, if_pos hq, if_neg hfloor]

/-- A limit between minus one and zero takes nothing. -/
theorem sliceTo_of_fraction {α : Type} {q : ℚ} (hq : q < 0) (hlt : -1 < q) (rows : List α) :
    sliceTo (.finite q) rows = [] := by
  have hceil : ⌈q⌉ = 0 := by
    rw [Int.ceil_eq_iff, Int.cast_zero]
    constructor <;> linarith
  have hzero : ¬ (0 : ℤ) < 0 := lt_irrefl 0
  simp only [sliceTo, if_neg (not_le.mpr hq), hceil, if_neg hzero, Int.toNat_zero, List.take_zero]

/-- Rows are taken off the end. -/
theorem sliceTo_of_negative {α : Type} {q : ℚ} (hq : q ≤ -1) (rows : List α) :
    sliceTo (.finite q) rows = rows.take (rows.length - ⌈q⌉.natAbs) := by
  have hceil : ⌈q⌉ < 0 := by
    have hle : ⌈q⌉ ≤ -1 := Int.ceil_le.mpr (by rw [Int.cast_neg, Int.cast_one]; exact hq)
    omega
  have hneg : ¬ 0 ≤ q := by
    rw [not_le]
    linarith
  simp only [sliceTo, if_neg hneg, if_pos hceil]

/-- A limit takes rows off the front. -/
theorem sliceTo_isPrefix {α : Type} (limit : JsNumber) (rows : List α) :
    sliceTo limit rows <+: rows := by
  cases limit with
  | nan => exact List.nil_prefix
  | posInfinity => exact List.prefix_refl rows
  | negInfinity => exact List.nil_prefix
  | finite q =>
    rcases le_or_gt 0 q with hq | hq
    · rw [sliceTo_of_nonneg hq]
      exact List.take_prefix _ rows
    · rcases lt_or_ge (-1) q with hlt | hge
      · rw [sliceTo_of_fraction hq hlt]
        exact List.nil_prefix
      · rw [sliceTo_of_negative hge]
        exact List.take_prefix _ rows

/-- Nothing is taken, and nothing is allowed. -/
theorem cutTo_nil {α : Type} {limit : JsNumber} {rows : List α}
    (h : ∀ k : ℕ, 0 < k → (JsNumber.ofInt k).le limit = false) : CutTo limit rows [] := by
  intro k hk _
  rw [h k hk]
  exact iff_of_false (Nat.not_le.mpr hk) Bool.false_ne_true

/-- No number of entries is at most a negative bound. -/
theorem ofInt_le_negative {q : ℚ} (hq : q < 0) (k : ℕ) :
    (JsNumber.ofInt k).le (.finite q) = false := by
  rw [ofInt_le_finite]
  exact decide_eq_false (not_le.mpr (hq.trans_le (Nat.cast_nonneg k)))

/-- **A slice cuts at its limit** unless the limit is -1 or less and there are more rows than it
takes off. -/
theorem cutTo_sliceTo_iff {α : Type} (limit : JsNumber) (rows : List α) :
    CutTo limit rows (sliceTo limit rows) ↔
      limit = .nan ∨ (JsNumber.ofInt (-1)).lt limit = true ∨
        limit.le (.ofInt (-rows.length)) = true := by
  cases limit with
  | nan => exact iff_of_true (cutTo_nil fun _ _ => rfl) (Or.inl rfl)
  | negInfinity => exact iff_of_true (cutTo_nil fun _ _ => rfl) (Or.inr (Or.inr rfl))
  | posInfinity =>
    refine iff_of_true (fun k _ hle => iff_of_true hle rfl) (Or.inr (Or.inl rfl))
  | finite q =>
    have hminus : (JsNumber.ofInt (-1)).lt (.finite q) = true ↔ -1 < q := by
      rw [JsNumber.ofInt, JsNumber.lt, decide_eq_true_iff, Int.cast_neg, Int.cast_one]
    have hlength : (JsNumber.finite q).le (.ofInt (-rows.length)) = true ↔
        ⌈q⌉ ≤ -rows.length := by
      rw [JsNumber.ofInt, JsNumber.le, decide_eq_true_iff, Int.ceil_le]
    rw [hminus, hlength]
    rcases le_or_gt 0 q with hq | hq
    · refine iff_of_true (fun k hk hle => ?_) (Or.inr (Or.inl (by linarith)))
      have hfloor : (k : ℚ) ≤ q ↔ (k : ℤ) ≤ ⌊q⌋ := by
        rw [Int.le_floor, Int.cast_natCast]
      rw [sliceTo_of_nonneg hq, List.length_take, ofInt_le_finite, decide_eq_true_iff, hfloor]
      omega
    · rcases lt_or_ge (-1) q with hlt | hge
      · rw [sliceTo_of_fraction hq hlt]
        exact iff_of_true (cutTo_nil fun k _ => ofInt_le_negative hq k) (Or.inr (Or.inl hlt))
      · have hneg : ⌈q⌉ ≤ -1 := Int.ceil_le.mpr (by rw [Int.cast_neg, Int.cast_one]; exact hge)
        rw [sliceTo_of_negative hge]
        constructor
        · intro hcut
          refine Or.inr (Or.inr ?_)
          by_contra hmore
          have htaken : 1 ≤ (rows.take (rows.length - ⌈q⌉.natAbs)).length := by
            rw [List.length_take]
            omega
          have hone := (hcut 1 Nat.one_pos (by omega)).mp htaken
          rw [ofInt_le_negative hq] at hone
          cases hone
        · rintro (hnan | hlt | hle)
          · cases hnan
          · exact absurd hlt (not_lt.mpr hge)
          · have hnone : rows.length - ⌈q⌉.natAbs = 0 := by omega
            rw [hnone, List.take_zero]
            exact cutTo_nil fun k _ => ofInt_le_negative hq k

/-- A limit that cuts as it is to. -/
def LimitKeeps (limit : JsNumber) (n : ℕ) : Prop :=
  limit = .nan ∨ (JsNumber.ofInt (-1)).lt limit = true ∨ limit.le (.ofInt (-n)) = true

/-- The newest matching entries are answered exactly when the limit keeps them. -/
theorem newestMatching_iff [DecidableEq κ] (filter : AuditFilter κ)
    (auditLog : List (AuditEntry κ δ)) :
    NewestMatching filter auditLog (getAuditLog filter auditLog) ↔
      ∀ limit, filter.limit = some limit →
        LimitKeeps limit (auditLog.filter filter.Matches).length := by
  rw [getAuditLog_eq, ← List.length_reverse]
  unfold NewestMatching
  cases filter.limit with
  | none =>
    refine iff_of_true ⟨List.prefix_refl _, fun limit h => ?_, fun _ => rfl⟩ fun limit h => ?_
    · cases h
    · cases h
  | some limit =>
    constructor
    · rintro ⟨-, hcut, -⟩ limit' h
      obtain rfl := Option.some.inj h
      exact (cutTo_sliceTo_iff _ _).mp (hcut _ rfl)
    · intro h
      refine ⟨sliceTo_isPrefix _ _, fun limit' h' => ?_, fun h' => ?_⟩
      · obtain rfl := Option.some.inj h'
        exact (cutTo_sliceTo_iff _ _).mpr (h _ rfl)
      · cases h'

/-! ## All together -/

/-- **The log is bounded at every point of a run** exactly when the size is at least zero or
nothing is pushed, and **a query gives the newest matching entries up to its limit** exactly when
the limit is absent, `NaN`, above -1, or takes off as many entries as match. -/
theorem auditLog_bounded_iff [DecidableEq κ] :
    (∀ (option : Option JsNumber) (is : List (AuditInput κ δ)),
      (∀ is', is' <+: is → AuditBounded (maxAuditLogSizeOf option) is') ↔
        JsNumber.le 0 (maxAuditLogSizeOf option) = true ∨ ∀ i ∈ is, ¬ i.IsPush) ∧
    ∀ (filter : AuditFilter κ) (auditLog : List (AuditEntry κ δ)),
      NewestMatching filter auditLog (getAuditLog filter auditLog) ↔
        ∀ limit, filter.limit = some limit →
          LimitKeeps limit (auditLog.filter filter.Matches).length :=
  ⟨fun option => auditBounded_iff (maxAuditLogSizeOf option), newestMatching_iff⟩

/-- A run of one push. -/
def onePush : List (AuditInput ℕ Unit) := [.push 0 .block 7 () none]

def oneEntry : AuditEntry ℕ Unit := ⟨0, 7, .block, (), none⟩

/-- Of three entries the log that may hold two keeps the newest, and one of them is asked for. -/
theorem auditLog_two_of_three :
    AuditBounded (maxAuditLogSizeOf (some (.finite 2))) (onePush ++ onePush ++ onePush) ∧
      NewestMatching { limit := some (.finite 1) } [oneEntry, oneEntry]
        (getAuditLog { limit := some (.finite 1) } [oneEntry, oneEntry]) := by
  obtain ⟨hruns, hqueries⟩ := auditLog_bounded_iff (κ := ℕ) (δ := Unit)
  constructor
  · exact (hruns (some (.finite 2)) _).mpr (Or.inl (by decide +kernel)) _ (List.prefix_refl _)
  · refine (hqueries _ _).mpr fun limit hlimit => ?_
    obtain rfl := Option.some.inj hlimit
    exact Or.inr (Or.inl (by decide +kernel))

/-- With size -1 the first push never ends, whatever the count; with limit -1 one of two matching
entries comes back. -/
theorem auditLog_negative :
    (∀ fuel, auditRun (.finite (-1)) fuel onePush = none) ∧ ¬ AuditBounded (.finite (-1)) onePush ∧
      (getAuditLog { limit := some (.finite (-1)) } [oneEntry, oneEntry]).length = 1 ∧
      ¬ NewestMatching { limit := some (.finite (-1)) } [oneEntry, oneEntry]
        (getAuditLog { limit := some (.finite (-1)) } [oneEntry, oneEntry]) := by
  have hnone : ∀ fuel, auditRun (.finite (-1)) fuel onePush = none := by
    intro fuel
    have htrim := trimAuditLog_of_negative (m := .finite (-1)) (by decide +kernel) fuel [oneEntry]
    show (pushAudit (.finite (-1)) fuel 0 .block 7 () none []).bind pure = none
    rw [pushAudit, if_neg (by decide +kernel)]
    show (trimAuditLog (.finite (-1)) fuel [oneEntry]).bind pure = none
    rw [htrim]
    rfl
  refine ⟨hnone, ?_, by decide +kernel, fun h => ?_⟩
  · rintro ⟨fuel, log, hrun, -⟩
    rw [hnone fuel] at hrun
    cases hrun
  · rcases (newestMatching_iff _ _).mp h _ rfl with hnan | hlt | hle
    · cases hnan
    · exact absurd hlt (by decide +kernel)
    · exact absurd hle (by decide +kernel)

end RatelimitFlex
