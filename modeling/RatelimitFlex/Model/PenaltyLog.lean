import RatelimitFlex.Program.RateLimitEngine

/-!
# The penalty box over the whole history

What the penalty box of `RateLimitEngine` is for, stated over all violations of a key in
order: a violation that finds enough others in the window before it, counted since the last
penalty, brings a penalty for a fixed time.  Nothing is ever forgotten here; the two maps of the
engine, which are trimmed and swept, are compared with this log.
-/

set_option autoImplicit false

namespace RatelimitFlex

/-- The numbers of a penalty box. -/
structure PenaltyTerms where
  threshold : ℕ
  windowMs : ℤ
  durationMs : ℤ
  one_le_windowMs : 1 ≤ windowMs

/-- The window of the violations is one millisecond at least. -/
theorem one_le_violationWindow (value : Option JsNumber) :
    1 ≤ (sanitizeWindowMs value 3600000 : ℤ) := by
  exact_mod_cast le_sanitizeAtLeast value (by decide) (by decide)

/-- SOURCE: src/strategies/rate-limit-engine.ts:502-511 -/
def PenaltyBoxOptions.terms (cfg : PenaltyBoxOptions) : PenaltyTerms where
  threshold := sanitizeRateLimitCap (some cfg.violationsThreshold) 1
  windowMs := sanitizeWindowMs (some (cfg.violationWindowMs.getD 3600000)) 3600000
  durationMs := sanitizePenaltyDurationMs (some cfg.penaltyDurationMs) 60000
  one_le_windowMs := one_le_violationWindow _

/-- The violations since the last penalty, and those that brought one. -/
structure PenaltyLog where
  since : List ℤ := []
  penalties : List ℤ := []

/-- The times inside the window that ends at `t`. -/
def inWindow (windowMs t : ℤ) (times : List ℤ) : List ℤ :=
  times.filter fun v => decide (t - windowMs < v ∧ v ≤ t)

/-- One more violation. -/
def PenaltyLog.record (p : PenaltyTerms) (log : PenaltyLog) (s : ℤ) : PenaltyLog :=
  if p.threshold ≤ (inWindow p.windowMs s (log.since ++ [s])).length then
    { since := [], penalties := log.penalties ++ [s] }
  else { since := log.since ++ [s], penalties := log.penalties }

/-- The log of a key's violations. -/
def penaltyLog (p : PenaltyTerms) (violations : List ℤ) : PenaltyLog :=
  violations.foldl (PenaltyLog.record p) {}

/-- At `t` a penalty is running. -/
def Penalized (box : Option PenaltyBoxOptions) (violations : List ℤ) (t : ℤ) : Prop :=
  ∃ cfg ∈ box, ∃ s ∈ (penaltyLog cfg.terms violations).penalties, t < s + cfg.terms.durationMs

/-- Without violations nothing is recorded. -/
@[simp] theorem penaltyLog_nil (p : PenaltyTerms) : penaltyLog p [] = {} := rfl

/-- One violation more is one record more. -/
theorem penaltyLog_append (p : PenaltyTerms) (violations : List ℤ) (s : ℤ) :
    penaltyLog p (violations ++ [s]) = (penaltyLog p violations).record p s := by
  rw [penaltyLog, List.foldl_append]
  rfl

/-- What the log holds are violations. -/
theorem mem_violations_of_mem_penaltyLog {p : PenaltyTerms} {violations : List ℤ} {v : ℤ}
    (h : v ∈ (penaltyLog p violations).since ∨ v ∈ (penaltyLog p violations).penalties) :
    v ∈ violations := by
  induction violations using List.reverseRecOn with
  | nil => simp at h
  | append_singleton violations s ih =>
    rw [penaltyLog_append, PenaltyLog.record] at h
    rw [List.mem_append, List.mem_singleton]
    split at h
    · rcases h with h | h
      · cases h
      · rcases List.mem_append.mp h with h | h
        · exact .inl (ih (.inr h))
        · exact .inr (List.mem_singleton.mp h)
    · rcases h with h | h
      · rcases List.mem_append.mp h with h | h
        · exact .inl (ih (.inl h))
        · exact .inr (List.mem_singleton.mp h)
      · exact .inl (ih (.inr h))

end RatelimitFlex
