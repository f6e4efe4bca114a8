import RatelimitFlex.Program.PrometheusLabel

/-!
# Escaped label values

The three replacements come to one pass over the string: backslashes are doubled before the other
two put in single ones.  So each code unit is escaped on its own, and the escapes are read back one
after another (`escapePrometheusLabelValue_lossless`).
-/

set_option autoImplicit false

namespace RatelimitFlex.PrometheusLabel

/-! ## One pass -/

/-- What becomes of a code unit. -/
def escapeUnit (c : UInt16) : List UInt16 :=
  if c = backslash then [backslash, backslash]
  else if c = lineFeed then [backslash, letterN]
  else if c = quote then [backslash, quote]
  else [c]

/-- The escape goes unit by unit. -/
theorem escapePrometheusLabelValue_eq (s : List UInt16) :
    escapePrometheusLabelValue s = s.flatMap escapeUnit := by
  unfold escapePrometheusLabelValue replaceAll
  rw [List.flatMap_assoc, List.flatMap_assoc]
  refine List.flatMap_congr fun c _ => ?_
  unfold escapeUnit
  by_cases hbackslash : c = backslash
  · subst hbackslash
    rfl
  · by_cases hlineFeed : c = lineFeed
    · subst hlineFeed
      rfl
    · by_cases hquote : c = quote
      · subst hquote
        rfl
      · simp [hbackslash, hlineFeed, hquote]

/-- The escape of a first unit and the rest. -/
theorem escape_cons (c : UInt16) (s : List UInt16) :
    escapePrometheusLabelValue (c :: s) = escapeUnit c ++ escapePrometheusLabelValue s := by
  rw [escapePrometheusLabelValue_eq, escapePrometheusLabelValue_eq, List.flatMap_cons]

/-- The escape of the rest and a last unit. -/
theorem escape_concat (s : List UInt16) (c : UInt16) :
    escapePrometheusLabelValue (s ++ [c]) = escapePrometheusLabelValue s ++ escapeUnit c := by
  rw [escapePrometheusLabelValue_eq, escapePrometheusLabelValue_eq, List.flatMap_append,
    List.flatMap_singleton]

/-- The four kinds of code units. -/
theorem escapeUnit_cases (c : UInt16) :
    (c = backslash ∧ escapeUnit c = [backslash, backslash]) ∨
      (c = lineFeed ∧ escapeUnit c = [backslash, letterN]) ∨
      (c = quote ∧ escapeUnit c = [backslash, quote]) ∨
      (c ≠ backslash ∧ c ≠ lineFeed ∧ c ≠ quote ∧ escapeUnit c = [c]) := by
  unfold escapeUnit
  by_cases hbackslash : c = backslash
  · exact Or.inl ⟨hbackslash, if_pos hbackslash⟩
  · rw [if_neg hbackslash]
    by_cases hlineFeed : c = lineFeed
    · exact Or.inr (Or.inl ⟨hlineFeed, if_pos hlineFeed⟩)
    · rw [if_neg hlineFeed]
      by_cases hquote : c = quote
      · exact Or.inr (Or.inr (Or.inl ⟨hquote, if_pos hquote⟩))
      · exact Or.inr (Or.inr (Or.inr ⟨hbackslash, hlineFeed, hquote, if_neg hquote⟩))

/-! ## Reading back -/

/-- An escaped unit is decoded. -/
theorem decode_escapeUnit_append (c : UInt16) (t : List UInt16) :
    decodeLabelValue (escapeUnit c ++ t) = (decodeLabelValue t).map (c :: ·) := by
  obtain ⟨rfl, hunit⟩ | ⟨rfl, hunit⟩ | ⟨rfl, hunit⟩ | ⟨hbackslash, hlineFeed, hquote, hunit⟩ :=
    escapeUnit_cases c
  · rw [hunit]
    rfl
  · rw [hunit]
    rfl
  · rw [hunit]
    rfl
  · rw [hunit, List.singleton_append, decodeLabelValue.eq_def]
    simp only [if_neg hbackslash, if_neg (not_or.mpr ⟨hlineFeed, hquote⟩)]

/-- **A decoded escape is the value.** -/
theorem decode_escape (s : List UInt16) :
    decodeLabelValue (escapePrometheusLabelValue s) = some s := by
  induction s with
  | nil => rfl
  | cons c s ih => rw [escape_cons, decode_escapeUnit_append, ih, Option.map_some]

/-! ## Runs of backslashes -/

/-- One backslash more makes the run longer by one. -/
theorem backslashRun_concat_backslash (s : List UInt16) :
    backslashRun (s ++ [backslash]) = backslashRun s + 1 := by
  unfold backslashRun
  rw [List.reverse_concat, List.takeWhile_cons_of_pos (by simp), List.length_cons]

/-- Any other unit ends it. -/
theorem backslashRun_concat_of_ne (s : List UInt16) {c : UInt16} (hc : c ≠ backslash) :
    backslashRun (s ++ [c]) = 0 := by
  unfold backslashRun
  rw [List.reverse_concat, List.takeWhile_cons_of_neg (by simp [hc]), List.length_nil]

/-- Every quote is behind an odd run of backslashes. -/
def QuotesEscaped (s : List UInt16) : Prop :=
  ∀ before after, s = before ++ quote :: after → Odd (backslashRun before)

/-- A text with escaped quotes may go on with anything but a quote, which needs its backslash. -/
theorem QuotesEscaped.concat {s : List UInt16} {c : UInt16} (h : QuotesEscaped s)
    (hc : c = quote → Odd (backslashRun s)) : QuotesEscaped (s ++ [c]) := by
  intro before after heq
  rcases List.eq_nil_or_concat after with rfl | ⟨after', d, rfl⟩
  · obtain ⟨rfl, hcq⟩ := List.append_inj' heq rfl
    exact hc (List.cons.inj hcq).1
  · rw [List.concat_eq_append, ← List.cons_append, ← List.append_assoc] at heq
    exact h before after' (List.append_inj' heq rfl).1

/-- What holds of the escaped string before and after each code unit. -/
structure Escaped (s : List UInt16) : Prop where
  lineFeed : lineFeed ∉ s
  quotes : QuotesEscaped s
  even : Even (backslashRun s)

/-- A backslash with the code unit that it stands for something with. -/
theorem Escaped.pair {s : List UInt16} (h : Escaped s) {d : UInt16}
    (hd : d ≠ PrometheusLabel.lineFeed) : Escaped (s ++ [backslash, d]) := by
  have hsplit : s ++ [backslash, d] = (s ++ [backslash]) ++ [d] := by
    rw [List.append_assoc, List.singleton_append]
  have hodd : Odd (backslashRun (s ++ [backslash])) := by
    rw [backslashRun_concat_backslash]
    exact h.even.add_one
  have hquotes : QuotesEscaped (s ++ [backslash]) :=
    h.quotes.concat fun heq => absurd heq (by decide)
  constructor
  · intro hmem
    rcases List.mem_append.mp hmem with hmem | hmem
    · exact h.lineFeed hmem
    · rcases List.mem_pair.mp hmem with heq | heq
      · exact absurd heq (by decide)
      · exact hd heq.symm
  · rw [hsplit]
    exact hquotes.concat fun _ => hodd
  · rw [hsplit]
    by_cases hbackslash : d = backslash
    · rw [hbackslash, backslashRun_concat_backslash]
      exact hodd.add_one
    · rw [backslashRun_concat_of_ne _ hbackslash]
      exact ⟨0, rfl⟩

/-- One escaped unit more leaves the text escaped. -/
theorem Escaped.escapeUnit {s : List UInt16} (h : Escaped s) (c : UInt16) :
    Escaped (s ++ escapeUnit c) := by
  obtain ⟨-, hunit⟩ | ⟨-, hunit⟩ | ⟨-, hunit⟩ | ⟨hbackslash, hlineFeed, hquote, hunit⟩ :=
    escapeUnit_cases c
  · rw [hunit]
    exact h.pair (by decide)
  · rw [hunit]
    exact h.pair (by decide)
  · rw [hunit]
    exact h.pair (by decide)
  · rw [hunit]
    constructor
    · intro hmem
      rcases List.mem_append.mp hmem with hmem | hmem
      · exact h.lineFeed hmem
      · exact hlineFeed (List.mem_singleton.mp hmem).symm
    · exact h.quotes.concat fun heq => absurd heq hquote
    · rw [backslashRun_concat_of_ne s hbackslash]
      exact ⟨0, rfl⟩

/-- The escape of a text is escaped. -/
theorem escaped_escape (s : List UInt16) : Escaped (escapePrometheusLabelValue s) := by
  induction s using List.reverseRecOn with
  | nil =>
    refine ⟨List.not_mem_nil, ?_, ⟨0, rfl⟩⟩
    intro before after heq
    exact absurd heq.symm (List.append_ne_nil_of_right_ne_nil before (List.cons_ne_nil _ _))
  | append_singleton s c ih =>
    rw [escape_concat]
    exact ih.escapeUnit c

/-- **A label value is safe and lossless**: no raw line feed, every quote behind an odd run of
backslashes, an even run at the end, and the string is read back from it. -/
theorem escapePrometheusLabelValue_lossless (s : List UInt16) :
    lineFeed ∉ escapePrometheusLabelValue s ∧
      (∀ before after, escapePrometheusLabelValue s = before ++ quote :: after →
        Odd (backslashRun before)) ∧
      ¬ Odd (backslashRun (escapePrometheusLabelValue s)) ∧
      decodeLabelValue (escapePrometheusLabelValue s) = some s ∧
      ∀ s', escapePrometheusLabelValue s' = escapePrometheusLabelValue s → s' = s := by
  obtain ⟨hlineFeed, hquotes, heven⟩ := escaped_escape s
  refine ⟨hlineFeed, hquotes, Nat.not_odd_iff_even.mpr heven, decode_escape s, fun s' heq => ?_⟩
  have hdecoded := decode_escape s'
  rw [heq, decode_escape s] at hdecoded
  exact (Option.some.inj hdecoded).symm

end RatelimitFlex.PrometheusLabel
