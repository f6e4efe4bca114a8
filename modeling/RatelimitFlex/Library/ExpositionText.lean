import Mathlib.Data.List.Nodup
import Mathlib.Data.List.TakeWhile
import Mathlib.Tactic

/-!
# A text format for metrics

Families of samples, line by line: what a family is for, its type, and a line for each sample,
whose labels are quoted.  A text is a sequence of UTF-16 code units.  `scrape` is a strict reader
of the format, and reads back whatever well-formed families were written (`scrape_textOf`).  No two
samples of different families are one series when the names of the families do not meet
(`nodup_series`).
-/

set_option autoImplicit false

namespace RatelimitFlex.Library.Exposition

abbrev Text := List UInt16

/-- A text of characters that are one code unit each. -/
def units (s : String) : Text := s.toList.map fun c => UInt16.ofNat c.toNat

/-! ## Code units -/

def lineFeed : UInt16 := 10

def space : UInt16 := 32

def quote : UInt16 := 34

def comma : UInt16 := 44

def equals : UInt16 := 61

def backslash : UInt16 := 92

def letterN : UInt16 := 110

def openBrace : UInt16 := 123

def closeBrace : UInt16 := 125

/-- A letter, an underscore or a colon. -/
def isNameStart (u : UInt16) : Bool :=
  (65 ≤ u && u ≤ 90) || (97 ≤ u && u ≤ 122) || u == 95 || u == 58

/-- These, or a digit. -/
def isNameUnit (u : UInt16) : Bool := isNameStart u || (48 ≤ u && u ≤ 57)

/-- The name of a family, of a sample or of a label. -/
def isName : Text → Bool
  | [] => false
  | u :: s => isNameStart u && s.all isNameUnit

/-- What may stand for a number. -/
def isValue (s : Text) : Bool :=
  !s.isEmpty && s.all fun u => u != space && u != lineFeed && u != quote && u != backslash

/-- What a family is for: nothing that would have to be escaped. -/
def isDoc (s : Text) : Bool := s.all fun u => u != lineFeed && u != backslash

/-! ## Families and their text -/

inductive MetricType where
  | counter
  | gauge
  | histogram
  deriving DecidableEq

structure Sample where
  name : Text
  labels : List (Text × Text)
  value : Text

structure Family where
  name : Text
  doc : Text
  kind : MetricType
  samples : List Sample

inductive Line where
  | help (name doc : Text)
  | type (name : Text) (kind : MetricType)
  | sample (s : Sample)

/-- What stands for a code unit of a label value. -/
def escapeUnit (u : UInt16) : Text :=
  if u = backslash then [backslash, backslash]
  else if u = lineFeed then [backslash, letterN]
  else if u = quote then [backslash, quote]
  else [u]

def escapeValue (s : Text) : Text := s.flatMap escapeUnit

/-- A label; its value is escaped already. -/
def labelText (l : Text × Text) : Text := l.1 ++ equals :: quote :: (l.2 ++ [quote])

/-- Labels, up to the closing brace. -/
def labelsText : List (Text × Text) → Text
  | [] => [closeBrace]
  | [l] => labelText l ++ [closeBrace]
  | l :: ls => labelText l ++ comma :: labelsText ls

def MetricType.text : MetricType → Text
  | .counter => units "counter"
  | .gauge => units "gauge"
  | .histogram => units "histogram"

def Sample.text (s : Sample) : Text :=
  match s.labels with
  | [] => s.name ++ space :: s.value
  | l :: ls =>
    s.name ++ openBrace ::
      (labelsText ((l :: ls).map (Prod.map id escapeValue)) ++ space :: s.value)

def Line.text : Line → Text
  | .help name doc => units "# HELP " ++ (name ++ space :: doc)
  | .type name kind => units "# TYPE " ++ (name ++ space :: kind.text)
  | .sample s => s.text

def Family.lines (f : Family) : List Line :=
  .help f.name f.doc :: .type f.name f.kind :: f.samples.map .sample

/-- Every line ends with a line feed. -/
def linesText (ls : List Text) : Text := ls.flatMap (· ++ [lineFeed])

def textOf (fs : List Family) : Text := linesText ((fs.flatMap Family.lines).map Line.text)

/-! ## Reading -/

def expect (u : UInt16) : Text → Option Text
  | [] => none
  | v :: s => if v = u then some s else none

def expectAll : Text → Text → Option Text
  | [], s => some s
  | u :: p, s => (expect u s).bind (expectAll p)

def readName (s : Text) : Option (Text × Text) :=
  if isName (s.takeWhile isNameUnit) then
    some (s.takeWhile isNameUnit, s.dropWhile isNameUnit)
  else none

/-- The code unit that stands behind a backslash. -/
def unescapeUnit (u : UInt16) : Option UInt16 :=
  if u = backslash then some backslash
  else if u = letterN then some lineFeed
  else if u = quote then some quote
  else none

/-- A label value up to its closing quote, decoded. -/
def readQuoted : Text → Option (Text × Text)
  | [] => none
  | u :: s =>
    if u = quote then some ([], s)
    else if u = lineFeed then none
    else if u = backslash then
      match s with
      | [] => none
      | v :: s => (unescapeUnit v).bind fun w => (readQuoted s).map fun r => (w :: r.1, r.2)
    else (readQuoted s).map fun r => (u :: r.1, r.2)

def readLabel (s : Text) : Option ((Text × Text) × Text) :=
  (readName s).bind fun r => (expect equals r.2).bind fun s => (expect quote s).bind fun s =>
    (readQuoted s).map fun q => ((r.1, q.1), q.2)

/-- Labels up to the closing brace, with so much fuel. -/
def readLabels : ℕ → Text → Option (List (Text × Text) × Text)
  | 0, _ => none
  | n + 1, s =>
    (readLabel s).bind fun r =>
      match expect closeBrace r.2 with
      | some s => some ([r.1], s)
      | none => (expect comma r.2).bind fun s => (readLabels n s).map fun q => (r.1 :: q.1, q.2)

def readValue (s : Text) : Option Text :=
  (expect space s).bind fun v => if isValue v then some v else none

def readSample (s : Text) : Option Sample :=
  (readName s).bind fun r =>
    match expect openBrace r.2 with
    | some s => (readLabels s.length s).bind fun q => (readValue q.2).map (Sample.mk r.1 q.1)
    | none => (readValue r.2).map (Sample.mk r.1 [])

def readType (s : Text) : Option MetricType :=
  [MetricType.counter, .gauge, .histogram].find? fun k => decide (k.text = s)

def readLine (s : Text) : Option Line :=
  match expectAll (units "# HELP ") s with
  | some s => (readName s).bind fun r => (expect space r.2).map (Line.help r.1)
  | none =>
    match expectAll (units "# TYPE ") s with
    | some s =>
      (readName s).bind fun r => (expect space r.2).bind fun s => (readType s).map (Line.type r.1)
    | none => (readSample s).map Line.sample

/-- The lines of a text; the last one has its line feed too. -/
def splitLines : Text → Option (List Text)
  | [] => some []
  | u :: s =>
    if u = lineFeed then (splitLines s).map ([] :: ·)
    else
      match splitLines s with
      | some (l :: ls) => some ((u :: l) :: ls)
      | _ => none

def readLines : List Text → Option (List Line)
  | [] => some []
  | t :: ts => (readLine t).bind fun l => (readLines ts).map (l :: ·)

/-- What is read of the families, from the last line on. -/
structure Reading where
  samples : List Sample := []
  typed : Option (Text × MetricType) := none
  families : List Family := []

def Reading.add (l : Line) (r : Reading) : Option Reading :=
  match l, r.typed with
  | .sample s, none => some { r with samples := s :: r.samples }
  | .type name kind, none => some { r with typed := some (name, kind) }
  | .help name doc, some (name', kind) =>
    if name = name' then some { families := ⟨name, doc, kind, r.samples⟩ :: r.families } else none
  | _, _ => none

/-- Lines as families; every sample is behind the two comments of its family. -/
def group (ls : List Line) : Option (List Family) :=
  match ls.foldr (fun l (r : Option Reading) => r.bind (Reading.add l)) (some {}) with
  | some ⟨[], none, fs⟩ => some fs
  | _ => none

def scrape (s : Text) : Option (List Family) := ((splitLines s).bind readLines).bind group

/-! ## Well-formed families -/

structure Sample.WellFormed (s : Sample) : Prop where
  name : isName s.name
  labels : ∀ l ∈ s.labels, isName l.1
  value : isValue s.value

structure Family.WellFormed (f : Family) : Prop where
  name : isName f.name
  doc : isDoc f.doc
  samples : ∀ s ∈ f.samples, s.WellFormed

/-- The names a family has for itself: its own, and of a histogram those of its samples. -/
def Family.names (f : Family) : List Text :=
  f.name :: match f.kind with
    | .histogram => [f.name ++ units "_bucket", f.name ++ units "_sum", f.name ++ units "_count"]
    | _ => []

def Sample.series (s : Sample) : Text × List (Text × Text) := (s.name, s.labels)

/-! ## Texts of a string -/

/-- The units of a string are those of its characters. -/
theorem units_ofList (cs : List Char) :
    units (String.ofList cs) = cs.map fun c => UInt16.ofNat c.toNat := by
  rw [units, String.toList_ofList]

/-- The units of two strings, one after the other. -/
theorem units_append (s t : String) : units (s ++ t) = units s ++ units t := by
  rw [units, String.toList_append, List.map_append]
  rfl

/-- A literal is a list of characters, which is quicker to look at. -/
theorem all_units {p : UInt16 → Bool} {cs : List Char}
    (h : cs.all fun c => p (UInt16.ofNat c.toNat)) : (units (String.ofList cs)).all p := by
  rw [units_ofList, List.all_map]
  exact h

/-! ## Reading back what was written -/

/-- A unit that is expected is read. -/
@[simp] theorem expect_cons (u : UInt16) (s : Text) : expect u (u :: s) = some s := if_pos rfl

/-- Any other unit is refused. -/
theorem expect_cons_of_ne {u v : UInt16} (h : v ≠ u) (s : Text) : expect u (v :: s) = none :=
  if_neg h

/-- A text that is expected is read. -/
@[simp] theorem expectAll_append (p s : Text) : expectAll p (p ++ s) = some s := by
  induction p with
  | nil => rfl
  | cons u p ih => rw [List.cons_append, expectAll, expect_cons, Option.bind_some, ih]

/-- A name consists of name units. -/
theorem isNameUnit_of_isName {name : Text} (h : isName name) : ∀ u ∈ name, isNameUnit u := by
  cases name with
  | nil => exact fun u hu => absurd hu List.not_mem_nil
  | cons v s =>
    obtain ⟨hv, hs⟩ := Bool.and_eq_true_iff.mp h
    intro u hu
    rcases List.mem_cons.mp hu with rfl | hu
    · exact Bool.or_eq_true_iff.mpr (.inl hv)
    · exact List.all_eq_true.mp hs u hu

/-- A name goes on as a name. -/
theorem isName_append {p s : Text} (hp : isName p) (hs : s.all isNameUnit) : isName (p ++ s) := by
  cases p with
  | nil => exact absurd hp Bool.false_ne_true
  | cons u p =>
    obtain ⟨hu, hp⟩ := Bool.and_eq_true_iff.mp hp
    rw [List.cons_append, isName, hu, List.all_append, hp, hs]
    rfl

/-- A name is read up to the first unit that is none of its own. -/
theorem readName_append {name : Text} (hname : isName name) {u : UInt16}
    (hu : isNameUnit u = false) (s : Text) : readName (name ++ u :: s) = some (name, u :: s) := by
  have hall := isNameUnit_of_isName hname
  have htake : (name ++ u :: s).takeWhile isNameUnit = name := by
    rw [List.takeWhile_append_of_pos hall, List.takeWhile_cons_of_neg (by simp [hu]),
      List.append_nil]
  have hdrop : (name ++ u :: s).dropWhile isNameUnit = u :: s := by
    rw [List.dropWhile_append_of_pos hall, List.dropWhile_cons_of_neg (by simp [hu])]
  rw [readName, htake, hdrop, if_pos hname]

/-! ### Labels -/

/-- The four kinds of code units of a label value. -/
theorem escapeUnit_cases (u : UInt16) :
    (u = backslash ∧ escapeUnit u = [backslash, backslash]) ∨
      (u = lineFeed ∧ escapeUnit u = [backslash, letterN]) ∨
      (u = quote ∧ escapeUnit u = [backslash, quote]) ∨
      (u ≠ backslash ∧ u ≠ lineFeed ∧ u ≠ quote ∧ escapeUnit u = [u]) := by
  unfold escapeUnit
  by_cases hbackslash : u = backslash
  · exact Or.inl ⟨hbackslash, if_pos hbackslash⟩
  · rw [if_neg hbackslash]
    by_cases hlineFeed : u = lineFeed
    · exact Or.inr (Or.inl ⟨hlineFeed, if_pos hlineFeed⟩)
    · rw [if_neg hlineFeed]
      by_cases hquote : u = quote
      · exact Or.inr (Or.inr (Or.inl ⟨hquote, if_pos hquote⟩))
      · exact Or.inr (Or.inr (Or.inr ⟨hbackslash, hlineFeed, hquote, if_neg hquote⟩))

/-- An escaped unit is read back as the unit. -/
theorem readQuoted_escapeUnit_append (u : UInt16) (s : Text) :
    readQuoted (escapeUnit u ++ s) = (readQuoted s).map fun r => (u :: r.1, r.2) := by
  obtain ⟨rfl, hunit⟩ | ⟨rfl, hunit⟩ | ⟨rfl, hunit⟩ | ⟨hbackslash, hlineFeed, hquote, hunit⟩ :=
    escapeUnit_cases u
  · rw [hunit]
    rfl
  · rw [hunit]
    rfl
  · rw [hunit]
    rfl
  · rw [hunit, List.singleton_append, readQuoted.eq_def]
    simp only [if_neg hbackslash, if_neg hlineFeed, if_neg hquote]

/-- **An escaped value is read back as the value.** -/
theorem readQuoted_escapeValue (v s : Text) :
    readQuoted (escapeValue v ++ quote :: s) = some (v, s) := by
  induction v with
  | nil =>
    show readQuoted (quote :: s) = some ([], s)
    rw [readQuoted.eq_def]
    exact if_pos rfl
  | cons u v ih =>
    rw [escapeValue, List.flatMap_cons, List.append_assoc, readQuoted_escapeUnit_append]
    rw [escapeValue] at ih
    rw [ih, Option.map_some]

/-- A label is read back. -/
theorem readLabel_labelText {l : Text × Text} (hl : isName l.1) (s : Text) :
    readLabel (labelText (l.1, escapeValue l.2) ++ s) = some (l, s) := by
  have htext : labelText (l.1, escapeValue l.2) ++ s =
      l.1 ++ equals :: quote :: (escapeValue l.2 ++ quote :: s) := by
    simp only [labelText, List.append_assoc, List.cons_append, List.nil_append]
  rw [htext, readLabel, readName_append hl (by decide), Option.bind_some, expect_cons,
    Option.bind_some, expect_cons, Option.bind_some, readQuoted_escapeValue, Option.map_some]

/-- Every label takes at least one unit. -/
theorem length_labelsText (ls : List (Text × Text)) : ls.length ≤ (labelsText ls).length := by
  induction ls with
  | nil => exact Nat.zero_le _
  | cons l ls ih =>
    cases ls with
    | nil => simp [labelsText]
    | cons l' ls =>
      have htext : labelsText (l :: l' :: ls) = labelText l ++ comma :: labelsText (l' :: ls) := rfl
      rw [htext]
      simp only [List.length_append, List.length_cons] at ih ⊢
      omega

/-- The labels of a line are read back. -/
theorem readLabels_labelsText {ls : List (Text × Text)} (hne : ls ≠ [])
    (hls : ∀ l ∈ ls, isName l.1) {n : ℕ} (hn : ls.length ≤ n) (s : Text) :
    readLabels n (labelsText (ls.map (Prod.map id escapeValue)) ++ s) = some (ls, s) := by
  induction ls generalizing n with
  | nil => exact absurd rfl hne
  | cons l ls ih =>
    obtain ⟨n, rfl⟩ : ∃ m, n = m + 1 := ⟨n - 1, by have := hn; simp at this; omega⟩
    have hl : isName l.1 := hls l List.mem_cons_self
    cases ls with
    | nil =>
      have htext : labelsText ([l].map (Prod.map id escapeValue)) ++ s =
          labelText (l.1, escapeValue l.2) ++ closeBrace :: s := by
        simp [labelsText, Prod.map]
      rw [htext, readLabels, readLabel_labelText hl, Option.bind_some, expect_cons]
    | cons l' ls =>
      have htext : labelsText ((l :: l' :: ls).map (Prod.map id escapeValue)) ++ s =
          labelText (l.1, escapeValue l.2) ++
            comma :: (labelsText ((l' :: ls).map (Prod.map id escapeValue)) ++ s) := by
        simp [labelsText, Prod.map]
      have hrest := ih (List.cons_ne_nil l' ls) (fun l hl => hls l (List.mem_cons_of_mem _ hl))
        (Nat.le_of_succ_le_succ hn)
      rw [htext, readLabels, readLabel_labelText hl, Option.bind_some,
        expect_cons_of_ne (by decide)]
      show (expect comma (comma :: _)).bind _ = _
      rw [expect_cons, Option.bind_some, hrest, Option.map_some]

/-! ### Lines -/

/-- A number is read back. -/
theorem readValue_cons {v : Text} (hv : isValue v) : readValue (space :: v) = some v := by
  rw [readValue, expect_cons, Option.bind_some, if_pos hv]

/-- A sample is read back from its line. -/
theorem readSample_text {s : Sample} (h : s.WellFormed) : readSample s.text = some s := by
  obtain ⟨name, labels, value⟩ := s
  obtain ⟨hname, hlabels, hvalue⟩ := h
  cases labels with
  | nil =>
    show readSample (name ++ space :: value) = _
    rw [readSample, readName_append hname (by decide), Option.bind_some,
      expect_cons_of_ne (by decide)]
    show (readValue (space :: value)).map _ = _
    rw [readValue_cons hvalue, Option.map_some]
  | cons l ls =>
    have hlen : (l :: ls).length ≤
        (labelsText ((l :: ls).map (Prod.map id escapeValue)) ++ space :: value).length := by
      have hle := length_labelsText ((l :: ls).map (Prod.map id escapeValue))
      rw [List.length_map] at hle
      rw [List.length_append]
      omega
    show readSample (name ++ openBrace ::
      (labelsText ((l :: ls).map (Prod.map id escapeValue)) ++ space :: value)) = _
    rw [readSample, readName_append hname (by decide), Option.bind_some, expect_cons]
    show (readLabels _ _).bind _ = _
    rw [readLabels_labelsText (List.cons_ne_nil l ls) hlabels hlen, Option.bind_some,
      readValue_cons hvalue, Option.map_some]

/-- The kind of a metric is read back. -/
theorem readType_text (k : MetricType) : readType k.text = some k := by
  cases k <;> decide

/-- A sample is not taken for a comment. -/
theorem expectAll_of_isName {name : Text} (h : isName name) {u : UInt16}
    (hu : isNameStart u = false) (p s : Text) : expectAll (u :: p) (name ++ s) = none := by
  cases name with
  | nil => exact absurd h Bool.false_ne_true
  | cons v name =>
    have hne : v ≠ u := by
      rintro rfl
      rw [isName, hu] at h
      exact absurd h Bool.false_ne_true
    rw [List.cons_append, expectAll, expect_cons_of_ne hne]
    rfl

/-- What makes a line well formed. -/
def Line.WellFormed : Line → Prop
  | .help name doc => isName name ∧ isDoc doc
  | .type name _ => isName name
  | .sample s => s.WellFormed

/-- The line of a sample starts with its name. -/
theorem Sample.text_eq (s : Sample) : ∃ t, s.text = s.name ++ t := by
  unfold Sample.text
  split
  · exact ⟨_, rfl⟩
  · exact ⟨_, rfl⟩

/-- Every well-formed line is read back. -/
theorem readLine_text {l : Line} (h : l.WellFormed) : readLine l.text = some l := by
  cases l with
  | help name doc =>
    rw [Line.text, readLine, expectAll_append]
    show (readName _).bind _ = _
    rw [readName_append h.1 (by decide), Option.bind_some, expect_cons, Option.map_some]
  | type name kind =>
    have hhelp : expectAll (units "# HELP ") (units "# TYPE " ++ (name ++ space :: kind.text)) =
        none := rfl
    rw [Line.text, readLine]
    simp only [hhelp, expectAll_append]
    rw [readName_append h (by decide), Option.bind_some, expect_cons, Option.bind_some,
      readType_text, Option.map_some]
  | sample s =>
    obtain ⟨t, ht⟩ := s.text_eq
    have hcomment : ∀ p : String, (units p).head? = some 35 →
        expectAll (units p) s.text = none := by
      intro p hp
      obtain ⟨q, hq⟩ := List.head?_eq_some_iff.mp hp
      rw [hq, ht]
      exact expectAll_of_isName h.name (by decide) q t
    have hhelp := hcomment "# HELP " (by decide)
    have htype := hcomment "# TYPE " (by decide)
    rw [Line.text, readLine]
    simp only [hhelp, htype]
    rw [readSample_text h, Option.map_some]

/-! ### Line feeds -/

/-- A name has no line feed. -/
theorem lineFeed_notMem_of_isName {name : Text} (h : isName name) : lineFeed ∉ name :=
  fun hmem => absurd (isNameUnit_of_isName h _ hmem) (by decide)

/-- A number has no line feed. -/
theorem lineFeed_notMem_of_isValue {v : Text} (h : isValue v) : lineFeed ∉ v := by
  intro hmem
  have hunit := List.all_eq_true.mp (Bool.and_eq_true_iff.mp h).2 _ hmem
  exact absurd hunit (by decide)

/-- A help text has no line feed. -/
theorem lineFeed_notMem_of_isDoc {doc : Text} (h : isDoc doc) : lineFeed ∉ doc :=
  fun hmem => absurd (List.all_eq_true.mp h _ hmem) (by decide)

/-- An escaped value has no line feed. -/
theorem lineFeed_notMem_escapeValue (v : Text) : lineFeed ∉ escapeValue v := by
  intro hmem
  obtain ⟨u, -, hu⟩ := List.mem_flatMap.mp hmem
  obtain ⟨rfl, hunit⟩ | ⟨rfl, hunit⟩ | ⟨rfl, hunit⟩ | ⟨-, hlineFeed, -, hunit⟩ := escapeUnit_cases u
  · rw [hunit] at hu
    exact absurd hu (by decide)
  · rw [hunit] at hu
    exact absurd hu (by decide)
  · rw [hunit] at hu
    exact absurd hu (by decide)
  · rw [hunit] at hu
    exact hlineFeed (List.mem_singleton.mp hu).symm

/-- Labels have no line feed. -/
theorem lineFeed_notMem_labelsText {ls : List (Text × Text)} (hls : ∀ l ∈ ls, isName l.1) :
    lineFeed ∉ labelsText (ls.map (Prod.map id escapeValue)) := by
  have hlabel : ∀ l ∈ ls, lineFeed ∉ labelText (l.1, escapeValue l.2) := by
    intro l hl hmem
    simp only [labelText, List.mem_append, List.mem_cons, List.not_mem_nil, or_false] at hmem
    rcases hmem with hmem | hmem | hmem | hmem | hmem
    · exact lineFeed_notMem_of_isName (hls l hl) hmem
    · exact absurd hmem (by decide)
    · exact absurd hmem (by decide)
    · exact lineFeed_notMem_escapeValue l.2 hmem
    · exact absurd hmem (by decide)
  induction ls with
  | nil => decide
  | cons l ls ih =>
    have hrest := ih (fun l hl => hls l (List.mem_cons_of_mem _ hl))
      (fun l hl => hlabel l (List.mem_cons_of_mem _ hl))
    cases ls with
    | nil =>
      intro hmem
      rcases List.mem_append.mp hmem with hmem | hmem
      · exact hlabel l List.mem_cons_self hmem
      · exact absurd hmem (by decide)
    | cons l' ls =>
      intro hmem
      rcases List.mem_append.mp hmem with hmem | hmem
      · exact hlabel l List.mem_cons_self hmem
      · rcases List.mem_cons.mp hmem with hmem | hmem
        · exact absurd hmem (by decide)
        · exact hrest hmem

/-- The line of a sample has no line feed. -/
theorem lineFeed_notMem_sample {s : Sample} (h : s.WellFormed) : lineFeed ∉ s.text := by
  obtain ⟨name, labels, value⟩ := s
  obtain ⟨hname, hlabels, hvalue⟩ := h
  have htail : lineFeed ∉ space :: value := by
    intro hmem
    rcases List.mem_cons.mp hmem with hmem | hmem
    · exact absurd hmem (by decide)
    · exact lineFeed_notMem_of_isValue hvalue hmem
  cases labels with
  | nil =>
    intro hmem
    rcases List.mem_append.mp hmem with hmem | hmem
    · exact lineFeed_notMem_of_isName hname hmem
    · exact htail hmem
  | cons l ls =>
    intro hmem
    rcases List.mem_append.mp hmem with hmem | hmem
    · exact lineFeed_notMem_of_isName hname hmem
    · rcases List.mem_cons.mp hmem with hmem | hmem
      · exact absurd hmem (by decide)
      · rcases List.mem_append.mp hmem with hmem | hmem
        · exact lineFeed_notMem_labelsText hlabels hmem
        · exact htail hmem

/-- No well-formed line has a line feed in it. -/
theorem lineFeed_notMem_text {l : Line} (h : l.WellFormed) : lineFeed ∉ l.text := by
  have hcomment : ∀ {mark name rest : Text}, lineFeed ∉ mark → isName name → lineFeed ∉ rest →
      lineFeed ∉ mark ++ (name ++ space :: rest) := by
    intro mark name rest hmark hname hrest hmem
    simp only [List.mem_append, List.mem_cons] at hmem
    rcases hmem with hmem | hmem | hmem | hmem
    · exact hmark hmem
    · exact lineFeed_notMem_of_isName hname hmem
    · exact absurd hmem (by decide)
    · exact hrest hmem
  cases l with
  | help name doc => exact hcomment (by decide) h.1 (lineFeed_notMem_of_isDoc h.2)
  | type name kind => exact hcomment (by decide) h (by cases kind <;> decide)
  | sample s => exact lineFeed_notMem_sample h

/-! ### Whole texts -/

/-- A text is split after its first line. -/
theorem splitLines_append {l : Text} (hl : lineFeed ∉ l) (s : Text) :
    splitLines (l ++ lineFeed :: s) = (splitLines s).map (l :: ·) := by
  induction l with
  | nil => exact if_pos rfl
  | cons u l ih =>
    obtain ⟨hu, hl⟩ := not_or.mp (List.mem_cons.not.mp hl)
    rw [List.cons_append, splitLines, if_neg (Ne.symm hu), ih hl]
    cases splitLines s <;> rfl

/-- A text is split into its lines. -/
theorem splitLines_linesText {ls : List Text} (hls : ∀ l ∈ ls, lineFeed ∉ l) :
    splitLines (linesText ls) = some ls := by
  induction ls with
  | nil => rfl
  | cons l ls ih =>
    rw [linesText, List.flatMap_cons, List.append_assoc, List.singleton_append,
      splitLines_append (hls l List.mem_cons_self)]
    rw [linesText] at ih
    rw [ih fun l hl => hls l (List.mem_cons_of_mem _ hl), Option.map_some]

/-- Lines that are joined, with a line feed at the end. -/
theorem intercalate_lineFeed {ls : List Text} (h : ls ≠ []) :
    List.intercalate [lineFeed] ls ++ [lineFeed] = linesText ls := by
  induction ls with
  | nil => exact absurd rfl h
  | cons l ls ih =>
    cases ls with
    | nil => simp [linesText]
    | cons l' ls =>
      have hrest := ih (List.cons_ne_nil l' ls)
      rw [List.intercalate_cons_cons, List.append_assoc, List.append_assoc, hrest,
        ← List.append_assoc]
      rfl

/-- The lines of a text are read back. -/
theorem readLines_text {ls : List Line} (hls : ∀ l ∈ ls, l.WellFormed) :
    readLines (ls.map Line.text) = some ls := by
  induction ls with
  | nil => rfl
  | cons l ls ih =>
    rw [List.map_cons, readLines, readLine_text (hls l List.mem_cons_self), Option.bind_some,
      ih fun l hl => hls l (List.mem_cons_of_mem _ hl), Option.map_some]

/-- The samples in front of a family's comments belong to it. -/
theorem foldr_samples (ss : List Sample) (fs : List Family) :
    (ss.map Line.sample).foldr (fun l (r : Option Reading) => r.bind (Reading.add l))
        (some ⟨[], none, fs⟩) =
      some ⟨ss, none, fs⟩ := by
  induction ss with
  | nil => rfl
  | cons s ss ih =>
    rw [List.map_cons, List.foldr_cons, ih]
    rfl

/-- The lines of families, read from the last one on, give the families. -/
theorem foldr_families (fs : List Family) :
    (fs.flatMap Family.lines).foldr (fun l (r : Option Reading) => r.bind (Reading.add l))
        (some {}) =
      some ⟨[], none, fs⟩ := by
  induction fs with
  | nil => rfl
  | cons f fs ih =>
    rw [List.flatMap_cons, List.foldr_append, ih, Family.lines, List.foldr_cons, List.foldr_cons,
      foldr_samples]
    exact if_pos rfl

/-- **The lines of families are grouped into these families.** -/
theorem group_lines (fs : List Family) : group (fs.flatMap Family.lines) = some fs := by
  rw [group, foldr_families]

/-- The lines of a well-formed family are well formed. -/
theorem wellFormed_lines {f : Family} (h : f.WellFormed) : ∀ l ∈ f.lines, l.WellFormed := by
  intro l hl
  simp only [Family.lines, List.mem_cons, List.mem_map] at hl
  rcases hl with rfl | rfl | ⟨s, hs, rfl⟩
  · exact ⟨h.name, h.doc⟩
  · exact h.name
  · exact h.samples s hs

/-- **Round trip.**  The families that were written are read back. -/
theorem scrape_textOf {fs : List Family} (h : ∀ f ∈ fs, f.WellFormed) :
    scrape (textOf fs) = some fs := by
  have hlines : ∀ l ∈ fs.flatMap Family.lines, l.WellFormed := by
    intro l hl
    obtain ⟨f, hf, hl⟩ := List.mem_flatMap.mp hl
    exact wellFormed_lines (h f hf) l hl
  have hsplit : splitLines (textOf fs) = some ((fs.flatMap Family.lines).map Line.text) := by
    refine splitLines_linesText fun t ht => ?_
    obtain ⟨l, hl, rfl⟩ := List.mem_map.mp ht
    exact lineFeed_notMem_text (hlines l hl)
  rw [scrape, hsplit, Option.bind_some, readLines_text hlines, Option.bind_some, group_lines]

/-! ## Series -/

/-- Names that do not meet keep the families apart. -/
theorem nodup_names {fs : List Family} (h : (fs.flatMap Family.names).Nodup) :
    (fs.map Family.name).Nodup := by
  refine h.sublist ?_
  induction fs with
  | nil => exact List.Sublist.refl _
  | cons f fs ih =>
    rw [List.map_cons, List.flatMap_cons, Family.names, List.cons_append]
    have hrest := ih (List.Nodup.of_append_right (List.flatMap_cons ▸ h))
    exact (hrest.trans (List.sublist_append_right _ _)).cons_cons f.name

/-- Families with names of their own share no series. -/
theorem nodup_series {fs : List Family} (hnames : (fs.flatMap Family.names).Nodup)
    (howns : ∀ f ∈ fs, ∀ s ∈ f.samples, s.name ∈ f.names)
    (hseries : ∀ f ∈ fs, (f.samples.map Sample.series).Nodup) :
    ((fs.flatMap Family.samples).map Sample.series).Nodup := by
  induction fs with
  | nil => exact List.nodup_nil
  | cons f fs ih =>
    obtain ⟨-, hrest, hapart⟩ := List.nodup_append'.mp (List.flatMap_cons ▸ hnames)
    rw [List.flatMap_cons, List.map_append]
    refine List.nodup_append'.mpr ⟨hseries f List.mem_cons_self,
      ih hrest (fun g hg => howns g (List.mem_cons_of_mem _ hg))
        fun g hg => hseries g (List.mem_cons_of_mem _ hg), ?_⟩
    intro x hx hx'
    obtain ⟨s, hs, rfl⟩ := List.mem_map.mp hx
    obtain ⟨s', hs', heq⟩ := List.mem_map.mp hx'
    obtain ⟨g, hg, hs'⟩ := List.mem_flatMap.mp hs'
    have hname : s'.name = s.name := congrArg Prod.fst heq
    refine hapart (howns f List.mem_cons_self s hs) (List.mem_flatMap.mpr ⟨g, hg, ?_⟩)
    rw [← hname]
    exact howns g (List.mem_cons_of_mem _ hg) s' hs'

end RatelimitFlex.Library.Exposition
