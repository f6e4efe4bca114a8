import RatelimitFlex.Program.FormatHeaders

/-!
# The draft-8 headers as structured fields

The sanitizer leaves printable ASCII, and the two characters of it that a quoted string has to
escape go out as they are.  So the headers are read back as what they say exactly when the
identifier has neither of the two and the numbers are integers that a structured field can hold
(`draft8_headers_iff`).
-/

set_option autoImplicit false

namespace RatelimitFlex

open Library

/-- An integer of at most fifteen digits. -/
def FitsInteger (x : JsNumber) : Prop := ∃ z : ℤ, x = .ofInt z ∧ |z| < 10 ^ 15

/-- A header value is a string with two integer parameters. -/
def IsStringWith (value id : List Char) (key₁ : Char) (x₁ : JsNumber) (key₂ : Char)
    (x₂ : JsNumber) : Prop :=
  ∃ a b : ℤ, x₁ = .ofInt a ∧ x₂ = .ofInt b ∧
    parseItem value = some (.string id, [([key₁], .integer a), ([key₂], .integer b)])

/-- The value of a header of the primary map. -/
def HeaderOutput.value (out : HeaderOutput) (name : String) : List Char :=
  (out.headers.lookup name).getD []

/-- The quota policy and the quota are read back as what they say. -/
def Draft8Readable (decimal : ℚ → List Char) (nowMs : ℤ) (includeLegacy : Bool)
    (input : HeaderInput) : Prop :=
  let out := formatRateLimitHeaders decimal input nowMs .draft8 includeLegacy
  let id := sanitizeIdentifierFor8941 input.identifier
  IsStringWith (out.value "RateLimit-Policy") id 'q' input.limit
      'w' input.windowMs.perThousand.ceil ∧
    IsStringWith (out.value "RateLimit") id 'r' (clampRemaining input.remaining)
      't' (secondsUntilReset input.resetTime nowMs)

/-- No code unit to escape, and numbers that are integers of at most fifteen digits when they are
written. -/
structure Draft8Writable (nowMs : ℤ) (input : HeaderInput) : Prop where
  identifier : ∀ u ∈ input.identifier, u ≠ 34 ∧ u ≠ 92
  limit : FitsInteger input.limit
  window : ∃ ms : ℚ, input.windowMs = .finite ms ∧ -10 ^ 18 < ms ∧ ms ≤ 10 ^ 18 - 1000
  remaining : input.remaining.le 0 = true ∨ FitsInteger input.remaining
  reset : ∃ ms : ℤ, input.resetTime = .time ms ∧ ms - nowMs ≤ 10 ^ 18 - 1000

/-- The string of a header value. -/
def readString (value : List Char) : Option (List Char) :=
  match parseItem value with
  | some (.string s, _) => some s
  | _ => none

/-! ## A quoted identifier with two integers -/

/-- A whole number of up to fifteen digits is written as such. -/
theorem text_ofInt (decimal : ℚ → List Char) {z : ℤ} (hz : |z| < 10 ^ 15) :
    (JsNumber.ofInt z).text decimal = intText z := by
  have hfloor : ⌊(z : ℚ)⌋ = z := Int.floor_intCast z
  have hif : ((z : ℚ) = (⌊(z : ℚ)⌋ : ℤ)) ∧ |⌊(z : ℚ)⌋| < 10 ^ 15 := by
    rw [hfloor]
    exact ⟨rfl, hz⟩
  unfold JsNumber.ofInt JsNumber.text
  dsimp only
  rw [if_pos hif]
  exact congrArg intText hfloor

/-- A parameter with an integer, before another one or at the end. -/
theorem parseParameters_integer {key : Char} (hkey : key.isLower = true) {z : ℤ}
    (hz : |z| < 10 ^ 15) (fuel : ℕ) (params : Parameters) {rest : List Char}
    (hrest : ∀ c ∈ rest.head?, c = ';') :
    parseParameters (fuel + 1) params (';' :: key :: '=' :: (intText z ++ rest)) =
      parseParameters fuel (setParameter [key] (.integer z) params) rest := by
  have hspace : key ≠ ' ' := by
    rintro rfl
    exact absurd hkey (by decide)
  have hequals : isKeyChar '=' = false := by decide
  have hvalue : parseBareItem (intText z ++ rest) = some (.integer z, rest) := by
    refine parseBareItem_intText hz fun c hc => ?_
    rw [hrest c hc]
    decide
  have hdrop : (key :: '=' :: (intText z ++ rest)).dropWhile (fun c => decide (c = ' ')) =
      key :: '=' :: (intText z ++ rest) := by
    rw [List.dropWhile_cons_of_neg (by simp [hspace])]
  have hparse : parseKey (key :: '=' :: (intText z ++ rest)) =
      some ([key], '=' :: (intText z ++ rest)) := by
    rw [parseKey, if_pos (Or.inr hkey), List.takeWhile_cons_of_neg (by simp [hequals]),
      List.dropWhile_cons_of_neg (by simp [hequals])]
  rw [parseParameters]
  simp only [List.head?_cons, if_true, List.tail_cons, hdrop, hparse, hvalue]

/-- The string of an item that begins with a quote. -/
theorem parseBareItem_dquote (s : List Char) :
    parseBareItem (dquote :: s) = (parseStringBody s).map fun r => (.string r.1, r.2) := by
  have hnumber : ¬ (dquote = '-' ∨ dquote.isDigit = true) := by decide
  rw [parseBareItem.eq_def]
  simp only [if_neg hnumber, if_true]

/-- A quoted string starts with its quote. -/
theorem dropWhile_dquote (s : List Char) :
    (dquote :: s).dropWhile (fun c => decide (c = ' ')) = dquote :: s :=
  List.dropWhile_cons_of_neg (by decide)

/-- **A quoted identifier with two integers is read back.** -/
theorem parseItem_quotedWith {id : List Char}
    (hid : ∀ c ∈ id, (' ' ≤ c ∧ c ≤ '~') ∧ c ≠ dquote ∧ c ≠ backslash) {key₁ key₂ : Char}
    (hkey₁ : key₁.isLower = true) (hkey₂ : key₂.isLower = true) (hne : key₁ ≠ key₂) {a b : ℤ}
    (ha : |a| < 10 ^ 15) (hb : |b| < 10 ^ 15) :
    parseItem (quotedWith id key₁ (intText a) key₂ (intText b)) =
      some (.string id, [([key₁], .integer a), ([key₂], .integer b)]) := by
  have hkeys : [key₁] ≠ [key₂] := fun h => hne (List.cons.inj h).1
  have hsecond : parseParameters ((intText b).length + (intText a).length + 6)
      [([key₁], .integer a)] (';' :: key₂ :: '=' :: intText b) =
      some ([([key₁], .integer a), ([key₂], .integer b)], []) := by
    have hend : ∀ c ∈ ([] : List Char).head?, c = ';' := fun c hc => by cases hc
    have hstep := parseParameters_integer hkey₂ hb ((intText b).length + (intText a).length + 5)
      [([key₁], .integer a)] hend
    rw [List.append_nil] at hstep
    rw [hstep, setParameter, if_neg hkeys, setParameter, parseParameters]
    rfl
  have hnext : ∀ c ∈ (';' :: key₂ :: '=' :: intText b).head?, c = ';' := by
    intro c hc
    rw [List.head?_cons] at hc
    exact (Option.some.inj hc).symm
  have hfirst := parseParameters_integer hkey₁ ha ((intText b).length + (intText a).length + 6) []
    hnext
  rw [setParameter, hsecond] at hfirst
  have hlength : (';' :: key₁ :: '=' :: (intText a ++ ';' :: key₂ :: '=' :: intText b)).length + 1 =
      (intText b).length + (intText a).length + 6 + 1 := by
    simp only [List.length_cons, List.length_append]
    omega
  rw [parseItem, quotedWith, dropWhile_dquote, parseBareItem_dquote, parseStringBody_of_plain hid]
  simp only [Option.map_some, hlength, hfirst, List.dropWhile_nil, if_true]

/-- **It is read back under no other condition**, whatever stands for the numbers. -/
theorem isStringWith_quotedWith_iff (decimal : ℚ → List Char) {id : List Char}
    (hid : ∀ c ∈ id, ' ' ≤ c ∧ c ≤ '~') {key₁ key₂ : Char} (hkey₁ : key₁.isLower = true)
    (hkey₂ : key₂.isLower = true) (hne : key₁ ≠ key₂) (x₁ x₂ : JsNumber) :
    IsStringWith (quotedWith id key₁ (x₁.text decimal) key₂ (x₂.text decimal)) id key₁ x₁ key₂ x₂ ↔
      (∀ c ∈ id, c ≠ dquote ∧ c ≠ backslash) ∧ FitsInteger x₁ ∧ FitsInteger x₂ := by
  constructor
  · rintro ⟨a, b, rfl, rfl, hparse⟩
    have hfit := integersFit_of_parseItem hparse
    refine ⟨?_, ⟨a, rfl, hfit [key₁] a List.mem_cons_self⟩,
      ⟨b, rfl, hfit [key₂] b (List.mem_cons_of_mem _ List.mem_cons_self)⟩⟩
    rw [parseItem, quotedWith, dropWhile_dquote, parseBareItem_dquote] at hparse
    cases hbody : parseStringBody (id ++ dquote :: ';' :: key₁ :: '=' ::
        ((JsNumber.ofInt a).text decimal ++ ';' :: key₂ :: '=' ::
          (JsNumber.ofInt b).text decimal)) with
    | none =>
      rw [hbody] at hparse
      cases hparse
    | some r =>
      obtain ⟨s, rest⟩ := r
      have hwritten := eq_of_parseStringBody hbody
      rw [hbody] at hparse
      simp only [Option.map_some] at hparse
      split at hparse
      · cases hparse
      · split at hparse
        · obtain ⟨hstring, -⟩ := Prod.mk.inj (Option.some.inj hparse)
          rw [BareItem.string.inj hstring] at hwritten
          exact plain_of_escapeString_eq hwritten.symm
        · cases hparse
  · rintro ⟨hplain, ⟨a, rfl, ha⟩, ⟨b, rfl, hb⟩⟩
    refine ⟨a, b, rfl, rfl, ?_⟩
    rw [text_ofInt decimal ha, text_ofInt decimal hb]
    exact parseItem_quotedWith (fun c hc => ⟨hid c hc, hplain c hc⟩) hkey₁ hkey₂ hne ha hb

/-! ## The sanitizer -/

/-- A sanitized identifier is printable. -/
theorem sanitized_printable (id : List UInt16) :
    ∀ c ∈ sanitizeIdentifierFor8941 id, ' ' ≤ c ∧ c ≤ '~' := by
  have hchars : ∀ n < 127, 32 ≤ n → ' ' ≤ Char.ofNat n ∧ Char.ofNat n ≤ '~' := by decide
  intro c hc
  obtain ⟨u, -, rfl⟩ := List.mem_map.mp hc
  split
  · next hu =>
    obtain ⟨hlower, hupper⟩ := hu
    rw [UInt16.le_iff_toNat_le] at hlower hupper
    exact hchars u.toNat (Nat.lt_succ_of_le hupper) hlower
  · decide

/-- The sanitizer leaves the quotes and backslashes, and makes no others. -/
theorem sanitized_plain_iff (id : List UInt16) :
    (∀ c ∈ sanitizeIdentifierFor8941 id, c ≠ dquote ∧ c ≠ backslash) ↔
      ∀ u ∈ id, u ≠ 34 ∧ u ≠ 92 := by
  have hchars : ∀ n < 127, 32 ≤ n →
      ((Char.ofNat n ≠ dquote ∧ Char.ofNat n ≠ backslash) ↔ (n ≠ 34 ∧ n ≠ 92)) := by decide
  have hhyphen : '-' ≠ dquote ∧ '-' ≠ backslash := by decide
  rw [sanitizeIdentifierFor8941, List.forall_mem_map]
  refine forall₂_congr fun u _ => ?_
  have hquote : u ≠ 34 ↔ u.toNat ≠ 34 := by
    rw [ne_eq, ne_eq, ← UInt16.toNat_inj]
    rfl
  have hslash : u ≠ 92 ↔ u.toNat ≠ 92 := by
    rw [ne_eq, ne_eq, ← UInt16.toNat_inj]
    rfl
  rw [hquote, hslash]
  split
  · next hu =>
    obtain ⟨hlower, hupper⟩ := hu
    rw [UInt16.le_iff_toNat_le] at hlower hupper
    exact hchars u.toNat (Nat.lt_succ_of_le hupper) hlower
  · next hu =>
    have hne : u.toNat ≠ 34 ∧ u.toNat ≠ 92 := by
      constructor
      · intro h
        exact hu ⟨UInt16.le_iff_toNat_le.mpr (by rw [h]; decide),
          UInt16.le_iff_toNat_le.mpr (by rw [h]; decide)⟩
      · intro h
        exact hu ⟨UInt16.le_iff_toNat_le.mpr (by rw [h]; decide),
          UInt16.le_iff_toNat_le.mpr (by rw [h]; decide)⟩
    exact iff_of_true hhyphen hne

/-! ## The numbers -/

/-- An integer of the format is a whole number of up to fifteen digits. -/
theorem fitsInteger_finite_iff (q : ℚ) :
    FitsInteger (.finite q) ↔ ∃ z : ℤ, q = z ∧ |z| < 10 ^ 15 := by
  constructor
  · rintro ⟨z, hz, hfit⟩
    exact ⟨z, JsNumber.finite.inj hz, hfit⟩
  · rintro ⟨z, rfl, hfit⟩
    exact ⟨z, rfl, hfit⟩

/-- Only finite numbers are. -/
theorem not_fitsInteger_of_ne {x : JsNumber} (h : ∀ q, x ≠ .finite q) : ¬ FitsInteger x := by
  rintro ⟨z, hz, -⟩
  exact h z hz

/-- The seconds of an interval that fit. -/
theorem ceil_div_lt_iff (q : ℚ) : ⌈q / 1000⌉ < 10 ^ 15 ↔ q ≤ 10 ^ 18 - 1000 := by
  rw [← Int.le_sub_one_iff, Int.ceil_le, div_le_iff₀ (by norm_num)]
  norm_num

/-- Those of one that has passed. -/
theorem lt_ceil_div_iff (q : ℚ) : -10 ^ 15 < ⌈q / 1000⌉ ↔ -10 ^ 18 < q := by
  rw [Int.lt_ceil, lt_div_iff₀ (by norm_num)]
  norm_num

/-- A rounded quotient of a finite number is an integer, and has to be in range. -/
theorem fitsInteger_ceil_perThousand_iff (x : JsNumber) :
    FitsInteger x.perThousand.ceil ↔
      ∃ ms : ℚ, x = .finite ms ∧ -10 ^ 18 < ms ∧ ms ≤ 10 ^ 18 - 1000 := by
  cases x with
  | finite q =>
    rw [JsNumber.perThousand, JsNumber.ceil, fitsInteger_finite_iff]
    have hrange : |⌈q / 1000⌉| < 10 ^ 15 ↔ -10 ^ 18 < q ∧ q ≤ 10 ^ 18 - 1000 := by
      rw [abs_lt, lt_ceil_div_iff, ceil_div_lt_iff]
    constructor
    · rintro ⟨z, hz, hfit⟩
      rw [← Int.cast_inj.mp hz, hrange] at hfit
      exact ⟨q, rfl, hfit⟩
    · rintro ⟨ms, hms, hfit⟩
      obtain rfl := JsNumber.finite.inj hms
      exact ⟨_, rfl, hrange.mpr hfit⟩
  | nan =>
    refine iff_of_false (not_fitsInteger_of_ne fun q h => by cases h) ?_
    rintro ⟨ms, hms, -⟩
    cases hms
  | posInfinity =>
    refine iff_of_false (not_fitsInteger_of_ne fun q h => by cases h) ?_
    rintro ⟨ms, hms, -⟩
    cases hms
  | negInfinity =>
    refine iff_of_false (not_fitsInteger_of_ne fun q h => by cases h) ?_
    rintro ⟨ms, hms, -⟩
    cases hms

/-- Zero fits. -/
theorem fitsInteger_zero : FitsInteger 0 := ⟨0, rfl, by norm_num⟩

/-- What is not positive goes out as zero. -/
theorem fitsInteger_max_zero_iff (x : JsNumber) :
    FitsInteger (JsNumber.max 0 x) ↔ x.le 0 = true ∨ FitsInteger x := by
  cases x with
  | finite q =>
    have hle : (JsNumber.finite q).le 0 = true ↔ q ≤ 0 := by
      rw [show (0 : JsNumber) = .finite ((0 : ℤ) : ℚ) from rfl, JsNumber.le, decide_eq_true_iff,
        Int.cast_zero]
    have hmax : JsNumber.max 0 (.finite q) = if 0 ≤ q then .finite q else 0 := by
      rw [show (0 : JsNumber) = .finite ((0 : ℤ) : ℚ) from rfl]
      simp [JsNumber.max, JsNumber.le]
    rw [hle, hmax]
    split
    · next hq =>
      refine ⟨Or.inr, fun h => ?_⟩
      rcases h with hneg | hfit
      · rw [le_antisymm hneg hq]
        exact fitsInteger_zero
      · exact hfit
    · next hq => exact iff_of_true fitsInteger_zero (Or.inl (not_le.mp hq).le)
  | nan =>
    refine iff_of_false (not_fitsInteger_of_ne fun q h => by cases h) ?_
    rintro (hle | hfit)
    · cases hle
    · exact not_fitsInteger_of_ne (fun q h => by cases h) hfit
  | posInfinity =>
    refine iff_of_false (not_fitsInteger_of_ne fun q h => by cases h) ?_
    rintro (hle | hfit)
    · cases hle
    · exact not_fitsInteger_of_ne (fun q h => by cases h) hfit
  | negInfinity => exact iff_of_true fitsInteger_zero (Or.inl rfl)

/-- What is left fits when it has up to fifteen digits. -/
theorem fitsInteger_max_zero_ofInt_iff (z : ℤ) :
    FitsInteger (JsNumber.max 0 (.ofInt z)) ↔ z < 10 ^ 15 := by
  have hle : (JsNumber.ofInt z).le 0 = true ↔ z ≤ 0 := by
    rw [show (0 : JsNumber) = .finite ((0 : ℤ) : ℚ) from rfl, JsNumber.ofInt, JsNumber.le,
      decide_eq_true_iff, Int.cast_le]
  have hfits : FitsInteger (.ofInt z) ↔ |z| < 10 ^ 15 := by
    rw [JsNumber.ofInt, fitsInteger_finite_iff]
    constructor
    · rintro ⟨z', hz, hfit⟩
      rwa [Int.cast_inj.mp hz]
    · exact fun hfit => ⟨z, rfl, hfit⟩
  rw [fitsInteger_max_zero_iff, hle, hfits, abs_lt]
  omega

/-- The seconds until the reset fit exactly when the reset is a time and near enough. -/
theorem fitsInteger_secondsUntilReset_iff (resetTime : JsDate) (nowMs : ℤ) :
    FitsInteger (secondsUntilReset resetTime nowMs) ↔
      ∃ ms : ℤ, resetTime = .time ms ∧ ms - nowMs ≤ 10 ^ 18 - 1000 := by
  cases resetTime with
  | time ms =>
    have hquotient : secondsUntilReset (.time ms) nowMs =
        JsNumber.max 0 (JsNumber.ofInt ⌈((ms - nowMs : ℤ) : ℚ) / 1000⌉) := by
      rw [Int.cast_sub, sub_eq_add_neg, ← Int.cast_neg]
      rfl
    have hceil := ceil_div_lt_iff ((ms - nowMs : ℤ) : ℚ)
    have hcast : ((ms - nowMs : ℤ) : ℚ) ≤ 10 ^ 18 - 1000 ↔ ms - nowMs ≤ 10 ^ 18 - 1000 := by
      norm_cast
    have hdate : (∃ ms' : ℤ, JsDate.time ms = .time ms' ∧ ms' - nowMs ≤ 10 ^ 18 - 1000) ↔
        ms - nowMs ≤ 10 ^ 18 - 1000 := by
      constructor
      · rintro ⟨ms', heq, hle⟩
        rwa [JsDate.time.inj heq]
      · exact fun hle => ⟨ms, rfl, hle⟩
    rw [hquotient, fitsInteger_max_zero_ofInt_iff, hceil, hcast, hdate]
  | invalid =>
    refine iff_of_false (not_fitsInteger_of_ne fun q h => by cases h) ?_
    rintro ⟨ms, hms, -⟩
    cases hms

/-! ## The headers -/

/-- The policy header of the draft. -/
theorem draft8_policy (decimal : ℚ → List Char) (nowMs : ℤ) (includeLegacy : Bool)
    (input : HeaderInput) :
    (formatRateLimitHeaders decimal input nowMs .draft8 includeLegacy).value "RateLimit-Policy" =
      quotedWith (sanitizeIdentifierFor8941 input.identifier) 'q' (input.limit.text decimal)
        'w' (input.windowMs.perThousand.ceil.text decimal) := rfl

/-- Its quota header. -/
theorem draft8_quota (decimal : ℚ → List Char) (nowMs : ℤ) (includeLegacy : Bool)
    (input : HeaderInput) :
    (formatRateLimitHeaders decimal input nowMs .draft8 includeLegacy).value "RateLimit" =
      quotedWith (sanitizeIdentifierFor8941 input.identifier) 'r'
        ((clampRemaining input.remaining).text decimal) 't'
        ((secondsUntilReset input.resetTime nowMs).text decimal) := rfl

/-- Both are read back exactly when they can be written. -/
theorem draft8Readable_iff (decimal : ℚ → List Char) (nowMs : ℤ) (includeLegacy : Bool)
    (input : HeaderInput) :
    Draft8Readable decimal nowMs includeLegacy input ↔ Draft8Writable nowMs input := by
  have hprintable := sanitized_printable input.identifier
  have hpolicy := isStringWith_quotedWith_iff decimal hprintable (show 'q'.isLower = true by decide)
    (show 'w'.isLower = true by decide) (by decide) input.limit input.windowMs.perThousand.ceil
  have hquota := isStringWith_quotedWith_iff decimal hprintable (show 'r'.isLower = true by decide)
    (show 't'.isLower = true by decide) (by decide) (clampRemaining input.remaining)
    (secondsUntilReset input.resetTime nowMs)
  rw [sanitized_plain_iff, fitsInteger_ceil_perThousand_iff] at hpolicy
  rw [sanitized_plain_iff, clampRemaining, fitsInteger_max_zero_iff,
    fitsInteger_secondsUntilReset_iff] at hquota
  unfold Draft8Readable
  dsimp only
  rw [draft8_policy, draft8_quota, clampRemaining, hpolicy, hquota]
  constructor
  · rintro ⟨⟨hid, hlimit, hwindow⟩, -, hremaining, hreset⟩
    exact ⟨hid, hlimit, hwindow, hremaining, hreset⟩
  · rintro ⟨hid, hlimit, hwindow, hremaining, hreset⟩
    exact ⟨⟨hid, hlimit, hwindow⟩, hid, hremaining, hreset⟩

/-- The string is read back whatever its parameters are. -/
theorem IsStringWith.readString {value id : List Char} {key₁ key₂ : Char} {x₁ x₂ : JsNumber}
    (h : IsStringWith value id key₁ x₁ key₂ x₂) : readString value = some id := by
  obtain ⟨a, b, -, -, hparse⟩ := h
  rw [RatelimitFlex.readString, hparse]

/-- **The draft-8 headers are read back as the sanitized identifier with the four integers exactly
when** the identifier has no quote and no backslash and the numbers are written as integers of at
most fifteen digits; of two such inputs with different sanitized identifiers the strings that are
read differ. -/
theorem draft8_headers_iff (decimal : ℚ → List Char) (nowMs : ℤ) (includeLegacy : Bool) :
    (∀ input, Draft8Readable decimal nowMs includeLegacy input ↔ Draft8Writable nowMs input) ∧
      ∀ input input', Draft8Writable nowMs input → Draft8Writable nowMs input' →
        sanitizeIdentifierFor8941 input.identifier ≠ sanitizeIdentifierFor8941 input'.identifier →
        ∀ name ∈ ["RateLimit-Policy", "RateLimit"], ∀ name' ∈ ["RateLimit-Policy", "RateLimit"],
          readString ((formatRateLimitHeaders decimal input nowMs .draft8 includeLegacy).value
              name) ≠
            readString ((formatRateLimitHeaders decimal input' nowMs .draft8 includeLegacy).value
              name') := by
  refine ⟨draft8Readable_iff decimal nowMs includeLegacy, ?_⟩
  have hread : ∀ input, Draft8Writable nowMs input →
      ∀ name ∈ ["RateLimit-Policy", "RateLimit"],
        readString ((formatRateLimitHeaders decimal input nowMs .draft8 includeLegacy).value
          name) = some (sanitizeIdentifierFor8941 input.identifier) := by
    intro input hinput name hname
    obtain ⟨hpolicy, hquota⟩ := (draft8Readable_iff decimal nowMs includeLegacy input).mpr hinput
    rcases List.mem_pair.mp hname with rfl | rfl
    · exact hpolicy.readString
    · exact hquota.readString
  intro input input' hinput hinput' hne name hname name' hname' heq
  rw [hread input hinput name hname, hread input' hinput' name' hname'] at heq
  exact hne (Option.some.inj heq)

/-- A snapshot of a blocked client, a minute before its reset. -/
def blockedFor (identifier : List UInt16) : HeaderInput where
  limit := 100
  remaining := 0
  resetTime := .time 60000
  isBlocked := true
  windowMs := 60000
  identifier := identifier

/-- An identifier without quotes and backslashes is written as it is. -/
theorem blockedFor_writable {identifier : List UInt16}
    (h : ∀ u ∈ identifier, u ≠ 34 ∧ u ≠ 92) : Draft8Writable 0 (blockedFor identifier) where
  identifier := h
  limit := ⟨100, rfl, by norm_num⟩
  window := ⟨60000, rfl, by norm_num, by norm_num⟩
  remaining := Or.inl rfl
  reset := ⟨60000, rfl, by norm_num⟩

/-- The identifier `100-per-60`. -/
theorem draft8_headers_default_identifier :
    Draft8Readable (fun _ => []) 0 false
      (blockedFor [49, 48, 48, 45, 112, 101, 114, 45, 54, 48]) :=
  ((draft8_headers_iff (fun _ => []) 0 false).1 _).mpr (blockedFor_writable (by simp))

/-- The identifiers `a` and `a";x="` are different when they are sanitized, and the same string is
read from their headers. -/
theorem draft8_headers_collide :
    ¬ Draft8Readable (fun _ => []) 0 false (blockedFor [97, 34, 59, 120, 61, 34]) ∧
      sanitizeIdentifierFor8941 [97] ≠ sanitizeIdentifierFor8941 [97, 34, 59, 120, 61, 34] ∧
      readString ((formatRateLimitHeaders (fun _ => []) (blockedFor [97]) 0 .draft8 false).value
          "RateLimit") =
        readString ((formatRateLimitHeaders (fun _ => [])
          (blockedFor [97, 34, 59, 120, 61, 34]) 0 .draft8 false).value "RateLimit") := by
  refine ⟨fun h => ?_, by decide, ?_⟩
  · have hwritable := (draft8Readable_iff _ _ _ _).mp h
    exact (hwritable.identifier 34 (by decide)).1 rfl
  · decide +kernel

end RatelimitFlex
