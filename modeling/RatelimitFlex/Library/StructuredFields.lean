import Mathlib.Data.List.TakeWhile
import Mathlib.Tactic

/-!
# Items of structured field values

The parser of RFC 8941 for an item: a bare item with its parameters, as the algorithms of its
section 4.2 read one from a field value.  A string is written back with `escapeString`, an integer
with `intText`.
-/

set_option autoImplicit false

namespace RatelimitFlex.Library

/-! ## The parser -/

/-- A byte sequence is kept in base64. -/
inductive BareItem where
  | integer (z : ℤ)
  | decimal (q : ℚ)
  | string (s : List Char)
  | token (s : List Char)
  | bytes (base64 : List Char)
  | boolean (b : Bool)
  deriving DecidableEq

abbrev Parameters := List (List Char × BareItem)

def dquote : Char := Char.ofNat 34

def backslash : Char := Char.ofNat 92

/-- An integer of at most fifteen digits, or a decimal of at most twelve and three. -/
def parseNumber (s : List Char) : Option (BareItem × List Char) :=
  let sign : ℤ := if s.head? = some '-' then -1 else 1
  let s := if s.head? = some '-' then s.tail else s
  let digits := s.takeWhile Char.isDigit
  let rest := s.dropWhile Char.isDigit
  if digits = [] then none
  else if rest.head? = some '.' then
    let fraction := rest.tail.takeWhile Char.isDigit
    if 12 < digits.length ∨ fraction = [] ∨ 3 < fraction.length then none
    else
      let value : ℚ := (Nat.ofDigitChars 10 (digits ++ fraction) 0 : ℕ) / 10 ^ fraction.length
      some (.decimal (sign * value), rest.tail.dropWhile Char.isDigit)
  else if 15 < digits.length then none
  else some (.integer (sign * (Nat.ofDigitChars 10 digits 0 : ℕ)), rest)

/-- What stands between the quotes of a string. -/
def parseStringBody : List Char → Option (List Char × List Char)
  | [] => none
  | c :: s =>
    if c = backslash then
      match s with
      | [] => none
      | c :: s =>
        if c = dquote ∨ c = backslash then (parseStringBody s).map fun r => (c :: r.1, r.2)
        else none
    else if c = dquote then some ([], s)
    else if ' ' ≤ c ∧ c ≤ '~' then (parseStringBody s).map fun r => (c :: r.1, r.2)
    else none

/-- A character of a token after the first. -/
def isTokenChar (c : Char) : Bool := c.isAlphanum || "!#$%&'*+-.^_`|~:/".toList.contains c

def isBase64Char (c : Char) : Bool := c.isAlphanum || ['+', '/', '='].contains c

def parseBareItem : List Char → Option (BareItem × List Char)
  | [] => none
  | c :: s =>
    if c = '-' ∨ c.isDigit then parseNumber (c :: s)
    else if c = dquote then (parseStringBody s).map fun r => (.string r.1, r.2)
    else if c = '*' ∨ c.isAlpha then
      some (.token (c :: s.takeWhile isTokenChar), s.dropWhile isTokenChar)
    else if c = ':' then
      match s.dropWhile isBase64Char with
      | ':' :: rest => some (.bytes (s.takeWhile isBase64Char), rest)
      | _ => none
    else if c = '?' then
      match s with
      | '1' :: rest => some (.boolean true, rest)
      | '0' :: rest => some (.boolean false, rest)
      | _ => none
    else none

/-- A character of a key after the first. -/
def isKeyChar (c : Char) : Bool := c.isLower || c.isDigit || ['_', '-', '.', '*'].contains c

def parseKey : List Char → Option (List Char × List Char)
  | [] => none
  | c :: s =>
    if c = '*' ∨ c.isLower then some (c :: s.takeWhile isKeyChar, s.dropWhile isKeyChar) else none

/-- A parameter that is there already gets the new value. -/
def setParameter (key : List Char) (value : BareItem) : Parameters → Parameters
  | [] => [(key, value)]
  | p :: params => if p.1 = key then (key, value) :: params else p :: setParameter key value params

/-- The parameters, and what follows them; each takes a character at least of the text. -/
def parseParameters : ℕ → Parameters → List Char → Option (Parameters × List Char)
  | 0, _, _ => none
  | fuel + 1, params, s =>
    if s.head? = some ';' then
      match parseKey (s.tail.dropWhile (· = ' ')) with
      | none => none
      | some (key, s) =>
        if s.head? = some '=' then
          match parseBareItem s.tail with
          | none => none
          | some (value, s) => parseParameters fuel (setParameter key value params) s
        else parseParameters fuel (setParameter key (.boolean true) params) s
    else some (params, s)

def parseItem (s : List Char) : Option (BareItem × Parameters) :=
  match parseBareItem (s.dropWhile (· = ' ')) with
  | none => none
  | some (item, s) =>
    match parseParameters (s.length + 1) [] s with
    | none => none
    | some (params, s) => if s.dropWhile (· = ' ') = [] then some (item, params) else none

/-! ## Integers -/

/-- An integer, written in decimal. -/
def intText (z : ℤ) : List Char :=
  if z < 0 then '-' :: Nat.toDigits 10 z.natAbs else Nat.toDigits 10 z.natAbs

/-- The digits of a number are digits. -/
theorem isDigit_of_mem_toDigits {n : ℕ} {c : Char} (h : c ∈ Nat.toDigits 10 n) :
    c.isDigit = true :=
  Nat.isDigit_of_mem_toDigits (by decide) (by decide) h

/-- They are read up to what follows. -/
theorem takeWhile_isDigit_toDigits_append (n : ℕ) {rest : List Char}
    (hrest : ∀ c ∈ rest.head?, c.isDigit = false) :
    (Nat.toDigits 10 n ++ rest).takeWhile Char.isDigit = Nat.toDigits 10 n := by
  rw [List.takeWhile_append_of_pos fun c hc => isDigit_of_mem_toDigits hc]
  cases rest with
  | nil => rw [List.takeWhile_nil, List.append_nil]
  | cons c rest =>
    rw [List.takeWhile_cons_of_neg (by simp [hrest c rfl]), List.append_nil]

/-- What follows is left. -/
theorem dropWhile_isDigit_toDigits_append (n : ℕ) {rest : List Char}
    (hrest : ∀ c ∈ rest.head?, c.isDigit = false) :
    (Nat.toDigits 10 n ++ rest).dropWhile Char.isDigit = rest := by
  rw [List.dropWhile_append_of_pos fun c hc => isDigit_of_mem_toDigits hc]
  cases rest with
  | nil => rfl
  | cons c rest => exact List.dropWhile_cons_of_neg (by simp [hrest c rfl])

/-- The value of a text of digits. -/
theorem ofDigitChars_lt {digits : List Char} (h : ∀ c ∈ digits, c.isDigit = true) :
    Nat.ofDigitChars 10 digits 0 < 10 ^ digits.length := by
  induction digits using List.reverseRecOn with
  | nil => decide
  | append_singleton digits c ih =>
    have hlt := ih fun d hd => h d (List.mem_append_left _ hd)
    have hc : c.isDigit = true := h c (by simp)
    have hdigit : c.toNat - '0'.toNat < 10 := by
      obtain ⟨-, hc⟩ := Char.isDigit_iff_toNat.mp hc
      have hzero : '0'.toNat = 48 := rfl
      have hnine : '9'.toNat = 57 := rfl
      omega
    rw [Nat.ofDigitChars_append, Nat.ofDigitChars_cons, Nat.ofDigitChars_nil, List.length_append,
      List.length_singleton, pow_succ]
    omega

/-- An integer parameter is read back. -/
theorem parseNumber_intText {z : ℤ} (hz : |z| < 10 ^ 15) {rest : List Char}
    (hrest : ∀ c ∈ rest.head?, c.isDigit = false ∧ c ≠ '.') :
    parseNumber (intText z ++ rest) = some (.integer z, rest) := by
  have hnat : z.natAbs < 10 ^ 15 := by
    obtain ⟨hlower, hupper⟩ := abs_lt.mp hz
    omega
  have hlength : ¬ 15 < (Nat.toDigits 10 z.natAbs).length :=
    not_lt.mpr ((Nat.length_toDigits_le_iff (by decide) (by decide)).mpr hnat)
  have htake := takeWhile_isDigit_toDigits_append z.natAbs fun c hc => (hrest c hc).1
  have hdrop := dropWhile_isDigit_toDigits_append z.natAbs fun c hc => (hrest c hc).1
  have hdot : rest.head? ≠ some '.' := fun h => (hrest '.' h).2 rfl
  have hdigits : Nat.toDigits 10 z.natAbs ≠ [] := Nat.toDigits_ne_nil
  by_cases hneg : z < 0
  · have hvalue : (-1 : ℤ) * (z.natAbs : ℕ) = z := by omega
    simp only [parseNumber, intText, if_pos hneg, List.cons_append, List.head?_cons, if_true,
      List.tail_cons, htake, hdrop, if_neg hdigits, if_neg hdot, if_neg hlength,
      Nat.ofDigitChars_ten_toDigits, hvalue]
  · have hvalue : (1 : ℤ) * (z.natAbs : ℕ) = z := by omega
    have hhead : (Nat.toDigits 10 z.natAbs ++ rest).head? ≠ some '-' := by
      intro h
      cases hcons : Nat.toDigits 10 z.natAbs with
      | nil => exact hdigits hcons
      | cons c digits =>
        rw [hcons, List.cons_append, List.head?_cons] at h
        have hc : c.isDigit = true :=
          isDigit_of_mem_toDigits (by rw [hcons]; exact List.mem_cons_self)
        rw [Option.some.inj h] at hc
        exact absurd hc (by decide)
    simp only [parseNumber, intText, if_neg hneg, if_neg hhead, htake, hdrop, if_neg hdigits,
      if_neg hdot, if_neg hlength, Nat.ofDigitChars_ten_toDigits, hvalue]

/-- A whole number starts with a sign or a digit. -/
theorem exists_cons_intText (z : ℤ) :
    ∃ c digits, intText z = c :: digits ∧ (c = '-' ∨ c.isDigit = true) := by
  by_cases hneg : z < 0
  · exact ⟨'-', _, by rw [intText, if_pos hneg], Or.inl rfl⟩
  · cases hcons : Nat.toDigits 10 z.natAbs with
    | nil => exact absurd hcons Nat.toDigits_ne_nil
    | cons c digits =>
      refine ⟨c, digits, by rw [intText, if_neg hneg, hcons], Or.inr ?_⟩
      exact isDigit_of_mem_toDigits (by rw [hcons]; exact List.mem_cons_self)

/-- A whole number of up to fifteen digits is read back. -/
theorem parseBareItem_intText {z : ℤ} (hz : |z| < 10 ^ 15) {rest : List Char}
    (hrest : ∀ c ∈ rest.head?, c.isDigit = false ∧ c ≠ '.') :
    parseBareItem (intText z ++ rest) = some (.integer z, rest) := by
  have hnumber := parseNumber_intText hz hrest
  obtain ⟨c, digits, htext, hc⟩ := exists_cons_intText z
  rw [htext, List.cons_append] at hnumber ⊢
  rw [parseBareItem.eq_def]
  simp only [if_pos hc, hnumber]

/-- What is read as an integer has at most fifteen digits. -/
theorem parseNumber_integer_lt {s rest : List Char} {z : ℤ}
    (h : parseNumber s = some (.integer z, rest)) : |z| < 10 ^ 15 := by
  unfold parseNumber at h
  dsimp only at h
  generalize (if s.head? = some '-' then s.tail else s) = s' at h
  split at h
  · cases h
  · split at h
    · split at h
      · cases h
      · cases h
    · split at h
      · cases h
      · next hlength =>
        obtain ⟨hz, -⟩ := Prod.mk.inj (Option.some.inj h)
        have hlt := ofDigitChars_lt fun c hc => List.mem_takeWhile_imp hc (l := s')
        have hpow : 10 ^ (s'.takeWhile Char.isDigit).length ≤ 10 ^ 15 :=
          Nat.pow_le_pow_right (by decide) (not_lt.mp hlength)
        have hnat : Nat.ofDigitChars 10 (s'.takeWhile Char.isDigit) 0 < 10 ^ 15 :=
          hlt.trans_le hpow
        rw [← BareItem.integer.inj hz]
        split <;> (rw [abs_lt]; constructor <;> omega)

/-- An integer that was read has up to fifteen digits. -/
theorem parseBareItem_integer_lt {s rest : List Char} {z : ℤ}
    (h : parseBareItem s = some (.integer z, rest)) : |z| < 10 ^ 15 := by
  unfold parseBareItem at h
  split at h
  · cases h
  · split at h
    · exact parseNumber_integer_lt h
    · split at h
      · obtain ⟨r, -, hr⟩ := Option.map_eq_some_iff.mp h
        cases hr
      · split at h
        · cases h
        · split at h
          · split at h
            · cases h
            · cases h
          · split at h
            · split at h
              · cases h
              · cases h
              · cases h
            · cases h

/-- Every integer parameter has at most fifteen digits. -/
def IntegersFit (params : Parameters) : Prop :=
  ∀ key z, (key, .integer z) ∈ params → |z| < 10 ^ 15

/-- A parameter that is set keeps the integers short. -/
theorem IntegersFit.setParameter {params : Parameters} (h : IntegersFit params) (key : List Char)
    {value : BareItem} (hvalue : ∀ z, value = .integer z → |z| < 10 ^ 15) :
    IntegersFit (setParameter key value params) := by
  induction params with
  | nil =>
    intro key' z hmem
    obtain ⟨-, hz⟩ := Prod.mk.inj (List.mem_singleton.mp hmem)
    exact hvalue z hz.symm
  | cons p params ih =>
    have htail : IntegersFit params := fun key' z hmem => h key' z (List.mem_cons_of_mem p hmem)
    intro key' z hmem
    unfold Library.setParameter at hmem
    split at hmem
    · rcases List.mem_cons.mp hmem with heq | hmem
      · obtain ⟨-, hz⟩ := Prod.mk.inj heq
        exact hvalue z hz.symm
      · exact htail key' z hmem
    · rcases List.mem_cons.mp hmem with heq | hmem
      · exact h key' z (by rw [heq]; exact List.mem_cons_self)
      · exact ih htail key' z hmem

/-- So do all that are read. -/
theorem IntegersFit.parseParameters {fuel : ℕ} {params params' : Parameters}
    {s rest : List Char} (hparams : IntegersFit params)
    (h : parseParameters fuel params s = some (params', rest)) : IntegersFit params' := by
  induction fuel generalizing params s with
  | zero => cases h
  | succ fuel ih =>
    unfold Library.parseParameters at h
    split at h
    · split at h
      · cases h
      · split at h
        · split at h
          · cases h
          · next value s' hvalue =>
            refine ih (hparams.setParameter _ fun z hz => ?_) h
            rw [hz] at hvalue
            exact parseBareItem_integer_lt hvalue
        · refine ih (hparams.setParameter _ fun z hz => ?_) h
          cases hz
    · obtain ⟨rfl, -⟩ := Prod.mk.inj (Option.some.inj h)
      exact hparams

/-- So does an item. -/
theorem integersFit_of_parseItem {s : List Char} {item : BareItem} {params : Parameters}
    (h : parseItem s = some (item, params)) : IntegersFit params := by
  unfold parseItem at h
  split at h
  · cases h
  · split at h
    · cases h
    · next hparse =>
      split at h
      · obtain ⟨-, rfl⟩ := Prod.mk.inj (Option.some.inj h)
        have hnone : IntegersFit [] := fun key z hmem => absurd hmem List.not_mem_nil
        exact hnone.parseParameters hparse
      · cases h

/-! ## Strings -/

/-- A string as it is written between its quotes. -/
def escapeString (s : List Char) : List Char :=
  s.flatMap fun c => if c = dquote ∨ c = backslash then [backslash, c] else [c]

/-- The empty string has nothing to escape. -/
@[simp] theorem escapeString_nil : escapeString [] = [] := rfl

/-- Quotes and backslashes get a backslash. -/
theorem escapeString_cons (c : Char) (s : List Char) :
    escapeString (c :: s) =
      (if c = dquote ∨ c = backslash then [backslash, c] else [c]) ++ escapeString s :=
  List.flatMap_cons

/-- A string is read from nothing but what it is written as. -/
theorem eq_of_parseStringBody {t s rest : List Char} (h : parseStringBody t = some (s, rest)) :
    t = escapeString s ++ dquote :: rest := by
  fun_induction parseStringBody t generalizing s rest with
  | case1 => cases h
  | case2 => cases h
  | case3 c t hc ih =>
    obtain ⟨⟨s, rest⟩, hparse, hr⟩ := Option.map_eq_some_iff.mp h
    obtain ⟨rfl, rfl⟩ := Prod.mk.inj hr
    rw [ih hparse, escapeString_cons, if_pos hc]
    rfl
  | case4 => cases h
  | case5 t =>
    obtain ⟨rfl, rfl⟩ := Prod.mk.inj (Option.some.inj h)
    rfl
  | case6 c t hbackslash hdquote _ ih =>
    obtain ⟨⟨s, rest⟩, hparse, hr⟩ := Option.map_eq_some_iff.mp h
    obtain ⟨rfl, rfl⟩ := Prod.mk.inj hr
    rw [ih hparse, escapeString_cons, if_neg (not_or.mpr ⟨hdquote, hbackslash⟩)]
    rfl
  | case7 => cases h

/-- Printable characters that need no escape are read as they are. -/
theorem parseStringBody_of_plain {s : List Char}
    (h : ∀ c ∈ s, (' ' ≤ c ∧ c ≤ '~') ∧ c ≠ dquote ∧ c ≠ backslash) (rest : List Char) :
    parseStringBody (s ++ dquote :: rest) = some (s, rest) := by
  induction s with
  | nil =>
    have hne : dquote ≠ backslash := by decide
    rw [List.nil_append, parseStringBody.eq_def]
    simp only [if_neg hne, if_true]
  | cons c s ih =>
    obtain ⟨hprintable, hdquote, hbackslash⟩ := h c List.mem_cons_self
    rw [List.cons_append, parseStringBody.eq_def]
    simp only [if_neg hbackslash, if_neg hdquote, if_pos hprintable,
      ih fun d hd => h d (List.mem_cons_of_mem c hd), Option.map_some]

/-- A text that has `n` backslashes more at its front is not the same one, up to the quote. -/
theorem replicate_backslash_ne (s rest rest' : List Char) (n : ℕ) :
    List.replicate (n + 1) backslash ++ escapeString s ++ rest ≠ s ++ dquote :: rest' := by
  have hne : backslash ≠ dquote := by decide
  induction s generalizing n with
  | nil =>
    intro h
    rw [List.replicate_succ, List.cons_append, List.cons_append, List.nil_append] at h
    exact hne (List.cons.inj h).1
  | cons c s ih =>
    intro h
    rw [List.replicate_succ, List.cons_append, List.cons_append, List.cons_append] at h
    obtain ⟨rfl, htail⟩ := List.cons.inj h
    refine ih (n + 1) ?_
    rw [← htail, escapeString_cons, if_pos (Or.inr rfl), List.replicate_add n 2]
    simp [List.replicate]

/-- **A string that is written without escapes is read back** only when it needs none. -/
theorem plain_of_escapeString_eq {s rest rest' : List Char}
    (h : escapeString s ++ dquote :: rest = s ++ dquote :: rest') :
    ∀ c ∈ s, c ≠ dquote ∧ c ≠ backslash := by
  have hne : backslash ≠ dquote := by decide
  induction s with
  | nil => exact fun c hc => absurd hc List.not_mem_nil
  | cons c s ih =>
    rw [escapeString_cons] at h
    split at h
    · next hc =>
      rw [List.cons_append, List.cons_append, List.cons_append, List.cons_append] at h
      obtain ⟨rfl, htail⟩ := List.cons.inj h
      have hmore := replicate_backslash_ne s (dquote :: rest) rest' 0
      exact absurd htail hmore
    · next hc =>
      rw [List.singleton_append, List.cons_append, List.cons_append] at h
      intro d hd
      rcases List.mem_cons.mp hd with rfl | hd
      · exact not_or.mp hc
      · exact ih (List.cons.inj h).2 d hd

end RatelimitFlex.Library
