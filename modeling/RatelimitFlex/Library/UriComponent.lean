import Mathlib.Tactic

/-!
# `encodeURIComponent` and `decodeURIComponent`

Strings of Unicode characters, without lone surrogates.  Decoding reads the octets a string
stands for as UTF-8: a character stands for its own octets and an escape for one.  That is what
decoding each group of escapes by itself gives, since a character that follows a group which is
not complete begins with a first octet and cannot complete it.
-/

set_option autoImplicit false

namespace RatelimitFlex.Library

/-! ## The two functions -/

/-- A character that stands for itself when it is encoded. -/
def isUnescaped (c : Char) : Bool :=
  c.isAlphanum || ['-', '_', '.', '!', '~', '*', Char.ofNat 39, '(', ')'].contains c

/-- A digit of an escape, below 16. -/
def hexDigit (n : ℕ) : Char := if n < 10 then Char.ofNat (48 + n) else Char.ofNat (55 + n)

/-- The value of a digit, in capitals or not. -/
def hexValue (c : Char) : Option ℕ :=
  if '0' ≤ c ∧ c ≤ '9' then some (c.toNat - 48)
  else if 'A' ≤ c ∧ c ≤ 'F' then some (c.toNat - 55)
  else if 'a' ≤ c ∧ c ≤ 'f' then some (c.toNat - 87)
  else none

/-- One octet, escaped. -/
def escape (b : UInt8) : List Char := ['%', hexDigit (b.toNat / 16), hexDigit (b.toNat % 16)]

def encodeURIComponent (s : List Char) : List Char :=
  s.flatMap fun c => if isUnescaped c then [c] else (String.utf8EncodeChar c).flatMap escape

/-- The octets a string stands for; `none` when a `%` begins no escape. -/
def octets : List Char → Option (List UInt8)
  | [] => some []
  | c :: s =>
    if c = '%' then
      match s with
      | a :: b :: s =>
        match hexValue a, hexValue b with
        | some x, some y => (octets s).map fun bs => UInt8.ofNat (16 * x + y) :: bs
        | _, _ => none
      | _ => none
    else (octets s).map fun bs => String.utf8EncodeChar c ++ bs

/-- `none` is the `URIError`. -/
def decodeURIComponent (s : List Char) : Option (List Char) :=
  (octets s).bind fun bs => bs.toByteArray.utf8Decode?.map Array.toList

/-! ## Octets -/

/-- A hexadecimal digit has its value back. -/
theorem hexValue_hexDigit : ∀ n < 16, hexValue (hexDigit n) = some n := by decide

/-- No hexadecimal digit is a slash. -/
theorem hexDigit_ne_slash : ∀ n < 16, hexDigit n ≠ '/' := by decide

/-- An escaped octet is read back. -/
theorem octets_escape_append (b : UInt8) (s : List Char) :
    octets (escape b ++ s) = (octets s).map fun bs => b :: bs := by
  have hb : b.toNat < 256 := b.toNat_lt
  have hhigh := hexValue_hexDigit (b.toNat / 16) (by omega)
  have hlow := hexValue_hexDigit (b.toNat % 16) (by omega)
  have hsum : UInt8.ofNat (16 * (b.toNat / 16) + b.toNat % 16) = b := by
    rw [Nat.div_add_mod, UInt8.ofNat_toNat]
  simp only [escape, List.cons_append, List.nil_append, octets, if_true, hhigh, hlow, hsum]

/-- So are several. -/
theorem octets_flatMap_escape_append (bs : List UInt8) (s : List Char) :
    octets (bs.flatMap escape ++ s) = (octets s).map fun bs' => bs ++ bs' := by
  induction bs with
  | nil => simp
  | cons b bs ih =>
    rw [List.flatMap_cons, List.append_assoc, octets_escape_append, ih, Option.map_map]
    rfl

/-- Any other character stands for its own octets. -/
theorem octets_cons_of_ne {c : Char} (hc : c ≠ '%') (s : List Char) :
    octets (c :: s) = (octets s).map fun bs => String.utf8EncodeChar c ++ bs := by
  rw [octets.eq_def]
  exact if_neg hc

/-- A string without a `%` stands for itself. -/
theorem octets_of_notMem {s : List Char} (h : '%' ∉ s) :
    octets s = some (s.flatMap String.utf8EncodeChar) := by
  induction s with
  | nil => rfl
  | cons c s ih =>
    obtain ⟨hc, hs⟩ := not_or.mp fun hor => h (List.mem_cons.mpr hor)
    rw [octets_cons_of_ne (Ne.symm hc), ih hs, List.flatMap_cons, Option.map_some]

/-- The percent sign is escaped. -/
theorem isUnescaped_percent : isUnescaped '%' = false := by decide

/-- So is the slash. -/
theorem isUnescaped_slash : isUnescaped '/' = false := by decide

/-- **The octets of an encoded text are those of the text.** -/
theorem octets_encodeURIComponent (s : List Char) :
    octets (encodeURIComponent s) = some (s.flatMap String.utf8EncodeChar) := by
  induction s with
  | nil => rfl
  | cons c s ih =>
    rw [encodeURIComponent, List.flatMap_cons, ← encodeURIComponent, List.flatMap_cons]
    split
    · next hc =>
      have hne : c ≠ '%' := by
        rintro rfl
        exact Bool.false_ne_true (isUnescaped_percent.symm.trans hc)
      rw [List.singleton_append, octets_cons_of_ne hne, ih, Option.map_some]
    · rw [octets_flatMap_escape_append, ih, Option.map_some]

/-- An escape is longer than the octet it stands for. -/
theorem length_octets_le {s : List Char} {bs : List UInt8} (h : octets s = some bs) :
    bs.length ≤ (s.flatMap String.utf8EncodeChar).length ∧
      ('%' ∈ s → bs.length < (s.flatMap String.utf8EncodeChar).length) := by
  fun_induction octets s generalizing bs with
  | case1 =>
    obtain rfl := Option.some.inj h
    exact ⟨le_rfl, fun hmem => absurd hmem List.not_mem_nil⟩
  | case2 a b s x y _ _ ih =>
    obtain ⟨bs, hbs, rfl⟩ := Option.map_eq_some_iff.mp h
    have hle := (ih hbs).1
    have ha := a.utf8Size_pos
    have hb := b.utf8Size_pos
    simp only [List.flatMap_cons, List.length_append, String.length_utf8EncodeChar,
      List.length_cons]
    exact ⟨by omega, fun _ => by omega⟩
  | case3 => cases h
  | case4 => cases h
  | case5 c s hc ih =>
    obtain ⟨bs, hbs, rfl⟩ := Option.map_eq_some_iff.mp h
    obtain ⟨hle, hlt⟩ := ih hbs
    simp only [List.flatMap_cons, List.length_append]
    refine ⟨by omega, fun hmem => ?_⟩
    have hmem : '%' ∈ s := (List.mem_cons.mp hmem).resolve_left (Ne.symm hc)
    have := hlt hmem
    omega

/-! ## Decoding -/

/-- A text is decoded when its octets are those of one. -/
theorem decodeURIComponent_of_octets {s w : List Char}
    (h : octets s = some (w.flatMap String.utf8EncodeChar)) : decodeURIComponent s = some w := by
  have hencode : (w.flatMap String.utf8EncodeChar).toByteArray = w.utf8Encode := rfl
  rw [decodeURIComponent, h, Option.bind_some, hencode, List.utf8Decode?_utf8Encode,
    Option.map_some, List.toList_toArray]

/-- The octets of a string that is decoded are those of what it is decoded to. -/
theorem octets_of_decodeURIComponent {s w : List Char} (h : decodeURIComponent s = some w) :
    octets s = some (w.flatMap String.utf8EncodeChar) := by
  obtain ⟨bs, hbs, hdecode⟩ := Option.bind_eq_some_iff.mp h
  obtain ⟨chars, hchars, rfl⟩ := Option.map_eq_some_iff.mp hdecode
  have hsome : bs.toByteArray.utf8Decode?.isSome := by rw [hchars]; rfl
  have hvalid := ByteArray.utf8Encode_get_utf8Decode? (b := bs.toByteArray) (h := hsome)
  simp only [hchars, Option.get_some] at hvalid
  have hlist := congrArg (fun b : ByteArray => b.data.toList) hvalid
  rw [List.utf8Encode] at hlist
  simp only [List.toList_data_toByteArray] at hlist
  rw [hbs, hlist]

/-- **What was encoded is decoded.** -/
theorem decodeURIComponent_encodeURIComponent (s : List Char) :
    decodeURIComponent (encodeURIComponent s) = some s :=
  decodeURIComponent_of_octets (octets_encodeURIComponent s)

/-- **A string is decoded to itself** exactly when there is no `%` in it. -/
theorem decodeURIComponent_eq_self_iff (s : List Char) :
    decodeURIComponent s = some s ↔ '%' ∉ s := by
  constructor
  · intro h hmem
    exact absurd ((length_octets_le (octets_of_decodeURIComponent h)).2 hmem) (lt_irrefl _)
  · exact fun h => decodeURIComponent_of_octets (octets_of_notMem h)

/-! ## What is encoded is one segment of a path -/

/-- An encoded text has no slash. -/
theorem slash_notMem_encodeURIComponent (s : List Char) : '/' ∉ encodeURIComponent s := by
  intro h
  obtain ⟨c, -, hc⟩ := List.mem_flatMap.mp h
  split at hc
  · next hunescaped =>
    rw [← List.mem_singleton.mp hc] at hunescaped
    exact Bool.false_ne_true (isUnescaped_slash.symm.trans hunescaped)
  · obtain ⟨b, -, hb⟩ := List.mem_flatMap.mp hc
    have hlt : b.toNat < 256 := b.toNat_lt
    simp only [escape, List.mem_cons, List.not_mem_nil, or_false] at hb
    rcases hb with hb | hb | hb
    · exact absurd hb (by decide)
    · exact hexDigit_ne_slash _ (by omega) hb.symm
    · exact hexDigit_ne_slash _ (by omega) hb.symm

/-- It is empty only for the empty text. -/
theorem encodeURIComponent_ne_nil {s : List Char} (h : s ≠ []) : encodeURIComponent s ≠ [] := by
  intro hnil
  have hoctets := octets_encodeURIComponent s
  rw [hnil] at hoctets
  have hflat : s.flatMap String.utf8EncodeChar = [] := (Option.some.inj hoctets).symm
  cases s with
  | nil => exact h rfl
  | cons c s =>
    have hlength := congrArg List.length hflat
    have hc := c.utf8Size_pos
    simp only [List.flatMap_cons, List.length_append, String.length_utf8EncodeChar,
      List.length_nil] at hlength
    omega

end RatelimitFlex.Library
