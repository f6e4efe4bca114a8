import RatelimitFlex.Program.AdminKeys

/-!
# The key of an admin request

A key is encoded once by the caller and decoded once by the web framework.  The audit reads it
off the path and decodes it once; the handler decodes what the framework has decoded.
-/

set_option autoImplicit false

namespace RatelimitFlex

open Library

/-- A web framework that percent-decodes the key of a route once. -/
def DecodesOnce (keyParam : List Char → Option (List Char)) : Prop :=
  ∀ segment rest, '/' ∉ segment → segment ≠ [] → rest ∈ keyRoutes →
    keyParam (keysPath ++ segment ++ rest) = decodeURIComponent segment

/-- What follows a key starts with a slash. -/
theorem head_of_mem_keyRoutes : ∀ rest ∈ keyRoutes, ∀ c ∈ rest.head?, c = '/' := by
  simp [keyRoutes]

/-- What the handler makes of a key that the framework has decoded is the key again, unless it
can be decoded once more. -/
theorem decodeKeyParam_eq_self_iff {k : List Char} (hk : k ≠ []) :
    decodeKeyParam (.one k) = k ↔ ('%' ∈ k → decodeURIComponent k = none) := by
  rw [decodeKeyParam]
  simp only [if_neg hk]
  cases hdecode : decodeURIComponent k with
  | none => exact iff_of_true rfl fun _ => rfl
  | some w =>
    rw [Option.getD_some]
    constructor
    · rintro rfl hmem
      exact absurd hmem ((decodeURIComponent_eq_self_iff w).mp hdecode)
    · intro h
      by_cases hmem : '%' ∈ k
      · exact absurd (h hmem) (Option.some_ne_none w)
      · rw [(decodeURIComponent_eq_self_iff k).mpr hmem] at hdecode
        exact (Option.some.inj hdecode).symm

/-- **The key of an admin request** is the key that was encoded, for the audit always, and for
the handler exactly when the key has no escapes in it. -/
theorem admin_key_iff (keyParam : List Char → Option (List Char)) (honce : DecodesOnce keyParam)
    {k rest : List Char} (hk : k ≠ []) (hrest : rest ∈ keyRoutes) :
    let path := keysPath ++ encodeURIComponent k ++ rest
    ((keyParam path).map (fun v => decodeKeyParam (.one v)) = some k ∧
        extractAdminKeyFromPath path = some k) ↔
      ('%' ∈ k → decodeURIComponent k = none) := by
  intro path
  have hslash := slash_notMem_encodeURIComponent k
  have hne := encodeURIComponent_ne_nil hk
  have hparam : keyParam path = some k := by
    rw [honce _ _ hslash hne hrest, decodeURIComponent_encodeURIComponent]
  have haudit : extractAdminKeyFromPath path = some k := by
    rw [extractAdminKeyFromPath, matchKeys_segment hslash hne (head_of_mem_keyRoutes rest hrest),
      Option.map_some, decodeURIComponent_encodeURIComponent, Option.getD_some]
  rw [hparam, Option.map_some, Option.some_inj, and_iff_left haudit]
  exact decodeKeyParam_eq_self_iff hk

/-- A framework that takes the segment after `/keys/` and decodes it. -/
def decodedSegment (path : List Char) : Option (List Char) :=
  (matchKeys path).bind decodeURIComponent

/-- A segment is decoded once. -/
theorem decodesOnce_decodedSegment : DecodesOnce decodedSegment := by
  intro segment rest hslash hne hrest
  rw [decodedSegment, matchKeys_segment hslash hne (head_of_mem_keyRoutes rest hrest),
    Option.bind_some]

/-- The key `a/%`, whose `%` begins no escape. -/
theorem admin_key_slash_percent :
    (decodedSegment (keysPath ++ encodeURIComponent ['a', '/', '%'] ++ "/block".toList)).map
      (fun v => decodeKeyParam (.one v)) = some ['a', '/', '%'] := by
  refine ((admin_key_iff decodedSegment decodesOnce_decodedSegment ?_ ?_).mpr ?_).1
  · decide
  · decide
  · intro _
    rfl

/-- The key `%41` is blocked as `A`. -/
theorem admin_key_decoded_twice :
    let path := keysPath ++ encodeURIComponent ['%', '4', '1'] ++ "/block".toList
    DecodesOnce decodedSegment ∧ decodedSegment path = some ['%', '4', '1'] ∧
      (decodedSegment path).map (fun v => decodeKeyParam (.one v)) = some ['A'] ∧
      extractAdminKeyFromPath path = some ['%', '4', '1'] := by
  intro path
  have hmatch : matchKeys path = some (encodeURIComponent ['%', '4', '1']) :=
    matchKeys_segment (slash_notMem_encodeURIComponent _) (encodeURIComponent_ne_nil (by decide))
      (head_of_mem_keyRoutes _ (by simp [keyRoutes]))
  have hparam : decodedSegment path = some ['%', '4', '1'] := by
    rw [decodedSegment, hmatch, Option.bind_some, decodeURIComponent_encodeURIComponent]
  have hA : decodeURIComponent ['%', '4', '1'] = some ['A'] := decodeURIComponent_of_octets rfl
  refine ⟨decodesOnce_decodedSegment, hparam, ?_, ?_⟩
  · rw [hparam, Option.map_some, decodeKeyParam]
    simp only [hA, Option.getD_some, reduceCtorEq, if_false]
  · rw [extractAdminKeyFromPath, hmatch, Option.map_some, decodeURIComponent_encodeURIComponent,
      Option.getD_some]

end RatelimitFlex
