import RatelimitFlex.Library.UriComponent

/-!
# How the admin API reads its key

`decodeKeyParam` of `src/key-manager/admin-common.ts`, on the parameter the web framework gives,
and `extractAdminKeyFromPath` of `src/key-manager/admin-auth.ts`, on the path as it was sent.
-/

set_option autoImplicit false

namespace RatelimitFlex

open Library

/-- A path parameter: `string | string[] | undefined`. -/
inductive PathParam where
  | absent
  | one (v : List Char)
  | many (vs : List (List Char))

/-- SOURCE: src/key-manager/admin-common.ts:298-308 -/
def decodeKeyParam (raw : PathParam) : List Char :=
  let v := match raw with
    | .absent => none
    | .one v => some v
    | .many vs => vs.head?
  match v with
  | none => []
  | some v => if v = [] then [] else (decodeURIComponent v).getD v

/-- `/keys/`. -/
def keysPath : List Char := ['/', 'k', 'e', 'y', 's', '/']

/-- What follows the key in the routes that have one.
SOURCE: src/key-manager/admin.ts:61-125 -/
def keyRoutes : List (List Char) :=
  [[], "/block".toList, "/unblock".toList, "/penalty".toList, "/reward".toList, "/set".toList]

/-- `path.match(/\/keys\/([^/]+)/)?.[1]`: at the first place where it matches. -/
def matchKeys : List Char → Option (List Char)
  | [] => none
  | c :: path =>
    let m := ((c :: path).drop keysPath.length).takeWhile (· ≠ '/')
    if keysPath.isPrefixOf (c :: path) && !m.isEmpty then some m else matchKeys path

/-- SOURCE: src/key-manager/admin-auth.ts:122-132 -/
def extractAdminKeyFromPath (path : List Char) : Option (List Char) :=
  (matchKeys path).map fun m => (decodeURIComponent m).getD m

/-- The segment after `/keys/` is what matches. -/
theorem matchKeys_segment {segment rest : List Char} (hsegment : '/' ∉ segment)
    (hne : segment ≠ []) (hrest : ∀ c ∈ rest.head?, c = '/') :
    matchKeys (keysPath ++ segment ++ rest) = some segment := by
  have htake : (segment ++ rest).takeWhile (· ≠ '/') = segment := by
    have hall : ∀ c ∈ segment, decide (c ≠ '/') = true := fun c hc =>
      decide_eq_true fun h => hsegment (h ▸ hc)
    rw [List.takeWhile_append_of_pos hall]
    cases rest with
    | nil => rw [List.takeWhile_nil, List.append_nil]
    | cons c rest =>
      have hc : c = '/' := hrest c rfl
      rw [List.takeWhile_cons_of_neg (by simp [hc]), List.append_nil]
  have hprefix : keysPath.isPrefixOf (keysPath ++ segment ++ rest) = true := by
    rw [List.isPrefixOf_iff_prefix, List.append_assoc]
    exact List.prefix_append _ _
  have hdrop : (keysPath ++ segment ++ rest).drop keysPath.length = segment ++ rest := by
    rw [List.append_assoc, List.drop_left]
  obtain ⟨path, hpath⟩ : ∃ path, keysPath ++ segment ++ rest = '/' :: path := ⟨_, rfl⟩
  rw [hpath] at hprefix hdrop ⊢
  rw [matchKeys, hdrop, htake, hprefix, if_pos]
  simpa using hne

end RatelimitFlex
