import Mathlib.Data.List.DropRight
import Mathlib.Tactic

/-!
# Entries in the order of their last use

A list without repetitions, the least recently used entry first.  `touch m k` uses `k`: an
entry that is there moves to the end; a new one makes room first, so that at most `m` are
there with it, and the least recently used go.  A list that holds more than `m` stays so
until a new entry comes.

`later k` are the entries used after `k`.  They decide when `k` goes (`mem_touch_new`), so two
lists in which every entry of interest has the same later ones keep and lose the same
entries; `Alike` is what a use preserves.  When nothing but uses happens, the entries are the
`mostRecent` ones.
-/

set_option autoImplicit false

namespace RatelimitFlex.Library

namespace RecencyOrder

variable {α : Type*} [DecidableEq α]

/-- The entries used after `k`. -/
def later (k : α) : List α → List α
  | [] => []
  | a :: l => if a = k then l else later k l

/-- The entry is used. -/
def touch (m : ℕ) (k : α) (l : List α) : List α :=
  (if k ∈ l then l.erase k else l.drop (l.length + 1 - m)) ++ [k]

variable {m : ℕ} {j k : α} {l l' : List α}

/-! ## What is later -/

/-- Nothing is later than what is not there. -/
theorem later_of_notMem (h : k ∉ l) : later k l = [] := by
  induction l with
  | nil => rfl
  | cons a l ih =>
    obtain ⟨hne, hmem⟩ := not_or.mp (List.mem_cons.not.mp h)
    rw [later, if_neg (Ne.symm hne), ih hmem]

/-- An entry splits the list. -/
theorem exists_split (h : k ∈ l) : ∃ a, l = a ++ k :: later k l ∧ k ∉ a := by
  induction l with
  | nil => exact absurd h List.not_mem_nil
  | cons b l ih =>
    by_cases hb : b = k
    · subst hb
      rw [later, if_pos rfl]
      exact ⟨[], rfl, List.not_mem_nil⟩
    · obtain ⟨a, ha, hnot⟩ := ih ((List.mem_cons.mp h).resolve_left (Ne.symm hb))
      rw [later, if_neg hb]
      refine ⟨b :: a, ?_, ?_⟩
      · rw [List.cons_append, ← ha]
      · exact fun h => (List.mem_cons.mp h).elim (Ne.symm hb) hnot

/-- Later than an element is what stands behind its first occurrence. -/
theorem later_append_cons {a b : List α} (h : k ∉ a) : later k (a ++ k :: b) = b := by
  induction a with
  | nil => exact if_pos rfl
  | cons c a ih =>
    obtain ⟨hne, hmem⟩ := not_or.mp (List.mem_cons.not.mp h)
    rw [List.cons_append, later, if_neg (Ne.symm hne), ih hmem]

/-- What is put at the end is later than everything. -/
theorem later_append (h : k ∈ l) (r : List α) : later k (l ++ r) = later k l ++ r := by
  obtain ⟨a, ha, hnot⟩ := exists_split h
  conv_lhs => rw [ha]
  rw [List.append_assoc, List.cons_append, later_append_cons hnot]

/-- Later than an element are fewer than all. -/
theorem length_later_lt (h : k ∈ l) : (later k l).length < l.length := by
  obtain ⟨a, ha, -⟩ := exists_split h
  have hlen := congrArg List.length ha
  rw [List.length_append, List.length_cons] at hlen
  omega

/-- What is later keeps its order. -/
theorem later_sublist : (later k l).Sublist l := by
  by_cases h : k ∈ l
  · obtain ⟨a, ha, -⟩ := exists_split h
    conv_rhs => rw [ha]
    exact (List.sublist_cons_self k _).trans (List.sublist_append_right a _)
  · rw [later_of_notMem h]
    exact List.nil_sublist l

/-- No element is later than itself. -/
theorem notMem_later (hnd : l.Nodup) : k ∉ later k l := by
  by_cases h : k ∈ l
  · obtain ⟨a, ha, -⟩ := exists_split h
    rw [ha] at hnd
    exact (List.nodup_cons.mp hnd.of_append_right).1
  · rw [later_of_notMem h]
    exact List.not_mem_nil

/-- Of two entries one is later. -/
theorem mem_later_or (hj : j ∈ l) (hk : k ∈ l) (hne : j ≠ k) : j ∈ later k l ∨ k ∈ later j l := by
  obtain ⟨a, ha, -⟩ := exists_split hk
  rw [ha] at hj
  rcases List.mem_append.mp hj with h | h
  · right
    obtain ⟨b, hb, hnot⟩ := exists_split h
    rw [ha, hb, List.append_assoc, List.cons_append, later_append_cons hnot]
    exact List.mem_append_right _ List.mem_cons_self
  · exact Or.inl ((List.mem_cons.mp h).resolve_left hne)

/-- An element that is taken out is later than none. -/
theorem later_erase (hnd : l.Nodup) (hne : j ≠ k) :
    later j (l.erase k) = (later j l).erase k := by
  induction l with
  | nil => rfl
  | cons a l ih =>
    obtain ⟨ha, hnd⟩ := List.nodup_cons.mp hnd
    by_cases hak : a = k
    · subst hak
      rw [List.erase_cons_head, later, if_neg (Ne.symm hne),
        List.erase_of_not_mem fun h => ha (later_sublist.subset h)]
    · rw [List.erase_cons_tail (by simpa using hak), later, later]
      by_cases haj : a = j
      · rw [if_pos haj, if_pos haj]
      · rw [if_neg haj, if_neg haj, ih hnd]

/-- The last ones of a list are those with few later ones. -/
theorem mem_drop (hnd : l.Nodup) (hk : k ∈ l) (d : ℕ) :
    k ∈ l.drop d ↔ (later k l).length < l.length - d := by
  obtain ⟨a, ha, hnot⟩ := exists_split hk
  have hlen := congrArg List.length ha
  rw [List.length_append, List.length_cons] at hlen
  have hlater := notMem_later (k := k) hnd
  by_cases hd : d ≤ a.length
  · have hmem : k ∈ l.drop d := by
      rw [ha, List.drop_append_of_le_length hd]
      exact List.mem_append_right _ List.mem_cons_self
    exact ⟨fun _ => by omega, fun _ => hmem⟩
  · have hdrop : l.drop d = (later k l).drop (d - a.length - 1) := by
      conv_lhs => rw [ha]
      rw [List.drop_append, List.drop_eq_nil_of_le (by omega), List.nil_append]
      obtain ⟨n, hn⟩ : ∃ n, d - a.length = n + 1 := ⟨d - a.length - 1, by omega⟩
      rw [hn, List.drop_succ_cons, Nat.add_sub_cancel]
    have hmem : k ∉ l.drop d := by
      rw [hdrop]
      exact fun h => hlater (List.mem_of_mem_drop h)
    exact ⟨fun h => absurd h hmem, fun h => by omega⟩

/-- What is dropped at the front is later than nothing that stays. -/
theorem later_drop (hnd : l.Nodup) {d : ℕ} (hk : k ∈ l.drop d) :
    later k (l.drop d) = later k l := by
  have hmem := List.mem_of_mem_drop hk
  have hlt := (mem_drop hnd hmem d).mp hk
  obtain ⟨a, ha, hnot⟩ := exists_split hmem
  have hlen := congrArg List.length ha
  rw [List.length_append, List.length_cons] at hlen
  conv_lhs => rw [ha, List.drop_append_of_le_length (show d ≤ a.length by omega)]
  exact later_append_cons fun h => hnot (List.mem_of_mem_drop h)

/-! ## The order of last uses -/

/-- The last use of `k` is now the latest of all. -/
theorem dedup_concat (uses : List α) (k : α) :
    (uses ++ [k]).dedup = uses.dedup.erase k ++ [k] := by
  induction uses with
  | nil => rfl
  | cons a uses ih =>
    rw [List.cons_append]
    by_cases ha : a ∈ uses
    · rw [List.dedup_cons_of_mem (List.mem_append_left [k] ha), ih, List.dedup_cons_of_mem ha]
    · rw [List.dedup_cons_of_notMem ha]
      by_cases hk : a = k
      · subst hk
        rw [List.dedup_cons_of_mem (List.mem_append_right uses (List.mem_singleton_self a)), ih,
          List.erase_cons_head, List.erase_of_not_mem (mt List.mem_dedup.mp ha)]
      · have hnot : a ∉ uses ++ [k] := fun h =>
          (List.mem_append.mp h).elim ha fun h => hk (List.mem_singleton.mp h)
        rw [List.dedup_cons_of_notMem hnot, ih, List.erase_cons_tail (by simpa using hk)]
        rfl

/-- What is in the order of last uses stays so when `k` is put at its end. -/
theorem sublist_dedup_concat {uses : List α} (h : l.Sublist uses.dedup) (hk : k ∉ l) :
    (l ++ [k]).Sublist (uses ++ [k]).dedup := by
  rw [dedup_concat]
  refine List.Sublist.append ?_ (List.Sublist.refl [k])
  have herase := h.erase k
  rwa [List.erase_of_not_mem hk] at herase

/-- A part of a list without repetitions is the list, filtered. -/
theorem eq_filter_of_sublist (h : l.Sublist l') (hnd : l'.Nodup) :
    l = l'.filter (· ∈ l) := by
  induction h with
  | slnil => rfl
  | cons a h ih =>
    obtain ⟨hnot, hnd⟩ := List.nodup_cons.mp hnd
    rw [List.filter_cons_of_neg (by simpa using mt (fun hm => h.subset hm) hnot)]
    exact ih hnd
  | cons_cons a h ih =>
    obtain ⟨hnot, hnd⟩ := List.nodup_cons.mp hnd
    rw [List.filter_cons_of_pos (by simp)]
    congr 1
    refine (ih hnd).trans (List.filter_congr fun b hb => ?_)
    have hne : b ≠ a := fun heq => hnot (heq ▸ hb)
    simp [hne]

/-! ## One use -/

/-- A use of an element that is there moves it to the end. -/
theorem touch_of_mem (h : k ∈ l) : touch m k l = l.erase k ++ [k] := by
  rw [touch, if_pos h]

/-- A use of a new one drops the oldest, as far as there is no room, and puts it at the end. -/
theorem touch_of_notMem (h : k ∉ l) : touch m k l = l.drop (l.length + 1 - m) ++ [k] := by
  rw [touch, if_neg h]

/-- What is used is there. -/
theorem mem_touch_self : k ∈ touch m k l :=
  List.mem_append_right _ List.mem_cons_self

/-- A use brings no other element. -/
theorem mem_of_mem_touch (h : j ∈ touch m k l) (hne : j ≠ k) : j ∈ l := by
  rcases List.mem_append.mp h with h | h
  · split at h
    · exact List.mem_of_mem_erase h
    · exact List.mem_of_mem_drop h
  · exact absurd (List.mem_singleton.mp h) hne

/-- A use of what is there loses nothing. -/
theorem mem_touch_of_mem (hk : k ∈ l) (hne : j ≠ k) : j ∈ touch m k l ↔ j ∈ l := by
  refine ⟨fun h => mem_of_mem_touch h hne, fun h => ?_⟩
  rw [touch_of_mem hk]
  exact List.mem_append_left _ ((List.mem_erase_of_ne hne).mpr h)

/-- A new entry leaves those with few later ones. -/
theorem mem_touch_new (hnd : l.Nodup) (hk : k ∉ l) (hj : j ∈ l) :
    j ∈ touch m k l ↔ (later j l).length + 1 < m := by
  have hne : j ≠ k := fun h => hk (h ▸ hj)
  have hlt := length_later_lt hj
  rw [touch_of_notMem hk, List.mem_append, List.mem_singleton, or_iff_left hne,
    mem_drop hnd hj]
  omega

/-- When there is room for one entry, a new one drives out all others. -/
theorem mem_touch_one (hnd : l.Nodup) (hne : j ≠ k) : j ∈ touch 1 k l ↔ k ∈ l ∧ j ∈ l := by
  by_cases hk : k ∈ l
  · rw [mem_touch_of_mem hk hne, and_iff_right hk]
  · refine iff_of_false (fun hj => ?_) fun h => hk h.1
    have hlt := (mem_touch_new hnd hk (mem_of_mem_touch hj hne)).mp hj
    omega

/-- A use taken back, of an entry that was there. -/
theorem erase_touch_of_mem (hnd : l.Nodup) (h : k ∈ l) : (touch m k l).erase k = l.erase k := by
  rw [touch_of_mem h, List.erase_append_right _ hnd.not_mem_erase, List.erase_cons_head,
    List.append_nil]

/-- A use taken back, of an entry that was not: the room made for it is left. -/
theorem erase_touch_of_notMem (h : k ∉ l) :
    (touch m k l).erase k = l.drop (l.length + 1 - m) := by
  rw [touch_of_notMem h, List.erase_append_right _ fun hmem => h (List.mem_of_mem_drop hmem),
    List.erase_cons_head, List.append_nil]

/-- A use makes no element come twice. -/
theorem nodup_touch (hnd : l.Nodup) : (touch m k l).Nodup := by
  rw [touch]
  split
  · refine List.nodup_append.mpr ⟨hnd.erase k, List.nodup_singleton k, ?_⟩
    rintro a ha b hb rfl
    rw [List.mem_singleton.mp hb] at ha
    exact hnd.not_mem_erase ha
  · next hk =>
    refine List.nodup_append.mpr ⟨hnd.sublist (List.drop_sublist _ _), List.nodup_singleton k, ?_⟩
    rintro a ha b hb rfl
    rw [List.mem_singleton.mp hb] at ha
    exact hk (List.mem_of_mem_drop ha)

/-- Nothing is later than what was just used. -/
theorem later_touch_self (hnd : l.Nodup) : later k (touch m k l) = [] := by
  rw [touch]
  split
  · exact later_append_cons hnd.not_mem_erase
  · next hk => exact later_append_cons fun h => hk (List.mem_of_mem_drop h)

/-- What was used moves behind every other element. -/
theorem later_touch_of_mem (hnd : l.Nodup) (hk : k ∈ l) (hj : j ∈ l) (hne : j ≠ k) :
    later j (touch m k l) = (later j l).erase k ++ [k] := by
  rw [touch_of_mem hk, later_append ((List.mem_erase_of_ne hne).mpr hj), later_erase hnd hne]

/-- What is new comes behind every element that stays. -/
theorem later_touch_new (hnd : l.Nodup) (hk : k ∉ l) (hj : j ∈ touch m k l) (hne : j ≠ k) :
    later j (touch m k l) = later j l ++ [k] := by
  rw [touch_of_notMem hk] at hj ⊢
  have hmem : j ∈ l.drop (l.length + 1 - m) :=
    (List.mem_append.mp hj).resolve_right fun h => hne (List.mem_singleton.mp h)
  rw [later_append hmem, later_drop hnd hmem]

/-- After a use the entry is among the later ones of all others. -/
theorem mem_later_touch (hnd : l.Nodup) (hj : j ∈ touch m k l) (hne : j ≠ k) (i : α) :
    i ∈ later j (touch m k l) ↔ i ∈ later j l ∨ i = k := by
  have hmem := mem_of_mem_touch hj hne
  by_cases hk : k ∈ l
  · rw [later_touch_of_mem hnd hk hmem hne, List.mem_append, List.mem_singleton]
    by_cases hi : i = k
    · simp [hi]
    · rw [List.mem_erase_of_ne hi]
  · rw [later_touch_new hnd hk hj hne, List.mem_append, List.mem_singleton]

/-- A use never moves another element towards the end. -/
theorem length_later_touch (hnd : l.Nodup) (hj : j ∈ touch m k l) (hne : j ≠ k) :
    (later j l).length ≤ (later j (touch m k l)).length := by
  have hmem := mem_of_mem_touch hj hne
  by_cases hk : k ∈ l
  · rw [later_touch_of_mem hnd hk hmem hne, List.length_append, List.length_singleton,
      List.length_erase]
    split <;> omega
  · rw [later_touch_new hnd hk hj hne, List.length_append]
    omega

/-- With a new entry there are at most `m`. -/
theorem length_touch_new (hk : k ∉ l) (hm : 1 ≤ m) : (touch m k l).length ≤ m := by
  rw [touch_of_notMem hk, List.length_append, List.length_drop, List.length_singleton]
  omega

/-- The bound on the length is kept. -/
theorem length_touch_le (hm : 1 ≤ m) (h : l.length ≤ m) : (touch m k l).length ≤ m := by
  by_cases hk : k ∈ l
  · have hpos := List.length_pos_of_mem hk
    rw [touch_of_mem hk, List.length_append, List.length_erase_of_mem hk, List.length_singleton]
    omega
  · exact length_touch_new hk hm

/-- What is later has fewer later ones. -/
theorem length_later_lt_later (hnd : l.Nodup) (h : j ∈ later k l) :
    (later j l).length < (later k l).length := by
  have hk : k ∈ l := by
    by_contra hk
    rw [later_of_notMem hk] at h
    exact List.not_mem_nil h
  obtain ⟨a, ha, -⟩ := exists_split hk
  obtain ⟨b, hb, hnot⟩ := exists_split h
  have hlater : later j l = later j (later k l) := by
    have hsplit : l = (a ++ k :: b) ++ j :: later j (later k l) := by
      rw [List.append_assoc, List.cons_append, ← hb, ← ha]
    have hj : j ∉ a ++ k :: b := by
      rw [hsplit] at hnd
      exact fun hmem => (List.nodup_append.mp hnd).2.2 j hmem j List.mem_cons_self rfl
    conv_lhs => rw [hsplit]
    exact later_append_cons hj
  rw [hlater]
  exact length_later_lt h

/-! ## Two lists that keep and lose the same -/

/-- The entry is in both lists or in neither, with the same later ones. -/
structure SameLater (k : α) (l l' : List α) : Prop where
  mem : k ∈ l ↔ k ∈ l'
  later : ∀ j, j ∈ later k l ↔ j ∈ later k l'

/-- The relation goes both ways. -/
theorem SameLater.symm (h : SameLater k l l') : SameLater k l' l :=
  ⟨h.mem.symm, fun j => (h.later j).symm⟩

/-- As many elements are later in the one as in the other. -/
theorem SameLater.length (h : SameLater k l l') (hnd : l.Nodup) (hnd' : l'.Nodup) :
    (RecencyOrder.later k l).length = (RecencyOrder.later k l').length :=
  ((List.perm_ext_iff_of_nodup (hnd.sublist later_sublist) (hnd'.sublist later_sublist)).mpr
    h.later).length_eq

/-- An element that is in neither has nothing behind it. -/
theorem sameLater_of_notMem (h : k ∉ l) (h' : k ∉ l') : SameLater k l l' := by
  refine ⟨iff_of_false h h', fun j => ?_⟩
  rw [later_of_notMem h, later_of_notMem h']

/-- The next new entry drives the entry out. -/
def IsLast (m : ℕ) (k : α) (l : List α) : Prop := m ≤ (later k l).length + 1

/-- Either no list holds more than `m` and every entry has the same later ones in both; or
the lists hold the same entries, and those that differ in their later ones are out with the
next new one.  Of the `dead` ones nothing is said. -/
inductive Alike (m : ℕ) (dead : α → Prop) (l l' : List α) : Prop
  | within (hl : l.length ≤ m) (hl' : l'.length ≤ m) (h : ∀ k, dead k ∨ SameLater k l l')
  | same (hmem : ∀ k, k ∈ l ↔ k ∈ l')
      (h : ∀ k, dead k ∨ SameLater k l l' ∨ IsLast m k l ∧ IsLast m k l')

section Alike

variable (hnd : l.Nodup) (hnd' : l'.Nodup)
include hnd hnd'

/-- A use of another element keeps the agreement, where the element stays in both or in neither. -/
theorem SameLater.touched (h : SameLater j l l') (hne : j ≠ k)
    (hmem : j ∈ touch m k l ↔ j ∈ touch m k l') :
    SameLater j (touch m k l) (touch m k l') := by
  by_cases hj : j ∈ touch m k l
  · refine ⟨hmem, fun i => ?_⟩
    rw [mem_later_touch hnd hj hne, mem_later_touch hnd' (hmem.mp hj) hne, h.later]
  · exact sameLater_of_notMem hj fun hj' => hj (hmem.mpr hj')

/-- An entry that is kept by one list and has the same later ones in the other, which has
to make room, is kept there too. -/
theorem mem_touch_new_of_mem (hl : l.length ≤ m) (h : SameLater j l l') (hk : k ∈ l)
    (hk' : k ∉ l') (hj : j ∈ l) : j ∈ touch m k l' := by
  have hj' := h.mem.mp hj
  have hne : k ≠ j := fun hkj => hk' (hkj ▸ hj')
  have hlater : j ∈ later k l := by
    refine (mem_later_or hj hk hne.symm).resolve_right fun hkj => hk' ?_
    exact later_sublist.subset ((h.later k).mp hkj)
  have hlt := length_later_lt_later hnd hlater
  have hlt' := length_later_lt hk
  rw [mem_touch_new hnd' hk' hj', ← h.length hnd hnd']
  omega

/-- An element with the same later ones is dropped from both or from neither. -/
theorem SameLater.mem_touch (hl : l.length ≤ m) (hl' : l'.length ≤ m)
    (h : SameLater j l l') (hne : j ≠ k) : j ∈ touch m k l ↔ j ∈ touch m k l' := by
  by_cases hj : j ∈ l
  · have hj' := h.mem.mp hj
    by_cases hk : k ∈ l
    · rw [mem_touch_of_mem hk hne]
      by_cases hk' : k ∈ l'
      · rw [mem_touch_of_mem hk' hne, h.mem]
      · exact iff_of_true hj (mem_touch_new_of_mem hnd hnd' hl h hk hk' hj)
    · by_cases hk' : k ∈ l'
      · rw [mem_touch_of_mem hk' hne]
        exact iff_of_true (mem_touch_new_of_mem hnd' hnd hl' h.symm hk' hk hj') hj'
      · rw [mem_touch_new hnd hk hj, mem_touch_new hnd' hk' hj', h.length hnd hnd']
  · exact iff_of_false (fun h' => hj (mem_of_mem_touch h' hne))
      fun h' => hj (h.mem.mpr (mem_of_mem_touch h' hne))

/-- Of the entries of interest a use keeps the same in both lists. -/
theorem Alike.mem_touch {dead : α → Prop} (h : Alike m dead l l') (hne : j ≠ k) :
    dead j ∨ (j ∈ touch m k l ↔ j ∈ touch m k l') := by
  cases h with
  | within hl hl' h => exact (h j).imp_right fun h => h.mem_touch hnd hnd' hl hl' hne
  | same hmem h =>
    by_cases hk : k ∈ l
    · refine Or.inr ?_
      rw [mem_touch_of_mem hk hne, mem_touch_of_mem ((hmem k).mp hk) hne, hmem]
    · have hk' : k ∉ l' := fun hk' => hk ((hmem k).mpr hk')
      refine (h j).imp_right fun h => ?_
      by_cases hj : j ∈ l
      · have hj' := (hmem j).mp hj
        rw [mem_touch_new hnd hk hj, mem_touch_new hnd' hk' hj']
        rcases h with h | ⟨hlast, hlast'⟩
        · rw [h.length hnd hnd']
        · unfold IsLast at hlast hlast'
          omega
      · exact iff_of_false (fun h' => hj (mem_of_mem_touch h' hne))
          fun h' => hj ((hmem j).mpr (mem_of_mem_touch h' hne))

/-- **A use preserves it.** -/
theorem Alike.touched (hm : 1 ≤ m) {dead dead' : α → Prop} (h : Alike m dead l l')
    (hdead : ∀ j, j ≠ k → dead j → dead' j) :
    Alike m dead' (touch m k l) (touch m k l') := by
  have hself : SameLater k (touch m k l) (touch m k l') := by
    refine ⟨iff_of_true mem_touch_self mem_touch_self, fun i => ?_⟩
    rw [later_touch_self hnd, later_touch_self hnd']
  cases h with
  | within hl hl' h =>
    refine .within (length_touch_le hm hl) (length_touch_le hm hl') fun j => ?_
    by_cases hne : j = k
    · exact Or.inr (hne ▸ hself)
    · exact (h j).imp (hdead j hne) fun h =>
        h.touched hnd hnd' hne (h.mem_touch hnd hnd' hl hl' hne)
  | same hmem h =>
    by_cases hk : k ∈ l
    · have hk' := (hmem k).mp hk
      refine .same (fun j => ?_) fun j => ?_
      · by_cases hne : j = k
        · exact hne ▸ hself.mem
        · rw [mem_touch_of_mem hk hne, mem_touch_of_mem hk' hne, hmem]
      · by_cases hne : j = k
        · exact Or.inr (Or.inl (hne ▸ hself))
        · have hiff : j ∈ touch m k l ↔ j ∈ touch m k l' := by
            rw [mem_touch_of_mem hk hne, mem_touch_of_mem hk' hne, hmem]
          refine (h j).imp (hdead j hne) fun h => ?_
          rcases h with h | ⟨hlast, hlast'⟩
          · exact Or.inl (h.touched hnd hnd' hne hiff)
          · by_cases hj : j ∈ touch m k l
            · have hle := length_later_touch hnd hj hne
              have hle' := length_later_touch hnd' (hiff.mp hj) hne
              unfold IsLast at hlast hlast' ⊢
              exact Or.inr ⟨by omega, by omega⟩
            · exact Or.inl (sameLater_of_notMem hj fun hj' => hj (hiff.mpr hj'))
    · have hk' : k ∉ l' := fun hk' => hk ((hmem k).mpr hk')
      refine .within (length_touch_new hk hm) (length_touch_new hk' hm) fun j => ?_
      by_cases hne : j = k
      · exact Or.inr (hne ▸ hself)
      · have hfate := (Alike.same hmem h).mem_touch hnd hnd' (k := k) hne
        rcases h j with hd | h | ⟨hlast, hlast'⟩
        · exact Or.inl (hdead j hne hd)
        · rcases hfate with hd | hiff
          · exact Or.inl (hdead j hne hd)
          · exact Or.inr (h.touched hnd hnd' hne hiff)
        · refine Or.inr (sameLater_of_notMem (fun hj => ?_) fun hj => ?_)
          · have hlt := (mem_touch_new hnd hk (mem_of_mem_touch hj hne)).mp hj
            unfold IsLast at hlast
            omega
          · have hlt := (mem_touch_new hnd' hk' (mem_of_mem_touch hj hne)).mp hj
            unfold IsLast at hlast'
            omega

end Alike

/-! ### Lists that differ in one use -/

/-- Every list is like itself. -/
theorem Alike.refl (m : ℕ) (dead : α → Prop) (l : List α) : Alike m dead l l :=
  .same (fun _ => Iff.rfl) fun _ => Or.inr (Or.inl ⟨Iff.rfl, fun _ => Iff.rfl⟩)

section OneUse

variable {dead : α → Prop} (hnd : l.Nodup)
include hnd

/-- A dead entry is taken away, and all before it are dead. -/
theorem alike_erase (hlen : l.length ≤ m) (hk : dead k)
    (hdead : ∀ j ∈ l, k ∈ later j l → dead j) : Alike m dead l (l.erase k) := by
  refine .within hlen ((List.length_erase_le).trans hlen) fun j => ?_
  by_cases hne : j = k
  · exact Or.inl (hne ▸ hk)
  by_cases hj : j ∈ l
  · by_cases hkj : k ∈ later j l
    · exact Or.inl (hdead j hj hkj)
    · refine Or.inr ⟨(List.mem_erase_of_ne hne).symm, fun i => ?_⟩
      rw [later_erase hnd hne, List.erase_of_not_mem hkj]
  · exact Or.inr (sameLater_of_notMem hj fun hmem => hj (List.mem_of_mem_erase hmem))

/-- An entry that is there is used. -/
theorem alike_touch (hk : k ∈ l) (h : later k l = [] ∨ m = 1 ∨
    dead k ∧ ∀ j ∈ later k l, (later j l).length + 1 < m → dead j) :
    Alike m dead l (touch m k l) := by
  have hmem : ∀ j, j ∈ l ↔ j ∈ touch m k l := by
    intro j
    by_cases hne : j = k
    · exact iff_of_true (hne ▸ hk) (hne ▸ mem_touch_self)
    · exact (mem_touch_of_mem hk hne).symm
  refine .same hmem fun j => ?_
  by_cases hj : j ∈ l
  · by_cases hne : j = k
    · subst hne
      rcases h with hlast | hone | ⟨hdead, -⟩
      · refine Or.inr (Or.inl ⟨hmem j, fun i => ?_⟩)
        rw [hlast, later_touch_self hnd]
      · refine Or.inr (Or.inr ⟨?_, ?_⟩)
        · exact hone ▸ Nat.le_add_left 1 _
        · exact hone ▸ Nat.le_add_left 1 _
      · exact Or.inl hdead
    · have hlater : later j (touch m k l) = (later j l).erase k ++ [k] :=
        later_touch_of_mem hnd hk hj hne
      rcases mem_later_or hj hk hne with hjk | hkj
      · by_cases hlt : (later j l).length + 1 < m
        · rcases h with hlast | hone | ⟨-, hdead⟩
          · rw [hlast] at hjk
            exact absurd hjk List.not_mem_nil
          · omega
          · exact Or.inl (hdead j hjk hlt)
        · refine Or.inr (Or.inr ⟨not_lt.mp hlt, ?_⟩)
          have hle := length_later_touch hnd ((hmem j).mp hj) hne
          unfold IsLast
          omega
      · refine Or.inr (Or.inl ⟨hmem j, fun i => ?_⟩)
        rw [mem_later_touch hnd ((hmem j).mp hj) hne]
        exact ⟨Or.inl, fun hi => hi.elim id fun hi => hi ▸ hkj⟩
  · exact Or.inr (Or.inl (sameLater_of_notMem hj fun hin => hj ((hmem j).mpr hin)))

/-- Entries that were driven out are dead. -/
theorem alike_drop (hlen : l.length ≤ m)
    (hdead : ∀ j ∈ l, j ∉ l.drop (l.length + 1 - m) → dead j) :
    Alike m dead l (l.drop (l.length + 1 - m)) := by
  refine .within hlen (by rw [List.length_drop]; omega) fun j => ?_
  by_cases hin : j ∈ l.drop (l.length + 1 - m)
  · refine Or.inr ⟨iff_of_true (List.mem_of_mem_drop hin) hin, fun i => ?_⟩
    rw [later_drop hnd hin]
  · by_cases hj : j ∈ l
    · exact Or.inl (hdead j hj hin)
    · exact Or.inr (sameLater_of_notMem hj hin)

omit hnd in
/-- All entries are dead, the new one too. -/
theorem alike_new (hm : 1 ≤ m) (hlen : l.length ≤ m) (hk : dead k) (hdead : ∀ j ∈ l, dead j) :
    Alike m dead l (touch m k l) := by
  refine .within hlen (length_touch_le hm hlen) fun j => ?_
  by_cases hne : j = k
  · exact Or.inl (hne ▸ hk)
  by_cases hj : j ∈ l
  · exact Or.inl (hdead j hj)
  · exact Or.inr (sameLater_of_notMem hj fun hmem => hj (mem_of_mem_touch hmem hne))

end OneUse

/-! ## Several uses -/

/-- The entries are used in this order. -/
def touchAll (m : ℕ) (ks l : List α) : List α := ks.foldl (fun l k => touch m k l) l

/-- Uses bring no element but those used. -/
theorem mem_of_mem_touchAll {ks : List α} (h : j ∈ touchAll m ks l) (hj : j ∉ ks) : j ∈ l := by
  induction ks generalizing l with
  | nil => exact h
  | cons k ks ih =>
    obtain ⟨hne, hks⟩ := not_or.mp (List.mem_cons.not.mp hj)
    exact mem_of_mem_touch (ih h hks) hne

/-- New entries leave those that together with them have few later ones. -/
theorem mem_touchAll_new {ks : List α} (hnd : l.Nodup) (hks : ks.Nodup)
    (hnew : ∀ k ∈ ks, k ∉ l) (hj : j ∈ l) :
    j ∈ touchAll m ks l ↔ ks = [] ∨ (later j l).length + ks.length < m := by
  induction ks generalizing l with
  | nil => exact iff_of_true hj (Or.inl rfl)
  | cons k ks ih =>
    obtain ⟨hk, hks⟩ := List.nodup_cons.mp hks
    have hnot := hnew k List.mem_cons_self
    have hne : j ≠ k := fun h => hnot (h ▸ hj)
    have hjks : j ∉ ks := fun h => hnew j (List.mem_cons_of_mem k h) hj
    rw [or_iff_right (List.cons_ne_nil k ks), List.length_cons]
    show j ∈ touchAll m ks (touch m k l) ↔ _
    by_cases hmem : j ∈ touch m k l
    · have hlt := (mem_touch_new hnd hnot hj).mp hmem
      have hnew' : ∀ k' ∈ ks, k' ∉ touch m k l := by
        intro k' hk' hin
        have hne' : k' ≠ k := fun h => hk (h ▸ hk')
        exact hnew k' (List.mem_cons_of_mem k hk') (mem_of_mem_touch hin hne')
      rw [ih (nodup_touch hnd) hks hnew' hmem, later_touch_new hnd hnot hmem hne,
        List.length_append, List.length_singleton]
      cases ks with
      | nil => exact iff_of_true (Or.inl rfl) hlt
      | cons k' ks =>
        rw [or_iff_right (List.cons_ne_nil k' ks)]
        omega
    · have hge : ¬ (later j l).length + 1 < m := fun h => hmem ((mem_touch_new hnd hnot hj).mpr h)
      refine iff_of_false (fun h => hmem (mem_of_mem_touchAll h hjks)) fun h => ?_
      omega

/-- Uses of what is there lose nothing. -/
theorem mem_touchAll_of_subset {ks : List α} (h : ∀ k ∈ ks, k ∈ l) :
    j ∈ touchAll m ks l ↔ j ∈ l := by
  induction ks generalizing l with
  | nil => rfl
  | cons k ks ih =>
    have hk := h k List.mem_cons_self
    have hmem : ∀ i, i ∈ touch m k l ↔ i ∈ l := by
      intro i
      by_cases hne : i = k
      · exact iff_of_true (hne ▸ mem_touch_self) (hne ▸ hk)
      · exact mem_touch_of_mem hk hne
    exact (ih fun k' hk' => (hmem k').mpr (h k' (List.mem_cons_of_mem k hk'))).trans (hmem j)

/-- With a new entry among them there are at most `m` in the end. -/
theorem length_touchAll_le {ks : List α} (hm : 1 ≤ m)
    (h : l.length ≤ m ∨ ∃ k ∈ ks, k ∉ l) : (touchAll m ks l).length ≤ m := by
  induction ks generalizing l with
  | nil =>
    rcases h with h | ⟨k, hk, -⟩
    · exact h
    · exact absurd hk List.not_mem_nil
  | cons k ks ih =>
    refine ih ?_
    rcases h with h | ⟨k', hk', hnew⟩
    · exact Or.inl (length_touch_le hm h)
    · by_cases hk : k ∈ l
      · rcases List.mem_cons.mp hk' with rfl | hks
        · exact absurd hk hnew
        · have hne : k' ≠ k := fun h => hnew (h ▸ hk)
          exact Or.inr ⟨k', hks, fun hin => hnew (mem_of_mem_touch hin hne)⟩
      · exact Or.inl (length_touch_new hk hm)

/-! ## What shows in the end

Whatever is used, two lists should hold the same entries after it, but for the `dead` ones
that were not used.  Below, what this says of a list and of one in which a single entry was
used or taken away. -/

/-- After any uses the same entries are there, apart from `dead` ones. -/
structure KeepsSame (m : ℕ) (dead : α → Prop) (l l' : List α) : Prop where
  used : ∀ ks, ∀ j ∈ ks, (j ∈ touchAll m ks l ↔ j ∈ touchAll m ks l')
  unused : ∀ ks j, j ∉ ks → dead j ∨ (j ∈ touchAll m ks l ↔ j ∈ touchAll m ks l')

omit [DecidableEq α] in
/-- There are always entries not used before. -/
theorem exists_fresh [Infinite α] (l : List α) (n : ℕ) :
    ∃ ks : List α, ks.Nodup ∧ ks.length = n ∧ ∀ k ∈ ks, k ∉ l := by
  classical
  obtain ⟨t, hsub, hcard⟩ := Infinite.exists_superset_card_eq l.toFinset (l.toFinset.card + n)
    (Nat.le_add_right _ n)
  refine ⟨(t \ l.toFinset).toList, Finset.nodup_toList _, ?_, fun k hk hmem => ?_⟩
  · rw [Finset.length_toList, Finset.card_sdiff_of_subset hsub, hcard]
    omega
  · exact (Finset.mem_sdiff.mp (Finset.mem_toList.mp hk)).2 (List.mem_toFinset.mpr hmem)

/-- Of two elements only one is later. -/
theorem notMem_later_of_mem_later (hnd : l.Nodup) (h : j ∈ later k l) : k ∉ later j l := by
  intro hk
  have hlt := length_later_lt_later hnd h
  have hlt' := length_later_lt_later hnd hk
  omega

section KeepsSame

variable {dead : α → Prop} (hnd : l.Nodup) (hm : 1 ≤ m)
include hnd hm

/-- A list longer than `m` keeps all it has when all of it is used; no other one does. -/
theorem KeepsSame.length_le (h : KeepsSame m dead l l')
    (hother : l'.length ≤ m ∨ ∃ j ∈ l, j ∉ l') : l.length ≤ m := by
  have hsub : ∀ j ∈ l, j ∈ touchAll m l l' := fun j hj =>
    (h.used l j hj).mp ((mem_touchAll_of_subset fun _ hk => hk).mpr hj)
  exact (hnd.subperm hsub).length_le.trans (length_touchAll_le hm hother)

/-- An entry was taken away: all before it were dead. -/
theorem KeepsSame.of_erase [Infinite α] (hk : k ∈ l) (h : KeepsSame m dead l (l.erase k)) :
    l.length ≤ m ∧ ∀ j ∈ l, k ∈ later j l → dead j := by
  have hlen := h.length_le hnd hm (Or.inr ⟨k, hk, hnd.not_mem_erase⟩)
  refine ⟨hlen, fun j hj hkj => ?_⟩
  have hne : j ≠ k := fun hjk => notMem_later hnd (hjk ▸ hkj : k ∈ later k l)
  have hlt := length_later_lt hj
  have hpos := List.length_pos_of_mem hkj
  obtain ⟨ks, hks, hcount, hfresh⟩ := exists_fresh l (m - (later j l).length)
  have hjks : j ∉ ks := fun hmem => hfresh j hmem hj
  have hold : ¬ j ∈ touchAll m ks l := by
    rw [mem_touchAll_new hnd hks hfresh hj, hcount]
    rintro (rfl | hlt')
    · rw [List.length_nil] at hcount
      omega
    · omega
  have hnew : j ∈ touchAll m ks (l.erase k) := by
    rw [mem_touchAll_new (hnd.erase k) hks
      (fun i hi hmem => hfresh i hi (List.mem_of_mem_erase hmem))
      ((List.mem_erase_of_ne hne).mpr hj), later_erase hnd hne, List.length_erase_of_mem hkj,
      hcount]
    omega
  exact (h.unused ks j hjks).resolve_right fun hiff => hold (hiff.mpr hnew)

/-- An entry that is there was used: it was the last one, or it is dead, and of those after
it all that it may drive out. -/
theorem KeepsSame.of_touch [Infinite α] (hk : k ∈ l) (h : KeepsSame m dead l (touch m k l)) :
    later k l = [] ∨ m = 1 ∨
      dead k ∧ ∀ j ∈ later k l, (later j l).length + 1 < m → dead j := by
  refine or_iff_not_imp_left.mpr fun hlater => or_iff_not_imp_left.mpr fun hone => ⟨?_, ?_⟩
  · have hpos := List.length_pos_of_ne_nil hlater
    obtain ⟨ks, hks, hcount, hfresh⟩ := exists_fresh l (max 1 (m - (later k l).length))
    have hkks : k ∉ ks := fun hmem => hfresh k hmem hk
    have hold : ¬ k ∈ touchAll m ks l := by
      rw [mem_touchAll_new hnd hks hfresh hk, hcount]
      rintro (rfl | hlt')
      · rw [List.length_nil] at hcount
        omega
      · omega
    have hnew : k ∈ touchAll m ks (touch m k l) := by
      rw [mem_touchAll_new (nodup_touch hnd) hks (fun i hi hmem => hfresh i hi
        (mem_of_mem_touch hmem (ne_of_mem_of_not_mem hi hkks))) mem_touch_self,
        later_touch_self hnd, hcount]
      right
      simp only [List.length_nil]
      omega
    exact (h.unused ks k hkks).resolve_right fun hiff => hold (hiff.mpr hnew)
  · intro j hj hlt
    have hmem := later_sublist.subset hj
    have hne : j ≠ k := fun hjk => notMem_later hnd (hjk ▸ hj : k ∈ later k l)
    obtain ⟨ks, hks, hcount, hfresh⟩ := exists_fresh l (m - 1 - (later j l).length)
    have hjks : j ∉ ks := fun hin => hfresh j hin hmem
    have hold : j ∈ touchAll m ks l := by
      rw [mem_touchAll_new hnd hks hfresh hmem, hcount]
      omega
    have hnew : ¬ j ∈ touchAll m ks (touch m k l) := by
      rw [mem_touchAll_new (nodup_touch hnd) hks (fun i hi hin => hfresh i hi
        (mem_of_mem_touch hin fun hik => hfresh i hi (hik ▸ hk)))
        ((mem_touch_of_mem hk hne).mpr hmem), later_touch_of_mem hnd hk hmem hne,
        List.length_append, List.erase_of_not_mem (notMem_later_of_mem_later hnd hj),
        List.length_singleton, hcount]
      rintro (rfl | hlt')
      · rw [List.length_nil] at hcount
        omega
      · omega
    exact (h.unused ks j hjks).resolve_right fun hiff => hnew (hiff.mp hold)

/-- Room was made for an entry that did not stay: there was room, or the first one is dead. -/
theorem KeepsSame.of_drop (h : KeepsSame m dead l (l.drop (l.length + 1 - m))) :
    l.length < m ∨ l.length = m ∧ ∀ j ∈ l.head?, dead j := by
  refine or_iff_not_imp_left.mpr fun hfull => ?_
  have hlen : l.length = m := by
    refine le_antisymm (h.length_le hnd hm (Or.inl ?_)) (not_lt.mp hfull)
    rw [List.length_drop]
    omega
  refine ⟨hlen, fun j hj => ?_⟩
  obtain ⟨l', rfl⟩ := List.head?_eq_some_iff.mp hj
  have hdrop : (j :: l').length + 1 - m = 1 := by omega
  rw [hdrop, List.drop_one, List.tail_cons] at h
  refine (h.unused [] j List.not_mem_nil).resolve_right fun hiff => ?_
  exact (List.nodup_cons.mp hnd).1 (hiff.mp List.mem_cons_self)

/-- An entry came: all others are dead. -/
theorem KeepsSame.of_new [Infinite α] (hk : k ∉ l) (h : KeepsSame m dead l (touch m k l)) :
    l.length ≤ m ∧ ∀ j ∈ l, dead j := by
  have hlen := h.length_le hnd hm (Or.inl (length_touch_new hk hm))
  refine ⟨hlen, fun j hj => ?_⟩
  have hne : j ≠ k := fun hjk => hk (hjk ▸ hj)
  have hlt := length_later_lt hj
  obtain ⟨ks, hks, hcount, hfresh⟩ := exists_fresh (k :: l) (m - 1 - (later j l).length)
  have hnotin : ∀ i ∈ ks, i ∉ l := fun i hi hmem => hfresh i hi (List.mem_cons_of_mem k hmem)
  have hjks : j ∉ ks := fun hmem => hnotin j hmem hj
  have hold : j ∈ touchAll m ks l := by
    rw [mem_touchAll_new hnd hks hnotin hj, hcount]
    cases ks with
    | nil => exact Or.inl rfl
    | cons i ks =>
      rw [List.length_cons] at hcount
      omega
  have hnew : ¬ j ∈ touchAll m ks (touch m k l) := by
    intro hmem
    have hin := mem_of_mem_touchAll hmem hjks
    have hroom := (mem_touch_new hnd hk hj).mp hin
    rw [mem_touchAll_new (nodup_touch hnd) hks (fun i hi hin => hnotin i hi
      (mem_of_mem_touch hin fun hik => hfresh i hi (hik ▸ List.mem_cons_self))) hin,
      later_touch_new hnd hk hin hne, List.length_append, List.length_singleton, hcount] at hmem
    rcases hmem with rfl | hlt'
    · rw [List.length_nil] at hcount
      omega
    · omega
  exact (h.unused ks j hjks).resolve_right fun hiff => hnew (hiff.mp hold)

end KeepsSame

/-! ## The most recent uses -/

section MostRecent

/-- The entries in use after these uses, when at most `m` may be (`0` means no limit): the
most recent ones. -/
def mostRecent (m : ℕ) (uses : List α) : List α :=
  if m = 0 then uses.dedup else uses.dedup.rtake m

/-- Without a bound the last use comes to the end. -/
theorem mostRecent_zero_concat (uses : List α) (k : α) :
    mostRecent 0 (uses ++ [k]) = (mostRecent 0 uses).erase k ++ [k] := by
  simp only [mostRecent, if_pos]
  exact dedup_concat uses k

/-- One use more is one `touch`. -/
theorem mostRecent_concat (hm : 1 ≤ m) (uses : List α) (k : α) :
    mostRecent m (uses ++ [k]) = touch m k (mostRecent m uses) := by
  obtain ⟨m, rfl⟩ := Nat.exists_eq_add_of_le' hm
  have hpos : m + 1 ≠ 0 := Nat.succ_ne_zero m
  simp only [mostRecent, if_neg hpos]
  rw [dedup_concat, List.rtake_concat_succ, touch]
  congr 1
  have hnd : uses.dedup.Nodup := List.nodup_dedup uses
  generalize uses.dedup = d at hnd ⊢
  -- the entries that are in use, behind those that are not
  have hsplit : d = d.take (d.length - (m + 1)) ++ d.rtake (m + 1) :=
    (List.take_append_drop _ d).symm
  have hlen : (d.take (d.length - (m + 1))).length = d.length - (m + 1) := by
    rw [List.length_take]
    omega
  generalize d.take (d.length - (m + 1)) = a at hsplit hlen
  generalize hl : d.rtake (m + 1) = l at hsplit
  have hlength : d.length = a.length + l.length := by rw [hsplit, List.length_append]
  have hdisj : ∀ b ∈ a, b ∉ l := by
    rw [hsplit] at hnd
    exact fun b ha hb => (List.nodup_append.mp hnd).2.2 b ha b hb rfl
  split
  · next hk =>
    have ha : k ∉ a := fun h => hdisj k h hk
    have herase := List.length_erase_of_mem hk
    have hpos := List.length_pos_of_mem hk
    rw [hsplit, List.erase_append_right _ ha, List.rtake, List.length_append,
      List.drop_append]
    have hdrop : a.drop (a.length + (l.erase k).length - m) = [] :=
      List.drop_eq_nil_of_le (by omega)
    rw [hdrop, List.nil_append]
    have hzero : a.length + (l.erase k).length - m - a.length = 0 := by omega
    rw [hzero, List.drop_zero]
  · next hk =>
    have herase : d.erase k = a.erase k ++ l := by
      rw [hsplit]
      by_cases ha : k ∈ a
      · exact List.erase_append_left _ ha
      · rw [List.erase_append_right _ ha, List.erase_of_not_mem ha, List.erase_of_not_mem hk]
    have hle : (a.erase k).length ≤ a.length := List.length_erase_le
    rw [herase, List.rtake, List.length_append, List.drop_append]
    have hdrop : (a.erase k).drop ((a.erase k).length + l.length - m) = [] := by
      rcases Nat.eq_zero_or_pos a.length with h0 | h0
      · rw [List.length_eq_zero_iff.mp h0]
        exact List.drop_nil
      · exact List.drop_eq_nil_of_le (by omega)
    rw [hdrop, List.nil_append]
    congr 1
    omega

end MostRecent

end RecencyOrder

end RatelimitFlex.Library
