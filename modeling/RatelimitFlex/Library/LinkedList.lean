import Mathlib.Data.List.Nodup
import Mathlib.Logic.Function.Basic
import Mathlib.Tactic

/-!
# Intrusive doubly-linked lists

The nodes carry their own `prev` and `next`, the list its two ends and a counter.
`L.Represents q` says that these are the nodes of `q` in order: each is linked to its
neighbours in `q`, and a node outside has no links.  Then appending at the tail appends to
`q`, unlinking a node erases it from `q` and reports whether it was there, and following
`next` from the head visits `q`.
-/

set_option autoImplicit false

namespace RatelimitFlex.Library

/-- The ends, the links and the counter. -/
structure LinkedList (ι : Type*) where
  head : Option ι := none
  tail : Option ι := none
  prev : ι → Option ι := fun _ => none
  next : ι → Option ι := fun _ => none
  length : ℤ := 0

namespace LinkedList

variable {ι : Type*}

/-- Up to `n` nodes along `next`. -/
def follow (L : LinkedList ι) : ℕ → Option ι → List ι
  | 0, _ => []
  | _ + 1, none => []
  | n + 1, some x => x :: L.follow n (L.next x)

/-- The nodes from the head on. -/
def nodes (L : LinkedList ι) : List ι := L.follow L.length.toNat L.head

/-- The list is that of the nodes of `q`, in order. -/
structure Represents (L : LinkedList ι) (q : List ι) : Prop where
  head : L.head = q.head?
  tail : L.tail = q.getLast?
  linked : ∀ a x b, q = a ++ x :: b → L.prev x = a.getLast? ∧ L.next x = b.head?
  outside : ∀ x, x ∉ q → L.prev x = none ∧ L.next x = none
  length : L.length = q.length
  nodup : q.Nodup

/-- The empty list represents no elements. -/
theorem represents_empty : Represents ({} : LinkedList ι) [] where
  head := rfl
  tail := rfl
  linked := by simp
  outside _ _ := ⟨rfl, rfl⟩
  length := rfl
  nodup := List.nodup_nil

variable {L : LinkedList ι} {q : List ι} {x : ι}

/-- Following `next` visits the nodes in order. -/
theorem Represents.follow_eq (h : L.Represents q) {a b : List ι} (hq : q = a ++ b) {n : ℕ}
    (hn : b.length ≤ n) : L.follow n b.head? = b := by
  induction n generalizing a b with
  | zero =>
    obtain rfl := List.length_eq_zero_iff.mp (Nat.le_zero.mp hn)
    rfl
  | succ n ih =>
    cases b with
    | nil => rfl
    | cons x b =>
      have hnext := (h.linked a x b hq).2
      have hrest := ih (a := a ++ [x]) (b := b) (by simpa using hq) (by simpa using hn)
      rw [List.head?_cons, follow, hnext, hrest]

/-- Walking from the head gives the elements. -/
theorem Represents.nodes_eq (h : L.Represents q) : L.nodes = q := by
  have hlen : q.length ≤ L.length.toNat := by
    rw [h.length, Int.toNat_natCast]
  rw [nodes, h.head]
  exact h.follow_eq (a := []) rfl hlen

variable [DecidableEq ι]

/-- Append a node. -/
def enqueueTail (x : ι) (L : LinkedList ι) : LinkedList ι :=
  let L := { L with prev := Function.update L.prev x L.tail, next := Function.update L.next x none }
  let L := match L.tail with
    | some t => { L with next := Function.update L.next t (some x) }
    | none => { L with head := some x }
  { L with tail := some x, length := L.length + 1 }

/-- Remove a node; `false` when it is not the head and has no links. -/
def unlink (x : ι) (L : LinkedList ι) : LinkedList ι × Bool :=
  if L.head ≠ some x ∧ L.prev x = none ∧ L.next x = none then (L, false)
  else
    let L := match L.prev x with
      | some p => { L with next := Function.update L.next p (L.next x) }
      | none => { L with head := L.next x }
    let L := match L.next x with
      | some n => { L with prev := Function.update L.prev n (L.prev x) }
      | none => { L with tail := L.prev x }
    ({ L with
        prev := Function.update L.prev x none
        next := Function.update L.next x none
        length := L.length - 1 }, true)

/-- Remove every node from the head on. -/
def clear (L : LinkedList ι) : LinkedList ι where
  prev x := if x ∈ L.nodes then none else L.prev x
  next x := if x ∈ L.nodes then none else L.next x

/-! ## Links after an operation -/

section Links

variable (L) (x y : ι)

/-- A new element comes behind the tail. -/
@[simp] theorem prev_enqueueTail :
    (L.enqueueTail x).prev y = if y = x then L.tail else L.prev y := by
  unfold enqueueTail
  cases L.tail <;> simp [Function.update_apply]

/-- The old tail points to it. -/
@[simp] theorem next_enqueueTail :
    (L.enqueueTail x).next y =
      if L.tail = some y then some x else if y = x then none else L.next y := by
  unfold enqueueTail
  cases h : L.tail <;> simp [Function.update_apply, eq_comm]

/-- It is the head of a list that was empty. -/
@[simp] theorem head_enqueueTail :
    (L.enqueueTail x).head = if L.tail = none then some x else L.head := by
  unfold enqueueTail
  cases h : L.tail <;> simp

/-- It is the tail. -/
@[simp] theorem tail_enqueueTail : (L.enqueueTail x).tail = some x := rfl

/-- The list is longer by one. -/
@[simp] theorem length_enqueueTail : (L.enqueueTail x).length = L.length + 1 := by
  unfold enqueueTail
  cases h : L.tail <;> simp

variable {L x}

/-- The node is found: it is the head or has a link. -/
def Found (L : LinkedList ι) (x : ι) : Prop :=
  ¬ (L.head ≠ some x ∧ L.prev x = none ∧ L.next x = none)

/-- Unlinking what is not there does nothing. -/
theorem unlink_of_not_found (h : ¬ L.Found x) : L.unlink x = (L, false) :=
  if_pos (not_not.mp h)

/-- A node that is not found leaves the list as it is. -/
theorem unlink_eq_of_false (h : (L.unlink x).2 = false) : (L.unlink x).1 = L := by
  by_cases hf : L.Found x
  · unfold unlink at h
    rw [if_neg hf] at h
    simp at h
  · rw [unlink_of_not_found hf]

/-- What is there is found. -/
theorem unlink_snd (h : L.Found x) : (L.unlink x).2 = true := by
  unfold unlink
  rw [if_neg h]

/-- The list is shorter by one. -/
theorem length_unlink (h : L.Found x) : (L.unlink x).1.length = L.length - 1 := by
  unfold unlink
  rw [if_neg h]
  cases hp : L.prev x <;> cases hn : L.next x <;> simp [hn, Function.update_apply]

variable (hp : L.prev x ≠ some x)

include hp

/-- The first half of `unlink` leaves the links of the node itself. -/
theorem head_unlink (h : L.Found x) :
    (L.unlink x).1.head = if L.prev x = none then L.next x else L.head := by
  unfold unlink
  rw [if_neg h]
  cases hprev : L.prev x with
  | none => cases hnext : L.next x <;> simp [hnext]
  | some p =>
    have hne : x ≠ p := fun hxp => hp (by rw [hprev, hxp])
    cases hnext : L.next x <;> simp [hnext, hne]

/-- The tail moves back when it is unlinked. -/
theorem tail_unlink (h : L.Found x) :
    (L.unlink x).1.tail = if L.next x = none then L.prev x else L.tail := by
  unfold unlink
  rw [if_neg h]
  cases hprev : L.prev x with
  | none => cases hnext : L.next x <;> simp [hnext, hprev]
  | some p =>
    have hne : x ≠ p := fun hxp => hp (by rw [hprev, hxp])
    cases hnext : L.next x <;> simp [hnext, hprev, hne]

/-- The next element takes the one before as its own. -/
theorem prev_unlink (h : L.Found x) (y : ι) :
    (L.unlink x).1.prev y =
      if y = x then none else if L.next x = some y then L.prev x else L.prev y := by
  unfold unlink
  rw [if_neg h]
  cases hprev : L.prev x with
  | none => cases hnext : L.next x <;> simp [hnext, hprev, Function.update_apply, eq_comm]
  | some p =>
    have hne : x ≠ p := fun hxp => hp (by rw [hprev, hxp])
    cases hnext : L.next x <;> simp [hnext, hprev, Function.update_apply, hne, eq_comm]

/-- The one before takes the next as its own. -/
theorem next_unlink (h : L.Found x) (y : ι) :
    (L.unlink x).1.next y =
      if y = x then none else if L.prev x = some y then L.next x else L.next y := by
  unfold unlink
  rw [if_neg h]
  cases hprev : L.prev x with
  | none => cases hnext : L.next x <;> simp [hnext, Function.update_apply]
  | some p =>
    have hne : x ≠ p := fun hxp => hp (by rw [hprev, hxp])
    cases hnext : L.next x <;> simp [hnext, Function.update_apply, hne, eq_comm]

end Links

/-! ## What they do to the nodes -/

omit [DecidableEq ι] in
/-- A node that is not the last of a list without duplicates is followed by another. -/
theorem getLast?_ne_of_cons {a b : List ι} {y z : ι} (hnd : (a ++ y :: z :: b).Nodup) :
    (a ++ y :: z :: b).getLast? ≠ some y := by
  intro hlast
  have hmem : y ∈ z :: b := by
    rw [List.getLast?_append_cons, List.getLast?_cons_cons] at hlast
    exact List.mem_of_getLast? hlast
  have hnodup := (List.nodup_append.mp hnd).2.1
  exact (List.nodup_cons.mp hnodup).1 hmem

/-- Appending a new node. -/
theorem Represents.enqueueTail (h : L.Represents q) (hx : x ∉ q) :
    (L.enqueueTail x).Represents (q ++ [x]) where
  head := by
    rw [head_enqueueTail, h.tail, h.head]
    cases q <;> simp
  tail := by simp
  linked := by
    intro a y b hq
    rw [prev_enqueueTail, next_enqueueTail, h.tail]
    rcases List.eq_nil_or_concat b with rfl | ⟨b, z, rfl⟩
    · obtain ⟨rfl, hyx⟩ := List.append_inj' hq rfl
      obtain rfl := (List.cons.inj hyx).1
      have hlast : q.getLast? ≠ some x := fun hl => hx (List.mem_of_getLast? hl)
      simp [hlast]
    · have hsplit : q ++ [x] = (a ++ y :: b) ++ [z] := by simpa using hq
      obtain ⟨rfl, hxz⟩ := List.append_inj' hsplit rfl
      obtain rfl := (List.cons.inj hxz).1
      have hyx : y ≠ x := fun hyx => hx (by simp [hyx])
      obtain ⟨hprev, hnext⟩ := h.linked a y b rfl
      refine ⟨by rw [if_neg hyx, hprev], ?_⟩
      cases b with
      | nil => simp
      | cons c b => rw [if_neg (getLast?_ne_of_cons h.nodup), if_neg hyx, hnext]; rfl
  outside := by
    intro y hy
    have hyq : y ∉ q := fun hyq => hy (List.mem_append_left _ hyq)
    have hyx : y ≠ x := fun hyx => hy (by simp [hyx])
    have hlast : q.getLast? ≠ some y := fun hl => hyq (List.mem_of_getLast? hl)
    obtain ⟨hprev, hnext⟩ := h.outside y hyq
    rw [prev_enqueueTail, next_enqueueTail, h.tail, if_neg hyx, if_neg hlast, if_neg hyx]
    exact ⟨hprev, hnext⟩
  length := by
    rw [length_enqueueTail, h.length]
    simp
  nodup := by
    rw [List.nodup_append]
    refine ⟨h.nodup, by simp, fun a ha b hb hab => hx ?_⟩
    rw [← List.mem_singleton.mp hb, ← hab]
    exact ha

/-- A node is found when it is in the list. -/
theorem Represents.found_iff (h : L.Represents q) : L.Found x ↔ x ∈ q := by
  constructor
  · intro hf
    by_contra hx
    refine hf ⟨?_, h.outside x hx⟩
    rw [h.head]
    exact fun hhead => hx (List.mem_of_head? hhead)
  · intro hx
    obtain ⟨a, b, rfl⟩ := List.append_of_mem hx
    rintro ⟨hhead, hprev, -⟩
    rw [(h.linked a x b rfl).1, List.getLast?_eq_none_iff] at hprev
    subst hprev
    exact hhead h.head

/-- Unlinking a node of the list. -/
theorem Represents.unlink_split {a b : List ι} (h : L.Represents (a ++ x :: b)) :
    (L.unlink x).1.Represents (a ++ b) := by
  have hfound : L.Found x := h.found_iff.mpr (by simp)
  obtain ⟨hprev, hnext⟩ := h.linked a x b rfl
  obtain ⟨hna, hnxb, hdisj⟩ := List.nodup_append.mp h.nodup
  obtain ⟨hxb, hnb⟩ := List.nodup_cons.mp hnxb
  have hxa : x ∉ a := fun hx => hdisj x hx x List.mem_cons_self rfl
  have hself : L.prev x ≠ some x := by
    rw [hprev]
    exact fun hl => hxa (List.mem_of_getLast? hl)
  have hdisjoint : ∀ y ∈ a, y ∉ b := fun y ha hb => hdisj y ha y (List.mem_cons_of_mem x hb) rfl
  refine ⟨?_, ?_, ?_, ?_, ?_, ?_⟩
  · rw [head_unlink hself hfound, hprev, hnext, h.head]
    cases a <;> simp
  · rw [tail_unlink hself hfound, hprev, hnext, h.tail]
    rcases List.eq_nil_or_concat b with rfl | ⟨b, z, rfl⟩
    · simp
    · rw [if_neg (by simp), List.concat_eq_append, ← List.cons_append, ← List.append_assoc, ← List.append_assoc,
        List.getLast?_concat, List.getLast?_concat]
  · intro c y d hq
    have hyx : y ≠ x := by
      rintro rfl
      have hmem : y ∈ a ++ b := by simp [hq]
      rcases List.mem_append.mp hmem with hy | hy
      · exact hxa hy
      · exact hxb hy
    rw [prev_unlink hself hfound, next_unlink hself hfound, if_neg hyx, if_neg hyx, hprev, hnext]
    rcases List.append_eq_append_iff.mp hq with ⟨c', rfl, hb⟩ | ⟨d', rfl, hd⟩
    · -- the node comes after the one that goes
      have hya : a.getLast? ≠ some y := fun hl =>
        hdisjoint y (List.mem_of_getLast? hl) (by simp [hb])
      obtain ⟨hp, hn⟩ := h.linked (a ++ x :: c') y d (by simp [hb])
      rw [if_neg hya, hn]
      refine ⟨?_, rfl⟩
      cases c' with
      | nil => simp [hb]
      | cons z c' =>
        have hyz : b.head? ≠ some y := by
          rw [hb, List.cons_append, List.head?_cons]
          rintro ⟨⟩
          rw [hb] at hnb
          simp at hnb
        rw [if_neg hyz, hp]
        simp
    · cases d' with
      | nil =>
        -- the node is the first after the one that goes
        obtain rfl : b = y :: d := by simpa using hd.symm
        have hya : (c ++ []).getLast? ≠ some y := fun hl =>
          hdisjoint y (by simpa using List.mem_of_getLast? hl) List.mem_cons_self
        obtain ⟨-, hn⟩ := h.linked ((c ++ []) ++ [x]) y d (by simp)
        rw [if_neg hya, hn]
        simp
      | cons z d' =>
        -- the node comes before
        obtain ⟨rfl, rfl⟩ := List.cons.inj hd
        have hyb : b.head? ≠ some y := fun hh =>
          hdisjoint y (by simp) (List.mem_of_head? hh)
        obtain ⟨hp, hn⟩ := h.linked c y (d' ++ x :: b) (by simp)
        refine ⟨by rw [if_neg hyb, hp], ?_⟩
        cases d' with
        | nil => simp
        | cons w d' => rw [if_neg (getLast?_ne_of_cons hna), hn]; rfl
  · intro y hy
    have hya : a.getLast? ≠ some y := fun hl => hy (by simp [List.mem_of_getLast? hl])
    have hyb : b.head? ≠ some y := fun hh => hy (by simp [List.mem_of_head? hh])
    rw [prev_unlink hself hfound, next_unlink hself hfound, hprev, hnext, if_neg hya, if_neg hyb]
    by_cases hyx : y = x
    · rw [if_pos hyx, if_pos hyx]
      exact ⟨rfl, rfl⟩
    · rw [if_neg hyx, if_neg hyx]
      exact h.outside y (by simpa [hyx] using hy)
  · rw [length_unlink hfound, h.length]
    simp
    omega
  · exact List.nodup_append.mpr ⟨hna, hnb, fun u hu v hv huv => hdisjoint u hu (huv ▸ hv)⟩

/-- Unlinking erases the node and reports whether it was there. -/
theorem Represents.unlink (h : L.Represents q) (x : ι) :
    (L.unlink x).1.Represents (q.erase x) ∧ (L.unlink x).2 = decide (x ∈ q) := by
  by_cases hx : x ∈ q
  · obtain ⟨a, b, rfl⟩ := List.append_of_mem hx
    have hxa : x ∉ a := fun hxa =>
      (List.nodup_append.mp h.nodup).2.2 x hxa x List.mem_cons_self rfl
    rw [List.erase_append_right _ hxa, List.erase_cons_head, decide_eq_true hx]
    exact ⟨h.unlink_split, unlink_snd (h.found_iff.mpr hx)⟩
  · rw [unlink_of_not_found (fun hf => hx (h.found_iff.mp hf)), List.erase_of_not_mem hx,
      decide_eq_false hx]
    exact ⟨h, rfl⟩

/-- Clearing leaves no node, and no links. -/
theorem Represents.clear (h : L.Represents q) : L.clear.Represents [] where
  head := rfl
  tail := rfl
  linked := by simp
  outside y _ := by
    simp only [LinkedList.clear, h.nodes_eq]
    by_cases hy : y ∈ q
    · simp [hy]
    · simp [hy, h.outside y hy]
  length := rfl
  nodup := List.nodup_nil

end LinkedList

end RatelimitFlex.Library
