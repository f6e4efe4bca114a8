import RatelimitFlex.Analysis.LaterDecisions
import RatelimitFlex.Analysis.SetThenGet

/-!
# Two stores that differ in the places of their keys

Stores with the same cells may hold their keys in different orders.  Where there is room for one
key at most, no operation shows the order (`SameCells.outputs`); elsewhere new keys drive out one
key first or another, and a `delete` tells whether a key is still there (`keepsSame_of_outputs`).
-/

set_option autoImplicit false

namespace RatelimitFlex

open Library RecencyOrder

variable {κ : Type} [DecidableEq κ]

/-! ## A key that is written where it is -/

namespace KeyTable

variable {ε : Type} {key : κ} {e : ε} {t : KeyTable κ ε}

/-- An entry that is written as it is. -/
theorem put_self (h : t.state.lookup key = some e) : t.put key e = t := by
  have hmem : key ∈ t.state := AList.lookup_isSome.mp (by rw [h]; rfl)
  have hstate : t.state.set key e = t.state := by
    unfold InsertionMap.set
    rw [dif_pos hmem]
    exact AList.ext (List.kreplace_self t.state.nodupKeys (List.of_mem_dlookup h))
  unfold put
  rw [hstate]

/-- The last entry, taken away and written again. -/
theorem put_drop_newest (h : t.state.lookup key = some e) (hlast : later key t.state.keys = []) :
    (t.drop key).put key e = t := by
  have hmem : key ∈ t.state := AList.lookup_isSome.mp (by rw [h]; rfl)
  obtain ⟨a, hkeys, hnot⟩ := exists_split (AList.mem_keys.mp hmem)
  rw [hlast] at hkeys
  obtain ⟨l₁, l₂, hentries, rfl, htail⟩ := List.map_eq_append_iff.mp hkeys
  obtain ⟨⟨key', e'⟩, rfl, heq⟩ := List.map_eq_singleton_iff.mp htail
  obtain rfl : key' = key := heq
  have hmem' : Sigma.mk key' e ∈ t.state.entries := List.of_mem_dlookup h
  rw [hentries] at hmem'
  have he : (⟨key', e⟩ : Sigma fun _ : κ => ε) = ⟨key', e'⟩ := by
    rcases List.mem_append.mp hmem' with hin | hin
    · exact absurd (List.mem_map_of_mem hin) hnot
    · exact List.mem_singleton.mp hin
  obtain rfl : e = e' := eq_of_heq (Sigma.mk.inj he).2
  have hstate : InsertionMap.set (t.state.erase key') key' e = t.state := by
    unfold InsertionMap.set
    rw [dif_neg (show key' ∉ t.state.erase key' from notMem_drop key' t)]
    refine AList.ext ?_
    show List.kerase key' t.state.entries ++ [⟨key', e⟩] = t.state.entries
    rw [hentries, List.kerase_append_right hnot]
    simp
  unfold drop put
  rw [hstate]

/-- An entry is written as it is, and its key was the last one used or places do not matter. -/
theorem put_dropForLru_self (h : t.state.lookup key = some e)
    (hplace : t.maxKeys = 0 ∨ later key t.state.keys = []) :
    (t.dropForLru key).put key e = t := by
  unfold dropForLru
  split
  · next hpos => exact put_drop_newest h (hplace.resolve_left (by omega))
  · exact put_self h

end KeyTable

/-! ## One operation, evictions included -/

namespace MemoryStore

variable {s s' : MemoryStore κ} {key k : κ} {now : ℤ} {i : Timed (StoreOp κ)}

/-- A `set` keeps the cell of another key, or evicts the key. -/
theorem cell_set_of_ne (now : ℤ) (totalHits : ℤ) (expiresAt : Option ℤ) (hk : k ≠ key) :
    (s.set now key totalHits expiresAt).1.cell k = s.cell k ∨
      (s.set now key totalHits expiresAt).1.cell k = s.blank := by
  cases s with
  | sliding o t =>
    simp only [set, setSliding, cell, blank, KeyTable.lookup_put_dropForLru, if_neg hk]
    exact (KeyTable.lookup_ensureRoomForNewKey _ key k t).imp (congrArg _) (congrArg _)
  | fixed o t =>
    simp only [set, setFixed, cell, blank, KeyTable.lookup_put_dropForLru, if_neg hk]
    exact (KeyTable.lookup_ensureRoomForNewKey _ key k t).imp (congrArg _) (congrArg _)
  | bucket o t =>
    simp only [set, setTokenBucket, cell, blank, KeyTable.lookup_put_dropForLru, if_neg hk]
    exact (KeyTable.lookup_ensureRoomForNewKey _ key k t).imp (congrArg _) (congrArg _)

/-- The key that an operation writes has the operation's cell. -/
theorem cell_step_own (hkey : i.op.writes = some key) :
    (s.step i).1.cell key = ((s.cell key).step i).1 := by
  obtain ⟨now, op⟩ := i
  cases op with
  | increment k options =>
    obtain rfl := Option.some.inj hkey
    exact cell_increment_own s now k options
  | set k totalHits expiresAt =>
    obtain rfl := Option.some.inj hkey
    exact cell_set_self s now k totalHits expiresAt
  | _ => cases hkey

/-- What writes a key uses it. -/
theorem keys_step_of_writes (hm : 1 ≤ s.maxKeys) (hfits : s.SlidingFits)
    (hkey : i.op.writes = some key) : (s.step i).1.keys = touch s.maxKeys key s.keys := by
  obtain ⟨now, op⟩ := i
  cases op with
  | increment k options =>
    obtain rfl := Option.some.inj hkey
    exact keys_increment hm hfits now k options
  | set k totalHits expiresAt =>
    obtain rfl := Option.some.inj hkey
    exact keys_set hm now k totalHits expiresAt
  | _ => cases hkey

/-- Another key keeps its cell, unless the key that is written drives it out. -/
theorem cell_step_other (hm : 1 ≤ s.maxKeys) (hfits : s.SlidingFits)
    (hkey : i.op.writes = some key) (hk : k ≠ key) :
    (s.step i).1.cell k = if k ∈ touch s.maxKeys key s.keys then s.cell k else s.blank := by
  have hkept : (s.step i).1.cell k = s.cell k ∨ (s.step i).1.cell k = s.blank := by
    obtain ⟨now, op⟩ := i
    cases op with
    | increment k' options =>
      obtain rfl := Option.some.inj hkey
      exact cell_increment_kept now options hk
    | set k' totalHits expiresAt =>
      obtain rfl := Option.some.inj hkey
      exact cell_set_of_ne now totalHits expiresAt hk
    | _ => cases hkey
  have hkeys := keys_step_of_writes hm hfits hkey
  split
  · next hmem =>
    refine hkept.resolve_right fun hblank => ?_
    rw [← hkeys, mem_keys, hblank, isPresent_blank] at hmem
    exact Bool.noConfusion hmem
  · next hmem =>
    rw [← hkeys] at hmem
    rw [cell_of_notMem hmem, blank_step]

/-! ## Stores with the same cells -/

/-- The same cells, and the same room. -/
structure SameCells (s s' : MemoryStore κ) : Prop where
  blank : s'.blank = s.blank
  maxKeys : s'.maxKeys = s.maxKeys
  fits : s.SlidingFits
  fits' : s'.SlidingFits
  cells : ∀ k, s'.cell k = s.cell k

/-- They hold the same keys. -/
theorem SameCells.mem_keys (h : SameCells s s') (k : κ) : k ∈ s'.keys ↔ k ∈ s.keys := by
  rw [MemoryStore.mem_keys, MemoryStore.mem_keys, h.cells]

/-- With room for one key at most an operation leaves the same cells in both. -/
theorem SameCells.cell_step (h : SameCells s s') (hone : s.maxKeys ≤ 1) (i : Timed (StoreOp κ))
    (k : κ) : (s'.step i).1.cell k = (s.step i).1.cell k := by
  by_cases hfits : s.StepFits i ∧ s'.StepFits i
  · rw [MemoryStore.cell_step hfits.1, MemoryStore.cell_step hfits.2, h.cells]
  -- an operation that may evict writes a key
  cases hkey : i.op.writes with
  | none =>
    have hall : ∀ x : MemoryStore κ, x.StepFits i := by
      intro x key hmem
      rw [hkey] at hmem
      exact absurd hmem (by simp)
    exact absurd ⟨hall s, hall s'⟩ hfits
  | some key =>
    have hm : s.maxKeys = 1 := by
      refine le_antisymm hone (Nat.one_le_iff_ne_zero.mpr fun hzero => hfits ⟨?_, ?_⟩)
      · exact fun key _ => (s.fits_iff key).mpr (Or.inl hzero)
      · exact fun key _ => (s'.fits_iff key).mpr (Or.inl (h.maxKeys.trans hzero))
    by_cases hk : k = key
    · subst hk
      rw [cell_step_own hkey, cell_step_own hkey, h.cells]
    · rw [cell_step_other hm.ge h.fits hkey hk,
        cell_step_other (h.maxKeys.trans hm).ge h.fits' hkey hk, h.maxKeys, hm]
      simp only [mem_touch_one s.nodup_keys hk, mem_touch_one s'.nodup_keys hk, h.mem_keys,
        h.cells, h.blank]

/-- **The step lemma.**  The same answer, and the same cells. -/
theorem SameCells.step (h : SameCells s s') (hone : s.maxKeys ≤ 1) (i : Timed (StoreOp κ)) :
    (s'.step i).2 = (s.step i).2 ∧ SameCells (s.step i).1 (s'.step i).1 := by
  refine ⟨?_, ?_⟩
  · cases hk : i.op.key with
    | none =>
      obtain ⟨now, op⟩ := i
      cases op <;> first | rfl | simp [StoreOp.key] at hk
    | some k => rw [step_snd hk, step_snd hk, h.cells]
  · exact
      { blank := by rw [blank_step, blank_step, h.blank]
        maxKeys := by rw [maxKeys_step, maxKeys_step, h.maxKeys]
        fits := h.fits.step i
        fits' := h.fits'.step i
        cells := h.cell_step hone i }

/-- **With room for one key at most the places of the keys are not seen.** -/
theorem SameCells.outputs (h : SameCells s s') (hone : s.maxKeys ≤ 1)
    (is : List (Timed (StoreOp κ))) :
    Library.outputs MemoryStore.step is s' = Library.outputs MemoryStore.step is s := by
  induction is generalizing s s' with
  | nil => rfl
  | cons i is ih =>
    obtain ⟨hanswer, hnext⟩ := h.step hone i
    have hrest := ih hnext (by rwa [maxKeys_step])
    rw [outputs_cons, outputs_cons, hanswer, hrest]

/-! ## Telling the places apart -/

/-- Uses of keys, and a `delete` at the end. -/
def probe (now : ℤ) (ks : List κ) (k : κ) : List (Timed (StoreOp κ)) :=
  ks.map (fun j => ⟨now, .increment j {}⟩) ++ [⟨now, .delete k⟩]

omit [DecidableEq κ] in
/-- They are all made at the same time. -/
theorem orderedFrom_probe (now : ℤ) (ks : List κ) (k : κ) :
    OrderedFrom Timed.time now (probe now ks k) := by
  unfold probe
  induction ks with
  | nil => exact ⟨le_rfl, trivial⟩
  | cons j ks ih => exact ⟨le_rfl, ih⟩

/-- The last answer tells whether the key is still there. -/
theorem getLast?_outputs_probe (hm : 1 ≤ s.maxKeys) (hfits : s.SlidingFits) (now : ℤ)
    (ks : List κ) (k : κ) :
    (Library.outputs MemoryStore.step (probe now ks k) s).getLast? =
      some (.deleted (decide (k ∈ touchAll s.maxKeys ks s.keys))) := by
  have hfinal : final MemoryStore.step (ks.map fun j => ⟨now, .increment j {}⟩) s =
      final incrementStep (uses now ks) s := by
    induction ks generalizing s with
    | nil => rfl
    | cons j ks ih =>
      refine ih (s := (s.increment now j {}).1) ?_ (hfits.step ⟨now, .increment j {}⟩)
      rwa [maxKeys_increment]
  have hkeys : (final incrementStep (uses now ks) s).keys = touchAll s.maxKeys ks s.keys :=
    keys_uses hm hfits ks
  rw [probe, outputs_append, hfinal, outputs_cons, outputs_nil, List.getLast?_concat,
    step_snd (k := k) rfl, ← hkeys]
  simp only [Cell.step, MemoryStore.mem_keys, Bool.decide_eq_true]

/-- **Stores that answer alike keep the same keys, whatever keys are used.** -/
theorem keepsSame_of_outputs (hm : 1 ≤ s.maxKeys) (hfits : s.SlidingFits) (hfits' : s'.SlidingFits)
    (hmax : s'.maxKeys = s.maxKeys)
    (h : ∀ is, OrderedFrom Timed.time now is →
      Library.outputs MemoryStore.step is s' = Library.outputs MemoryStore.step is s) :
    KeepsSame s.maxKeys (fun _ => False) s.keys s'.keys := by
  have hsame : ∀ ks k, k ∈ touchAll s.maxKeys ks s.keys ↔ k ∈ touchAll s.maxKeys ks s'.keys := by
    intro ks k
    have hlast := getLast?_outputs_probe hm hfits now ks k
    have hlast' := getLast?_outputs_probe (hmax.symm ▸ hm) hfits' now ks k
    rw [h _ (orderedFrom_probe now ks k), hlast, hmax] at hlast'
    exact decide_eq_decide.mp (StoreReply.deleted.inj (Option.some.inj hlast'))
  exact ⟨fun ks k _ => hsame ks k, fun ks k _ => Or.inr (hsame ks k)⟩

end MemoryStore

end RatelimitFlex
