import RatelimitFlex.Analysis.CellDecisions
import RatelimitFlex.Program.QueuedMemory

/-!
# When a peek makes no difference

`getTokensRemaining` takes one unit and gives it back.  A peek is unnoticed exactly when it
restores the cell of its key (`Cell.RestoresPeek`) and, with `maxKeys` on, uses of keys keep
and lose the same cells as without it (`MemoryStore.KeepsOrder`).
-/

set_option autoImplicit false

namespace RatelimitFlex

open Library RecencyOrder

variable {κ : Type} [DecidableEq κ]

/-! ## Stores that decide alike keep the same keys -/

/-- Two stores with the same options and `maxKeys` on, both with legal cells. -/
structure Comparable (now : ℤ) (s s' : MemoryStore κ) : Prop where
  bounded : 1 ≤ s.maxKeys
  fits : s.SlidingFits
  fits' : s'.SlidingFits
  legal : ∀ k, (s.cell k).Legal now
  legal' : ∀ k, (s'.cell k).Legal now
  blank : s'.blank = s.blank
  maxKeys : s'.maxKeys = s.maxKeys

section Comparable

variable {s s' : MemoryStore κ} {now : ℤ} {ks : List κ} {k : κ}

/-- The two stores may be exchanged. -/
theorem Comparable.symm (c : Comparable now s s') : Comparable now s' s :=
  ⟨c.maxKeys.symm ▸ c.bounded, c.fits', c.fits, c.legal', c.legal, c.blank.symm, c.maxKeys.symm⟩

/-- So may their decisions. -/
theorem DecidedAlike.symm (h : DecidedAlike now s s') : DecidedAlike now s' s :=
  fun is hord => (h is hord).symm

/-- A key that is used and stays in the first stays in the second. -/
theorem DecidedAlike.used (h : DecidedAlike now s s') (c : Comparable now s s') (hk : k ∈ ks)
    (hmem : k ∈ touchAll s.maxKeys ks s.keys) : k ∈ touchAll s.maxKeys ks s'.keys := by
  by_contra hgone
  have hkeys : (final incrementStep (uses now ks) s').keys = touchAll s'.maxKeys ks s'.keys :=
    keys_uses (c.maxKeys.symm ▸ c.bounded) c.fits' ks
  rw [c.maxKeys] at hkeys
  rw [← hkeys] at hgone
  obtain ⟨x, hx, hcell⟩ := cell_uses_of_mem c.bounded c.fits c.legal hk hmem
  have hcells := h.cells ks k
  have hcleared : (final incrementStep (uses now ks) s').cell k =
      ((x.clearWall now).increment now {}).1.cleared := by
    rw [MemoryStore.cell_of_notMem hgone, blank_uses, c.blank, ← blank_uses now ks s,
      ← MemoryStore.cleared_cell _ k, hcell]
  rw [hcell, hcleared] at hcells
  exact Cell.not_isVoid_increment hx (hcells.isVoid ((hx.clearWall now).increment {}))

/-- So does one that is not used, when its cell is not void. -/
theorem DecidedAlike.unused (h : DecidedAlike now s s') (c : Comparable now s s') (hk : k ∉ ks)
    (hmem : k ∈ touchAll s.maxKeys ks s.keys) (hgone : k ∉ touchAll s.maxKeys ks s'.keys) :
    (s.cell k).IsVoid now := by
  have hcells := h.cells ks k
  have hcell' := cell_uses_of_notMem (c.maxKeys.symm ▸ c.bounded) c.fits' now hk
  rw [c.maxKeys, if_neg hgone, c.blank] at hcell'
  rw [cell_uses_of_notMem c.bounded c.fits now hk, if_pos hmem, hcell',
    ← MemoryStore.cleared_cell s k] at hcells
  exact hcells.isVoid (c.legal k)

/-- **Uses keep the same keys in stores that decide alike, apart from void ones.** -/
theorem DecidedAlike.keepsSame (h : DecidedAlike now s s') (c : Comparable now s s') :
    KeepsSame s.maxKeys (fun k => (s.cell k).IsVoid now) s.keys s'.keys where
  used ks k hk := by
    have hback := h.symm.used c.symm hk
    rw [c.maxKeys] at hback
    exact ⟨h.used c hk, hback⟩
  unused ks k hk := by
    by_cases hmem : k ∈ touchAll s.maxKeys ks s.keys
    · by_cases hmem' : k ∈ touchAll s.maxKeys ks s'.keys
      · exact Or.inr (iff_of_true hmem hmem')
      · exact Or.inl (h.unused c hk hmem hmem')
    · by_cases hmem' : k ∈ touchAll s.maxKeys ks s'.keys
      · have hvoid := h.symm.unused c.symm hk (c.maxKeys.symm ▸ hmem') (c.maxKeys.symm ▸ hmem)
        have hcells := h.cells [] k
        refine Or.inl (Cell.DecidedAlike.isVoid (c.legal k) ?_)
        have hcleared : (s.cell k).cleared = (s'.cell k).cleared := by
          rw [MemoryStore.cleared_cell, MemoryStore.cleared_cell, c.blank]
        rw [hcleared]
        exact Cell.DecidedAlike.trans hcells (hvoid.sameIncrements (c.legal' k)).decidedAlike
      · exact Or.inr (iff_of_false hmem hmem')

end Comparable

/-! ## The store a peek leaves -/

namespace MemoryStore

/-- An increment, taken back. -/
def probed (now : ℤ) (key : κ) (inc : RateLimitIncrementOptions)
    (dec : RateLimitDecrementOptions) (s : MemoryStore κ) : MemoryStore κ :=
  (s.increment now key inc).1.decrement key dec

variable {s : MemoryStore κ} {now : ℤ} {key k : κ} {inc : RateLimitIncrementOptions}
  {dec : RateLimitDecrementOptions}

/-- A peek is one of its cell. -/
theorem cell_probed_own :
    (s.probed now key inc dec).cell key = (s.cell key).probed now inc dec := by
  rw [probed, cell_decrement_own, cell_increment_own]
  rfl

/-- Without a bound it changes no other cell. -/
theorem cell_probed_unbounded (hm : s.maxKeys = 0) (hk : k ≠ key) :
    (s.probed now key inc dec).cell k = s.cell k := by
  rw [probed, cell_decrement, if_neg hk, cell_increment_unbounded hm now key inc hk]

/-- It keeps what an empty cell is. -/
theorem blank_probed : (s.probed now key inc dec).blank = s.blank :=
  (blank_step ⟨now, .decrement key dec⟩ _).trans (blank_step ⟨now, .increment key inc⟩ s)

/-- It keeps the bound. -/
theorem maxKeys_probed : (s.probed now key inc dec).maxKeys = s.maxKeys :=
  (maxKeys_step ⟨now, .decrement key dec⟩ _).trans (maxKeys_step ⟨now, .increment key inc⟩ s)

/-- It keeps the store within its bound. -/
theorem SlidingFits.probed (h : s.SlidingFits) : (s.probed now key inc dec).SlidingFits :=
  (h.step ⟨now, .increment key inc⟩).step ⟨now, .decrement key dec⟩

/-- It keeps the cells legal. -/
theorem legal_probed (h : ∀ k, (s.cell k).Legal now) (k : κ) :
    ((s.probed now key inc dec).cell k).Legal now :=
  legal_step ⟨now, .decrement key dec⟩ le_rfl
    (legal_step ⟨now, .increment key inc⟩ le_rfl h) k

section Bounded

variable (hm : 1 ≤ s.maxKeys) (hfits : s.SlidingFits)
include hm hfits

/-- Another cell stays, or its key is evicted by the use. -/
theorem cell_probed_other (hk : k ≠ key) :
    (s.probed now key inc dec).cell k =
      if k ∈ touch s.maxKeys key s.keys then s.cell k else s.blank := by
  rw [probed, cell_decrement, if_neg hk, cell_increment_other hm hfits now inc hk]

variable (hinc : inc.sanitizedCost = 1) (hdec : dec.sanitizedCost = 1)
  (hplain : dec.removeNewest = false) (hlegal : (s.cell key).Legal now)
include hinc hdec hplain hlegal

/-- A peek that leaves nothing takes its key out of the order. -/
theorem keys_probed_deleted (h : (s.cell key).PeekDeletes now) :
    (s.probed now key inc dec).keys = (touch s.maxKeys key s.keys).erase key := by
  have hgone := (Cell.isPresent_peeked hinc hdec hplain hlegal).mpr h
  rw [probed, keys_decrement, cell_increment_own, keys_increment hm hfits]
  exact if_neg (by rw [← Cell.probed, hgone]; exact Bool.false_ne_true)

/-- Any other peek is a use of its key. -/
theorem keys_probed_kept (h : ¬ (s.cell key).PeekDeletes now) :
    (s.probed now key inc dec).keys = touch s.maxKeys key s.keys := by
  have hstays := (not_congr (Cell.isPresent_peeked hinc hdec hplain hlegal)).mpr h
  rw [probed, keys_decrement, cell_increment_own, keys_increment hm hfits]
  exact if_pos (by rw [← Cell.probed]; exact Bool.eq_true_of_not_eq_false hstays)

end Bounded

/-- With a peek, uses of keys keep and lose the same cells as without it, apart from void
ones. -/
inductive KeepsOrder (now : ℤ) (key : κ) (s : MemoryStore κ) : Prop
  /-- There is no `maxKeys`. -/
  | unbounded (h : s.maxKeys = 0)
  /-- The key stays the most recently used one. -/
  | newest (hkey : key ∈ s.keys) (hkeep : ¬ (s.cell key).PeekDeletes now)
      (h : later key s.keys = [])
  /-- The next new key drives out all others. -/
  | single (hkey : key ∈ s.keys) (hkeep : ¬ (s.cell key).PeekDeletes now) (h : s.maxKeys = 1)
  /-- The key moves to the end; its cell is void, and so are those it may drive out. -/
  | moves (hkey : key ∈ s.keys) (hkeep : ¬ (s.cell key).PeekDeletes now)
      (hself : (s.cell key).IsVoid now)
      (hlater : ∀ k ∈ later key s.keys, (later k s.keys).length + 1 < s.maxKeys →
        (s.cell k).IsVoid now)
  /-- The key goes; the cells used before it are void. -/
  | goes (hkey : key ∈ s.keys) (hdel : (s.cell key).PeekDeletes now)
      (hlen : s.keys.length ≤ s.maxKeys)
      (hearlier : ∀ k ∈ s.keys, key ∈ later k s.keys → (s.cell k).IsVoid now)
  /-- The key comes and goes, and there was room for it. -/
  | passes (hkey : key ∉ s.keys) (hdel : (s.cell key).PeekDeletes now)
      (hlen : s.keys.length < s.maxKeys)
  /-- The key comes and goes, and drove out a void cell. -/
  | drivesOut (hkey : key ∉ s.keys) (hdel : (s.cell key).PeekDeletes now)
      (hlen : s.keys.length = s.maxKeys) (hhead : ∀ k ∈ s.keys.head?, (s.cell k).IsVoid now)
  /-- The key comes and stays, and all others are void. -/
  | comes (hkey : key ∉ s.keys) (hlen : s.keys.length ≤ s.maxKeys)
      (hvoid : ∀ k ∈ s.keys, (s.cell k).IsVoid now)

section Peeked

variable (hinc : inc.sanitizedCost = 1) (hdec : dec.sanitizedCost = 1)
  (hplain : dec.removeNewest = false) (hlegal : ∀ k, (s.cell k).Legal now) (hfits : s.SlidingFits)
include hinc hdec hplain hlegal hfits

/-- What the order says of the lists of keys, and of the cells that are driven out. -/
theorem KeepsOrder.alike (hm : 1 ≤ s.maxKeys) (hself : (s.cell key).RestoresPeek now)
    (h : s.KeepsOrder now key) :
    Alike s.maxKeys (fun k => Cell.SameIncrements now (s.cell k) s.blank) s.keys
        (s.probed now key inc dec).keys ∧
      ∀ k ∈ s.keys, k ∉ touch s.maxKeys key s.keys →
        Cell.SameIncrements now (s.cell k) s.blank := by
  have hdead : ∀ k, (s.cell k).IsVoid now → Cell.SameIncrements now (s.cell k) s.blank := by
    intro k hvoid
    rw [← cleared_cell s k]
    exact hvoid.sameIncrements (hlegal k)
  have hsame := Cell.RestoresPeek.sameIncrements hinc hdec hplain (hlegal key) hself
  have hnd := s.nodup_keys
  have hdeleted := keys_probed_deleted hm hfits hinc hdec hplain (hlegal key)
  have hkept := keys_probed_kept hm hfits hinc hdec hplain (hlegal key)
  -- nothing is driven out by the use of a key that is there
  have hnone : key ∈ s.keys → ∀ k ∈ s.keys, k ∉ touch s.maxKeys key s.keys →
      Cell.SameIncrements now (s.cell k) s.blank := by
    intro hkey k hk hgone
    have hne : k ≠ key := fun hkk => hgone (hkk ▸ mem_touch_self)
    exact absurd ((mem_touch_of_mem hkey hne).mpr hk) hgone
  cases h with
  | unbounded hzero => omega
  | newest hkey hkeep hlast =>
    rw [hkept hkeep]
    exact ⟨alike_touch hnd hkey (Or.inl hlast), hnone hkey⟩
  | single hkey hkeep hone =>
    rw [hkept hkeep]
    exact ⟨alike_touch hnd hkey (Or.inr (Or.inl hone)), hnone hkey⟩
  | moves hkey hkeep hvoid hlater =>
    rw [hkept hkeep]
    exact ⟨alike_touch hnd hkey (Or.inr (Or.inr ⟨hdead key hvoid, fun k hk hlt =>
      hdead k (hlater k hk hlt)⟩)), hnone hkey⟩
  | goes hkey hdel hlen hearlier =>
    have hgone : key ∉ (s.probed now key inc dec).keys := by
      rw [hdeleted hdel]
      exact (nodup_touch hnd).not_mem_erase
    have hself : Cell.SameIncrements now (s.cell key) s.blank := by
      rw [← cell_probed_own, cell_of_notMem hgone, blank_probed] at hsame
      exact hsame.symm
    rw [hdeleted hdel, erase_touch_of_mem hnd hkey]
    exact ⟨alike_erase hnd hlen hself fun k hk hlater => hdead k (hearlier k hk hlater),
      hnone hkey⟩
  | passes hkey hdel hlen =>
    have hroom : s.keys.length + 1 - s.maxKeys = 0 := by omega
    rw [hdeleted hdel, erase_touch_of_notMem hkey, hroom, List.drop_zero]
    refine ⟨Alike.refl _ _ _, fun k hk hgone => ?_⟩
    have hlt := length_later_lt hk
    exact absurd ((mem_touch_new hnd hkey hk).mpr (by omega)) hgone
  | drivesOut hkey hdel hlen hhead =>
    have hfirst : s.keys.length + 1 - s.maxKeys = 1 := by omega
    have hlost : ∀ k ∈ s.keys, k ∉ s.keys.drop 1 → Cell.SameIncrements now (s.cell k) s.blank := by
      intro k hk hgone
      cases hkeys : s.keys with
      | nil =>
        rw [hkeys] at hk
        exact absurd hk List.not_mem_nil
      | cons a l =>
        rw [hkeys] at hk hgone hhead
        obtain rfl : k = a := (List.mem_cons.mp hk).resolve_right hgone
        exact hdead k (hhead k rfl)
    rw [hdeleted hdel, erase_touch_of_notMem hkey]
    refine ⟨alike_drop hnd hlen.le (hfirst.symm ▸ hlost), fun k hk hgone => hlost k hk ?_⟩
    intro hmem
    rw [touch_of_notMem hkey, hfirst] at hgone
    exact hgone (List.mem_append_left _ hmem)
  | comes hkey hlen hvoid =>
    refine ⟨?_, fun k hk _ => hdead k (hvoid k hk)⟩
    by_cases hdel : (s.cell key).PeekDeletes now
    · rw [hdeleted hdel, erase_touch_of_notMem hkey]
      exact alike_drop hnd hlen fun k hk _ => hdead k (hvoid k hk)
    · rw [hkept hdel]
      refine alike_new hm hlen ?_ fun k hk => hdead k (hvoid k hk)
      rw [cell_of_notMem hkey]
      exact Cell.SameIncrements.refl now _

/-- A peek that restores its cell and keeps the order is not noticed. -/
theorem KeepsOrder.decidedAlike (hself : (s.cell key).RestoresPeek now)
    (h : s.KeepsOrder now key) : DecidedAlike now (s.probed now key inc dec) s := by
  have hsame := Cell.RestoresPeek.sameIncrements hinc hdec hplain (hlegal key) hself
  rw [← cell_probed_own] at hsame
  refine DecidedAlike.symm (StoresDecideAlike.decidedAlike
    { blank := blank_probed
      maxKeys := maxKeys_probed
      fits := hfits
      fits' := hfits.probed
      cells := fun k => ?_
      order := ?_ })
  · by_cases hk : k = key
    · exact hk ▸ hsame.symm
    rcases Nat.eq_zero_or_pos s.maxKeys with hzero | hm
    · rw [cell_probed_unbounded hzero hk]
      exact Cell.SameIncrements.refl now _
    · rw [cell_probed_other hm hfits hk]
      split
      · exact Cell.SameIncrements.refl now _
      · next hgone =>
        by_cases hmem : k ∈ s.keys
        · exact (h.alike hinc hdec hplain hlegal hfits hm hself).2 k hmem hgone
        · rw [cell_of_notMem hmem]
          exact Cell.SameIncrements.refl now _
  · rcases Nat.eq_zero_or_pos s.maxKeys with hzero | hm
    · exact Or.inl hzero
    · exact Or.inr (h.alike hinc hdec hplain hlegal hfits hm hself).1

/-- A peek that is not noticed keeps the order. -/
theorem keepsOrder_of_decidedAlike [Infinite κ]
    (h : DecidedAlike now (s.probed now key inc dec) s) : s.KeepsOrder now key := by
  rcases Nat.eq_zero_or_pos s.maxKeys with hzero | hm
  · exact .unbounded hzero
  have hnd := s.nodup_keys
  have hkeeps := h.symm.keepsSame ⟨hm, hfits, hfits.probed, hlegal, legal_probed hlegal,
    blank_probed, maxKeys_probed⟩
  by_cases hdel : (s.cell key).PeekDeletes now
  · rw [keys_probed_deleted hm hfits hinc hdec hplain (hlegal key) hdel] at hkeeps
    by_cases hkey : key ∈ s.keys
    · rw [erase_touch_of_mem hnd hkey] at hkeeps
      obtain ⟨hlen, hearlier⟩ := hkeeps.of_erase hnd hm hkey
      exact .goes hkey hdel hlen hearlier
    · rw [erase_touch_of_notMem hkey] at hkeeps
      rcases hkeeps.of_drop hnd hm with hlen | ⟨hlen, hhead⟩
      · exact .passes hkey hdel hlen
      · exact .drivesOut hkey hdel hlen hhead
  · rw [keys_probed_kept hm hfits hinc hdec hplain (hlegal key) hdel] at hkeeps
    by_cases hkey : key ∈ s.keys
    · rcases hkeeps.of_touch hnd hm hkey with hlast | hone | ⟨hself, hlater⟩
      · exact .newest hkey hdel hlast
      · exact .single hkey hdel hone
      · exact .moves hkey hdel hself hlater
    · obtain ⟨hlen, hvoid⟩ := hkeeps.of_new hnd hm hkey
      exact .comes hkey hlen hvoid

end Peeked

end MemoryStore

/-! ## The peek of a queue -/

/-- **When a peek makes no difference.**  After `getTokensRemaining` on a reachable store all
later increments, of any keys, costs and caps, are decided as without it if and only if the
queue was shut down, or the peek restores the cell of its key and uses of keys keep the same
cells.  The later steps are increments; the timer by which the store purges itself is not among
them.
SOURCE: src/queue/RateLimiterQueue.ts:292-314, src/stores/memory-store.ts:795-969 -/
theorem getTokensRemaining_neutral_iff [Infinite κ] (o : QueueOptions) (now : ℤ) (key : κ)
    (q : QueuedMemory κ) (hreach : ReachableByOperations now q.store)
    (hfits : (q.store.cell key).FitsArray) :
    DecidedAlike now (q.getTokensRemaining o now key).2.store q.store ↔
      q.queue.isShutdown = true ∨
        (q.store.cell key).RestoresPeek now ∧ q.store.KeepsOrder now key := by
  obtain ⟨hlegal, hsliding⟩ := hreach.legal
  unfold QueuedMemory.getTokensRemaining
  by_cases hdown : q.queue.isShutdown = true
  · rw [if_pos hdown]
    exact iff_of_true (fun is _ => rfl) (Or.inl hdown)
  · rw [if_neg hdown, or_iff_right hdown]
    have hinc : ({ maxRequests := some o.maxRequests, cost := some 1 } :
      RateLimitIncrementOptions).sanitizedCost = 1 := by
      show ({ cost := some 1 } : RateLimitIncrementOptions).sanitizedCost = 1
      decide
    have hdec : ({ cost := some 1 } : RateLimitDecrementOptions).sanitizedCost = 1 := by decide
    show DecidedAlike now (q.store.probed now key _ _) q.store ↔ _
    constructor
    · intro h
      refine ⟨?_, MemoryStore.keepsOrder_of_decidedAlike hinc hdec rfl hlegal hsliding h⟩
      have hcells := h.cells [] key
      refine Cell.DecidedAlike.restoresPeek hinc hdec rfl (hlegal key) hfits ?_
      rw [← MemoryStore.cell_probed_own]
      exact hcells
    · rintro ⟨hself, horder⟩
      exact horder.decidedAlike hinc hdec rfl hlegal hsliding hself

/-- A queue over a store after these operations. -/
def queueAfter (s₀ : MemoryStore ℕ) (is : List (Timed (StoreOp ℕ))) : QueuedMemory ℕ where
  queue := {}
  store := final MemoryStore.step is s₀
  answers _ := none

/-- A peek at the key used last, in a full table of buckets. -/
theorem getTokensRemaining_neutral_bucket :
    DecidedAlike 900
      ((queueAfter (.bucket fiveAtMost (KeyTable.new 2))
        [⟨0, .increment 7 {}⟩, ⟨500, .increment 8 {}⟩]).getTokensRemaining
          { maxRequests := 5 } 900 8).2.store
      (queueAfter (.bucket fiveAtMost (KeyTable.new 2))
        [⟨0, .increment 7 {}⟩, ⟨500, .increment 8 {}⟩]).store :=
  (getTokensRemaining_neutral_iff { maxRequests := 5 } 900 8
    (queueAfter (.bucket fiveAtMost (KeyTable.new 2))
      [⟨0, .increment 7 {}⟩, ⟨500, .increment 8 {}⟩])
    ⟨.bucket fiveAtMost (KeyTable.new 2), 0, _, ⟨2, rfl⟩, by decide, by decide, rfl⟩
    trivial).mpr (Or.inr ⟨show (1 : ℤ) ≤ _ by decide +kernel,
      .newest (by decide +kernel) id (by decide +kernel)⟩)

/-- On a sliding window with hits at `0` and `500` a peek at `900` takes away the older hit
and leaves its own: a request at `1100`, the second in its window, is then refused. -/
theorem getTokensRemaining_leaves_trace :
    ¬ ∀ (o : QueueOptions) (now : ℤ) (key : ℕ) (q : QueuedMemory ℕ),
      ReachableByOperations now q.store →
      DecidedAlike now (q.getTokensRemaining o now key).2.store q.store := by
  intro h
  have := h { maxRequests := 2 } 900 7
    (queueAfter (.sliding twoASecond (KeyTable.new 0))
      [⟨0, .increment 7 {}⟩, ⟨500, .increment 7 {}⟩])
    ⟨.sliding twoASecond (KeyTable.new 0), 0, _, ⟨0, rfl⟩, by decide, by decide, rfl⟩
    [⟨1100, (7, {})⟩] (by decide)
  revert this
  decide +kernel

end RatelimitFlex
