import RatelimitFlex.Analysis.BlockLifecycle
import RatelimitFlex.Program.SharedBlocks

/-!
# Blocks under concurrent syncs

A sync reads the store and writes what it read over the local blocks later, and an unblock takes
its local block away after the store has answered.  What a manager blocked or unblocked in between
is written over.  Two invariants carry the runs in which that does not happen: a key stands as
blocked at a manager and in the store, and an unblock has lifted a key.
-/

set_option autoImplicit false

namespace RatelimitFlex

open Library

variable {κ μ : Type} [DecidableEq κ] [DecidableEq μ]

/-! ## The condition on a step -/

namespace SharedBlocks

/-- A sync that goes on leaves every key as it is that its manager blocked or unblocked since it
read the store, an unblock that goes on was not overtaken by a block of its key, and an unblock
that finds no local block finds none in the store either. -/
def undisturbed (i : Timed (SharedInput κ μ)) (s : SharedBlocks κ μ) : Bool :=
  match i.op with
  | .call (.unblock m key) =>
    (((s.managers m).expireDueBlocks i.time).blocks.lookup key).isSome ||
      (s.store.lookup key).all fun v => v.isDue i.time
  | .call _ => true
  | .resume n _ =>
    match s.waiting n with
    | some (.unblocking _ _ _ superseded) => !superseded
    | some (.syncing m remote touched) => touched.all fun k =>
      decide (((s.managers m).syncFinish i.time remote).blocks.lookup k =
        (s.managers m).blocks.lookup k)
    | _ => true

end SharedBlocks

/-! ## Due and active blocks -/

namespace KeyBlock

variable {v : KeyBlock} {t u : ℤ}

/-- A block that is active at `u` is not due before. -/
theorem isDue_eq_false_of_isActive (h : v.isActive u = true) (ht : t ≤ u) : v.isDue t = false := by
  unfold isActive at h
  unfold isDue
  cases he : v.expiresAt with
  | none => rfl
  | some date =>
    rw [he] at h
    cases date with
    | invalid => rfl
    | time ms =>
      simp only [JsDate.after, JsDate.notAfter, decide_eq_true_eq, decide_eq_false_iff_not,
        not_le] at h ⊢
      omega

/-- A block that is due stays due. -/
theorem isDue_mono (h : v.isDue t = true) (ht : t ≤ u) : v.isDue u = true := by
  unfold isDue at h ⊢
  cases he : v.expiresAt with
  | none => simp [he] at h
  | some date =>
    rw [he] at h
    cases date with
    | invalid => exact h
    | time ms =>
      simp only [JsDate.notAfter, decide_eq_true_eq] at h ⊢
      omega

end KeyBlock

/-! ## The operations that wait -/

/-- Every sync and every unblock in `qs` is one of `ps`, with no less kept of it. -/
structure Inherits (ps qs : List (ℕ × SharedPending κ μ)) : Prop where
  syncing : ∀ n m remote touched, (n, .syncing m remote touched) ∈ qs →
    ∃ ks, (n, .syncing m remote ks) ∈ ps ∧ ks ⊆ touched
  unblocking : ∀ n m k entry superseded, (n, .unblocking m k entry superseded) ∈ qs →
    ∃ b, (n, .unblocking m k entry b) ∈ ps ∧ (b = true → superseded = true)

namespace Inherits

variable {ps qs rs : List (ℕ × SharedPending κ μ)}

omit [DecidableEq κ] [DecidableEq μ] in
/-- Of pending calls some may end. -/
theorem of_subset (h : qs ⊆ ps) : Inherits ps qs where
  syncing _ _ _ touched hmem := ⟨touched, h hmem, List.Subset.refl _⟩
  unblocking _ _ _ _ superseded hmem := ⟨superseded, h hmem, id⟩

omit [DecidableEq κ] [DecidableEq μ] in
/-- What is inherited twice is inherited. -/
theorem trans (h : Inherits ps qs) (h' : Inherits qs rs) : Inherits ps rs where
  syncing n m remote touched hmem := by
    obtain ⟨ks, hks, hsub⟩ := h'.syncing n m remote touched hmem
    obtain ⟨ks', hks', hsub'⟩ := h.syncing n m remote ks hks
    exact ⟨ks', hks', List.Subset.trans hsub' hsub⟩
  unblocking n m k entry superseded hmem := by
    obtain ⟨b, hb, himp⟩ := h'.unblocking n m k entry superseded hmem
    obtain ⟨b', hb', himp'⟩ := h.unblocking n m k entry b hb
    exact ⟨b', hb', fun h => himp (himp' h)⟩

omit [DecidableEq κ] in
/-- A key that is touched stays one of a sync's touched keys. -/
theorem touch (m : μ) (key : κ) :
    Inherits ps (ps.map fun e => (e.1, SharedPending.touch m key e.2)) where
  syncing n m' remote touched hmem := by
    obtain ⟨⟨n', p⟩, hp, heq⟩ := List.mem_map.mp hmem
    obtain ⟨rfl, hp'⟩ := Prod.mk.inj heq
    cases p with
    | syncing m₀ remote₀ ks =>
      simp only [SharedPending.touch] at hp'
      split at hp'
      · obtain ⟨rfl, rfl, rfl⟩ := SharedPending.syncing.inj hp'
        exact ⟨ks, hp, List.subset_cons_self _ _⟩
      · obtain ⟨rfl, rfl, rfl⟩ := SharedPending.syncing.inj hp'
        exact ⟨ks, hp, List.Subset.refl _⟩
    | blocking m₀ key₀ b => simp [SharedPending.touch] at hp'
    | unblocking m₀ key₀ entry b => simp [SharedPending.touch] at hp'
  unblocking n m' k entry superseded hmem := by
    obtain ⟨⟨n', p⟩, hp, heq⟩ := List.mem_map.mp hmem
    obtain ⟨rfl, hp'⟩ := Prod.mk.inj heq
    cases p with
    | syncing m₀ remote₀ ks =>
      simp only [SharedPending.touch] at hp'
      split at hp' <;> simp at hp'
    | blocking m₀ key₀ b => simp [SharedPending.touch] at hp'
    | unblocking m₀ key₀ entry₀ b =>
      simp only [SharedPending.touch] at hp'
      exact ⟨superseded, hp' ▸ hp, id⟩

/-- An entry that is superseded changes no sync. -/
theorem supersede (m : μ) (key : κ) :
    Inherits ps (ps.map fun e => (e.1, SharedPending.supersede m key e.2)) where
  syncing n m' remote touched hmem := by
    obtain ⟨⟨n', p⟩, hp, heq⟩ := List.mem_map.mp hmem
    obtain ⟨rfl, hp'⟩ := Prod.mk.inj heq
    cases p with
    | syncing m₀ remote₀ ks =>
      simp only [SharedPending.supersede] at hp'
      exact ⟨touched, hp' ▸ hp, List.Subset.refl _⟩
    | blocking m₀ key₀ b => simp [SharedPending.supersede] at hp'
    | unblocking m₀ key₀ entry b => simp [SharedPending.supersede] at hp'
  unblocking n m' k entry superseded hmem := by
    obtain ⟨⟨n', p⟩, hp, heq⟩ := List.mem_map.mp hmem
    obtain ⟨rfl, hp'⟩ := Prod.mk.inj heq
    cases p with
    | syncing m₀ remote₀ ks => simp [SharedPending.supersede] at hp'
    | blocking m₀ key₀ b => simp [SharedPending.supersede] at hp'
    | unblocking m₀ key₀ entry₀ b =>
      simp only [SharedPending.supersede] at hp'
      obtain ⟨rfl, rfl, rfl, rfl⟩ := SharedPending.unblocking.inj hp'
      exact ⟨b, hp, fun h => by rw [h, Bool.true_or]⟩

end Inherits

omit [DecidableEq κ] in
/-- After a touch every sync of the manager keeps the key. -/
theorem mem_touched {ps : List (ℕ × SharedPending κ μ)} {m : μ} {key : κ} {n : ℕ}
    {remote : InsertionMap κ KeyBlock} {touched : List κ}
    (h : (n, .syncing m remote touched) ∈
      ps.map fun e => (e.1, SharedPending.touch m key e.2)) : key ∈ touched := by
  obtain ⟨⟨n', p⟩, hp, heq⟩ := List.mem_map.mp h
  obtain ⟨rfl, hp'⟩ := Prod.mk.inj heq
  cases p with
  | syncing m₀ remote₀ ks =>
    simp only [SharedPending.touch] at hp'
    split at hp'
    · obtain ⟨rfl, rfl, rfl⟩ := SharedPending.syncing.inj hp'
      exact List.mem_cons_self
    · next hm =>
      obtain ⟨rfl, rfl, rfl⟩ := SharedPending.syncing.inj hp'
      exact absurd rfl hm
  | blocking m₀ key₀ b => simp [SharedPending.touch] at hp'
  | unblocking m₀ key₀ entry b => simp [SharedPending.touch] at hp'

/-- After a `supersede` of its key every waiting unblock of it knows. -/
theorem superseded_eq_true {ps : List (ℕ × SharedPending κ μ)} {m : μ} {key : κ} {n : ℕ}
    {entry : KeyBlock} {superseded : Bool}
    (h : (n, .unblocking m key entry superseded) ∈
      ps.map fun e => (e.1, SharedPending.supersede m key e.2)) : superseded = true := by
  obtain ⟨⟨n', p⟩, hp, heq⟩ := List.mem_map.mp h
  obtain ⟨rfl, hp'⟩ := Prod.mk.inj heq
  cases p with
  | syncing m₀ remote₀ ks => simp [SharedPending.supersede] at hp'
  | blocking m₀ key₀ b => simp [SharedPending.supersede] at hp'
  | unblocking m₀ key₀ entry₀ b =>
    simp only [SharedPending.supersede] at hp'
    obtain ⟨rfl, rfl, rfl, rfl⟩ := SharedPending.unblocking.inj hp'
    simp

/-! ## A key that stands as blocked -/

/-- `v` is there and is active at `T`. -/
def ActiveAt (T : ℤ) (entry : Option KeyBlock) : Prop := ∃ v, entry = some v ∧ v.isActive T = true

namespace ActiveAt

variable {T now : ℤ} {entry : Option KeyBlock} {k : κ} {km : KeyManager κ}

/-- A sweep before `T` leaves it. -/
theorem swept (h : ActiveAt T entry) (ht : now ≤ T) :
    ActiveAt T (entry.bind fun v => if v.isDue now then none else some v) := by
  obtain ⟨v, rfl, hv⟩ := h
  refine ⟨v, ?_, hv⟩
  rw [Option.bind_some, KeyBlock.isDue_eq_false_of_isActive hv ht]
  rfl

/-- An active block survives the expiry of those that are due. -/
theorem expireDueBlocks (h : ActiveAt T (km.blocks.lookup k)) (ht : now ≤ T) :
    ActiveAt T ((km.expireDueBlocks now).blocks.lookup k) := by
  rw [KeyManager.lookup_expireDueBlocks]
  exact h.swept ht

/-- A block that the store sends is active in the manager after the sync. -/
theorem syncFinish {remote : InsertionMap κ KeyBlock} (h : ActiveAt T (remote.lookup k))
    (ht : now ≤ T) : ActiveAt T ((km.syncFinish now remote).blocks.lookup k) := by
  obtain ⟨v, hv, hactive⟩ := h
  rw [KeyManager.lookup_syncFinish, hv]
  simp only [KeyBlock.isDue_eq_false_of_isActive hactive ht]
  exact ⟨v, rfl, hactive⟩

end ActiveAt

/-- Key `k` is blocked at manager `m` and in the store until after `T`, and nothing that waits
takes that away unnoticed. -/
structure Standing (T : ℤ) (m : μ) (k : κ) (s : SharedBlocks κ μ) : Prop where
  blocked : ActiveAt T ((s.managers m).blocks.lookup k)
  stored : ActiveAt T (s.store.lookup k)
  syncing : ∀ n remote touched, (n, .syncing m remote touched) ∈ s.pending →
    k ∈ touched ∨ ActiveAt T (remote.lookup k)
  unblocking : ∀ n entry superseded, (n, .unblocking m k entry superseded) ∈ s.pending →
    superseded = true

namespace SharedBlocks

variable {T now : ℤ} {m m' : μ} {k key : κ} {s : SharedBlocks κ μ} {km : KeyManager κ}

omit [DecidableEq κ] in
/-- The manager that was set. -/
theorem lookup_setManager_self :
    ((s.setManager m km).managers m) = km := Function.update_self _ _ _

omit [DecidableEq κ] in
/-- The others stay. -/
theorem lookup_setManager_of_ne (h : m ≠ m') : (s.setManager m' km).managers m = s.managers m :=
  Function.update_of_ne h _ _

omit [DecidableEq κ] [DecidableEq μ] in
/-- A call that is waited for is pending. -/
theorem mem_of_waiting {n : ℕ} {p : SharedPending κ μ} (h : s.waiting n = some p) :
    (n, p) ∈ s.pending := by
  obtain ⟨⟨n', p'⟩, he, rfl⟩ := Option.map_eq_some_iff.mp h
  have hn : n' = n := by simpa using List.find?_some he
  exact hn ▸ List.mem_of_find?_eq_some he

end SharedBlocks

namespace Standing

variable {T now : ℤ} {m m' : μ} {k key : κ} {s s' : SharedBlocks κ μ}

omit [DecidableEq μ] in
/-- What a step has to keep. -/
theorem of_inherits (h : Standing T m k s) (hpending : Inherits s.pending s'.pending)
    (hblocked : ActiveAt T ((s'.managers m).blocks.lookup k))
    (hstored : ActiveAt T (s'.store.lookup k)) : Standing T m k s' where
  blocked := hblocked
  stored := hstored
  syncing n remote touched hmem := by
    obtain ⟨ks, hks, hsub⟩ := hpending.syncing n m remote touched hmem
    rcases h.syncing n remote ks hks with hk | hactive
    · exact Or.inl (hsub hk)
    · exact Or.inr hactive
  unblocking n entry superseded hmem := by
    obtain ⟨b, hb, himp⟩ := hpending.unblocking n m k entry superseded hmem
    exact himp (h.unblocking n entry b hb)

omit [DecidableEq μ] in
/-- Another operation waits, which is no unblock of the key and no sync but of a store that holds
it. -/
theorem await (h : Standing T m k s) {p : SharedPending κ μ}
    (hunblock : ∀ entry b, p ≠ .unblocking m k entry b)
    (hsync : ∀ remote touched, p = .syncing m remote touched → ActiveAt T (remote.lookup k)) :
    Standing T m k (s.await p) where
  blocked := h.blocked
  stored := h.stored
  syncing n remote touched hmem := by
    rcases List.mem_append.mp hmem with hold | hnew
    · exact h.syncing n remote touched hold
    · obtain ⟨-, hp⟩ := Prod.mk.inj (List.mem_singleton.mp hnew)
      exact Or.inr (hsync remote touched hp.symm)
  unblocking n entry superseded hmem := by
    rcases List.mem_append.mp hmem with hold | hnew
    · exact h.unblocking n entry superseded hold
    · obtain ⟨-, hp⟩ := Prod.mk.inj (List.mem_singleton.mp hnew)
      exact absurd hp.symm (hunblock entry superseded)

/-- One manager changes its blocks and leaves the key active. -/
theorem setManager (h : Standing T m k s) {km : KeyManager κ}
    (hkm : m' = m → ActiveAt T (km.blocks.lookup k)) : Standing T m k (s.setManager m' km) := by
  refine h.of_inherits (.of_subset (List.Subset.refl _)) ?_ h.stored
  by_cases hm : m = m'
  · subst hm
    rw [SharedBlocks.lookup_setManager_self]
    exact hkm rfl
  · rw [SharedBlocks.lookup_setManager_of_ne hm]
    exact h.blocked

/-- A touched key changes no block. -/
theorem mapTouch (h : Standing T m k s) (m' : μ) (key : κ) :
    Standing T m k (s.mapPending (.touch m' key)) :=
  h.of_inherits (.touch m' key) h.blocked h.stored

/-- A superseded unblock changes no block. -/
theorem mapSupersede (h : Standing T m k s) (m' : μ) (key : κ) :
    Standing T m k (s.mapPending (.supersede m' key)) :=
  h.of_inherits (.supersede m' key) h.blocked h.stored

omit [DecidableEq μ] in
/-- The store may change as long as the block is in it. -/
theorem setStore (h : Standing T m k s) {map : InsertionMap κ KeyBlock}
    (hstored : ActiveAt T (map.lookup k)) : Standing T m k { s with store := map } :=
  h.of_inherits (.of_subset (List.Subset.refl _)) h.blocked hstored

/-- A block of the key at the manager makes it stand. -/
theorem start {durationMs : JsNumber} {reason : KeyBlockReason}
    (hactive : (KeyManager.blockEntry now durationMs reason).isActive T = true) :
    Standing T m k (s.begin now (.block m k durationMs reason)) where
  blocked := by
    refine ⟨_, ?_, hactive⟩
    show (((s.setManager m _).managers m).blocks).lookup k = _
    rw [SharedBlocks.lookup_setManager_self, KeyManager.lookup_blockStart, if_pos rfl]
  stored := ⟨_, InsertionMap.lookup_set_self _ _ _, hactive⟩
  syncing n remote touched hmem := by
    rcases List.mem_append.mp hmem with hold | hnew
    · obtain ⟨ks, hks, hsub⟩ := (Inherits.supersede m k).syncing n m remote touched hold
      exact Or.inl (hsub (mem_touched hks))
    · obtain ⟨-, hp⟩ := Prod.mk.inj (List.mem_singleton.mp hnew)
      exact absurd hp (by simp)
  unblocking n entry superseded hmem := by
    rcases List.mem_append.mp hmem with hold | hnew
    · exact superseded_eq_true hold
    · obtain ⟨-, hp⟩ := Prod.mk.inj (List.mem_singleton.mp hnew)
      exact absurd hp (by simp)

/-- A call that unblocks nothing of the key. -/
theorem begin (h : Standing T m k s) (ht : now ≤ T) {c : SharedCall κ μ}
    (hunblock : ∀ m', c ≠ .unblock m' k) (hunblockAll : ∀ m', c ≠ .unblockAll m')
    (hblock : ∀ m' d r, c = .block m' k d r →
      (KeyManager.blockEntry now d r).isActive T = true) :
    Standing T m k (s.begin now c) := by
  have hlocal : ActiveAt T (((s.managers m).expireDueBlocks now).blocks.lookup k) :=
    h.blocked.expireDueBlocks ht
  cases c with
  | block m' key d r =>
    refine Standing.await (Standing.setStore (((h.setManager ?_).mapTouch m' key).mapSupersede
      m' key) ?_) (by simp) (by simp)
    · rintro rfl
      rw [KeyManager.lookup_blockStart]
      by_cases hk : k = key
      · subst hk
        rw [if_pos rfl]
        exact ⟨_, rfl, hblock m' d r rfl⟩
      · rw [if_neg hk]
        exact hlocal
    · show ActiveAt T ((s.store.set key _).lookup k)
      rw [InsertionMap.lookup_set]
      by_cases hk : k = key
      · subst hk
        rw [if_pos rfl]
        exact ⟨_, rfl, hblock m' d r rfl⟩
      · rw [if_neg hk]
        exact h.stored
  | unblock m' key =>
    have hk : k ≠ key := fun hk => hunblock m' (hk ▸ rfl)
    have hswept : Standing T m k (s.setManager m' ((s.managers m').expireDueBlocks now)) :=
      h.setManager fun hm => by
        subst hm
        exact hlocal
    simp only [SharedBlocks.begin, KeyManager.unblockStart]
    cases ((s.managers m').expireDueBlocks now).blocks.lookup key with
    | none => exact hswept.mapTouch m' key
    | some entry =>
      refine Standing.await (hswept.setStore ?_) ?_ (by simp)
      · show ActiveAt T ((s.store.erase key).lookup k)
        rw [InsertionMap.lookup_erase', if_neg hk]
        exact h.stored
      · intro entry' b heq
        exact hk (SharedPending.unblocking.inj heq).2.1.symm
  | unblockAll m' => exact absurd rfl (hunblockAll m')
  | syncBlocks m' =>
    have hremote : ActiveAt T ((MemoryBlockStore.getAllBlocks now s.store).lookup k) := by
      rw [MemoryBlockStore.getAllBlocks, InsertionMap.lookup_filterMapValues]
      exact h.stored.swept ht
    refine Standing.await (Standing.setStore (h.setManager fun hm => ?_) hremote) (by simp) ?_
    · subst hm
      exact hlocal
    · intro remote touched heq
      obtain ⟨-, rfl, -⟩ := SharedPending.syncing.inj heq
      exact hremote
  | tick m' =>
    exact h.setManager fun hm => by
      subst hm
      exact hlocal

/-- An operation that goes on without a disturbance. -/
theorem advance (h : Standing T m k s) (ht : now ≤ T) {o : μ → KeyManagerOptions} {n : ℕ}
    {p : SharedPending κ μ} (hp : (n, p) ∈ s.pending) (snap : Option RateLimitResult)
    (hundisturbed : SharedBlocks.undisturbed ⟨now, .resume n snap⟩ s = true)
    (hwaiting : s.waiting n = some p) :
    Standing T m k (SharedBlocks.advance o now snap
      { s with pending := s.pending.filter fun e => e.1 ≠ n } p) := by
  have hrest : Standing T m k { s with pending := s.pending.filter fun e => e.1 ≠ n } :=
    h.of_inherits (.of_subset List.filter_sublist.subset) h.blocked h.stored
  simp only [SharedBlocks.undisturbed, hwaiting] at hundisturbed
  cases p with
  | blocking m' key b =>
    exact hrest.setManager fun hm => by
      subst hm
      exact h.blocked
  | unblocking m' key entry superseded =>
    have hfalse : superseded = false := by simpa using hundisturbed
    refine Standing.mapTouch (hrest.setManager fun hm => ?_) m' key
    subst hm
    have hk : k ≠ key := by
      rintro rfl
      have htrue := h.unblocking n entry superseded hp
      rw [hfalse] at htrue
      exact Bool.false_ne_true htrue
    rw [lookup_unblockRemove, if_neg hk]
    exact h.blocked.swept ht
  | syncing m' remote touched =>
    refine hrest.setManager fun hm => ?_
    subst hm
    rcases h.syncing n remote touched hp with hk | hactive
    · have hkept := of_decide_eq_true (List.all_eq_true.mp hundisturbed k hk)
      show ActiveAt T (((s.managers m').syncFinish now remote).blocks.lookup k)
      rw [hkept]
      exact h.blocked
    · exact hactive.syncFinish ht

/-- One step that unblocks nothing of the key. -/
theorem step (h : Standing T m k s) {o : μ → KeyManagerOptions} {i : Timed (SharedInput κ μ)}
    (ht : i.time ≤ T) (hundisturbed : s.undisturbed i = true)
    (hunblock : ∀ m', i.op ≠ .call (.unblock m' k)) (hunblockAll : ∀ m', i.op ≠ .call (.unblockAll m'))
    (hblock : ∀ m' d r, i.op = .call (.block m' k d r) →
      (KeyManager.blockEntry i.time d r).isActive T = true) :
    Standing T m k (SharedBlocks.step o i s).1 := by
  obtain ⟨time, op⟩ := i
  cases op with
  | call c =>
    have hbegun : Standing T m k (s.begin time c) :=
      h.begin ht (fun m' hc => hunblock m' (congrArg _ hc))
        (fun m' hc => hunblockAll m' (congrArg _ hc)) fun m' d r hc => hblock m' d r (congrArg _ hc)
    exact hbegun.of_inherits (.of_subset (List.Subset.refl _)) hbegun.blocked hbegun.stored
  | resume n snap =>
    cases hwaiting : s.waiting n with
    | none =>
      simp only [SharedBlocks.step, hwaiting]
      exact h
    | some p =>
      simp only [SharedBlocks.step, hwaiting]
      exact h.advance ht (SharedBlocks.mem_of_waiting hwaiting) snap hundisturbed hwaiting

/-- A run in which nothing of the key is unblocked. -/
theorem final (h : Standing T m k s) {o : μ → KeyManagerOptions}
    {is : List (Timed (SharedInput κ μ))} (ht : ∀ i ∈ is, i.time ≤ T)
    (hundisturbed : Guarded (fun i s => SharedBlocks.undisturbed i s = true)
      (SharedBlocks.step o) is s)
    (hunblock : ∀ i ∈ is, ∀ m', i.op ≠ .call (.unblock m' k) ∧ i.op ≠ .call (.unblockAll m'))
    (hblock : ∀ i ∈ is, ∀ m' d r, i.op = .call (.block m' k d r) →
      (KeyManager.blockEntry i.time d r).isActive T = true) :
    Standing T m k (Library.final (SharedBlocks.step o) is s) := by
  induction is generalizing s with
  | nil => exact h
  | cons i is ih =>
    have hnext : Standing T m k (SharedBlocks.step o i s).1 :=
      h.step (ht i List.mem_cons_self) hundisturbed.1
        (fun m' => (hunblock i List.mem_cons_self m').1)
        (fun m' => (hunblock i List.mem_cons_self m').2) (hblock i List.mem_cons_self)
    exact ih hnext (fun j hj => ht j (List.mem_cons_of_mem i hj)) hundisturbed.2
      (fun j hj => hunblock j (List.mem_cons_of_mem i hj))
      fun j hj => hblock j (List.mem_cons_of_mem i hj)

omit [DecidableEq μ] in
/-- A block that stands is one the manager reports. -/
theorem isBlocked (h : Standing T m k s) : ((s.managers m).isBlocked T k).1 = true := by
  obtain ⟨v, hv, hactive⟩ := h.blocked.expireDueBlocks le_rfl
  simp only [KeyManager.isBlocked, KeyManager.isManualBlockActive, hv, hactive]

end Standing

/-! ## A key that was lifted -/

/-- The unblock of `k` that manager `m` called as number `id` has taken the key out of the store,
and once it has gone on the manager's own block is away and no sync will bring it back. -/
structure Lifted (now : ℤ) (m : μ) (k : κ) (id : ℕ) (s : SharedBlocks κ μ) : Prop where
  stored : ∀ v, s.store.lookup k = some v → v.isDue now = true
  numbered : id < s.started
  waiting : ∀ p, (id, p) ∈ s.pending → ∃ entry b, p = .unblocking m k entry b
  local_lookup : (∀ p, (id, p) ∉ s.pending) → (s.managers m).blocks.lookup k = none
  syncing : (∀ p, (id, p) ∉ s.pending) → ∀ n remote touched,
    (n, .syncing m remote touched) ∈ s.pending → k ∈ touched ∨ remote.lookup k = none

namespace Lifted

variable {now t : ℤ} {m m' : μ} {k key : κ} {id : ℕ} {s s' : SharedBlocks κ μ}

omit [DecidableEq μ] in
/-- A key that is lifted stays so as time passes. -/
theorem mono (h : Lifted now m k id s) (ht : now ≤ t) : Lifted t m k id s :=
  { h with stored := fun v hv => KeyBlock.isDue_mono (h.stored v hv) ht }

omit [DecidableEq μ] in
/-- What a step has to keep. -/
theorem of_inherits (h : Lifted now m k id s) (hpending : Inherits s.pending s'.pending)
    (hnumbered : s.started ≤ s'.started)
    (hwaiting : ∀ p, (id, p) ∈ s'.pending → ∃ entry b, p = .unblocking m k entry b)
    (hgone : (∀ p, (id, p) ∉ s'.pending) → ∀ p, (id, p) ∉ s.pending)
    (hstored : ∀ v, s'.store.lookup k = some v → v.isDue now = true)
    (hlocal : (∀ p, (id, p) ∉ s.pending) → (s'.managers m).blocks.lookup k = none) :
    Lifted now m k id s' where
  stored := hstored
  numbered := h.numbered.trans_le hnumbered
  waiting := hwaiting
  local_lookup hno := hlocal (hgone hno)
  syncing hno n remote touched hmem := by
    obtain ⟨ks, hks, hsub⟩ := hpending.syncing n m remote touched hmem
    rcases h.syncing (hgone hno) n remote ks hks with hk | hnone
    · exact Or.inl (hsub hk)
    · exact Or.inr hnone

omit [DecidableEq μ] in
/-- The store may change as long as it holds no running block of the key. -/
theorem setStore (h : Lifted now m k id s) {map : InsertionMap κ KeyBlock}
    (hstored : ∀ v, map.lookup k = some v → v.isDue now = true) :
    Lifted now m k id { s with store := map } :=
  h.of_inherits (.of_subset (List.Subset.refl _)) le_rfl h.waiting (fun hno => hno) hstored
    h.local_lookup

/-- A manager may change as long as it gets no block of the key. -/
theorem setManager (h : Lifted now m k id s) {km : KeyManager κ}
    (hkm : m' = m → (∀ p, (id, p) ∉ s.pending) → (s.managers m).blocks.lookup k = none →
      km.blocks.lookup k = none) : Lifted now m k id (s.setManager m' km) := by
  refine h.of_inherits (.of_subset (List.Subset.refl _)) le_rfl h.waiting (fun hno => hno)
    h.stored fun hno => ?_
  by_cases hm : m = m'
  · subst hm
    rw [SharedBlocks.lookup_setManager_self]
    exact hkm rfl hno (h.local_lookup hno)
  · rw [SharedBlocks.lookup_setManager_of_ne hm]
    exact h.local_lookup hno

omit [DecidableEq μ] in
/-- The bookkeeping of the operations that wait. -/
theorem mapPending (h : Lifted now m k id s) {f : SharedPending κ μ → SharedPending κ μ}
    (hf : Inherits s.pending (s.mapPending f).pending)
    (hshape : ∀ m k entry b, ∃ b', f (.unblocking m k entry b) = .unblocking m k entry b') :
    Lifted now m k id (s.mapPending f) := by
  refine h.of_inherits hf le_rfl (fun p hp => ?_) (fun hno p hp => ?_) h.stored h.local_lookup
  · obtain ⟨⟨n, q⟩, hq, heq⟩ := List.mem_map.mp hp
    obtain ⟨rfl, rfl⟩ := Prod.mk.inj heq
    obtain ⟨entry, b, rfl⟩ := h.waiting q hq
    obtain ⟨b', hb'⟩ := hshape m k entry b
    exact ⟨entry, b', hb'⟩
  · exact hno (f p) (List.mem_map.mpr ⟨(id, p), hp, rfl⟩)

/-- A touched key brings no block back. -/
theorem mapTouch (h : Lifted now m k id s) (m' : μ) (key : κ) :
    Lifted now m k id (s.mapPending (.touch m' key)) :=
  h.mapPending (.touch m' key) fun _ _ _ b => ⟨b, rfl⟩

/-- A superseded unblock brings no block back. -/
theorem mapSupersede (h : Lifted now m k id s) (m' : μ) (key : κ) :
    Lifted now m k id (s.mapPending (.supersede m' key)) :=
  h.mapPending (.supersede m' key) fun _ _ _ _ => ⟨_, rfl⟩

omit [DecidableEq μ] in
/-- A call may wait as long as it carries no block of the key. -/
theorem await (h : Lifted now m k id s) {p : SharedPending κ μ}
    (hsync : ∀ remote touched, p = .syncing m remote touched → remote.lookup k = none) :
    Lifted now m k id (s.await p) where
  stored := h.stored
  numbered := h.numbered
  waiting q hq := by
    rcases List.mem_append.mp hq with hold | hnew
    · exact h.waiting q hold
    · obtain ⟨hid, -⟩ := Prod.mk.inj (List.mem_singleton.mp hnew)
      exact absurd hid h.numbered.ne
  local_lookup hno := h.local_lookup fun q hq => hno q (List.mem_append_left _ hq)
  syncing hno n remote touched hmem := by
    have hno' : ∀ q, (id, q) ∉ s.pending := fun q hq => hno q (List.mem_append_left _ hq)
    rcases List.mem_append.mp hmem with hold | hnew
    · exact h.syncing hno' n remote touched hold
    · obtain ⟨-, hp⟩ := Prod.mk.inj (List.mem_singleton.mp hnew)
      exact Or.inr (hsync remote touched hp.symm)

/-- An expiry brings no block. -/
theorem lookup_expireDueBlocks_of_none {km : KeyManager κ} (h : km.blocks.lookup k = none) :
    (km.expireDueBlocks now).blocks.lookup k = none := by
  rw [KeyManager.lookup_expireDueBlocks, h]
  rfl

/-- Removing keys from the store, one after the other. -/
theorem lookup_foldl_removeBlock (keys : List κ) (map : InsertionMap κ KeyBlock) :
    (keys.foldl (fun map key => MemoryBlockStore.removeBlock key map) map).lookup k =
      if k ∈ keys then none else map.lookup k := by
  induction keys generalizing map with
  | nil => simp
  | cons key keys ih =>
    rw [List.foldl_cons, ih, MemoryBlockStore.removeBlock, InsertionMap.lookup_erase']
    by_cases hk : k = key
    · subst hk
      simp
    · simp [hk]

/-- A call that blocks nothing of the key. -/
theorem begin (h : Lifted now m k id s) {c : SharedCall κ μ}
    (hblock : ∀ m' d r, c ≠ .block m' k d r) : Lifted now m k id (s.begin now c) := by
  have hswept : ∀ m', Lifted now m k id (s.setManager m' ((s.managers m').expireDueBlocks now)) :=
    fun m' => h.setManager fun hm _ hnone => by
      subst hm
      exact lookup_expireDueBlocks_of_none hnone
  cases c with
  | block m' key d r =>
    have hk : k ≠ key := fun hk => hblock m' d r (hk ▸ rfl)
    refine Lifted.await (Lifted.setStore (((h.setManager ?_).mapTouch m' key).mapSupersede m' key)
      ?_) (by simp)
    · rintro rfl - hnone
      rw [KeyManager.lookup_blockStart, if_neg hk]
      exact lookup_expireDueBlocks_of_none hnone
    · intro v hv
      rw [MemoryBlockStore.setBlock, InsertionMap.lookup_set_ne _ _ hk] at hv
      exact h.stored v hv
  | unblock m' key =>
    simp only [SharedBlocks.begin, KeyManager.unblockStart]
    cases ((s.managers m').expireDueBlocks now).blocks.lookup key with
    | none => exact (hswept m').mapTouch m' key
    | some entry =>
      refine Lifted.await ((hswept m').setStore fun v hv => ?_) (by simp)
      change (s.store.erase key).lookup k = some v at hv
      rw [InsertionMap.lookup_erase'] at hv
      by_cases hk : k = key
      · simp [hk] at hv
      · rw [if_neg hk] at hv
        exact h.stored v hv
  | unblockAll m' =>
    refine Lifted.setStore (h.setManager fun hm _ _ => KeyManager.lookup_unblockAll _ _ _)
      fun v hv => ?_
    rw [lookup_foldl_removeBlock] at hv
    split at hv
    · simp at hv
    · exact h.stored v hv
  | syncBlocks m' =>
    have hremote : (MemoryBlockStore.getAllBlocks now s.store).lookup k = none := by
      rw [MemoryBlockStore.getAllBlocks, InsertionMap.lookup_filterMapValues]
      cases hv : s.store.lookup k with
      | none => rfl
      | some v =>
        rw [Option.bind_some, h.stored v hv]
        rfl
    refine Lifted.await ((hswept m').setStore fun v hv => ?_) fun remote touched heq => ?_
    · change (MemoryBlockStore.getAllBlocks now s.store).lookup k = some v at hv
      rw [hremote] at hv
      exact absurd hv.symm (Option.some_ne_none v)
    · obtain ⟨-, rfl, -⟩ := SharedPending.syncing.inj heq
      exact hremote
  | tick m' => exact hswept m'

/-- The unblock itself goes on. -/
theorem resolve (h : Lifted now m k id s) (o : μ → KeyManagerOptions) (entry : KeyBlock) (b : Bool)
    (snap : Option RateLimitResult) :
    Lifted now m k id (SharedBlocks.advance o now snap
      { s with pending := s.pending.filter fun e => e.1 ≠ id } (.unblocking m k entry b)) := by
  have hno : ∀ p, (id, p) ∉ (SharedBlocks.advance o now snap
      { s with pending := s.pending.filter fun e => e.1 ≠ id }
        (.unblocking m k entry b)).pending := by
    intro p hp
    obtain ⟨⟨n, q⟩, hq, heq⟩ := List.mem_map.mp hp
    obtain ⟨rfl, -⟩ := Prod.mk.inj heq
    simpa using (List.mem_filter.mp hq).2
  refine ⟨h.stored, h.numbered, fun p hp => absurd hp (hno p), fun _ => ?_, fun _ => ?_⟩
  · show (Function.update s.managers m _ m).blocks.lookup k = none
    rw [Function.update_self, lookup_unblockRemove, if_pos rfl]
    rfl
  · exact fun n remote touched hmem => Or.inl (mem_touched hmem)

/-- An operation that goes on without a disturbance. -/
theorem advance (h : Lifted now m k id s) {o : μ → KeyManagerOptions} {n : ℕ}
    {p : SharedPending κ μ} (snap : Option RateLimitResult)
    (hundisturbed : SharedBlocks.undisturbed ⟨now, .resume n snap⟩ s = true)
    (hwaiting : s.waiting n = some p) :
    Lifted now m k id (SharedBlocks.advance o now snap
      { s with pending := s.pending.filter fun e => e.1 ≠ n } p) := by
  have hp := SharedBlocks.mem_of_waiting hwaiting
  by_cases hn : n = id
  · subst hn
    obtain ⟨entry, b, rfl⟩ := h.waiting p hp
    exact h.resolve o entry b snap
  · have hkept : ∀ q, (id, q) ∈ s.pending → (id, q) ∈ s.pending.filter fun e => e.1 ≠ n :=
      fun q hq => List.mem_filter.mpr ⟨hq, by simpa using Ne.symm hn⟩
    have hrest : Lifted now m k id { s with pending := s.pending.filter fun e => e.1 ≠ n } :=
      h.of_inherits (.of_subset List.filter_sublist.subset) le_rfl
        (fun q hq => h.waiting q (List.filter_sublist.subset hq))
        (fun hno q hq => hno q (hkept q hq)) h.stored h.local_lookup
    simp only [SharedBlocks.undisturbed, hwaiting] at hundisturbed
    cases p with
    | blocking m' key b =>
      exact hrest.setManager fun hm _ hnone => by
        subst hm
        exact hnone
    | unblocking m' key entry superseded =>
      refine Lifted.mapTouch (hrest.setManager fun hm _ hnone => ?_) m' key
      subst hm
      rw [lookup_unblockRemove]
      split
      · rfl
      · exact (congrArg (Option.bind · _) hnone).trans rfl
    | syncing m' remote touched =>
      refine hrest.setManager fun hm hno hnone => ?_
      subst hm
      rcases h.syncing (fun q hq => hno q (hkept q hq)) n remote touched hp with hk | hremote
      · have hsame := of_decide_eq_true (List.all_eq_true.mp hundisturbed k hk)
        exact hsame.trans hnone
      · rw [KeyManager.lookup_syncFinish, hremote]

/-- One step that blocks nothing of the key. -/
theorem step (h : Lifted now m k id s) {o : μ → KeyManagerOptions} {i : Timed (SharedInput κ μ)}
    (ht : now ≤ i.time) (hundisturbed : s.undisturbed i = true)
    (hblock : ∀ m' d r, i.op ≠ .call (.block m' k d r)) :
    Lifted i.time m k id (SharedBlocks.step o i s).1 := by
  obtain ⟨time, op⟩ := i
  have hnow : Lifted time m k id s := h.mono ht
  cases op with
  | call c =>
    have hbegun : Lifted time m k id (s.begin time c) :=
      hnow.begin fun m' d r hc => hblock m' d r (congrArg _ hc)
    exact hbegun.of_inherits (.of_subset (List.Subset.refl _)) (Nat.le_succ _) hbegun.waiting
      (fun hno => hno) hbegun.stored hbegun.local_lookup
  | resume n snap =>
    cases hwaiting : s.waiting n with
    | none =>
      simp only [SharedBlocks.step, hwaiting]
      exact hnow
    | some p =>
      simp only [SharedBlocks.step, hwaiting]
      exact hnow.advance snap hundisturbed hwaiting

/-- A run in which nothing of the key is blocked. -/
theorem final (h : Lifted now m k id s) {o : μ → KeyManagerOptions}
    {is : List (Timed (SharedInput κ μ))} (hord : OrderedFrom Timed.time now is)
    (hundisturbed : Guarded (fun i s => SharedBlocks.undisturbed i s = true)
      (SharedBlocks.step o) is s)
    (hblock : ∀ i ∈ is, ∀ m' d r, i.op ≠ .call (.block m' k d r)) :
    Lifted (lastClock Timed.time now is) m k id (Library.final (SharedBlocks.step o) is s) := by
  induction is generalizing now s with
  | nil => exact h
  | cons i is ih =>
    exact ih (h.step hord.1 hundisturbed.1 (hblock i List.mem_cons_self)) hord.2 hundisturbed.2
      fun j hj => hblock j (List.mem_cons_of_mem i hj)

omit [DecidableEq μ] in
/-- The store answers that the key is not blocked. -/
theorem getBlock (h : Lifted now m k id s) : (MemoryBlockStore.getBlock now k s.store).1 = none := by
  unfold MemoryBlockStore.getBlock
  cases hv : s.store.lookup k with
  | none => rfl
  | some v => simp only [h.stored v hv, if_true]

omit [DecidableEq μ] in
/-- A manager whose unblock has ended reports the key as not blocked. -/
theorem isBlocked (h : Lifted now m k id s) (hno : ∀ p, (id, p) ∉ s.pending) :
    ((s.managers m).isBlocked now k).1 = false := by
  have hnone : ((s.managers m).expireDueBlocks now).blocks.lookup k = none :=
    lookup_expireDueBlocks_of_none (h.local_lookup hno)
  simp only [KeyManager.isBlocked, KeyManager.isManualBlockActive, hnone]

end Lifted

namespace SharedBlocks

variable {o : μ → KeyManagerOptions} {now : ℤ} {m : μ} {k : κ} {s : SharedBlocks κ μ}

/-- The operations that wait were called before. -/
def Numbered (s : SharedBlocks κ μ) : Prop := ∀ e ∈ s.pending, e.1 < s.started

/-- A call that begins takes the next number. -/
theorem Numbered.begin (h : s.Numbered) (now : ℤ) (c : SharedCall κ μ) :
    (s.begin now c).started = s.started ∧
      ∀ e ∈ (s.begin now c).pending, e.1 < s.started + 1 := by
  have hold : ∀ e ∈ s.pending, e.1 < s.started + 1 := fun e he => Nat.lt_succ_of_lt (h e he)
  have hmap : ∀ f : SharedPending κ μ → SharedPending κ μ,
      ∀ e ∈ s.pending.map fun e => (e.1, f e.2), e.1 < s.started + 1 := by
    intro f e he
    obtain ⟨e', he', rfl⟩ := List.mem_map.mp he
    exact hold e' he'
  have hawait : ∀ (ps : List (ℕ × SharedPending κ μ)) (p : SharedPending κ μ),
      (∀ e ∈ ps, e.1 < s.started + 1) → ∀ e ∈ ps ++ [(s.started, p)], e.1 < s.started + 1 := by
    intro ps p hps e he
    rcases List.mem_append.mp he with hin | hnew
    · exact hps e hin
    · rw [List.mem_singleton.mp hnew]
      exact Nat.lt_succ_self _
  cases c with
  | block m' key d r =>
    refine ⟨rfl, hawait _ _ fun e he => ?_⟩
    obtain ⟨e', he', rfl⟩ := List.mem_map.mp he
    exact hmap _ e' he'
  | unblock m' key =>
    simp only [SharedBlocks.begin, KeyManager.unblockStart]
    cases ((s.managers m').expireDueBlocks now).blocks.lookup key with
    | none => exact ⟨rfl, hmap _⟩
    | some entry => exact ⟨rfl, hawait _ _ hold⟩
  | unblockAll m' => exact ⟨rfl, hold⟩
  | syncBlocks m' => exact ⟨rfl, hawait _ _ hold⟩
  | tick m' => exact ⟨rfl, hold⟩

/-- Every step keeps the numbers of the pending calls apart. -/
theorem Numbered.step (h : s.Numbered) (i : Timed (SharedInput κ μ)) :
    (SharedBlocks.step o i s).1.Numbered := by
  obtain ⟨time, op⟩ := i
  cases op with
  | call c =>
    obtain ⟨hstarted, hpending⟩ := h.begin time c
    intro e he
    show e.1 < (s.begin time c).started + 1
    rw [hstarted]
    exact hpending e he
  | resume n snap =>
    cases hwaiting : s.waiting n with
    | none =>
      simp only [SharedBlocks.step, hwaiting]
      exact h
    | some p =>
      have hrest : ∀ e ∈ s.pending.filter fun e => e.1 ≠ n, e.1 < s.started :=
        fun e he => h e (List.filter_sublist.subset he)
      simp only [SharedBlocks.step, hwaiting]
      cases p with
      | blocking m' key b => exact hrest
      | unblocking m' key entry b =>
        intro e he
        obtain ⟨e', he', rfl⟩ := List.mem_map.mp he
        exact hrest e' he'
      | syncing m' remote touched => exact hrest

/-- So does every run. -/
theorem numbered_final (o : μ → KeyManagerOptions) (is : List (Timed (SharedInput κ μ))) :
    (final (SharedBlocks.step o) is ({} : SharedBlocks κ μ)).Numbered := by
  have hrun : ∀ s : SharedBlocks κ μ, s.Numbered →
      (final (SharedBlocks.step o) is s).Numbered := by
    induction is with
    | nil => exact fun s h => h
    | cons i is ih => exact fun s h => ih _ (h.step i)
  exact hrun {} fun e he => absurd he List.not_mem_nil

end SharedBlocks

/-- An unblock lifts its key. -/
theorem Lifted.start {o : μ → KeyManagerOptions} {now : ℤ} {m : μ} {k : κ} {s : SharedBlocks κ μ}
    (hnumbered : s.Numbered)
    (hundisturbed : SharedBlocks.undisturbed ⟨now, .call (.unblock m k)⟩ s = true) :
    Lifted now m k s.started (SharedBlocks.step o ⟨now, .call (.unblock m k)⟩ s).1 := by
  have hold : ∀ p, (s.started, p) ∉ s.pending := fun p hp => absurd (hnumbered _ hp) (lt_irrefl _)
  simp only [SharedBlocks.undisturbed] at hundisturbed
  simp only [SharedBlocks.step, SharedBlocks.begin, KeyManager.unblockStart]
  cases hlocal : ((s.managers m).expireDueBlocks now).blocks.lookup k with
  | none =>
    rw [hlocal] at hundisturbed
    refine ⟨fun v hv => ?_, Nat.lt_succ_self _, fun p hp => ?_, fun _ => ?_, fun _ => ?_⟩
    · have hall : (s.store.lookup k).all (fun v => v.isDue now) = true := by
        simpa using hundisturbed
      rw [show s.store.lookup k = some v from hv] at hall
      exact hall
    · obtain ⟨⟨n, q⟩, hq, heq⟩ := List.mem_map.mp hp
      obtain ⟨rfl, -⟩ := Prod.mk.inj heq
      exact absurd hq (hold q)
    · show (Function.update s.managers m _ m).blocks.lookup k = none
      rw [Function.update_self]
      exact hlocal
    · exact fun n remote touched hmem => Or.inl (mem_touched hmem)
  | some entry =>
    have hnew : (s.started, SharedPending.unblocking m k entry false) ∈
        s.pending ++ [(s.started, .unblocking m k entry false)] :=
      List.mem_append_right _ (List.mem_singleton_self _)
    refine ⟨fun v hv => ?_, Nat.lt_succ_self _, fun p hp => ?_, fun hno => ?_, fun hno => ?_⟩
    · change (s.store.erase k).lookup k = some v at hv
      simp at hv
    · rcases List.mem_append.mp hp with hin | hlast
      · exact absurd hin (hold p)
      · obtain ⟨-, rfl⟩ := Prod.mk.inj (List.mem_singleton.mp hlast)
        exact ⟨entry, false, rfl⟩
    · exact absurd hnew (hno _)
    · exact absurd hnew (hno _)

/-! ## Main result -/

/-- In every run whose steps are undisturbed: after a block of `k` at `m`, while it and the later
blocks of `k` are unexpired and nothing unblocks `k`, manager `m` has `k` blocked; and after an
unblock of `k` at `m` that has gone on to its end, while nothing blocks `k`, the store does not
have `k` and `m` does not have it blocked. -/
theorem blocks_survive_sync (o : μ → KeyManagerOptions) (is : List (Timed (SharedInput κ μ)))
    (t₀ : ℤ) (hord : OrderedFrom Timed.time t₀ is)
    (hundisturbed : Guarded (fun i s => SharedBlocks.undisturbed i s = true)
      (SharedBlocks.step o) is ({} : SharedBlocks κ μ)) :
    (∀ p q now m k d r T, p ++ ⟨now, .call (.block m k d r)⟩ :: q <+: is →
      lastClock Timed.time now q ≤ T →
      (KeyManager.blockEntry now d r).isActive T = true →
      (∀ j ∈ q, ∀ m' d' r', j.op = .call (.block m' k d' r') →
        (KeyManager.blockEntry j.time d' r').isActive T = true) →
      (∀ j ∈ q, ∀ m', j.op ≠ .call (.unblock m' k) ∧ j.op ≠ .call (.unblockAll m')) →
      (((final (SharedBlocks.step o) (p ++ ⟨now, .call (.block m k d r)⟩ :: q) {}).managers
        m).isBlocked T k).1 = true) ∧
    ∀ p q now m k T, p ++ ⟨now, .call (.unblock m k)⟩ :: q <+: is →
      lastClock Timed.time now q ≤ T →
      (∀ e ∈ (final (SharedBlocks.step o) (p ++ ⟨now, .call (.unblock m k)⟩ :: q) {}).pending,
        e.1 ≠ (final (SharedBlocks.step o) p ({} : SharedBlocks κ μ)).started) →
      (∀ j ∈ q, ∀ m' d r, j.op ≠ .call (.block m' k d r)) →
      (MemoryBlockStore.getBlock T k
        (final (SharedBlocks.step o) (p ++ ⟨now, .call (.unblock m k)⟩ :: q) {}).store).1 = none ∧
        (((final (SharedBlocks.step o) (p ++ ⟨now, .call (.unblock m k)⟩ :: q) {}).managers
          m).isBlocked T k).1 = false := by
  constructor
  · rintro p q now m k d r T ⟨rest, rfl⟩ hT hactive hlater hunblock
    have hordq := (orderedFrom_append.mp (orderedFrom_append.mp hord).1).2
    have hguard := (guarded_append.mp (guarded_append.mp hundisturbed).1).2
    rw [final_append, final_cons]
    have hstart : Standing T m k (SharedBlocks.step o ⟨now, .call (.block m k d r)⟩
        (final (SharedBlocks.step o) p {})).1 := by
      have hbegun : Standing T m k
          ((final (SharedBlocks.step o) p {}).begin now (.block m k d r)) := .start hactive
      exact hbegun.of_inherits (.of_subset (List.Subset.refl _)) hbegun.blocked hbegun.stored
    exact (hstart.final (fun i hi => (hordq.2.clock_le_lastClock i hi).trans hT) hguard.2 hunblock
      hlater).isBlocked
  · rintro p q now m k T ⟨rest, rfl⟩ hT hresolved hblock
    have hordq := (orderedFrom_append.mp (orderedFrom_append.mp hord).1).2
    have hguard := (guarded_append.mp (guarded_append.mp hundisturbed).1).2
    rw [final_append, final_cons] at hresolved ⊢
    have hstart := Lifted.start (o := o) (SharedBlocks.numbered_final o p) hguard.1
    have hend := (hstart.final hordq.2 hguard.2 hblock).mono hT
    exact ⟨hend.getBlock, hend.isBlocked fun p hp => hresolved _ hp rfl⟩

/-- Manager 0 blocks key 7, and manager 1 learns of it by a sync. -/
def learnedBlock : List (Timed (SharedInput ℕ ℕ)) :=
  [⟨0, .call (.block 0 7 1000 .manual)⟩, ⟨1, .resume 0 none⟩, ⟨10, .call (.syncBlocks 1)⟩,
    ⟨11, .resume 1 none⟩]

/-- Manager 1 unblocks the key, and syncs again. -/
theorem blocks_survive_sync_learned :
    let s := final (SharedBlocks.step fun _ => secondForTwo)
      (learnedBlock ++ [⟨20, .call (.unblock 1 7)⟩, ⟨25, .resume 2 none⟩,
        ⟨30, .call (.syncBlocks 1)⟩, ⟨31, .resume 3 none⟩]) ({} : SharedBlocks ℕ ℕ)
    (MemoryBlockStore.getBlock 40 7 s.store).1 = none ∧
      ((s.managers 1).isBlocked 40 7).1 = false := by
  have hrun := blocks_survive_sync (fun _ : ℕ => secondForTwo)
    (learnedBlock ++ [⟨20, .call (.unblock 1 7)⟩, ⟨25, .resume 2 none⟩,
      ⟨30, .call (.syncBlocks 1)⟩, ⟨31, .resume 3 none⟩]) 0 (by decide) (by decide +kernel)
  refine hrun.2 learnedBlock _ 20 1 7 40 List.prefix_rfl (by decide) (by decide +kernel) ?_
  simp

/-- A block and an unblock that come while a sync has read the store and not gone on. -/
theorem blocks_survive_sync_fails :
    let o : ℕ → KeyManagerOptions := fun _ => secondForTwo
    let lost : List (Timed (SharedInput ℕ ℕ)) :=
      [⟨0, .call (.syncBlocks 0)⟩, ⟨5, .call (.block 0 7 1000 .manual)⟩, ⟨6, .resume 1 none⟩,
        ⟨10, .resume 0 none⟩]
    let back : List (Timed (SharedInput ℕ ℕ)) :=
      [⟨0, .call (.block 0 7 1000 .manual)⟩, ⟨1, .resume 0 none⟩, ⟨5, .call (.syncBlocks 0)⟩,
        ⟨6, .call (.unblock 0 7)⟩, ⟨7, .resume 2 none⟩, ⟨8, .resume 1 none⟩]
    ((((final (SharedBlocks.step o) lost {}).managers 0).isBlocked 20 7).1 = false ∧
      (final (SharedBlocks.step o) lost {}).pending.length = 0) ∧
      (((final (SharedBlocks.step o) back {}).managers 0).isBlocked 20 7).1 = true ∧
      (final (SharedBlocks.step o) back {}).pending.length = 0 := by
  decide +kernel

end RatelimitFlex
