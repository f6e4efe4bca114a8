import RatelimitFlex.Analysis.CellCounts
import RatelimitFlex.Program.ComposedConcurrency

/-!
# What overlapping increments of mode `all` leave in the counts

Window layers over a bank, and a span of time in which no hit expires.  `weight` is what a
request adds to the count of a layer's key as it stands: its cost once the layer has
incremented for it, and nothing any more once that was rolled back.  Every event keeps the
counts at the initial ones plus the weights (`Accounts.step`), so a rollback always finds
its cost to take off.
-/

set_option autoImplicit false

namespace RatelimitFlex

open Library

variable {κ : Type} [DecidableEq κ]

/-! ## Runs -/

/-- One event, at its clock reading. -/
def Composition.allStep (c : Composition κ) (i : Timed (AllEvent κ))
    (st : AllState (StoreBank κ) κ) : AllState (StoreBank κ) κ × Unit :=
  let inner := { st.composed.inner with now := i.time }
  (c.store.allEvent i.op { st with composed := { st.composed with inner } }, ())

/-- A layer's increment does not reach the layer's `maxKeys`. -/
def Composition.AllFits (c : Composition κ) (i : Timed (AllEvent κ))
    (st : AllState (StoreBank κ) κ) : Prop :=
  match i.op with
  | .ask n j => ∀ req ∈ st.requests[n]?, ∀ spec ∈ c.specs[j]?,
      (st.composed.inner.stores j).Fits (spec.storageKey req.key)
  | _ => True

instance (c : Composition κ) :
    ∀ (i : Timed (AllEvent κ)) (st : AllState (StoreBank κ) κ), Decidable (c.AllFits i st)
  | ⟨_, .ask n j⟩, st => inferInstanceAs (Decidable (∀ req ∈ st.requests[n]?,
      ∀ spec ∈ c.specs[j]?, (st.composed.inner.stores j).Fits (spec.storageKey req.key)))
  | ⟨_, .call _ _⟩, _ => isTrue trivial
  | ⟨_, .settle _⟩, _ => isTrue trivial
  | ⟨_, .rollback _⟩, _ => isTrue trivial

/-- A window store none of whose counted hits at `t` expires by `u`, less than a window
later. -/
def MemoryStore.StaysWithin (t u : ℤ) : MemoryStore κ → Prop
  | .sliding o table => u < t + o.windowMs ∧
      ∀ k, heldStamps o u (table.state.lookup k) = heldStamps o t (table.state.lookup k)
  | .fixed o table => u < t + o.windowMs ∧
      ∀ k, ∀ e ∈ table.state.lookup k, t < e.resetTime → u < e.resetTime
  | .bucket _ _ => False

/-- A cell of a store that stays within its windows stands still. -/
theorem MemoryStore.StaysWithin.steady {t u : ℤ} {m : MemoryStore κ} (h : m.StaysWithin t u)
    {k : κ} (hlegal : (m.cell k).Legal t) : (m.cell k).Steady t u := by
  cases m with
  | sliding o table => exact ⟨h.1, h.2 k⟩
  | fixed o table => exact ⟨h.1, fun s hs => ⟨hlegal s hs, h.2 k s hs⟩⟩
  | bucket o table => exact h.elim

/-! ## What a request weighs -/

namespace AllPhase

def isAnswered : AllPhase → Bool
  | .answered _ _ => true
  | _ => false

/-- The request was allowed. -/
def isAllowed : AllPhase → Bool
  | .answered _ result => !result.isBlocked
  | _ => false

/-- The request was answered and layer `j` blocked it. -/
def isBlockedBy (j : ℕ) : AllPhase → Bool
  | .answered settled _ => settled[j]?.any blocks
  | _ => false

/-- Layer `j` has incremented for the request, and that is not rolled back. -/
def isCounted (j : ℕ) : AllPhase → Bool
  | .asking answers => (answers j).any fun r => !isRejected r
  | .rollingBack settled _ layers => settled[j]?.any blocks || decide (j ∈ layers)
  | .answered settled result => settled[j]?.any blocks || !result.isBlocked

/-- What the events keep of a request over `n` layers. -/
def Wf (n : ℕ) : AllPhase → Prop
  | .asking _ => True
  | .rollingBack settled result layers => settled.length = n ∧ isRefused settled = true ∧
      result.isBlocked = true ∧ layers.Nodup ∧ ∀ j ∈ layers, settled[j]?.any allows = true
  | .answered settled result => result.isBlocked = isRefused settled

end AllPhase

section Weight

variable (spec : LayerSpec κ) (j : ℕ) (k : κ) (req : AllRequest κ)

/-- What a request weighs in the count that layer `j` keeps under `k`. -/
def weight : ℤ :=
  if spec.storageKey req.key = k ∧ req.phase.isCounted j then req.options.sanitizedCost else 0

/-- The cost of a request that was allowed, under the layer's key. -/
def allowedCost : ℤ :=
  if spec.storageKey req.key = k ∧ req.phase.isAllowed then req.options.sanitizedCost else 0

/-- The cost of a request that layer `j` blocked, under the layer's key. -/
def blockedCost : ℤ :=
  if spec.storageKey req.key = k ∧ req.phase.isBlockedBy j then req.options.sanitizedCost else 0

variable {spec j k req}

omit [DecidableEq κ] in
/-- What allows does not block. -/
theorem blocks_of_allows {r : Except StoreError RateLimitResult} (h : allows r = true) :
    blocks r = false := by
  cases r with
  | error e => rfl
  | ok r => simpa [allows, blocks] using h

/-- Nothing weighs less than nothing. -/
theorem weight_nonneg : 0 ≤ weight spec j k req := by
  unfold weight
  split
  · exact Int.natCast_nonneg _
  · exact le_rfl

/-- In the end a request weighs its cost where it was allowed or where the layer blocked
it. -/
theorem weight_of_answered {n : ℕ} (hwf : req.phase.Wf n) (h : req.phase.isAnswered = true) :
    weight spec j k req = allowedCost spec k req + blockedCost spec j k req := by
  obtain ⟨key, options, phase⟩ := req
  cases phase with
  | asking answers => simp [AllPhase.isAnswered] at h
  | rollingBack settled result layers => simp [AllPhase.isAnswered] at h
  | answered settled result =>
    simp only [weight, allowedCost, blockedCost, AllPhase.isCounted, AllPhase.isAllowed,
      AllPhase.isBlockedBy]
    by_cases hk : spec.storageKey key = k
    · by_cases hb : settled[j]?.any blocks = true
      · have hblocked : result.isBlocked = true := by
          obtain ⟨r, hr, hrb⟩ := (Option.any_eq_true _ _).mp hb
          have hany : settled.any blocks = true :=
            List.any_eq_true.mpr ⟨r, List.mem_of_getElem? hr, hrb⟩
          rw [show result.isBlocked = isRefused settled from hwf, isRefused, hany, Bool.or_true]
        simp [hb, hblocked]
      · simp [hb]
    · simp [hk]

/-- A request that no event has touched weighs nothing. -/
theorem weight_called {key : κ} {options : RateLimitIncrementOptions} :
    weight spec j k ⟨key, options, .asking fun _ => none⟩ = 0 := by
  simp [weight, AllPhase.isCounted]

end Weight

/-! ## The invariant -/

/-- The counts are the initial ones plus what the requests weigh, and whatever a request
weighs in is pruned. -/
structure Accounts (c : Composition κ) (t u : ℤ) (initial : ℕ → MemoryStore κ)
    (stores : ℕ → MemoryStore κ) (requests : List (AllRequest κ)) : Prop where
  wf : ∀ req ∈ requests, req.phase.Wf c.specs.length
  steady : ∀ j, j < c.specs.length → ∀ k, ((stores j).cell k).Steady t u
  pruned : ∀ j spec, c.specs[j]? = some spec → ∀ req ∈ requests,
    req.phase.isCounted j = true → ((stores j).cell (spec.storageKey req.key)).Pruned t u
  count : ∀ j spec, c.specs[j]? = some spec → ∀ k, ((stores j).cell k).count u =
    ((initial j).cell k).count u + (requests.map (weight spec j k)).sum

namespace Accounts

variable {c : Composition κ} {t now u : ℤ} {initial stores : ℕ → MemoryStore κ}
  {requests : List (AllRequest κ)} {i : ℕ} {req : AllRequest κ}

/-- A new request weighs nothing. -/
theorem call (h : Accounts c t u initial stores requests) (key : κ)
    (options : RateLimitIncrementOptions) :
    Accounts c t u initial stores (requests ++ [⟨key, options, .asking fun _ => none⟩]) where
  wf := by
    intro req hreq
    rcases List.mem_append.mp hreq with hreq | hreq
    · exact h.wf req hreq
    · rw [List.mem_singleton.mp hreq]
      trivial
  steady := h.steady
  pruned := by
    intro j spec hspec req hreq hcounted
    rcases List.mem_append.mp hreq with hreq | hreq
    · exact h.pruned j spec hspec req hreq hcounted
    · rw [List.mem_singleton.mp hreq] at hcounted
      simp [AllPhase.isCounted] at hcounted
  count := by
    intro j spec hspec k
    rw [h.count j spec hspec k, List.map_append, List.sum_append]
    simp [weight_called]

/-- A request that moves on with every layer counting it as before changes nothing. -/
theorem move (h : Accounts c t u initial stores requests) (hreq : requests[i]? = some req)
    (phase : AllPhase) (hwf : phase.Wf c.specs.length)
    (hsame : ∀ j, j < c.specs.length → phase.isCounted j = req.phase.isCounted j) :
    Accounts c t u initial stores (requests.set i { req with phase }) where
  wf := by
    intro req' hreq'
    rcases List.mem_or_eq_of_mem_set hreq' with hreq' | rfl
    · exact h.wf req' hreq'
    · exact hwf
  steady := h.steady
  pruned := by
    intro j spec hspec req' hreq' hcounted
    rcases List.mem_or_eq_of_mem_set hreq' with hreq' | rfl
    · exact h.pruned j spec hspec req' hreq' hcounted
    · rw [hsame j (List.getElem?_eq_some_iff.mp hspec).1] at hcounted
      exact h.pruned j spec hspec req (List.mem_of_getElem? hreq) hcounted
  count := by
    intro j spec hspec k
    have hweight : weight spec j k { req with phase } = weight spec j k req := by
      simp only [weight, hsame j (List.getElem?_eq_some_iff.mp hspec).1]
    rw [h.count j spec hspec k, sum_map_set _ _ hreq, hweight, sub_add_cancel]

/-- A request weighs at most what is counted. -/
theorem weight_le_count (h : Accounts c t u initial stores requests) {j : ℕ}
    {spec : LayerSpec κ} (hspec : c.specs[j]? = some spec)
    (hinitial : ∀ k, 0 ≤ ((initial j).cell k).count u) (hreq : req ∈ requests) (k : κ) :
    weight spec j k req ≤ ((stores j).cell k).count u := by
  have hsum : weight spec j k req ≤ (requests.map (weight spec j k)).sum := by
    apply List.single_le_sum _ _ (List.mem_map_of_mem hreq)
    intro w hw
    obtain ⟨req', -, rfl⟩ := List.mem_map.mp hw
    exact weight_nonneg
  have := h.count j spec hspec k
  have := hinitial k
  omega

/-- An operation on one cell for one request: the cell stays pruned, and its count changes
as the request's weight does. -/
theorem touch (h : Accounts c t u initial stores requests) (hreq : requests[i]? = some req)
    {j : ℕ} {spec : LayerSpec κ} (hspec : c.specs[j]? = some spec) {m : MemoryStore κ}
    (phase : AllPhase) (hwf : phase.Wf c.specs.length) (htu : t ≤ u)
    (hother : ∀ k, k ≠ spec.storageKey req.key → m.cell k = (stores j).cell k)
    (hpruned : (m.cell (spec.storageKey req.key)).Pruned t u)
    (hsame : ∀ j', j' ≠ j → phase.isCounted j' = req.phase.isCounted j')
    (hcount : (m.cell (spec.storageKey req.key)).count u =
      ((stores j).cell (spec.storageKey req.key)).count u -
        weight spec j (spec.storageKey req.key) req +
        weight spec j (spec.storageKey req.key) { req with phase }) :
    Accounts c t u initial (Function.update stores j m) (requests.set i { req with phase }) where
  wf := by
    intro req' hreq'
    rcases List.mem_or_eq_of_mem_set hreq' with hreq' | rfl
    · exact h.wf req' hreq'
    · exact hwf
  steady := by
    intro j' hj' k
    by_cases hj : j' = j
    · subst hj
      rw [Function.update_self]
      by_cases hk : k = spec.storageKey req.key
      · rw [hk]
        exact hpruned.steady htu
      · rw [hother k hk]
        exact h.steady j' hj' k
    · rw [Function.update_of_ne hj]
      exact h.steady j' hj' k
  pruned := by
    intro j' spec' hspec' req' hreq' hcounted
    by_cases hj : j' = j
    · subst hj
      obtain rfl : spec' = spec := Option.some.inj (hspec'.symm.trans hspec)
      rw [Function.update_self]
      by_cases hk : spec'.storageKey req'.key = spec'.storageKey req.key
      · rw [hk]
        exact hpruned
      · rw [hother _ hk]
        rcases List.mem_or_eq_of_mem_set hreq' with hreq' | rfl
        · exact h.pruned j' spec' hspec' req' hreq' hcounted
        · exact absurd rfl hk
    · rw [Function.update_of_ne hj]
      rcases List.mem_or_eq_of_mem_set hreq' with hreq' | rfl
      · exact h.pruned j' spec' hspec' req' hreq' hcounted
      · rw [hsame j' hj] at hcounted
        exact h.pruned j' spec' hspec' req (List.mem_of_getElem? hreq) hcounted
  count := by
    intro j' spec' hspec' k
    rw [sum_map_set _ _ hreq]
    by_cases hj : j' = j
    · subst hj
      obtain rfl : spec' = spec := Option.some.inj (hspec'.symm.trans hspec)
      rw [Function.update_self]
      by_cases hk : k = spec'.storageKey req.key
      · rw [hk, hcount, h.count j' spec' hspec']
        ring
      · have hzero : ∀ phase, weight spec' j' k { req with phase } = 0 := by
          intro phase
          simp [weight, Ne.symm hk]
        rw [hother k hk, h.count j' spec' hspec' k, hzero phase,
          show weight spec' j' k req = 0 from hzero req.phase]
        ring
    · have hweight : weight spec' j' k { req with phase } = weight spec' j' k req := by
        simp only [weight, hsame j' hj]
      rw [Function.update_of_ne hj, h.count j' spec' hspec' k, hweight, sub_add_cancel]

/-- A layer increments for a request that has not asked it yet. -/
theorem ask {key : κ} {options : RateLimitIncrementOptions}
    {answers : ℕ → Option (Except StoreError RateLimitResult)} {j : ℕ} {spec : LayerSpec κ}
    (h : Accounts c t u initial stores requests)
    (hreq : requests[i]? = some ⟨key, options, .asking answers⟩) (hnone : answers j = none)
    (hspec : c.specs[j]? = some spec) (ht : t ≤ now) (hu : now ≤ u)
    (hfits : (stores j).Fits (spec.storageKey key)) (r : RateLimitResult) :
    Accounts c t u initial
      (Function.update stores j
        ((stores j).increment now (spec.storageKey key) (spec.incrementOptions options)).1)
      (requests.set i ⟨key, options, .asking (Function.update answers j (some (.ok r)))⟩) := by
  have hsteady := h.steady j (List.getElem?_eq_some_iff.mp hspec).1 (spec.storageKey key)
  obtain ⟨hpruned, hcount⟩ := hsteady.increment ht hu (spec.incrementOptions options)
  have hcell := @MemoryStore.cell_increment_fits _ _ _ now _ hfits (spec.incrementOptions options)
  apply h.touch hreq hspec (.asking _) trivial (ht.trans hu)
  · intro k hk
    rw [hcell, if_neg hk]
  · rw [hcell, if_pos rfl]
    exact hpruned
  · intro j' hj'
    simp only [AllPhase.isCounted, Function.update_of_ne hj']
  · rw [hcell, if_pos rfl, hcount]
    simp [weight, AllPhase.isCounted, hnone, isRejected]

/-- A rollback takes off what its request weighs. -/
theorem rollback {key : κ} {options : RateLimitIncrementOptions}
    {settled : List (Except StoreError RateLimitResult)} {result : RateLimitResult} {j : ℕ}
    {rest : List ℕ} {spec : LayerSpec κ} (h : Accounts c t u initial stores requests)
    (hinitial : ∀ k, 0 ≤ ((initial j).cell k).count u)
    (hreq : requests[i]? = some ⟨key, options, .rollingBack settled result (j :: rest)⟩)
    (hspec : c.specs[j]? = some spec) (htu : t ≤ u) :
    Accounts c t u initial
        (Function.update stores j
          ((stores j).decrement (spec.storageKey key) (spec.rollbackOptions options)))
        (requests.set i ⟨key, options, .rollingBack settled result rest⟩) ∧
      (((stores j).decrement (spec.storageKey key) (spec.rollbackOptions options)).cell
          (spec.storageKey key)).count u =
        ((stores j).cell (spec.storageKey key)).count u - options.sanitizedCost := by
  have hmem := List.mem_of_getElem? hreq
  obtain ⟨hlen, hrefused, hblocked, hnodup, hallows⟩ := h.wf _ hmem
  have hcounted : (AllPhase.rollingBack settled result (j :: rest)).isCounted j = true := by
    simp [AllPhase.isCounted]
  have hweight : weight spec j (spec.storageKey key)
      ⟨key, options, .rollingBack settled result (j :: rest)⟩ = options.sanitizedCost := by
    simp [weight, hcounted]
  have hgone : (AllPhase.rollingBack settled result rest).isCounted j = false := by
    obtain ⟨r, hr, hra⟩ := (Option.any_eq_true _ _).mp (hallows j List.mem_cons_self)
    simp [AllPhase.isCounted, hr, blocks_of_allows hra, (List.nodup_cons.mp hnodup).1]
  have hle := h.weight_le_count hspec hinitial hmem (spec.storageKey key)
  have hcost : (spec.rollbackOptions options).sanitizedCost = options.sanitizedCost :=
    sanitizedCost_matchingDecrementOptions (spec.incrementOptions options)
  rw [hweight, ← hcost] at hle
  obtain ⟨hpruned, hcount⟩ := (h.pruned j spec hspec _ hmem hcounted).decrement hle
  rw [hcost] at hcount
  have hcell : ∀ k, ((stores j).decrement (spec.storageKey key) (spec.rollbackOptions options)).cell
      k = if k = spec.storageKey key then
        ((stores j).cell (spec.storageKey key)).decrement (spec.rollbackOptions options)
      else (stores j).cell k := MemoryStore.cell_decrement _
  refine ⟨?_, ?_⟩
  · apply h.touch hreq hspec (.rollingBack settled result rest)
      ⟨hlen, hrefused, hblocked, (List.nodup_cons.mp hnodup).2,
        fun j' hj' => hallows j' (List.mem_cons_of_mem j hj')⟩ htu
    · intro k hk
      rw [hcell, if_neg hk]
    · rw [hcell, if_pos rfl]
      exact hpruned
    · intro j' hj'
      simp [AllPhase.isCounted, hj']
    · rw [hcell, if_pos rfl, hcount, hweight]
      simp [weight, hgone]
  · rw [hcell, if_pos rfl, hcount]

end Accounts

/-! ## One event -/

section Step

variable {c : Composition κ} {t u : ℤ} {initial : ℕ → MemoryStore κ}
  {i : Timed (AllEvent κ)} {st : AllState (StoreBank κ) κ}

/-- The request whose layer answered counts in it unless the layer rejected. -/
theorem isCounted_settle {settled : List (Except StoreError RateLimitResult)}
    {answers : ℕ → Option (Except StoreError RateLimitResult)} {n j : ℕ}
    (hgather : gather answers n = some settled) (hj : j < n) :
    ∃ r, settled[j]? = some r ∧ (AllPhase.asking answers).isCounted j = !isRejected r := by
  have hlen := length_gather hgather
  have hget := getElem?_gather hgather hj
  rw [List.getElem?_eq_getElem (by omega)] at hget
  refine ⟨_, List.getElem?_eq_getElem (by omega), ?_⟩
  simp [AllPhase.isCounted, ← hget]

/-- **Every event keeps the accounts.** -/
theorem Accounts.step (h : Accounts c t u initial st.composed.inner.stores st.requests)
    (hroll : c.rollbackOnBlock = true)
    (hinitial : ∀ j, j < c.specs.length → ∀ k, 0 ≤ ((initial j).cell k).count u)
    (ht : t ≤ i.time) (hu : i.time ≤ u) (hfits : c.AllFits i st) :
    Accounts c t u initial (c.allStep i st).1.composed.inner.stores
      (c.allStep i st).1.requests := by
  obtain ⟨time, ev⟩ := i
  obtain ⟨composed, requests⟩ := st
  have hlayers : c.store.layers = layersFrom 0 c.specs := rfl
  cases ev with
  | call key options => exact h.call key options
  | ask n j =>
    simp only [Composition.allStep, ComposedStore.allEvent, hlayers, getElem?_layersFrom,
      Nat.zero_add]
    cases hreq : requests[n]? with
    | none => exact h
    | some req =>
      obtain ⟨key, options, phase⟩ := req
      cases phase with
      | rollingBack settled result layers => exact h
      | answered settled result => exact h
      | asking answers =>
        cases hspec : c.specs[j]? with
        | none => exact h
        | some spec =>
          simp only [Option.map_some]
          cases hnone : answers j with
          | some r => exact h
          | none =>
            have hinc := @increment_bankStore _ _ key options
              { composed.inner with now := time } j spec
            simp only [LayerSpec.storageKey, LayerSpec.incrementOptions] at hinc
            simp only [CompositionLayer.layerKey, mergeIncOpts, Option.isSome_none,
              Bool.false_eq_true, if_false, hinc]
            cases hfail : composed.inner.failing j with
            | some e =>
              simp only [layerAnswer, layerCharged, hfail, StoreBank.put,
                Function.update_eq_self]
              apply h.move hreq (.asking _) trivial
              intro j' hj'
              by_cases hj : j' = j
              · subst hj
                simp [AllPhase.isCounted, hnone, isRejected]
              · simp [AllPhase.isCounted, hj]
            | none =>
              simp only [layerAnswer, layerCharged, hfail, StoreBank.put]
              exact h.ask hreq hnone hspec ht hu (hfits _ hreq spec hspec) _
  | settle n =>
    simp only [Composition.allStep, ComposedStore.allEvent, hlayers, length_layersFrom]
    cases hreq : requests[n]? with
    | none => exact h
    | some req =>
      obtain ⟨key, options, phase⟩ := req
      cases phase with
      | rollingBack settled result layers => exact h
      | answered settled result => exact h
      | asking answers =>
        simp only
        cases hgather : gather answers c.specs.length with
        | none => exact h
        | some settled =>
          simp only
          cases hrefused : isRefused settled with
          | true =>
            have hon : c.store.rollbackOnBlock = true := hroll
            simp only [if_true, hon]
            apply h.move hreq (.rollingBack settled _ (allowedLayers settled))
            · exact ⟨length_gather hgather, hrefused, rfl, nodup_allowedLayers settled,
                fun j hj => (Option.any_eq_true _ _).mpr (mem_allowedLayers.mp hj)⟩
            · intro j hj
              obtain ⟨r, hr, hcounted⟩ := isCounted_settle hgather hj
              rw [hcounted]
              simp only [AllPhase.isCounted, hr, Option.any_some]
              cases r with
              | error e => simp [blocks, isRejected, mem_allowedLayers, hr, allows]
              | ok r => cases hb : r.isBlocked <;>
                  simp [blocks, isRejected, mem_allowedLayers, hr, allows, hb]
          | false =>
            simp only [Bool.false_eq_true, if_false]
            apply h.move hreq (.answered settled _)
            · exact hrefused.symm
            · intro j hj
              obtain ⟨r, hr, hcounted⟩ := isCounted_settle hgather hj
              have hnot : isRejected r = false := by
                have hall := (Bool.or_eq_false_iff.mp hrefused).1
                exact Bool.eq_false_iff.mpr
                  (List.any_eq_false.mp hall r (List.mem_of_getElem? hr))
              rw [hcounted, hnot]
              simp [AllPhase.isCounted, ComposedStore.allowedAll]
  | rollback n =>
    simp only [Composition.allStep, ComposedStore.allEvent, hlayers, getElem?_layersFrom,
      Nat.zero_add]
    cases hreq : requests[n]? with
    | none => exact h
    | some req =>
      obtain ⟨key, options, phase⟩ := req
      cases phase with
      | asking answers => exact h
      | answered settled result => exact h
      | rollingBack settled result layers =>
        obtain ⟨hlen, hrefused, hblocked, -, hallows⟩ := h.wf _ (List.mem_of_getElem? hreq)
        cases layers with
        | nil =>
          apply h.move hreq (.answered settled result)
          · exact hblocked.trans hrefused.symm
          · intro j hj
            simp [AllPhase.isCounted, hblocked]
        | cons j rest =>
          have hj : j < c.specs.length := by
            obtain ⟨r, hr, -⟩ := (Option.any_eq_true _ _).mp (hallows j List.mem_cons_self)
            rw [← hlen]
            exact (List.getElem?_eq_some_iff.mp hr).1
          have hspec : c.specs[j]? = some c.specs[j] := List.getElem?_eq_getElem hj
          simp only [hspec, Option.map_some]
          exact (h.rollback (hinitial j hj) hreq hspec (ht.trans hu)).1

end Step

/-! ## Runs of overlapping requests -/

section Runs

/-- Once all requests are answered, the count of every layer and key is the initial one
plus the costs of the requests that were allowed and of those that this layer blocked. -/
def Composition.CountsSettle (c : Composition κ) (t u : ℤ) (initial : StoreBank κ)
    (st : AllState (StoreBank κ) κ) : Prop :=
  (∀ req ∈ st.requests, req.phase.isAnswered = true) →
    ∀ j spec, c.specs[j]? = some spec → ∀ k,
      storeCount u k (st.composed.inner.stores j) = storeCount t k (initial.stores j) +
        (st.requests.map (allowedCost spec k)).sum + (st.requests.map (blockedCost spec j k)).sum

/-- A rollback that is due at `time` takes the request's own cost off, no more and no
less. -/
def Composition.RollsBackExactly (c : Composition κ) (time : ℤ) (n : ℕ)
    (st : AllState (StoreBank κ) κ) : Prop :=
  ∀ key options settled result j layers spec,
    st.requests[n]? = some ⟨key, options, .rollingBack settled result (j :: layers)⟩ →
    c.specs[j]? = some spec →
    storeCount time (spec.storageKey key)
        ((c.allStep ⟨time, .rollback n⟩ st).1.composed.inner.stores j) =
      storeCount time (spec.storageKey key) (st.composed.inner.stores j) - options.sanitizedCost

/-- **Overlapping increments of mode `all` are counted once each.**  Any number of requests
come in, ask their layers, settle and roll back in any order, over window layers from which
nothing expires meanwhile, with rollback on and `maxKeys` not reached.  Once all are
answered, every layer counts what was allowed and what it blocked itself; and every
rollback on the way takes exactly its request's cost off.
SOURCE: src/composition/ComposedStore.ts:307-321, 404-524, src/stores/memory-store.ts:795-907 -/
theorem concurrent_all_counts (c : Composition κ) (hroll : c.rollbackOnBlock = true)
    (st : ComposedState (StoreBank κ) κ) (t u : ℤ) (htu : t ≤ u)
    (hreach : ∀ j, j < c.specs.length → Reachable t (st.inner.stores j))
    (hwithin : ∀ j, j < c.specs.length → (st.inner.stores j).StaysWithin t u)
    (is : List (Timed (AllEvent κ))) (hord : OrderedFrom Timed.time t is)
    (hu : ∀ i ∈ is, i.time ≤ u) (hfits : Guarded c.AllFits c.allStep is ⟨st, []⟩) :
    c.CountsSettle t u st.inner (final c.allStep is ⟨st, []⟩) ∧
      ∀ p time n rest, is = p ++ ⟨time, .rollback n⟩ :: rest →
        c.RollsBackExactly time n (final c.allStep p ⟨st, []⟩) := by
  have hsteady : ∀ j, j < c.specs.length → ∀ k, ((st.inner.stores j).cell k).Steady t u :=
    fun j hj k => (hwithin j hj).steady ((hreach j hj).legal k)
  have hinitial : ∀ j, j < c.specs.length → ∀ k, 0 ≤ ((st.inner.stores j).cell k).count u :=
    fun j hj k => (hsteady j hj k).count_nonneg
  have hstart : Accounts c t u st.inner.stores st.inner.stores [] :=
    { wf := by simp
      steady := hsteady
      pruned := by simp
      count := by simp }
  -- what holds at the start of a run holds at its end, and its clock has not run past `u`
  have hrun : ∀ js, OrderedFrom Timed.time t js → (∀ i ∈ js, i.time ≤ u) →
      Guarded c.AllFits c.allStep js ⟨st, []⟩ →
      t ≤ lastClock Timed.time t js ∧ Accounts c t u st.inner.stores
        (final c.allStep js ⟨st, []⟩).composed.inner.stores
        (final c.allStep js ⟨st, []⟩).requests := by
    intro js hjs hju hjfits
    apply final_inv (G := fun i st => c.AllFits i st ∧ i.time ≤ u)
      (I := fun now (st' : AllState (StoreBank κ) κ) => t ≤ now ∧
        Accounts c t u st.inner.stores st'.composed.inner.stores st'.requests) _
      ⟨le_rfl, hstart⟩ hjs (hjfits.and_mem hju)
    rintro now st' i ⟨hnow, h⟩ hi ⟨hifits, hiu⟩
    exact ⟨hnow.trans hi, h.step hroll hinitial (hnow.trans hi) hiu hifits⟩
  refine ⟨?_, ?_⟩
  · intro hall j spec hspec k
    obtain ⟨-, h⟩ := hrun is hord hu hfits
    have hj := (List.getElem?_eq_some_iff.mp hspec).1
    have hweights : (final c.allStep is ⟨st, []⟩).requests.map (weight spec j k) =
        (final c.allStep is ⟨st, []⟩).requests.map
          fun req => allowedCost spec k req + blockedCost spec j k req :=
      List.map_congr_left fun req hreq => weight_of_answered (h.wf req hreq) (hall req hreq)
    rw [storeCount_eq, storeCount_eq, h.count j spec hspec k, hweights, List.sum_map_add,
      (hsteady j hj k).count_eq le_rfl htu, add_assoc]
  · rintro p time n rest rfl key options settled result j layers spec hreq hspec
    obtain ⟨hp, hrest⟩ := orderedFrom_append.mp hord
    obtain ⟨hpfits, -⟩ := guarded_append.mp hfits
    obtain ⟨ht, h⟩ := hrun p hp (fun i hi => hu i (List.mem_append_left _ hi)) hpfits
    have htime : time ≤ u := hu ⟨time, .rollback n⟩ (by simp)
    have hj := (List.getElem?_eq_some_iff.mp hspec).1
    obtain ⟨hnext, hcount⟩ := h.rollback (hinitial j hj) hreq hspec htu
    have hstep : (c.allStep ⟨time, .rollback n⟩
        (final c.allStep p ⟨st, []⟩)).1.composed.inner.stores j =
        ((final c.allStep p ⟨st, []⟩).composed.inner.stores j).decrement (spec.storageKey key)
          (spec.rollbackOptions options) := by
      have hlayer : c.store.layers[j]? =
          some ⟨spec.label, bankStore j, spec.keyTransform, spec.maxRequests⟩ := by
        have := getElem?_layersFrom 0 c.specs j
        rw [hspec, Nat.zero_add] at this
        exact this
      simp only [Composition.allStep, ComposedStore.allEvent, hreq, hlayer]
      exact StoreBank.stores_put_self _ _ _
    have hlate := ht.trans hrest.1
    have hafter := (hnext.steady j hj (spec.storageKey key)).count_eq hlate htime
    rw [Function.update_self] at hafter
    rw [storeCount_eq, storeCount_eq, hstep, hafter, hcount,
      (h.steady j hj (spec.storageKey key)).count_eq hlate htime]

end Runs

/-! ## Two requests at once -/

/-- A lenient and a strict layer that must both allow. -/
def lenientAndStrict (rollbackOnBlock : Bool) : Composition ℕ where
  mode := .all
  specs := [{ label := "lenient" }, { label := "strict" }]
  rollbackOnBlock
  specs_ne := by simp
  labels_nodup := by simp
  overflow_two := by simp

/-- New stores with a cap on their keys, the first with cap ten and the others with cap
one. -/
def newStores (maxKeys : ℕ) : ComposedState (StoreBank ℕ) ℕ where
  inner :=
    { stores := fun j =>
        .fixed (if j = 0 then tenASecond else oneASecond) (KeyTable.new maxKeys)
      now := 0 }

/-- The new stores can be reached. -/
theorem newStores_reachable (maxKeys j : ℕ) : Reachable 0 ((newStores maxKeys).inner.stores j) :=
  ⟨(newStores maxKeys).inner.stores j, 0, [], ⟨maxKeys, rfl⟩, trivial, trivial, le_rfl, rfl⟩

/-- They stay within their windows. -/
theorem newStores_staysWithin (maxKeys j : ℕ) :
    ((newStores maxKeys).inner.stores j).StaysWithin 0 0 := by
  refine ⟨?_, by simp⟩
  split <;> decide

/-- Two requests at `0` that ask both layers before either settles; the strict layer blocks
the second. -/
def overlapping (key key' : ℕ) : List (Timed (AllEvent ℕ)) :=
  [.call key {}, .call key' {}, .ask 1 0, .ask 0 0, .ask 0 1, .ask 1 1, .settle 1, .settle 0,
    .rollback 1, .rollback 1].map fun ev => ⟨0, ev⟩

/-- Both layers of two requests on one key: the strict one counts the request it blocked. -/
theorem concurrent_all_counts_overlapping :
    storeCount 0 7 ((final (lenientAndStrict true).allStep (overlapping 7 7)
      ⟨newStores 0, []⟩).composed.inner.stores 0) = 1 ∧
    storeCount 0 7 ((final (lenientAndStrict true).allStep (overlapping 7 7)
      ⟨newStores 0, []⟩).composed.inner.stores 1) = 2 := by
  have h := (concurrent_all_counts (lenientAndStrict true) rfl (newStores 0) 0 0 le_rfl
    (fun j _ => newStores_reachable 0 j) (fun j _ => newStores_staysWithin 0 j)
    (overlapping 7 7) (by decide) (by decide) (by decide +kernel)).1 (by decide +kernel)
  exact ⟨(h 0 { label := "lenient" } rfl 7).trans (by decide +kernel),
    (h 1 { label := "strict" } rfl 7).trans (by decide +kernel)⟩

/-- When a second key evicts the first, its allowed request is no longer counted; and with
rollback off the lenient layer counts the request that the strict one blocked. -/
theorem concurrent_all_miscounts :
    (¬ ∀ (c : Composition ℕ) (st : ComposedState (StoreBank ℕ) ℕ) (t u : ℤ)
      (is : List (Timed (AllEvent ℕ))), c.rollbackOnBlock = true → t ≤ u →
      (∀ j, j < c.specs.length → Reachable t (st.inner.stores j)) →
      (∀ j, j < c.specs.length → (st.inner.stores j).StaysWithin t u) →
      OrderedFrom Timed.time t is → (∀ i ∈ is, i.time ≤ u) →
      c.CountsSettle t u st.inner (final c.allStep is ⟨st, []⟩)) ∧
    (¬ ∀ (c : Composition ℕ) (st : ComposedState (StoreBank ℕ) ℕ) (t u : ℤ)
      (is : List (Timed (AllEvent ℕ))), t ≤ u →
      (∀ j, j < c.specs.length → Reachable t (st.inner.stores j)) →
      (∀ j, j < c.specs.length → (st.inner.stores j).StaysWithin t u) →
      OrderedFrom Timed.time t is → (∀ i ∈ is, i.time ≤ u) →
      Guarded c.AllFits c.allStep is ⟨st, []⟩ →
      c.CountsSettle t u st.inner (final c.allStep is ⟨st, []⟩)) := by
  refine ⟨?_, ?_⟩
  · intro h
    have hsettle := h (lenientAndStrict true) (newStores 1) 0 0 (overlapping 7 8) rfl le_rfl
      (fun j _ => newStores_reachable 1 j) (fun j _ => newStores_staysWithin 1 j) (by decide)
      (by decide) (by decide +kernel) 1 { label := "strict" } rfl 7
    revert hsettle
    decide +kernel
  · intro h
    have hsettle := h (lenientAndStrict false) (newStores 0) 0 0 (overlapping 7 7) le_rfl
      (fun j _ => newStores_reachable 0 j) (fun j _ => newStores_staysWithin 0 j) (by decide)
      (by decide) (by decide +kernel) (by decide +kernel) 0 { label := "lenient" } rfl 7
    revert hsettle
    decide +kernel

end RatelimitFlex
