import RatelimitFlex.Library.TimedRun
import RatelimitFlex.Program.ComposedBank

/-!
# Increments of mode `all` that overlap

`incrementAll` awaits its layers, and other requests run meanwhile.  A request asks its
layers one by one, in any order; once all have answered it settles, and when one of them
rejected or blocked it rolls the others back one by one.  A request that nothing comes
between is `incrementAll` (`alone_eq_incrementAll`).
-/

set_option autoImplicit false

namespace RatelimitFlex

open Library

/-- Where a request stands: the answers of the layers asked so far, by layer number; all
answers, its own and the layers still to be rolled back; all answers and its own. -/
inductive AllPhase where
  | asking (answers : ℕ → Option (Except StoreError RateLimitResult))
  | rollingBack (settled : List (Except StoreError RateLimitResult)) (result : RateLimitResult)
      (layers : List ℕ)
  | answered (settled : List (Except StoreError RateLimitResult)) (result : RateLimitResult)

/-- One call of `increment`. -/
structure AllRequest (κ : Type) where
  key : κ
  options : RateLimitIncrementOptions
  phase : AllPhase

/-- The composed store and the requests in order of their calls. -/
structure AllState (σ κ : Type) where
  composed : ComposedState σ κ
  requests : List (AllRequest κ)

/-- What can happen next; a request is named by its number.  `settle` is the moment at which
`Promise.allSettled` resolves. -/
inductive AllEvent (κ : Type) where
  | call (key : κ) (options : RateLimitIncrementOptions)
  | ask (i j : ℕ)
  | settle (i : ℕ)
  | rollback (i : ℕ)

/-- The answers of the first `n` layers, when they are all in. -/
def gather (answers : ℕ → Option (Except StoreError RateLimitResult)) :
    ℕ → Option (List (Except StoreError RateLimitResult))
  | 0 => some []
  | n + 1 => (gather answers n).bind fun settled => (answers n).map fun r => settled ++ [r]

/-- The layers that answered and did not block, in order. -/
def allowedLayers (settled : List (Except StoreError RateLimitResult)) : List ℕ :=
  (List.range settled.length).filter fun j => settled[j]?.any allows

/-- What is gathered has an answer of every layer. -/
theorem length_gather {answers : ℕ → Option (Except StoreError RateLimitResult)} {n : ℕ}
    {settled : List (Except StoreError RateLimitResult)} (h : gather answers n = some settled) :
    settled.length = n := by
  induction n generalizing settled with
  | zero =>
    obtain rfl := Option.some.inj h
    rfl
  | succ n ih =>
    obtain ⟨front, hfront, hlast⟩ := Option.bind_eq_some_iff.mp h
    obtain ⟨r, -, rfl⟩ := Option.map_eq_some_iff.mp hlast
    rw [List.length_append, ih hfront]
    rfl

/-- Each is the answer of its layer. -/
theorem getElem?_gather {answers : ℕ → Option (Except StoreError RateLimitResult)} {n j : ℕ}
    {settled : List (Except StoreError RateLimitResult)} (h : gather answers n = some settled)
    (hj : j < n) : settled[j]? = answers j := by
  induction n generalizing settled with
  | zero => omega
  | succ n ih =>
    obtain ⟨front, hfront, hlast⟩ := Option.bind_eq_some_iff.mp h
    obtain ⟨r, hr, rfl⟩ := Option.map_eq_some_iff.mp hlast
    have hlen := length_gather hfront
    by_cases hn : j = n
    · subst hn
      rw [List.getElem?_append_right (by omega), hlen, Nat.sub_self, hr]
      rfl
    · rw [List.getElem?_append_left (by omega)]
      exact ih hfront (by omega)

/-- The answers of the layers are all that is gathered. -/
theorem gather_congr {answers answers' : ℕ → Option (Except StoreError RateLimitResult)} {n : ℕ}
    (h : ∀ j, j < n → answers j = answers' j) : gather answers n = gather answers' n := by
  induction n with
  | zero => rfl
  | succ n ih => rw [gather, gather, ih fun j hj => h j (by omega), h n (by omega)]

/-- The allowed layers are those that answered so. -/
theorem mem_allowedLayers {settled : List (Except StoreError RateLimitResult)} {j : ℕ} :
    j ∈ allowedLayers settled ↔ ∃ r, settled[j]? = some r ∧ allows r = true := by
  simp only [allowedLayers, List.mem_filter, List.mem_range, Option.any_eq_true]
  constructor
  · rintro ⟨-, h⟩
    exact h
  · rintro ⟨r, hr, h⟩
    exact ⟨(List.getElem?_eq_some_iff.mp hr).1, r, hr, h⟩

/-- None is listed twice. -/
theorem nodup_allowedLayers (settled : List (Except StoreError RateLimitResult)) :
    (allowedLayers settled).Nodup := List.nodup_range.filter _

namespace ComposedStore

variable {σ κ : Type} [DecidableEq κ] (c : ComposedStore σ κ)

/-- One moment of one request; one whose turn it is not does nothing.
SOURCE: src/composition/ComposedStore.ts:404-524 -/
def allEvent (ev : AllEvent κ) (st : AllState σ κ) : AllState σ κ :=
  match ev with
  | .call key options =>
    { st with requests := st.requests ++ [⟨key, options, .asking fun _ => none⟩] }
  | .ask i j =>
    match st.requests[i]?, c.layers[j]? with
    | some ⟨key, options, .asking answers⟩, some layer =>
      if (answers j).isSome then st
      else
        let r := layer.store.increment (layer.layerKey key) (mergeIncOpts layer options)
          st.composed.inner
        ⟨{ st.composed with inner := r.2 },
          st.requests.set i ⟨key, options, .asking (Function.update answers j (some r.1))⟩⟩
    | _, _ => st
  | .settle i =>
    match st.requests[i]? with
    | some ⟨key, options, .asking answers⟩ =>
      match gather answers c.layers.length with
      | some settled =>
        if isRefused settled then
          let result := c.blockedAll (c.clock st.composed.inner) settled
          let layers := if c.rollbackOnBlock then allowedLayers settled else []
          ⟨st.composed, st.requests.set i ⟨key, options, .rollingBack settled result layers⟩⟩
        else
          let result := c.allowedAll (c.clock st.composed.inner) settled
          ⟨pushFrame key (List.range c.layers.length) st.composed,
            st.requests.set i ⟨key, options, .answered settled result⟩⟩
      | none => st
    | _ => st
  | .rollback i =>
    match st.requests[i]? with
    | some ⟨key, options, .rollingBack settled result []⟩ =>
      { st with requests := st.requests.set i ⟨key, options, .answered settled result⟩ }
    | some ⟨key, options, .rollingBack settled result (j :: rest)⟩ =>
      match c.layers[j]? with
      | some layer =>
        ⟨{ st.composed with inner := rollbackSuccess key options layer st.composed.inner },
          st.requests.set i ⟨key, options, .rollingBack settled result rest⟩⟩
      | none => st
    | _ => st

/-! ## A request that nothing comes between -/

/-- The events of a request, one after the other. -/
def allEvents (evs : List (AllEvent κ)) (st : AllState σ κ) : AllState σ κ :=
  evs.foldl (fun st ev => c.allEvent ev st) st

/-- The events of two stretches. -/
theorem allEvents_append (evs evs' : List (AllEvent κ)) (st : AllState σ κ) :
    c.allEvents (evs ++ evs') st = c.allEvents evs' (c.allEvents evs st) :=
  List.foldl_append

variable {c} {key : κ} {options : RateLimitIncrementOptions}

/-- Asking the layers that are left, in order, is their `incrementLayers`. -/
theorem allEvents_ask (reqs : List (AllRequest κ)) {pre rest : List (CompositionLayer σ κ)}
    (hlayers : c.layers = pre ++ rest) {answers : ℕ → Option (Except StoreError RateLimitResult)}
    {front : List (Except StoreError RateLimitResult)}
    (hfront : gather answers pre.length = some front)
    (hnone : ∀ j, pre.length ≤ j → answers j = none) (composed : ComposedState σ κ) :
    ∃ answers', gather answers' c.layers.length =
        some (front ++ (incrementLayers key options rest composed.inner).1) ∧
      c.allEvents ((List.range' pre.length rest.length).map (AllEvent.ask reqs.length))
          ⟨composed, reqs ++ [⟨key, options, .asking answers⟩]⟩ =
        ⟨{ composed with inner := (incrementLayers key options rest composed.inner).2 },
          reqs ++ [⟨key, options, .asking answers'⟩]⟩ := by
  induction rest generalizing pre answers front composed with
  | nil =>
    refine ⟨answers, ?_, rfl⟩
    simpa [hlayers, incrementLayers] using hfront
  | cons layer rest ih =>
    have hlayer : c.layers[pre.length]? = some layer := by simp [hlayers]
    set r := layer.store.increment (layer.layerKey key) (mergeIncOpts layer options)
      composed.inner
    have hgather : gather (Function.update answers pre.length (some r.1)) (pre ++ [layer]).length =
        some (front ++ [r.1]) := by
      have hsame : gather (Function.update answers pre.length (some r.1)) pre.length =
          gather answers pre.length :=
        gather_congr fun j hj => Function.update_of_ne (by omega) _ _
      rw [List.length_append, List.length_singleton, gather, hsame, hfront]
      simp
    obtain ⟨answers', hall, hrun⟩ := @ih (pre ++ [layer]) (by simp [hlayers])
      (Function.update answers pre.length (some r.1)) (front ++ [r.1]) hgather
      (by
        intro j hj
        rw [List.length_append, List.length_singleton] at hj
        rw [Function.update_of_ne (by omega)]
        exact hnone j (by omega))
      { composed with inner := r.2 }
    refine ⟨answers', ?_, ?_⟩
    · rw [hall, List.append_assoc]
      rfl
    · rw [List.length_cons, List.range'_succ, List.map_cons]
      have hone : c.allEvent (.ask reqs.length pre.length)
          ⟨composed, reqs ++ [⟨key, options, .asking answers⟩]⟩ =
          ⟨{ composed with inner := r.2 }, reqs ++
            [⟨key, options, .asking (Function.update answers pre.length (some r.1))⟩]⟩ := by
        simp only [allEvent, List.getElem?_concat_length, hlayer, hnone _ le_rfl,
          Option.isSome_none, Bool.false_eq_true, if_false]
        simp [r]
      simp only [allEvents, List.foldl_cons, hone] at hrun ⊢
      rw [List.length_append, List.length_singleton] at hrun
      rw [hrun]
      rfl

/-- Rolling back the layers that are left, in order, is their `rollbackAllowed`. -/
theorem allEvents_rollback (reqs : List (AllRequest κ))
    (settled : List (Except StoreError RateLimitResult)) (result : RateLimitResult)
    {pre rest : List (CompositionLayer σ κ)} (hlayers : c.layers = pre ++ rest)
    (hlen : settled.length = c.layers.length) (composed : ComposedState σ κ) :
    ∃ n, c.allEvents (List.replicate n (AllEvent.rollback reqs.length)) ⟨composed, reqs ++ [⟨key, options, .rollingBack settled result
          ((List.range' pre.length rest.length).filter fun j => settled[j]?.any allows)⟩]⟩ =
      ⟨{ composed with
          inner := rollbackAllowed key options (rest.zip (settled.drop pre.length))
            composed.inner },
        reqs ++ [⟨key, options, .answered settled result⟩]⟩ := by
  induction rest generalizing pre composed with
  | nil => exact ⟨1, by simp [allEvents, allEvent, rollbackAllowed]⟩
  | cons layer rest ih =>
    have hlayer : c.layers[pre.length]? = some layer := by simp [hlayers]
    have hj : pre.length < settled.length := by simp [hlen, hlayers]
    have hih := @ih (pre ++ [layer]) (by simp [hlayers])
    rw [List.length_append, List.length_singleton] at hih
    rw [List.length_cons, List.range'_succ, List.drop_eq_getElem_cons hj, List.zip_cons_cons,
      rollbackAllowed]
    cases hallow : allows settled[pre.length] with
    | false =>
      rw [List.filter_cons_of_neg (by simp [List.getElem?_eq_getElem hj, hallow])]
      simp only [Bool.false_eq_true, if_false]
      exact hih composed
    | true =>
      rw [List.filter_cons_of_pos (by simp [List.getElem?_eq_getElem hj, hallow]),
        if_pos rfl]
      obtain ⟨n, hn⟩ := hih { composed with
        inner := rollbackSuccess key options layer composed.inner }
      refine ⟨n + 1, ?_⟩
      rw [← hn, List.replicate_succ, allEvents, List.foldl_cons]
      simp [allEvents, allEvent, hlayer]

/-- A request that runs from its call to its answer with nothing in between is
`incrementAll`. -/
theorem alone_eq_incrementAll (st : AllState σ κ) :
    ∃ evs settled, c.allEvents evs (c.allEvent (.call key options) st) =
      ⟨(c.incrementAll key options st.composed).2, st.requests ++
        [⟨key, options, .answered settled (c.incrementAll key options st.composed).1⟩]⟩ := by
  obtain ⟨answers, hgather, hask⟩ := @allEvents_ask _ _ _ c key options
    st.requests [] _ rfl (fun _ => none) [] rfl (fun _ _ => rfl)
    st.composed
  rw [List.nil_append] at hgather
  set settled := (incrementLayers key options c.layers st.composed.inner).1 with hsettled
  set inner := (incrementLayers key options c.layers st.composed.inner).2 with hinner
  have hlen := length_gather hgather
  suffices hrest : ∃ evs, c.allEvents evs
      ⟨{ st.composed with inner }, st.requests ++ [⟨key, options, .asking answers⟩]⟩ =
      ⟨(c.incrementAll key options st.composed).2, st.requests ++
        [⟨key, options, .answered settled (c.incrementAll key options st.composed).1⟩]⟩ by
    obtain ⟨evs, hevs⟩ := hrest
    refine ⟨(List.range' 0 c.layers.length).map (.ask st.requests.length) ++ evs, settled, ?_⟩
    rw [allEvents_append]
    exact (congrArg (c.allEvents evs) hask).trans hevs
  cases hrefused : isRefused settled with
  | false =>
    have hnot : (settled.any isRejected || settled.any blocks) = false := hrefused
    refine ⟨[.settle st.requests.length], ?_⟩
    simp only [allEvents, List.foldl_cons, List.foldl_nil, allEvent, List.getElem?_concat_length,
      hgather, hrefused, Bool.false_eq_true, if_false, incrementAll, ← hsettled, ← hinner, hnot]
    simp
  | true =>
    have hyes : (settled.any isRejected || settled.any blocks) = true := hrefused
    cases hon : c.rollbackOnBlock with
    | false =>
      refine ⟨[.settle st.requests.length, .rollback st.requests.length], ?_⟩
      simp only [allEvents, List.foldl_cons, List.foldl_nil, allEvent,
        List.getElem?_concat_length, hgather, hrefused, if_true, incrementAll, ← hsettled,
        ← hinner, hyes, hon, Bool.false_eq_true, if_false]
      simp
    | true =>
      obtain ⟨n, hroll⟩ := @allEvents_rollback _ _ _ c key options st.requests
        settled (c.blockedAll (c.clock inner) settled) [] _ rfl hlen
        { st.composed with inner }
      have hrange : allowedLayers settled =
          (List.range' 0 c.layers.length).filter fun j => settled[j]?.any allows := by
        rw [allowedLayers, hlen, List.range_eq_range']
      have hsettle : c.allEvent (.settle st.requests.length)
          ⟨{ st.composed with inner }, st.requests ++ [⟨key, options, .asking answers⟩]⟩ =
          ⟨{ st.composed with inner }, st.requests ++ [⟨key, options, .rollingBack settled
            (c.blockedAll (c.clock inner) settled) ((List.range' 0 c.layers.length).filter
              fun j => settled[j]?.any allows)⟩]⟩ := by
        simp only [allEvent, List.getElem?_concat_length, hgather, hrefused, if_true, hon]
        simp [hrange]
      refine ⟨.settle st.requests.length :: List.replicate n (.rollback st.requests.length), ?_⟩
      rw [allEvents, List.foldl_cons, hsettle]
      refine hroll.trans ?_
      simp only [incrementAll, ← hsettled, ← hinner, hyes, if_true, hon]
      simp

end ComposedStore

end RatelimitFlex
