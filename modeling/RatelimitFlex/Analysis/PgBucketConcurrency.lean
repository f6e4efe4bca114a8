import RatelimitFlex.Analysis.RowExpiry
import RatelimitFlex.Program.PgTransactions

/-!
# Concurrent token bucket increments in some order

As long as no two increments in flight have found the key without a row, at most one
transaction is between its select and its commit, and what it has read is the committed
row (`Serial`).  Then the increments are answered as if they ran one after the other in
the order of their commits.  Two that both found no row each start from a full bucket, and
the second upsert overwrites the first.
-/

set_option autoImplicit false

namespace RatelimitFlex

open Library Bucket

namespace PgBucketKey

variable {o : TokenBucketOptions} {row₀ : Option PgBucketRow} {s : PgBucketKey}

/-! ## The increments one after the other -/

/-- An increment that nothing runs beside, with its clock reading and cost. -/
def alone (o : TokenBucketOptions) (q : ℤ × ℕ) (row : Option PgBucketRow) :
    Option PgBucketRow × RateLimitResult :=
  let r := PgStore.bucketUpsert o q.1 q.2 (PgStore.selectedBucket o q.1 row)
  (some r.1, r.2)

/-- The transaction is past its select and not committed. -/
def inFlight : TxPhase → Bool
  | .selected _ => true
  | .upserted _ _ => true
  | _ => false

/-- No select finds the key without a row while another increment that did so is in
flight. -/
def selectsAlone (e : TxEvent) (s : PgBucketKey) : Prop :=
  match e with
  | .select i => ∀ now cost, s.txs i = some ⟨now, cost, .started⟩ → s.row = none →
      ∀ j tx, s.txs j = some tx → inFlight tx.phase = false
  | _ => True

/-! ## The invariant -/

/-- What a transaction in flight has read and written. -/
def Reads (o : TokenBucketOptions) (s : PgBucketKey) (i : ℕ) (tx : BucketTx) : Prop :=
  match tx.phase with
  | .selected row => row = s.row ∧ (s.row ≠ none → s.lock = some i)
  | .upserted row result => s.lock = some i ∧
      (row, result) =
        PgStore.bucketUpsert o tx.now tx.cost (PgStore.selectedBucket o tx.now s.row)
  | _ => True

/-- The increments of `order` have committed one after the other; at most one is in flight,
it holds the lock or there is none, and it has read the row they left. -/
structure Serial (o : TokenBucketOptions) (row₀ : Option PgBucketRow) (order : List ℕ)
    (s : PgBucketKey) : Prop where
  nodup : order.Nodup
  mem : ∀ i, i ∈ order ↔ (s.answer i).isSome
  answers : order.map s.answer = (outputs (alone o) (order.map s.request) row₀).map some
  row : s.row = final (alone o) (order.map s.request) row₀
  unique : ∀ i j tx tx', s.txs i = some tx → s.txs j = some tx' → inFlight tx.phase = true →
    inFlight tx'.phase = true → i = j
  reads : ∀ i tx, s.txs i = some tx → Reads o s i tx
  lock : ∀ i, s.lock = some i → ∃ tx, s.txs i = some tx ∧ inFlight tx.phase = true

/-- A new run is serial. -/
theorem serial_new (o : TokenBucketOptions) (row₀ : Option PgBucketRow) :
    Serial o row₀ [] { row := row₀ } where
  nodup := List.nodup_nil
  mem := by simp [answer]
  answers := rfl
  row := rfl
  unique := by simp
  reads := by simp
  lock := by simp

section Move

variable {i j : ℕ} {tx tx' : BucketTx}

/-- Moving on changes no row. -/
@[simp] theorem row_move (i : ℕ) (tx : BucketTx) (s : PgBucketKey) : (s.move i tx).row = s.row :=
  rfl

/-- Nor the lock. -/
@[simp] theorem lock_move (i : ℕ) (tx : BucketTx) (s : PgBucketKey) :
    (s.move i tx).lock = s.lock := rfl

/-- The transaction that moves on. -/
@[simp] theorem txs_move_self (i : ℕ) (tx : BucketTx) (s : PgBucketKey) :
    (s.move i tx).txs i = some tx := by
  simp [move]

/-- The others stay. -/
theorem txs_move_of_ne (h : j ≠ i) (tx : BucketTx) (s : PgBucketKey) :
    (s.move i tx).txs j = s.txs j := by
  simp [move, h]

end Move

/-- The answers and requests of the committed increments are read off their transactions. -/
theorem answers_congr (s s' : PgBucketKey) (order : List ℕ)
    (h : ∀ i ∈ order, s'.txs i = s.txs i) :
    order.map s'.answer = order.map s.answer ∧ order.map s'.request = order.map s.request := by
  refine ⟨List.map_congr_left fun i hi => ?_, List.map_congr_left fun i hi => ?_⟩
  · simp only [answer, h i hi]
  · simp only [request, h i hi]

/-- A transaction that is not under way has read nothing. -/
theorem reads_of_not_inFlight {i : ℕ} {tx : BucketTx} (h : inFlight tx.phase = false) :
    Reads o s i tx := by
  unfold Reads
  cases hp : tx.phase <;> simp_all [inFlight]

/-- Whoever is in flight over a row holds its lock. -/
theorem lock_of_inFlight {i : ℕ} {tx : BucketTx} (h : Reads o s i tx) (hrow : s.row ≠ none)
    (hfly : inFlight tx.phase = true) : s.lock = some i := by
  unfold Reads at h
  cases hp : tx.phase with
  | started => simp [hp, inFlight] at hfly
  | selected row =>
    rw [hp] at h
    exact h.2 hrow
  | upserted row result =>
    rw [hp] at h
    exact h.1
  | committed result => simp [hp, inFlight] at hfly

/-- One that has not committed has no answer. -/
theorem answer_eq_none {i : ℕ} {tx : BucketTx} (htx : s.txs i = some tx)
    (h : ∀ result, tx.phase ≠ .committed result) : s.answer i = none := by
  obtain ⟨now, cost, phase⟩ := tx
  cases phase with
  | committed result => exact absurd rfl (h result)
  | _ => simp [answer, htx]

variable {order : List ℕ}

/-- It is not in the order either. -/
theorem Serial.not_mem (h : Serial o row₀ order s) {i : ℕ} (hi : s.answer i = none) :
    i ∉ order := by
  intro hmem
  have := (h.mem i).mp hmem
  simp [hi] at this

/-- The one transaction in flight moves on, short of its commit. -/
theorem Serial.fly (h : Serial o row₀ order s) {i : ℕ} (tx : BucketTx) (lock : Option ℕ)
    (hi : s.answer i = none)
    (halone : ∀ j tx, j ≠ i → s.txs j = some tx → inFlight tx.phase = false)
    (hfly : inFlight tx.phase = true) (hlock : lock = none ∨ lock = some i)
    (hreads : Reads o { s.move i tx with lock } i tx) :
    Serial o row₀ order { s.move i tx with lock } := by
  set s' : PgBucketKey := { s.move i tx with lock } with hs'
  have hself : s'.txs i = some tx := txs_move_self i tx s
  have hother : ∀ j, j ≠ i → s'.txs j = s.txs j := fun j hj => txs_move_of_ne hj tx s
  have hnone : s'.answer i = none :=
    answer_eq_none hself fun result hc => by simp [hc, inFlight] at hfly
  have hmem := h.not_mem hi
  obtain ⟨hans, hreq⟩ := answers_congr s s' order
    fun j hj => hother j fun hji => hmem (hji ▸ hj)
  have hnotfly : ∀ j tx', j ≠ i → s'.txs j = some tx' → inFlight tx'.phase = false :=
    fun j tx' hj htx' => halone j tx' hj (hother j hj ▸ htx')
  refine ⟨h.nodup, fun j => ?_, ?_, ?_, ?_, ?_, ?_⟩
  · by_cases hj : j = i
    · subst hj
      simp [hnone, hmem]
    · have : s'.answer j = s.answer j := by simp only [answer, hother j hj]
      rw [this]
      exact h.mem j
  · rw [hans, hreq]
    exact h.answers
  · rw [hreq]
    exact h.row
  · intro j k txj txk hj hk hfj hfk
    by_cases hji : j = i
    · by_cases hki : k = i
      · rw [hji, hki]
      · simp [hnotfly k txk hki hk] at hfk
    · simp [hnotfly j txj hji hj] at hfj
  · intro j txj hj
    by_cases hji : j = i
    · subst hji
      obtain rfl := Option.some.inj (hself.symm.trans hj)
      exact hreads
    · exact reads_of_not_inFlight (hnotfly j txj hji hj)
  · intro j hj
    rcases hlock with rfl | rfl
    · simp [hs'] at hj
    · obtain rfl : i = j := by simpa [hs'] using hj
      exact ⟨tx, hself, hfly⟩

/-- A new transaction changes nothing for the others. -/
theorem Serial.start (h : Serial o row₀ order s) (i : ℕ) (now : ℤ) (cost : ℕ) :
    Serial o row₀ order (s.start i now cost) := by
  cases hi : s.txs i with
  | some tx => simpa only [PgBucketKey.start, hi] using h
  | none =>
    simp only [PgBucketKey.start, hi]
    set tx : BucketTx := ⟨now, cost, .started⟩
    have hnone : s.answer i = none := by simp [answer, hi]
    have hmem := h.not_mem hnone
    have hother : ∀ j, j ≠ i → (s.move i tx).txs j = s.txs j := fun j hj => txs_move_of_ne hj tx s
    obtain ⟨hans, hreq⟩ := answers_congr s (s.move i tx) order
      fun j hj => hother j fun hji => hmem (hji ▸ hj)
    have hold : ∀ j txj, (s.move i tx).txs j = some txj → inFlight txj.phase = true →
        s.txs j = some txj := by
      intro j txj hj hfj
      by_cases hji : j = i
      · subst hji
        obtain rfl := Option.some.inj ((txs_move_self _ tx s).symm.trans hj)
        simp [tx, inFlight] at hfj
      · rwa [hother j hji] at hj
    refine ⟨h.nodup, fun j => ?_, ?_, ?_, ?_, ?_, ?_⟩
    · by_cases hj : j = i
      · subst hj
        have : (s.move j tx).answer j = none :=
          answer_eq_none (txs_move_self j tx s) (by simp [tx])
        simp [this, hmem]
      · have : (s.move i tx).answer j = s.answer j := by simp only [answer, hother j hj]
        rw [this]
        exact h.mem j
    · rw [hans, hreq]
      exact h.answers
    · rw [hreq]
      exact h.row
    · intro j k txj txk hj hk hfj hfk
      exact h.unique j k txj txk (hold j txj hj hfj) (hold k txk hk hfk) hfj hfk
    · intro j txj hj
      cases hfj : inFlight txj.phase with
      | false => exact reads_of_not_inFlight hfj
      | true => exact h.reads j txj (hold j txj hj hfj)
    · intro j hj
      obtain ⟨txj, htxj, hfj⟩ := h.lock j hj
      refine ⟨txj, ?_, hfj⟩
      have hji : j ≠ i := by
        rintro rfl
        rw [hi] at htxj
        simp at htxj
      rw [hother j hji, htxj]

/-- A select reads the committed row, and then nobody else is in flight. -/
theorem Serial.select (h : Serial o row₀ order s) (i : ℕ) (halone : selectsAlone (.select i) s) :
    Serial o row₀ order (s.select i) := by
  unfold PgBucketKey.select
  split
  · next now cost htx =>
    have hi : s.answer i = none := answer_eq_none htx (by simp)
    split
    · next hrow =>
      have hnone := halone now cost htx hrow
      have hlock : s.lock = none := by
        cases hl : s.lock with
        | none => rfl
        | some j =>
          obtain ⟨tx, htxj, hfly⟩ := h.lock j hl
          rw [hnone j tx htxj] at hfly
          simp at hfly
      have := h.fly ⟨now, cost, .selected none⟩ none hi
        (fun j tx _ htxj => hnone j tx htxj) rfl (Or.inl rfl)
        ⟨hrow.symm, fun hne => absurd hrow hne⟩
      rwa [← hlock] at this
    · next row hrow =>
      split
      · next hlock =>
        have hsome : s.row ≠ none := by simp [hrow]
        refine h.fly _ _ hi (fun j tx _ htxj => ?_) rfl (Or.inr rfl) ⟨hrow.symm, fun _ => rfl⟩
        by_contra hfly
        have := lock_of_inFlight (h.reads j tx htxj) hsome (by simpa using hfly)
        simp [hlock] at this
      · exact h
  · exact h

/-- An upsert writes from the committed row. -/
theorem Serial.upsert (h : Serial o row₀ order s) (i : ℕ) :
    Serial o row₀ order (s.upsert o i) := by
  unfold PgBucketKey.upsert
  split
  · next now cost row htx =>
    have hi : s.answer i = none := answer_eq_none htx (by simp)
    obtain ⟨hrow, -⟩ : row = s.row ∧ _ := h.reads i _ htx
    split
    · refine h.fly _ _ hi (fun j tx hji htxj => ?_) rfl (Or.inr rfl) ⟨rfl, ?_⟩
      · by_contra hfly
        exact hji (h.unique j i tx _ htxj htx (by simpa using hfly) rfl)
      · rw [hrow]
        rfl
    · exact h
  · exact h

/-- A commit appends its increment to the order. -/
theorem Serial.commit (h : Serial o row₀ order s) (i : ℕ) :
    ∃ order', Serial o row₀ order' (s.commit i) := by
  unfold PgBucketKey.commit
  split
  · next now cost row result htx =>
    refine ⟨order ++ [i], ?_⟩
    obtain ⟨-, hwrite⟩ : _ ∧ (row, result) = _ := h.reads i _ htx
    have hi : s.answer i = none := answer_eq_none htx (by simp)
    have hmem := h.not_mem hi
    set tx : BucketTx := ⟨now, cost, .committed result⟩ with htxdef
    set s' : PgBucketKey := { s.move i tx with row := some row, lock := none } with hs'
    have hself : s'.txs i = some tx := txs_move_self i tx s
    have hother : ∀ j, j ≠ i → s'.txs j = s.txs j := fun j hj => txs_move_of_ne hj tx s
    obtain ⟨hans, hreq⟩ := answers_congr s s' order
      fun j hj => hother j fun hji => hmem (hji ▸ hj)
    have hansi : s'.answer i = some result := by simp [answer, hself, htxdef]
    have hreqi : s'.request i = (now, cost) := by simp [request, hself, htxdef]
    have halone : alone o (now, cost) s.row = (some row, result) := by
      simp only [alone, ← hwrite]
    have hnotfly : ∀ j txj, s'.txs j = some txj → inFlight txj.phase = false := by
      intro j txj hj
      by_cases hji : j = i
      · subst hji
        obtain rfl := Option.some.inj (hself.symm.trans hj)
        rfl
      · rw [hother j hji] at hj
        by_contra hfly
        exact hji (h.unique j i txj _ hj htx (by simpa using hfly) rfl)
    refine ⟨?_, fun j => ?_, ?_, ?_, ?_, fun j txj hj => reads_of_not_inFlight (hnotfly j txj hj),
      by simp [hs']⟩
    · exact List.nodup_append.mpr ⟨h.nodup, List.nodup_singleton i, by
        rintro a ha b hb rfl
        exact hmem (List.mem_singleton.mp hb ▸ ha)⟩
    · by_cases hj : j = i
      · subst hj
        simp [hansi]
      · have : s'.answer j = s.answer j := by simp only [answer, hother j hj]
        rw [this, ← h.mem j]
        simp [hj]
    · rw [List.map_append, List.map_append, outputs_append, List.map_append, hans, hreq,
        h.answers, ← h.row]
      simp [hansi, hreqi, halone]
    · rw [List.map_append, final_append, hreq, ← h.row]
      simp only [List.map_cons, List.map_nil, final_cons, final_nil, hreqi, halone]
      rfl
    · intro j k txj txk hj _ hfj _
      simp [hnotfly j txj hj] at hfj
  · exact ⟨order, h⟩

/-- One statement keeps the increments serial. -/
theorem Serial.step (h : Serial o row₀ order s) (e : TxEvent) (halone : selectsAlone e s) :
    ∃ order', Serial o row₀ order' (step o e s).1 := by
  cases e with
  | start i now cost => exact ⟨order, h.start i now cost⟩
  | select i => exact ⟨order, h.select i halone⟩
  | upsert i => exact ⟨order, h.upsert i⟩
  | commit i => exact h.commit i

/-- **Every interleaving of whole transactions is serial.** -/
theorem serial_final (h : Serial o row₀ order s) {es : List TxEvent}
    (halone : Guarded selectsAlone (PgBucketKey.step o) es s) :
    ∃ order', Serial o row₀ order' (final (PgBucketKey.step o) es s) := by
  induction es generalizing s order with
  | nil => exact ⟨order, h⟩
  | cons e es ih =>
    obtain ⟨order', h'⟩ := h.step e halone.1
    exact ih h' halone.2

/-! ## What the order allows -/

/-- The cost of the increments that were not blocked. -/
def allowedCost : List (ℤ × ℕ) → List RateLimitResult → ℤ
  | q :: qs, r :: rs => (if r.isBlocked then 0 else (q.2 : ℤ)) + allowedCost qs rs
  | _, _ => 0

/-- The tokens there are for increments at clock readings from `m` to `M`: those of the row,
or of a full bucket, and a refill for every whole interval. -/
def tokensAvailable (o : TokenBucketOptions) (m M : ℤ) : Option PgBucketRow → ℤ
  | none => o.bucketSize + max 0 ((M - m) / o.interval) * o.tokensPerInterval
  | some row => row.tokens + max 0 ((M - row.lastRefillAt) / o.interval) * o.tokensPerInterval

/-- What was allowed is what was served. -/
theorem allowedCost_eq (qs : List (ℤ × ℕ)) (rs : List RateLimitResult) :
    allowedCost qs rs = servedCost qs (rs.map fun r => !r.isBlocked) := by
  induction qs generalizing rs with
  | nil => simp [allowedCost, servedCost]
  | cons q qs ih =>
    cases rs with
    | nil => rfl
    | cons r rs =>
      simp only [allowedCost, List.map_cons, servedCost, ih]
      cases r.isBlocked <;> rfl

/-- An increment alone serves its request. -/
theorem alone_eq (q : ℤ × ℕ) (row : Option PgBucketRow) :
    serveStep o q (row.map PgStore.rowView.bucket) =
      ((alone o q row).1.map PgStore.rowView.bucket, !(alone o q row).2.isBlocked) := by
  simp only [serveStep, alone, PgStore.bucketUpsert_isBlocked, Bool.not_not, Option.map_some,
    (PgStore.bucketUpsert_eq o q.1 q.2 row).1]

/-- It is no more than the tokens there were. -/
theorem allowedCost_le {m M : ℤ} {qs : List (ℤ × ℕ)} (hqs : ∀ q ∈ qs, m ≤ q.1 ∧ q.1 ≤ M)
    (hrow : ∀ r ∈ row₀, 0 ≤ r.tokens) :
    allowedCost qs (outputs (alone o) qs row₀) ≤ tokensAvailable o m M row₀ := by
  have havail : tokensAvailable o m M row₀ =
      available o m M (row₀.map PgStore.rowView.bucket) := by
    cases row₀ <;> rfl
  rw [allowedCost_eq, havail, ← (run_view (alone o) (Option.map PgStore.rowView.bucket)
    (fun r => !r.isBlocked) alone_eq qs row₀).1]
  refine servedCost_le hqs fun b hb => ?_
  obtain ⟨r, hr, rfl⟩ := Option.map_eq_some_iff.mp hb
  exact hrow r hr

/-- Over a row every select is alone: it can only wait for its lock. -/
theorem guarded_of_row (es : List TxEvent) {s : PgBucketKey} (h : s.row ≠ none) :
    Guarded selectsAlone (PgBucketKey.step o) es s := by
  induction es generalizing s with
  | nil => trivial
  | cons e es ih =>
    refine ⟨?_, ih ?_⟩
    · cases e with
      | select i => exact fun _ _ _ hnone => absurd hnone h
      | _ => trivial
    · cases e with
      | start i now cost =>
        simp only [PgBucketKey.step, PgBucketKey.start]
        split <;> exact h
      | select i =>
        simp only [PgBucketKey.step, PgBucketKey.select]
        repeat' split
        all_goals exact h
      | upsert i =>
        simp only [PgBucketKey.step, PgBucketKey.upsert]
        repeat' split
        all_goals exact h
      | commit i =>
        simp only [PgBucketKey.step, PgBucketKey.commit]
        split
        · simp
        · exact h

end PgBucketKey

/-! ## Main results -/

/-- **Concurrent increments of one key.**  In every interleaving of any number of increments
in which no select finds the key without a row while another increment that did so is in
flight, the increments that have committed are answered, and leave the row, as if they ran
one after the other in some order; and those allowed cost at most the tokens there are.
Where the row exists at the start no select finds none.
SOURCE: src/stores/postgres/PgStore.ts:181-272, 762-790 -/
theorem pgBucket_concurrent_sequential (o : TokenBucketOptions) (row₀ : Option PgBucketRow)
    (es : List TxEvent) :
    (row₀ ≠ none → Guarded PgBucketKey.selectsAlone (PgBucketKey.step o) es { row := row₀ }) ∧
    (Guarded PgBucketKey.selectsAlone (PgBucketKey.step o) es { row := row₀ } →
      ∀ s, s = final (PgBucketKey.step o) es { row := row₀ } →
      ∃ order : List ℕ, order.Nodup ∧ (∀ i, i ∈ order ↔ (s.answer i).isSome) ∧
        order.map s.answer =
          (outputs (PgBucketKey.alone o) (order.map s.request) row₀).map some ∧
        s.row = final (PgBucketKey.alone o) (order.map s.request) row₀ ∧
        ∀ m M, (∀ i ∈ order, m ≤ (s.request i).1 ∧ (s.request i).1 ≤ M) →
          (∀ r ∈ row₀, 0 ≤ r.tokens) →
          PgBucketKey.allowedCost (order.map s.request)
            (outputs (PgBucketKey.alone o) (order.map s.request) row₀) ≤
              PgBucketKey.tokensAvailable o m M row₀) := by
  refine ⟨fun hrow => PgBucketKey.guarded_of_row es hrow, ?_⟩
  rintro halone s rfl
  obtain ⟨order, h⟩ := PgBucketKey.serial_final (PgBucketKey.serial_new o row₀) halone
  refine ⟨order, h.nodup, h.mem, h.answers, h.row, fun m M hm hrow => ?_⟩
  refine PgBucketKey.allowedCost_le (fun q hq => ?_) hrow
  obtain ⟨i, hi, rfl⟩ := List.mem_map.mp hq
  exact hm i hi

/-- Two increments of a new key, the second of which starts once the first has committed. -/
theorem pgBucket_concurrent_sequential_twoTurns :
    ∃ order : List ℕ, (∀ i, i ∈ order ↔
      ((final (PgBucketKey.step tenAtMost) [.start 0 0 10, .select 0, .start 1 0 10, .upsert 0,
        .commit 0, .select 1, .upsert 1, .commit 1] { row := none }).answer i).isSome) := by
  have halone : Guarded PgBucketKey.selectsAlone (PgBucketKey.step tenAtMost)
      [.start 0 0 10, .select 0, .start 1 0 10, .upsert 0, .commit 0, .select 1, .upsert 1,
        .commit 1] { row := none } := by
    refine ⟨trivial, ?_, trivial, trivial, trivial, ?_, trivial, trivial, trivial⟩
    · intro now cost _ _ j tx htx
      by_cases hj : j = 0
      · subst hj
        obtain rfl := Option.some.inj htx.symm
        rfl
      · simp [PgBucketKey.step, PgBucketKey.start, PgBucketKey.move, hj] at htx
    · intro now cost _ hnone
      exact absurd hnone (by decide)
  obtain ⟨order, -, hmem, -⟩ :=
    (pgBucket_concurrent_sequential tenAtMost none _).2 halone _ rfl
  exact ⟨order, hmem⟩

/-- Two increments of a new key for ten tokens each, both selecting before either commits:
both are allowed, 20 tokens of a bucket of ten, and the row keeps the second alone; one
after the other, in either order, the second is blocked. -/
theorem pgBucket_concurrent_overspends :
    let s := final (PgBucketKey.step tenAtMost) [.start 0 0 10, .start 1 0 10, .select 0,
      .select 1, .upsert 0, .commit 0, .upsert 1, .commit 1] { row := none }
    (s.answer 0).map (·.isBlocked) = some false ∧ (s.answer 1).map (·.isBlocked) = some false ∧
      PgBucketKey.tokensAvailable tenAtMost 0 0 none = 10 ∧
      (outputs (PgBucketKey.alone tenAtMost) [s.request 0, s.request 1] none).map (·.isBlocked) =
        [false, true] ∧
      (outputs (PgBucketKey.alone tenAtMost) [s.request 1, s.request 0] none).map (·.isBlocked) =
        [false, true] := by
  decide

end RatelimitFlex
