import RatelimitFlex.Program.DynamoWindows

/-!
# DynamoDB's fixed-window decrements beside increments

Between the `ADD` of a decrement and its clamp the count may be negative.  An increment that
commits there is swallowed: its answer is less than its own cost (`covers_step_iff`), and the
clamp wipes what is left of it.  In a run whose increments find no negative count, `Covered`
holds: a count that is not negative is at least the cost of the increments since the last
decrement, and a negative one has a clamp coming and no increment to lose.
-/

set_option autoImplicit false

namespace RatelimitFlex

open Library

/-- An increment is answered with at least its own cost. -/
def FixedCommit.Covers (c : FixedCommit) : Prop :=
  match c with
  | .incremented cost result => (cost : ℤ) ≤ result.totalHits
  | .subtracted _ => True

/-- The cost of the increments since the last decrement, after one more commit. -/
def FixedCommit.addSince (acc : ℕ) (c : FixedCommit) : ℕ :=
  match c with
  | .incremented cost _ => acc + cost
  | .subtracted _ => 0

/-- The cost of the increments committed after the last decrement's `ADD`. -/
def sinceLastDecrement (cs : List FixedCommit) : ℕ := cs.foldl FixedCommit.addSince 0

/-- The clock of a call reads in the window that starts at `b`. -/
def FixedEvent.InWindow (o : WindowOptions) (b : ℤ) (e : FixedEvent) : Prop :=
  match e with
  | .increment _ now _ => DynamoStore.fixedWindowBoundaryMs now o.windowMs = b
  | .decrement _ now _ => DynamoStore.fixedWindowBoundaryMs now o.windowMs = b
  | .send _ => True

instance (o : WindowOptions) (b : ℤ) : DecidablePred (FixedEvent.InWindow o b)
  | .increment _ _ _ => inferInstanceAs (Decidable (_ = _))
  | .decrement _ _ _ => inferInstanceAs (Decidable (_ = _))
  | .send _ => isTrue trivial

namespace DynamoFixedKey

open DynamoStore

variable {o : WindowOptions} {b : ℤ} {acc : ℕ} {s : DynamoFixedKey} {i : ℕ} {now : ℤ}

/-- The count of the window that starts at `b`. -/
def windowCount (b : ℤ) (s : DynamoFixedKey) : ℤ :=
  match s.item with
  | none => 0
  | some x => if x.windowStart = b then x.totalHits else 0

/-- No call has a request left. -/
def Quiescent (s : DynamoFixedKey) : Prop :=
  ∀ i c, s.clients i = some c → c.phase.isOver = true

/-- No increment sends its `ADD` to a negative count. -/
def AddsToNoDebt (o : WindowOptions) (e : FixedEvent) (s : DynamoFixedKey) : Prop :=
  match e with
  | .send i => ∀ c ∈ s.clients i, ∀ options attempt, c.phase = .adding options attempt →
      0 ≤ s.windowCount (fixedWindowBoundaryMs c.now o.windowMs)
  | _ => True

/-! ## One request -/

/-- The count of the window is that of its item. -/
theorem windowCount_of_some {x : DynamoFixedItem} (hs : s.item = some x)
    (hx : x.windowStart = b) : s.windowCount b = x.totalHits := by
  simp [windowCount, hs, hx]

/-- The item of another window counts nothing. -/
theorem windowCount_of_old (hs : ∀ x ∈ s.item, x.windowStart ≠ b) : s.windowCount b = 0 := by
  unfold windowCount
  split
  · rfl
  · next x hx => exact if_neg (hs x hx)

/-- Moving on changes no count. -/
@[simp] theorem windowCount_move (i : ℕ) (now : ℤ) (phase : FixedPhase) (s : DynamoFixedKey) :
    (s.move i now phase).windowCount b = s.windowCount b := rfl

/-- The client that moves on, and the others. -/
theorem clients_move (i j : ℕ) (now : ℤ) (phase : FixedPhase) (s : DynamoFixedKey) :
    (s.move i now phase).clients j = if j = i then some ⟨now, phase⟩ else s.clients j := by
  simp only [move, Function.update_apply]

/-- The `ADD` of an increment adds to the count of its window, or finds none. -/
theorem sendAdd_cases (o : WindowOptions) (i : ℕ) (now : ℤ) (options : RateLimitIncrementOptions)
    (attempt : ℕ) (s : DynamoFixedKey) :
    (∃ item : DynamoFixedItem, item.windowStart = fixedWindowBoundaryMs now o.windowMs ∧
        item.totalHits = s.windowCount (fixedWindowBoundaryMs now o.windowMs) +
          options.sanitizedCost ∧
        s.sendAdd o i now options attempt = s.answer o i now options item) ∨
      s.windowCount (fixedWindowBoundaryMs now o.windowMs) = 0 ∧
        s.sendAdd o i now options attempt = (s.move i now (.setting options attempt), none) := by
  unfold sendAdd
  split
  · next x hx =>
    split
    · next hstart =>
      refine Or.inl ⟨{ x with
        totalHits := x.totalHits + options.sanitizedCost
        ttl := ttlEpochSeconds now o.windowMs }, hstart, ?_, rfl⟩
      rw [windowCount_of_some hx hstart]
    · next hstart =>
      refine Or.inr ⟨windowCount_of_old ?_, rfl⟩
      rintro y hy
      obtain rfl := Option.some.inj (hx.symm.trans hy)
      exact hstart
  · next hnone => exact Or.inr ⟨windowCount_of_old (by simp [hnone]), rfl⟩

/-- The `SET` of an increment finds no count in its window, or nothing happens. -/
theorem sendSet_cases (o : WindowOptions) (i : ℕ) (now : ℤ) (options : RateLimitIncrementOptions)
    (attempt : ℕ) (s : DynamoFixedKey) :
    (∃ item : DynamoFixedItem, item.windowStart = fixedWindowBoundaryMs now o.windowMs ∧
        item.totalHits = options.sanitizedCost ∧
        s.windowCount (fixedWindowBoundaryMs now o.windowMs) = 0 ∧
        s.sendSet o i now options attempt = s.answer o i now options item) ∨
      ∃ phase, phase ≠ .clamping ∧
        s.sendSet o i now options attempt = (s.move i now phase, none) := by
  unfold sendSet
  simp only
  split
  · next hold =>
    exact Or.inl ⟨_, rfl, rfl, windowCount_of_old fun x hx => (hold x hx).ne, rfl⟩
  · split
    · exact Or.inr ⟨_, by simp, rfl⟩
    · exact Or.inr ⟨_, by simp, rfl⟩

/-- The `ADD` of a decrement takes its cost off the count of its window, and has a clamp
coming when that leaves a debt. -/
theorem sendSubtract_cases (o : WindowOptions) (i : ℕ) (now : ℤ)
    (options : RateLimitDecrementOptions) (s : DynamoFixedKey) :
    (∃ (item : DynamoFixedItem) (phase : FixedPhase),
        item.windowStart = fixedWindowBoundaryMs now o.windowMs ∧
        (item.totalHits < 0 → phase = .clamping) ∧
        s.sendSubtract o i now options =
          ({ s.move i now phase with item := some item },
            some (.subtracted options.sanitizedCost))) ∨
      s.sendSubtract o i now options = (s.move i now .undone, none) := by
  unfold sendSubtract
  split
  · next x hx =>
    split
    · next hstart =>
      exact Or.inl ⟨{ x with totalHits := x.totalHits - options.sanitizedCost }, _, hstart,
        fun hneg => if_pos hneg, rfl⟩
    · exact Or.inr rfl
  · exact Or.inr rfl

/-- The clamp pays the debt of its window. -/
theorem windowCount_sendClamp (hb : fixedWindowBoundaryMs now o.windowMs = b) :
    (s.sendClamp o i now).windowCount b = max 0 (s.windowCount b) := by
  unfold sendClamp windowCount
  rw [hb]
  cases hs : s.item with
  | none => simp
  | some x =>
    by_cases hstart : x.windowStart = b
    · by_cases hneg : x.totalHits < 0
      · simp [hstart, hneg, hneg.le]
      · simp [hstart, hneg, not_lt.mp hneg]
    · simp [hstart]

/-- An increment that adds `n` to what the window has is answered with at least its cost
exactly when that is not negative. -/
theorem covers_answer_iff {options : RateLimitIncrementOptions} {item : DynamoFixedItem} {n : ℤ}
    (h : item.totalHits = n + options.sanitizedCost) :
    (∀ c, (s.answer o i now options item).2 = some c → c.Covers) ↔ 0 ≤ n := by
  have hcost := options.one_le_sanitizedCost
  simp only [answer, Option.some.injEq, forall_eq', FixedCommit.Covers,
    fixedResultFromAttributes, RateLimitResult.totalHits_ofUsage, h]
  omega

/-- An increment is swallowed exactly when its `ADD` finds a negative count. -/
theorem covers_step_iff (o : WindowOptions) (e : FixedEvent) (s : DynamoFixedKey) :
    (∀ c, (step o e s).2 = some c → c.Covers) ↔ AddsToNoDebt o e s := by
  cases e with
  | increment i now options => exact iff_of_true (by simp [step]) trivial
  | decrement i now options => exact iff_of_true (by simp [step]) trivial
  | send i =>
    cases hi : s.clients i with
    | none => exact iff_of_true (by simp [step, send, hi]) (by simp [AddsToNoDebt, hi])
    | some c =>
      obtain ⟨now, phase⟩ := c
      by_cases hadd : ∃ options attempt, phase = .adding options attempt
      · obtain ⟨options, attempt, rfl⟩ := hadd
        have hdebt : AddsToNoDebt o (.send i) s ↔
            0 ≤ s.windowCount (fixedWindowBoundaryMs now o.windowMs) := by
          simp [AddsToNoDebt, hi]
        have hstep : step o (.send i) s = s.sendAdd o i now options attempt := by
          simp only [step, send, hi]
        rw [hdebt, hstep]
        rcases sendAdd_cases o i now options attempt s with ⟨item, -, htotal, hsend⟩ | ⟨hzero, hsend⟩
        · rw [hsend]
          exact covers_answer_iff htotal
        · rw [hsend]
          exact iff_of_true (by simp) hzero.ge
      · refine iff_of_true (fun c hc => ?_) ?_
        · cases phase with
          | adding options attempt => exact absurd ⟨options, attempt, rfl⟩ hadd
          | setting options attempt =>
            have hstep : step o (.send i) s = s.sendSet o i now options attempt := by
              simp only [step, send, hi]
            rw [hstep] at hc
            rcases sendSet_cases o i now options attempt s with
              ⟨item, -, htotal, -, hsend⟩ | ⟨phase, -, hsend⟩
            · rw [hsend] at hc
              exact (covers_answer_iff (n := 0) (by rw [htotal, zero_add])).mpr le_rfl c hc
            · rw [hsend] at hc
              simp at hc
          | subtracting options =>
            simp only [step, send, hi, sendSubtract] at hc
            split at hc
            · split at hc
              · obtain rfl := Option.some.inj hc
                trivial
              · simp at hc
            · simp at hc
          | clamping => simp [step, send, hi] at hc
          | answered result => simp [step, send, hi] at hc
          | contended => simp [step, send, hi] at hc
          | undone => simp [step, send, hi] at hc
        · rintro ⟨now', phase'⟩ hc options attempt rfl
          obtain rfl := (FixedClient.mk.inj (Option.some.inj (hi.symm.trans hc))).2
          exact absurd ⟨options, attempt, rfl⟩ hadd

/-! ## Runs -/

/-- All clocks read in the window that starts at `b`.  A count that is not negative covers
the increments since the last decrement, and a debt has a clamp coming and covers none. -/
structure Covered (o : WindowOptions) (b : ℤ) (acc : ℕ) (s : DynamoFixedKey) : Prop where
  clocks : ∀ i c, s.clients i = some c → fixedWindowBoundaryMs c.now o.windowMs = b
  held : 0 ≤ s.windowCount b → (acc : ℤ) ≤ s.windowCount b
  owed : s.windowCount b < 0 → acc = 0 ∧ ∃ i c, s.clients i = some c ∧ c.phase = .clamping

/-- What is stored at first is covered. -/
theorem covered_init {item : Option DynamoFixedItem}
    (h : 0 ≤ windowCount b { item := item }) : Covered o b 0 { item := item } where
  clocks := by simp
  held _ := by simpa using h
  owed hneg := absurd h (not_le.mpr hneg)

/-- A client that moves on in the window stays in it. -/
theorem clocks_move (h : ∀ i c, s.clients i = some c → fixedWindowBoundaryMs c.now o.windowMs = b)
    (hnow : fixedWindowBoundaryMs now o.windowMs = b) (phase : FixedPhase) {j : ℕ}
    {c : FixedClient} (hc : (s.move i now phase).clients j = some c) :
    fixedWindowBoundaryMs c.now o.windowMs = b := by
  rw [clients_move] at hc
  by_cases hj : j = i
  · rw [if_pos hj] at hc
    obtain rfl := Option.some.inj hc
    exact hnow
  · rw [if_neg hj] at hc
    exact h j c hc

/-- A call that is not about to clamp may move on. -/
theorem Covered.move (h : Covered o b acc s) (hnow : fixedWindowBoundaryMs now o.windowMs = b)
    (hi : ∀ c, s.clients i = some c → c.phase ≠ .clamping) (phase : FixedPhase) :
    Covered o b acc (s.move i now phase) where
  clocks _ _ hc := clocks_move h.clocks hnow phase hc
  held := h.held
  owed hneg := by
    obtain ⟨hacc, j, c, hc, hphase⟩ := h.owed hneg
    have hj : j ≠ i := by
      rintro rfl
      exact hi c hc hphase
    exact ⟨hacc, j, c, by rw [clients_move, if_neg hj, hc], hphase⟩

/-- An increment that finds no debt is held. -/
theorem Covered.answer (h : Covered o b acc s) (hnow : fixedWindowBoundaryMs now o.windowMs = b)
    {options : RateLimitIncrementOptions} {item : DynamoFixedItem}
    (hstart : item.windowStart = b)
    (htotal : item.totalHits = s.windowCount b + options.sanitizedCost)
    (hdebt : 0 ≤ s.windowCount b) :
    Covered o b (acc + options.sanitizedCost) (s.answer o i now options item).1 := by
  have hcount : (s.answer o i now options item).1.windowCount b = item.totalHits :=
    windowCount_of_some rfl hstart
  have hheld := h.held hdebt
  refine ⟨fun _ _ hc => clocks_move h.clocks hnow _ hc, fun _ => ?_, fun hneg => ?_⟩
  · rw [hcount, htotal]
    push_cast
    omega
  · rw [hcount, htotal] at hneg
    omega

/-- One step of a run that adds to no debt. -/
theorem Covered.step (h : Covered o b acc s) {e : FixedEvent} (he : e.InWindow o b)
    (hdebt : AddsToNoDebt o e s) :
    Covered o b ((step o e s).2.elim acc (FixedCommit.addSince acc)) (step o e s).1 := by
  cases e with
  | increment i now options =>
    simp only [DynamoFixedKey.step, start, Option.elim_none]
    split
    · next hi => exact h.move he (by simp [hi]) _
    · exact h
  | decrement i now options =>
    simp only [DynamoFixedKey.step, start, Option.elim_none]
    split
    · next hi => exact h.move he (by simp [hi]) _
    · exact h
  | send i =>
    simp only [DynamoFixedKey.step, send]
    split
    · next now options attempt hi =>
      have hnow : fixedWindowBoundaryMs now o.windowMs = b := h.clocks i _ hi
      have hfree : 0 ≤ s.windowCount b := by
        rw [← hnow]
        exact hdebt _ hi options attempt rfl
      rcases sendAdd_cases o i now options attempt s with
        ⟨item, hstart, htotal, hsend⟩ | ⟨-, hsend⟩
      · rw [hnow] at hstart htotal
        rw [hsend]
        exact h.answer hnow hstart htotal hfree
      · rw [hsend]
        exact h.move hnow (by simp [hi]) _
    · next now options attempt hi =>
      have hnow : fixedWindowBoundaryMs now o.windowMs = b := h.clocks i _ hi
      rcases sendSet_cases o i now options attempt s with
        ⟨item, hstart, htotal, hzero, hsend⟩ | ⟨phase, -, hsend⟩
      · rw [hnow] at hstart hzero
        rw [hsend]
        exact h.answer hnow hstart (by rw [htotal, hzero, zero_add]) hzero.ge
      · rw [hsend]
        exact h.move hnow (by simp [hi]) _
    · next now options hi =>
      have hnow : fixedWindowBoundaryMs now o.windowMs = b := h.clocks i _ hi
      rcases sendSubtract_cases o i now options s with
        ⟨item, phase, hstart, hclamp, hsend⟩ | hsend
      · rw [hsend]
        have hcount : windowCount b { s.move i now phase with item := some item } =
            item.totalHits := windowCount_of_some rfl (hstart.trans hnow)
        refine ⟨fun _ _ hc => clocks_move h.clocks hnow phase hc, fun hpos => ?_, fun hneg => ?_⟩
        · simpa [FixedCommit.addSince] using hpos
        · rw [hcount] at hneg
          exact ⟨rfl, i, ⟨now, phase⟩, by simp [DynamoFixedKey.move], hclamp hneg⟩
      · rw [hsend]
        exact h.move hnow (by simp [hi]) _
    · next now hi =>
      have hnow : fixedWindowBoundaryMs now o.windowMs = b := h.clocks i _ hi
      have hcount := windowCount_sendClamp (s := s) (i := i) hnow
      refine ⟨fun _ _ hc => clocks_move h.clocks hnow _ hc, fun _ => ?_, fun hneg => ?_⟩
      · rw [hcount]
        simp only [Option.elim_none]
        rcases le_or_gt 0 (s.windowCount b) with hpos | hneg
        · exact (h.held hpos).trans (le_max_right _ _)
        · rw [(h.owed hneg).1]
          exact le_max_left _ _
      · rw [hcount] at hneg
        exact absurd hneg (not_lt.mpr (le_max_left _ _))
    · exact h

/-- No events commit nothing. -/
theorem commits_nil (s : DynamoFixedKey) : commits o [] s = [] := rfl

/-- The commits of a first event and the rest. -/
theorem foldl_commits_cons (o : WindowOptions) (e : FixedEvent) (es : List FixedEvent)
    (s : DynamoFixedKey) (acc : ℕ) :
    (commits o (e :: es) s).foldl FixedCommit.addSince acc =
      (commits o es (step o e s).1).foldl FixedCommit.addSince
        ((step o e s).2.elim acc (FixedCommit.addSince acc)) := by
  unfold commits
  rw [outputs_cons]
  cases hout : (DynamoFixedKey.step o e s).2 with
  | none => rw [List.reduceOption_cons_of_none, Option.elim_none]
  | some c => rw [List.reduceOption_cons_of_some, List.foldl_cons, Option.elim_some]

/-- A run that adds to no debt. -/
theorem Covered.run {es : List FixedEvent} (h : Covered o b acc s)
    (hin : ∀ e ∈ es, e.InWindow o b) (hdebt : Guarded (AddsToNoDebt o) (DynamoFixedKey.step o) es s) :
    Covered o b ((commits o es s).foldl FixedCommit.addSince acc)
      (final (DynamoFixedKey.step o) es s) := by
  induction es generalizing acc s with
  | nil => exact h
  | cons e es ih =>
    rw [foldl_commits_cons, final_cons]
    exact ih (h.step (hin e List.mem_cons_self) hdebt.1)
      (fun e' he' => hin e' (List.mem_cons_of_mem e he')) hdebt.2

/-- At rest nothing is owed. -/
theorem Covered.quiescent (h : Covered o b acc s) (hs : s.Quiescent) :
    (acc : ℤ) ≤ s.windowCount b := by
  refine h.held (not_lt.mp fun hneg => ?_)
  obtain ⟨-, i, c, hc, hphase⟩ := h.owed hneg
  have hover := hs i c hc
  rw [hphase] at hover
  simp [FixedPhase.isOver] at hover

/-- The increments of a run are answered with their costs exactly when none adds to a debt. -/
theorem forall_covers_iff (o : WindowOptions) (es : List FixedEvent) (s : DynamoFixedKey) :
    (∀ c ∈ commits o es s, c.Covers) ↔ Guarded (AddsToNoDebt o) (DynamoFixedKey.step o) es s := by
  have hmem : (∀ c ∈ commits o es s, c.Covers) ↔
      ∀ r ∈ outputs (DynamoFixedKey.step o) es s, ∀ c, r = some c → c.Covers := by
    simp only [commits, List.reduceOption_mem_iff]
    exact ⟨fun h r hr c hc => h c (hc ▸ hr), fun h c hc => h _ hc c rfl⟩
  have hguard : (fun e s => ∀ c, (DynamoFixedKey.step o e s).2 = some c → c.Covers) =
      AddsToNoDebt o := by
    funext e s
    exact propext (covers_step_iff o e s)
  rw [hmem, forall_outputs_iff (P := fun r => ∀ c, r = some c → FixedCommit.Covers c), hguard]

end DynamoFixedKey

/-! ## Main result -/

/-- **Increments beside decrements within one window.**  In every interleaving of the requests
of any number of increments and decrements, every increment is answered with at least its own
cost, and at rest the count is at least the cost of the increments since the last decrement's
`ADD`, exactly when no increment sends its `ADD` while the count is below zero: between the
`ADD` of a decrement that takes it there and the clamp.
SOURCE: src/stores/dynamo/DynamoStore.ts:281-353, 494-600 -/
theorem dynamoFixed_increments_kept_iff (o : WindowOptions) (b : ℤ) (item₀ : Option DynamoFixedItem)
    (es : List FixedEvent) (h₀ : ∀ x ∈ item₀, x.windowStart = b → 0 ≤ x.totalHits)
    (hin : ∀ e ∈ es, e.InWindow o b) :
    let s₀ : DynamoFixedKey := { item := item₀ }
    let s := final (DynamoFixedKey.step o) es s₀
    let cs := DynamoFixedKey.commits o es s₀
    ((∀ c ∈ cs, c.Covers) ∧
        (s.Quiescent → (sinceLastDecrement cs : ℤ) ≤ s.windowCount b)) ↔
      Guarded (DynamoFixedKey.AddsToNoDebt o) (DynamoFixedKey.step o) es s₀ := by
  intro s₀ s cs
  rw [← DynamoFixedKey.forall_covers_iff]
  refine ⟨fun h => h.1, fun h => ⟨h, fun hquiet => ?_⟩⟩
  have hinit : 0 ≤ s₀.windowCount b := by
    unfold DynamoFixedKey.windowCount
    cases hx : item₀ with
    | none => simp [s₀, hx]
    | some x =>
      simp only [s₀, hx]
      split
      · next hstart => exact h₀ x hx hstart
      · exact le_rfl
  have hcovered := (DynamoFixedKey.covered_init hinit).run hin
    ((DynamoFixedKey.forall_covers_iff o es s₀).mp h)
  exact hcovered.quiescent hquiet

/-- A decrement of five takes a count of one below zero and is clamped before an increment of
three comes. -/
theorem dynamoFixed_increments_kept_clamped :
    let es : List FixedEvent := [.increment 0 500 {}, .send 0, .send 0,
      .decrement 1 500 { cost := some (JsNumber.ofInt 5) }, .send 1, .send 1,
      .increment 2 500 { cost := some (JsNumber.ofInt 3) }, .send 2]
    let s₀ : DynamoFixedKey := { item := none }
    let s := final (DynamoFixedKey.step tenASecond) es s₀
    let cs := DynamoFixedKey.commits tenASecond es s₀
    ((∀ c ∈ cs, c.Covers) ∧ (s.Quiescent → (sinceLastDecrement cs : ℤ) ≤ s.windowCount 0)) ↔
      Guarded (DynamoFixedKey.AddsToNoDebt tenASecond) (DynamoFixedKey.step tenASecond) es s₀ :=
  dynamoFixed_increments_kept_iff tenASecond 0 none _ (by simp) (by decide)

/-- The increment of three comes between the two requests of the decrement: it is answered
with zero hits and wiped by the clamp. -/
theorem dynamoFixed_increment_swallowed :
    let es : List FixedEvent := [.increment 0 500 {}, .send 0, .send 0,
      .decrement 1 500 { cost := some (JsNumber.ofInt 5) }, .send 1,
      .increment 2 500 { cost := some (JsNumber.ofInt 3) }, .send 2, .send 1]
    let s₀ : DynamoFixedKey := { item := none }
    let cs := DynamoFixedKey.commits tenASecond es s₀
    cs[2]? = some (.incremented 3
        { totalHits := 0, remaining := 10, resetTime := 1000, isBlocked := false }) ∧
      sinceLastDecrement cs = 3 ∧
      (final (DynamoFixedKey.step tenASecond) es s₀).windowCount 0 = 0 := by
  decide

end RatelimitFlex
