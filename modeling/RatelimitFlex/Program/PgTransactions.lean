import RatelimitFlex.Program.PgStore

/-!
# Concurrent token bucket increments of `PgStore`

Each increment is a transaction at READ COMMITTED of three statements, between which those
of other transactions may run; the state is that of one key.  `SELECT … FOR UPDATE` sees
committed rows only, locks the row it finds and locks nothing when there is none; the
upsert waits for a row that another transaction has locked or inserted; the commit makes
the row visible and unlocks it.  A statement that has to wait leaves the state as it is
and runs when it is tried again.
-/

set_option autoImplicit false

namespace RatelimitFlex

open Library

/-- Where a transaction stands. -/
inductive TxPhase where
  | started
  | selected (row : Option PgBucketRow)
  | upserted (row : PgBucketRow) (result : RateLimitResult)
  | committed (result : RateLimitResult)
  deriving DecidableEq

/-- One increment: its `Date.now()`, read before the transaction starts, and its cost. -/
structure BucketTx where
  now : ℤ
  cost : ℕ
  phase : TxPhase
  deriving DecidableEq

/-- The committed row of the key, the transaction that holds its lock or has inserted it,
and the transactions by number. -/
structure PgBucketKey where
  row : Option PgBucketRow
  lock : Option ℕ := none
  txs : ℕ → Option BucketTx := fun _ => none

/-- The start of an increment and the statements of its transaction. -/
inductive TxEvent where
  | start (i : ℕ) (now : ℤ) (cost : ℕ)
  | select (i : ℕ)
  | upsert (i : ℕ)
  | commit (i : ℕ)
  deriving DecidableEq

namespace PgBucketKey

/-- Transaction `i` moves on. -/
def move (i : ℕ) (tx : BucketTx) (s : PgBucketKey) : PgBucketKey :=
  { s with txs := Function.update s.txs i (some tx) }

/-- SOURCE: src/stores/postgres/PgStore.ts:187-196 -/
def select (i : ℕ) (s : PgBucketKey) : PgBucketKey :=
  match s.txs i with
  | some ⟨now, cost, .started⟩ =>
    match s.row with
    | none => s.move i ⟨now, cost, .selected none⟩
    | some row =>
      if s.lock = none then { s.move i ⟨now, cost, .selected (some row)⟩ with lock := some i }
      else s
  | _ => s

/-- SOURCE: src/stores/postgres/PgStore.ts:217-264 -/
def upsert (o : TokenBucketOptions) (i : ℕ) (s : PgBucketKey) : PgBucketKey :=
  match s.txs i with
  | some ⟨now, cost, .selected row⟩ =>
    if s.lock = none ∨ s.lock = some i then
      let r := PgStore.bucketUpsert o now cost (PgStore.selectedBucket o now row)
      { s.move i ⟨now, cost, .upserted r.1 r.2⟩ with lock := some i }
    else s
  | _ => s

/-- SOURCE: src/stores/postgres/PgStore.ts:762-790 -/
def commit (i : ℕ) (s : PgBucketKey) : PgBucketKey :=
  match s.txs i with
  | some ⟨now, cost, .upserted row result⟩ =>
    { s.move i ⟨now, cost, .committed result⟩ with row := some row, lock := none }
  | _ => s

/-- A new increment takes a number of its own.
SOURCE: src/stores/postgres/PgStore.ts:181-187 -/
def start (i : ℕ) (now : ℤ) (cost : ℕ) (s : PgBucketKey) : PgBucketKey :=
  match s.txs i with
  | none => s.move i ⟨now, cost, .started⟩
  | some _ => s

/-- One statement of one transaction. -/
def step (o : TokenBucketOptions) (e : TxEvent) (s : PgBucketKey) : PgBucketKey × Unit :=
  match e with
  | .start i now cost => (s.start i now cost, ())
  | .select i => (s.select i, ())
  | .upsert i => (s.upsert o i, ())
  | .commit i => (s.commit i, ())

/-- The result of an increment that has committed. -/
def answer (s : PgBucketKey) (i : ℕ) : Option RateLimitResult :=
  match s.txs i with
  | some ⟨_, _, .committed result⟩ => some result
  | _ => none

/-- The clock reading and the cost of an increment. -/
def request (s : PgBucketKey) (i : ℕ) : ℤ × ℕ :=
  match s.txs i with
  | some tx => (tx.now, tx.cost)
  | none => (0, 0)

end PgBucketKey

end RatelimitFlex
