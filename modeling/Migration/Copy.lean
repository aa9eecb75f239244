import Migration.Draft

/-
  The copy of one table: its rows, in batches.

  Rows are inserted one at a time, in the order of the source, without NUL
  characters in their texts. Each batch is a transaction, and so is what is left
  after the last full batch, be it nothing. A row that fails ends the copy; the
  batches before it stay. Rows and commits are counted as the copy goes on.
-/

namespace Migration

/-- The most rows of a transaction. -/
def maxBatchSize : Nat := 500

/-- The rows of a transaction: a hundredth of the table, at least one. -/
def batchSize (estimatedRows : Nat) : Nat := max 1 (min maxBatchSize (estimatedRows / 100))

/-- What to copy. -/
structure CopyJob where
  /-- The table in errors and reports. -/
  table : String
  /-- The source query for all rows. -/
  query : String
  /-- The insert of one row, with one parameter for each column. -/
  insert : String
  /-- The target columns, in the order of the parameters. -/
  columns : List String
  /-- The number of rows found before the copy. -/
  estimatedRows : Nat
  deriving DecidableEq, Repr

/-- What is counted of a copy. -/
structure CopyCount where
  rows : Nat := 0
  commits : Nat := 0
  deriving DecidableEq, Repr

namespace CopyJob

/-- The rows of each transaction of the copy. -/
def batch (job : CopyJob) : Nat := batchSize job.estimatedRows

/-- What ends a full batch; nothing after a row that ends none. -/
def batchEnd (job : CopyJob) (copied : Nat) : List Step :=
  if copied % job.batch = 0 then
    [.commit, .begin, .report job.table copied job.estimatedRows]
  else []

/-- The error for a row that has not one cell for each column. -/
def widthFault (job : CopyJob) (number : Nat) (row : Row) : MigrationError :=
  .transfer job.table number s!"expected {job.columns.length} values, got {row.length}"

/-- The count after one more row. A row that ends a full batch is followed by a commit. -/
def counted (job : CopyJob) (done : CopyCount) : CopyCount where
  rows := done.rows + 1
  commits := if (done.rows + 1) % job.batch = 0 then done.commits + 1 else done.commits

@[simp] theorem counted_rows (job : CopyJob) (done : CopyCount) :
    (job.counted done).rows = done.rows + 1 := rfl

theorem counted_commits (job : CopyJob) (done : CopyCount) :
    (job.counted done).commits =
      done.commits + if (done.rows + 1) % job.batch = 0 then 1 else 0 := by
  rw [counted]
  split <;> rfl

/-- The steps for the rows that are left after those counted, and the count at the end. -/
def rowSteps (job : CopyJob) :
    (done : CopyCount) → List (Outcome Row) → List Step × Outcome CopyCount
  | done, [] => ([.commit], .ok { done with commits := done.commits + 1 })
  | done, .error e :: _ => ([.fetch], .error (.transfer job.table (done.rows + 1) e.message))
  | done, .ok row :: rest =>
    if row.length = job.columns.length then
      let later := job.rowSteps (job.counted done) rest
      (.fetch :: .insert job.table (done.rows + 1) job.insert (row.map Cell.scrubbed) ::
        (job.batchEnd (done.rows + 1) ++ later.1), later.2)
    else ([.fetch], .error (job.widthFault (done.rows + 1) row))

/-- The copy of all rows that the source yields, and what was counted of it. -/
def draft (job : CopyJob) (rows : Outcome (List (Outcome Row))) : Draft CopyCount := fun ledger =>
  match rows with
  | .error e => ⟨[], ledger, .error e⟩
  | .ok rows =>
    let copied := job.rowSteps {} rows
    ⟨.openCursor job.query :: .begin :: copied.1, ledger, copied.2⟩

end CopyJob

end Migration
