import Migration.Cell
import Migration.Error

/-
  What a migration does, step by step.

  A step is known before it is taken: what the source answers decides which steps
  there are, and the target only decides how far they are taken. The steps that
  the target sees are its operations.
-/

namespace Migration

/-- What the target is asked to do. -/
inductive Operation where
  | execute (sql : String)
  | begin
  /-- An insert of one row, by a statement with a parameter for each cell. -/
  | insert (sql : String) (row : Row)
  | commit
  deriving DecidableEq, Repr

/-- One step of a migration. -/
inductive Step where
  /-- The rows of a source query are asked for. The copy of a table begins here. -/
  | openCursor (query : String)
  /-- The source yields a row. -/
  | fetch
  | execute (sql : String)
  | begin
  /-- A row is inserted, the `number`th of the table, counted from one. -/
  | insert (table : String) (number : Nat) (sql : String) (row : Row)
  | commit
  /-- The progress of a copy is reported. -/
  | report (table : String) (rows estimated : Nat)
  deriving DecidableEq, Repr

namespace Step

/-- What the target is asked at a step, if anything. -/
def operation? : Step → Option Operation
  | .execute sql => some (.execute sql)
  | .begin => some .begin
  | .insert _ _ sql row => some (.insert sql row)
  | .commit => some .commit
  | _ => none

/-- The error of a step whose operation the target refused. A refused insert is told with its
table and row. -/
def failure (e : MigrationError) : Step → MigrationError
  | .insert table number _ _ => .transfer table number e.message
  | _ => e

end Step

def operations (steps : List Step) : List Operation := steps.filterMap Step.operation?

end Migration
