import Migration.Cell
import Migration.Naming.Ledger
import Migration.Total

/-
  The report of a migration that succeeded.
-/

namespace Migration

open Naming (Renaming)

structure TableReport where
  /-- The target schema. -/
  schema : String
  /-- The target table. -/
  table : String
  /-- The number of rows copied; absent where none were to be copied. -/
  rows : Option Nat
  deriving DecidableEq, Repr

/-- A module that failed and was passed over. -/
structure SkippedModule where
  /-- The source schema. -/
  schema : String
  name : String
  kind : ModuleKind
  /-- The error, in words. -/
  reason : String
  deriving DecidableEq, Repr

/-- What a migration did. -/
structure Report where
  startedAt : DateTime
  /-- The nanoseconds from start to end. -/
  elapsed : Nat
  /-- The target schemas. -/
  schemas : List String
  tables : List TableReport
  skippedModules : List SkippedModule
  /-- Every renaming, sorted. -/
  renamings : List Renaming
  deriving Repr

namespace Report

def completedAt (r : Report) : DateTime := DateTime.ofNanos (r.startedAt.toNanos + r.elapsed)

/-- The time that the migration took in seconds, to whole milliseconds. -/
def durationSeconds (r : Report) : Float := Float.ofNat (r.elapsed / 1000000) / 1000

def rowsTransferred (r : Report) : Nat := total (r.tables.filterMap (·.rows))

end Report

/-- A moment of universal time, in the form of internet timestamps. -/
def DateTime.timestamp (t : DateTime) : String := String.ofList (t.text 'T' ++ ['Z'])

end Migration
