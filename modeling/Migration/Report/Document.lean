import Migration.Report
import Migration.Text.Json

/-
  The report as a document.
-/

namespace Migration

open Naming (Renaming)
open Text (Json)

def Text.Json.ofNat (n : Nat) : Json := .number (toString n)

/-- A floating-point number of seconds, with at least one digit after the point. -/
def Text.Json.ofSeconds (seconds : Float) : Json :=
  let digits := Shortest.text seconds.toBits
  .number (if digits.toList.contains '.' then digits else digits ++ ".0")

def TableReport.document (t : TableReport) : Json :=
  .object
    [("schema", .string t.schema), ("table", .string t.table),
     ("rows", match t.rows with | some n => .ofNat n | none => .null)]

def SkippedModule.document (s : SkippedModule) : Json :=
  .object
    [("schema", .string s.schema), ("name", .string s.name), ("kind", .string s.kind.name),
     ("reason", .string s.reason)]

def Naming.Renaming.document (r : Renaming) : Json :=
  .object
    [("schema", .string r.schema), ("kind", .string r.kind.name), ("old_name", .string r.oldName),
     ("new_name", .string r.newName), ("normalized", .bool r.normalized)]

def Report.document (r : Report) : Json :=
  .object
    [("started_at", .string r.startedAt.timestamp),
     ("completed_at", .string r.completedAt.timestamp),
     ("duration_seconds", .ofSeconds r.durationSeconds),
     ("schemas", .array (r.schemas.map .string)),
     ("tables", .array (r.tables.map TableReport.document)),
     ("skipped_modules", .array (r.skippedModules.map SkippedModule.document)),
     ("renamings", .array (r.renamings.map Renaming.document))]

end Migration
