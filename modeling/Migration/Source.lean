import Migration.Cell
import Migration.Error

/-
  The source of a migration: what its catalog and its rows answer.

  Every answer may be a failure. Names are source names, and lists have the order
  in which the source gives them.
-/

namespace Migration

/-- The answers of a source. -/
structure Source where
  schemas : Outcome (List Schema)
  /-- Whether the schema is to be passed over. -/
  isSchemaEmpty (schema : String) : Outcome Bool
  tables (schema : String) : Outcome (List String)
  columns (schema table : String) : Outcome (List Column)
  primaryKey (schema table : String) : Outcome (Option Constraint)
  uniqueKeys (schema table : String) : Outcome (List Constraint)
  foreignKeys (schema table : String) : Outcome (List Constraint)
  /-- The defaults of one column. -/
  defaults (schema table column : String) : Outcome (List Constraint)
  identities (schema table : String) : Outcome (List Identity)
  /-- The indexes of a schema that belong to no key. -/
  indexes (schema : String) : Outcome (List Index)
  statistics (schema : String) : Outcome (List Statistics)
  modules (schema : String) (kind : ModuleKind) : Outcome (List Module)
  /-- The first cell of the first row of a query. -/
  scalar (query : String) : Outcome Cell
  /-- The rows of a query; each may fail when it is its turn. -/
  rows (query : String) : Outcome (List (Outcome Row))

end Migration
