import Migration.Source
import Migration.Statement

/-
  A source held in memory: schemas with their tables and rows.

  Where two schemas or two tables of a schema have one name, the first answers to
  it. Any one sort of question can be made to fail always.
-/

namespace Migration.Memory

/-- A table with its rows and what the catalog says of it. -/
structure Table where
  name : String
  columns : List Column := []
  rows : List Row := []
  /-- What the count of the rows answers; the number of rows where it is absent. -/
  count : Option Cell := none
  /-- The row, counted from one, in whose place the reading fails. -/
  failingRow : Option Nat := none
  primaryKey : Option Constraint := none
  uniqueKeys : List Constraint := []
  foreignKeys : List Constraint := []
  defaults : List Constraint := []
  identities : List Identity := []
  deriving Repr

structure SchemaContent where
  name : String
  tables : List Table := []
  indexes : List Index := []
  statistics : List Statistics := []
  modules : List Module := []
  deriving Repr

/-- A source in memory. -/
structure Catalog where
  schemas : List SchemaContent
  /-- The question that always fails. -/
  failing : Option String := none
  deriving Repr

/-- Rows to be read, with a failure in the place of one, counted from `number`. -/
def rowsWithFailure (failingRow : Option Nat) : (number : Nat) → List Row → List (Outcome Row)
  | _, [] => []
  | number, row :: rest =>
    (if failingRow = some number then .error (.execution "fetch" "connection reset") else .ok row)
      :: rowsWithFailure failingRow (number + 1) rest

namespace Table

/-- The rows as they are read. -/
def readRows (t : Table) : List (Outcome Row) := rowsWithFailure t.failingRow 1 t.rows

/-- What the count of the rows answers. -/
def rowCount (t : Table) : Cell := t.count.getD (.int64 (.ofNat t.rows.length))

end Table

namespace Catalog

/-- The answer to a question, unless questions of its sort fail. -/
def answer {α : Type} (c : Catalog) (question : String) (a : α) : Outcome α :=
  if c.failing = some question then .error (.execution question "source unavailable") else .ok a

def schema? (c : Catalog) (schema : String) : Option SchemaContent :=
  c.schemas.find? (·.name == schema)

def table? (c : Catalog) (schema table : String) : Option Table :=
  (c.schema? schema).bind fun s => s.tables.find? (·.name == table)

/-- What a list of a schema holds; nothing for an unknown schema. -/
def inSchema {α : Type} (c : Catalog) (list : SchemaContent → List α) (schema : String) : List α :=
  ((c.schema? schema).map list).getD []

/-- What a list of a table holds; nothing for an unknown table. -/
def inTable {α : Type} (c : Catalog) (list : Table → List α) (schema table : String) : List α :=
  ((c.table? schema table).map list).getD []

def countedTable? (c : Catalog) (query : String) : Option Table :=
  c.schemas.findSome? fun s => s.tables.find? fun t =>
    (Statement.countRows s.name t.name).toOption == some query

def readTable? (c : Catalog) (query : String) : Option Table :=
  c.schemas.findSome? fun s => s.tables.find? fun t =>
    (Statement.selectRows s.name t.name (t.columns.map Column.name)).toOption == some query

def source (c : Catalog) : Source where
  schemas := c.answer "list_schemas" (c.schemas.map fun s => { name := s.name })
  isSchemaEmpty schema :=
    c.answer "is_schema_empty"
      ((c.inSchema SchemaContent.tables schema).isEmpty
        && (c.inSchema SchemaContent.modules schema).isEmpty)
  tables schema := c.answer "list_tables" ((c.inSchema SchemaContent.tables schema).map Table.name)
  columns schema table := c.answer "list_columns" (c.inTable Table.columns schema table)
  primaryKey schema table :=
    c.answer "primary_key" ((c.table? schema table).bind Table.primaryKey)
  uniqueKeys schema table := c.answer "unique_keys" (c.inTable Table.uniqueKeys schema table)
  foreignKeys schema table := c.answer "foreign_keys" (c.inTable Table.foreignKeys schema table)
  defaults schema table column :=
    c.answer "default_constraints"
      ((c.inTable Table.defaults schema table).filter (·.fields.head? == some column))
  identities schema table := c.answer "identity_columns" (c.inTable Table.identities schema table)
  indexes schema := c.answer "indexes_per_schema" (c.inSchema SchemaContent.indexes schema)
  statistics schema :=
    c.answer "auto_generated_statistics" (c.inSchema SchemaContent.statistics schema)
  modules schema kind :=
    c.answer "module_definitions"
      ((c.inSchema SchemaContent.modules schema).filter (·.kind == kind))
  scalar query :=
    c.answer "execute_scalar" (((c.countedTable? query).map Table.rowCount).getD .null)
  rows query := c.answer "open_cursor" (((c.readTable? query).map Table.readRows).getD [])

end Catalog

end Migration.Memory
