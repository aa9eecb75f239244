import Migration.Identifier
import Migration.Text.Blank
import Migration.Text.Replace

/-
  The statements of a migration.

  Each function makes one statement from descriptors that carry target names.
  Names are quoted throughout, so they reach the server as they are. The
  statements that run on the source, `selectRows` and `countRows`, take source
  names and brackets.
-/

namespace Migration

/-- A column of a table to be made: its target name, its type literal and whether it admits null. -/
structure ColumnDefinition where
  name : String
  typeLiteral : String
  isNullable : Bool
  deriving DecidableEq, Repr

/-- Why a descriptor makes no statement. -/
inductive StatementFault where
  | tableWithoutColumns (schema table : String)
  | constraintWithoutColumns (c : Constraint)
  | noReferencedTable (c : Constraint)
  | referencedCount (c : Constraint)
  | indexWithoutKeys (i : Index)
  deriving DecidableEq, Repr

def StatementFault.message : StatementFault → String
  | .tableWithoutColumns schema table => s!"Table {schema}.{table} has no columns"
  | .constraintWithoutColumns c =>
    s!"Constraint {c.name} on {c.fullTableName} has no columns"
  | .noReferencedTable c => s!"Foreign key {c.name} on {c.fullTableName} has no referenced table"
  | .referencedCount c =>
    s!"Foreign key {c.name} on {c.fullTableName} references {c.referencedFields.length} columns "
      ++ s!"with {c.fields.length}"
  | .indexWithoutKeys i => s!"Index {i.name} on {i.schema}.{i.table} has no key columns"

/-- Fails with a fault. -/
def refuse {α : Type} (fault : StatementFault) : Outcome α := .error (.config fault.message)

namespace Statement

def commaJoined (texts : List String) : String := String.intercalate ", " texts

def columnList (columns : List String) : Outcome String := do
  return commaJoined (← Outcome.each quotePg columns)

/-! ## Schemas, tables and views -/

def createSchema (schema : String) : Outcome String := do
  return "CREATE SCHEMA IF NOT EXISTS " ++ (← quotePg schema)

def dropTable (schema table : String) : Outcome String := do
  return "DROP TABLE IF EXISTS " ++ (← qualifyPg schema table)

def dropView (schema view : String) : Outcome String := do
  return "DROP VIEW IF EXISTS " ++ (← qualifyPg schema view)

/-- The line of a column in the making of a table. -/
def columnLine (c : ColumnDefinition) : Outcome String := do
  let name ← quotePg c.name
  return "    " ++ name ++ " " ++ c.typeLiteral ++ (if c.isNullable then " NULL" else " NOT NULL")

/-- Makes a table, with one line for each column. -/
def createTable (schema table : String) (columns : List ColumnDefinition) : Outcome String :=
  if columns.isEmpty then refuse (.tableWithoutColumns schema table)
  else do
    let name ← qualifyPg schema table
    let lines ← Outcome.each columnLine columns
    return "CREATE TABLE " ++ name ++ " (\n" ++ String.intercalate ",\n" lines ++ "\n)"

/-! ## Constraints -/

/-- Adds a key of the sort that `words` name. -/
def addKey (words : String) (c : Constraint) : Outcome String :=
  if c.fields.isEmpty then refuse (.constraintWithoutColumns c)
  else do
    let table ← qualifyPg c.schema c.table
    let name ← quotePg c.name
    let fields ← columnList c.fields
    return "ALTER TABLE " ++ table ++ " ADD CONSTRAINT " ++ name ++ " " ++ words ++ " (" ++ fields
      ++ ")"

def addPrimaryKey (c : Constraint) : Outcome String := addKey "PRIMARY KEY" c

def addUniqueKey (c : Constraint) : Outcome String := addKey "UNIQUE" c

/-- The action of the target for an action of the source, which is known by its words in any case,
with blanks or underscores between them. -/
def referentialAction (action : String) : String :=
  let words := String.ofList ((Text.trim action).toList.map Char.toUpper)
  match Text.replaceAll " " "_" words with
  | "CASCADE" => "CASCADE"
  | "SET_NULL" => "SET NULL"
  | "SET_DEFAULT" => "SET DEFAULT"
  | _ => "NO ACTION"

def addForeignKey (c : Constraint) : Outcome String :=
  if c.fields.isEmpty then refuse (.constraintWithoutColumns c)
  else
    match c.referencedTable with
    | none => refuse (.noReferencedTable c)
    | some referencedTable =>
      if c.referencedFields.length ≠ c.fields.length then refuse (.referencedCount c)
      else do
        let table ← qualifyPg c.schema c.table
        let name ← quotePg c.name
        let fields ← columnList c.fields
        let referenced ← qualifyPg (c.referencedSchema.getD c.schema) referencedTable
        let referencedFields ← columnList c.referencedFields
        return "ALTER TABLE " ++ table ++ " ADD CONSTRAINT " ++ name ++ " FOREIGN KEY (" ++ fields
          ++ ") REFERENCES " ++ referenced ++ " (" ++ referencedFields ++ ") ON DELETE "
          ++ referentialAction (c.onDelete.getD "NO_ACTION") ++ " ON UPDATE "
          ++ referentialAction (c.onUpdate.getD "NO_ACTION")

/-! ## Indexes, identity columns and defaults -/

/-- The columns that an index covers beyond its key. -/
def includeClause (columns : List String) : Outcome String :=
  if columns.isEmpty then .ok ""
  else do return " INCLUDE (" ++ (← columnList columns) ++ ")"

/-- Makes an index, which lives in the schema of its table. -/
def createIndex (i : Index) : Outcome String :=
  if i.keyColumns.isEmpty then refuse (.indexWithoutKeys i)
  else do
    let name ← quotePg i.name
    let table ← qualifyPg i.schema i.table
    let keys ← columnList i.keyColumns
    let included ← includeClause i.includedColumns
    return "CREATE " ++ (if i.isUnique then "UNIQUE " else "") ++ "INDEX " ++ name ++ " ON "
      ++ table ++ " (" ++ keys ++ ")" ++ included

/-- Lets a column number its rows on from where the source stopped. -/
def addIdentity (i : Identity) : Outcome String := do
  let table ← qualifyPg i.schema i.table
  let column ← quotePg i.column
  return "ALTER TABLE " ++ table ++ " ALTER COLUMN " ++ column
    ++ " ADD GENERATED BY DEFAULT AS IDENTITY (START WITH " ++ toString i.startValue
    ++ " INCREMENT BY " ++ toString i.increment ++ ")"

/-- Gives a column a default, which is an expression of the target. -/
def setDefault (schema table column expression : String) : Outcome String := do
  let table ← qualifyPg schema table
  let column ← quotePg column
  return "ALTER TABLE " ++ table ++ " ALTER COLUMN " ++ column ++ " SET DEFAULT " ++ expression

/-! ## Rows -/

def selectRows (schema table : String) (columns : List String) : Outcome String := do
  let columns ← Outcome.each quoteMssql columns
  let table ← qualifyMssql schema table
  return "SELECT " ++ commaJoined columns ++ " FROM " ++ table

def countRows (schema table : String) : Outcome String := do
  return "SELECT COUNT_BIG(1) FROM " ++ (← qualifyMssql schema table)

/-- The numbered parameters of an insert. Each is bound as text and cast to the type of its
column. -/
def castParameters : (first : Nat) → List ColumnDefinition → List String
  | _, [] => []
  | n, c :: rest => ("$" ++ toString n ++ "::" ++ c.typeLiteral) :: castParameters (n + 1) rest

def insertRow (schema table : String) (columns : List ColumnDefinition) : Outcome String := do
  let names ← Outcome.each quotePg (columns.map ColumnDefinition.name)
  let table ← qualifyPg schema table
  return "INSERT INTO " ++ table ++ " (" ++ commaJoined names ++ ") VALUES ("
    ++ commaJoined (castParameters 1 columns) ++ ")"

end Statement

end Migration
