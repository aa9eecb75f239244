import Migration.Copy
import Migration.Naming.Collision
import Migration.Report
import Migration.Settings
import Migration.Source
import Migration.Statement
import Migration.Statement.Default
import Migration.Substitution
import Migration.TypeMap.Postgres

/-
  The plan of a migration: every step, from what the source answers.

  First come the schemas one after another: for each its tables with their data,
  keys, defaults and identity columns, then its indexes. Foreign keys follow when
  all tables are there, and modules at the end. The modules are planned as
  attempts of their own, for one of them may fail without the others.
-/

namespace Migration

open Naming (Ledger NamingPolicy resolveIndexCollisions)

namespace Plan

/-- Tells an error with the column at which it arose. -/
def atColumn {α : Type} (schema table column : String) (o : Outcome α) : Outcome α :=
  o.mapError (.column schema table column)

/-! ## Tables -/

/-- The definition of a target column. -/
def columnDraft (m : RunSettings) (schema table : String) (c : Column) :
    Draft ColumnDefinition := do
  let name ← .rename (m.policy.renameColumn schema c.name)
  let typeLiteral ← .ofOutcome
    (atColumn schema table c.name ((postgresTypes m.citext).columnType c))
  return { name, typeLiteral, isNullable := c.isNullable }

/-- A table on both sides of the migration. -/
structure TablePair where
  schema : String
  table : String
  targetSchema : String
  targetTable : String
  columns : List Column
  /-- The definitions of the target columns, one for each column. -/
  definitions : List ColumnDefinition
  deriving Repr

/-- The copy of a table, with the number of its rows as the source counts them. -/
def copyJob (source : Source) (t : TablePair) : Outcome CopyJob := do
  let count ← source.scalar (← Statement.countRows t.schema t.table)
  let query ← Statement.selectRows t.schema t.table (t.columns.map Column.name)
  let insert ← Statement.insertRow t.targetSchema t.targetTable t.definitions
  return { table := t.targetSchema ++ "." ++ t.targetTable, query, insert,
           columns := t.definitions.map ColumnDefinition.name,
           estimatedRows := (count.toInt?.getD 0).toNat }

/-- The rows of a table, unless they are not to be copied. -/
def dataDraft (m : RunSettings) (source : Source) (t : TablePair) : Draft (Option Nat) :=
  if m.copiesDataFor t.schema t.table then do
    let job ← .ofOutcome (copyJob source t)
    let copied ← job.draft (source.rows job.query)
    return some copied.rows
  else return none

def keyDraft (m : RunSettings) (statement : Constraint → Outcome String) (c : Constraint) :
    Draft Unit := do
  let renamed ← .rename (m.policy.renameConstraint c)
  .execute (statement renamed)

def defaultDraft (m : RunSettings) (t : TablePair) (column : Column) (definition : ColumnDefinition)
    (c : Constraint) : Draft Unit := do
  let renamed ← .rename (m.policy.renameConstraint c)
  let expression ← .ofOutcome (atColumn t.schema t.table column.name
    (targetDefault (renamed.definition.getD "") renamed.valueType))
  .execute (Statement.setDefault t.targetSchema t.targetTable definition.name expression)

/-- The defaults of a column, which is given on both sides. -/
def columnDefaultsDraft (m : RunSettings) (source : Source) (t : TablePair)
    (column : Column × ColumnDefinition) : Draft Unit := do
  let defaults ← .ofOutcome (source.defaults t.schema t.table column.1.name)
  let _ ← .each (defaultDraft m t column.1 column.2) defaults
  return ()

def identityDraft (m : RunSettings) (i : Identity) : Draft Unit := do
  let renamed ← .rename (m.policy.renameIdentity i)
  .execute (Statement.addIdentity renamed)

/-- What a table has beside columns and rows. -/
def partsDraft (m : RunSettings) (source : Source) (t : TablePair) : Draft Unit := do
  let primaryKey ← .ofOutcome (source.primaryKey t.schema t.table)
  let _ ← .each (keyDraft m Statement.addPrimaryKey) primaryKey.toList
  let uniqueKeys ← .ofOutcome (source.uniqueKeys t.schema t.table)
  let _ ← .each (keyDraft m Statement.addUniqueKey) uniqueKeys
  let _ ← .each (columnDefaultsDraft m source t) (t.columns.zip t.definitions)
  let identities ← .ofOutcome (source.identities t.schema t.table)
  let _ ← .each (identityDraft m) identities
  return ()

/-- A table: made anew, filled, then given its keys, defaults and identity columns. -/
def tableDraft (m : RunSettings) (source : Source) (schema targetSchema table : String) :
    Draft TableReport := do
  let columns ← .ofOutcome (source.columns schema table)
  let targetTable ← .rename (m.policy.renameTable schema table)
  let definitions ← .each (columnDraft m schema table) columns
  .execute (Statement.dropTable targetSchema targetTable)
  .execute (Statement.createTable targetSchema targetTable definitions)
  let pair : TablePair := { schema, table, targetSchema, targetTable, columns, definitions }
  let rows ← dataDraft m source pair
  partsDraft m source pair
  return { schema := targetSchema, table := targetTable, rows }

/-! ## Schemas -/

/-- A source schema that is migrated. -/
structure PlannedSchema where
  source : String
  target : String
  tables : List TableReport
  /-- The foreign keys of its tables, which wait for all tables. -/
  foreignKeys : List Constraint
  deriving Repr

/-- A table together with its foreign keys. -/
def linkedTableDraft (m : RunSettings) (source : Source) (schema targetSchema table : String) :
    Draft (TableReport × List Constraint) := do
  let report ← tableDraft m source schema targetSchema table
  let foreignKeys ← .ofOutcome (source.foreignKeys schema table)
  return (report, foreignKeys)

def indexDraft (i : Index) : Draft Unit := .execute (Statement.createIndex i)

/-- The indexes of a schema, and its statistics as indexes, in one batch. -/
def indexesDraft (m : RunSettings) (source : Source) (schema : String) : Draft Unit := do
  let indexes ← .ofOutcome (source.indexes schema)
  let statistics ← .ofOutcome (source.statistics schema)
  let renamed ← .each (fun i => .rename (m.policy.renameIndex i))
    (indexes ++ statistics.map Statistics.toIndex)
  let _ ← .each indexDraft (resolveIndexCollisions renamed)
  return ()

/-- A schema with its tables and indexes. -/
def fullSchemaDraft (m : RunSettings) (source : Source) (schema : String) :
    Draft PlannedSchema := do
  let target ← .rename (m.policy.renameSchema schema)
  .execute (Statement.createSchema target)
  let names ← .ofOutcome (source.tables schema)
  let tables ← .each (linkedTableDraft m source schema target) names
  indexesDraft m source schema
  return { source := schema, target, tables := tables.map (·.1),
           foreignKeys := tables.flatMap (·.2) }

/-- A schema, if it is not to be passed over. -/
def schemaDraft (m : RunSettings) (source : Source) (schema : Schema) :
    Draft (Option PlannedSchema) := do
  if ← .ofOutcome (source.isSchemaEmpty schema.name) then return none
  else
    let planned ← fullSchemaDraft m source schema.name
    return some planned

/-- All schemas, then all foreign keys. -/
def schemasDraft (m : RunSettings) (source : Source) : Draft (List PlannedSchema) := do
  let listed ← .ofOutcome source.schemas
  let planned ← .each (schemaDraft m source) listed
  let schemas := planned.filterMap id
  let _ ← .each (keyDraft m Statement.addForeignKey) (schemas.flatMap (·.foreignKeys))
  return schemas

/-! ## Modules -/

/-- The view, function or procedure with its names substituted. A view is dropped before it is
made. -/
def moduleDraft (m : RunSettings) (targetSchema : String) (reserved : List String) (x : Module) :
    Draft Unit := do
  let name ← .rename (m.policy.rename x.schema x.kind.objectKind x.name)
  if x.kind = .view then .execute (Statement.dropView targetSchema name)
  let ledger ← .ledger
  .execute (substituteNames x.definition ledger reserved)

/-- A module that the source lists, and how it is to be made. -/
structure Attempt where
  module : Module
  /-- The kind under which the source lists the module. -/
  kind : ModuleKind
  steps : List Step
  /-- The error that follows the steps, if one does. -/
  outcome : Outcome Unit
  deriving Repr

structure Attempts where
  list : List Attempt
  /-- The failure of the source that ends the listing, if one does. -/
  interruption : Option MigrationError
  /-- The renamings after the last attempt. -/
  ledger : Ledger

/-- The attempts at modules of one listing, and the renamings after them. -/
def attemptListed (m : RunSettings) (targetSchema : String) (reserved : List String)
    (kind : ModuleKind) : List Module → Ledger → List Attempt × Ledger
  | [], ledger => ([], ledger)
  | x :: rest, ledger =>
    let drafted := moduleDraft m targetSchema reserved x ledger
    let later := attemptListed m targetSchema reserved kind rest drafted.ledger
    (⟨x, kind, drafted.steps, drafted.outcome⟩ :: later.1, later.2)

/-- The attempts at the modules of all listings: of each schema and kind. -/
def attemptAll (m : RunSettings) (source : Source) (reserved : List String) :
    List (PlannedSchema × ModuleKind) → Ledger → Attempts
  | [], ledger => ⟨[], none, ledger⟩
  | (schema, kind) :: rest, ledger =>
    match source.modules schema.source kind with
    | .error e => ⟨[], some e, ledger⟩
    | .ok modules =>
      let first := attemptListed m schema.target reserved kind modules ledger
      let later := attemptAll m source reserved rest first.2
      ⟨first.1 ++ later.list, later.interruption, later.ledger⟩

/-- The listings of modules: for each schema every kind in turn. -/
def listings (schemas : List PlannedSchema) : List (PlannedSchema × ModuleKind) :=
  schemas.flatMap fun s => ModuleKind.all.map fun k => (s, k)

end Plan

/-! ## The whole -/

/-- A migration that has been thought through. -/
structure Plan where
  /-- The steps up to the foreign keys. -/
  steps : List Step
  /-- The schemas and the attempts at their modules, or the error that ends the steps. -/
  outcome : Outcome (List Plan.PlannedSchema × Plan.Attempts)

/-- The plan of a migration. -/
def Plan.ofSource (m : RunSettings) (source : Source) : Plan :=
  let drafted := Plan.schemasDraft m source .empty
  { steps := drafted.steps
    outcome := drafted.outcome.map fun schemas =>
      (schemas, Plan.attemptAll m source (schemas.map (·.target)) (Plan.listings schemas)
        drafted.ledger) }

end Migration
