/-
  The catalog of a database: what kinds of objects it holds, how columns are
  typed, and the descriptors that a catalog reader produces.

  A descriptor is a snapshot. Renaming never changes one in place: it yields a
  new descriptor with the target names.
-/

namespace Migration

/-! ## Kinds -/

/-- The kind of a renamed object. One spelling may name a table and an index at
once, so a renaming is always about a name of one kind. -/
inductive ObjectKind where
  | schema
  | table
  | column
  | index
  | primaryKey
  | uniqueKey
  | foreignKey
  | defaultConstraint
  | view
  | scalarFunction
  | tableFunction
  | inlineTableFunction
  | storedProcedure
  deriving DecidableEq, Repr

def ObjectKind.all : List ObjectKind :=
  [.schema, .table, .column, .index, .primaryKey, .uniqueKey, .foreignKey, .defaultConstraint,
   .view, .scalarFunction, .tableFunction, .inlineTableFunction, .storedProcedure]

/-- The kind's name as messages and reports write it. -/
def ObjectKind.name : ObjectKind → String
  | .schema => "Schema"
  | .table => "Table"
  | .column => "Column"
  | .index => "Index"
  | .primaryKey => "PrimaryKey"
  | .uniqueKey => "UniqueKey"
  | .foreignKey => "ForeignKey"
  | .defaultConstraint => "DefaultConstraint"
  | .view => "View"
  | .scalarFunction => "ScalarFunction"
  | .tableFunction => "TableFunction"
  | .inlineTableFunction => "InlineTableFunction"
  | .storedProcedure => "StoredProcedure"

def ObjectKind.ofName? (name : String) : Option ObjectKind :=
  ObjectKind.all.find? (·.name == name)

/-- The place of the kind in ledger order. -/
def ObjectKind.rank (k : ObjectKind) : Nat := k.ctorIdx

theorem ObjectKind.rank_inj {a b : ObjectKind} (h : a.rank = b.rank) : a = b := by
  cases a <;> cases b <;> first | rfl | cases h

/-- Kinds in ledger order. -/
def ObjectKind.sorted (kinds : List ObjectKind) : List ObjectKind :=
  kinds.mergeSort (fun a b => a.rank ≤ b.rank)

/-- A column type of no particular dialect. -/
inductive ColumnType where
  | ansiString
  | ansiStringFixedLength
  | binary
  | boolean
  | byte
  | currency
  | date
  | dateTime
  | dateTime2
  | dateTimeOffset
  | decimal
  | double
  | guid
  | int16
  | int32
  | int64
  | single
  | string
  | stringFixedLength
  | time
  | xml
  deriving DecidableEq, Repr

def ColumnType.all : List ColumnType :=
  [.ansiString, .ansiStringFixedLength, .binary, .boolean, .byte, .currency, .date, .dateTime,
   .dateTime2, .dateTimeOffset, .decimal, .double, .guid, .int16, .int32, .int64, .single,
   .string, .stringFixedLength, .time, .xml]

def ColumnType.name : ColumnType → String
  | .ansiString => "AnsiString"
  | .ansiStringFixedLength => "AnsiStringFixedLength"
  | .binary => "Binary"
  | .boolean => "Boolean"
  | .byte => "Byte"
  | .currency => "Currency"
  | .date => "Date"
  | .dateTime => "DateTime"
  | .dateTime2 => "DateTime2"
  | .dateTimeOffset => "DateTimeOffset"
  | .decimal => "Decimal"
  | .double => "Double"
  | .guid => "Guid"
  | .int16 => "Int16"
  | .int32 => "Int32"
  | .int64 => "Int64"
  | .single => "Single"
  | .string => "String"
  | .stringFixedLength => "StringFixedLength"
  | .time => "Time"
  | .xml => "Xml"

def ColumnType.ofName? (name : String) : Option ColumnType :=
  ColumnType.all.find? (·.name == name)

def ColumnType.rank (t : ColumnType) : Nat := t.ctorIdx

/-- Whether a column's size says something about this type. A catalog reports
sizes for fixed-width types too, which mean nothing. -/
def ColumnType.isSized : ColumnType → Bool
  | .ansiString | .ansiStringFixedLength | .binary | .decimal | .string | .stringFixedLength
  | .dateTimeOffset => true
  | _ => false

inductive ConstraintKind where
  | primaryKey
  | uniqueKey
  | foreignKey
  | default
  deriving DecidableEq, Repr

namespace ConstraintKind

def all : List ConstraintKind := [.primaryKey, .uniqueKey, .foreignKey, .default]

def name : ConstraintKind → String
  | .primaryKey => "PrimaryKey"
  | .uniqueKey => "UniqueKey"
  | .foreignKey => "ForeignKey"
  | .default => "Default"

def ofName? (name : String) : Option ConstraintKind := all.find? (·.name == name)

/-- The kind under which a constraint's name is renamed. -/
def objectKind : ConstraintKind → ObjectKind
  | .primaryKey => .primaryKey
  | .uniqueKey => .uniqueKey
  | .foreignKey => .foreignKey
  | .default => .defaultConstraint

end ConstraintKind

inductive ModuleKind where
  | view
  | scalarFunction
  | tableFunction
  | inlineTableFunction
  | storedProcedure
  deriving DecidableEq, Repr

namespace ModuleKind

def all : List ModuleKind :=
  [.view, .scalarFunction, .tableFunction, .inlineTableFunction, .storedProcedure]

/-- The kind under which a module's name is renamed. -/
def objectKind : ModuleKind → ObjectKind
  | .view => .view
  | .scalarFunction => .scalarFunction
  | .tableFunction => .tableFunction
  | .inlineTableFunction => .inlineTableFunction
  | .storedProcedure => .storedProcedure

def name (k : ModuleKind) : String := k.objectKind.name

def ofName? (name : String) : Option ModuleKind := all.find? (·.name == name)

end ModuleKind

/-! ## Descriptors -/

/-- A schema and, where the catalog tells, its owner. -/
structure Schema where
  name : String
  owner : Option String := none
  deriving DecidableEq, Repr

/-- A column. Without a `type` it is known by its dialect type name only. -/
structure Column where
  name : String
  isNullable : Bool := true
  type : Option ColumnType := none
  /-- The type name as the catalog reports it. -/
  dialectType : String := ""
  /-- The length of strings and binaries, the precision of decimals; absent when unbounded. -/
  size : Option Nat := none
  /-- The scale of decimals. -/
  precision : Option Nat := none
  /-- Whether the type is an alias or another type made by a user. -/
  isUserDefined : Bool := false
  deriving DecidableEq, Repr

/-- A primary, unique or foreign key, or a default. The later fields are absent
where the kind has no use for them. -/
structure Constraint where
  schema : String
  table : String
  name : String
  kind : ConstraintKind
  /-- The constrained columns, in key order. -/
  fields : List String := []
  referencedSchema : Option String := none
  referencedTable : Option String := none
  referencedFields : List String := []
  onUpdate : Option String := none
  onDelete : Option String := none
  /-- The expression of a default. -/
  definition : Option String := none
  /-- The type of the column with the default. -/
  valueType : Option ColumnType := none
  deriving DecidableEq, Repr

/-- Schema and table joined by a point, unquoted. -/
def Constraint.fullTableName (c : Constraint) : String := c.schema ++ "." ++ c.table

/-- An index. -/
structure Index where
  schema : String
  table : String
  name : String
  /-- The key columns, in key order. -/
  keyColumns : List String := []
  /-- The columns that are covered but not part of the key. -/
  includedColumns : List String := []
  isUnique : Bool := false
  deriving DecidableEq, Repr

/-- Statistics that the source made on its own account. -/
structure Statistics where
  schema : String
  table : String
  name : String
  columns : List String := []
  deriving DecidableEq, Repr

/-- Statistics become a plain index over the same columns. -/
def Statistics.toIndex (s : Statistics) : Index :=
  { schema := s.schema, table := s.table, name := s.name, keyColumns := s.columns }

def minInt64 : Int := -9223372036854775808

def maxInt64 : Int := 9223372036854775807

/-- A column that numbers its rows. -/
structure Identity where
  schema : String
  table : String
  column : String
  seed : Int := 1
  increment : Int := 1
  /-- The last number given out, once there was one. -/
  lastValue : Option Int := none
  deriving DecidableEq, Repr

/-- The first number the new column gives out: the one after the last, held
within 64 bits, so that no copied row is met again. -/
def Identity.startValue (i : Identity) : Int :=
  match i.lastValue with
  | some last => max minInt64 (min maxInt64 (last + i.increment))
  | none => i.seed

/-- The text of a view, function or procedure. -/
structure Module where
  schema : String
  name : String
  definition : String
  kind : ModuleKind
  deriving DecidableEq, Repr

end Migration
