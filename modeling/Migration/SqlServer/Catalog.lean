import Migration.Source
import Migration.SqlServer.Exchange
import Migration.TypeMap.SqlServer

/-
  The catalog of SQL Server: the queries for descriptors, and how their rows are
  read.

  Keys, foreign keys, indexes and statistics come with one row for each column. Rows
  in a row that name one object make up one descriptor. The cells of a row are read in
  a fixed order, so of several that have another type the first of these is told.
-/

namespace Migration.SqlServer

/-- A question to the catalog: a query, its parameters, and the reading of its rows. -/
structure Query (α : Type) where
  sql : String
  parameters : List (Option String) := []
  read : List WireRow → Outcome α

namespace Query

def request {α : Type} (q : Query α) : Request :=
  { sql := q.sql, parameters := q.parameters.map fun p => p.map .nvarchar }

def answer {α : Type} (q : Query α) (seconds : Nat) (reply : Reply) : Outcome α := do
  q.read (← collected q.sql seconds reply)

end Query

/-- The text of a query, its lines indented. -/
def sqlOf (lines : List String) : String :=
  "\n" ++ String.join (lines.map fun line => "    " ++ line ++ "\n")

/-- Rows that are read one by one, those next to each other together that are of one object. -/
def grouped {ρ : Type} (isSame : ρ → ρ → Bool) (rows : List ρ) : List (List ρ) :=
  rows.splitBy isSame

/-! ## Schemas and tables -/

def schemas : Query (List Schema) where
  sql := sqlOf
    ["SELECT s.name, p.name",
     "FROM sys.schemas s",
     "LEFT JOIN sys.database_principals p ON p.principal_id = s.principal_id",
     "WHERE s.name NOT IN ('sys', 'INFORMATION_SCHEMA')",
     "ORDER BY s.name"]
  read := Outcome.each fun row => do
    return { name := ← textAt row 0, owner := ← text? row 1 }

/-- Whether a schema has no objects. -/
def isSchemaEmpty (schema : String) : Query Bool where
  sql := sqlOf
    ["SELECT COUNT(*)",
     "FROM sys.objects o",
     "JOIN sys.schemas s ON s.schema_id = o.schema_id",
     "WHERE s.name = @P1 AND o.is_ms_shipped = 0"]
  parameters := [some schema]
  read
    | [] => .ok true
    | row :: _ => do return (← int? row 0).getD 0 == 0

def tables (schema : String) : Query (List String) where
  sql := sqlOf
    ["SELECT t.name",
     "FROM sys.tables t",
     "JOIN sys.schemas s ON s.schema_id = t.schema_id",
     "WHERE s.name = @P1 AND t.is_ms_shipped = 0",
     "ORDER BY t.name"]
  parameters := [some schema]
  read := Outcome.each fun row => textAt row 0

/-! ## Columns -/

/-- A size of 32 bits without sign. -/
def sizeOf (n : Int32) : Nat := n.toUInt32.toNat

/-- The size of a column: its length, which is unbounded below zero, else its precision. -/
def columnSize (maxLength precision : Option Int32) : Option Nat :=
  match maxLength with
  | some length => if length < 0 then none else some (sizeOf length)
  | none => precision.map sizeOf

def columnOf (row : WireRow) : Outcome Column := do
  let name ← textAt row 0
  let type ← textAt row 2
  let precision ← int? row 3
  let scale ← int? row 4
  let maxLength ← int? row 5
  let isNullable ← textAt row 1
  let isUserDefined ← int? row 6
  return { name
           isNullable := Text.sameIgnoringAsciiCase isNullable "yes"
           type := sqlServerTypes.classify type
           dialectType := type
           size := columnSize maxLength precision
           precision := scale.map sizeOf
           isUserDefined := isUserDefined == some 1 }

def columns (schema table : String) : Query (List Column) where
  sql := sqlOf
    ["SELECT",
     "    COLUMN_NAME,",
     "    IS_NULLABLE,",
     "    DATA_TYPE,",
     "    CAST(NUMERIC_PRECISION AS INT),",
     "    CAST(NUMERIC_SCALE AS INT),",
     "    CHARACTER_MAXIMUM_LENGTH,",
     "    CASE WHEN DOMAIN_NAME IS NULL THEN 0 ELSE 1 END",
     "FROM INFORMATION_SCHEMA.COLUMNS",
     "WHERE TABLE_SCHEMA = @P1 AND TABLE_NAME = @P2",
     "ORDER BY ORDINAL_POSITION"]
  parameters := [some schema, some table]
  read := Outcome.each columnOf

/-! ## Keys and defaults -/

/-- A column of a key. -/
structure KeyRow where
  name : String
  column : String
  deriving DecidableEq, Repr

def keyRow (row : WireRow) : Outcome KeyRow := do
  return { name := ← textAt row 0, column := ← textAt row 1 }

def keysOf (schema table : String) (kind : ConstraintKind) (rows : List KeyRow) :
    List Constraint :=
  (grouped (fun a b => a.name == b.name) rows).filterMap fun g =>
    g.head?.map fun first =>
      { schema, table, name := first.name, kind, fields := g.map KeyRow.column }

/-- The keys of a table with this type code. -/
def keys (schema table code : String) (kind : ConstraintKind) : Query (List Constraint) where
  sql := sqlOf
    ["SELECT kc.name, c.name",
     "FROM sys.key_constraints kc",
     "JOIN sys.tables t ON t.object_id = kc.parent_object_id",
     "JOIN sys.schemas s ON s.schema_id = t.schema_id",
     "JOIN sys.index_columns ic ON ic.object_id = kc.parent_object_id "
       ++ "AND ic.index_id = kc.unique_index_id",
     "JOIN sys.columns c ON c.object_id = ic.object_id AND c.column_id = ic.column_id",
     "WHERE s.name = @P1 AND t.name = @P2 AND kc.type = @P3",
     "ORDER BY kc.name, ic.key_ordinal"]
  parameters := [some schema, some table, some code]
  read := fun rows => do return keysOf schema table kind (← Outcome.each keyRow rows)

/-- The primary key of a table. Of several the last counts. -/
def primaryKey (schema table : String) : Query (Option Constraint) :=
  let all := keys schema table "PK" .primaryKey
  { sql := all.sql, parameters := all.parameters
    read := fun rows => do return (← all.read rows).getLast? }

def uniqueKeys (schema table : String) : Query (List Constraint) :=
  keys schema table "UQ" .uniqueKey

/-- Takes one more row into the foreign keys found so far, the latest first. A row with the name of
the latest goes on with it. Any other begins a key, and only of such a row it is read what the key
refers to. -/
def addForeignKeyRow (schema table : String) (found : List Constraint) (row : WireRow) :
    Outcome (List Constraint) := do
  let name ← textAt row 0
  let column ← textAt row 1
  let referencedColumn ← textAt row 4
  match found.head?.filter (·.name == name) with
  | some latest =>
    return { latest with
             fields := latest.fields ++ [column]
             referencedFields := latest.referencedFields ++ [referencedColumn] } :: found.tail
  | none =>
    return { schema, table, name, kind := .foreignKey, fields := [column]
             referencedSchema := some (← textAt row 2)
             referencedTable := some (← textAt row 3)
             referencedFields := [referencedColumn]
             onDelete := some (← textAt row 5)
             onUpdate := some (← textAt row 6) } :: found

def foreignKeys (schema table : String) : Query (List Constraint) where
  sql := sqlOf
    ["SELECT",
     "    fk.name,",
     "    pc.name,",
     "    rs.name,",
     "    rt.name,",
     "    rc.name,",
     "    fk.delete_referential_action_desc,",
     "    fk.update_referential_action_desc",
     "FROM sys.foreign_keys fk",
     "JOIN sys.foreign_key_columns fkc ON fkc.constraint_object_id = fk.object_id",
     "JOIN sys.tables pt ON pt.object_id = fk.parent_object_id",
     "JOIN sys.schemas ps ON ps.schema_id = pt.schema_id",
     "JOIN sys.columns pc ON pc.object_id = fkc.parent_object_id "
       ++ "AND pc.column_id = fkc.parent_column_id",
     "JOIN sys.tables rt ON rt.object_id = fk.referenced_object_id",
     "JOIN sys.schemas rs ON rs.schema_id = rt.schema_id",
     "JOIN sys.columns rc ON rc.object_id = fkc.referenced_object_id "
       ++ "AND rc.column_id = fkc.referenced_column_id",
     "WHERE ps.name = @P1 AND pt.name = @P2",
     "ORDER BY fk.name, fkc.constraint_column_id"]
  parameters := [some schema, some table]
  read := fun rows => do return (← rows.foldlM (addForeignKeyRow schema table) []).reverse

def defaults (schema table column : String) : Query (List Constraint) where
  sql := sqlOf
    ["SELECT d.name, d.definition, TYPE_NAME(c.system_type_id)",
     "FROM sys.default_constraints d",
     "JOIN sys.tables t ON t.object_id = d.parent_object_id",
     "JOIN sys.schemas s ON s.schema_id = t.schema_id",
     "JOIN sys.columns c ON c.object_id = t.object_id AND c.column_id = d.parent_column_id",
     "WHERE s.name = @P1 AND t.name = @P2 AND c.name = @P3",
     "ORDER BY d.name"]
  parameters := [some schema, some table, some column]
  read := Outcome.each fun row => do
    return { schema, table, name := ← textAt row 0, kind := .default, fields := [column]
             definition := some (← textAt row 1)
             valueType := sqlServerTypes.classify (← textAt row 2) }

/-! ## Indexes and statistics -/

structure IndexRow where
  table : String
  name : String
  isUnique : Bool
  column : String
  isIncluded : Bool
  deriving DecidableEq, Repr

def indexRow (row : WireRow) : Outcome IndexRow := do
  return { table := ← textAt row 0, name := ← textAt row 1, isUnique := ← bitAt row 2,
           column := ← textAt row 3, isIncluded := ← bitAt row 4 }

def indexesOf (schema : String) (rows : List IndexRow) : List Index :=
  (grouped (fun a b => a.table == b.table && a.name == b.name) rows).filterMap fun g =>
    g.head?.map fun first =>
      { schema, table := first.table, name := first.name
        keyColumns := (g.filter (!·.isIncluded)).map IndexRow.column
        includedColumns := (g.filter (·.isIncluded)).map IndexRow.column
        isUnique := first.isUnique }

/-- The indexes of a table, or of all tables of a schema where none is given. -/
def indexes (schema : String) (table : Option String) : Query (List Index) where
  sql := sqlOf
    ["SELECT t.name, i.name, i.is_unique, c.name, ic.is_included_column",
     "FROM sys.indexes i",
     "JOIN sys.tables t ON t.object_id = i.object_id",
     "JOIN sys.schemas s ON s.schema_id = t.schema_id",
     "JOIN sys.index_columns ic ON ic.object_id = i.object_id AND ic.index_id = i.index_id",
     "JOIN sys.columns c ON c.object_id = ic.object_id AND c.column_id = ic.column_id",
     "WHERE s.name = @P1",
     "  AND (@P2 IS NULL OR t.name = @P2)",
     "  AND i.is_primary_key = 0",
     "  AND i.is_unique_constraint = 0",
     "  AND i.is_hypothetical = 0",
     "  AND i.type > 0",
     "ORDER BY t.name, i.name, ic.is_included_column, ic.key_ordinal, ic.index_column_id"]
  parameters := [some schema, table]
  read := fun rows => do return indexesOf schema (← Outcome.each indexRow rows)

structure StatisticsRow where
  table : String
  name : String
  column : String
  deriving DecidableEq, Repr

def statisticsRow (row : WireRow) : Outcome StatisticsRow := do
  return { table := ← textAt row 0, name := ← textAt row 1, column := ← textAt row 2 }

def statisticsOf (schema : String) (rows : List StatisticsRow) : List Statistics :=
  (grouped (fun a b => a.table == b.table && a.name == b.name) rows).filterMap fun g =>
    g.head?.map fun first =>
      { schema, table := first.table, name := first.name
        columns := g.map StatisticsRow.column }

/-- The statistics of a schema that the server made on its own account. -/
def statistics (schema : String) : Query (List Statistics) where
  sql := sqlOf
    ["SELECT t.name, st.name, c.name",
     "FROM sys.stats st",
     "JOIN sys.tables t ON t.object_id = st.object_id",
     "JOIN sys.schemas s ON s.schema_id = t.schema_id",
     "JOIN sys.stats_columns sc ON sc.object_id = st.object_id AND sc.stats_id = st.stats_id",
     "JOIN sys.columns c ON c.object_id = sc.object_id AND c.column_id = sc.column_id",
     "WHERE s.name = @P1 AND st.auto_created = 1",
     "ORDER BY t.name, st.name, sc.stats_column_id"]
  parameters := [some schema]
  read := fun rows => do return statisticsOf schema (← Outcome.each statisticsRow rows)

/-! ## Identity columns and modules -/

def identities (schema table : String) : Query (List Identity) where
  sql := sqlOf
    ["SELECT",
     "    c.name,",
     "    CAST(c.seed_value AS BIGINT),",
     "    CAST(c.increment_value AS BIGINT),",
     "    CAST(c.last_value AS BIGINT)",
     "FROM sys.identity_columns c",
     "JOIN sys.tables t ON t.object_id = c.object_id",
     "JOIN sys.schemas s ON s.schema_id = t.schema_id",
     "WHERE s.name = @P1 AND t.name = @P2",
     "ORDER BY c.column_id"]
  parameters := [some schema, some table]
  read := Outcome.each fun row => do
    return { schema, table, column := ← textAt row 0
             seed := ((← bigint? row 1).getD 1).toInt
             increment := ((← bigint? row 2).getD 1).toInt
             lastValue := (← bigint? row 3).map Int64.toInt }

/-- The code of a kind of modules in the catalog. -/
def moduleCode : ModuleKind → String
  | .view => "V"
  | .scalarFunction => "FN"
  | .tableFunction => "TF"
  | .inlineTableFunction => "IF"
  | .storedProcedure => "P"

/-- A module, unless its text is kept secret. -/
def moduleOf (schema : String) (kind : ModuleKind) (row : WireRow) : Outcome (Option Module) := do
  let name ← textAt row 0
  return (← text? row 1).map fun definition => { schema, name, definition, kind }

/-- The modules of a schema and kind whose text can be read. -/
def modules (schema : String) (kind : ModuleKind) : Query (List Module) where
  sql := sqlOf
    ["SELECT o.name, m.definition",
     "FROM sys.sql_modules m",
     "JOIN sys.objects o ON o.object_id = m.object_id",
     "JOIN sys.schemas s ON s.schema_id = o.schema_id",
     "WHERE s.name = @P1 AND o.type = @P2 AND o.is_ms_shipped = 0",
     "ORDER BY o.name"]
  parameters := [some schema, some (moduleCode kind)]
  read := fun rows => do return (← Outcome.each (moduleOf schema kind) rows).filterMap id

/-! ## The server as a source -/

/-- A server as the source of a migration, given its reply to each request. -/
def source (server : Request → Reply) (seconds : Nat) : Source :=
  let ask {α : Type} (q : Query α) : Outcome α := q.answer seconds (server q.request)
  { schemas := ask schemas
    isSchemaEmpty := fun schema => ask (isSchemaEmpty schema)
    tables := fun schema => ask (tables schema)
    columns := fun schema table => ask (columns schema table)
    primaryKey := fun schema table => ask (primaryKey schema table)
    uniqueKeys := fun schema table => ask (uniqueKeys schema table)
    foreignKeys := fun schema table => ask (foreignKeys schema table)
    defaults := fun schema table column => ask (defaults schema table column)
    identities := fun schema table => ask (identities schema table)
    indexes := fun schema => ask (indexes schema none)
    statistics := fun schema => ask (statistics schema)
    modules := fun schema kind => ask (modules schema kind)
    scalar := fun sql => firstCell sql seconds (server { sql })
    rows := fun sql => (cursorRows sql seconds (server { sql })).map CursorRows.toList }

end Migration.SqlServer
