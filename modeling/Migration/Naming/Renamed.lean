import Migration.Naming.Ledger
import Migration.Naming.Policy
import Migration.Text.Blank

/-
  Renaming of names and of whole descriptors.

  A step yields the renamed value together with the renamings that led to it, in
  order. It keeps no state: whether two renamings agree is for the ledger to
  decide.
-/

namespace Migration.Naming

/-- A renamed value and the renamings that led to it. -/
structure Renamed (α : Type) where
  value : α
  events : List Renaming
  deriving Repr

/-- A step that renames and may fail. -/
def Renames (α : Type) : Type := Outcome (Renamed α)

namespace Renames

def keep {α : Type} (a : α) : Renames α := .ok ⟨a, []⟩

def andThen {α β : Type} (m : Renames α) (f : α → Renames β) : Renames β :=
  match m with
  | .error e => .error e
  | .ok first =>
    match f first.value with
    | .error e => .error e
    | .ok second => .ok ⟨second.value, first.events ++ second.events⟩

instance : Monad Renames where
  pure := keep
  bind := andThen

def fail {α : Type} (e : MigrationError) : Renames α := .error e

end Renames

namespace NamingPolicy

def rename (policy : NamingPolicy) (schema : String) (kind : ObjectKind) (raw : String) :
    Renames String :=
  match policy.apply kind raw with
  | .error e => .error e
  | .ok target => .ok ⟨target.name, [⟨schema, kind, raw, target.name, target.normalized⟩]⟩

def renameOption (policy : NamingPolicy) (schema : String) (kind : ObjectKind) :
    Option String → Renames (Option String)
  | none => pure none
  | some raw => do
    let name ← policy.rename schema kind raw
    return some name

/-- Renames a schema, which belongs to itself. -/
def renameSchema (policy : NamingPolicy) (raw : String) : Renames String :=
  policy.rename raw .schema raw

def renameTable (policy : NamingPolicy) (schema raw : String) : Renames String :=
  policy.rename schema .table raw

def renameColumn (policy : NamingPolicy) (schema raw : String) : Renames String :=
  policy.rename schema .column raw

def renameColumns (policy : NamingPolicy) (schema : String) : List String → Renames (List String)
  | [] => pure []
  | raw :: rest => do
    let name ← policy.renameColumn schema raw
    let names ← policy.renameColumns schema rest
    return name :: names

def renameSchemaOption (policy : NamingPolicy) : Option String → Renames (Option String)
  | none => pure none
  | some raw => do
    let name ← policy.renameSchema raw
    return some name

/-- Renames every name of a constraint. What a foreign key refers to is renamed under the schema
that it refers to, its own where none is given. -/
def renameConstraint (policy : NamingPolicy) (c : Constraint) : Renames Constraint :=
  if (Text.trimmed c.name.toList).isEmpty then .fail (.missingConstraintName c.schema c.table)
  else do
    let referred := c.referencedSchema.getD c.schema
    let schema ← policy.renameSchema c.schema
    let table ← policy.renameTable c.schema c.table
    let name ← policy.rename c.schema c.kind.objectKind c.name
    let fields ← policy.renameColumns c.schema c.fields
    let referencedSchema ← policy.renameSchemaOption c.referencedSchema
    let referencedTable ← policy.renameOption referred .table c.referencedTable
    let referencedFields ← policy.renameColumns referred c.referencedFields
    return { c with schema, table, name, fields, referencedSchema, referencedTable,
                    referencedFields }

def renameIndex (policy : NamingPolicy) (i : Index) : Renames Index := do
  let schema ← policy.renameSchema i.schema
  let table ← policy.renameTable i.schema i.table
  let name ← policy.rename i.schema .index i.name
  let keyColumns ← policy.renameColumns i.schema i.keyColumns
  let includedColumns ← policy.renameColumns i.schema i.includedColumns
  return { i with schema, table, name, keyColumns, includedColumns }

def renameIdentity (policy : NamingPolicy) (i : Identity) : Renames Identity := do
  let schema ← policy.renameSchema i.schema
  let table ← policy.renameTable i.schema i.table
  let column ← policy.renameColumn i.schema i.column
  return { i with schema, table, column }

end NamingPolicy

end Migration.Naming
