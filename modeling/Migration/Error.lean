import Migration.Catalog

/-
  Why a migration fails.

  An error is its cause. `MigrationError.message` has the wording, and
  `MigrationError.detailed` adds the chain of causes below a column error.
-/

namespace Migration

/-- The causes of failure. -/
inductive MigrationError where
  /-- A setting or a descriptor that cannot be used, said in words. -/
  | config (message : String)
  /-- One name of one kind would get two target names; the kind is absent when names of every
  kind were searched. -/
  | ambiguousMapping (schema : String) (kind : Option ObjectKind)
      (name existing conflicting : String)
  /-- A canonical name is longer than the target admits. -/
  | normalizationFailure (name : String) (length : Nat) (normalized : String)
      (normalizedLength maxLength : Nat)
  /-- No type template admits the type at this size. -/
  | unsupportedType (type : String) (size precision : Option Nat) (profile : String)
  /-- A dialect type that no mapping knows. -/
  | unsupportedCustomType (definition profile : String)
  /-- A default expression outside the known forms. -/
  | unsupportedDefault (definition : String)
  /-- A text that is not a sequence of tokens, with the byte offset of the fault. -/
  | tokenize (position : Nat) (message : String)
  /-- What failed at one column. -/
  | column (schema table column : String) (cause : MigrationError)
  /-- A constraint without a name. -/
  | missingConstraintName (schema table : String)
  /-- A row that could not be copied, counted from one. -/
  | transfer (table : String) (row : Nat) (message : String)
  /-- A statement that a server refused. -/
  | execution (statement message : String)
  /-- A statement that took too long. -/
  | timeout (statement : String) (seconds : Nat)
  /-- A failure of the source server, in its own words. -/
  | source (message : String)
  /-- A failure of the target server, in its own words. -/
  | target (message : String)
  /-- A failure of a file or of the network, in the system's words. -/
  | io (message : String)
  /-- A settings file that is not of the right form. -/
  | yaml (message : String)
  deriving DecidableEq, Repr, Inhabited

abbrev Outcome (α : Type) := Except MigrationError α

/-- What a step makes of each item in turn, up to the first that fails. -/
def Outcome.each {α β : Type} (step : α → Outcome β) : List α → Outcome (List β)
  | [] => .ok []
  | a :: rest => do
    let b ← step a
    let bs ← Outcome.each step rest
    return b :: bs

/-- How a message shows a number that may be absent. -/
def shownOption : Option Nat → String
  | none => "None"
  | some n => "Some(" ++ toString n ++ ")"

namespace MigrationError

def message : MigrationError → String
  | .config text => "Configuration error: " ++ text
  | .ambiguousMapping schema kind name existing conflicting =>
    let kindName := (kind.map ObjectKind.name).getD "unknown"
    s!"Ambiguous mapping. Found multiple values for {kindName} with name `{name}` "
      ++ s!"in schema `{schema}`: `{existing}` and `{conflicting}`"
  | .normalizationFailure name length normalized normalizedLength maxLength =>
    s!"Failed to normalize name '{name}' (length = {length}), "
      ++ s!"result of normalization: '{normalized}' (length = {normalizedLength}). "
      ++ s!"Max length is {maxLength}"
  | .unsupportedType type size precision profile =>
    let shownSize := shownOption size
    let shownPrecision := shownOption precision
    s!"Unsupported type {type} (size = {shownSize}, precision = {shownPrecision}) "
      ++ s!"in profile `{profile}`"
  | .unsupportedCustomType definition profile =>
    s!"Custom data type `{definition}` is not supported by `{profile}`"
  | .unsupportedDefault definition => s!"Default expression `{definition}` is not supported"
  | .tokenize position text => s!"Failed to tokenize SQL at offset {position}: {text}"
  | .column schema table field cause => s!"Column {schema}.{table}.{field}: " ++ cause.message
  | .missingConstraintName schema table => s!"Constraint on {schema}.{table} must have a name"
  | .transfer table row text => s!"Transfer failed for table {table} at row {row}: {text}"
  | .execution statement text => s!"Statement failed: {text}\n  Statement: {statement}"
  | .timeout statement seconds =>
    s!"Statement timed out after {seconds}s\n  Statement: {statement}"
  | .source text => "Source database error: " ++ text
  | .target text => "Target database error: " ++ text
  | .io text => "IO error: " ++ text
  | .yaml text => "YAML error: " ++ text

/-- The causes below an error, nearest first. -/
def causes : MigrationError → List MigrationError
  | .column _ _ _ cause => cause :: cause.causes
  | _ => []

/-- The numbered lines that name the causes, counted from `depth`. -/
def causeLines : Nat → List MigrationError → String
  | _, [] => ""
  | depth, cause :: rest =>
    s!"\nCaused by:\n  {depth}: " ++ cause.message ++ causeLines (depth + 1) rest

def detailed (e : MigrationError) : String :=
  "Error: " ++ e.message ++ "\n" ++ causeLines 1 e.causes

/-- Whether only the module at hand is at fault. -/
def isDefinitionScoped : MigrationError → Bool
  | .tokenize .. => true
  | _ => false

/-- Whether the error says that a name has two target names. -/
def isAmbiguous : MigrationError → Bool
  | .ambiguousMapping .. => true
  | _ => false

end MigrationError

end Migration
