import Migration.Settings
import Migration.Yaml.Node

/-
  Settings from a document.

  A setting of text takes any scalar as it is written. Numbers and truth values
  must be plain. Entries that name no setting are passed over; a setting must not
  be given twice, and those without a default must be given.
-/

namespace Migration

open Naming (NamingPolicy)
open Yaml (Document Node fault)

namespace Settings

/-! ## Scalars -/

/-- Whether a scalar may be read as the type with this tag: plain, or a block that has the tag. -/
def isReadAs (type : String) (style : Yaml.Style) (tag : Option Yaml.Tag) : Bool :=
  style == .plain || (style == .literal && tag == some (.ofType type))

def textOf : Node → Outcome String
  | .scalar text _ _ => .ok text
  | _ => fault "a text is expected"

def boolOf : Node → Outcome Bool
  | .scalar text style tag =>
    if !isReadAs "bool" style tag then fault "a truth value is expected"
    else if ["true", "True", "TRUE"].contains text then .ok true
    else if ["false", "False", "FALSE"].contains text then .ok false
    else fault "a truth value is expected"
  | _ => fault "a truth value is expected"

def digitOf? (base : Nat) (c : Char) : Option Nat := (Text.hexValue? c).filter (· < base)

/-- The number that digits of a base write, given the number before them. -/
def digitsAfter (base : Nat) : Nat → List Char → Option Nat
  | n, [] => some n
  | n, c :: rest => (digitOf? base c).bind fun v => digitsAfter base (n * base + v) rest

/-- The number that digits write, with a sign before them or none. -/
def digitsOf? (base : Nat) (cs : List Char) : Option Nat :=
  if cs.isEmpty then none else digitsAfter base 0 cs

/-- The digits without a plus sign. -/
def withoutPlus : List Char → List Char
  | '+' :: rest => rest
  | cs => cs

/-- A number in decimal digits without leading zeros, or in another base, after the sign. -/
def unsignedOf? (cs : List Char) : Option Nat :=
  match withoutPlus cs with
  | '0' :: 'x' :: rest => digitsOf? 16 rest
  | '0' :: 'o' :: rest => digitsOf? 8 rest
  | '0' :: 'b' :: rest => digitsOf? 2 rest
  | '0' :: _ :: _ => none
  | digits => digitsOf? 10 digits

/-- A number up to `max`. -/
def numberOf (max : Nat) : Node → Outcome Nat
  | .scalar text style tag =>
    match if isReadAs "int" style tag then unsignedOf? text.toList else none with
    | some n => if n ≤ max then .ok n else fault "a number is too great"
    | none => fault "a number is expected"
  | _ => fault "a number is expected"

/-- Whether a scalar stands for nothing. -/
def isVoid (text : String) : Bool := ["", "~", "null", "Null", "NULL"].contains text

/-- A naming policy: a scalar that names it, or a tag that does, before nothing. -/
def policyOf : Node → Outcome NamingPolicy
  | .scalar text style tag =>
    let name := match tag.bind Yaml.Tag.ownName? with
      | some name => if style = .plain ∧ isVoid text then name else ""
      | none => text
    match NamingPolicy.ofName? name with
    | some policy => .ok policy
    | none => fault "a naming policy is expected"
  | _ => fault "a naming policy is expected"

/-- A list of texts; nothing written is an empty one. -/
def textsOf (d : Document) : Node → Outcome (List String)
  | .sequence items => Outcome.each textOf (items.map d.resolve)
  | .scalar "" .plain _ => .ok []
  | _ => fault "a list is expected"

/-! ## Records -/

/-- The entries of a mapping whose keys are among the names, which must not repeat. -/
def knownEntries (d : Document) (names : List String) :
    List (Node × Node) → Outcome (List (String × Node))
  | [] => .ok []
  | (key, value) :: rest => do
    let name ← textOf (d.resolve key)
    let later ← knownEntries d names rest
    if !names.contains name then return later
    else if (later.lookup name).isSome then fault s!"duplicate field `{name}`"
    else return (name, d.resolve value) :: later

/-- The settings that a node gives; nothing written gives none. -/
def entriesOf (d : Document) (names : List String) : Node → Outcome (List (String × Node))
  | .mapping entries => knownEntries d names entries
  | .scalar "" .plain _ => .ok []
  | _ => fault "a mapping is expected"

def required {α : Type} (entries : List (String × Node)) (name : String)
    (read : Node → Outcome α) : Outcome α :=
  match entries.lookup name with
  | some n => read n
  | none => fault s!"missing field `{name}`"

/-- A setting with a default. -/
def withDefault {α : Type} (entries : List (String × Node)) (name : String) (default : α)
    (read : Node → Outcome α) : Outcome α :=
  match entries.lookup name with
  | some n => read n
  | none => .ok default

def maxTcpPort : Nat := 65535

def maxSeconds : Nat := 18446744073709551615

def sourceOf (d : Document) (n : Node) : Outcome SourceSettings := do
  let e ← entriesOf d
    ["host", "port", "database", "user", "password", "encrypt", "trust_server_cert"] n
  return { host := ← required e "host" textOf
           tcpPort := ← withDefault e "port" 1433 (numberOf maxTcpPort)
           database := ← required e "database" textOf
           user := ← required e "user" textOf
           password := ← withDefault e "password" "" textOf
           encrypt := ← withDefault e "encrypt" true boolOf
           trustServerCert := ← withDefault e "trust_server_cert" false boolOf }

def targetOf (d : Document) (n : Node) : Outcome TargetSettings := do
  let e ← entriesOf d ["host", "port", "database", "user", "password", "ssl_mode"] n
  return { host := ← required e "host" textOf
           tcpPort := ← withDefault e "port" 5432 (numberOf maxTcpPort)
           database := ← required e "database" textOf
           user := ← required e "user" textOf
           password := ← withDefault e "password" "" textOf
           sslMode := ← withDefault e "ssl_mode" "require" textOf }

def migrationOf (d : Document) (n : Node) : Outcome RunSettings := do
  let e ← entriesOf d
    ["naming_policy", "skip_data_for_tables", "schema_only", "use_citext", "skip_failed_modules",
     "statement_timeout_secs"] n
  return { policy := ← withDefault e "naming_policy" .canonicalizing policyOf
           skippedTables := ← withDefault e "skip_data_for_tables" [] (textsOf d)
           schemaOnly := ← withDefault e "schema_only" false boolOf
           citext := ← withDefault e "use_citext" false boolOf
           skipFailedModules := ← withDefault e "skip_failed_modules" true boolOf
           timeoutSeconds := ← withDefault e "statement_timeout_secs" 600 (numberOf maxSeconds) }

def ofDocument (d : Document) : Outcome Settings := do
  let e ← entriesOf d ["source", "target", "migration"] (d.resolve d.root)
  return { source := ← required e "source" (sourceOf d)
           target := ← required e "target" (targetOf d)
           migration := ← withDefault e "migration" {} (migrationOf d) }

/-- Settings that can be used, from a document. -/
def validated (d : Document) : Outcome Settings := do
  let settings ← ofDocument d
  settings.validate
  return settings

/-- Settings that can be used, from the text of a file. -/
def ofText (text : String) : Outcome Settings := do
  validated (← Document.ofText text)

end Settings

end Migration
