import Migration.Naming.Policy
import Migration.Text.Blank
import Migration.Text.Display

/-
  The settings of a migration: the two databases and how to migrate.

  `Settings.validate` refuses settings that cannot work, with the first fault in
  the order source, target, both, migration. `Settings.display` shows settings
  without their passwords.
-/

namespace Migration

open Naming (NamingPolicy)

/-! ## Encryption of the target connection -/

/-- How the connection to the target is protected. -/
inductive SslMode where
  /-- No encryption. -/
  | disable
  /-- Encryption without a check of the certificate. -/
  | require
  /-- Encryption with a check of the certificate and of the host name. -/
  | verifyFull
  deriving DecidableEq, Repr

namespace SslMode

/-- The mode that a text names, in any case. A text that names none is shown in lower case. -/
def ofText (text : String) : Outcome SslMode :=
  let name := Text.lowercase text
  if name = "disable" then .ok .disable
  else if name = "require" then .ok .require
  else if name = "verify-full" then .ok .verifyFull
  else
    .error (.config
      s!"Invalid ssl_mode '{name}'. Valid values: disable, require, verify-full")

def isEncrypted : SslMode → Bool
  | .disable => false
  | _ => true

end SslMode

/-! ## Settings -/

structure SourceSettings where
  host : String
  tcpPort : Nat := 1433
  database : String
  user : String
  password : String := ""
  /-- Whether the connection is encrypted. -/
  encrypt : Bool := true
  /-- Whether any certificate of the server is taken. -/
  trustServerCert : Bool := false
  deriving DecidableEq, Repr

structure TargetSettings where
  host : String
  tcpPort : Nat := 5432
  database : String
  user : String
  password : String := ""
  sslMode : String := "require"
  deriving DecidableEq, Repr

/-- How to migrate. -/
structure RunSettings where
  policy : NamingPolicy := .canonicalizing
  /-- Tables that are made but not filled, each as schema and table with a point between. -/
  skippedTables : List String := []
  /-- Whether no table is filled. -/
  schemaOnly : Bool := false
  /-- Whether every column of text compares without regard to case. -/
  citext : Bool := false
  /-- Whether a module that fails is passed over. -/
  skipFailedModules : Bool := true
  /-- The seconds after which a statement is given up. -/
  timeoutSeconds : Nat := 600
  deriving DecidableEq, Repr

structure Settings where
  source : SourceSettings
  target : TargetSettings
  migration : RunSettings := {}
  deriving DecidableEq, Repr

/-! ## Tables without data -/

/-- The parts of a text before and after its first point. -/
def splitAtPoint : List Char → Option (List Char × List Char)
  | [] => none
  | c :: rest =>
    if c = '.' then some ([], rest)
    else (splitAtPoint rest).map fun parts => (c :: parts.1, parts.2)

/-- Whether an entry names this table, in any mix of ASCII cases. -/
def entryNames (schema table entry : String) : Bool :=
  match splitAtPoint entry.toList with
  | some (s, t) =>
    Text.sameIgnoringAsciiCase (String.ofList s) schema
      && Text.sameIgnoringAsciiCase (String.ofList t) table
  | none => false

/-- Whether an entry is a schema and a table with one point between them. -/
def isTableEntry (entry : String) : Bool :=
  match splitAtPoint entry.toList with
  | some (s, t) => !s.isEmpty && !t.isEmpty && !t.contains '.'
  | none => false

/-- Whether the rows of a source table are copied. -/
def RunSettings.copiesDataFor (m : RunSettings) (schema table : String) : Bool :=
  !m.schemaOnly && !m.skippedTables.any (entryNames schema table)

/-! ## Faults -/

inductive SettingsFault where
  /-- A setting of an endpoint is blank. -/
  | missing (part field : String)
  | sameEndpoint (target : TargetSettings)
  | tableEntry (entry : String)
  | noTimeout
  deriving DecidableEq, Repr

def SettingsFault.message : SettingsFault → String
  | .missing part field => part ++ "." ++ field ++ " is required"
  | .sameEndpoint target =>
    s!"source and target both point at {target.host}:{target.tcpPort}/{target.database}"
  | .tableEntry entry =>
    s!"migration.skip_data_for_tables: expected 'schema.table', got '{entry}'"
  | .noTimeout => "migration.statement_timeout_secs must be positive"

/-- The first of the named settings of an endpoint that is blank. -/
def blankField? (part : String) (fields : List (String × String)) : Option SettingsFault :=
  (fields.find? (fun f => (Text.trimmed f.2.toList).isEmpty)).map fun f => .missing part f.1

/-- Whether both endpoints are one database. Hosts are compared without regard to ASCII case. -/
def Settings.sameEndpoint (s : Settings) : Bool :=
  Text.sameIgnoringAsciiCase s.source.host s.target.host
    && s.source.tcpPort == s.target.tcpPort && s.source.database == s.target.database

/-- The first fault of the settings for the run. -/
def RunSettings.fault? (m : RunSettings) : Option SettingsFault :=
  match m.skippedTables.find? (fun entry => !isTableEntry entry) with
  | some entry => some (.tableEntry entry)
  | none => if m.timeoutSeconds = 0 then some .noTimeout else none

def failOn : Option SettingsFault → Outcome Unit
  | some fault => .error (.config fault.message)
  | none => .ok ()

/-- Fails with the first fault of the settings. -/
def Settings.validate (s : Settings) : Outcome Unit := do
  failOn (blankField? "source"
    [("host", s.source.host), ("database", s.source.database), ("user", s.source.user)])
  failOn (blankField? "target"
    [("host", s.target.host), ("database", s.target.database), ("user", s.target.user)])
  let _ ← SslMode.ofText s.target.sslMode
  failOn (if s.sameEndpoint then some (.sameEndpoint s.target) else none)
  failOn s.migration.fault?

/-- Opens both databases, the source first, with settings that can be used. -/
def Settings.connect {σ τ : Type} (s : Settings) (openSource : SourceSettings → Outcome σ)
    (openTarget : TargetSettings → Outcome τ) : Outcome (σ × τ) := do
  s.validate
  let source ← openSource s.source
  let target ← openTarget s.target
  return (source, target)

/-! ## Display -/

def displayedRecord (name : String) (fields : List (String × String)) : String :=
  name ++ " \x7b " ++ String.intercalate ", " (fields.map fun f => f.1 ++ ": " ++ f.2) ++ " \x7d"

def displayedBool (b : Bool) : String := if b then "true" else "false"

/-- What stands in the place of a password. -/
def displayedPassword : String := Text.displayed "[REDACTED]"

def SourceSettings.display (s : SourceSettings) : String :=
  displayedRecord "SourceConfig"
    [("host", Text.displayed s.host), ("port", toString s.tcpPort),
     ("database", Text.displayed s.database), ("user", Text.displayed s.user),
     ("password", displayedPassword), ("encrypt", displayedBool s.encrypt),
     ("trust_server_cert", displayedBool s.trustServerCert)]

def TargetSettings.display (t : TargetSettings) : String :=
  displayedRecord "TargetConfig"
    [("host", Text.displayed t.host), ("port", toString t.tcpPort),
     ("database", Text.displayed t.database), ("user", Text.displayed t.user),
     ("password", displayedPassword), ("ssl_mode", Text.displayed t.sslMode)]

def displayedPolicy : NamingPolicy → String
  | .identity => "Identity"
  | .canonicalizing => "Canonicalizing"

def RunSettings.display (m : RunSettings) : String :=
  displayedRecord "MigrationConfig"
    [("naming_policy", displayedPolicy m.policy),
     ("skip_data_for_tables",
      "[" ++ String.intercalate ", " (m.skippedTables.map Text.displayed) ++ "]"),
     ("schema_only", displayedBool m.schemaOnly), ("use_citext", displayedBool m.citext),
     ("skip_failed_modules", displayedBool m.skipFailedModules),
     ("statement_timeout_secs", toString m.timeoutSeconds)]

def Settings.display (s : Settings) : String :=
  displayedRecord "Config"
    [("source", s.source.display), ("target", s.target.display),
     ("migration", s.migration.display)]

end Migration
