import Migration.Error
import Migration.Text.Display

/-
  Names inside statements.

  A name cannot be bound as a parameter, so every name in a statement is written
  here: between double quotes on the target, between brackets on the source, and
  values between single quotes. A closing mark inside is written twice.

  What is proved beside the definitions: doubling a mark loses nothing
  (`halved_doubled`), so a quoted text has one reading.
-/

namespace Migration

/-! ## Marks written twice -/

/-- The text with every `mark` written twice. -/
def doubled (mark : Char) : List Char → List Char
  | [] => []
  | c :: rest => if c = mark then mark :: mark :: doubled mark rest else c :: doubled mark rest

/-- The text with every pair of marks taken as one. -/
def halved (mark : Char) : List Char → List Char
  | [] => []
  | [c] => [c]
  | c :: d :: rest =>
    if c = mark ∧ d = mark then mark :: halved mark rest else c :: halved mark (d :: rest)

/-- The text between an opening and a closing mark, closing marks inside written twice. -/
def enclosed (opening closing : Char) (s : String) : String :=
  String.ofList (opening :: (doubled closing s.toList ++ [closing]))

theorem halved_cons_of_ne {mark c : Char} (h : c ≠ mark) (rest : List Char) :
    halved mark (c :: rest) = c :: halved mark rest := by
  cases rest <;> simp [halved, h]

theorem halved_doubled (mark : Char) (cs : List Char) : halved mark (doubled mark cs) = cs := by
  induction cs with
  | nil => rfl
  | cons c rest ih =>
    by_cases h : c = mark
    · subst h; simp [doubled, halved, ih]
    · simp [doubled, h, halved_cons_of_ne h, ih]

/-! ## Valid names -/

def maxIdentifierLength : Nat := 128

/-- Why a name cannot stand in a statement. -/
inductive IdentifierFault where
  | empty
  | holdsNul (name : String)
  | tooLong (name : String)
  deriving DecidableEq, Repr

def IdentifierFault.message : IdentifierFault → String
  | .empty => "Identifier cannot be empty"
  | .holdsNul name => "Identifier contains null byte: " ++ Text.displayed name
  | .tooLong name =>
    s!"Identifier exceeds maximum length of {maxIdentifierLength} characters (got {name.length}): "
      ++ Text.displayed name

/-- The first fault of a name: empty, then a NUL inside, then too long. -/
def identifierFault? (name : String) : Option IdentifierFault :=
  if name.isEmpty then some .empty
  else if name.toList.contains '\x00' then some (.holdsNul name)
  else if maxIdentifierLength < name.length then some (.tooLong name)
  else none

def validateIdentifier (name : String) : Outcome Unit :=
  match identifierFault? name with
  | some fault => .error (.config fault.message)
  | none => .ok ()

/-! ## Quoted names and values -/

/-- A target name between double quotes. -/
def quotePg (name : String) : Outcome String := do
  validateIdentifier name
  return enclosed '"' '"' name

def quoteMssql (name : String) : Outcome String := do
  validateIdentifier name
  return enclosed '[' ']' name

/-- A target name with its schema. -/
def qualifyPg (schema name : String) : Outcome String := do
  let schema ← quotePg schema
  let name ← quotePg name
  return schema ++ "." ++ name

def qualifyMssql (schema name : String) : Outcome String := do
  let schema ← quoteMssql schema
  let name ← quoteMssql name
  return schema ++ "." ++ name

/-- A value of the target between single quotes. -/
def quotePgLiteral (value : String) : String := enclosed '\'' '\'' value

/-- Whether a bare target name may start with the character. -/
def isBareStart (c : Char) : Bool := c.isLower || c == '_'

/-- Whether a bare target name may go on with the character. -/
def isBareRest (c : Char) : Bool := c.isLower || c.isDigit || c == '_' || c == '$'

/-- Whether the target reads the name as it stands, without quotes. -/
def isBareName (name : String) : Bool :=
  match name.toList with
  | [] => false
  | c :: rest => isBareStart c && rest.all isBareRest

/-- A target name, bare where possible and quoted elsewhere. -/
def renderPg (name : String) : Outcome String :=
  if isBareName name then do
    validateIdentifier name
    return name
  else quotePg name

end Migration
