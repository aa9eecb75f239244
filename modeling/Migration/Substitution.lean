import Migration.Naming.Ledger
import Migration.Naming.Canonical
import Migration.Token.Lexer

/-
  Target names inside the text of a module.

  The text is cut into tokens. Every name takes the target name that the ledger
  has for it, and a string literal that follows the keyword AS becomes a quoted
  name, for there it names a column. `replacementsOf` lists what is to be replaced, and
  `splice` puts the replacements into the text in one pass. All other text stays
  as it is.
-/

namespace Migration

open Naming (Ledger canonicalize)

/-- A range of bytes of a text, and what is to stand there. -/
structure Replacement where
  start : Nat
  stop : Nat
  text : String
  deriving DecidableEq, Repr

/-- The items without repeats, each at its first place. -/
def firstOccurrences : List String → List String
  | [] => []
  | s :: rest => s :: (firstOccurrences rest).filter (· ≠ s)

/-- The one target name that the ledger has for a name, if it has any. -/
def recordedName (ledger : Ledger) (raw : String) : Outcome (Option String) :=
  match firstOccurrences ((ledger.findByRawName raw).map (·.newName)) with
  | [] => .ok none
  | [name] => .ok (some name)
  | first :: second :: _ => .error (.ambiguousMapping "" none raw first second)

/-- The target name of a name in a module: the recorded one, else the reserved name that differs
at most in ASCII case, else the canonical one. -/
def targetName (ledger : Ledger) (reserved : List String) (raw : String) : Outcome String := do
  match ← recordedName ledger raw with
  | some name => return name
  | none =>
    match reserved.find? (Text.sameIgnoringAsciiCase · raw) with
    | some name => return name
    | none => return (← canonicalize raw).name

/-- What is to stand for a token, given the last token before it that carries meaning; nothing
where the token stays. -/
def replacementText (ledger : Ledger) (reserved : List String) (previous : Option Token)
    (t : Token) : Outcome (Option String) :=
  if t.isIdentifier then do
    let text ← renderPg (← targetName ledger reserved t.identifierName)
    return if text = t.text then none else some text
  else if t.kind = .stringLiteral ∧ previous.any (·.isKeyword "as") then do
    return some (← quotePg t.stringValue)
  else return none

/-- The replacements for tokens that follow `previous`. -/
def replacementsAfter (ledger : Ledger) (reserved : List String) :
    Option Token → List Token → Outcome (List Replacement)
  | _, [] => .ok []
  | previous, t :: rest => do
    let text ← replacementText ledger reserved previous t
    let later ← replacementsAfter ledger reserved (if t.isTrivia then previous else some t) rest
    return match text with
      | some text => ⟨t.start, t.stop, text⟩ :: later
      | none => later

def replacementsOf (ledger : Ledger) (reserved : List String) (tokens : List Token) :
    Outcome (List Replacement) :=
  replacementsAfter ledger reserved none tokens

/-- The rest of a text from the byte `cursor` on, with the replacements put in. -/
def spliceFrom : (cursor : Nat) → List Char → List Replacement → List Char
  | _, rest, [] => rest
  | cursor, rest, r :: later =>
    let kept := Text.splitBytes (r.start - cursor) rest
    let replaced := Text.splitBytes (r.stop - r.start) kept.2
    kept.1 ++ r.text.toList ++ spliceFrom r.stop replaced.2 later

/-- The text with the replacements put in, which are sorted and do not overlap. -/
def splice (sql : String) (replacements : List Replacement) : String :=
  String.ofList (spliceFrom 0 sql.toList replacements)

/-- The text of a module with target names. -/
def substituteNames (sql : String) (ledger : Ledger) (reserved : List String) : Outcome String := do
  let tokens ← tokenize sql
  let replacements ← replacementsOf ledger reserved tokens
  return splice sql replacements

end Migration
