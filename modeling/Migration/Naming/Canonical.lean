import Migration.Error
import Migration.Text.Lowercase

/-
  Canonical names: lower case words joined by single underscores.

  A word begins at a capital followed by a small letter, unless nothing or a line
  break stands before it, and at a capital that follows a small letter or a
  digit. Letters and digits here are ASCII; the lowercase mapping is the full one.

  A canonical name has at most 63 characters.
-/

namespace Migration.Naming

/-- The longest name of the target, in characters. -/
def maxNameLength : Nat := 63

/-- A name of the target, and whether making it took more than lower case. -/
structure TargetName where
  name : String
  normalized : Bool
  deriving DecidableEq, Repr

/-- Puts an underscore before each capital that a small letter follows. The character before the
capital must not be a line break nor belong to a word that was set apart just before; `inWord`
says that the text begins within such a word. -/
def splitCapitalized (inWord : Bool) : List Char → List Char
  | c :: u :: l :: rest =>
    if inWord && c.isLower then c :: splitCapitalized true (u :: l :: rest)
    else if c ≠ '\n' ∧ u.isUpper ∧ l.isLower then
      c :: '_' :: u :: splitCapitalized true (l :: rest)
    else c :: splitCapitalized false (u :: l :: rest)
  | cs => cs

/-- Puts an underscore between a small letter or digit and a capital. -/
def splitLowerUpper : List Char → List Char
  | c :: u :: rest =>
    if (c.isLower || c.isDigit) ∧ u.isUpper then c :: '_' :: splitLowerUpper (u :: rest)
    else c :: splitLowerUpper (u :: rest)
  | cs => cs

/-- Takes a run of underscores as one. -/
def collapse : List Char → List Char
  | c :: d :: rest =>
    if c = '_' ∧ d = '_' then collapse (d :: rest) else c :: collapse (d :: rest)
  | cs => cs

def canonicalForm (raw : String) : String :=
  String.ofList
    (collapse (Text.lowered (splitLowerUpper (splitCapitalized false raw.toList))))

/-- The canonical name, if the target admits it. -/
def canonicalize (raw : String) : Outcome TargetName :=
  let name := canonicalForm raw
  if maxNameLength < name.length then
    .error (.normalizationFailure raw raw.length name name.length maxNameLength)
  else .ok ⟨name, name != Text.lowercase raw⟩

end Migration.Naming
