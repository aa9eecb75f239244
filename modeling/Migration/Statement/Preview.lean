import Migration.Error
import Migration.Text.Blank

/-
  Statements as errors show them: the first characters only.
-/

namespace Migration

/-- The most characters of a statement that an error shows. -/
def maxPreviewLength : Nat := 200

/-- The start of a statement, with dots where more of it follows. -/
def preview (statement : String) : String :=
  let cs := Text.trimmed statement.toList
  if maxPreviewLength < cs.length then
    String.ofList (cs.take maxPreviewLength ++ ['.', '.', '.'])
  else String.ofList cs

/-- Gives up a statement that got no answer. -/
def timedOut {α : Type} (statement : String) (seconds : Nat) : Outcome α :=
  .error (.timeout (preview statement) seconds)

end Migration
