/-
  Replacing every occurrence of a pattern in a text, from the left, occurrences
  that overlap an earlier one not counting.
-/

namespace Migration.Text

/-- Replaces the pattern in a text whose first `pending` characters are the rest of an occurrence
found before. -/
def replaceFrom (pattern replacement : List Char) : (pending : Nat) → List Char → List Char
  | _, [] => []
  | pending + 1, _ :: rest => replaceFrom pattern replacement pending rest
  | 0, c :: rest =>
    if pattern.isPrefixOf (c :: rest) then
      replacement ++ replaceFrom pattern replacement (pattern.length - 1) rest
    else c :: replaceFrom pattern replacement 0 rest

/-- The text with every occurrence of a pattern, which is not empty, replaced. -/
def replaceAll (pattern replacement s : String) : String :=
  String.ofList (replaceFrom pattern.toList replacement.toList 0 s.toList)

end Migration.Text
