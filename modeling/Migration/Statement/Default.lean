import Migration.Token.Lexer
import Migration.Text.Lowercase

/-
  Defaults of columns, from the source to the target.

  The source keeps a default as the text of an expression, mostly within
  parentheses. Only a closed set of forms has a counterpart on the target: null,
  numbers, one string literal, and the functions for the present time and for a
  new identifier. Everything else is refused.
-/

namespace Migration.Default

/-! ## Parentheses around the whole -/

/-- Whether the parenthesis that opens a text closes at its last character. Parentheses between
single quotes do not count. -/
def closesAtEnd : (depth : Nat) → (quoted : Bool) → List Char → Bool
  | _, _, [] => false
  | depth, quoted, c :: rest =>
    if c = '\'' then closesAtEnd depth (!quoted) rest
    else if c = '(' ∧ !quoted then closesAtEnd (depth + 1) quoted rest
    else if c = ')' ∧ !quoted then
      if depth ≤ 1 then rest.isEmpty else closesAtEnd (depth - 1) quoted rest
    else closesAtEnd depth quoted rest

/-- Whether one pair of parentheses wraps the whole text. -/
def isWrapped (cs : List Char) : Bool :=
  cs.head? == some '(' && cs.getLast? == some ')' && closesAtEnd 0 false cs

theorem length_dropWhile_le (p : Char → Bool) (cs : List Char) :
    (cs.dropWhile p).length ≤ cs.length := by
  induction cs with
  | nil => simp
  | cons c rest ih =>
    simp only [List.dropWhile_cons]
    split
    · simp; omega
    · simp

theorem length_trimmed_le (cs : List Char) : (Text.trimmed cs).length ≤ cs.length := by
  unfold Text.trimmed Text.trimEnd Text.trimStart
  rw [List.length_reverse]
  refine Nat.le_trans (length_dropWhile_le _ _) ?_
  rw [List.length_reverse]
  exact length_dropWhile_le _ _

theorem ne_nil_of_isWrapped {cs : List Char} (h : isWrapped cs = true) : cs ≠ [] := by
  intro hnil
  subst hnil
  simp [isWrapped] at h

/-- The text without the parentheses that wrap the whole of it. -/
def stripped (cs : List Char) : List Char :=
  if _h : isWrapped cs then stripped (Text.trimmed cs.tail.dropLast) else cs
termination_by cs.length
decreasing_by
  have hne := ne_nil_of_isWrapped _h
  have hpos := List.length_pos_iff.mpr hne
  have := length_trimmed_le cs.tail.dropLast
  simp at this
  omega

/-! ## Forms -/

/-- The text after a sign, or the text itself. -/
def afterSign : List Char → List Char
  | c :: rest => if c = '+' ∨ c = '-' then rest else c :: rest
  | [] => []

def isExponentOrEmpty : List Char → Bool
  | [] => true
  | e :: rest =>
    (e == 'e' || e == 'E') &&
      (let digits := afterSign rest
       !digits.isEmpty && digits.all Text.isDecimalDigit)

/-- Whether the text is a number: a sign or none, digits with at most one point among or around
them, an exponent or none. Digits are those of any script. -/
def isNumeric (cs : List Char) : Bool :=
  let unsigned := afterSign cs
  let whole := unsigned.takeWhile Text.isDecimalDigit
  match unsigned.dropWhile Text.isDecimalDigit with
  | '.' :: rest =>
    let fraction := rest.takeWhile Text.isDecimalDigit
    (!whole.isEmpty || !fraction.isEmpty) &&
      isExponentOrEmpty (rest.dropWhile Text.isDecimalDigit)
  | rest => !whole.isEmpty && isExponentOrEmpty rest

/-- The target literal for a text that is one string literal, comments and blanks apart. -/
def stringLiteral? (expression : String) : Option String :=
  match tokenize expression with
  | .error _ => none
  | .ok tokens =>
    match tokens.filter (fun t => !t.isTrivia) with
    | [t] => if t.kind = .stringLiteral then some (quotePgLiteral t.stringValue) else none
    | _ => none

/-- The target expression for a call, given without blanks and in lower case. -/
def call? : String → Option String
  | "getdate()" | "sysdatetime()" | "current_timestamp" | "sysdatetimeoffset()" => some "now()"
  | "getutcdate()" | "sysutcdatetime()" => some "(now() at time zone 'utc')"
  | "newid()" | "newsequentialid()" => some "gen_random_uuid()"
  | _ => none

/-- The target expression for an expression without parentheses around it, if it has one. Bits
become truth values where the column holds truth values. -/
def expression? (inner : List Char) (valueType : Option ColumnType) : Option String :=
  let text := String.ofList inner
  if inner.isEmpty then none
  else if Text.sameIgnoringAsciiCase text "null" then some "NULL"
  else if isNumeric inner then
    if valueType = some .boolean then
      match text with
      | "0" => some "false"
      | "1" => some "true"
      | _ => none
    else some text
  else
    match stringLiteral? text with
    | some literal => some literal
    | none =>
      call? (String.ofList ((inner.filter (fun c => !Text.isBlank c)).map Char.toLower))

end Migration.Default

namespace Migration

/-- The target expression for a default of the source. -/
def targetDefault (definition : String) (valueType : Option ColumnType) : Outcome String :=
  match Default.expression? (Default.stripped (Text.trimmed definition.toList)) valueType with
  | some expression => .ok expression
  | none => .error (.unsupportedDefault definition)

end Migration
