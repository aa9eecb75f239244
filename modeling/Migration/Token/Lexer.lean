import Migration.Token
import Migration.Token.Keyword
import Migration.Text.Blank
import Migration.Text.Letter

/-
  From a text to its tokens.

  `scan` finds the token at the start of a text: its kind and its characters,
  the longest run that the kind admits. `tokensFrom` walks the text and scans
  wherever the token before has ended.

  A text is refused where a quotation, a bracketed name or a comment is not
  closed, and where brackets hold nothing.
-/

namespace Migration

/-! ## Faults -/

inductive LexFault where
  | unclosedString
  | unclosedBracket
  | unclosedQuote
  | unclosedComment
  | emptyBracket
  deriving DecidableEq, Repr

def LexFault.message : LexFault → String
  | .unclosedString => "unterminated string literal"
  | .unclosedBracket => "unterminated bracketed identifier"
  | .unclosedQuote => "unterminated quoted identifier"
  | .unclosedComment => "unterminated block comment"
  | .emptyBracket => "empty bracketed identifier"

/-- A fault at a distance from where the scan began. -/
structure ScanError where
  offset : Nat
  fault : LexFault
  deriving DecidableEq, Repr

/-- The kind of a token and its characters. -/
structure Lexeme where
  kind : TokenKind
  chars : List Char
  deriving DecidableEq, Repr

/-! ## Runs of characters -/

def isWordChar (c : Char) : Bool :=
  Text.isLetterOrNumber c || c == '_' || c == '@' || c == '$' || c == '#'

def isHexDigit (c : Char) : Bool :=
  c.isDigit || ('a' ≤ c && c ≤ 'f') || ('A' ≤ c && c ≤ 'F')

/-- The text up to the mark that closes it, that mark included. A mark written twice is part of
the text. -/
def closeAt (mark : Char) : List Char → Option (List Char)
  | [] => none
  | [c] => if c = mark then some [c] else none
  | c :: d :: rest =>
    if c = mark then
      if d = mark then (closeAt mark rest).map (fun chars => c :: d :: chars)
      else some [c]
    else (closeAt mark (d :: rest)).map (fun chars => c :: chars)

/-- The text up to where `depth` open comments are all closed. -/
def closeComments : Nat → List Char → Option (List Char)
  | 0, _ => some []
  | _ + 1, [] => none
  | _ + 1, [_] => none
  | depth + 1, c :: d :: rest =>
    if c = '/' ∧ d = '*' then
      (closeComments (depth + 2) rest).map (fun chars => c :: d :: chars)
    else if c = '*' ∧ d = '/' then
      (closeComments depth rest).map (fun chars => c :: d :: chars)
    else (closeComments (depth + 1) (d :: rest)).map (fun chars => c :: chars)

def fractionOf : List Char → List Char
  | '.' :: rest => '.' :: rest.takeWhile Char.isDigit
  | _ => []

/-- An exponent: the letter, a sign or none, and at least one digit. -/
def exponentOf : List Char → List Char
  | e :: rest =>
    if e = 'e' ∨ e = 'E' then
      match rest with
      | [] => []
      | s :: after =>
        if s = '+' ∨ s = '-' then
          if after.head?.any Char.isDigit then e :: s :: after.takeWhile Char.isDigit else []
        else if s.isDigit then e :: rest.takeWhile Char.isDigit
        else []
    else []
  | [] => []

/-- A number in base ten: digits, a fraction or none, an exponent or none. -/
def decimalOf (cs : List Char) : List Char :=
  let whole := cs.takeWhile Char.isDigit
  let fraction := fractionOf (cs.drop whole.length)
  let exponent := exponentOf (cs.drop (whole.length + fraction.length))
  whole ++ fraction ++ exponent

/-- A number in base sixteen or ten. -/
def numberOf : List Char → List Char
  | '0' :: x :: rest =>
    if x = 'x' ∨ x = 'X' then '0' :: x :: rest.takeWhile isHexDigit
    else decimalOf ('0' :: x :: rest)
  | cs => decimalOf cs

/-! ## One token -/

/-- A token that is closed by a mark, or the fault of leaving it open. -/
def closedToken (kind : TokenKind) (opening : List Char) (offset : Nat) (fault : LexFault)
    (body : Option (List Char)) : Except ScanError Lexeme :=
  match body with
  | some chars => .ok ⟨kind, opening ++ chars⟩
  | none => .error ⟨offset, fault⟩

/-- The token at the start of the text `c :: rest`. -/
def scan (c : Char) (rest : List Char) : Except ScanError Lexeme :=
  if Text.isBlank c then .ok ⟨.whitespace, c :: rest.takeWhile Text.isBlank⟩
  else if c = '-' ∧ rest.head? = some '-' then
    .ok ⟨.lineComment, c :: rest.takeWhile (fun d => d ≠ '\n')⟩
  else if c = '/' ∧ rest.head? = some '*' then
    closedToken .blockComment [c, '*'] 0 .unclosedComment (closeComments 1 rest.tail)
  else if c = '\'' then
    closedToken .stringLiteral [c] 0 .unclosedString (closeAt '\'' rest)
  else if (c = 'N' ∨ c = 'n') ∧ rest.head? = some '\'' then
    closedToken .stringLiteral [c, '\''] 1 .unclosedString (closeAt '\'' rest.tail)
  else if c = '[' then
    if closeAt ']' rest = some [']'] then .error ⟨0, .emptyBracket⟩
    else closedToken .bracketIdentifier [c] 0 .unclosedBracket (closeAt ']' rest)
  else if c = '"' then
    closedToken .quotedIdentifier [c] 0 .unclosedQuote (closeAt '"' rest)
  else if c = '@' then .ok ⟨.variableName, c :: rest.takeWhile isWordChar⟩
  else if c = '#' then .ok ⟨.tempName, c :: rest.takeWhile isWordChar⟩
  else if c.isDigit then .ok ⟨.numberLiteral, numberOf (c :: rest)⟩
  else if Text.isLetter c ∨ c = '_' then
    let word := c :: rest.takeWhile isWordChar
    .ok ⟨if isKeyword (String.ofList word) then .keyword else .identifier, word⟩
  else .ok ⟨.symbol, [c]⟩

/-! ## All tokens -/

/-- The tokens of a text that starts at an offset, its first `pending` characters being the rest
of a token found before. -/
def tokensFrom : (pending offset : Nat) → List Char → Outcome (List Token)
  | _, _, [] => .ok []
  | pending + 1, offset, c :: rest => tokensFrom pending (offset + c.utf8Size) rest
  | 0, offset, c :: rest =>
    match scan c rest with
    | .error e => .error (.tokenize (offset + e.offset) e.fault.message)
    | .ok lexeme =>
      match tokensFrom (lexeme.chars.length - 1) (offset + c.utf8Size) rest with
      | .error e => .error e
      | .ok tokens => .ok (⟨lexeme.kind, String.ofList lexeme.chars, offset⟩ :: tokens)

/-- The tokens of a text. -/
def tokenize (sql : String) : Outcome (List Token) := tokensFrom 0 0 sql.toList

end Migration
