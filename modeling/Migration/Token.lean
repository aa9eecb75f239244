import Migration.Identifier
import Migration.Text.Bytes

/-
  Tokens of the source dialect.

  A token is a piece of a text with its kind and its place, counted in bytes.
  White space and comments are tokens too, so the tokens of a text make up the
  whole of it.
-/

namespace Migration

inductive TokenKind where
  | whitespace
  /-- From two hyphens to the end of the line. -/
  | lineComment
  /-- Between slash-star and star-slash; such comments nest. -/
  | blockComment
  | keyword
  /-- A name without quotes. -/
  | identifier
  /-- A name between brackets. -/
  | bracketIdentifier
  /-- A name between double quotes. -/
  | quotedIdentifier
  /-- A text between single quotes, with or without an N before it. -/
  | stringLiteral
  | numberLiteral
  /-- A name after an at sign. -/
  | variableName
  /-- A name after a number sign. -/
  | tempName
  /-- One character of any other sort. -/
  | symbol
  deriving DecidableEq, Repr

def TokenKind.name : TokenKind → String
  | .whitespace => "Whitespace"
  | .lineComment => "LineComment"
  | .blockComment => "BlockComment"
  | .keyword => "Keyword"
  | .identifier => "Identifier"
  | .bracketIdentifier => "BracketIdentifier"
  | .quotedIdentifier => "QuotedIdentifier"
  | .stringLiteral => "StringLiteral"
  | .numberLiteral => "NumberLiteral"
  | .variableName => "Variable"
  | .tempName => "TempName"
  | .symbol => "Symbol"

/-- A piece of a text. -/
structure Token where
  kind : TokenKind
  text : String
  /-- The offset of the first byte. -/
  start : Nat
  deriving DecidableEq, Repr

namespace Token

/-- The offset just past the last byte. -/
def stop (t : Token) : Nat := t.start + Text.byteLength t.text.toList

def isTrivia (t : Token) : Bool :=
  match t.kind with
  | .whitespace | .lineComment | .blockComment => true
  | _ => false

/-- Whether the token is a name, quoted or not. -/
def isIdentifier (t : Token) : Bool :=
  match t.kind with
  | .identifier | .bracketIdentifier | .quotedIdentifier => true
  | _ => false

/-- Whether the token is this keyword, in any mix of ASCII cases. -/
def isKeyword (t : Token) (word : String) : Bool :=
  t.kind == .keyword && t.text.toList.map Char.toLower == word.toList.map Char.toLower

/-- The name that an identifier stands for. -/
def identifierName (t : Token) : String :=
  match t.kind with
  | .bracketIdentifier => String.ofList (halved ']' t.text.toList.tail.dropLast)
  | .quotedIdentifier => String.ofList (halved '"' t.text.toList.tail.dropLast)
  | _ => t.text

def stringValue (t : Token) : String :=
  let inner :=
    match t.text.toList with
    | 'N' :: rest => rest.tail
    | 'n' :: rest => rest.tail
    | chars => chars.tail
  String.ofList (halved '\'' inner.dropLast)

end Token

end Migration
