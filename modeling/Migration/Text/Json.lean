import Migration.Text.Digits

/-
  Documents of JSON, written with one entry on a line and two blanks for each
  level.

  In a string, only what must be escaped is escaped: quotes, backslashes and the
  control characters of ASCII, which have short forms or four digits.
-/

namespace Migration.Text

inductive Json where
  | null
  | bool (value : Bool)
  /-- A number in the digits that stand for it. -/
  | number (digits : String)
  | string (value : String)
  | array (items : List Json)
  /-- An object, its entries in order. -/
  | object (entries : List (String × Json))

namespace Json

def escapedChar (c : Char) : List Char :=
  match c with
  | '"' => ['\\', '"']
  | '\\' => ['\\', '\\']
  | '\x08' => ['\\', 'b']
  | '\x0c' => ['\\', 'f']
  | '\n' => ['\\', 'n']
  | '\r' => ['\\', 'r']
  | '\t' => ['\\', 't']
  | c => if c.toNat < 32 then '\\' :: 'u' :: hexPadded 4 c.toNat else [c]

def quoted (s : String) : String :=
  String.ofList ('"' :: s.toList.flatMap escapedChar ++ ['"'])

def newLine (level : Nat) : String := String.ofList ('\n' :: repeated ' ' (2 * level))

mutual

/-- A document at a level. -/
def written (level : Nat) : Json → String
  | .null => "null"
  | .bool value => if value then "true" else "false"
  | .number digits => digits
  | .string value => quoted value
  | .array [] => "[]"
  | .array (item :: rest) =>
    "[" ++ newLine (level + 1) ++ item.written (level + 1) ++ writtenItems (level + 1) rest
      ++ newLine level ++ "]"
  | .object [] => "\x7b\x7d"
  | .object ((key, value) :: rest) =>
    "\x7b" ++ newLine (level + 1) ++ quoted key ++ ": " ++ value.written (level + 1)
      ++ writtenEntries (level + 1) rest ++ newLine level ++ "\x7d"

/-- The items of an array after the first. -/
def writtenItems (level : Nat) : List Json → String
  | [] => ""
  | item :: rest => "," ++ newLine level ++ item.written level ++ writtenItems level rest

/-- The entries of an object after the first. -/
def writtenEntries (level : Nat) : List (String × Json) → String
  | [] => ""
  | (key, value) :: rest =>
    "," ++ newLine level ++ quoted key ++ ": " ++ value.written level ++ writtenEntries level rest

end

def text (j : Json) : String := j.written 0

end Json

end Migration.Text
