import Migration.Error

/-
  The characters of a YAML text, each with its place.

  The indentation of a line says what belongs together, so every character is
  marked with its line and column before anything is read. Line breaks are made
  alike first, and a text with control characters is refused. A byte order mark
  is a character as any other, and takes a column.
-/

namespace Migration.Yaml

def fault {α : Type} (message : String) : Outcome α := .error (.yaml message)

/-- A character at its place, all counted from zero. -/
structure Mark where
  char : Char
  /-- The number of octets that the characters before it take. -/
  index : Nat
  line : Nat
  column : Nat
  deriving Repr

/-- Every line break of more than one form as a line feed. -/
def unifiedBreaks : List Char → List Char
  | '\r' :: '\n' :: rest => '\n' :: unifiedBreaks rest
  | c :: rest => (if c = '\r' ∨ c = '\u0085' then '\n' else c) :: unifiedBreaks rest
  | [] => []

def isAdmitted (c : Char) : Bool :=
  let n := c.toNat
  n == 9 || n == 10 || n == 13 || (32 ≤ n && n ≤ 126) || n == 0x85 || (0xa0 ≤ n && n ≤ 0xfffd)
    || 0x10000 ≤ n

def isBreak (c : Char) : Bool := c == '\n' || c == '\u2028' || c == '\u2029'

def isBlank (c : Char) : Bool := c == ' ' || c == '\t'

def isNameChar (c : Char) : Bool := c.isAlphanum || c == '-' || c == '_'

/-- Whether a token ends before what follows: at a blank, a line break or the end. -/
def endsToken : List Mark → Bool
  | [] => true
  | m :: _ => isBlank m.char || isBreak m.char

/-- The characters marked with their places, which are counted on from those given. -/
def marksFrom (index line column : Nat) : List Char → List Mark
  | [] => []
  | c :: rest =>
    ⟨c, index, line, column⟩ ::
      if isBreak c then marksFrom (index + c.utf8Size) (line + 1) 0 rest
      else marksFrom (index + c.utf8Size) line (column + 1) rest

def marks (text : String) : Outcome (List Mark) :=
  if text.toList.all isAdmitted then .ok (marksFrom 0 0 0 (unifiedBreaks text.toList))
  else fault "control characters are not allowed"

/-- Whether a line consists of this character three times, up to a blank. -/
def isTriple (c : Char) : List Mark → Bool
  | a :: b :: d :: rest =>
    a.column == 0 && a.char == c && b.char == c && d.char == c && endsToken rest
  | _ => false

/-- Whether a document starts or ends here. -/
def isDocumentMark (ms : List Mark) : Bool := isTriple '-' ms || isTriple '.' ms

def chars (ms : List Mark) : List Char := ms.map Mark.char

/-! ## Parts of a line -/

/-- The name that begins here, and what follows it. -/
def nameAt (ms : List Mark) : String × List Mark :=
  let name := ms.takeWhile (fun m => isNameChar m.char)
  (String.ofList (chars name), ms.drop name.length)

def afterBlanks (ms : List Mark) : List Mark := ms.dropWhile (fun m => isBlank m.char)

/-- What follows the rest of a line, which may hold a comment but nothing else. -/
def afterLine (ms : List Mark) : Outcome (List Mark) :=
  match afterBlanks ms with
  | [] => .ok []
  | m :: rest =>
    if isBreak m.char then .ok rest
    else if m.char = '#' then .ok ((rest.dropWhile (fun n => !isBreak n.char)).drop 1)
    else fault "neither a comment nor a line break"

end Migration.Yaml
