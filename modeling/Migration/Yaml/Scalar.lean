import Migration.Text.Digits
import Migration.Yaml.Mark

/-
  Scalars: texts that stand plain, in quotes or in a block of lines.

  Plain and quoted scalars may go over several lines. A single line break in them
  counts as a blank, and of several the first is left out. In a block every line
  keeps its break, or single breaks are folded in the same way.
-/

namespace Migration.Yaml

/-! ## Gaps -/

/-- The white space since the last character of a scalar that is none. -/
inductive Gap where
  /-- Blanks within a line. -/
  | blanks (cs : List Char)
  /-- Line breaks: the first, unless it was escaped, and the later ones. -/
  | breaks (first : Option Char) (later : List Char)
  deriving Repr

namespace Gap

def none : Gap := .blanks []

def isNone : Gap → Bool
  | .blanks cs => cs.isEmpty
  | .breaks .. => false

def hasBreak : Gap → Bool
  | .blanks _ => false
  | .breaks .. => true

/-- The gap with one more character. Blanks at the start of a line do not count. -/
def add (c : Char) : Gap → Gap
  | .blanks cs => if isBreak c then .breaks (some c) [] else .blanks (cs ++ [c])
  | .breaks first later => if isBreak c then .breaks first (later ++ [c]) else .breaks first later

/-- What stands for the gap in the scalar. -/
def folded : Gap → List Char
  | .blanks cs => cs
  | .breaks (some '\n') [] => [' ']
  | .breaks (some '\n') later => later
  | .breaks (some c) later => c :: later
  | .breaks Option.none later => later

end Gap

/-! ## Plain scalars -/

/-- Whether the character opens, closes or parts a collection in braces or brackets. -/
def isFlowIndicator (c : Char) : Bool :=
  c == ',' || c == '[' || c == ']' || c == '\x7b' || c == '\x7d'

/-- Whether a plain scalar ends before a character that is no white space. -/
def plainEnds (inFlow : Bool) (indent : Int) (gap : Gap) (m : Mark) (rest : List Mark) : Bool :=
  (m.char == ':' && endsToken rest) || (inFlow && isFlowIndicator m.char)
    || (!gap.isNone
      && (m.char == '#' || isDocumentMark (m :: rest) || (!inFlow && (m.column : Int) < indent)))

/-- Whether a colon stands before an indicator of a collection. -/
def isMisplacedColon (m : Mark) : List Mark → Bool
  | n :: _ => m.char == ':' && (isFlowIndicator n.char || n.char == '?')
  | [] => false

/-- The rest of a plain scalar after a gap, what follows it, and whether a line break came
between. The lines after the first must reach the column `indent`. -/
def plainAfter (inFlow : Bool) (indent : Int) :
    Gap → List Mark → Outcome (List Char × List Mark × Bool)
  | gap, [] => .ok ([], [], gap.hasBreak)
  | gap, m :: rest =>
    if isBlank m.char || isBreak m.char then
      if gap.hasBreak && m.char == '\t' && (m.column : Int) < indent then
        fault "a tab stands in the place of indentation"
      else plainAfter inFlow indent (gap.add m.char) rest
    else if inFlow && isMisplacedColon m rest then fault "unexpected colon"
    else if plainEnds inFlow indent gap m rest then .ok ([], m :: rest, gap.hasBreak)
    else do
      let later ← plainAfter inFlow indent Gap.none rest
      return (gap.folded ++ m.char :: later.1, later.2)

/-! ## Quoted scalars -/

def singleQuoted : Gap → List Mark → Outcome (List Char × List Mark)
  | _, [] => fault "a quoted scalar is not closed"
  | gap, m :: rest =>
    if isDocumentMark (m :: rest) then fault "a document ends in a quoted scalar"
    else if isBlank m.char || isBreak m.char then singleQuoted (gap.add m.char) rest
    else if m.char = '\'' then
      match rest with
      | n :: more =>
        if n.char = '\'' then do
          let later ← singleQuoted Gap.none more
          return (gap.folded ++ '\'' :: later.1, later.2)
        else .ok (gap.folded, rest)
      | [] => .ok (gap.folded, [])
    else do
      let later ← singleQuoted Gap.none rest
      return (gap.folded ++ m.char :: later.1, later.2)

def escapes : List (Char × Char) :=
  [('0', '\x00'), ('a', '\x07'), ('b', '\x08'), ('t', '\t'), ('\t', '\t'), ('n', '\n'),
   ('v', '\x0b'), ('f', '\x0c'), ('r', '\r'), ('e', '\x1b'), (' ', ' '), ('"', '"'), ('/', '/'),
   ('\\', '\\'), ('N', '\u0085'), ('_', '\u00a0'), ('L', '\u2028'), ('P', '\u2029')]

def escapeLength? : Char → Option Nat
  | 'x' => some 2
  | 'u' => some 4
  | 'U' => some 8
  | _ => none

def charOf (n : Nat) : Outcome Char :=
  if n.isValidChar then .ok (Char.ofNat n) else fault "an escape names no character"

/-- What a scalar in double quotes has come to. -/
inductive QuoteState where
  | text (gap : Gap)
  /-- After a backslash. -/
  | escape
  /-- In an escape by number, with so many digits to come. -/
  | digits (left value : Nat)
  deriving Repr

def doubleQuoted : QuoteState → List Mark → Outcome (List Char × List Mark)
  | _, [] => fault "a quoted scalar is not closed"
  | .text gap, m :: rest =>
    if isDocumentMark (m :: rest) then fault "a document ends in a quoted scalar"
    else if isBlank m.char || isBreak m.char then doubleQuoted (.text (gap.add m.char)) rest
    else if m.char = '"' then .ok (gap.folded, rest)
    else do
      let later ← doubleQuoted (if m.char = '\\' then .escape else .text Gap.none) rest
      return (gap.folded ++ (if m.char = '\\' then later.1 else m.char :: later.1), later.2)
  | .escape, m :: rest =>
    if isBreak m.char then doubleQuoted (.text (.breaks none [])) rest
    else
      match escapes.lookup m.char, escapeLength? m.char with
      | some c, _ => do
        let later ← doubleQuoted (.text Gap.none) rest
        return (c :: later.1, later.2)
      | none, some n => doubleQuoted (.digits n 0) rest
      | none, none => fault "unknown escape"
  | .digits left value, m :: rest =>
    match Text.hexValue? m.char with
    | none => fault "an escape lacks digits"
    | some v =>
      if left ≤ 1 then do
        let c ← charOf (value * 16 + v)
        let later ← doubleQuoted (.text Gap.none) rest
        return (c :: later.1, later.2)
      else doubleQuoted (.digits (left - 1) (value * 16 + v)) rest

/-! ## Block scalars -/

/-- What becomes of the line breaks at the end of a block. -/
inductive Chomping where
  | strip
  | clip
  | keep
  deriving DecidableEq, Repr

/-- The head of a block: whether its lines stay apart, its end, and its indentation if given. -/
structure BlockHead where
  isLiteral : Bool
  chomping : Chomping := .clip
  indentation : Option Nat := none
  deriving Repr

/-- Reads the marks in the head of a block, each at most once. -/
def blockHead (head : BlockHead) (isChomped : Bool) : List Mark → Outcome (BlockHead × List Mark)
  | [] => .ok (head, [])
  | m :: rest =>
    if (m.char = '+' ∨ m.char = '-') ∧ !isChomped then
      blockHead { head with chomping := if m.char = '+' then .keep else .strip } true rest
    else if m.char.isDigit ∧ head.indentation.isNone then
      if m.char = '0' then fault "an indentation of zero"
      else blockHead { head with indentation := some (m.char.toNat - '0'.toNat) } isChomped rest
    else .ok (head, m :: rest)

/-- The lines of a text, each with its break. -/
abbrev Lines := List (List Mark)

def linesOf : List Mark → Lines
  | [] => []
  | m :: rest =>
    match isBreak m.char, linesOf rest with
    | true, [] => [[m], []]
    | true, later => [m] :: later
    | false, first :: later => (m :: first) :: later
    | false, [] => [[m]]

/-- The indentation of a block: that of its first line that is not blank, or of a longer blank line
before it. -/
def foundIndentation (longest : Nat) : Lines → Outcome Nat
  | [] => .ok longest
  | line :: later =>
    let spaces := line.takeWhile (fun m => m.char == ' ')
    let longest := max longest spaces.length
    match line.drop spaces.length with
    | [] => .ok longest
    | m :: _ =>
      if m.char = '\t' then fault "a tab stands in the place of indentation"
      else if isBreak m.char then foundIndentation longest later
      else .ok longest

/-- A line without up to `indent` blanks at its start. -/
def withoutIndent (indent : Nat) (line : List Mark) : List Mark :=
  line.drop ((line.take indent).takeWhile (fun m => m.char == ' ')).length

/-- The state between the lines of a block. -/
structure BlockState where
  /-- The break of the last line with text. -/
  lastBreak : List Char := []
  /-- The breaks of blank lines since. -/
  blankBreaks : List Char := []
  /-- Whether the last line with text began with a blank. -/
  lastBlank : Bool := false
  deriving Repr

/-- What stands between the last line with text and the next. -/
def BlockState.between (head : BlockHead) (s : BlockState) (nextBlank : Bool) : List Char :=
  if !head.isLiteral && s.lastBreak == ['\n'] && !s.lastBlank && !nextBlank then
    if s.blankBreaks.isEmpty then [' '] else s.blankBreaks
  else s.lastBreak ++ s.blankBreaks

/-- What stands after the last line with text. -/
def BlockState.atEnd (head : BlockHead) (s : BlockState) : List Char :=
  match head.chomping with
  | .strip => []
  | .clip => s.lastBreak
  | .keep => s.lastBreak ++ s.blankBreaks

/-- The text of a block from its lines, and what follows it. -/
def blockText (head : BlockHead) (indent : Nat) :
    BlockState → Lines → Outcome (List Char × List Mark)
  | s, [] => .ok (s.atEnd head, [])
  | s, line :: later =>
    match withoutIndent indent line with
    | [] => .ok (s.atEnd head, later.flatten)
    | m :: rest =>
      if m.column < indent ∧ m.char = '\t' then fault "a tab stands in the place of indentation"
      else if isBreak m.char then
        blockText head indent { s with blankBreaks := s.blankBreaks ++ [m.char] } later
      else if m.column = indent then do
        let text := (m :: rest).takeWhile (fun n => !isBreak n.char)
        let last := ((m :: rest).drop text.length).map Mark.char
        let after ← blockText head indent
          { lastBreak := last, lastBlank := isBlank m.char } later
        return (s.between head (isBlank m.char) ++ (chars text ++ after.1), after.2)
      else .ok (s.atEnd head, m :: rest ++ later.flatten)

/-- The indentation of a block: as its head gives it, counted from the indentation around the
block, else as its lines show it. -/
def blockIndentation (head : BlockHead) (parentIndent : Int) (lines : Lines) : Outcome Nat :=
  match head.indentation with
  | some n => .ok ((max parentIndent 0).toNat + n)
  | none => do
    let found ← foundIndentation 0 lines
    return max (max found (parentIndent + 1).toNat) 1

/-- The text of a block scalar from after its sign on, and what follows it. `parentIndent` is the
indentation around it, less than zero at the outermost level. -/
def blockScalar (isLiteral : Bool) (parentIndent : Int) (ms : List Mark) :
    Outcome (List Char × List Mark) := do
  let (head, afterHead) ← blockHead { isLiteral } false ms
  let lines := linesOf (← afterLine afterHead)
  let indent ← blockIndentation head parentIndent lines
  blockText head indent {} lines

end Migration.Yaml
