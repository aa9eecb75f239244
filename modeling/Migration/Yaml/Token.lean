import Migration.Yaml.Directive
import Migration.Yaml.Scalar

/-
  The tokens of a YAML text.

  Indentation becomes tokens of its own: a block of entries is opened where a
  deeper column begins and closed where the text falls back. A mapping without
  braces shows only at the colon after its first key. So each scalar that may turn
  out to be a key is remembered, until the line is over, and the tokens that open
  the mapping are put in before it.
-/

namespace Migration.Yaml

/-! ## Tokens -/

/-- How a scalar is written, as far as that decides what it may stand for. -/
inductive Style where
  | plain
  /-- A block whose lines stay apart. -/
  | literal
  | other
  deriving DecidableEq, Repr

inductive Token where
  | directive (d : Directive)
  | documentStart
  | documentEnd
  | blockSequenceStart
  | blockMappingStart
  | blockEnd
  | flowSequenceStart
  | flowSequenceEnd
  | flowMappingStart
  | flowMappingEnd
  | blockEntry
  | flowEntry
  | key
  | value
  | alias (name : String)
  | anchor (name : String)
  | tag (handle : String) (ending : Octets)
  | scalar (text : String) (style : Style)
  deriving DecidableEq, Repr

/-! ## The state of reading -/

/-- A place at which a key may have begun. -/
structure PossibleKey where
  /-- The number of tokens before it. -/
  position : Nat
  /-- Whether nothing but a key can stand there. -/
  isRequired : Bool
  mark : Mark
  deriving Repr

/-- How far the text is read. -/
structure Scan where
  rest : List Mark
  /-- The number of collections in braces or brackets that are open. -/
  depth : Nat := 0
  /-- The column of the innermost block. -/
  indent : Int := -1
  /-- The columns of the blocks around it, innermost first. -/
  outer : List Int := []
  /-- Whether a key without braces may begin here. -/
  keyAllowed : Bool := true
  /-- The possible keys, one for each open collection, innermost first. -/
  keys : List (Option PossibleKey) := [none]
  tokens : Array Token := #[]

namespace Scan

def push (s : Scan) (t : Token) (rest : List Mark) : Scan :=
  { s with tokens := s.tokens.push t, rest }

def insertAt (s : Scan) (position : Nat) (ts : List Token) : Scan :=
  { s with tokens := s.tokens.take position ++ ts ++ s.tokens.drop position }

/-- Allows or forbids a key without braces. -/
def allowKey (s : Scan) (allowed : Bool) : Scan := { s with keyAllowed := allowed }

def key? (s : Scan) : Option PossibleKey := (s.keys.head?).getD none

def dropKey (s : Scan) : Outcome Scan :=
  if s.key?.any (·.isRequired) then fault "a key lacks its colon"
  else .ok { s with keys := none :: s.keys.drop 1 }

/-- Remembers that a key may begin at a mark. -/
def saveKey (s : Scan) (m : Mark) : Outcome Scan := do
  if s.keyAllowed then
    let s ← s.dropKey
    let isRequired := s.depth == 0 && s.indent == m.column
    return { s with keys := some ⟨s.tokens.size, isRequired, m⟩ :: s.keys.drop 1 }
  else return s

/-- Whether a possible key is over at a mark: a key is on one line and not too long. -/
def PossibleKey.isOver (k : PossibleKey) (m : Mark) : Bool :=
  k.mark.line < m.line || k.mark.index + 1024 < m.index

def dropOldKeys (s : Scan) (m : Mark) : Outcome Scan :=
  if s.keys.any (·.any fun k => PossibleKey.isOver k m && k.isRequired) then
    fault "a key lacks its colon"
  else
    .ok { s with keys := s.keys.map fun k => k.filter fun k => !PossibleKey.isOver k m }

/-- Opens a block at a column, if it is deeper than the innermost. Its tokens stand before those
from `position` on. -/
def openBlock (s : Scan) (column position : Nat) (ts : List Token) : Scan :=
  if s.depth = 0 ∧ s.indent < column then
    { s.insertAt position ts with indent := column, outer := s.indent :: s.outer }
  else s

/-- Closes the blocks that are deeper than a column: the column and those around it that stay, and
the tokens. -/
def closed (column : Int) : Int → List Int → Array Token → Int × List Int × Array Token
  | indent, around :: outer, tokens =>
    if column < indent then closed column around outer (tokens.push .blockEnd)
    else (indent, around :: outer, tokens)
  | indent, [], tokens => (indent, [], tokens)

def closeBlocks (s : Scan) (column : Int) : Scan :=
  if s.depth = 0 then
    let left := closed column s.indent s.outer s.tokens
    { s with indent := left.1, outer := left.2.1, tokens := left.2.2 }
  else s

/-! ## Tokens one by one -/

/-- Passes over white space and comments: whether a key may begin then, and what follows. A tab is
white space only where no key may begin, and a byte order mark only at the start of a line. -/
def skipped (inFlow : Bool) : (keyAllowed inComment : Bool) → List Mark → Bool × List Mark
  | keyAllowed, _, [] => (keyAllowed, [])
  | keyAllowed, true, m :: rest =>
    if isBreak m.char then skipped inFlow (keyAllowed || !inFlow) false rest
    else skipped inFlow keyAllowed true rest
  | keyAllowed, false, m :: rest =>
    if m.char = ' ' ∨ (m.char = '\t' ∧ (inFlow ∨ !keyAllowed)) ∨ (m.char = '\ufeff' ∧ m.column = 0)
    then skipped inFlow keyAllowed false rest
    else if m.char = '#' then skipped inFlow keyAllowed true rest
    else if isBreak m.char then skipped inFlow (keyAllowed || !inFlow) false rest
    else (keyAllowed, m :: rest)

def documentMark (s : Scan) (t : Token) (rest : List Mark) : Outcome Scan := do
  let s ← (s.closeBlocks (-1)).dropKey
  return (s.allowKey false).push t (rest.drop 2)

def directive (s : Scan) (rest : List Mark) : Outcome Scan := do
  let s ← (s.closeBlocks (-1)).dropKey
  let (directive, after) ← Directive.ofMarks rest
  return (s.allowKey false).push (.directive directive) after

def openFlow (s : Scan) (t : Token) (m : Mark) (rest : List Mark) : Outcome Scan := do
  let s ← s.saveKey m
  return ({ s with depth := s.depth + 1, keys := none :: s.keys, keyAllowed := true }).push t rest

def closeFlow (s : Scan) (t : Token) (rest : List Mark) : Outcome Scan := do
  let s ← s.dropKey
  let keys := if s.depth = 0 then s.keys else s.keys.drop 1
  return ({ s with depth := s.depth - 1, keys, keyAllowed := false }).push t rest

def flowEntry (s : Scan) (rest : List Mark) : Outcome Scan := do
  let s ← s.dropKey
  return (s.allowKey true).push .flowEntry rest

/-- The sign of an entry or of a key that stands before it, which may open a block. -/
def blockSign (s : Scan) (opening t : Token) (m : Mark) (rest : List Mark) (allowed : Bool) :
    Outcome Scan := do
  if s.depth = 0 && !s.keyAllowed then fault "an entry in the wrong place"
  else
    let s ← (s.openBlock m.column s.tokens.size [opening]).dropKey
    return (s.allowKey allowed).push t rest

/-- The colon between a key and its value. -/
def valueSign (s : Scan) (m : Mark) (rest : List Mark) : Outcome Scan :=
  match s.key? with
  | some k =>
    let s := s.insertAt k.position [.key]
    let s := s.openBlock k.mark.column k.position [.blockMappingStart]
    .ok (({ s with keys := none :: s.keys.drop 1 }).allowKey false |>.push .value rest)
  | none =>
    if s.depth = 0 && !s.keyAllowed then fault "a value in the wrong place"
    else
      let s := s.openBlock m.column s.tokens.size [.blockMappingStart]
      .ok ((s.allowKey (s.depth == 0)).push .value rest)

def anchorName (make : String → Token) (s : Scan) (m : Mark) (rest : List Mark) :
    Outcome Scan := do
  let s ← s.saveKey m
  let (name, after) := nameAt rest
  let ends := endsToken after || (after.head?.any fun n => "?:,]\x7d%@`".toList.contains n.char)
  if name.isEmpty || !ends then fault "a name lacks characters"
  else return (s.allowKey false).push (make name) after

def tagSign (s : Scan) (m : Mark) (rest : List Mark) : Outcome Scan := do
  let s ← s.saveKey m
  let (handle, ending, after) ← Tag.partsAfter rest
  if endsToken after || (0 < s.depth && after.head?.any (·.char == ',')) then
    return (s.allowKey false).push (.tag handle ending) after
  else fault "a tag goes on too long"

def block (s : Scan) (isLiteral : Bool) (rest : List Mark) : Outcome Scan := do
  let s ← s.dropKey
  let (text, after) ← blockScalar isLiteral s.indent rest
  return (s.allowKey true).push
    (.scalar (String.ofList text) (if isLiteral then .literal else .other)) after

def quoted (s : Scan) (m : Mark) (read : List Mark → Outcome (List Char × List Mark))
    (rest : List Mark) : Outcome Scan := do
  let s ← s.saveKey m
  let (text, after) ← read rest
  return (s.allowKey false).push (.scalar (String.ofList text) .other) after

def plain (s : Scan) (m : Mark) (rest : List Mark) : Outcome Scan := do
  let s ← s.saveKey m
  let (text, after, crossed) ← plainAfter (0 < s.depth) (s.indent + 1) Gap.none (m :: rest)
  return (s.allowKey crossed).push (.scalar (String.ofList text) .plain) after

def startsPlain (inFlow : Bool) (c : Char) (rest : List Mark) : Bool :=
  if c = '-' then !(rest.head?.any fun m => isBlank m.char)
  else if c = '?' ∨ c = ':' then !inFlow && !endsToken rest
  else !",[]\x7b\x7d#&*!|>'\"%@`".toList.contains c && !isBlank c && !isBreak c

/-! ## The whole text -/

/-- Reads the token that begins at a mark. -/
def tokenAt (s : Scan) (m : Mark) (rest : List Mark) : Outcome Scan :=
  let inFlow := decide (0 < s.depth)
  if m.column = 0 ∧ m.char = '%' then s.directive rest
  else if isTriple '-' (m :: rest) then s.documentMark .documentStart rest
  else if isTriple '.' (m :: rest) then s.documentMark .documentEnd rest
  else
    match m.char with
    | '[' => s.openFlow .flowSequenceStart m rest
    | '\x7b' => s.openFlow .flowMappingStart m rest
    | ']' => s.closeFlow .flowSequenceEnd rest
    | '\x7d' => s.closeFlow .flowMappingEnd rest
    | ',' => s.flowEntry rest
    | '*' => s.anchorName .alias m rest
    | '&' => s.anchorName .anchor m rest
    | '!' => s.tagSign m rest
    | '\'' => s.quoted m (singleQuoted Gap.none) rest
    | '"' => s.quoted m (doubleQuoted (.text Gap.none)) rest
    | c =>
      if c = '-' ∧ endsToken rest then s.blockSign .blockSequenceStart .blockEntry m rest true
      else if c = '?' ∧ (inFlow ∨ endsToken rest) then
        s.blockSign .blockMappingStart .key m rest (!inFlow)
      else if c = ':' ∧ (inFlow ∨ endsToken rest) then s.valueSign m rest
      else if (c = '|' ∨ c = '>') ∧ !inFlow then s.block (c == '|') rest
      else if startsPlain inFlow c rest then s.plain m rest
      else fault "a character that begins nothing"

/-- Reads the tokens that are left. Each takes a character at least, so `fuel` need not be more than
the number of characters. -/
def tokensLeft : (fuel : Nat) → Scan → Outcome (List Token)
  | fuel, s =>
    let gap := skipped (0 < s.depth) s.keyAllowed false s.rest
    let s := { s with keyAllowed := gap.1, rest := gap.2 }
    match fuel, gap.2 with
    | _, [] => do
      let s ← (s.closeBlocks (-1)).dropKey
      return s.tokens.toList
    | 0, _ :: _ => fault "the text does not end"
    | fuel + 1, m :: rest => do
      let s ← s.dropOldKeys m
      let s ← (s.closeBlocks m.column).tokenAt m rest
      tokensLeft fuel s

end Scan

def tokens (text : String) : Outcome (List Token) := do
  let ms ← marks text
  Scan.tokensLeft ms.length { rest := ms }

end Migration.Yaml
