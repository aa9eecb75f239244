import Migration.Yaml.Token

/-
  The document of a YAML text.

  A text holds one document, a tree of scalars, sequences and mappings. The keys
  of a mapping are nodes, and may repeat; it is for the reader of the tree to
  refuse that.

  An anchor gives a node a number: how many names were known before it. A name
  that is given again takes the next number along, and a new name may then get
  the same one. An alias has the number that its name has where it stands. It
  stands for the node that begins last of those with the number, so it can stand
  for a node that it is a part of.
-/

namespace Migration.Yaml

/-- A node of a document. -/
inductive Node where
  | scalar (text : String) (style : Style) (tag : Option Tag)
  | sequence (items : List Node)
  | mapping (entries : List (Node × Node))
  /-- Stands for the node with a number. -/
  | alias (number : Nat)
  deriving Repr, Inhabited

/-- The scalar that stands where nothing is written. -/
def Node.empty : Node := .scalar "" .plain none

/-- A tree, and the nodes that its aliases stand for. -/
structure Document where
  root : Node
  /-- The nodes with their numbers. The first with a number is the one that counts. -/
  numbered : List (Nat × Node) := []
  deriving Repr

/-- What a node stands for: an alias for the node with its number, any other for itself. -/
def Document.resolve (d : Document) : Node → Node
  | .alias number => (d.numbered.lookup number).getD (.alias number)
  | n => n

/-! ## Reading tokens -/

/-- What is left to read, and what names and handles mean so far. -/
structure Reading where
  tokens : List Token
  /-- The names of nodes with their numbers, each name once. -/
  names : List (String × Nat) := []
  /-- The nodes with a number that are read, latest first. -/
  numbered : List (Nat × Node) := []
  /-- The stems of tags, by handle. -/
  stems : List (String × Octets) :=
    [("!", octetsOf "!"), ("!!", octetsOf "tag:yaml.org,2002:")]

/-- A step of reading that may fail. -/
abbrev Reader (α : Type) := StateT Reading (Except MigrationError) α

namespace Reader

def peek : Reader (Option Token) := do return (← get).tokens.head?

def skip : Reader Unit := modify fun r => { r with tokens := r.tokens.drop 1 }

/-- Passes over the next token if it is this one, and tells whether it was. -/
def accept (t : Token) : Reader Bool := do
  if (← peek) = some t then
    skip
    return true
  else return false

/-- Fails because the tokens are in no order that makes a tree. -/
def refuse {α : Type} (message : String) : Reader α := throw (.yaml message)

def isAt (ts : List Token) : Reader Bool := do
  match ← peek with
  | some t => return ts.contains t
  | none => return true

/-- The tag with its stem written out. -/
def resolved (handle : String) (ending : Octets) : Reader Tag := do
  if handle = "" then return ⟨ending⟩
  else
    match (← get).stems.lookup handle with
    | some stem => return ⟨stem ++ ending⟩
    | none => refuse "a tag with an unknown handle"

/-- The number that a name has. -/
def numberOf (name : String) : Reader Nat := do
  match (← get).names.lookup name with
  | some number => return number
  | none => refuse "an unknown anchor"

/-- The number for a node with a name: how many names there are before it. -/
def nextNumber (name : String) : Reader Nat := do
  let names := (← get).names
  modify fun r => { r with names := (name, names.length) :: names.filter (·.1 ≠ name) }
  return names.length

/-- Reads a node that has a number. Within it another node may get the same number, which begins
later and so keeps it. -/
def numberedAs (number : Nat) (read : Reader Node) : Reader Node := do
  let before := (← get).numbered.length
  let found ← read
  let numbered := (← get).numbered
  let within := numbered.take (numbered.length - before)
  if (within.lookup number).isNone then
    modify fun r => { r with numbered := (number, found) :: numbered }
  return found

structure Properties where
  anchor : Option String := none
  tag : Option Tag := none

def Properties.isEmpty (p : Properties) : Bool := p.anchor.isNone && p.tag.isNone

/-- Reads one property, if there is one that is not there already. -/
def property (p : Properties) : Reader Properties := do
  match ← peek with
  | some (.anchor name) =>
    if p.anchor.isSome then return p
    else
      skip
      return { p with anchor := some name }
  | some (.tag handle ending) =>
    if p.tag.isSome then return p
    else
      skip
      return { p with tag := some (← resolved handle ending) }
  | _ => return p

/-- The tokens after which a mapping in a block has no node where one may stand. -/
def blockStops : List Token := [.key, .value, .blockEnd]

mutual

/-- Reads a node. In a block, collections may stand without braces or brackets; `inMapping` admits
a sequence whose entries are no deeper than the key before it. -/
def node (inBlock inMapping : Bool) : (fuel : Nat) → Reader Node
  | 0 => refuse "a text without an end"
  | fuel + 1 => do
    if let some (.alias name) ← peek then
      skip
      return .alias (← numberOf name)
    else
      let p ← property (← property {})
      match p.anchor with
      | some name =>
        let number ← nextNumber name
        numberedAs number (content inBlock inMapping p fuel)
      | none => content inBlock inMapping p fuel

def content (inBlock inMapping : Bool) (p : Properties) : (fuel : Nat) → Reader Node
  | 0 => refuse "a text without an end"
  | fuel + 1 => do
    match ← peek with
    | some (.scalar text style) =>
      skip
      return .scalar text style p.tag
    | some .flowSequenceStart =>
      skip
      return .sequence (← flowItems true fuel)
    | some .flowMappingStart =>
      skip
      return .mapping (← flowEntries true fuel)
    | some .blockSequenceStart =>
      if inBlock then
        skip
        return .sequence (← blockItems fuel)
      else refuse "a block within braces or brackets"
    | some .blockMappingStart =>
      if inBlock then
        skip
        return .mapping (← blockEntries fuel)
      else refuse "a block within braces or brackets"
    | some .blockEntry =>
      if inMapping then return .sequence (← flatItems fuel)
      else if p.isEmpty then refuse "a node is missing"
      else return .scalar "" .plain p.tag
    | _ =>
      if p.isEmpty then refuse "a node is missing"
      else return .scalar "" .plain p.tag

/-- Reads a node unless one of the tokens comes that show that there is none. -/
def nodeUnless (stops : List Token) (inBlock inMapping : Bool) : (fuel : Nat) → Reader Node
  | 0 => refuse "a text without an end"
  | fuel + 1 => do
    if ← isAt stops then return Node.empty
    else node inBlock inMapping fuel

def blockItems : (fuel : Nat) → Reader (List Node)
  | 0 => refuse "a text without an end"
  | fuel + 1 => do
    if ← accept .blockEntry then
      let item ← nodeUnless [.blockEntry, .blockEnd] true false fuel
      return item :: (← blockItems fuel)
    else if ← accept .blockEnd then return []
    else refuse "an entry is missing"

def flatItems : (fuel : Nat) → Reader (List Node)
  | 0 => refuse "a text without an end"
  | fuel + 1 => do
    if ← accept .blockEntry then
      let item ← nodeUnless (.blockEntry :: blockStops) true false fuel
      return item :: (← flatItems fuel)
    else return []

/-- Reads the value after a key, which may be left out with or without its colon. -/
def valueAfter (stops : List Token) (inBlock : Bool) : (fuel : Nat) → Reader Node
  | 0 => refuse "a text without an end"
  | fuel + 1 => do
    if ← accept .value then nodeUnless stops inBlock inBlock fuel
    else return Node.empty

def blockEntries : (fuel : Nat) → Reader (List (Node × Node))
  | 0 => refuse "a text without an end"
  | fuel + 1 => do
    if ← accept .key then
      let key ← nodeUnless blockStops true true fuel
      let value ← valueAfter blockStops true fuel
      return (key, value) :: (← blockEntries fuel)
    else if ← accept .blockEnd then return []
    else refuse "a key is missing"

/-- Reads the key of an item in brackets. The sign that shows that there is none is passed over. -/
def flowKey : (fuel : Nat) → Reader Node
  | 0 => refuse "a text without an end"
  | fuel + 1 => do
    if ← isAt [.value, .flowEntry, .flowSequenceEnd] then
      skip
      return Node.empty
    else node false false fuel

/-- Reads the items of a sequence in brackets, of which one may be a key with its value. -/
def flowItems (isFirst : Bool) : (fuel : Nat) → Reader (List Node)
  | 0 => refuse "a text without an end"
  | fuel + 1 => do
    if ← accept .flowSequenceEnd then return []
    else if !isFirst && !(← accept .flowEntry) then refuse "a comma or bracket is missing"
    else if ← accept .flowSequenceEnd then return []
    else if ← accept .key then
      let key ← flowKey fuel
      let value ← valueAfter [.flowEntry, .flowSequenceEnd] false fuel
      return .mapping [(key, value)] :: (← flowItems false fuel)
    else
      let item ← node false false fuel
      return item :: (← flowItems false fuel)

def flowEntries (isFirst : Bool) : (fuel : Nat) → Reader (List (Node × Node))
  | 0 => refuse "a text without an end"
  | fuel + 1 => do
    if ← accept .flowMappingEnd then return []
    else if !isFirst && !(← accept .flowEntry) then refuse "a comma or brace is missing"
    else if ← accept .flowMappingEnd then return []
    else if ← accept .key then
      let key ← nodeUnless [.value, .flowEntry, .flowMappingEnd] false false fuel
      let value ← valueAfter [.flowEntry, .flowMappingEnd] false fuel
      return (key, value) :: (← flowEntries false fuel)
    else
      let key ← node false false fuel
      return (key, Node.empty) :: (← flowEntries false fuel)

end

/-! ## Documents -/

def directives : (fuel : Nat) → (given : List Directive) → Reader Bool
  | 0, given => return !given.isEmpty
  | fuel + 1, given => do
    match ← peek with
    | some (.directive d) =>
      skip
      if given.any d.clashes then refuse "a directive is given twice"
      if let .stem handle address := d then
        modify fun r => { r with stems := (handle, address) :: r.stems }
      directives fuel (d :: given)
    | _ => return !given.isEmpty

/-- Passes over marks that end a document. -/
def documentEnds : (fuel : Nat) → Reader Unit
  | 0 => return ()
  | fuel + 1 => do
    if ← accept .documentEnd then documentEnds fuel else return ()

/-- Reads a text of one document. -/
def document : Reader Document := do
  let fuel := 4 * (← get).tokens.length + 4
  if (← peek).isNone then refuse "no document"
  let any ← directives fuel []
  let isMarked ← accept .documentStart
  if any && !isMarked then refuse "a document lacks its start"
  let root ← nodeUnless [.documentStart, .documentEnd] true false fuel
  documentEnds fuel
  if (← peek).isSome then refuse "more than one document"
  return { root, numbered := (← get).numbered }

end Reader

def Document.ofText (text : String) : Outcome Document := do
  let ts ← tokens text
  return (← Reader.document.run { tokens := ts }).1

end Migration.Yaml
