import Migration.Text.Digits
import Migration.Yaml.Mark

/-
  Tags: what a node says about its own type.

  A tag is an address, kept as the octets that it stands for. It is written out
  between angle brackets, or as a handle with an ending, where the handle is short
  for a stem. An octet may be written as a percent sign with two digits, as long
  as the octets written so make up whole characters.
-/

namespace Migration.Yaml

abbrev Octets := List UInt8

def octetsOf (text : String) : Octets := text.toUTF8.data.toList

/-- A tag by its address. -/
structure Tag where
  address : Octets
  deriving DecidableEq, Repr

namespace Tag

/-! ## Addresses -/

def isAddressChar (c : Char) : Bool :=
  c.isAlphanum || "-_;/?:@&=+$.%!~*'()".toList.contains c

/-- The signs that may stand only in an address that is written out. -/
def writtenOutSigns : List Char := [',', '[', ']']

/-- How many octets follow the first octet of a character. -/
def following? (octet : Nat) : Option Nat :=
  if octet < 0x80 then some 0
  else if octet < 0xc0 then none
  else if octet < 0xe0 then some 1
  else if octet < 0xf0 then some 2
  else if octet < 0xf8 then some 3
  else none

/-- How many octets of a character are left after an octet, of `left` before it. -/
def leftAfter? (left octet : Nat) : Option Nat :=
  if left = 0 then following? octet
  else if 0x80 ≤ octet ∧ octet < 0xc0 then some (left - 1)
  else none

/-- The octet that two digits write. -/
def octetOf? (high low : Mark) : Option Nat :=
  match Text.hexValue? high.char, Text.hexValue? low.char with
  | some h, some l => some (16 * h + l)
  | _, _ => none

/-- The octets of an address in which `signs` may stand too, and what follows it. `left` octets of
a character are still to come, each written by digits. -/
def addressAfter (signs : List Char) : (left : Nat) → List Mark → Outcome (Octets × List Mark)
  | left, [] => if left = 0 then .ok ([], []) else fault "an address lacks octets"
  | left, m :: rest =>
    if m.char = '%' then
      match rest with
      | high :: low :: more =>
        match octetOf? high low with
        | some octet =>
          match leftAfter? left octet with
          | some left => do
            let later ← addressAfter signs left more
            return (UInt8.ofNat octet :: later.1, later.2)
          | none => fault "an address has an octet that makes up no character"
        | none => fault "an address lacks digits"
      | _ => fault "an address lacks digits"
    else if 0 < left then fault "an address lacks octets"
    else if isAddressChar m.char || signs.contains m.char then do
      let later ← addressAfter signs 0 rest
      return (UInt8.ofNat m.char.toNat :: later.1, later.2)
    else .ok ([], m :: rest)

/-- The octets up to the first zero, which ends an address. -/
def untilZero (octets : Octets) : Octets := octets.takeWhile (· ≠ 0)

/-- The octets of an address, which must not be empty, and what follows it. -/
def addressAt (signs : List Char) (ms : List Mark) : Outcome (Octets × List Mark) := do
  let (octets, after) ← addressAfter signs 0 ms
  if octets.isEmpty then fault "an address is empty" else return (untilZero octets, after)

/-! ## Tags as they are written -/

/-- A handle with a name from after its first sign on, and what follows the sign that closes it. -/
def closedHandle? (ms : List Mark) : Option (String × List Mark) :=
  let (name, after) := nameAt ms
  match after with
  | m :: rest => if m.char = '!' then some ("!" ++ name ++ "!", rest) else none
  | [] => none

/-- The handle and the ending of a tag from after its first sign on, and what follows it. The
handle of a tag that is written out is empty, and so is that of a sign alone. -/
def partsAfter (ms : List Mark) : Outcome (String × Octets × List Mark) := do
  match ms, closedHandle? ms with
  | ⟨'<', _, _, _⟩ :: rest, _ =>
    let (ending, after) ← addressAt writtenOutSigns rest
    match after with
    | ⟨'>', _, _, _⟩ :: after => return ("", ending, after)
    | _ => fault "a tag is not closed"
  | _, some (handle, rest) =>
    let (ending, after) ← addressAt [] rest
    return (handle, ending, after)
  | _, none =>
    let (octets, after) ← addressAfter [] 0 ms
    let ending := untilZero octets
    return if ending.isEmpty then ("", octetsOf "!", after) else ("!", ending, after)

/-! ## What tags say -/

def ofType (name : String) : Tag := ⟨octetsOf ("tag:yaml.org,2002:" ++ name)⟩

/-- The name that a tag of a document's own gives: what follows its sign, or else the sign. -/
def ownName? (t : Tag) : Option String :=
  match t.address with
  | [] => none
  | first :: rest =>
    if [first] = octetsOf "!" then
      String.fromUTF8? ⟨(if rest.isEmpty then [first] else rest).toArray⟩
    else none

end Tag

end Migration.Yaml
