import Migration.Yaml.Tag

/-
  Directives: the lines before a document that say how it is written.

  One kind gives the version of the format, which must be 1.1 or 1.2. The other
  gives the stem that a handle of tags is short for. Neither may be given twice.
-/

namespace Migration.Yaml

inductive Directive where
  /-- The version that the document is written for. -/
  | version
  /-- The stem of a handle. -/
  | stem (handle : String) (address : Octets)
  deriving DecidableEq, Repr

namespace Directive

/-- Whether both say the same kind of thing, so that they cannot stand before one document. -/
def clashes : Directive → Directive → Bool
  | .version, .version => true
  | .stem handle _, .stem other _ => handle == other
  | _, _ => false

/-- The number that up to nine digits write, and what follows it. -/
def number (ms : List Mark) : Outcome (Nat × List Mark) :=
  let digits := ms.takeWhile (fun m => m.char.isDigit)
  match Text.readNat (chars digits) with
  | some n =>
    if digits.length ≤ 9 then .ok (n, ms.drop digits.length)
    else fault "a version has too many digits"
  | none => fault "a version lacks digits"

/-- A version from after the name of the directive on, and what follows it. -/
def versionAfter (ms : List Mark) : Outcome (Directive × List Mark) := do
  let (major, after) ← number (afterBlanks ms)
  match after with
  | ⟨'.', _, _, _⟩ :: rest =>
    let (minor, after) ← number rest
    if major = 1 ∧ (minor = 1 ∨ minor = 2) then return (.version, after)
    else fault "an unknown version"
  | _ => fault "a version lacks its point"

/-- A handle with its stem from after the name of the directive on, and what follows them. The
handle without a name may be one sign, and needs a blank after it like the others. -/
def stemAfter (ms : List Mark) : Outcome (Directive × List Mark) := do
  match afterBlanks ms with
  | ⟨'!', _, _, _⟩ :: rest =>
    let (handle, after) := (Tag.closedHandle? rest).getD ("!", rest)
    if !(after.head?.any fun m => isBlank m.char) then fault "a handle goes on too long"
    else
      let (address, after) ← Tag.addressAt Tag.writtenOutSigns (afterBlanks after)
      if endsToken after then return (.stem handle address, after)
      else fault "a stem goes on too long"
  | _ => fault "a handle is missing"

def ofMarks (ms : List Mark) : Outcome (Directive × List Mark) := do
  let (name, rest) := nameAt ms
  if !endsToken rest then fault "the name of a directive goes on too long"
  else
    let (directive, after) ←
      if name = "YAML" then versionAfter rest
      else if name = "TAG" then stemAfter rest
      else fault "unknown directive"
    return (directive, ← afterLine after)

end Directive

end Migration.Yaml
