/-
  Numbers as digits: decimal numbers padded with zeros, bytes and longer words in
  base sixteen, and integers read back from text.
-/

namespace Migration.Text

def repeated (c : Char) (n : Nat) : List Char := List.replicate n c

/-- The decimal digits of a number, with zeros before them up to a width. -/
def padded (width n : Nat) : List Char :=
  let digits := Nat.toDigits 10 n
  repeated '0' (width - digits.length) ++ digits

/-- The lowercase digits of a number in base sixteen, with zeros before them up to a width. -/
def hexPadded (width n : Nat) : List Char :=
  let digits := Nat.toDigits 16 n
  repeated '0' (width - digits.length) ++ digits

def hexBytes (bytes : List UInt8) : List Char :=
  bytes.flatMap (fun b => hexPadded 2 b.toNat)

def hexValue? (c : Char) : Option Nat :=
  if c.isDigit then some (c.toNat - '0'.toNat)
  else if 'a' ≤ c ∧ c ≤ 'f' then some (c.toNat - 'a'.toNat + 10)
  else if 'A' ≤ c ∧ c ≤ 'F' then some (c.toNat - 'A'.toNat + 10)
  else none

/-- The number that digits in base sixteen write, given the number before them. -/
def readHexAfter : Nat → List Char → Option Nat
  | n, [] => some n
  | n, c :: rest =>
    match hexValue? c with
    | some v => readHexAfter (n * 16 + v) rest
    | none => none

def readHex (cs : List Char) : Option Nat := readHexAfter 0 cs

/-- The bytes that pairs of digits in base sixteen write. -/
def readHexBytes : List Char → Option (List UInt8)
  | [] => some []
  | [_] => none
  | c :: d :: rest =>
    match hexValue? c, hexValue? d, readHexBytes rest with
    | some high, some low, some bytes => some (UInt8.ofNat (high * 16 + low) :: bytes)
    | _, _, _ => none

/-- The number that decimal digits write, given the number before them. -/
def readDecimalAfter : Nat → List Char → Option Nat
  | n, [] => some n
  | n, c :: rest =>
    if c.isDigit then readDecimalAfter (n * 10 + (c.toNat - '0'.toNat)) rest else none

/-- The number that at least one decimal digit writes. -/
def readNat (cs : List Char) : Option Nat :=
  if cs.isEmpty then none else readDecimalAfter 0 cs

/-- The integer that a sign or none and decimal digits write. -/
def readInt (cs : List Char) : Option Int :=
  match cs with
  | '-' :: digits => (readNat digits).map (fun n => -(n : Int))
  | '+' :: digits => (readNat digits).map (fun n => (n : Int))
  | digits => (readNat digits).map (fun n => (n : Int))

end Migration.Text
