import Migration.Decimal

/-
  The shortest decimal for a binary floating-point number.

  A finite number is `mantissa * 2 ^ exponent`. The reals that round to it make
  an interval, whose ends belong to it where the mantissa is even. For one digit,
  then two, and so on up to seventeen, the two neighbours of the number among
  the decimals of so many digits are held against the interval; the first that
  lies in it is taken, of two the nearer, and at equal distance the greater.
-/

namespace Migration.Shortest

/-! ## Binary numbers -/

/-- What the bits of a floating-point number stand for. -/
inductive Binary where
  | nan
  | infinite (negative : Bool)
  /-- The number `mantissa * 2 ^ exponent`; `narrow` says that the next smaller number is only half
  as far away as the next greater. -/
  | finite (negative : Bool) (mantissa : Nat) (exponent : Int) (narrow : Bool)
  deriving DecidableEq, Repr

/-- Reads the bits of a format with so many bits of exponent and of fraction. -/
def Binary.ofBits (exponentBits fractionBits bits : Nat) : Binary :=
  let fraction := bits % Nat.pow 2 fractionBits
  let exponent := bits / Nat.pow 2 fractionBits % Nat.pow 2 exponentBits
  let negative := bits / Nat.pow 2 (fractionBits + exponentBits) % 2 == 1
  let bias : Int := (Nat.pow 2 (exponentBits - 1) : Int) - 1 + fractionBits
  if exponent = Nat.pow 2 exponentBits - 1 then
    if fraction = 0 then .infinite negative else .nan
  else if exponent = 0 then .finite negative fraction (1 - bias) false
  else
    .finite negative (fraction + Nat.pow 2 fractionBits) (exponent - bias)
      (fraction == 0 && exponent != 1)

/-- Reads the bits of a number of 64 bits. -/
def Binary.ofBits64 (bits : UInt64) : Binary := Binary.ofBits 11 52 bits.toNat

/-- The bits of 64 for the number that has these bits of 32. -/
def widen (bits : UInt32) : UInt64 :=
  let sign := bits.toNat / Nat.pow 2 31 * Nat.pow 2 63
  let exponent := bits.toNat / Nat.pow 2 23 % 256
  let fraction := bits.toNat % Nat.pow 2 23
  let magnitude :=
    if exponent = 255 then 2047 * Nat.pow 2 52 + fraction * Nat.pow 2 29
    else if exponent ≠ 0 then (exponent + 896) * Nat.pow 2 52 + fraction * Nat.pow 2 29
    else if fraction = 0 then 0
    else
      let top := fraction.log2
      (top + 874) * Nat.pow 2 52 + (fraction - Nat.pow 2 top) * Nat.pow 2 (52 - top)
  UInt64.ofNat (sign + magnitude)

/-! ## The search -/

def tenTo (e : Int) : Nat × Nat :=
  if 0 ≤ e then (Nat.pow 10 e.toNat, 1) else (1, Nat.pow 10 (-e).toNat)

/-- The exponent of the greatest power of ten up to `num / den`, which is positive. -/
def decimalExponent (num den : Nat) : Int :=
  if den ≤ num then (((Nat.toDigits 10 (num / den)).length - 1 : Nat) : Int)
  else
    let below := (num + den - 1) / num - 1
    Int.neg (if below = 0 then 0 else (Nat.toDigits 10 below).length)

/-- A decimal `digits * 10 ^ exponent`. -/
structure Candidate where
  digits : Nat
  exponent : Int
  deriving DecidableEq, Repr

/-- The decimal with the trailing zeros of its digits moved to the exponent. -/
def Candidate.reduced : (fuel : Nat) → Candidate → Candidate
  | 0, c => c
  | fuel + 1, c =>
    if c.digits ≠ 0 ∧ c.digits % 10 = 0 then
      Candidate.reduced fuel ⟨c.digits / 10, c.exponent + 1⟩
    else c

/-- The number and the interval around it, over one denominator. -/
structure Interval where
  low : Nat
  value : Nat
  high : Nat
  den : Nat
  closed : Bool
  deriving DecidableEq, Repr

/-- The reals that round to a positive finite number. -/
def Interval.around (mantissa : Nat) (exponent : Int) (narrow : Bool) : Interval :=
  let e := exponent - 2
  let up := if 0 ≤ e then Nat.pow 2 e.toNat else 1
  { low := (4 * mantissa - (if narrow then 1 else 2)) * up
    value := 4 * mantissa * up
    high := (4 * mantissa + 2) * up
    den := if 0 ≤ e then 1 else Nat.pow 2 (-e).toNat
    closed := mantissa % 2 == 0 }

/-- Whether a multiple of a power of ten lies in the interval. -/
def Interval.holds (i : Interval) (digits : Nat) (step : Nat × Nat) : Bool :=
  let point := digits * step.1 * i.den
  let low := i.low * step.2
  let high := i.high * step.2
  if i.closed then low ≤ point && point ≤ high else low < point && point < high

/-- The decimal of `count` digits in the interval that is nearest to the number. -/
def Interval.nearest? (i : Interval) (count : Nat) : Option Candidate :=
  let exponent := decimalExponent i.value i.den - (count - 1 : Nat)
  let step := tenTo exponent
  let scaled := i.value * step.2
  let unit := i.den * step.1
  let below := scaled / unit
  let remainder := scaled % unit
  let belowHolds := i.holds below step
  let aboveHolds := i.holds (below + 1) step
  if belowHolds && (!aboveHolds || 2 * remainder < unit) then some ⟨below, exponent⟩
  else if aboveHolds then some ⟨below + 1, exponent⟩
  else none

/-- The first of the counts from `count` on for which some decimal lies in the interval. -/
def Interval.search (i : Interval) : (tries count : Nat) → Candidate
  | 0, count => (i.nearest? count).getD ⟨0, 0⟩
  | tries + 1, count =>
    match i.nearest? count with
    | some c => c
    | none => i.search tries (count + 1)

/-- The shortest decimal for a positive finite number. -/
def shortest (mantissa : Nat) (exponent : Int) (narrow : Bool) : Candidate :=
  Candidate.reduced 17 ((Interval.around mantissa exponent narrow).search 16 1)

/-! ## Text -/

def positional (c : Candidate) : List Char :=
  let digits := Nat.toDigits 10 c.digits
  if 0 ≤ c.exponent then digits ++ Text.repeated '0' c.exponent.toNat
  else Decimal.placePoint (-c.exponent).toNat digits

/-- A number of 64 bits in digits: the shortest that read back, never with an exponent. -/
def text (bits : UInt64) : String :=
  match Binary.ofBits64 bits with
  | .nan => "NaN"
  | .infinite negative => if negative then "-Infinity" else "Infinity"
  | .finite negative mantissa exponent narrow =>
    let digits :=
      if mantissa = 0 then ['0'] else positional (shortest mantissa exponent narrow)
    String.ofList (if negative then '-' :: digits else digits)

end Migration.Shortest
