import Migration.Decimal
import Migration.Postgres.Word

/-
  Decimal numbers as the target sends them: groups of four digits, the place of
  the first of them, and the number of digits that are shown after the point.

  A number that is read keeps as many digits after the point as are shown, but for
  those that 96 bits do not hold.
-/

namespace Migration.Postgres

/-- A number of groups of four digits, of which the first counts `10000 ^ weight`. -/
structure Numeric where
  isNegative : Bool
  weight : Int
  /-- The number of digits that are shown after the point. -/
  scale : Nat
  groups : List Nat
  deriving DecidableEq, Repr

namespace Numeric

/-! ## Groups -/

/-- The groups of a number before those that are given. -/
def groupsBefore (n : Nat) (after : List Nat) : List Nat :=
  if n = 0 then after else groupsBefore (n / 10000) (n % 10000 :: after)
termination_by n
decreasing_by omega

/-- The groups of a decimal number, which is filled up to whole groups after the point. -/
def ofDecimal (d : Decimal) : Numeric :=
  let fraction := (d.scale + 3) / 4
  let groups := groupsBefore (d.mantissa.natAbs * Nat.pow 10 (fraction * 4 - d.scale)) []
  { isNegative := d.mantissa < 0
    weight := groups.length - fraction - 1
    scale := d.scale
    groups }

/-! ## Values -/

def maxScale : Nat := 28

/-- A bound that no mantissa reaches. -/
def mantissaBound : Nat := Nat.pow 2 96

/-- The units of the last place that a group is worth. A group just behind that place is
rounded. -/
def groupUnits (weight : Int) (group : Nat) : Nat :=
  let place := weight + 7
  if 0 ≤ place then group * Nat.pow 10000 place.toNat
  else if place = -1 ∧ 5000 ≤ group then 1
  else 0

/-- The units of the last place that groups are worth. -/
def unitsFrom : (weight : Int) → List Nat → Nat
  | _, [] => 0
  | weight, group :: rest => groupUnits weight group + unitsFrom (weight - 1) rest

/-- The mantissa of so many units with fewer digits after the point; a half is rounded up. -/
def mantissaAt (scale units : Nat) : Nat :=
  let unit := Nat.pow 10 (maxScale - scale)
  (units + unit / 2) / unit

/-- The most digits after the point, up to a number of them, with which the mantissa fits. -/
def fittingScale (units : Nat) : Nat → Nat
  | 0 => 0
  | scale + 1 =>
    if mantissaAt (scale + 1) units < mantissaBound then scale + 1 else fittingScale units scale

/-- The decimal number, if its digits before the point fit. -/
def toDecimal? (n : Numeric) : Option Decimal :=
  let units := unitsFrom n.weight n.groups
  if units / Nat.pow 10 maxScale < mantissaBound then
    let scale := fittingScale units (min n.scale maxScale)
    let mantissa : Int := mantissaAt scale units
    some ⟨if n.isNegative then -mantissa else mantissa, scale⟩
  else none

/-! ## Bytes -/

def negativeMark : Nat := 0x4000

/-- The bytes: four words that tell the number of groups, the weight, the sign and the scale, then
the groups. -/
def bytes (n : Numeric) : List UInt8 :=
  bigEndian 2 n.groups.length ++ signed 2 n.weight
    ++ bigEndian 2 (if n.isNegative then negativeMark else 0) ++ bigEndian 2 n.scale
    ++ n.groups.flatMap (bigEndian 2)

/-- The first words of bytes, of two bytes each. -/
def words? : Nat → List UInt8 → Option (List Nat)
  | 0, _ => some []
  | count + 1, high :: low :: rest =>
    (words? count rest).map (ofBigEndian [high, low] :: ·)
  | _ + 1, _ => none

/-- The number that bytes spell. What follows the groups is passed over. -/
def ofBytes? (bytes : List UInt8) : Option Numeric := do
  let [count, weight, sign, scale] ← words? 4 bytes | none
  let groups ← words? count (bytes.drop 8)
  return { isNegative := sign = negativeMark, weight := (weight : Int).bmod 65536, scale, groups }

end Numeric

end Migration.Postgres
