import Migration.Text.Digits

/-
  Decimal numbers: an integer mantissa and the number of its digits that stand
  after the point.
-/

namespace Migration

/-- The number `mantissa / 10 ^ scale`, with its scale. -/
structure Decimal where
  mantissa : Int
  scale : Nat
  deriving DecidableEq, Repr

namespace Decimal

/-- Digits with a point before the last `scale` of them, and at least one digit before it. -/
def placePoint (scale : Nat) (digits : List Char) : List Char :=
  let digits := Text.repeated '0' (scale + 1 - digits.length) ++ digits
  let whole := digits.take (digits.length - scale)
  let fraction := digits.drop (digits.length - scale)
  if scale = 0 then whole else whole ++ '.' :: fraction

/-- The number in digits, with as many after the point as its scale says. -/
def text (d : Decimal) : String :=
  let digits := placePoint d.scale (Nat.toDigits 10 d.mantissa.natAbs)
  String.ofList (if d.mantissa < 0 then '-' :: digits else digits)

def truncated (d : Decimal) : Int := d.mantissa.tdiv (Nat.pow 10 d.scale)

end Decimal

end Migration
