import Migration.Decimal.Shortest

/-
  The progress of a copy: how far it is, how fast, and how long it may take.

  Times are nanoseconds. A time is projected by a floating-point factor, and the
  product is rounded to the nearest nanosecond, of two the even one.
-/

namespace Migration

open Shortest (Binary)

def secondsOf (nanos : Nat) : Float :=
  Float.ofNat (nanos / 1000000000) + Float.ofNat (nanos % 1000000000) / 1000000000

/-- The quotient rounded to the nearest integer, of two the even one. -/
def roundedQuotient (numerator denominator : Nat) : Nat :=
  let whole := numerator / denominator
  let rest := 2 * (numerator % denominator)
  if rest < denominator ∨ (rest = denominator ∧ whole % 2 = 0) then whole else whole + 1

/-- The nanoseconds of a number of seconds; zero for one that is none. -/
def nanosOfSeconds (seconds : Float) : Nat :=
  match Binary.ofBits64 seconds.toBits with
  | .finite false mantissa exponent _ =>
    let nanos := mantissa * 1000000000
    if 0 ≤ exponent then nanos * Nat.pow 2 exponent.toNat
    else roundedQuotient nanos (Nat.pow 2 exponent.natAbs)
  | _ => 0

/-- A time made longer by a factor. -/
def scaledNanos (nanos : Nat) (factor : Float) : Nat :=
  nanosOfSeconds (factor * secondsOf nanos)

structure ProgressSample where
  table : String
  rows : Nat
  estimatedRows : Nat
  /-- The time since the copy began. -/
  elapsed : Nat
  deriving DecidableEq, Repr

namespace ProgressSample

/-- The rows of a second; where no time went by, the rows. -/
def rowsPerSecond (s : ProgressSample) : Float :=
  let seconds := secondsOf s.elapsed
  if 0 < seconds then Float.ofNat s.rows / seconds else Float.ofNat s.rows

/-- The part of the estimated rows in percent, a hundred at most. -/
def percent (s : ProgressSample) : Float :=
  if s.estimatedRows = 0 then 100
  else
    let share := Float.ofNat s.rows / Float.ofNat s.estimatedRows * 100
    if share < 100 then share else 100

/-- The time of the whole copy at this speed. -/
def estimatedTotal (s : ProgressSample) : Nat :=
  if s.rows = 0 ∨ s.estimatedRows ≤ s.rows then s.elapsed
  else scaledNanos s.elapsed (Float.ofNat s.estimatedRows / Float.ofNat s.rows)

def remaining (s : ProgressSample) : Nat := s.estimatedTotal - s.elapsed

end ProgressSample

end Migration
