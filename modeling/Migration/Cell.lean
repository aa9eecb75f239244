import Migration.Calendar
import Migration.Decimal
import Migration.Decimal.Shortest
import Migration.Text.Blank

/-
  The cells of rows.

  `Cell.pgText` writes a cell in the form in which the target reads it as a text
  parameter. Each sort of cell has one form, from which the value can be read
  back; only null has none.
-/

namespace Migration

abbrev Uuid := BitVec 128

/-- A value of a row. -/
inductive Cell where
  | null
  | bool (value : Bool)
  | int16 (value : Int16)
  | int32 (value : Int32)
  | int64 (value : Int64)
  /-- A floating-point number of 32 bits, as its bits. -/
  | float32 (bits : UInt32)
  /-- A floating-point number of 64 bits, as its bits. -/
  | float64 (bits : UInt64)
  | text (value : String)
  | bytes (value : List UInt8)
  | uuid (value : Uuid)
  | decimal (value : Decimal)
  | dateTime (value : DateTime)
  | dateTimeOffset (value : OffsetDateTime)
  | date (value : Date)
  | time (value : Time)
  deriving DecidableEq, Repr

abbrev Row := List Cell

/-! ## Dates and times in text -/

/-- A year in four digits, with a sign before those that have not four digits. -/
def yearText (year : Int) : List Char :=
  if year < 0 then '-' :: Text.padded 4 year.natAbs
  else if 9999 < year then '+' :: Text.padded 4 year.natAbs
  else Text.padded 4 year.natAbs

/-- The fraction of a second: nothing, or three, six or nine digits, the fewest that lose
nothing. -/
def fractionText (nano : Nat) : List Char :=
  if nano = 0 then []
  else if nano % 1000000 = 0 then '.' :: Text.padded 3 (nano / 1000000)
  else if nano % 1000 = 0 then '.' :: Text.padded 6 (nano / 1000)
  else '.' :: Text.padded 9 nano

/-- A date as year, month and day between hyphens. -/
def Date.text (d : Date) : List Char :=
  yearText d.year ++ '-' :: Text.padded 2 d.month ++ '-' :: Text.padded 2 d.day

/-- A time of day, the fraction only where there is one. -/
def Time.text (t : Time) : List Char :=
  Text.padded 2 t.hour ++ ':' :: Text.padded 2 t.minute ++ ':' :: Text.padded 2 t.second
    ++ fractionText t.nano

/-- An offset in hours and minutes, rounded to the nearest minute. -/
def offsetText (seconds : Int) : List Char :=
  let minutes := (seconds.natAbs + 30) / 60
  (if seconds < 0 then '-' else '+') :: Text.padded 2 (minutes / 60)
    ++ ':' :: Text.padded 2 (minutes % 60)

/-- A date and a time with `separator` between them. -/
def DateTime.text (separator : Char) (t : DateTime) : List Char :=
  t.date.text ++ separator :: t.time.text

def uuidText (value : Uuid) : List Char :=
  let digits := Text.hexPadded 32 value.toNat
  digits.take 8 ++ '-' :: (digits.drop 8).take 4 ++ '-' :: (digits.drop 12).take 4
    ++ '-' :: (digits.drop 16).take 4 ++ '-' :: digits.drop 20

namespace Cell

def isNull : Cell → Bool
  | .null => true
  | _ => false

/-- The cell without NUL characters, which the target refuses in text. -/
def scrubbed : Cell → Cell
  | .text value => .text (String.ofList (value.toList.filter (· ≠ '\x00')))
  | cell => cell

/-- The text form in which the target takes the cell; null has none. -/
def pgText : Cell → Option String
  | .null => none
  | .bool value => some (if value then "true" else "false")
  | .int16 value => some (toString value.toInt)
  | .int32 value => some (toString value.toInt)
  | .int64 value => some (toString value.toInt)
  | .float32 bits => some (Shortest.text (Shortest.widen bits))
  | .float64 bits => some (Shortest.text bits)
  | .text value => some value
  | .bytes value => some (String.ofList ('\\' :: 'x' :: Text.hexBytes value))
  | .uuid value => some (String.ofList (uuidText value))
  | .decimal value => some value.text
  | .dateTime value => some (String.ofList (value.text ' '))
  | .dateTimeOffset value =>
    some (String.ofList (value.wall.text 'T' ++ offsetText value.offset))
  | .date value => some (String.ofList value.text)
  | .time value => some (String.ofList value.text)

/-- An integer, if it is one of 64 bits. -/
def int64? (n : Int) : Option Int :=
  if -9223372036854775808 ≤ n ∧ n ≤ 9223372036854775807 then some n else none

/-- The integer that the cell holds: an integer itself, the integer part of a decimal, or what a
text spells. -/
def toInt? : Cell → Option Int
  | .int16 value => some value.toInt
  | .int32 value => some value.toInt
  | .int64 value => some value.toInt
  | .decimal value => int64? value.truncated
  | .text value => (Text.readInt (Text.trimmed value.toList)).bind int64?
  | _ => none

/-- A value that may be absent, null standing for its absence. -/
def ofOption {α : Type} (make : α → Cell) : Option α → Cell
  | none => .null
  | some value => make value

end Cell

end Migration
