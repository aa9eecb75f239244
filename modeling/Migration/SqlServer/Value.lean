import Migration.Cell

/-
  The values that SQL Server sends and takes.

  A cell has a type even where it is null. Days are counted from the first of
  January of the year one, but for the two older types of dates, which count from
  the year 1900. A time is a number of parts of a second, ten to its scale of them
  in a second.
-/

namespace Migration.SqlServer

/-- The types of cells. -/
inductive WireType where
  | tinyint
  | smallint
  | int
  | bigint
  | bit
  | real
  | float
  | money
  | nvarchar
  | xml
  | varbinary
  | uniqueidentifier
  | numeric
  | datetime
  | smalldatetime
  | date
  | time
  | datetime2
  | datetimeoffset
  deriving DecidableEq, Repr

namespace WireType

def all : List WireType :=
  [.tinyint, .smallint, .int, .bigint, .bit, .real, .float, .money, .nvarchar, .xml, .varbinary,
   .uniqueidentifier, .numeric, .datetime, .smalldatetime, .date, .time, .datetime2,
   .datetimeoffset]

def name : WireType → String
  | .tinyint => "tinyint"
  | .smallint => "smallint"
  | .int => "int"
  | .bigint => "bigint"
  | .bit => "bit"
  | .real => "real"
  | .float => "float"
  | .money => "money"
  | .nvarchar => "nvarchar"
  | .xml => "xml"
  | .varbinary => "varbinary"
  | .uniqueidentifier => "uniqueidentifier"
  | .numeric => "numeric"
  | .datetime => "datetime"
  | .smalldatetime => "smalldatetime"
  | .date => "date"
  | .time => "time"
  | .datetime2 => "datetime2"
  | .datetimeoffset => "datetimeoffset"

def ofName? (name : String) : Option WireType := all.find? (·.name == name)

end WireType

inductive WireValue where
  | tinyint (n : UInt8)
  | smallint (n : Int16)
  | int (n : Int32)
  | bigint (n : Int64)
  | bit (b : Bool)
  | real (bits : UInt32)
  | float (bits : UInt64)
  /-- An amount of money in parts of ten thousand. -/
  | money (parts : Int64)
  | nvarchar (text : String)
  | xml (text : String)
  | varbinary (bytes : List UInt8)
  | uniqueidentifier (id : Uuid)
  | numeric (precision : Nat) (value : Decimal)
  /-- Days since 1900, and three hundredths of a second. -/
  | datetime (days : Int) (ticks : Nat)
  /-- Days since 1900, and minutes. -/
  | smalldatetime (days minutes : Nat)
  | date (days : Int)
  | time (scale parts : Nat)
  | datetime2 (days : Int) (scale parts : Nat)
  /-- A moment of universal time, and the minutes that the place is ahead of it. -/
  | datetimeoffset (days : Int) (scale parts : Nat) (minutes : Int)
  deriving DecidableEq, Repr

structure WireCell where
  type : WireType
  value : Option WireValue
  deriving DecidableEq, Repr

/-! ## Cells -/

def daysBefore1900 : Int := 693595

/-- The nanoseconds of parts of a second. -/
def nanosOf (scale parts : Nat) : Nat := parts * Nat.pow 10 (9 - scale)

/-- The floating-point number of an amount of money. Its upper and lower halves are added before
the division. -/
def moneyAmount (parts : Int64) : Float :=
  let low := parts.toInt % 4294967296
  (Float.ofInt (parts.toInt - low) + Float.ofInt low) / 10000

def WireValue.toCell : WireValue → Cell
  | .tinyint n => .int16 (.ofNat n.toNat)
  | .smallint n => .int16 n
  | .int n => .int32 n
  | .bigint n => .int64 n
  | .bit b => .bool b
  | .real bits => .float32 bits
  | .float bits => .float64 bits
  | .money parts => .float64 (moneyAmount parts).toBits
  | .nvarchar text => .text text
  | .xml text => .text text
  | .varbinary bytes => .bytes bytes
  | .uniqueidentifier id => .uuid id
  | .numeric _ value => .decimal value
  | .datetime days ticks =>
    .dateTime ⟨Date.ofDays (daysBefore1900 + days), Time.ofNanos (ticks * 1000000000 / 300)⟩
  | .smalldatetime days minutes =>
    .dateTime ⟨Date.ofDays (daysBefore1900 + days), Time.ofNanos (minutes * 60000000000)⟩
  | .date days => .date (Date.ofDays days)
  | .time scale parts => .time (Time.ofNanos (nanosOf scale parts))
  | .datetime2 days scale parts =>
    .dateTime ⟨Date.ofDays days, Time.ofNanos (nanosOf scale parts)⟩
  | .datetimeoffset days scale parts minutes =>
    let utc : DateTime := ⟨Date.ofDays days, Time.ofNanos (nanosOf scale parts)⟩
    .dateTimeOffset ⟨utc.addSeconds (minutes * 60), minutes * 60⟩

def WireCell.toCell (c : WireCell) : Cell :=
  match c.value with
  | some value => value.toCell
  | none => .null

/-! ## Parameters -/

/-- The parts of a second in the finest scale. -/
def finestParts (nanos : Nat) : Nat := nanos / 100

/-- The digits of a decimal: those after the point, and at least one before it. -/
def precisionOf (d : Decimal) : Nat :=
  d.scale + (Nat.toDigits 10 (d.mantissa.natAbs / Nat.pow 10 d.scale)).length

/-- The value that stands for a cell as a parameter; none for null. -/
def parameterOf : Cell → Option WireValue
  | .null => none
  | .bool b => some (.bit b)
  | .int16 n => some (.smallint n)
  | .int32 n => some (.int n)
  | .int64 n => some (.bigint n)
  | .float32 bits => some (.real bits)
  | .float64 bits => some (.float bits)
  | .text text => some (.nvarchar text)
  | .bytes bytes => some (.varbinary bytes)
  | .uuid id => some (.uniqueidentifier id)
  | .decimal d => some (.numeric (precisionOf d) d)
  | .date d => some (.date d.toDays)
  | .time t => some (.time 7 (finestParts t.toNanos))
  | .dateTime t => some (.datetime2 t.date.toDays 7 (finestParts t.time.toNanos))
  | .dateTimeOffset t =>
    some (.datetimeoffset t.utc.date.toDays 7 (finestParts t.utc.time.toNanos)
      (t.offset.tdiv 60))

def maxTextBytes : Nat := 4000

def maxBinaryBytes : Nat := 8000

/-- The type with which a parameter is declared; null is declared as a text. -/
def declaredType : Option WireValue → String
  | none => "nvarchar(4000)"
  | some (.nvarchar text) =>
    if text.utf8ByteSize ≤ maxTextBytes then "nvarchar(4000)" else "nvarchar(max)"
  | some (.varbinary bytes) =>
    if bytes.length ≤ maxBinaryBytes then "varbinary(8000)" else "varbinary(max)"
  | some (.real _) => "float(24)"
  | some (.float _) => "float(53)"
  | some (.numeric precision value) =>
    "numeric(" ++ toString precision ++ "," ++ toString value.scale ++ ")"
  | some (.tinyint _) => "tinyint"
  | some (.smallint _) => "smallint"
  | some (.int _) => "int"
  | some (.bigint _) => "bigint"
  | some (.bit _) => "bit"
  | some (.money _) => "money"
  | some (.xml _) => "xml"
  | some (.uniqueidentifier _) => "uniqueidentifier"
  | some (.datetime ..) => "datetime"
  | some (.smalldatetime ..) => "smalldatetime"
  | some (.date _) => "date"
  | some (.time ..) => "time"
  | some (.datetime2 ..) => "datetime2"
  | some (.datetimeoffset ..) => "datetimeoffset"

/-- The declarations of parameters, which are numbered from `first`. -/
def declarationsFrom : (first : Nat) → List (Option WireValue) → List String
  | _, [] => []
  | n, p :: rest => ("@P" ++ toString n ++ " " ++ declaredType p) :: declarationsFrom (n + 1) rest

def declarations (parameters : List (Option WireValue)) : String :=
  String.intercalate "," (declarationsFrom 1 parameters)

end Migration.SqlServer
