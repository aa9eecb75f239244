import Migration.Cell
import Migration.Cursor
import Migration.Postgres.Numeric

/-
  The values that the target sends.

  A value comes as bytes and is read by the type of its column. Moments are counted
  in microseconds, and days, from the first of January of the year 2000. A value
  whose bytes do not fit the type of the column cannot be read.
-/

namespace Migration.Postgres

/-- The types of columns. -/
inductive WireType where
  | bool
  | int2
  | int4
  | int8
  | float4
  | float8
  | numeric
  | uuid
  | bytea
  | timestamp
  | timestamptz
  | date
  | time
  /-- Any other type, of which those of texts can be read. -/
  | other (name : String)
  deriving DecidableEq, Repr

namespace WireType

def named : List (String × WireType) :=
  [("bool", .bool), ("int2", .int2), ("int4", .int4), ("int8", .int8), ("float4", .float4),
   ("float8", .float8), ("numeric", .numeric), ("uuid", .uuid), ("bytea", .bytea),
   ("timestamp", .timestamp), ("timestamptz", .timestamptz), ("date", .date), ("time", .time)]

def ofName (name : String) : WireType := (named.lookup name).getD (.other name)

def textNames : List String := ["text", "varchar", "bpchar", "name", "unknown", "citext"]

end WireType

abbrev WireCell := Option (List UInt8)

abbrev WireRow := List WireCell

/-! ## Moments -/

def daysBefore2000 : Int := 730119

/-- The microseconds from the start of the year 2000 to a moment. What is finer is cut off. -/
def microsOf (t : DateTime) : Int :=
  (t.toNanos - daysBefore2000 * nanosPerDay).tdiv 1000

/-- Whether a date is among those that are kept. -/
def isKept (d : Date) : Bool := -262143 ≤ d.year && d.year ≤ 262142

/-- The date so many days after the start of the year 2000, if it is kept. -/
def dateAt? (days : Int) : Option Date :=
  let d := Date.ofDays (daysBefore2000 + days)
  if isKept d then some d else none

/-- The moment so many microseconds after the start of the year 2000, if it is kept. -/
def momentAt? (micros : Int) : Option DateTime :=
  let t := DateTime.ofNanos (daysBefore2000 * nanosPerDay + micros * 1000)
  if isKept t.date then some t else none

/-- The time of day so many microseconds after midnight, whole days left out. -/
def timeAt (micros : Int) : Time := Time.ofNanos (micros * 1000 % nanosPerDay).toNat

/-! ## Bytes of cells -/

def textBytes (text : String) : List UInt8 := text.toUTF8.data.toList

/-- The text that bytes spell, if they spell one. -/
def textOf? (bytes : List UInt8) : Option String := String.fromUTF8? ⟨bytes.toArray⟩

/-- The bytes in which a cell is sent. -/
def wireOf : Cell → WireCell
  | .null => none
  | .bool b => some [if b then 1 else 0]
  | .int16 n => some (signed 2 n.toInt)
  | .int32 n => some (signed 4 n.toInt)
  | .int64 n => some (signed 8 n.toInt)
  | .float32 bits => some (bigEndian 4 bits.toNat)
  | .float64 bits => some (bigEndian 8 bits.toNat)
  | .text text => some (textBytes text)
  | .bytes bytes => some bytes
  | .uuid id => some (bigEndian 16 id.toNat)
  | .decimal d => some (Numeric.ofDecimal d).bytes
  | .dateTime t => some (signed 8 (microsOf t))
  | .dateTimeOffset t => some (signed 8 (microsOf t.utc))
  | .date d => some (signed 4 (d.toDays - daysBefore2000))
  | .time t => some (bigEndian 8 (t.toNanos / 1000))

/-- What is made of bytes, if they are so many. -/
def sized {α : Type} (width : Nat) (bytes : List UInt8) (make : α) : Option α :=
  if bytes.length = width then some make else none

/-- The cell that bytes are in a column of a type, if they fit it. -/
def cellOf? (type : WireType) (bytes : List UInt8) : Option Cell :=
  match type with
  | .bool => sized 1 bytes (.bool (ofBigEndian bytes != 0))
  | .int2 => sized 2 bytes (.int16 (.ofInt (ofSigned bytes)))
  | .int4 => sized 4 bytes (.int32 (.ofInt (ofSigned bytes)))
  | .int8 => sized 8 bytes (.int64 (.ofInt (ofSigned bytes)))
  | .float4 => sized 4 bytes (.float32 (.ofNat (ofBigEndian bytes)))
  | .float8 => sized 8 bytes (.float64 (.ofNat (ofBigEndian bytes)))
  | .numeric => ((Numeric.ofBytes? bytes).bind Numeric.toDecimal?).map .decimal
  | .uuid => sized 16 bytes (.uuid (.ofNat 128 (ofBigEndian bytes)))
  | .bytea => some (.bytes bytes)
  | .timestamp => (sized 8 bytes (ofSigned bytes)).bind momentAt? |>.map .dateTime
  | .timestamptz =>
    (sized 8 bytes (ofSigned bytes)).bind momentAt? |>.map fun t => .dateTimeOffset ⟨t, 0⟩
  | .date => (sized 4 bytes (ofSigned bytes)).bind dateAt? |>.map .date
  | .time => sized 8 bytes (.time (timeAt (ofSigned bytes)))
  | .other name => if WireType.textNames.contains name then (textOf? bytes).map .text else none

/-! ## Rows -/

/-- Why a cell cannot be read. -/
def unreadable (place : Nat) (type : WireType) : MigrationError :=
  let text := "error deserializing column " ++ toString place
  match type with
  | .other name => .execution ("column " ++ toString place ++ " (" ++ name ++ ")") text
  | _ => .target text

/-- Whether values of a type can be read at all, null among them. -/
def WireType.isReadable : WireType → Bool
  | .other name => textNames.contains name
  | _ => true

def cellAt (place : Nat) (type : WireType) : WireCell → Outcome Cell
  | none => if type.isReadable then .ok .null else .error (unreadable place type)
  | some bytes =>
    match cellOf? type bytes with
    | some cell => .ok cell
    | none => .error (unreadable place type)

def readRow : (place : Nat) → List WireType → WireRow → Outcome Row
  | place, type :: types, cell :: cells => do
    let first ← cellAt place type cell
    let others ← readRow (place + 1) types cells
    return first :: others
  | _, _, _ => .ok []

end Migration.Postgres
