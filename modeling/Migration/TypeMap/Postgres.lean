import Migration.TypeMap

/-
  The types of the target, PostgreSQL.
-/

namespace Migration

def pgDecimalCapacity : Nat := 1000

def pgVarcharCapacity : Nat := 10485760

/-- The largest size that the source reports for a bounded column. -/
def largestReportedSize : Nat := 2147483647

/-- The rules of the target. Where case is not to count, every text type is `citext`. -/
def postgresRules (citext : Bool) : List TypeRule :=
  let text (literal : String) := if citext then "citext" else literal
  [.catchAll .binary "bytea",
   .bounded .binary largestReportedSize "bytea",
   .catchAll .boolean "boolean",
   -- the target has no integer of a single byte
   .catchAll .byte "smallint",
   .catchAll .currency "money",
   .catchAll .date "date",
   .catchAll .dateTime "timestamp",
   .catchAll .dateTime2 "timestamp",
   .catchAll .dateTimeOffset "timestamptz",
   .catchAll .decimal "decimal(19,5)",
   .bounded .decimal pgDecimalCapacity "decimal($size,$precision)",
   .catchAll .double "float8",
   .catchAll .guid "uuid",
   .catchAll .int16 "smallint",
   .catchAll .int32 "integer",
   .catchAll .int64 "bigint",
   .catchAll .single "float4",
   .catchAll .time "time",
   .catchAll .xml "xml",
   .catchAll .ansiStringFixedLength (text "char(255)"),
   .bounded .ansiStringFixedLength largestReportedSize (text "char($size)"),
   .catchAll .ansiString (text "text"),
   .bounded .ansiString pgVarcharCapacity (text "varchar($size)"),
   .bounded .ansiString largestReportedSize (text "text"),
   .catchAll .stringFixedLength (text "char(255)"),
   .bounded .stringFixedLength largestReportedSize (text "char($size)"),
   .catchAll .string (text "text"),
   .bounded .string pgVarcharCapacity (text "varchar($size)"),
   .bounded .string largestReportedSize (text "text"),
   .custom "geometry" "citext",
   .custom "geography" "citext"]

def postgresTypes (citext : Bool) : TypeMap :=
  TypeMap.ofRules (if citext then "postgres (citext)" else "postgres") (postgresRules citext)

end Migration
