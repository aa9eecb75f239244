import Migration.TypeMap

/-
  The types of the source, SQL Server.

  No statement uses these literals. They serve to classify the type names that
  the catalog of the source reports.
-/

namespace Migration

/-- The widest bounded length of a text of single bytes and of a binary. -/
def mssqlAnsiCapacity : Nat := 8000

def mssqlUnicodeCapacity : Nat := 4000

/-- The widest length of a large object. -/
def mssqlLobCapacity : Nat := 2147483647

/-- The rules of the source. -/
def sqlServerRules : List TypeRule :=
  [.catchAll .ansiStringFixedLength "CHAR(255)",
   .bounded .ansiStringFixedLength mssqlAnsiCapacity "CHAR($size)",
   .catchAll .ansiString "VARCHAR(255)",
   .bounded .ansiString mssqlAnsiCapacity "VARCHAR($size)",
   .bounded .ansiString mssqlLobCapacity "VARCHAR(MAX)",
   .catchAll .binary "VARBINARY(8000)",
   .bounded .binary mssqlAnsiCapacity "VARBINARY($size)",
   .bounded .binary mssqlLobCapacity "VARBINARY(MAX)",
   .catchAll .boolean "BIT",
   .catchAll .byte "TINYINT",
   .catchAll .currency "MONEY",
   .catchAll .date "DATE",
   .catchAll .dateTime "DATETIME",
   .catchAll .dateTime2 "DATETIME2",
   .catchAll .dateTimeOffset "DATETIMEOFFSET",
   .bounded .dateTimeOffset 7 "DATETIMEOFFSET($size)",
   .catchAll .decimal "DECIMAL(19,5)",
   .bounded .decimal 38 "DECIMAL($size,$precision)",
   .catchAll .double "FLOAT",
   .catchAll .guid "UNIQUEIDENTIFIER",
   .catchAll .int16 "SMALLINT",
   .catchAll .int32 "INT",
   .catchAll .int64 "BIGINT",
   .catchAll .single "REAL",
   .catchAll .stringFixedLength "NCHAR(255)",
   .bounded .stringFixedLength mssqlUnicodeCapacity "NCHAR($size)",
   .catchAll .string "NVARCHAR(255)",
   .bounded .string mssqlUnicodeCapacity "NVARCHAR($size)",
   .bounded .string mssqlLobCapacity "NVARCHAR(MAX)",
   .catchAll .time "TIME",
   .catchAll .xml "XML",
   -- names of the catalog that no template has
   .alias "numeric" .decimal,
   .alias "text" .ansiString,
   .alias "ntext" .string,
   .alias "binary" .binary,
   .alias "image" .binary,
   .alias "timestamp" .binary,
   .alias "rowversion" .binary,
   .alias "smalldatetime" .dateTime,
   .alias "smallmoney" .currency,
   .alias "sysname" .string]

def sqlServerTypes : TypeMap := TypeMap.ofRules "sqlserver2008" sqlServerRules

end Migration
