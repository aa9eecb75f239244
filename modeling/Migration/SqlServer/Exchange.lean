import Migration.Cursor
import Migration.SqlServer.Value
import Migration.Statement.Preview
import Migration.Total

/-
  Requests to SQL Server and what comes of the replies.

  A request is a statement with its parameters. The server may stay silent, which
  the caller gives up after some time, or it sends rows, counts of rows, and at
  the end perhaps an error.
-/

namespace Migration.SqlServer

structure Request where
  sql : String
  parameters : List (Option WireValue) := []
  deriving DecidableEq, Repr

abbrev WireRow := List WireCell

/-- What the server does. -/
inductive Reply where
  | silence
  /-- The rows of the first result, if there is a result; the rows that each statement changed; and
  the error that comes after. -/
  | answer (result : Option (List WireRow)) (affected : List Nat) (failure : Option String)
  deriving Repr

/-- The rows of the first result, all of them. -/
def collected (sql : String) (seconds : Nat) : Reply → Outcome (List WireRow)
  | .silence => timedOut sql seconds
  | .answer _ _ (some failure) => .error (.source failure)
  | .answer result _ none => .ok (result.getD [])

def affectedRows (sql : String) (seconds : Nat) : Reply → Outcome Nat
  | .silence => timedOut sql seconds
  | .answer _ _ (some failure) => .error (.source failure)
  | .answer _ affected none => .ok (total affected)

/-- The first cell of the first row; null where there is none. -/
def firstCell (sql : String) (seconds : Nat) (reply : Reply) : Outcome Cell := do
  let rows ← collected sql seconds reply
  match rows.head?.bind List.head? with
  | some cell => return cell.toCell
  | none => return .null

/-- The cursor of a query. An error before any result keeps it from opening. -/
def cursorRows (sql : String) (seconds : Nat) : Reply → Outcome CursorRows
  | .silence => timedOut sql seconds
  | .answer none _ (some failure) => .error (.source failure)
  | .answer result _ failure =>
    .ok { rows := (result.getD []).map (·.map WireCell.toCell)
          failure := failure.map .source }

def serverName : String := "mssql"

def beginSql : String := "BEGIN TRANSACTION"

def commitSql : String := "COMMIT TRANSACTION"

/-! ## Cells of catalog rows -/

/-- The cell at a place, if it is of a type. -/
def cellAt (row : WireRow) (place : Nat) (type : WireType) : Outcome (Option WireValue) :=
  match row[place]? with
  | some cell =>
    if cell.type = type then .ok cell.value
    else .error (.source ("cannot read " ++ cell.type.name ++ " as " ++ type.name))
  | none => .error (.source "no such column")

def text? (row : WireRow) (place : Nat) : Outcome (Option String) := do
  match ← cellAt row place .nvarchar with
  | some (.nvarchar text) => return some text
  | _ => return none

/-- A text, empty where it is null. -/
def textAt (row : WireRow) (place : Nat) : Outcome String := do
  return (← text? row place).getD ""

def int? (row : WireRow) (place : Nat) : Outcome (Option Int32) := do
  match ← cellAt row place .int with
  | some (.int n) => return some n
  | _ => return none

def bigint? (row : WireRow) (place : Nat) : Outcome (Option Int64) := do
  match ← cellAt row place .bigint with
  | some (.bigint n) => return some n
  | _ => return none

/-- A truth value, false where it is null. -/
def bitAt (row : WireRow) (place : Nat) : Outcome Bool := do
  match ← cellAt row place .bit with
  | some (.bit b) => return b
  | _ => return false

end Migration.SqlServer
