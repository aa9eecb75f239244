import Migration.Error
import Migration.Postgres.Value
import Migration.Statement.Preview
import Migration.Text.Digits
import Migration.Total

/-
  Requests to the target and what comes of the replies.

  An exchange is what was sent and what came of it. Exchanges are joined: the
  requests of the second follow those of the first, and where the first fails the
  second does not take place.

  What is proved beside the definitions: the requests of joined exchanges
  (`sent_bind_of_ok`, `sent_bind_of_error`).
-/

namespace Migration.Postgres

/-! ## Requests -/

/-- What is sent to the server. -/
inductive Request where
  /-- The start of a connection. -/
  | startup (database user : String)
  | password (text : String)
  /-- A statement in one step. -/
  | query (sql : String)
  /-- A statement to be made ready, with the types of its parameters. -/
  | prepare (sql : String) (types : List String)
  /-- The parameters with which a statement that was made ready is executed. -/
  | bind (values : List (Option String))
  deriving DecidableEq, Repr

def clientEncoding : String := "UTF8"

/-- The requests of some step and what came of it. -/
structure Exchange (α : Type) where
  sent : List Request
  outcome : Outcome α

namespace Exchange

variable {α β : Type}

def ofOutcome (outcome : Outcome α) : Exchange α := ⟨[], outcome⟩

/-- Two exchanges, of which the second takes place if the first does not fail. -/
def andThen (e : Exchange α) (next : α → Exchange β) : Exchange β :=
  match e.outcome with
  | .ok a => ⟨e.sent ++ (next a).sent, (next a).outcome⟩
  | .error cause => ⟨e.sent, .error cause⟩

instance : Monad Exchange where
  pure a := ofOutcome (.ok a)
  bind := andThen

theorem sent_bind_of_ok {e : Exchange α} {a : α} (next : α → Exchange β)
    (h : e.outcome = .ok a) : (e >>= next).sent = e.sent ++ (next a).sent := by
  simp [bind, andThen, h]

theorem sent_bind_of_error {e : Exchange α} {cause : MigrationError} (next : α → Exchange β)
    (h : e.outcome = .error cause) : (e >>= next).sent = e.sent := by
  simp [bind, andThen, h]

end Exchange

/-! ## Wordings -/

/-- How an error of the server is shown, whatever its text. -/
def serverError : String := "db error"

/-- How it is shown that a text with a NUL character cannot be sent. -/
def encodingError : String := "error encoding message to server"

/-- How it is shown that a message of the server has no place where it came. -/
def unexpectedMessage : String := "unexpected message from server"

/-- How it is shown that a connection cannot be encrypted. -/
def handshakeError : String := "error performing TLS handshake"

/-- Whether a text cannot be sent. -/
def hasNul (text : String) : Bool := text.toList.contains '\x00'

/-! ## Statements in one step -/

/-- The messages of a reply. -/
inductive Message where
  /-- The start of a result. -/
  | columns (names : List String)
  | row (cells : List (Option String))
  /-- The end of a statement. -/
  | complete (tag : String)
  /-- The end of a text without a statement. -/
  | empty
  | error (text : String)
  deriving DecidableEq, Repr

/-- What the server does with a statement in one step. -/
inductive QueryReply where
  | silence
  | answer (messages : List Message)
  deriving DecidableEq, Repr

/-- The first fault of a reply: an error, or a row before any result. -/
def fault? : (inResult : Bool) → List Message → Option String
  | _, [] => none
  | _, .error _ :: _ => some serverError
  | false, .row _ :: _ => some unexpectedMessage
  | _, .columns _ :: rest => fault? true rest
  | inResult, _ :: rest => fault? inResult rest

/-- The number that ends a text, after its last blank; zero where none does that fits 64 bits. -/
def countOf (tag : String) : Nat :=
  let word := (tag.toList.reverse.takeWhile (· ≠ ' ')).reverse
  let digits := match word with
    | '+' :: digits => digits
    | digits => digits
  match Text.readNat digits with
  | some n => if n < Nat.pow 2 64 then n else 0
  | none => 0

def Message.affected : Message → Nat
  | .complete tag => countOf tag
  | _ => 0

/-- The first cell of the first row; null where there is none. -/
def firstCell : List Message → Cell
  | [] => .null
  | .row cells :: _ => Cell.ofOption .text (cells.head?.join)
  | _ :: rest => firstCell rest

def query (seconds : Nat) (sql : String) (reply : QueryReply) : Exchange (List Message) :=
  let refused (text : String) : MigrationError := .execution (preview sql) text
  if hasNul sql then .ofOutcome (.error (refused encodingError))
  else
    match reply with
    | .silence => ⟨[.query sql], timedOut sql seconds⟩
    | .answer messages =>
      match fault? false messages with
      | some text => ⟨[.query sql], .error (refused text)⟩
      | none => ⟨[.query sql], .ok messages⟩

def execute (seconds : Nat) (sql : String) (reply : QueryReply) : Exchange Nat := do
  let messages ← query seconds sql reply
  return total (messages.map Message.affected)

def scalar (seconds : Nat) (sql : String) (reply : QueryReply) : Exchange Cell := do
  let messages ← query seconds sql reply
  return firstCell messages

def beginSql : String := "BEGIN"

def commitSql : String := "COMMIT"

/-! ## Statements made ready -/

/-- What the server does when a statement is to be made ready. -/
inductive Preparation where
  | silence
  | refused
  | done
  deriving DecidableEq, Repr

/-- What the server does when a statement is executed. -/
inductive Execution where
  | silence
  /-- The rows, the end of the statement, and whether there is an error after the rows. -/
  | answer (rows : List WireRow) (tag : String) (fails : Bool)
  deriving DecidableEq, Repr

/-- What the server does with a statement that is made ready and executed. -/
structure StatementReply where
  preparation : Preparation := .done
  columns : List WireType := []
  execution : Execution := .answer [] "" false
  deriving DecidableEq, Repr

def prepare (seconds : Nat) (sql : String) (types : List String) (reply : StatementReply) :
    Exchange Unit :=
  if hasNul sql then .ofOutcome (.error (.target encodingError))
  else
    match reply.preparation with
    | .silence => ⟨[.prepare sql types], timedOut sql seconds⟩
    | .refused => ⟨[.prepare sql types], .error (.target serverError)⟩
    | .done => ⟨[.prepare sql types], .ok ()⟩

/-- Executes a statement that was made ready for `expected` parameters: the number of rows that it
changed. -/
def executePrepared (seconds : Nat) (sql : String) (expected : Nat)
    (values : List (Option String)) (reply : StatementReply) : Exchange Nat :=
  if values.length = expected then
    match reply.execution with
    | .silence => ⟨[.bind values], timedOut sql seconds⟩
    | .answer _ _ true => ⟨[.bind values], .error (.target serverError)⟩
    | .answer _ tag false => ⟨[.bind values], .ok (countOf tag)⟩
  else
    .ofOutcome (.error (.target
      ("expected " ++ toString expected ++ " parameters but got " ++ toString values.length)))

def openCursor (seconds : Nat) (sql : String) (reply : StatementReply) : Exchange CursorRows := do
  prepare seconds sql [] reply
  match reply.execution with
  | .silence => ⟨[.bind []], timedOut sql seconds⟩
  | .answer rows _ fails =>
    let failure := if fails then [.error (.target serverError)] else []
    ⟨[.bind []], .ok (.ofList (rows.map (readRow 0 reply.columns) ++ failure))⟩

end Migration.Postgres
