import Migration.Postgres.Exchange
import Migration.Run
import Migration.Settings

/-
  Sessions with the target: how one is opened, and the statements that are kept
  ready in it.

  A row is inserted with a statement whose parameters are all texts. The statement
  is made ready once for each of its texts; one that the server refuses is not
  kept.

  What is proved beside the definitions: a statement that is ready is not made
  ready again (`executeWith_of_prepared`).
-/

namespace Migration.Postgres

/-! ## Opening -/

/-- How the server receives a connection. -/
inductive Admission where
  | trusted
  /-- The server asks for the password. -/
  | passwordAsked
  | refused
  deriving DecidableEq, Repr

/-- A statement that is ready. -/
structure Prepared where
  sql : String
  /-- The number of its parameters. -/
  parameters : Nat
  deriving DecidableEq, Repr

/-- An open session. -/
structure Session where
  prepared : List Prepared := []
  deriving DecidableEq, Repr

def serverName : String := "postgres"

def probeSql : String := "SELECT 1"

/-- Tells the server who connects to what. -/
def introduce (settings : TargetSettings) : Exchange Unit :=
  if hasNul settings.database || hasNul settings.user then
    .ofOutcome (.error (.target encodingError))
  else ⟨[.startup settings.database settings.user], .ok ()⟩

/-- Answers what the server asks for. -/
def authenticate (settings : TargetSettings) : Admission → Exchange Unit
  | .trusted => pure ()
  | .refused => .ofOutcome (.error (.target serverError))
  | .passwordAsked =>
    if hasNul settings.password then .ofOutcome (.error (.target encodingError))
    else ⟨[.password settings.password], .ok ()⟩

/-- Opens a session. A connection that is to be encrypted fails where it cannot be. -/
def Session.connect (settings : TargetSettings) (encryptable : Bool) (admission : Admission) :
    Exchange Session := do
  let mode ← .ofOutcome (SslMode.ofText settings.sslMode)
  if mode.isEncrypted && !encryptable then
    .ofOutcome (.error (.target handshakeError))
  introduce settings
  authenticate settings admission
  ⟨[.query probeSql], .ok {}⟩

/-! ## Statements kept ready -/

def parameterType : String := "text"

namespace Session

def find? (s : Session) (sql : String) : Option Prepared := s.prepared.find? (·.sql == sql)

/-- Makes a statement ready, unless it is: the session after that, and the statement. -/
def ready (s : Session) (seconds : Nat) (sql : String) (parameters : Nat)
    (reply : StatementReply) : Session × Exchange Prepared :=
  match s.find? sql with
  | some statement => (s, pure statement)
  | none =>
    let statement : Prepared := { sql, parameters }
    let preparing := prepare seconds sql (List.replicate parameters parameterType) reply
    let after : Session :=
      match preparing.outcome with
      | .ok _ => { prepared := s.prepared ++ [statement] }
      | .error _ => s
    (after, do preparing; return statement)

/-- Executes a statement with parameters: the session after that, and the number of rows that the
statement changed. -/
def executeWith (s : Session) (seconds : Nat) (sql : String) (row : Row)
    (reply : StatementReply) : Session × Exchange Nat :=
  let readied := s.ready seconds sql row.length reply
  (readied.1, do
    let statement ← readied.2
    executePrepared seconds sql statement.parameters (row.map Cell.pgText) reply)

/-- A statement that is ready is not made ready again. -/
theorem executeWith_of_prepared {s : Session} {seconds : Nat} {sql : String} {row : Row}
    {reply : StatementReply} {statement : Prepared} (h : s.find? sql = some statement) :
    s.executeWith seconds sql row reply =
      (s, executePrepared seconds sql statement.parameters (row.map Cell.pgText) reply) := by
  simp [executeWith, ready, h, bind, pure, Exchange.andThen, Exchange.ofOutcome]

end Session

/-! ## The server as a target -/

/-- A server with states of the type `τ`, by its replies. -/
structure Server (τ : Type) where
  query : τ → String → τ × QueryReply
  statement : τ → String → Row → τ × StatementReply

/-- The error of an exchange that fails. -/
def failureOf {α : Type} (e : Exchange α) : Option MigrationError :=
  match e.outcome with
  | .ok _ => none
  | .error cause => some cause

def target {τ : Type} (server : Server τ) (seconds : Nat) : Target (Session × τ) where
  respond state op :=
    let plain (sql : String) :=
      let reply := server.query state.2 sql
      ((state.1, reply.1), failureOf (execute seconds sql reply.2))
    match op with
    | .execute sql => plain sql
    | .begin => plain beginSql
    | .commit => plain commitSql
    | .insert sql row =>
      let reply := server.statement state.2 sql row
      let done := state.1.executeWith seconds sql row reply.2
      ((done.1, reply.1), failureOf done.2)

end Migration.Postgres
