import Migration.Copy.Progress
import Migration.Plan

/-
  Running a plan against a target.

  Steps are taken in order up to the first that the target refuses. At the modules
  a refusal may be passed over, and the next module is tried. Nothing is undone:
  what was done before a refusal stays.

  What is proved beside the definitions: steps in two parts are taken like the
  first part and, if no step of it was refused, the second (`takeAll_append`).
-/

namespace Migration

/-! ## Targets and time -/

/-- A target, with states of the type `σ`. It answers an operation with its next state and, if it
refuses the operation, with an error. -/
structure Target (σ : Type) where
  respond : σ → Operation → σ × Option MigrationError

/-- The nanoseconds that go by at each step. -/
structure Pace where
  /-- Before a row that the source yields. -/
  row : Nat := 0
  insert : Nat := 0
  commit : Nat := 0
  statement : Nat := 0
  deriving DecidableEq, Repr

def Pace.ofOperation (p : Pace) : Operation → Nat
  | .execute _ => p.statement
  | .begin => 0
  | .insert _ _ => p.insert
  | .commit => p.commit

/-- How far a run has come. -/
structure Run (σ : Type) where
  /-- The state of the target. -/
  state : σ
  /-- The nanoseconds since the start. -/
  elapsed : Nat := 0
  /-- The time at which the copy at hand began. -/
  copyStart : Nat := 0
  /-- The operations sent to the target, the refused ones too. -/
  sent : Array Operation := #[]
  /-- The source queries whose rows were asked for. -/
  queries : Array String := #[]
  samples : Array ProgressSample := #[]

/-! ## Steps -/

namespace Run

variable {σ : Type}

def send (target : Target σ) (pace : Pace) (r : Run σ) (op : Operation) :
    Run σ × Option MigrationError :=
  let answer := target.respond r.state op
  ({ r with state := answer.1, elapsed := r.elapsed + pace.ofOperation op,
            sent := r.sent.push op }, answer.2)

/-- Takes a step in which the target has no part. -/
def note (pace : Pace) (r : Run σ) : Step → Run σ
  | .openCursor query => { r with queries := r.queries.push query, copyStart := r.elapsed }
  | .fetch => { r with elapsed := r.elapsed + pace.row }
  | .report table rows estimatedRows =>
    let sample := ⟨table, rows, estimatedRows, r.elapsed - r.copyStart⟩
    { r with samples := r.samples.push sample }
  | _ => r

/-- Takes a step, and tells the error of one that the target refuses. -/
def take (target : Target σ) (pace : Pace) (r : Run σ) (s : Step) : Run σ × Option MigrationError :=
  match s.operation? with
  | some op =>
    let answer := r.send target pace op
    (answer.1, answer.2.map fun e => s.failure e)
  | none => (r.note pace s, none)

/-- Takes steps up to the first that is refused. -/
def takeAll (target : Target σ) (pace : Pace) : Run σ → List Step → Run σ × Option MigrationError
  | r, [] => (r, none)
  | r, s :: rest =>
    match r.take target pace s with
    | (after, none) => after.takeAll target pace rest
    | (after, some e) => (after, some e)

/-- Steps in two parts. -/
theorem takeAll_append (target : Target σ) (pace : Pace) (r : Run σ) (first second : List Step) :
    r.takeAll target pace (first ++ second) =
      match r.takeAll target pace first with
      | (after, none) => after.takeAll target pace second
      | (after, some e) => (after, some e) := by
  induction first generalizing r with
  | nil => rfl
  | cons s rest ih =>
    simp only [List.cons_append, takeAll]
    split
    · exact ih _
    · rfl

/-! ## Modules -/

/-- Takes the steps of an attempt; the error is that of a refused step, else that of the attempt. -/
def tryAttempt (target : Target σ) (pace : Pace) (r : Run σ) (a : Plan.Attempt) :
    Run σ × Option MigrationError :=
  match r.takeAll target pace a.steps with
  | (after, some e) => (after, some e)
  | (after, none) =>
    match a.outcome with
    | .error e => (after, some e)
    | .ok _ => (after, none)

/-- Whether a module may be passed over. A name with two target names is never passed over. -/
def passesOver (m : RunSettings) (e : MigrationError) : Bool :=
  m.skipFailedModules && !e.isAmbiguous

/-- Tries the modules one after another: the modules passed over, or the error that ends the
run. -/
def tryAll (m : RunSettings) (target : Target σ) (pace : Pace) :
    Run σ → List Plan.Attempt → Run σ × Outcome (List SkippedModule)
  | r, [] => (r, .ok [])
  | r, a :: rest =>
    match r.tryAttempt target pace a with
    | (after, none) => after.tryAll m target pace rest
    | (after, some e) =>
      if passesOver m e then
        let later := after.tryAll m target pace rest
        (later.1, later.2.map fun skipped =>
          ⟨a.module.schema, a.module.name, a.kind, e.message⟩ :: skipped)
      else (after, .error e)

/-! ## Whole migrations -/

/-- Takes the steps of a plan, then tries its modules. -/
def follow (m : RunSettings) (target : Target σ) (pace : Pace) (start : DateTime) (r : Run σ)
    (p : Plan) : Run σ × Outcome Report :=
  match r.takeAll target pace p.steps with
  | (after, some e) => (after, .error e)
  | (after, none) =>
    match p.outcome with
    | .error e => (after, .error e)
    | .ok (schemas, attempts) =>
      match after.tryAll m target pace attempts.list with
      | (final, .error e) => (final, .error e)
      | (final, .ok skipped) =>
        match attempts.interruption with
        | some e => (final, .error e)
        | none =>
          (final, .ok
            { startedAt := start
              elapsed := final.elapsed
              schemas := schemas.map (·.target)
              tables := schemas.flatMap (·.tables)
              skippedModules := skipped
              renamings := attempts.ledger.toList })

end Run

/-- A migration from the start: what was done, and the report or the error. -/
def migrate {σ : Type} (m : RunSettings) (source : Source) (target : Target σ) (pace : Pace)
    (start : DateTime) (initial : σ) : Run σ × Outcome Report :=
  Run.follow m target pace start { state := initial } (Plan.ofSource m source)

/-! ## Single copies -/

/-- What a finished copy did. -/
structure CopyStats where
  rows : Nat
  /-- The number of transactions. -/
  commits : Nat
  /-- The rows of a full transaction. -/
  batch : Nat
  elapsed : Nat
  deriving DecidableEq, Repr

def copyTable {σ : Type} (job : CopyJob) (rows : Outcome (List (Outcome Row))) (target : Target σ)
    (pace : Pace) (initial : σ) : Run σ × Outcome CopyStats :=
  let drafted := job.draft rows .empty
  match Run.takeAll target pace { state := initial } drafted.steps with
  | (after, some e) => (after, .error e)
  | (after, none) =>
    (after, drafted.outcome.map fun copied =>
      { rows := copied.rows, commits := copied.commits, batch := job.batch,
        elapsed := after.elapsed - after.copyStart })

end Migration
