import Migration.Proofs.ModuleTurns
import Migration.Proofs.PlanShape

/-
  Migrations that act as they go.

  A migration is defined in two stages: its steps are found from what the source answers,
  and then they are taken on the target. Whoever drives a migration does both at once. A
  step is taken when it is found, and the first refusal ends the part at hand. This file

  1. says what it is to act on a target and to end at the first failure (`Act`), and to
     read and add renamings meanwhile (`NamingAct`);
  2. proves that to carry out a draft is such an act, built as the draft is built
     (`carryOut_bind`, `carryOut_each`, `carryOut_execute`), so that nothing drafted behind
     a refused step is done;
  3. writes the copy of a table as a loop over the rows of its cursor, tables and schemas
     as loops over what the source lists, and the modules likewise, and proves that they
     are what is carried out of the drafts (`carryOut_copy`, `carryOut_schemas`,
     `modules_eq`, `listings_eq`);
  4. concludes that a copy and a whole migration are acts (`copyTable_eq_act`,
     `migrate_eq_act`). -/

namespace Migration

open Naming (Ledger)

/-- A part of a migration that is done on a target as it is found: it takes a run further, and ends
with a value or at its first failure. -/
def Act (σ α : Type) : Type := Run σ → Run σ × Outcome α

/-- Modules in two parts are tried like the first part and, unless that ends the run, the second. -/
theorem Run.tryAll_append {σ : Type} (m : RunSettings) (target : Target σ) (pace : Pace) (r : Run σ)
    (first second : List Plan.Attempt) :
    r.tryAll m target pace (first ++ second) =
      match r.tryAll m target pace first with
      | (after, .error e) => (after, .error e)
      | (after, .ok skipped) =>
        let later := after.tryAll m target pace second
        (later.1, later.2.map (skipped ++ ·)) := by
  induction first generalizing r with
  | nil =>
    show r.tryAll m target pace second =
      ((r.tryAll m target pace second).1, (r.tryAll m target pace second).2.map ([] ++ ·))
    rcases r.tryAll m target pace second with ⟨after, e | skipped⟩
    · rfl
    · rfl
  | cons a rest ih =>
    rw [List.cons_append, tryAll, tryAll]
    rcases r.tryAttempt target pace a with ⟨after, _ | e⟩
    · exact ih after
    · cases hpasses : passesOver m e with
      | false => simp only [hpasses, Bool.false_eq_true, if_false]
      | true =>
        simp only [hpasses, if_true, ih]
        rcases after.tryAll m target pace rest with ⟨mid, e | skipped⟩
        · rfl
        · simp only [Except.map]
          rcases mid.tryAll m target pace second with ⟨final, e | later⟩
          · rfl
          · rfl

namespace Act

variable {σ α β : Type}

instance : Monad (Act σ) where
  pure a := fun r => (r, .ok a)
  bind act next := fun r =>
    match act r with
    | (after, .ok a) => next a after
    | (after, .error e) => (after, .error e)

theorem bind_apply (act : Act σ α) (next : α → Act σ β) (r : Run σ) :
    (act >>= next) r =
      match act r with
      | (after, .ok a) => next a after
      | (after, .error e) => (after, .error e) := rfl

def ofOutcome (o : Outcome α) : Act σ α := fun r => (r, o)

/-- Goes on whether the act fails or not. -/
def attempt (act : Act σ α) : Act σ (Outcome α) := fun r => ((act r).1, .ok (act r).2)

def elapsed : Act σ Nat := fun r => (r, .ok r.elapsed)

/-- The time since the copy at hand began. -/
def copyElapsed : Act σ Nat := fun r => (r, .ok (r.elapsed - r.copyStart))

/-- An act that reads the renamings and adds to them. -/
abbrev NamingAct (σ α : Type) : Type := StateT Ledger (Act σ) α

/-- What a draft without steps finds. -/
def unseen (d : Draft α) : NamingAct σ α := fun l =>
  ofOutcome ((d l).outcome.map fun a => (a, (d l).ledger))

def each (f : α → NamingAct σ β) : List α → NamingAct σ (List β)
  | [] => return []
  | a :: rest => do
    let b ← f a
    let bs ← each f rest
    return b :: bs

section Steps

variable (target : Target σ) (pace : Pace)

/-- Takes a step. It fails where the target refuses its operation. -/
def perform (s : Step) : Act σ Unit := fun r =>
  match r.take target pace s with
  | (after, none) => (after, .ok ())
  | (after, some e) => (after, .error e)

/-- Steps that were found before, with what they end in. -/
def ofSteps (steps : List Step) (o : Outcome α) : Act σ α := fun r =>
  match r.takeAll target pace steps with
  | (after, none) => (after, o)
  | (after, some e) => (after, .error e)

/-- A draft that is carried out: all its steps are found first. -/
def carryOut (d : Draft α) : NamingAct σ α := fun l =>
  ofSteps target pace (d l).steps ((d l).outcome.map fun a => (a, (d l).ledger))

def execute (sql : Outcome String) : NamingAct σ Unit := fun l => do
  let text ← ofOutcome sql
  perform target pace (.execute text)
  return ((), l)

/-! ## Steps one after another -/

theorem ofSteps_nil (o : Outcome α) : ofSteps target pace [] o = ofOutcome o := rfl

theorem ofSteps_append (first second : List Step) (o : Outcome α) :
    ofSteps target pace (first ++ second) o =
      (do ofSteps target pace first (.ok ()); ofSteps target pace second o) := by
  funext r
  simp only [ofSteps, bind_apply, Run.takeAll_append]
  rcases r.takeAll target pace first with ⟨after, _ | e⟩
  · rfl
  · rfl

theorem ofSteps_cons (s : Step) (steps : List Step) (o : Outcome α) :
    ofSteps target pace (s :: steps) o =
      (do perform target pace s; ofSteps target pace steps o) := by
  funext r
  simp only [ofSteps, perform, bind_apply, Run.takeAll]
  rcases r.take target pace s with ⟨after, _ | e⟩
  · rfl
  · rfl

theorem ofSteps_bind_ok (steps : List Step) (a : α) (next : α → Act σ β) :
    (ofSteps target pace steps (.ok a) >>= next) =
      (do ofSteps target pace steps (.ok ()); next a) := by
  funext r
  simp only [ofSteps, bind_apply]
  rcases r.takeAll target pace steps with ⟨after, _ | e⟩
  · rfl
  · rfl

theorem ofSteps_bind_error (steps : List Step) (e : MigrationError) (next : α → Act σ β) :
    (ofSteps target pace steps (.error e) >>= next) = ofSteps target pace steps (.error e) := by
  funext r
  simp only [ofSteps, bind_apply]
  rcases r.takeAll target pace steps with ⟨after, _ | refused⟩
  · rfl
  · rfl

theorem ofSteps_map (f : α → β) (steps : List Step) (o : Outcome α) :
    ofSteps target pace steps (o.map f) =
      (do let a ← ofSteps target pace steps o
          return f a) := by
  cases o with
  | error e => exact (ofSteps_bind_error target pace steps e _).symm
  | ok a =>
    have hsplit := ofSteps_append target pace steps [] (.ok (f a))
    rw [List.append_nil] at hsplit
    rw [ofSteps_bind_ok]
    exact hsplit

/-! ## Drafts that are carried out -/

/-- A draft after another is carried out after it, and not at all where a step of the first is
refused. -/
theorem carryOut_bind (d : Draft α) (f : α → Draft β) :
    carryOut target pace (d >>= f) =
      (do let a ← carryOut target pace d
          carryOut target pace (f a)) := by
  funext l
  show ofSteps target pace _ _ =
    (carryOut target pace d l >>= fun done => carryOut target pace (f done.1) done.2)
  rcases hd : d l with ⟨steps, mid, e | a⟩
  · rw [Draft.bind_of_error (f := f) hd, carryOut, hd]
    exact (ofSteps_bind_error target pace steps e _).symm
  · rw [Draft.bind_of_ok (f := f) hd, carryOut, hd]
    rw [ofSteps_append]
    exact (ofSteps_bind_ok target pace steps (a, mid) fun done =>
      carryOut target pace (f done.1) done.2).symm

theorem carryOut_pure (a : α) : carryOut target pace (pure a : Draft α) = pure a := rfl

theorem carryOut_unseen {d : Draft α} (h : Draft.All (fun _ => False) d) :
    carryOut target pace d = unseen d := by
  funext l
  rw [carryOut, h.steps_eq_nil, ofSteps_nil]
  rfl

theorem carryOut_execute (sql : Outcome String) :
    carryOut target pace (.execute sql) = execute target pace sql := by
  funext l
  cases sql with
  | error e => rfl
  | ok text => exact ofSteps_cons target pace (.execute text) [] (.ok ((), l))

theorem carryOut_ofOutcome (o : Outcome α) :
    carryOut target pace (.ofOutcome o) = unseen (.ofOutcome o) :=
  carryOut_unseen target pace (.ofOutcome o)

theorem carryOut_rename (renames : Naming.Renames α) :
    carryOut target pace (.rename renames) = unseen (.rename renames) :=
  carryOut_unseen target pace (.rename renames)

theorem carryOut_each (f : α → Draft β) (items : List α) :
    carryOut target pace (.each f items) = each (fun a => carryOut target pace (f a)) items := by
  induction items with
  | nil => rfl
  | cons a rest ih =>
    show carryOut target pace (f a >>= fun b => Draft.each f rest >>= fun bs => pure (b :: bs)) = _
    simp only [carryOut_bind, carryOut_pure, ih, each]

/-! ## Copies -/

/-- The rows that are left after those counted, each inserted as soon as the cursor yields it. -/
def copyRows (job : CopyJob) : CopyCount → List (Outcome Row) → Act σ CopyCount
  | done, [] => do
    perform target pace .commit
    return { done with commits := done.commits + 1 }
  | done, .error e :: _ => do
    perform target pace .fetch
    ofOutcome (.error (.transfer job.table (done.rows + 1) e.message))
  | done, .ok row :: rest => do
    perform target pace .fetch
    if row.length = job.columns.length then do
      perform target pace
        (.insert job.table (done.rows + 1) job.insert (row.map Cell.scrubbed))
      if (done.rows + 1) % job.batch = 0 then do
        perform target pace .commit
        perform target pace .begin
        perform target pace (.report job.table (done.rows + 1) job.estimatedRows)
      copyRows job (job.counted done) rest
    else ofOutcome (.error (job.widthFault (done.rows + 1) row))

def copy (job : CopyJob) (rows : Outcome (List (Outcome Row))) : Act σ CopyCount := do
  let items ← ofOutcome rows
  perform target pace (.openCursor job.query)
  perform target pace .begin
  copyRows target pace job {} items

theorem ofSteps_batchEnd (job : CopyJob) (number : Nat) (later : List Step) (o : Outcome α) :
    ofSteps target pace (job.batchEnd number ++ later) o =
      (do if number % job.batch = 0 then
            perform target pace .commit
            perform target pace .begin
            perform target pace (.report job.table number job.estimatedRows)
          ofSteps target pace later o) := by
  rw [CopyJob.batchEnd]
  split
  · simp only [List.cons_append, List.nil_append, ofSteps_cons]
  · rfl

theorem ofSteps_rowSteps (job : CopyJob) (done : CopyCount) (items : List (Outcome Row)) :
    ofSteps target pace (job.rowSteps done items).1 (job.rowSteps done items).2 =
      copyRows target pace job done items := by
  induction items generalizing done with
  | nil => exact ofSteps_cons target pace .commit [] _
  | cons item rest ih =>
    cases item with
    | error e => exact ofSteps_cons target pace .fetch [] _
    | ok row =>
      rw [CopyJob.rowSteps, copyRows]
      split
      · rw [ofSteps_cons, ofSteps_cons, ofSteps_batchEnd, ih]
      · exact ofSteps_cons target pace .fetch [] _

/-- The steps of a copy, taken after all of them were found, end where the copy does. -/
theorem ofSteps_copy (job : CopyJob) (rows : Outcome (List (Outcome Row))) (l : Ledger) :
    ofSteps target pace (job.draft rows l).steps (job.draft rows l).outcome =
      copy target pace job rows := by
  cases rows with
  | error e => rfl
  | ok items =>
    show ofSteps target pace (.openCursor job.query :: .begin :: (job.rowSteps {} items).1)
      (job.rowSteps {} items).2 = _
    rw [ofSteps_cons, ofSteps_cons, ofSteps_rowSteps]
    rfl

theorem carryOut_copy (job : CopyJob) (rows : Outcome (List (Outcome Row))) :
    carryOut target pace (job.draft rows) = StateT.lift (copy target pace job rows) := by
  funext l
  have hledger : (job.draft rows l).ledger = l := by
    cases rows with
    | error e => rfl
    | ok items => rfl
  rw [carryOut, hledger, ofSteps_map, ofSteps_copy]
  rfl

/-! ## Tables and schemas -/

variable (m : RunSettings) (source : Source)

/-- The rows of a table, unless they are not to be copied. -/
def data (t : Plan.TablePair) : NamingAct σ (Option Nat) :=
  if m.copiesDataFor t.schema t.table then do
    let job ← unseen (.ofOutcome (Plan.copyJob source t))
    let copied ← StateT.lift (copy target pace job (source.rows job.query))
    return some copied.rows
  else return none

theorem carryOut_data (t : Plan.TablePair) :
    carryOut target pace (Plan.dataDraft m source t) = data target pace m source t := by
  unfold Plan.dataDraft data
  split
  · simp only [carryOut_bind, carryOut_ofOutcome, carryOut_copy, carryOut_pure]
  · rfl

/-- A table. It is dropped as soon as its name and the types of its columns are known. -/
def table (schema targetSchema name : String) : NamingAct σ TableReport := do
  let columns ← unseen (.ofOutcome (source.columns schema name))
  let targetTable ← unseen (.rename (m.policy.renameTable schema name))
  let definitions ← unseen (.each (Plan.columnDraft m schema name) columns)
  execute target pace (Statement.dropTable targetSchema targetTable)
  execute target pace (Statement.createTable targetSchema targetTable definitions)
  let pair : Plan.TablePair :=
    { schema, table := name, targetSchema, targetTable, columns, definitions }
  let rows ← data target pace m source pair
  carryOut target pace (Plan.partsDraft m source pair)
  return { schema := targetSchema, table := targetTable, rows }

theorem carryOut_table (schema targetSchema name : String) :
    carryOut target pace (Plan.tableDraft m source schema targetSchema name) =
      table target pace m source schema targetSchema name := by
  have hcolumns (columns : List Column) :
      carryOut target pace (.each (Plan.columnDraft m schema name) columns) =
        unseen (.each (Plan.columnDraft m schema name) columns) :=
    carryOut_unseen target pace (Plan.columnDrafts_all schema name columns)
  simp only [Plan.tableDraft, carryOut_bind, carryOut_ofOutcome, carryOut_rename, hcolumns,
    carryOut_execute, carryOut_data, carryOut_pure, table]

/-- A schema that has tables: each is made and filled before the next is looked at. -/
def fullSchema (schema : String) : NamingAct σ Plan.PlannedSchema := do
  let made ← unseen (.rename (m.policy.renameSchema schema))
  execute target pace (Statement.createSchema made)
  let names ← unseen (.ofOutcome (source.tables schema))
  let tables ← each (fun name => do
    let report ← table target pace m source schema made name
    let foreignKeys ← unseen (.ofOutcome (source.foreignKeys schema name))
    return (report, foreignKeys)) names
  carryOut target pace (Plan.indexesDraft m source schema)
  return { source := schema, target := made, tables := tables.map (·.1),
           foreignKeys := tables.flatMap (·.2) }

theorem carryOut_fullSchema (schema : String) :
    carryOut target pace (Plan.fullSchemaDraft m source schema) =
      fullSchema target pace m source schema := by
  simp only [Plan.fullSchemaDraft, Plan.linkedTableDraft, carryOut_bind, carryOut_rename,
    carryOut_execute, carryOut_ofOutcome, carryOut_each, carryOut_table, carryOut_pure, fullSchema]

/-- All schemas, then all foreign keys. -/
def schemas : NamingAct σ (List Plan.PlannedSchema) := do
  let listed ← unseen (.ofOutcome source.schemas)
  let planned ← each (fun schema => do
    if ← unseen (.ofOutcome (source.isSchemaEmpty schema.name)) then return none
    else
      let planned ← fullSchema target pace m source schema.name
      return some planned) listed
  let schemas := planned.filterMap id
  let _ ← each (fun c => carryOut target pace (Plan.keyDraft m Statement.addForeignKey c))
    (schemas.flatMap (·.foreignKeys))
  return schemas

theorem carryOut_schemas :
    carryOut target pace (Plan.schemasDraft m source) = schemas target pace m source := by
  have hschema : ∀ schema : Schema, carryOut target pace (Plan.schemaDraft m source schema) =
      (do if ← unseen (.ofOutcome (source.isSchemaEmpty schema.name)) then return none
          else
            let planned ← fullSchema target pace m source schema.name
            return some planned) := by
    intro schema
    rw [Plan.schemaDraft, carryOut_bind, carryOut_ofOutcome]
    congr 1
    funext isEmpty
    cases isEmpty with
    | true => rfl
    | false =>
      show carryOut target pace (Plan.fullSchemaDraft m source schema.name >>= _) = _
      simp only [carryOut_bind, carryOut_fullSchema]
      rfl
  simp only [Plan.schemasDraft, carryOut_bind, carryOut_ofOutcome, carryOut_each, hschema,
    carryOut_pure, schemas]

/-! ## Modules -/

/-- The modules of a listing, each made as soon as its name is known: those that are passed over,
and the ledger after all. The name is in the ledger before anything is sent, so it stays there if
the module fails. -/
def modules (targetSchema : String) (reserved : List String) (kind : ModuleKind) :
    List Module → Ledger → Act σ (List SkippedModule × Ledger)
  | [], ledger => return ([], ledger)
  | x :: rest, ledger => do
    let turn : Plan.Turn := ⟨targetSchema, reserved, kind, x, ledger⟩
    match ← (carryOut target pace (Plan.moduleDraft m targetSchema reserved x) ledger).attempt with
    | .ok _ => modules targetSchema reserved kind rest (turn.after m)
    | .error e =>
      if Run.passesOver m e then
        let later ← modules targetSchema reserved kind rest (turn.after m)
        return (⟨x.schema, x.name, kind, e.message⟩ :: later.1, later.2)
      else ofOutcome (.error e)

/-- The modules of all listings. Each listing is asked for when those before it are done. -/
def listings (reserved : List String) :
    List (Plan.PlannedSchema × ModuleKind) → Ledger → Act σ (List SkippedModule × Ledger)
  | [], ledger => return ([], ledger)
  | (schema, kind) :: rest, ledger => do
    let listed ← ofOutcome (source.modules schema.source kind)
    let first ← modules target pace m schema.target reserved kind listed ledger
    let later ← listings reserved rest first.2
    return (first.1 ++ later.1, later.2)

def migrate (start : DateTime) : Act σ Report := do
  let planned ← schemas target pace m source .empty
  let done ← listings target pace m source (planned.1.map (·.target)) (Plan.listings planned.1)
    planned.2
  let elapsed ← elapsed
  return { startedAt := start, elapsed, schemas := planned.1.map (·.target)
           tables := planned.1.flatMap (·.tables), skippedModules := done.1
           renamings := done.2.toList }

theorem carryOut_attempt (d : Draft Unit) (l : Ledger) (x : Module) (kind : ModuleKind)
    (r : Run σ) :
    carryOut target pace d l r =
      match r.tryAttempt target pace ⟨x, kind, (d l).steps, (d l).outcome⟩ with
      | (after, none) => (after, .ok ((), (d l).ledger))
      | (after, some e) => (after, .error e) := by
  rw [carryOut, ofSteps, Run.tryAttempt]
  rcases r.takeAll target pace (d l).steps with ⟨after, _ | e⟩
  · cases (d l).outcome with
    | error e => rfl
    | ok u => rfl
  · rfl

/-- The modules of a listing are made as they are tried after all were drafted. -/
theorem modules_eq (targetSchema : String) (reserved : List String) (kind : ModuleKind)
    (xs : List Module) (l : Ledger) (r : Run σ) :
    let planned := Plan.attemptListed m targetSchema reserved kind xs l
    let tried := r.tryAll m target pace planned.1
    modules target pace m targetSchema reserved kind xs l r =
      (tried.1, tried.2.map fun skipped => (skipped, planned.2)) := by
  induction xs generalizing l r with
  | nil => rfl
  | cons x rest ih =>
    have hledger := Plan.moduleDraft_ledger m ⟨targetSchema, reserved, kind, x, l⟩
    simp only [modules, Plan.attemptListed, Run.tryAll, bind_apply, attempt,
      carryOut_attempt target pace _ l x kind r, hledger]
    rcases r.tryAttempt target pace _ with ⟨after, _ | e⟩
    · exact ih _ after
    · cases hpasses : Run.passesOver m e with
      | false =>
        simp only [hpasses, Bool.false_eq_true, if_false]
        rfl
      | true =>
        simp only [hpasses, if_true, bind_apply, ih]
        rcases after.tryAll m target pace _ with ⟨final, e | skipped⟩
        · rfl
        · rfl

/-- What each listing has is made before the next is asked for, as it is after all were drafted. -/
theorem listings_eq (reserved : List String)
    (pending : List (Plan.PlannedSchema × ModuleKind)) (l : Ledger) (r : Run σ) :
    let planned := Plan.attemptAll m source reserved pending l
    listings target pace m source reserved pending l r =
      match r.tryAll m target pace planned.list with
      | (after, .error e) => (after, .error e)
      | (after, .ok skipped) =>
        match planned.interruption with
        | some e => (after, .error e)
        | none => (after, .ok (skipped, planned.ledger)) := by
  induction pending generalizing l r with
  | nil => rfl
  | cons listing rest ih =>
    obtain ⟨schema, kind⟩ := listing
    rw [listings, Plan.attemptAll]
    cases source.modules schema.source kind with
    | error e => rfl
    | ok xs =>
      simp only [Run.tryAll_append, bind_apply, ofOutcome, modules_eq]
      rcases r.tryAll m target pace _ with ⟨after, e | skipped⟩
      · rfl
      · simp only [Except.map, ih]
        rcases after.tryAll m target pace _ with ⟨final, e | later⟩
        · rfl
        · cases (Plan.attemptAll m source reserved rest _).interruption with
          | none => rfl
          | some e => rfl

end Steps

end Act

/-! ## Whole migrations -/

section Runs

variable {σ : Type} (target : Target σ) (pace : Pace)

/-- A copy ends at the first step that fails. -/
theorem copyTable_eq_act (job : CopyJob) (rows : Outcome (List (Outcome Row))) (initial : σ) :
    copyTable job rows target pace initial =
      (do let count ← Act.copy target pace job rows
          let elapsed ← Act.copyElapsed
          return { rows := count.rows, commits := count.commits, batch := job.batch, elapsed } :
        Act σ CopyStats) { state := initial } := by
  rw [← Act.ofSteps_copy target pace job rows .empty]
  simp only [copyTable, Act.bind_apply, Act.ofSteps]
  rcases Run.takeAll target pace { state := initial } (job.draft rows .empty).steps with
    ⟨after, _ | e⟩
  · cases (job.draft rows .empty).outcome with
    | error e => rfl
    | ok count => rfl
  · rfl

/-- A migration acts as it goes: whether its steps are all found first and then taken, or each is
taken when it is found and the first failure ends the part at hand, comes to the same. -/
theorem migrate_eq_act (m : RunSettings) (source : Source) (start : DateTime) (initial : σ) :
    migrate m source target pace start initial =
      Act.migrate target pace m source start { state := initial } := by
  rw [migrate, Run.follow, Act.migrate, Plan.ofSource, ← Act.carryOut_schemas]
  simp only [Act.bind_apply, Act.carryOut, Act.ofSteps]
  rcases Plan.schemasDraft m source .empty with ⟨steps, ledger, e | schemas⟩
  · rcases Run.takeAll target pace { state := initial } steps with ⟨after, _ | refused⟩
    · rfl
    · rfl
  · rcases Run.takeAll target pace { state := initial } steps with ⟨after, _ | refused⟩
    · simp only [Except.map, Act.listings_eq]
      rcases after.tryAll m target pace _ with ⟨final, e | skipped⟩
      · rfl
      · simp only []
        cases (Plan.attemptAll m source _ _ ledger).interruption with
        | none => rfl
        | some e => rfl
    · rfl

end Runs

end Migration
