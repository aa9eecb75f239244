import Migration.Proofs.ModuleAccounts
import Migration.Proofs.PlanShape

/-
  What the data of tables cannot influence.

  The rows of a table are copied in the middle of a migration, between the statements
  that make the table and those that make everything else. This file compares two
  migrations that differ in which tables are filled and in the rows that the source
  has for them, and proves that they execute the same statements:

  1. two drafts that end with values execute the same statements and leave the same
     renamings (`Draft.AlikeUpTo`), because a copy does neither
     (`dataDraft_alike`), and so do the drafts around it (`schemasDraft_alike`);
  2. two runs that executed the same statements do so after each module, where the
     target decides on a statement by its text (`Run.tryAll_alike`);
  3. two migrations that succeed execute the same statements, and report the same but for
     times and the numbers of rows (`migrate_same_schema`). -/

namespace Migration

open Naming (Ledger)

/-! ## Executed statements -/

def Operation.statement? : Operation → Option String
  | .execute sql => some sql
  | _ => none

def executed (ops : List Operation) : List String := ops.filterMap Operation.statement?

@[simp] theorem executed_append (first second : List Operation) :
    executed (first ++ second) = executed first ++ executed second := List.filterMap_append

theorem executed_eq_nil {ops : List Operation} (h : ∀ op ∈ ops, ∀ sql, op ≠ .execute sql) :
    executed ops = [] := by
  refine List.filterMap_eq_nil_iff.mpr fun op hop => ?_
  cases op with
  | execute sql => exact absurd rfl (h _ hop sql)
  | begin => rfl
  | insert sql row => rfl
  | commit => rfl

/-! ## Drafts -/

namespace Draft

variable {α β γ δ : Type} {l l' : Ledger}

/-- Where both drafts end with values, they execute the same statements, leave the same renamings,
and the values look the same. -/
def AlikeUpTo (look : α → γ) (d d' : Draft α) : Prop :=
  ∀ l steps after a steps' after' a', d l = ⟨steps, after, .ok a⟩ →
    d' l = ⟨steps', after', .ok a'⟩ →
      executed (operations steps) = executed (operations steps') ∧ after = after' ∧ look a = look a'

namespace AlikeUpTo

variable {look : α → γ} {view : β → δ}

theorem same (d : Draft α) : AlikeUpTo look d d := by
  intro l steps after a steps' after' a' h h'
  rw [h] at h'
  obtain ⟨rfl, rfl, houtcome⟩ := Drafted.mk.inj h'
  obtain rfl := Except.ok.inj houtcome
  exact ⟨rfl, rfl, rfl⟩

theorem give {a a' : α} (h : look a = look a') : AlikeUpTo look (pure a) (pure a') := by
  intro l steps after b steps' after' b' hb hb'
  obtain ⟨rfl, rfl, rfl⟩ := pure_ok hb
  obtain ⟨rfl, rfl, rfl⟩ := pure_ok hb'
  exact ⟨rfl, rfl, h⟩

theorem bind {d d' : Draft α} {f f' : α → Draft β} (hd : AlikeUpTo look d d')
    (hf : ∀ a a', look a = look a' → AlikeUpTo view (f a) (f' a')) :
    AlikeUpTo view (d >>= f) (d' >>= f') := by
  intro l steps after b steps' after' b' hb hb'
  obtain ⟨a, first, mid, second, ha, hfa, rfl⟩ := bind_ok hb
  obtain ⟨a', first', mid', second', ha', hfa', rfl⟩ := bind_ok hb'
  obtain ⟨hfirst, rfl, hlook⟩ := hd _ _ _ _ _ _ _ ha ha'
  obtain ⟨hsecond, rfl, hview⟩ := hf a a' hlook _ _ _ _ _ _ _ hfa hfa'
  refine ⟨?_, rfl, hview⟩
  rw [operations_append, operations_append, executed_append, executed_append, hfirst, hsecond]

theorem bind_same (d : Draft α) {f f' : α → Draft β} (hf : ∀ a, AlikeUpTo view (f a) (f' a)) :
    AlikeUpTo view (d >>= f) (d >>= f') := by
  have hsame : AlikeUpTo id d d := same d
  refine hsame.bind fun a a' h => ?_
  obtain rfl : a = a' := h
  exact hf a

theorem each {f f' : β → Draft α} {items : List β}
    (hf : ∀ b ∈ items, AlikeUpTo look (f b) (f' b)) :
    AlikeUpTo (List.map look) (each f items) (each f' items) := by
  induction items with
  | nil => exact give rfl
  | cons b rest ih =>
    obtain ⟨hb, hrest⟩ := List.forall_mem_cons.mp hf
    refine bind hb fun a a' ha => bind (ih hrest) fun as as' has => give ?_
    rw [List.map_cons, List.map_cons, ha, has]

end AlikeUpTo

end Draft

/-! ## Plans -/

def TableReport.name (r : TableReport) : String × String := (r.schema, r.table)

namespace Plan

/-- What a planned schema has beside the numbers of rows. -/
def PlannedSchema.withoutRows (s : PlannedSchema) :
    String × String × List (String × String) × List Constraint :=
  (s.source, s.target, s.tables.map TableReport.name, s.foreignKeys)

theorem dataDraft_ledger {m : RunSettings} {source : Source} {t : TablePair} {l l' : Ledger}
    {steps : List Step} {rows : Option Nat}
    (h : dataDraft m source t l = ⟨steps, l', .ok rows⟩) : l' = l := by
  unfold dataDraft at h
  split at h
  · obtain ⟨job, s₁, l₁, _, hjob, h₁, rfl⟩ := Draft.bind_ok h
    obtain ⟨copied, s₂, l₂, _, hcopy, h₂, rfl⟩ := Draft.bind_ok h₁
    obtain ⟨-, -, rfl⟩ := Draft.ofOutcome_ok hjob
    obtain ⟨-, rfl, -⟩ := Draft.pure_ok h₂
    cases hread : source.rows job.query with
    | error e =>
      rw [hread] at hcopy
      cases hcopy
    | ok items =>
      rw [hread] at hcopy
      exact (Drafted.mk.inj hcopy).2.1.symm
  · exact (Draft.pure_ok h).2.1

theorem dataDraft_alike {m m' : RunSettings} {source source' : Source} (t : TablePair) :
    Draft.AlikeUpTo (fun _ => ()) (dataDraft m source t) (dataDraft m' source' t) := by
  intro l steps after rows steps' after' rows' h h'
  refine ⟨?_, (dataDraft_ledger h).trans (dataDraft_ledger h').symm, rfl⟩
  rw [executed_eq_nil (rowsMade h).not_execute, executed_eq_nil (rowsMade h').not_execute]

section

variable (m : RunSettings) (source : Source) (schemaOnly : Bool) (skippedTables : List String)
  (scalar : String → Outcome Cell) (rows : String → Outcome (List (Outcome Row)))

theorem tableDraft_alike (schema targetSchema table : String) :
    Draft.AlikeUpTo TableReport.name (tableDraft m source schema targetSchema table)
      (tableDraft { m with schemaOnly, skippedTables } { source with scalar, rows }
        schema targetSchema table) := by
  apply Draft.AlikeUpTo.bind_same
  intro columns
  apply Draft.AlikeUpTo.bind_same
  intro targetTable
  apply Draft.AlikeUpTo.bind_same
  intro definitions
  apply Draft.AlikeUpTo.bind_same
  intro dropped
  apply Draft.AlikeUpTo.bind_same
  intro created
  -- the copy is where the two drafts differ
  apply Draft.AlikeUpTo.bind (dataDraft_alike _)
  intro copied copied' _
  apply Draft.AlikeUpTo.bind_same
  intro parts
  exact .give rfl

theorem linkedTableDraft_alike (schema targetSchema table : String) :
    Draft.AlikeUpTo (fun made => (made.1.name, made.2))
      (linkedTableDraft m source schema targetSchema table)
      (linkedTableDraft { m with schemaOnly, skippedTables } { source with scalar, rows }
        schema targetSchema table) := by
  have htable := tableDraft_alike m source schemaOnly skippedTables scalar rows schema targetSchema
    table
  apply htable.bind
  intro report report' hname
  apply Draft.AlikeUpTo.bind_same
  intro foreignKeys
  exact .give (congrArg (·, foreignKeys) hname)

theorem fullSchemaDraft_alike (schema : String) :
    Draft.AlikeUpTo PlannedSchema.withoutRows (fullSchemaDraft m source schema)
      (fullSchemaDraft { m with schemaOnly, skippedTables } { source with scalar, rows }
        schema) := by
  apply Draft.AlikeUpTo.bind_same
  intro target
  apply Draft.AlikeUpTo.bind_same
  intro created
  apply Draft.AlikeUpTo.bind_same
  intro names
  have heach := Draft.AlikeUpTo.each fun table (_ : table ∈ names) =>
    linkedTableDraft_alike m source schemaOnly skippedTables scalar rows schema target table
  apply heach.bind
  intro tables tables' htables
  apply Draft.AlikeUpTo.bind_same
  intro indexed
  apply Draft.AlikeUpTo.give
  have hnames : (tables.map (·.1)).map TableReport.name =
      (tables'.map (·.1)).map TableReport.name := by
    have hfirst := congrArg (List.map Prod.fst) htables
    rw [List.map_map, List.map_map] at hfirst ⊢
    exact hfirst
  have hkeys : tables.flatMap (·.2) = tables'.flatMap (·.2) := by
    simpa [List.flatMap_map] using congrArg (List.flatMap Prod.snd) htables
  rw [PlannedSchema.withoutRows, PlannedSchema.withoutRows, hnames, hkeys]

theorem schemaDraft_alike (schema : Schema) :
    Draft.AlikeUpTo (Option.map PlannedSchema.withoutRows) (schemaDraft m source schema)
      (schemaDraft { m with schemaOnly, skippedTables } { source with scalar, rows } schema) := by
  apply Draft.AlikeUpTo.bind_same
  intro isEmpty
  cases isEmpty with
  | true => exact .give rfl
  | false =>
    have hfull := fullSchemaDraft_alike m source schemaOnly skippedTables scalar rows schema.name
    apply hfull.bind
    intro planned planned' h
    exact .give (congrArg some h)

theorem schemasDraft_alike :
    Draft.AlikeUpTo (List.map PlannedSchema.withoutRows) (schemasDraft m source)
      (schemasDraft { m with schemaOnly, skippedTables } { source with scalar, rows }) := by
  apply Draft.AlikeUpTo.bind_same
  intro listed
  have heach := Draft.AlikeUpTo.each fun schema (_ : schema ∈ listed) =>
    schemaDraft_alike m source schemaOnly skippedTables scalar rows schema
  apply heach.bind
  intro planned planned' h
  have hschemas : (planned.filterMap id).map PlannedSchema.withoutRows =
      (planned'.filterMap id).map PlannedSchema.withoutRows := by
    simpa [List.filterMap_map, List.map_filterMap] using congrArg (List.filterMap id) h
  have hkeys : (planned.filterMap id).flatMap (·.foreignKeys) =
      (planned'.filterMap id).flatMap (·.foreignKeys) := by
    simpa [List.flatMap_map, PlannedSchema.withoutRows] using
      congrArg (List.flatMap (·.2.2.2)) hschemas
  simp only [hkeys]
  apply Draft.AlikeUpTo.bind_same
  intro linked
  exact .give hschemas

/-- The attempts at modules depend on no rows. -/
theorem attemptAll_alike (reserved : List String)
    {listings listings' : List (PlannedSchema × ModuleKind)}
    (h : listings.map (fun x => (x.1.source, x.1.target, x.2)) =
      listings'.map fun x => (x.1.source, x.1.target, x.2)) (l : Ledger) :
    attemptAll m source reserved listings l =
      attemptAll { m with schemaOnly, skippedTables } { source with scalar, rows } reserved
        listings' l := by
  have hlisted : attemptListed { m with schemaOnly, skippedTables } = attemptListed m := by
    funext targetSchema reserved kind modules ledger
    induction modules generalizing ledger with
    | nil => rfl
    | cons x rest ih =>
      rw [attemptListed, attemptListed, ih]
      rfl
  induction listings generalizing listings' l with
  | nil =>
    obtain rfl : listings' = [] := List.map_eq_nil_iff.mp h.symm
    rfl
  | cons listing rest ih =>
    obtain ⟨listing', rest', rfl⟩ : ∃ listing' rest', listings' = listing' :: rest' := by
      cases listings' with
      | nil => cases h
      | cons listing' rest' => exact ⟨listing', rest', rfl⟩
    obtain ⟨schema, kind⟩ := listing
    obtain ⟨schema', kind'⟩ := listing'
    obtain ⟨hlisting, hrest⟩ := List.cons.inj h
    simp only [Prod.mk.injEq] at hlisting
    obtain ⟨hsource, htarget, rfl⟩ := hlisting
    rw [attemptAll, attemptAll, hlisted, ← hsource, ← htarget]
    cases source.modules schema.source kind with
    | error e => rfl
    | ok modules => simp only [ih hrest]

end

end Plan

/-! ## Runs -/

namespace Run

variable {σ τ : Type} {target : Target σ} {target' : Target τ}
  {verdict : String → Option MigrationError} (pace pace' : Pace) {r : Run σ} {r' : Run τ}

def ExecutedAlike (r : Run σ) (r' : Run τ) : Prop :=
  executed r.sent.toList = executed r'.sent.toList

theorem take_executed (hverdict : target.JudgesBy verdict) (r : Run σ) (sql : String) :
    (r.take target pace (.execute sql)).2 = verdict sql ∧
      executed (r.take target pace (.execute sql)).1.sent.toList =
        executed r.sent.toList ++ [sql] := by
  constructor
  · show ((target.respond r.state (.execute sql)).2.map fun e => e) = verdict sql
    rw [hverdict, Option.map_id']
  · show executed (r.sent.push (.execute sql)).toList = _
    rw [Array.toList_push, executed_append]
    rfl

theorem takeAll_alike (hverdict : target.JudgesBy verdict) (hverdict' : target'.JudgesBy verdict)
    (sqls : List String) (h : ExecutedAlike r r') :
    ExecutedAlike (r.takeAll target pace (sqls.map .execute)).1
        (r'.takeAll target' pace' (sqls.map .execute)).1 ∧
      (r.takeAll target pace (sqls.map .execute)).2 =
        (r'.takeAll target' pace' (sqls.map .execute)).2 := by
  induction sqls generalizing r r' with
  | nil => exact ⟨h, rfl⟩
  | cons sql rest ih =>
    obtain ⟨hanswer, hsent⟩ := take_executed pace hverdict r sql
    obtain ⟨hanswer', hsent'⟩ := take_executed pace' hverdict' r' sql
    rcases htaken : r.take target pace (.execute sql) with ⟨after, error⟩
    rcases htaken' : r'.take target' pace' (.execute sql) with ⟨after', error'⟩
    rw [htaken] at hanswer hsent
    rw [htaken'] at hanswer' hsent'
    obtain rfl : error = error' := hanswer.trans hanswer'.symm
    have hafter : ExecutedAlike after after' := by
      rw [ExecutedAlike, hsent, hsent', h]
    simp only [List.map_cons, takeAll, htaken, htaken']
    cases error with
    | none => exact ih hafter
    | some e => exact ⟨hafter, rfl⟩

theorem tryAttempt_alike (hverdict : target.JudgesBy verdict) (hverdict' : target'.JudgesBy verdict)
    {a : Plan.Attempt} {sqls : List String} (hsteps : a.steps = sqls.map .execute)
    (h : ExecutedAlike r r') :
    ExecutedAlike (r.tryAttempt target pace a).1 (r'.tryAttempt target' pace' a).1 ∧
      (r.tryAttempt target pace a).2 = (r'.tryAttempt target' pace' a).2 := by
  obtain ⟨hafter, herror⟩ :=
    takeAll_alike pace pace' hverdict hverdict' sqls h
  rw [← hsteps] at hafter herror
  refine ⟨by rwa [tryAttempt_fst, tryAttempt_fst], ?_⟩
  rcases htaken : r.takeAll target pace a.steps with ⟨after, error⟩
  rcases htaken' : r'.takeAll target' pace' a.steps with ⟨after', error'⟩
  rw [htaken, htaken'] at herror
  obtain rfl : error = error' := herror
  rw [tryAttempt, tryAttempt, htaken, htaken']
  cases error with
  | some e => rfl
  | none => cases a.outcome <;> rfl

/-- Where targets decide on a statement by its text, and alike, what becomes of modules is the same
in two runs. -/
theorem tryAll_alike {m m' : RunSettings} (hskip : m.skipFailedModules = m'.skipFailedModules)
    (hverdict : target.JudgesBy verdict) (hverdict' : target'.JudgesBy verdict)
    {attempts : List Plan.Attempt}
    (hsteps : ∀ a ∈ attempts, ∃ sqls : List String, a.steps = sqls.map .execute)
    (h : ExecutedAlike r r') :
    ExecutedAlike (r.tryAll m target pace attempts).1 (r'.tryAll m' target' pace' attempts).1 ∧
      (r.tryAll m target pace attempts).2 = (r'.tryAll m' target' pace' attempts).2 := by
  induction attempts generalizing r r' with
  | nil => exact ⟨h, rfl⟩
  | cons a rest ih =>
    obtain ⟨⟨sqls, ha⟩, hrest⟩ := List.forall_mem_cons.mp hsteps
    obtain ⟨hafter, herror⟩ :=
      tryAttempt_alike pace pace' hverdict hverdict' ha h
    rcases htried : r.tryAttempt target pace a with ⟨after, error⟩
    rcases htried' : r'.tryAttempt target' pace' a with ⟨after', error'⟩
    rw [htried, htried'] at hafter herror
    obtain rfl : error = error' := herror
    have hlater := ih hrest hafter
    rw [tryAll, tryAll, htried, htried']
    cases error with
    | none => exact hlater
    | some e =>
      have hpasses : passesOver m e = passesOver m' e := by rw [passesOver, passesOver, hskip]
      simp only [hpasses]
      split
      · exact ⟨hlater.1, congrArg (Except.map _) hlater.2⟩
      · exact ⟨hafter, rfl⟩

end Run

/-! ## Whole migrations -/

/-- A migration that succeeds: its plan ends with schemas, its steps are taken, and all its modules
are passed, each of which is made by statements alone. -/
theorem migrate_report {σ : Type} {m : RunSettings} {source : Source} {target : Target σ}
    {pace : Pace} {start : DateTime} {initial : σ} {report : Report}
    (h : (migrate m source target pace start initial).2 = .ok report) :
    ∃ (steps : List Step) (ledger : Ledger) (schemas : List Plan.PlannedSchema) (mid : Run σ),
      Plan.schemasDraft m source .empty = ⟨steps, ledger, .ok schemas⟩ ∧
      mid.sent.toList = operations steps ∧
      let attempts :=
        Plan.attemptAll m source (schemas.map (·.target)) (Plan.listings schemas) ledger
      (∀ a ∈ attempts.list, ∃ sqls : List String, a.steps = sqls.map .execute) ∧
      (mid.tryAll m target pace attempts.list).1 = (migrate m source target pace start initial).1 ∧
      (mid.tryAll m target pace attempts.list).2 = .ok report.skippedModules ∧
      report.schemas = schemas.map (·.target) ∧ report.tables = schemas.flatMap (·.tables) ∧
      report.renamings = attempts.ledger.toList := by
  obtain ⟨mid, schemas, attempts, skipped, htaken, hplan, htried, -, rfl⟩ :=
    Run.follow_report (Prod.ext rfl h)
  obtain ⟨steps, ledger, hdrafted, hsteps, rfl⟩ := Plan.ofSource_ok hplan
  have hsent := htaken.sent
  rw [hsteps] at hsent
  refine ⟨steps, ledger, schemas, mid, hdrafted, hsent, fun a ha => ?_, congrArg (·.1) htried,
    congrArg (·.2) htried, rfl, rfl, rfl⟩
  rw [Plan.ofSource_turns hplan] at ha
  obtain ⟨t, -, rfl⟩ := List.mem_map.mp ha
  exact ⟨t.statements m, congrArg (·.steps) (t.attempt_eq m)⟩

/-- Two migrations to targets that decide on a statement by its text, and alike, which differ in
what tables are filled and in the rows that the source has: where both succeed, they execute the
same statements, and report the same schemas, tables, skipped modules and renamings. -/
theorem migrate_same_schema {σ τ : Type} {m m' : RunSettings} {source source' : Source}
    (hm : m' = { m with schemaOnly := m'.schemaOnly, skippedTables := m'.skippedTables })
    (hsource : source' = { source with scalar := source'.scalar, rows := source'.rows })
    {target : Target σ} {target' : Target τ} {verdict : String → Option MigrationError}
    (hverdict : target.JudgesBy verdict) (hverdict' : target'.JudgesBy verdict) (pace pace' : Pace)
    (start start' : DateTime) (initial : σ) (initial' : τ) {report report' : Report}
    (h : (migrate m source target pace start initial).2 = .ok report)
    (h' : (migrate m' source' target' pace' start' initial').2 = .ok report') :
    executed (migrate m source target pace start initial).1.sent.toList =
      executed (migrate m' source' target' pace' start' initial').1.sent.toList ∧
    report.schemas = report'.schemas ∧
    report.tables.map TableReport.name = report'.tables.map TableReport.name ∧
    report.skippedModules = report'.skippedModules ∧ report.renamings = report'.renamings := by
  have hskip : m.skipFailedModules = m'.skipFailedModules := by rw [hm]
  obtain ⟨steps, ledger, schemas, mid, hdrafted, hsent, hmodules, hfinal, hskipped, htargets,
    htables, hrenamings⟩ := migrate_report h
  obtain ⟨steps', ledger', schemas', mid', hdrafted', hsent', -, hfinal', hskipped', htargets',
    htables', hrenamings'⟩ := migrate_report h'
  -- the plans up to the modules
  have hplans := Plan.schemasDraft_alike m source m'.schemaOnly m'.skippedTables source'.scalar
    source'.rows
  rw [← hm, ← hsource] at hplans
  obtain ⟨hexecuted, rfl, hschemas⟩ := hplans _ _ _ _ _ _ _ hdrafted hdrafted'
  have hreserved : schemas.map (·.target) = schemas'.map (·.target) := by
    have hsecond := congrArg (List.map (·.2.1)) hschemas
    rw [List.map_map, List.map_map] at hsecond
    exact hsecond
  have hnames : (schemas.flatMap (·.tables)).map TableReport.name =
      (schemas'.flatMap (·.tables)).map TableReport.name := by
    have hthird := congrArg (List.flatMap (·.2.2.1)) hschemas
    rw [List.flatMap_map, List.flatMap_map] at hthird
    rw [List.map_flatMap, List.map_flatMap]
    exact hthird
  have hlistings : (Plan.listings schemas).map (fun x => (x.1.source, x.1.target, x.2)) =
      (Plan.listings schemas').map fun x => (x.1.source, x.1.target, x.2) := by
    have hpairs := congrArg
      (List.flatMap fun s => ModuleKind.all.map fun k => (s.1, s.2.1, k)) hschemas
    rw [List.flatMap_map, List.flatMap_map] at hpairs
    simp only [Plan.listings, List.map_flatMap, List.map_map]
    exact hpairs
  -- the attempts at modules, and what becomes of them
  have hattempts := Plan.attemptAll_alike m source m'.schemaOnly m'.skippedTables source'.scalar
    source'.rows (schemas.map (·.target)) hlistings ledger
  rw [← hm, ← hsource] at hattempts
  rw [← hreserved, ← hattempts] at hfinal' hskipped' hrenamings'
  have hmid : Run.ExecutedAlike mid mid' := by
    rw [Run.ExecutedAlike, hsent, hsent', hexecuted]
  obtain ⟨hlast, houtcome⟩ := Run.tryAll_alike pace pace' hskip hverdict hverdict' hmodules hmid
  rw [Run.ExecutedAlike, hfinal, hfinal'] at hlast
  rw [hskipped, hskipped'] at houtcome
  refine ⟨hlast, ?_, ?_, Except.ok.inj houtcome, ?_⟩
  · rw [htargets, htargets', hreserved]
  · rw [htables, htables', hnames]
  · rw [hrenamings, hrenamings']

def ordersAndTop : Memory.Catalog where
  schemas := [
    { name := "dbo"
      tables := [
        { name := "Orders"
          columns := [{ name := "Id", isNullable := false, type := some .int32 }]
          primaryKey := some { schema := "dbo", table := "Orders", name := "PK_Orders",
                               kind := .primaryKey, fields := ["Id"] }
          rows := [[.int32 1], [.int32 2]] }]
      modules := [{ schema := "dbo", name := "TopOrder", kind := .view,
                    definition := "CREATE VIEW TopOrder AS SELECT TOP 1 Id FROM Orders" }] }]

/-- Its migration to a target that knows no `TOP`, with its rows or without. -/
def ordersMigrated (schemaOnly : Bool) : Run Memory.Store × Outcome Report :=
  migrate { schemaOnly } ordersAndTop.source (Memory.target { containing := some "TOP" }) {}
    (DateTime.ofNanos 0) {}

set_option maxRecDepth 100000 in
/-- Migrations to which `migrate_same_schema` applies: one fills the table and one does not, and the
refused view is listed by both. -/
theorem unfilled_orders_same_schema :
    (Memory.target { containing := some "TOP" }).JudgesBy
        (Memory.Faults.verdict { containing := some "TOP" }) ∧
      ∃ report report', (ordersMigrated false).2 = .ok report ∧
        (ordersMigrated true).2 = .ok report' ∧
        executed (ordersMigrated false).1.sent.toList =
          executed (ordersMigrated true).1.sent.toList ∧
        report.tables.map TableReport.name = report'.tables.map TableReport.name ∧
        report.skippedModules = report'.skippedModules ∧
        report.tables.map (·.rows) = [some 2] ∧ report'.tables.map (·.rows) = [none] ∧
        report.skippedModules.map (·.name) = ["TopOrder"] := by
  have hjudges := Memory.judgesBy_target { containing := some "TOP" }
  have hfilled : (ordersMigrated false).2.map (fun report =>
      (report.tables.map (·.rows), report.skippedModules.map (·.name))) =
        .ok ([some 2], ["TopOrder"]) := by decide +kernel
  have hunfilled : (ordersMigrated true).2.map (fun report => report.tables.map (·.rows)) =
      .ok [none] := by decide +kernel
  have hstart : migrate {} ordersAndTop.source (Memory.target { containing := some "TOP" }) {}
      (DateTime.ofNanos 0) {} = ordersMigrated false := rfl
  have hstart' : migrate { schemaOnly := true } ordersAndTop.source
      (Memory.target { containing := some "TOP" }) {} (DateTime.ofNanos 0) {} =
        ordersMigrated true := rfl
  refine ⟨hjudges, ?_⟩
  cases h : (ordersMigrated false).2 with
  | error e =>
    rw [h] at hfilled
    cases hfilled
  | ok report =>
    cases h' : (ordersMigrated true).2 with
    | error e =>
      rw [h'] at hunfilled
      cases hunfilled
    | ok report' =>
      rw [h] at hfilled
      rw [h'] at hunfilled
      obtain ⟨hrows, hskipped⟩ := Prod.mk.inj (Except.ok.inj hfilled)
      obtain ⟨hexecuted, -, htables, hmodules, -⟩ :=
        @migrate_same_schema _ _ {} { schemaOnly := true }
        ordersAndTop.source ordersAndTop.source rfl rfl _ _ _ hjudges hjudges {} {}
        (DateTime.ofNanos 0) (DateTime.ofNanos 0) {} {} _ _ h h'
      -- step by step, for to compare the sides as they are would run the migrations
      have hleft := congrArg (fun migrated => executed migrated.1.sent.toList) hstart
      have hright := congrArg (fun migrated => executed migrated.1.sent.toList) hstart'
      have hall := hleft.symm.trans (hexecuted.trans hright)
      exact ⟨report, report', rfl, rfl, hall, htables, hmodules, hrows, Except.ok.inj hunfilled,
        hskipped⟩

end Migration
