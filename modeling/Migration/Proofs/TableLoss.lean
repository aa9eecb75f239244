import Migration.Memory.Catalog
import Migration.Memory.Store
import Migration.Proofs.Attempts
import Migration.Proofs.BatchedCopy
import Migration.Proofs.PlanShape
import Migration.Proofs.TableStatements
import Migration.Run
import Mathlib.Data.List.Nodup

/-
  Whether a migration drops a table that it made.

  Every table is dropped, if it is there, before it is created, and the target names
  of two source tables may be the same. This file

  1. proves of the statements for keys, defaults, identity columns and indexes that they
     alter tables (`Alters`), so that the drafts of these parts make and drop none;
  2. proves by induction on what a plan is made of that it makes the tables that the
     source lists, in order, under the names of the policy (`Plan.PlanMade.makes`), and
     that at the modules views are dropped and the definitions of the source executed
     (`Plan.attemptAll_steps`);
  3. concludes that in a migration that succeeds no table is dropped after it was
     created exactly where the policy keeps the listed tables apart
     (`migrate_keepsTables_iff`), and that it does not always do so
     (`colliding_tables_lose_rows`). -/

namespace Migration

open Naming (Ledger NamingPolicy)

/-! ## Statements that alter -/

theorem begins_addKey {words text : String} {c : Constraint}
    (h : Statement.addKey words c = .ok text) : Begins "ALTER TABLE " text := by
  rw [Statement.addKey] at h
  split at h
  · cases h
  · obtain ⟨table, -, h⟩ := Outcome.bind_ok h
    obtain ⟨name, -, h⟩ := Outcome.bind_ok h
    obtain ⟨fields, -, h⟩ := Outcome.bind_ok h
    obtain rfl := Except.ok.inj h
    simp only [String.append_assoc, begins_append]

theorem begins_addForeignKey {text : String} {c : Constraint}
    (h : Statement.addForeignKey c = .ok text) : Begins "ALTER TABLE " text := by
  rw [Statement.addForeignKey] at h
  split at h
  · cases h
  · split at h
    · cases h
    · split at h
      · cases h
      · obtain ⟨table, -, h⟩ := Outcome.bind_ok h
        obtain ⟨name, -, h⟩ := Outcome.bind_ok h
        obtain ⟨fields, -, h⟩ := Outcome.bind_ok h
        obtain ⟨referenced, -, h⟩ := Outcome.bind_ok h
        obtain ⟨referencedFields, -, h⟩ := Outcome.bind_ok h
        obtain rfl := Except.ok.inj h
        simp only [String.append_assoc, begins_append]

theorem begins_addIdentity {text : String} {i : Identity} (h : Statement.addIdentity i = .ok text) :
    Begins "ALTER TABLE " text := by
  obtain ⟨table, -, h⟩ := Outcome.bind_ok h
  obtain ⟨column, -, h⟩ := Outcome.bind_ok h
  obtain rfl := Except.ok.inj h
  simp only [String.append_assoc, begins_append]

theorem begins_setDefault {schema table column expression text : String}
    (h : Statement.setDefault schema table column expression = .ok text) :
    Begins "ALTER TABLE " text := by
  obtain ⟨table, -, h⟩ := Outcome.bind_ok h
  obtain ⟨column, -, h⟩ := Outcome.bind_ok h
  obtain rfl := Except.ok.inj h
  simp only [String.append_assoc, begins_append]

theorem alters_createIndex {i : Index} {text : String} (h : Statement.createIndex i = .ok text) :
    Alters text := by
  rw [Statement.createIndex] at h
  split at h
  · cases h
  · obtain ⟨name, -, h⟩ := Outcome.bind_ok h
    obtain ⟨table, -, h⟩ := Outcome.bind_ok h
    obtain ⟨keys, -, h⟩ := Outcome.bind_ok h
    obtain ⟨included, -, h⟩ := Outcome.bind_ok h
    obtain rfl := Except.ok.inj h
    simp only [String.append_assoc]
    cases i.isUnique with
    | true => exact .inr (.inr ⟨_, rfl⟩)
    | false => exact .inr (.inl ⟨_, rfl⟩)

/-! ## Drafts that alter -/

/-- The step executes a statement that alters a table or makes an index. -/
def AlteringStep (s : Step) : Prop := ∃ text, s = .execute text ∧ Alters text

theorem Draft.All.quiet {α : Type} {d : Draft α} (h : Draft.All AlteringStep d) :
    Draft.All (Step.AsksOnly Quiet) d := by
  intro l s hs op hop
  obtain ⟨text, rfl, halters⟩ := h l s hs
  cases hop
  exact halters.quiet

theorem Draft.All.makes {α : Type} {d : Draft α} (h : Draft.All AlteringStep d) {l l' : Ledger}
    {steps : List Step} {outcome : Outcome α} (hd : d l = ⟨steps, l', outcome⟩) :
    Makes [] (operations steps) :=
  makes_of_quiet (h.quiet.forall_operations hd)

namespace Plan

variable (m : RunSettings) (source : Source)

theorem keyDraft_altering {statement : Constraint → Outcome String}
    (h : ∀ c text, statement c = .ok text → Begins "ALTER TABLE " text) (c : Constraint) :
    Draft.All AlteringStep (keyDraft m statement c) :=
  .bind (.rename _) fun renamed => .execute fun text htext =>
    ⟨text, rfl, .inl (h renamed text htext)⟩

theorem defaultDraft_altering (t : TablePair) (column : Column) (definition : ColumnDefinition)
    (c : Constraint) : Draft.All AlteringStep (defaultDraft m t column definition c) :=
  .bind (.rename _) fun _ => .bind (.ofOutcome _) fun _ => .execute fun text htext =>
    ⟨text, rfl, .inl (begins_setDefault htext)⟩

theorem columnDefaultsDraft_altering (t : TablePair) (column : Column × ColumnDefinition) :
    Draft.All AlteringStep (columnDefaultsDraft m source t column) :=
  .bind (.ofOutcome _) fun _ => .bind (.each fun c _ => defaultDraft_altering m t _ _ c) fun _ =>
    .pure _

theorem identityDraft_altering (i : Identity) : Draft.All AlteringStep (identityDraft m i) :=
  .bind (.rename _) fun _ => .execute fun text htext =>
    ⟨text, rfl, .inl (begins_addIdentity htext)⟩

theorem partsDraft_altering (t : TablePair) : Draft.All AlteringStep (partsDraft m source t) := by
  unfold partsDraft
  refine .bind (.ofOutcome _) fun _ => .bind (.each fun c _ => ?_) fun _ =>
    .bind (.ofOutcome _) fun _ => .bind (.each fun c _ => ?_) fun _ =>
    .bind (.each fun column _ => columnDefaultsDraft_altering m source t column) fun _ =>
    .bind (.ofOutcome _) fun _ =>
    .bind (.each fun i _ => identityDraft_altering m i) fun _ => .pure _
  · exact keyDraft_altering m (fun _ _ h => begins_addKey h) c
  · exact keyDraft_altering m (fun _ _ h => begins_addKey h) c

theorem indexesDraft_altering (schema : String) :
    Draft.All AlteringStep (indexesDraft m source schema) :=
  .bind (.ofOutcome _) fun _ => .bind (.ofOutcome _) fun _ =>
    .bind (.each fun _ _ => .rename _) fun _ =>
    .bind (.each fun _ _ => .execute fun text htext => ⟨text, rfl, alters_createIndex htext⟩)
      fun _ => .pure _

theorem foreignKeysDraft_altering (keys : List Constraint) :
    Draft.All AlteringStep (Draft.each (keyDraft m Statement.addForeignKey) keys) :=
  .each fun c _ => keyDraft_altering m (fun _ _ h => begins_addForeignKey h) c

end Plan

/-! ## The tables of a plan -/

/-- The target name of a source table. -/
def RunSettings.targetOf (m : RunSettings) (x : QualifiedName) : Outcome QualifiedName := do
  let schema ← m.policy.apply .schema x.1
  let table ← m.policy.apply .table x.2
  return (schema.name, table.name)

def TableReport.qualified (t : TableReport) : QualifiedName := (t.schema, t.table)

def Source.tablesOf (source : Source) (schema : String) : List QualifiedName :=
  match source.isSchemaEmpty schema, source.tables schema with
  | .ok false, .ok names => names.map fun name => (schema, name)
  | _, _ => []

/-- The tables that the source lists, schema by schema. -/
def Source.listed (source : Source) : List QualifiedName :=
  match source.schemas with
  | .ok schemas => schemas.flatMap fun s => source.tablesOf s.name
  | .error _ => []

/-- The policy has the target name of a table where it has the names of its parts. -/
theorem RunSettings.targetOf_of_names {m : RunSettings} {x name : QualifiedName}
    (hschema : m.policy.Names (x.1, .schema, x.1) name.1)
    (htable : m.policy.Names (x.1, .table, x.2) name.2) : m.targetOf x = .ok name := by
  obtain ⟨normalized, hschema⟩ := hschema
  obtain ⟨normalized', htable⟩ := htable
  rw [RunSettings.targetOf, hschema, htable]
  rfl

theorem Source.tablesOf_full {source : Source} {schema : String} {tables : List String}
    (full : source.isSchemaEmpty schema = .ok false) (listed : source.tables schema = .ok tables) :
    source.tablesOf schema = tables.map fun name => (schema, name) := by
  rw [Source.tablesOf, full, listed]

namespace Plan

variable {m : RunSettings} {source : Source} {l : Ledger} {steps : List Step}

theorem TableMade.makes {schema targetSchema table : String} {made : TableReport × List Constraint}
    (hschema : m.policy.Names (schema, .schema, schema) targetSchema)
    (h : TableMade m source schema targetSchema table made steps) :
    Makes [made.1.qualified] (operations steps) ∧
      m.targetOf (schema, table) = .ok made.1.qualified := by
  cases h with
  | @intro columns targetTable drop create definitions rows foreignKeys rowSteps partSteps l l'
      listed names defined dropped created filled parts linked =>
    refine ⟨?_, RunSettings.targetOf_of_names hschema names⟩
    rw [operations_cons, operations_cons, operations_append]
    have hrows : Makes [] (operations rowSteps) :=
      makes_of_quiet fun op hop => quiet_of_not_execute (filled.not_execute op hop)
    have hrest := hrows.append ((partsDraft_altering m source _).makes parts)
    exact .table ⟨drop, dropped, rfl⟩ ⟨definitions, create, created, rfl⟩ hrest

theorem TablesMade.makes {schema targetSchema : String} {tables : List String}
    {made : List (TableReport × List Constraint)}
    (hschema : m.policy.Names (schema, .schema, schema) targetSchema)
    (h : TablesMade m source schema targetSchema tables made steps) :
    Makes (made.map (·.1.qualified)) (operations steps) ∧
      (tables.map fun name => m.targetOf (schema, name)) = made.map fun x => .ok x.1.qualified := by
  induction h with
  | nil => exact ⟨.nil, rfl⟩
  | cons head tail ih =>
    obtain ⟨hmakes, hname⟩ := head.makes hschema
    rw [operations_append, List.map_cons, List.map_cons, List.map_cons, hname, ih.2]
    exact ⟨hmakes.append ih.1, rfl⟩

def PlannedSchema.names (p : PlannedSchema) : List QualifiedName := p.tables.map (·.qualified)

theorem quiet_createSchema {schema text : String} (h : Statement.createSchema schema = .ok text) :
    Quiet (.execute text) := by
  obtain ⟨name, -, h⟩ := Outcome.bind_ok h
  obtain rfl := Except.ok.inj h
  exact quiet_of_begins (begins_append _ _) (by decide) (by decide) (by decide)

theorem SchemaMade.makes {schema : String} {planned : PlannedSchema}
    (full : source.isSchemaEmpty schema = .ok false)
    (h : SchemaMade m source schema planned steps) :
    Makes planned.names (operations steps) ∧
      (source.tablesOf schema).map m.targetOf = planned.names.map .ok := by
  cases h with
  | @intro target create tables made tableSteps indexSteps l l' names created listed filled
      indexed =>
    obtain ⟨hmakes, hnames⟩ := filled.makes names
    have hplanned : PlannedSchema.names ⟨schema, target, made.map (·.1), made.flatMap (·.2)⟩ =
        made.map (·.1.qualified) :=
      List.map_map
    rw [hplanned, Source.tablesOf_full full listed, List.map_map, List.map_map]
    refine ⟨?_, hnames⟩
    rw [operations_cons, operations_append]
    have hall := hmakes.append ((indexesDraft_altering m source schema).makes indexed)
    rw [List.append_nil] at hall
    exact .quiet (quiet_createSchema created) hall

theorem SchemasMade.makes {listed : List Schema} {planned : List PlannedSchema}
    (h : SchemasMade m source listed planned steps) :
    Makes (planned.flatMap PlannedSchema.names) (operations steps) ∧
      (listed.flatMap fun s => source.tablesOf s.name).map m.targetOf =
        (planned.flatMap PlannedSchema.names).map .ok := by
  induction h with
  | nil => exact ⟨.nil, rfl⟩
  | @passed schema schemas planned steps empty tail ih =>
    have hnone : source.tablesOf schema.name = [] := by rw [Source.tablesOf, empty]
    rw [List.flatMap_cons, hnone, List.nil_append]
    exact ih
  | cons full head tail ih =>
    obtain ⟨hmakes, hnames⟩ := head.makes full
    rw [operations_append, List.flatMap_cons, List.flatMap_cons, List.map_append, List.map_append,
      hnames, ih.2]
    exact ⟨hmakes.append ih.1, rfl⟩

/-- A plan that ends with its schemas makes the tables that the source lists, in order, under the
names of the policy. -/
theorem PlanMade.makes {schemas : List PlannedSchema} (h : PlanMade m source schemas steps) :
    Makes (schemas.flatMap PlannedSchema.names) (operations steps) ∧
      source.listed.map m.targetOf = (schemas.flatMap PlannedSchema.names).map .ok := by
  cases h with
  | @intro listed schemas made keySteps l l' done answered filled keys =>
    obtain ⟨hmakes, hnames⟩ := filled.makes
    have hall := hmakes.append ((foreignKeysDraft_altering m _).makes keys)
    rw [List.append_nil] at hall
    rw [operations_append, Source.listed, answered]
    exact ⟨hall, hnames⟩

end Plan

/-! ## The statements of modules -/

/-- The operation is the definition of a module of the source, with its names substituted. -/
def Source.Defines (source : Source) (op : Operation) : Prop :=
  ∃ schema kind modules x ledger reserved text, source.modules schema kind = .ok modules ∧
    x ∈ modules ∧ substituteNames x.definition ledger reserved = .ok text ∧ op = .execute text

/-- The operation drops the view of some name. -/
def DropsView (op : Operation) : Prop :=
  ∃ schema view text, Statement.dropView schema view = .ok text ∧ op = .execute text

theorem DropsView.quiet {op : Operation} (h : DropsView op) : Quiet op := by
  obtain ⟨schema, view, text, hdrop, rfl⟩ := h
  obtain ⟨name, -, hdrop⟩ := Outcome.bind_ok hdrop
  obtain rfl := Except.ok.inj hdrop
  exact quiet_of_begins (begins_append _ _) (by decide) (by decide) (by decide)

namespace Plan

variable {m : RunSettings} {source : Source}

/-- The step drops a view, or executes the definition of a module. -/
def ModuleStep (source : Source) (s : Step) : Prop :=
  ∃ text, s = .execute text ∧ (DropsView (.execute text) ∨ source.Defines (.execute text))

theorem moduleDraft_steps {schema : String} {kind : ModuleKind} {modules : List Module} {x : Module}
    (hmodules : source.modules schema kind = .ok modules) (hx : x ∈ modules)
    (targetSchema : String) (reserved : List String) :
    Draft.All (ModuleStep source) (moduleDraft m targetSchema reserved x) := by
  have hdefinition (ledger : Ledger) :
      Draft.All (ModuleStep source) (.execute (substituteNames x.definition ledger reserved)) :=
    .execute fun text htext => ⟨text, rfl,
      .inr ⟨schema, kind, modules, x, ledger, reserved, text, hmodules, hx, htext, rfl⟩⟩
  unfold moduleDraft
  refine .bind (.rename _) fun name => ?_
  split
  · refine .bind (.execute fun text htext => ?_) fun _ => .bind .ledger hdefinition
    exact ⟨text, rfl, .inl ⟨targetSchema, name, text, htext, rfl⟩⟩
  · exact .bind .ledger hdefinition

theorem attemptListed_steps {schema : String} {kind : ModuleKind} {modules : List Module}
    (hmodules : source.modules schema kind = .ok modules) (targetSchema : String)
    (reserved : List String) (ledger : Ledger) {listed : List Module} (hlisted : listed ⊆ modules) :
    ∀ a ∈ (attemptListed m targetSchema reserved kind listed ledger).1,
      ∀ s ∈ a.steps, ModuleStep source s := by
  induction listed generalizing ledger with
  | nil => simp [attemptListed]
  | cons x rest ih =>
    rw [List.cons_subset] at hlisted
    intro a ha
    rcases List.mem_cons.mp ha with rfl | ha
    · exact moduleDraft_steps hmodules hlisted.1 targetSchema reserved ledger
    · exact ih _ hlisted.2 a ha

theorem attemptAll_steps (reserved : List String) (listings : List (PlannedSchema × ModuleKind))
    (ledger : Ledger) :
    ∀ a ∈ (attemptAll m source reserved listings ledger).list,
      ∀ s ∈ a.steps, ModuleStep source s := by
  induction listings generalizing ledger with
  | nil => simp [attemptAll]
  | cons listing rest ih =>
    intro a ha
    rw [attemptAll] at ha
    split at ha
    · exact absurd ha List.not_mem_nil
    · rename_i modules hmodules
      rcases List.mem_append.mp ha with ha | ha
      · exact attemptListed_steps hmodules _ _ _ (List.Subset.refl _) a ha
      · exact ih _ a ha

theorem attemptAll_operations (reserved : List String)
    (listings : List (PlannedSchema × ModuleKind)) (ledger : Ledger) :
    ∀ a ∈ (attemptAll m source reserved listings ledger).list,
      ∀ op ∈ operations a.steps, DropsView op ∨ source.Defines op := by
  intro a ha op hop
  obtain ⟨s, hs, hsop⟩ := List.mem_filterMap.mp hop
  obtain ⟨text, rfl, hmodule⟩ := attemptAll_steps reserved listings ledger a ha s hs
  cases hsop
  exact hmodule

end Plan

/-! ## Whole runs -/

namespace Run

variable {σ : Type} {target : Target σ} {pace : Pace}

/-- A plan that is followed to a report: its steps are taken, then only operations of its attempts
are sent, and the report has the tables of its schemas. -/
theorem follow_ok {m : RunSettings} {start : DateTime} {r final : Run σ} {p : Plan}
    {report : Report} (h : r.follow m target pace start p = (final, .ok report)) :
    ∃ schemas attempts more, p.outcome = .ok (schemas, attempts) ∧
      final.sent.toList = r.sent.toList ++ operations p.steps ++ more ∧
      (∀ op ∈ more, ∃ a ∈ attempts.list, op ∈ operations a.steps) ∧
      report.tables = schemas.flatMap (·.tables) := by
  obtain ⟨mid, schemas, attempts, skipped, htaken, houtcome, htried, -, rfl⟩ := follow_report h
  obtain ⟨more, hmore, hof⟩ := @tryAll_sent σ m target pace attempts.list mid
  rw [htried, htaken.sent] at hmore
  exact ⟨schemas, attempts, more, houtcome, hmore, hof, rfl⟩

end Run

/-- In a migration that succeeds every table that the source lists is made, in order and under the
name of the policy, before the modules; and no table is dropped after it was created exactly where
the policy gives no two of the listed tables one name. -/
theorem migrate_keepsTables_iff {σ : Type} {m : RunSettings} {source : Source} {target : Target σ}
    {pace : Pace} {start : DateTime} {initial : σ} {run : Run σ} {report : Report}
    (hlisted : source.listed.Nodup)
    (h : migrate m source target pace start initial = (run, .ok report)) :
    ∃ made modules, run.sent.toList = made ++ modules ∧
      (∀ op ∈ modules, Quiet op ∨ source.Defines op) ∧
      Makes (report.tables.map (·.qualified)) made ∧
      source.listed.map m.targetOf = (report.tables.map (·.qualified)).map .ok ∧
      (KeepsTables made ↔ ∀ x ∈ source.listed, ∀ y ∈ source.listed,
        m.targetOf x = m.targetOf y → x = y) := by
  obtain ⟨schemas, attempts, modules, houtcome, hsent, hof, htables⟩ := Run.follow_ok h
  rcases hdrafted : Plan.schemasDraft m source .empty with ⟨steps, ledger, outcome⟩
  cases outcome with
  | error e =>
    simp only [Plan.ofSource, hdrafted] at houtcome
    cases houtcome
  | ok planned =>
    simp only [Plan.ofSource, hdrafted] at houtcome hsent
    cases houtcome
    obtain ⟨hmakes, hnames⟩ := (Plan.planMade hdrafted).makes
    have hreported :
        report.tables.map (·.qualified) = schemas.flatMap Plan.PlannedSchema.names := by
      rw [htables, List.map_flatMap]
      rfl
    rw [hreported]
    refine ⟨operations steps, modules, by simpa using hsent, fun op hop => ?_, hmakes, hnames, ?_⟩
    · obtain ⟨a, ha, hop⟩ := hof op hop
      exact (Plan.attemptAll_operations _ _ _ a ha op hop).imp_left DropsView.quiet
    · -- the tables made are those listed, by their target names, so no two share a name there
      rw [hmakes.keepsTables_iff, ← List.nodup_map_iff fun _ _ => Except.ok.inj, ← hnames]
      exact List.nodup_map_iff_inj_on hlisted

def twoTables (first second : String) : Memory.Catalog :=
  let columns : List Column := [{ name := "Id", type := some .int32 }]
  { schemas := [{ name := "dbo", tables := [{ name := first, columns, rows := [[.int32 1]] },
                                           { name := second, columns, rows := [[.int32 2]] }] }] }

set_option maxRecDepth 100000 in
/-- A migration to which `migrate_keepsTables_iff` applies, and which keeps its tables. -/
theorem distinct_tables_are_kept :
    (twoTables "Orders" "Items").source.listed.Nodup ∧
      ∃ run report made modules,
        migrate {} (twoTables "Orders" "Items").source (Memory.target {}) {}
          (DateTime.ofNanos 0) {} = (run, .ok report) ∧
        run.sent.toList = made ++ modules ∧ KeepsTables made := by
  have hlisted : (twoTables "Orders" "Items").source.listed.Nodup := by decide +kernel
  have hsucceeds : (migrate {} (twoTables "Orders" "Items").source (Memory.target {}) {}
      (DateTime.ofNanos 0) {}).2.isOk = true := by decide +kernel
  refine ⟨hlisted, ?_⟩
  rcases h : migrate {} (twoTables "Orders" "Items").source (Memory.target {}) {}
    (DateTime.ofNanos 0) {} with ⟨run, e | report⟩
  · rw [h] at hsucceeds
    cases hsucceeds
  · obtain ⟨made, modules, hsent, -, -, -, hiff⟩ := migrate_keepsTables_iff hlisted h
    exact ⟨run, report, made, modules, rfl, hsent, hiff.mpr (by decide +kernel)⟩

set_option maxRecDepth 100000 in
/-- Two tables whose target names are the same: the migration succeeds, and the second is made by
dropping the first with its row. -/
theorem colliding_tables_lose_rows :
    let source := (twoTables "OrderItems" "order_items").source
    let migrated := migrate {} source (Memory.target {}) {} (DateTime.ofNanos 0) {}
    source.listed = [("dbo", "OrderItems"), ("dbo", "order_items")] ∧ migrated.2.isOk = true ∧
      RunSettings.targetOf {} ("dbo", "OrderItems") = .ok ("public", "order_items") ∧
      RunSettings.targetOf {} ("dbo", "order_items") = .ok ("public", "order_items") ∧
      ¬ KeepsTables migrated.1.sent.toList := by
  intro source migrated
  have hcreate : migrated.1.sent.toList[2]? =
      some (.execute "CREATE TABLE \"public\".\"order_items\" (\n    \"id\" integer NULL\n)") := by
    decide +kernel
  have hdrop : migrated.1.sent.toList[8]? =
      some (.execute "DROP TABLE IF EXISTS \"public\".\"order_items\"") := by
    decide +kernel
  refine ⟨by decide +kernel, by decide +kernel, by decide +kernel, by decide +kernel,
    fun hkept => ?_⟩
  -- the first table is created third, filled, and dropped ninth
  obtain ⟨hcreateAt, hcreate⟩ := List.getElem?_eq_some_iff.mp hcreate
  obtain ⟨hdropAt, hdrop⟩ := List.getElem?_eq_some_iff.mp hdrop
  have hpair := List.pairwise_iff_getElem.mp hkept 2 8 hcreateAt hdropAt (by decide)
    ("public", "order_items")
  rw [hcreate, hdrop] at hpair
  exact hpair ⟨[⟨"id", "integer", true⟩], _, rfl, rfl⟩ ⟨_, rfl, rfl⟩

end Migration
