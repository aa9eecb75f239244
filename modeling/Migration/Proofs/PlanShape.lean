import Migration.Proofs.BatchedCopy
import Migration.Proofs.Drafting
import Migration.Proofs.Quoting
import Migration.Proofs.Renaming

/-
  What a plan that ends with its schemas is made of.

  The draft of all schemas is opened here once, level by level: columns, the rows of a
  table, a table, a schema, all schemas. Each level is a relation between what the source
  lists, what the plan ends with, and the steps in between (`ColumnDefined`, `RowsMade`,
  `TableMade`, `SchemaMade`, `PlanMade`), so that a property of all steps is proved by
  induction on these relations, without the drafts. What follows the rows of a table and
  the indexes of a schema are left as drafts. -/

namespace Migration

open Naming (Ledger NamingPolicy)

theorem rename_names {policy : NamingPolicy} {schema raw name : String} {kind : ObjectKind}
    {l l' : Ledger} {steps : List Step}
    (h : Draft.rename (policy.rename schema kind raw) l = ⟨steps, l', .ok name⟩) :
    steps = [] ∧ policy.Names (schema, kind, raw) name := by
  obtain ⟨hsteps, events, hrenamed⟩ := Draft.rename_ok h
  exact ⟨hsteps, (Naming.made_rename hrenamed).carried_names⟩

namespace Plan

variable {m : RunSettings} {source : Source} {l l' : Ledger} {steps : List Step}

/-! ## Tables -/

/-- The definition of a column has the name of the policy and the type of the mapping. -/
structure ColumnDefined (m : RunSettings) (schema table : String) (c : Column)
    (d : ColumnDefinition) : Prop where
  names : m.policy.Names (schema, .column, c.name) d.name
  typed : atColumn schema table c.name ((postgresTypes m.citext).columnType c) = .ok d.typeLiteral
  nullable : d.isNullable = c.isNullable

/-- The names and types of columns are found without a step. -/
theorem columnDrafts_all {P : Step → Prop} (schema table : String) (columns : List Column) :
    Draft.All P (.each (columnDraft m schema table) columns) :=
  .each fun _ _ => .bind (.rename _) fun _ => .bind (.ofOutcome _) fun _ => .pure _

theorem columnsDefined {schema table : String} {columns : List Column}
    {definitions : List ColumnDefinition}
    (h : Draft.each (columnDraft m schema table) columns l = ⟨steps, l', .ok definitions⟩) :
    steps = [] ∧ List.Forall₂ (ColumnDefined m schema table) columns definitions := by
  refine Draft.each_ok (R := fun columns definitions steps =>
    steps = [] ∧ List.Forall₂ (ColumnDefined m schema table) columns definitions)
    ⟨rfl, .nil⟩ ?_ h
  rintro c d columns definitions l l' first rest - hc ⟨rfl, hdefined⟩
  obtain ⟨name, s₁, l₁, _, hname, h₁, rfl⟩ := Draft.bind_ok hc
  obtain ⟨typeLiteral, s₂, l₂, _, htype, h₂, rfl⟩ := Draft.bind_ok h₁
  obtain ⟨rfl, -, rfl⟩ := Draft.pure_ok h₂
  obtain ⟨rfl, hnames⟩ := rename_names hname
  obtain ⟨htyped, rfl, -⟩ := Draft.ofOutcome_ok htype
  exact ⟨rfl, .cons ⟨hnames, htyped, rfl⟩ hdefined⟩

/-- The rows of a table: passed over, or copied by a job that the source and the definitions of the
columns make. -/
inductive RowsMade (m : RunSettings) (source : Source) (t : TablePair) :
    Option Nat → List Step → Prop where
  | skipped (notCopied : m.copiesDataFor t.schema t.table = false) : RowsMade m source t none []
  | copied {job : CopyJob} {items : List (Outcome Row)} {copied : CopyCount}
      (copies : m.copiesDataFor t.schema t.table = true) (planned : copyJob source t = .ok job)
      (read : source.rows job.query = .ok items)
      (finished : (job.rowSteps {} items).2 = .ok copied) :
      RowsMade m source t (some copied.rows) (job.steps items)

theorem rowsMade {t : TablePair} {rows : Option Nat}
    (h : dataDraft m source t l = ⟨steps, l', .ok rows⟩) : RowsMade m source t rows steps := by
  unfold dataDraft at h
  split at h
  · rename_i hcopies
    obtain ⟨job, s₁, l₁, _, hjob, h₁, rfl⟩ := Draft.bind_ok h
    obtain ⟨copied, s₂, l₂, _, hcopy, h₂, rfl⟩ := Draft.bind_ok h₁
    obtain ⟨rfl, -, rfl⟩ := Draft.pure_ok h₂
    obtain ⟨hplanned, rfl, -⟩ := Draft.ofOutcome_ok hjob
    rw [List.append_nil]
    cases hread : source.rows job.query with
    | error e =>
      rw [hread] at hcopy
      cases hcopy
    | ok items =>
      rw [hread] at hcopy
      simp only [CopyJob.draft, Drafted.mk.injEq] at hcopy
      obtain ⟨rfl, -, hfinished⟩ := hcopy
      exact .copied hcopies hplanned hread hfinished
  · rename_i hcopies
    obtain ⟨rfl, -, rfl⟩ := Draft.pure_ok h
    exact .skipped (by simpa using hcopies)

theorem RowsMade.not_execute {t : TablePair} {rows : Option Nat}
    (h : RowsMade m source t rows steps) : ∀ op ∈ operations steps, ∀ text, op ≠ .execute text := by
  rintro op hop text rfl
  obtain ⟨s, hs, hsop⟩ := List.mem_filterMap.mp hop
  cases h with
  | skipped => exact List.not_mem_nil hs
  | @copied job items copied copies planned read finished =>
    cases s with
    | execute sql => exact execute_not_mem_steps job items sql hs
    | openCursor query => cases hsop
    | fetch => cases hsop
    | begin => cases hsop
    | insert table number sql row => cases hsop
    | commit => cases hsop
    | report table rows estimated => cases hsop

/-- A table is dropped and made with its columns, then filled, then given its other parts. -/
inductive TableMade (m : RunSettings) (source : Source) (schema targetSchema table : String) :
    TableReport × List Constraint → List Step → Prop where
  | intro {columns : List Column} {targetTable drop create : String}
      {definitions : List ColumnDefinition} {rows : Option Nat} {foreignKeys : List Constraint}
      {rowSteps partSteps : List Step} {l l' : Ledger}
      (listed : source.columns schema table = .ok columns)
      (names : m.policy.Names (schema, .table, table) targetTable)
      (defined : List.Forall₂ (ColumnDefined m schema table) columns definitions)
      (dropped : Statement.dropTable targetSchema targetTable = .ok drop)
      (created : Statement.createTable targetSchema targetTable definitions = .ok create)
      (filled : RowsMade m source ⟨schema, table, targetSchema, targetTable, columns, definitions⟩
        rows rowSteps)
      (parts : partsDraft m source
          ⟨schema, table, targetSchema, targetTable, columns, definitions⟩ l
        = ⟨partSteps, l', .ok ()⟩)
      (linked : source.foreignKeys schema table = .ok foreignKeys) :
      TableMade m source schema targetSchema table (⟨targetSchema, targetTable, rows⟩, foreignKeys)
        (.execute drop :: .execute create :: (rowSteps ++ partSteps))

theorem tableMade {schema targetSchema table : String} {made : TableReport × List Constraint}
    (h : linkedTableDraft m source schema targetSchema table l = ⟨steps, l', .ok made⟩) :
    TableMade m source schema targetSchema table made steps := by
  obtain ⟨report, s₀, l₀, _, htable, h₀, rfl⟩ := Draft.bind_ok h
  obtain ⟨foreignKeys, _, _, _, hkeys, hpair, rfl⟩ := Draft.bind_ok h₀
  obtain ⟨rfl, -, rfl⟩ := Draft.pure_ok hpair
  obtain ⟨hlinked, rfl, -⟩ := Draft.ofOutcome_ok hkeys
  obtain ⟨columns, s₁, l₁, _, hcolumns, h₁, rfl⟩ := Draft.bind_ok htable
  obtain ⟨name, s₂, l₂, _, hname, h₂, rfl⟩ := Draft.bind_ok h₁
  obtain ⟨definitions, s₃, l₃, _, hdefinitions, h₃, rfl⟩ := Draft.bind_ok h₂
  obtain ⟨_, s₄, l₄, _, hdrop, h₄, rfl⟩ := Draft.bind_ok h₃
  obtain ⟨_, s₅, l₅, _, hcreate, h₅, rfl⟩ := Draft.bind_ok h₄
  obtain ⟨rows, s₆, l₆, _, hrows, h₆, rfl⟩ := Draft.bind_ok h₅
  obtain ⟨_, s₇, l₇, _, hparts, h₇, rfl⟩ := Draft.bind_ok h₆
  obtain ⟨rfl, -, rfl⟩ := Draft.pure_ok h₇
  obtain ⟨hlisted, rfl, -⟩ := Draft.ofOutcome_ok hcolumns
  obtain ⟨rfl, hnames⟩ := rename_names hname
  obtain ⟨rfl, hdefined⟩ := columnsDefined hdefinitions
  obtain ⟨drop, hdropped, rfl⟩ := Draft.execute_ok hdrop
  obtain ⟨create, hcreated, rfl⟩ := Draft.execute_ok hcreate
  simp only [List.nil_append, List.append_nil, List.cons_append]
  exact .intro hlisted hnames hdefined hdropped hcreated (rowsMade hrows) hparts hlinked

inductive TablesMade (m : RunSettings) (source : Source) (schema targetSchema : String) :
    List String → List (TableReport × List Constraint) → List Step → Prop where
  | nil : TablesMade m source schema targetSchema [] [] []
  | cons {table : String} {tables : List String} {made : TableReport × List Constraint}
      {others : List (TableReport × List Constraint)} {first rest : List Step}
      (head : TableMade m source schema targetSchema table made first)
      (tail : TablesMade m source schema targetSchema tables others rest) :
      TablesMade m source schema targetSchema (table :: tables) (made :: others) (first ++ rest)

/-! ## Schemas -/

/-- A schema is made, then its tables, then its indexes. -/
inductive SchemaMade (m : RunSettings) (source : Source) (schema : String) :
    PlannedSchema → List Step → Prop where
  | intro {target create : String} {tables : List String}
      {made : List (TableReport × List Constraint)} {tableSteps indexSteps : List Step}
      {l l' : Ledger}
      (names : m.policy.Names (schema, .schema, schema) target)
      (created : Statement.createSchema target = .ok create)
      (listed : source.tables schema = .ok tables)
      (filled : TablesMade m source schema target tables made tableSteps)
      (indexed : indexesDraft m source schema l = ⟨indexSteps, l', .ok ()⟩) :
      SchemaMade m source schema ⟨schema, target, made.map (·.1), made.flatMap (·.2)⟩
        (.execute create :: (tableSteps ++ indexSteps))

theorem schemaMade {schema : String} {planned : PlannedSchema}
    (h : fullSchemaDraft m source schema l = ⟨steps, l', .ok planned⟩) :
    SchemaMade m source schema planned steps := by
  obtain ⟨target, s₁, l₁, _, hname, h₁, rfl⟩ := Draft.bind_ok h
  obtain ⟨_, s₂, l₂, _, hcreate, h₂, rfl⟩ := Draft.bind_ok h₁
  obtain ⟨tables, s₃, l₃, _, htables, h₃, rfl⟩ := Draft.bind_ok h₂
  obtain ⟨made, s₄, l₄, _, hmade, h₄, rfl⟩ := Draft.bind_ok h₃
  obtain ⟨_, s₅, l₅, _, hindexes, h₅, rfl⟩ := Draft.bind_ok h₄
  obtain ⟨rfl, -, rfl⟩ := Draft.pure_ok h₅
  obtain ⟨rfl, hnames⟩ := rename_names hname
  obtain ⟨create, hcreated, rfl⟩ := Draft.execute_ok hcreate
  obtain ⟨hlisted, rfl, -⟩ := Draft.ofOutcome_ok htables
  have hfilled : TablesMade m source schema target tables made s₄ :=
    Draft.each_ok .nil (fun _ hone htail => .cons (tableMade hone) htail) hmade
  simp only [List.nil_append, List.append_nil, List.cons_append]
  exact .intro hnames hcreated hlisted hfilled hindexes

/-- Schemas one after another; an empty one is passed over. -/
inductive SchemasMade (m : RunSettings) (source : Source) :
    List Schema → List PlannedSchema → List Step → Prop where
  | nil : SchemasMade m source [] [] []
  | passed {schema : Schema} {schemas : List Schema} {planned : List PlannedSchema}
      {steps : List Step} (empty : source.isSchemaEmpty schema.name = .ok true)
      (tail : SchemasMade m source schemas planned steps) :
      SchemasMade m source (schema :: schemas) planned steps
  | cons {schema : Schema} {schemas : List Schema} {one : PlannedSchema}
      {planned : List PlannedSchema} {first rest : List Step}
      (full : source.isSchemaEmpty schema.name = .ok false)
      (head : SchemaMade m source schema.name one first)
      (tail : SchemasMade m source schemas planned rest) :
      SchemasMade m source (schema :: schemas) (one :: planned) (first ++ rest)

theorem schemasMade {listed : List Schema} {planned : List (Option PlannedSchema)}
    (h : Draft.each (schemaDraft m source) listed l = ⟨steps, l', .ok planned⟩) :
    SchemasMade m source listed (planned.filterMap id) steps := by
  refine Draft.each_ok (R := fun listed planned steps =>
    SchemasMade m source listed (planned.filterMap id) steps) .nil ?_ h
  rintro schema one listed planned l l' first rest - hone htail
  obtain ⟨isEmpty, s₁, l₁, _, hempty, h₁, rfl⟩ := Draft.bind_ok hone
  obtain ⟨hanswer, rfl, -⟩ := Draft.ofOutcome_ok hempty
  cases isEmpty with
  | true =>
    -- an empty schema leaves neither steps nor a planned schema
    obtain ⟨rfl, -, rfl⟩ := Draft.pure_ok h₁
    exact .passed hanswer htail
  | false =>
    obtain ⟨full, s₂, l₂, _, hfull, h₂, rfl⟩ := Draft.bind_ok h₁
    obtain ⟨rfl, -, rfl⟩ := Draft.pure_ok h₂
    rw [List.nil_append, List.append_nil]
    exact .cons hanswer (schemaMade hfull) htail

inductive PlanMade (m : RunSettings) (source : Source) : List PlannedSchema → List Step → Prop where
  | intro {listed : List Schema} {schemas : List PlannedSchema} {made keySteps : List Step}
      {l l' : Ledger} {done : List Unit}
      (answered : source.schemas = .ok listed) (filled : SchemasMade m source listed schemas made)
      (keys : Draft.each (keyDraft m Statement.addForeignKey) (schemas.flatMap (·.foreignKeys)) l =
        ⟨keySteps, l', .ok done⟩) :
      PlanMade m source schemas (made ++ keySteps)

theorem planMade {schemas : List PlannedSchema}
    (h : schemasDraft m source l = ⟨steps, l', .ok schemas⟩) : PlanMade m source schemas steps := by
  obtain ⟨listed, s₁, l₁, _, hlisted, h₁, rfl⟩ := Draft.bind_ok h
  obtain ⟨planned, s₂, l₂, _, hplanned, h₂, rfl⟩ := Draft.bind_ok h₁
  obtain ⟨_, s₃, l₃, _, hkeys, h₃, rfl⟩ := Draft.bind_ok h₂
  obtain ⟨rfl, -, rfl⟩ := Draft.pure_ok h₃
  obtain ⟨hanswer, rfl, -⟩ := Draft.ofOutcome_ok hlisted
  rw [List.nil_append, List.append_nil]
  exact .intro hanswer (schemasMade hplanned) hkeys

end Plan

end Migration
