import Migration.Proofs.Agreement
import Migration.Plan

/-
  With what a plan can fail, and whose names are in its ledger.

  One error says that a name has two target names. All renamings of a plan are of one
  policy, so its ledger refuses none, and the plan fails with that error only where the
  source answers with it. This file

  1. proves that statements and renamings never fail with it (`Unambiguous`,
     `FailsPlainly`);
  2. has drafts that keep the ledger to the policy and fail with nothing but plain errors
     and what the source answers (`Draft.Keeps`), and goes through the parts of a plan up
     to the draft of all schemas (`schemasDraft_keeps`). What a source may answer with is
     a parameter: with every error, and only the ledger is spoken of; with plain errors,
     and the plan fails with plain errors. -/

namespace Migration

open Naming (Ledger NamingPolicy Renames Renamed Renaming)

/-! ## Outcomes -/

/-- The outcome is a value or an admitted error. -/
def FailsWith {α : Type} (Admitted : MigrationError → Prop) (o : Outcome α) : Prop :=
  ∀ e, o = .error e → Admitted e

/-- The outcome is not the error that a name has two target names. -/
abbrev Unambiguous {α : Type} (o : Outcome α) : Prop := FailsWith (fun e => e.isAmbiguous = false) o

theorem isAmbiguous_false_true {e : MigrationError} (h : e.isAmbiguous = false)
    (h' : e.isAmbiguous = true) : False :=
  Bool.false_ne_true (h.symm.trans h')

section Outcomes

variable {α β : Type} {Admitted : MigrationError → Prop}

theorem failsWith_ok (a : α) : FailsWith Admitted (.ok a : Outcome α) := by
  intro e h
  cases h

theorem failsWith_error {e : MigrationError} (h : Admitted e) :
    FailsWith Admitted (.error e : Outcome α) := by
  intro e' h'
  cases h'
  exact h

theorem FailsWith.bind {o : Outcome α} {f : α → Outcome β} (h : FailsWith Admitted o)
    (hf : ∀ a, FailsWith Admitted (f a)) : FailsWith Admitted (o >>= f) := by
  cases o with
  | error e => exact failsWith_error (h e rfl)
  | ok a => exact hf a

theorem failsWith_each {f : α → Outcome β} (hf : ∀ a, FailsWith Admitted (f a))
    (items : List α) : FailsWith Admitted (Outcome.each f items) := by
  induction items with
  | nil => exact failsWith_ok []
  | cons a rest ih => exact (hf a).bind fun _ => ih.bind fun _ => failsWith_ok _

theorem unambiguous_atColumn (schema table column : String) (o : Outcome α) :
    Unambiguous (Plan.atColumn schema table column o) := by
  cases o with
  | error e => exact failsWith_error rfl
  | ok a => exact failsWith_ok a

end Outcomes

/-! ## Statements -/

namespace Statement

theorem unambiguous_refuse {α : Type} (fault : StatementFault) :
    Unambiguous (refuse fault : Outcome α) := failsWith_error rfl

theorem unambiguous_validateIdentifier (name : String) : Unambiguous (validateIdentifier name) := by
  unfold validateIdentifier
  split
  · exact failsWith_error rfl
  · exact failsWith_ok ()

theorem unambiguous_quotePg (name : String) : Unambiguous (quotePg name) :=
  (unambiguous_validateIdentifier name).bind fun _ => failsWith_ok _

theorem unambiguous_quoteMssql (name : String) : Unambiguous (quoteMssql name) :=
  (unambiguous_validateIdentifier name).bind fun _ => failsWith_ok _

theorem unambiguous_qualifyPg (schema name : String) : Unambiguous (qualifyPg schema name) :=
  (unambiguous_quotePg schema).bind fun _ => (unambiguous_quotePg name).bind fun _ =>
    failsWith_ok _

theorem unambiguous_qualifyMssql (schema name : String) : Unambiguous (qualifyMssql schema name) :=
  (unambiguous_quoteMssql schema).bind fun _ => (unambiguous_quoteMssql name).bind fun _ =>
    failsWith_ok _

theorem unambiguous_columnList (columns : List String) : Unambiguous (columnList columns) :=
  (failsWith_each unambiguous_quotePg columns).bind fun _ => failsWith_ok _

theorem unambiguous_createSchema (schema : String) : Unambiguous (createSchema schema) :=
  (unambiguous_quotePg schema).bind fun _ => failsWith_ok _

theorem unambiguous_dropTable (schema table : String) : Unambiguous (dropTable schema table) :=
  (unambiguous_qualifyPg schema table).bind fun _ => failsWith_ok _

theorem unambiguous_dropView (schema view : String) : Unambiguous (dropView schema view) :=
  (unambiguous_qualifyPg schema view).bind fun _ => failsWith_ok _

theorem unambiguous_createTable (schema table : String) (columns : List ColumnDefinition) :
    Unambiguous (createTable schema table columns) := by
  have hline (c : ColumnDefinition) : Unambiguous (columnLine c) :=
    (unambiguous_quotePg c.name).bind fun _ => failsWith_ok _
  unfold createTable
  split
  · exact unambiguous_refuse _
  · exact (unambiguous_qualifyPg schema table).bind fun _ => (failsWith_each hline columns).bind
      fun _ => failsWith_ok _

theorem unambiguous_addKey (words : String) (c : Constraint) : Unambiguous (addKey words c) := by
  unfold addKey
  split
  · exact unambiguous_refuse _
  · exact (unambiguous_qualifyPg _ _).bind fun _ => (unambiguous_quotePg _).bind fun _ =>
      (unambiguous_columnList _).bind fun _ => failsWith_ok _

theorem unambiguous_addForeignKey (c : Constraint) : Unambiguous (addForeignKey c) := by
  unfold addForeignKey
  split
  · exact unambiguous_refuse _
  · split
    · exact unambiguous_refuse _
    · split
      · exact unambiguous_refuse _
      · exact (unambiguous_qualifyPg _ _).bind fun _ => (unambiguous_quotePg _).bind fun _ =>
          (unambiguous_columnList _).bind fun _ => (unambiguous_qualifyPg _ _).bind fun _ =>
          (unambiguous_columnList _).bind fun _ => failsWith_ok _

theorem unambiguous_createIndex (i : Index) : Unambiguous (createIndex i) := by
  have hincluded (columns : List String) : Unambiguous (includeClause columns) := by
    unfold includeClause
    split
    · exact failsWith_ok ""
    · exact (unambiguous_columnList columns).bind fun _ => failsWith_ok _
  unfold createIndex
  split
  · exact unambiguous_refuse _
  · exact (unambiguous_quotePg _).bind fun _ => (unambiguous_qualifyPg _ _).bind fun _ =>
      (unambiguous_columnList _).bind fun _ => (hincluded _).bind fun _ => failsWith_ok _

theorem unambiguous_addIdentity (i : Identity) : Unambiguous (addIdentity i) :=
  (unambiguous_qualifyPg _ _).bind fun _ => (unambiguous_quotePg _).bind fun _ => failsWith_ok _

theorem unambiguous_setDefault (schema table column expression : String) :
    Unambiguous (setDefault schema table column expression) :=
  (unambiguous_qualifyPg _ _).bind fun _ => (unambiguous_quotePg _).bind fun _ => failsWith_ok _

theorem unambiguous_selectRows (schema table : String) (columns : List String) :
    Unambiguous (selectRows schema table columns) :=
  (failsWith_each unambiguous_quoteMssql columns).bind fun _ =>
    (unambiguous_qualifyMssql schema table).bind fun _ => failsWith_ok _

theorem unambiguous_countRows (schema table : String) : Unambiguous (countRows schema table) :=
  (unambiguous_qualifyMssql schema table).bind fun _ => failsWith_ok _

theorem unambiguous_insertRow (schema table : String) (columns : List ColumnDefinition) :
    Unambiguous (insertRow schema table columns) :=
  (failsWith_each unambiguous_quotePg _).bind fun _ => (unambiguous_qualifyPg schema table).bind
    fun _ => failsWith_ok _

end Statement

/-! ## Renamings -/

/-- The renaming fails with no ambiguity of its own. -/
def FailsPlainly {α : Type} (m : Renames α) : Prop := Unambiguous (m : Outcome (Renamed α))

section Renamings

variable {α β : Type} {policy : NamingPolicy}

theorem failsPlainly_pure (a : α) : FailsPlainly (pure a : Renames α) :=
  failsWith_ok (Renamed.mk a [])

theorem FailsPlainly.bind {m : Renames α} {f : α → Renames β} (h : FailsPlainly m)
    (hf : ∀ a, FailsPlainly (f a)) : FailsPlainly (m >>= f) := by
  change Unambiguous (Renames.andThen m f : Outcome (Renamed β))
  unfold Renames.andThen
  split
  · exact failsWith_error (h _ rfl)
  · rename_i first
    split
    · rename_i e he
      exact failsWith_error (hf first.value e he)
    · exact failsWith_ok _

theorem unambiguous_canonicalize (raw : String) : Unambiguous (Naming.canonicalize raw) := by
  unfold Naming.canonicalize
  dsimp only
  split
  · exact failsWith_error rfl
  · exact failsWith_ok _

theorem unambiguous_apply (kind : ObjectKind) (raw : String) :
    Unambiguous (policy.apply kind raw) := by
  unfold NamingPolicy.apply
  cases policy with
  | identity => exact failsWith_ok _
  | canonicalizing => exact unambiguous_canonicalize _

theorem failsPlainly_rename (schema : String) (kind : ObjectKind) (raw : String) :
    FailsPlainly (policy.rename schema kind raw) := by
  unfold NamingPolicy.rename
  split
  · rename_i e he
    exact failsWith_error (unambiguous_apply kind raw e he)
  · exact failsWith_ok _

theorem failsPlainly_renameOption (schema : String) (kind : ObjectKind) (raw : Option String) :
    FailsPlainly (policy.renameOption schema kind raw) := by
  cases raw with
  | none => exact failsPlainly_pure none
  | some raw => exact (failsPlainly_rename schema kind raw).bind fun _ => failsPlainly_pure _

theorem failsPlainly_renameSchemaOption (raw : Option String) :
    FailsPlainly (policy.renameSchemaOption raw) := by
  cases raw with
  | none => exact failsPlainly_pure none
  | some raw => exact (failsPlainly_rename raw .schema raw).bind fun _ => failsPlainly_pure _

theorem failsPlainly_renameColumns (schema : String) (raws : List String) :
    FailsPlainly (policy.renameColumns schema raws) := by
  induction raws with
  | nil => exact failsPlainly_pure []
  | cons raw rest ih =>
    exact (failsPlainly_rename schema .column raw).bind fun _ => ih.bind fun _ =>
      failsPlainly_pure _

theorem failsPlainly_renameConstraint (c : Constraint) :
    FailsPlainly (policy.renameConstraint c) := by
  unfold NamingPolicy.renameConstraint
  split
  · exact failsWith_error rfl
  · exact (failsPlainly_rename _ _ _).bind fun _ => (failsPlainly_rename _ _ _).bind fun _ =>
      (failsPlainly_rename _ _ _).bind fun _ => (failsPlainly_renameColumns _ _).bind fun _ =>
      (failsPlainly_renameSchemaOption _).bind fun _ => (failsPlainly_renameOption _ _ _).bind
      fun _ => (failsPlainly_renameColumns _ _).bind fun _ => failsPlainly_pure _

theorem failsPlainly_renameIndex (i : Index) : FailsPlainly (policy.renameIndex i) :=
  (failsPlainly_rename _ _ _).bind fun _ => (failsPlainly_rename _ _ _).bind fun _ =>
    (failsPlainly_rename _ _ _).bind fun _ => (failsPlainly_renameColumns _ _).bind fun _ =>
    (failsPlainly_renameColumns _ _).bind fun _ => failsPlainly_pure _

theorem failsPlainly_renameIdentity (i : Identity) : FailsPlainly (policy.renameIdentity i) :=
  (failsPlainly_rename _ _ _).bind fun _ => (failsPlainly_rename _ _ _).bind fun _ =>
    (failsPlainly_rename _ _ _).bind fun _ => failsPlainly_pure _

end Renamings

/-! ## Drafts -/

/-- From a ledger of the policy the draft comes to a ledger of the policy, and its errors are
admitted. -/
def Draft.Keeps {α : Type} (policy : NamingPolicy) (Admitted : MigrationError → Prop)
    (d : Draft α) : Prop :=
  ∀ l : Ledger, l.Follows policy → (d l).ledger.Follows policy ∧ FailsWith Admitted (d l).outcome

/-- All errors are admitted but, maybe, ambiguities. -/
def AdmitsPlain (Admitted : MigrationError → Prop) : Prop :=
  ∀ e : MigrationError, e.isAmbiguous = false → Admitted e

theorem FailsWith.admitted {α : Type} {Admitted : MigrationError → Prop} {o : Outcome α}
    (h : Unambiguous o) (hplain : AdmitsPlain Admitted) : FailsWith Admitted o :=
  fun e he => hplain e (h e he)

namespace Draft.Keeps

variable {α β : Type} {policy : NamingPolicy} {Admitted : MigrationError → Prop}

theorem pure (a : α) : Keeps policy Admitted (pure a : Draft α) :=
  fun _ hl => ⟨hl, failsWith_ok a⟩

theorem ofOutcome {o : Outcome α} (h : FailsWith Admitted o) :
    Keeps policy Admitted (.ofOutcome o) :=
  fun _ hl => ⟨hl, h⟩

theorem bind {m : Draft α} {f : α → Draft β} (hm : Keeps policy Admitted m)
    (hf : ∀ a, Keeps policy Admitted (f a)) : Keeps policy Admitted (m >>= f) := by
  intro l hl
  obtain ⟨hmid, houtcome⟩ := hm l hl
  change ((Draft.andThen m f l).ledger).Follows policy ∧
    FailsWith Admitted (Draft.andThen m f l).outcome
  rcases hml : m l with ⟨steps, mid, e | a⟩
  · rw [hml] at hmid houtcome
    simp only [Draft.andThen, hml]
    exact ⟨hmid, failsWith_error (houtcome e rfl)⟩
  · rw [hml] at hmid
    simp only [Draft.andThen, hml]
    exact hf a mid hmid

theorem each {f : α → Draft β} (hf : ∀ a, Keeps policy Admitted (f a)) (items : List α) :
    Keeps policy Admitted (.each f items) := by
  induction items with
  | nil => exact pure []
  | cons a rest ih => exact (hf a).bind fun _ => ih.bind fun _ => pure _

section

variable (hplain : AdmitsPlain Admitted)
include hplain

theorem plain {o : Outcome α} (h : Unambiguous o) : Keeps policy Admitted (.ofOutcome o) :=
  ofOutcome (h.admitted hplain)

theorem execute {sql : Outcome String} (h : Unambiguous sql) :
    Keeps policy Admitted (.execute sql) := by
  intro l hl
  cases sql with
  | error e => exact ⟨hl, failsWith_error (hplain e (h e rfl))⟩
  | ok text => exact ⟨hl, failsWith_ok ()⟩

/-- A ledger of the policy refuses no event of a renaming of the policy. -/
theorem rename {m : Renames α} (h : FailsPlainly m)
    (hmade : ∀ a events, m.Yields a events → ∀ r ∈ events, policy.Makes r) :
    Keeps policy Admitted (.rename m) := by
  intro l hl
  cases hm : (m : Outcome (Renamed α)) with
  | error e =>
    subst hm
    exact ⟨hl, failsWith_error (hplain e (h e rfl))⟩
  | ok renamed =>
    subst hm
    obtain ⟨after, hrecorded, hafter, -⟩ := hl.recordAll (hmade renamed.value renamed.events rfl)
    simp only [Draft.rename, hrecorded]
    exact ⟨hafter, failsWith_ok _⟩

end

end Draft.Keeps

/-! ## The parts of a plan -/

/-- Every answer of the source is a value or an admitted error. -/
structure Source.FailsWith (Admitted : MigrationError → Prop) (source : Source) : Prop where
  schemas : Migration.FailsWith Admitted source.schemas
  isSchemaEmpty : ∀ schema, Migration.FailsWith Admitted (source.isSchemaEmpty schema)
  tables : ∀ schema, Migration.FailsWith Admitted (source.tables schema)
  columns : ∀ schema table, Migration.FailsWith Admitted (source.columns schema table)
  primaryKey : ∀ schema table, Migration.FailsWith Admitted (source.primaryKey schema table)
  uniqueKeys : ∀ schema table, Migration.FailsWith Admitted (source.uniqueKeys schema table)
  foreignKeys : ∀ schema table, Migration.FailsWith Admitted (source.foreignKeys schema table)
  defaults :
    ∀ schema table column, Migration.FailsWith Admitted (source.defaults schema table column)
  identities : ∀ schema table, Migration.FailsWith Admitted (source.identities schema table)
  indexes : ∀ schema, Migration.FailsWith Admitted (source.indexes schema)
  statistics : ∀ schema, Migration.FailsWith Admitted (source.statistics schema)
  modules : ∀ schema kind, Migration.FailsWith Admitted (source.modules schema kind)
  scalar : ∀ query, Migration.FailsWith Admitted (source.scalar query)
  rows : ∀ query, Migration.FailsWith Admitted (source.rows query)

namespace Plan

variable {m : RunSettings} {source : Source} {Admitted : MigrationError → Prop}

section

variable (hplain : AdmitsPlain Admitted)
include hplain

theorem renameDraft_keeps {schema raw : String} {kind : ObjectKind} :
    Draft.Keeps m.policy Admitted (.rename (m.policy.rename schema kind raw)) :=
  .rename hplain (failsPlainly_rename schema kind raw) fun _ _ h => (Naming.made_rename h).made

theorem renameConstraintDraft_keeps (c : Constraint) :
    Draft.Keeps m.policy Admitted (.rename (m.policy.renameConstraint c)) :=
  .rename hplain (failsPlainly_renameConstraint c) fun _ _ h =>
    (Naming.made_renameConstraint h).made

theorem columnDraft_keeps (schema table : String) (c : Column) :
    Draft.Keeps m.policy Admitted (columnDraft m schema table c) :=
  .bind (renameDraft_keeps hplain) fun _ => .bind (.plain hplain (unambiguous_atColumn _ _ _ _))
    fun _ => .pure _

theorem copy_keeps (job : CopyJob) {rows : Outcome (List (Outcome Row))}
    (hrows : FailsWith Admitted rows) :
    Draft.Keeps m.policy Admitted (job.draft rows) := by
  intro l hl
  cases rows with
  | error e => exact ⟨hl, failsWith_error (hrows e rfl)⟩
  | ok items =>
    have hsteps (done : CopyCount) : Unambiguous (job.rowSteps done items).2 := by
      clear hrows
      induction items generalizing done with
      | nil => exact failsWith_ok _
      | cons item rest ih =>
        cases item with
        | error e => exact failsWith_error rfl
        | ok row =>
          rw [CopyJob.rowSteps]
          split
          · exact ih (job.counted done)
          · exact failsWith_error rfl
    exact ⟨hl, (hsteps {}).admitted hplain⟩

theorem keyDraft_keeps {statement : Constraint → Outcome String}
    (hstatement : ∀ c, Unambiguous (statement c)) (c : Constraint) :
    Draft.Keeps m.policy Admitted (keyDraft m statement c) :=
  .bind (renameConstraintDraft_keeps hplain c) fun renamed => .execute hplain (hstatement renamed)

theorem defaultDraft_keeps (t : TablePair) (column : Column) (definition : ColumnDefinition)
    (c : Constraint) : Draft.Keeps m.policy Admitted (defaultDraft m t column definition c) :=
  .bind (renameConstraintDraft_keeps hplain c) fun _ =>
    .bind (.plain hplain (unambiguous_atColumn _ _ _ _)) fun _ =>
    .execute hplain (Statement.unambiguous_setDefault _ _ _ _)

theorem identityDraft_keeps (i : Identity) :
    Draft.Keeps m.policy Admitted (identityDraft m i) :=
  .bind (.rename hplain (failsPlainly_renameIdentity i) fun _ _ h =>
      (Naming.made_renameIdentity h).made)
    fun _ => .execute hplain (Statement.unambiguous_addIdentity _)

variable (hsource : source.FailsWith Admitted)
include hsource

theorem dataDraft_keeps (t : TablePair) :
    Draft.Keeps m.policy Admitted (dataDraft m source t) := by
  have hjob : FailsWith Admitted (copyJob source t) :=
    ((Statement.unambiguous_countRows _ _).admitted hplain).bind fun _ =>
      (hsource.scalar _).bind fun _ =>
      ((Statement.unambiguous_selectRows _ _ _).admitted hplain).bind fun _ =>
      ((Statement.unambiguous_insertRow _ _ _).admitted hplain).bind fun _ => failsWith_ok _
  unfold dataDraft
  split
  · exact .bind (.ofOutcome hjob) fun job => .bind (copy_keeps hplain job (hsource.rows _)) fun _ =>
      .pure _
  · exact .pure none

theorem columnDefaultsDraft_keeps (t : TablePair) (column : Column × ColumnDefinition) :
    Draft.Keeps m.policy Admitted (columnDefaultsDraft m source t column) :=
  .bind (.ofOutcome (hsource.defaults _ _ _)) fun defaults =>
    .bind (.each (defaultDraft_keeps hplain t column.1 column.2) defaults) fun _ => .pure ()

theorem partsDraft_keeps (t : TablePair) :
    Draft.Keeps m.policy Admitted (partsDraft m source t) :=
  -- here and below, one bind for each line of the draft
  .bind (.ofOutcome (hsource.primaryKey _ _)) fun _ =>
    .bind (.each (keyDraft_keeps hplain (Statement.unambiguous_addKey _)) _) fun _ =>
    .bind (.ofOutcome (hsource.uniqueKeys _ _)) fun _ =>
    .bind (.each (keyDraft_keeps hplain (Statement.unambiguous_addKey _)) _) fun _ =>
    .bind (.each (columnDefaultsDraft_keeps hplain hsource t) _) fun _ =>
    .bind (.ofOutcome (hsource.identities _ _)) fun _ =>
    .bind (.each (identityDraft_keeps hplain) _) fun _ => .pure ()

theorem tableDraft_keeps (schema targetSchema table : String) :
    Draft.Keeps m.policy Admitted (tableDraft m source schema targetSchema table) :=
  .bind (.ofOutcome (hsource.columns _ _)) fun _ => .bind (renameDraft_keeps hplain) fun _ =>
    .bind (.each (columnDraft_keeps hplain schema table) _) fun _ =>
    .bind (.execute hplain (Statement.unambiguous_dropTable _ _)) fun _ =>
    .bind (.execute hplain (Statement.unambiguous_createTable _ _ _)) fun _ =>
    .bind (dataDraft_keeps hplain hsource _) fun _ =>
    .bind (partsDraft_keeps hplain hsource _) fun _ => .pure _

theorem linkedTableDraft_keeps (schema targetSchema table : String) :
    Draft.Keeps m.policy Admitted (linkedTableDraft m source schema targetSchema table) :=
  .bind (tableDraft_keeps hplain hsource schema targetSchema table) fun _ =>
    .bind (.ofOutcome (hsource.foreignKeys _ _)) fun _ => .pure _

theorem indexesDraft_keeps (schema : String) :
    Draft.Keeps m.policy Admitted (indexesDraft m source schema) := by
  have hrename (i : Index) : Draft.Keeps m.policy Admitted (.rename (m.policy.renameIndex i)) :=
    .rename hplain (failsPlainly_renameIndex i) fun _ _ h => (Naming.made_renameIndex h).made
  have hindex (i : Index) : Draft.Keeps m.policy Admitted (indexDraft i) :=
    .execute hplain (Statement.unambiguous_createIndex i)
  exact .bind (.ofOutcome (hsource.indexes _)) fun _ => .bind (.ofOutcome (hsource.statistics _))
    fun _ => .bind (.each hrename _) fun _ => .bind (.each hindex _) fun _ => .pure ()

theorem schemaDraft_keeps (schema : Schema) :
    Draft.Keeps m.policy Admitted (schemaDraft m source schema) := by
  have hfull : Draft.Keeps m.policy Admitted (fullSchemaDraft m source schema.name) :=
    .bind (renameDraft_keeps hplain) fun target =>
      .bind (.execute hplain (Statement.unambiguous_createSchema _)) fun _ =>
      .bind (.ofOutcome (hsource.tables _)) fun _ =>
      .bind (.each (linkedTableDraft_keeps hplain hsource schema.name target) _) fun _ =>
      .bind (indexesDraft_keeps hplain hsource _) fun _ => .pure _
  refine .bind (.ofOutcome (hsource.isSchemaEmpty _)) fun isEmpty => ?_
  cases isEmpty with
  | true => exact .pure none
  | false => exact .bind hfull fun _ => .pure _

theorem schemasDraft_keeps : Draft.Keeps m.policy Admitted (schemasDraft m source) :=
  .bind (.ofOutcome hsource.schemas) fun _ =>
    .bind (.each (schemaDraft_keeps hplain hsource) _) fun _ =>
    .bind (.each (keyDraft_keeps hplain Statement.unambiguous_addForeignKey) _) fun _ => .pure _

end

/-- Whatever a source answers, the ledger of a plan follows the policy. -/
theorem follows_of_schemasDraft (m : RunSettings) (source : Source) :
    (schemasDraft m source .empty).ledger.Follows m.policy := by
  have hany : source.FailsWith fun _ => True := by
    constructor
    all_goals
      intros
      exact fun _ _ => trivial
  exact (schemasDraft_keeps (fun _ _ => trivial) hany .empty (Ledger.follows_empty m.policy)).1

end Plan

end Migration
