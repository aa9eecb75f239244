import Migration.Memory.Catalog
import Migration.Memory.Store
import Migration.Proofs.ModuleTurns
import Migration.Proofs.TableLoss

/-
  Tables that are dropped and not created again.

  The names and types of the columns of a table are found before the table is dropped, but
  the statement that creates it is written after the drop was executed, and may fail for
  want of columns or for a name that cannot be quoted. This file

  1. says when that statement fails (`createTable_error_iff`);
  2. proves of each draft of a plan that it makes tables, each created right after its
     drop, unless it ends at the drop of one that cannot be created
     (`Draft.Recreates`, `Plan.schemasDraft_recreates`);
  3. concludes that in a migration every drop that is executed is followed at once by the
     creation of the table, exactly where the plan does not end at such a table
     (`migrate_recreates_iff`); a table can be lost that way
     (`table_without_columns_is_lost`). -/

namespace Migration

open Naming (Ledger)

/-! ## Creations that cannot be written -/

theorem Outcome.not_exists_error {α : Type} (a : α) :
    ¬ ∃ e, (Except.ok a : Outcome α) = .error e := by
  rintro ⟨e, h⟩
  cases h

theorem quotePg_error_iff {name : String} :
    (∃ e, quotePg name = .error e) ↔ (identifierFault? name).isSome := by
  rw [quotePg, validateIdentifier]
  cases identifierFault? name with
  | none => exact iff_of_false (Outcome.not_exists_error _) (by simp)
  | some fault => exact iff_of_true ⟨_, rfl⟩ rfl

theorem Outcome.each_error_iff {α β : Type} {step : α → Outcome β} {items : List α} :
    (∃ e, Outcome.each step items = .error e) ↔ ∃ a ∈ items, ∃ e, step a = .error e := by
  induction items with
  | nil => exact iff_of_false (Outcome.not_exists_error _) (by simp)
  | cons a rest ih =>
    rw [List.exists_mem_cons_iff, ← ih, Outcome.each]
    cases hstep : step a with
    | error e => exact iff_of_true ⟨e, rfl⟩ (.inl ⟨e, rfl⟩)
    | ok b =>
      cases hrest : Outcome.each step rest with
      | error e => exact iff_of_true ⟨e, rfl⟩ (.inr ⟨e, rfl⟩)
      | ok bs => exact iff_of_false (Outcome.not_exists_error _) (by simp)

theorem columnLine_error_iff {c : ColumnDefinition} :
    (∃ e, Statement.columnLine c = .error e) ↔ (identifierFault? c.name).isSome := by
  rw [← quotePg_error_iff, Statement.columnLine]
  cases quotePg c.name with
  | error e => exact iff_of_true ⟨e, rfl⟩ ⟨e, rfl⟩
  | ok name => exact iff_of_false (Outcome.not_exists_error _) (Outcome.not_exists_error _)

/-- A table that can be dropped cannot be created where it has no columns, or a column whose name
cannot be quoted. -/
theorem createTable_error_iff {schema table drop : String} {columns : List ColumnDefinition}
    (hdrop : Statement.dropTable schema table = .ok drop) :
    (∃ e, Statement.createTable schema table columns = .error e) ↔
      columns = [] ∨ ∃ c ∈ columns, (identifierFault? c.name).isSome := by
  obtain ⟨name, hname, -⟩ := dropTable_ok hdrop
  rw [Statement.createTable]
  cases columns with
  | nil => exact iff_of_true ⟨_, rfl⟩ (.inl rfl)
  | cons c rest =>
    have hlines := @Outcome.each_error_iff _ _ Statement.columnLine (c :: rest)
    simp only [columnLine_error_iff] at hlines
    rw [or_iff_right (List.cons_ne_nil c rest), ← hlines, if_neg (by simp), hname]
    cases Outcome.each Statement.columnLine (c :: rest) with
    | error e => exact iff_of_true ⟨e, rfl⟩ ⟨e, rfl⟩
    | ok lines => exact iff_of_false (Outcome.not_exists_error _) (Outcome.not_exists_error _)

/-- A table of the source whose columns all have names and types, which can be dropped and not
created: it has no columns, or one whose target name cannot be quoted. -/
inductive Plan.Uncreatable (m : RunSettings) (source : Source) :
    QualifiedName → String → MigrationError → Prop where
  | intro {x name : QualifiedName} {columns : List Column} {definitions : List ColumnDefinition}
      {drop : String} {e : MigrationError} (listed : x ∈ source.listed)
      (named : m.targetOf x = .ok name) (answered : source.columns x.1 x.2 = .ok columns)
      (defined : List.Forall₂ (Plan.ColumnDefined m x.1 x.2) columns definitions)
      (dropped : Statement.dropTable name.1 name.2 = .ok drop)
      (refused : Statement.createTable name.1 name.2 definitions = .error e)
      (fault : definitions = [] ∨ ∃ d ∈ definitions, (identifierFault? d.name).isSome) :
      Plan.Uncreatable m source x drop e

/-! ## Drafts that make tables -/

namespace Draft

variable {α β : Type} {m : RunSettings} {source : Source} {l : Ledger}

/-- From these renamings the draft makes tables, each created right after its drop, unless it ends
at the drop of one that cannot be created. -/
def RecreatesFrom (m : RunSettings) (source : Source) (d : Draft α) (l : Ledger) : Prop :=
  (∃ names, Makes names (operations (d l).steps)) ∨
    ∃ names before x drop e, Makes names (operations before) ∧ Plan.Uncreatable m source x drop e ∧
      (d l).steps = before ++ [.execute drop] ∧ (d l).outcome = .error e

/-- The draft makes tables in this way whatever was renamed before. -/
def Recreates (m : RunSettings) (source : Source) (d : Draft α) : Prop :=
  ∀ l, RecreatesFrom m source d l

theorem All.recreates {d : Draft α} (h : All (Step.AsksOnly Quiet) d) : Recreates m source d :=
  fun l => .inl ⟨[], makes_of_quiet (h.forall_operations (l := l) rfl)⟩

theorem Recreates.bind {d : Draft α} {f : α → Draft β} (hd : Recreates m source d)
    (hf : ∀ {l mid steps a}, d l = ⟨steps, mid, .ok a⟩ → RecreatesFrom m source (f a) mid) :
    Recreates m source (d >>= f) := by
  intro l
  have hfirst := hd l
  rcases hdrafted : d l with ⟨first, mid, e | a⟩
  · rw [RecreatesFrom, hdrafted] at hfirst
    rw [RecreatesFrom, bind_of_error hdrafted]
    rcases hfirst with hmakes | ⟨names, before, x, drop, e', hmakes, hx, hsteps, houtcome⟩
    · exact .inl hmakes
    · exact .inr ⟨names, before, x, drop, e', hmakes, hx, hsteps,
        congrArg _ (Except.error.inj houtcome)⟩
  · rw [RecreatesFrom, hdrafted] at hfirst
    -- a draft that ends with a value did not end at a drop
    obtain ⟨names, hmakes⟩ : ∃ names, Makes names (operations first) := by
      rcases hfirst with hmakes | ⟨_, _, _, _, _, -, -, -, houtcome⟩
      · exact hmakes
      · cases houtcome
    rw [RecreatesFrom, bind_of_ok hdrafted]
    rcases hf hdrafted with
      ⟨names', hlater⟩ | ⟨names', before, x, drop, e, hlater, hx, hsteps, houtcome⟩
    · refine .inl ⟨names ++ names', ?_⟩
      rw [operations_append]
      exact hmakes.append hlater
    · refine .inr ⟨names ++ names', first ++ before, x, drop, e, ?_, hx, ?_, houtcome⟩
      · rw [operations_append]
        exact hmakes.append hlater
      · rw [hsteps, List.append_assoc]

theorem Recreates.pure (a : α) : Recreates m source (pure a : Draft α) := (All.pure a).recreates

theorem Recreates.ofOutcome (o : Outcome α) : Recreates m source (ofOutcome o) :=
  (All.ofOutcome o).recreates

theorem Recreates.rename (r : Naming.Renames α) : Recreates m source (rename r) :=
  (All.rename r).recreates

theorem Recreates.each {f : α → Draft β} {items : List α}
    (hf : ∀ a ∈ items, Recreates m source (f a)) : Recreates m source (each f items) := by
  induction items with
  | nil => exact Recreates.pure []
  | cons a rest ih =>
    obtain ⟨hfirst, hrest⟩ := List.forall_mem_cons.mp hf
    exact hfirst.bind fun _ => (ih hrest).bind (fun _ => Recreates.pure _ _) _

theorem recreatesFrom_table {drop create : Outcome String} {rest : Draft α}
    (hrest : Recreates m source rest)
    (hcreated : ∀ {sql text}, drop = .ok sql → create = .ok text →
      ∃ name, Drops name (.execute sql) ∧ Creates name (.execute text))
    (hrefused : ∀ {sql e}, drop = .ok sql → create = .error e →
      ∃ x, Plan.Uncreatable m source x sql e) (l : Ledger) :
    RecreatesFrom m source (do .execute drop; .execute create; rest) l := by
  cases drop with
  | error e => exact .inl ⟨[], .nil⟩
  | ok sql =>
    have hdrop : execute (.ok sql) l = ⟨[.execute sql], l, .ok ()⟩ := rfl
    cases create with
    | error e =>
      obtain ⟨x, hx⟩ := hrefused rfl rfl
      exact .inr ⟨[], [], x, sql, e, .nil, hx, rfl, rfl⟩
    | ok text =>
      have hcreate : execute (.ok text) l = ⟨[.execute text], l, .ok ()⟩ := rfl
      obtain ⟨name, hdrops, hcreates⟩ := hcreated rfl rfl
      rw [RecreatesFrom, bind_of_ok hdrop, bind_of_ok hcreate]
      rcases hrest l with ⟨names, hlater⟩ | ⟨names, before, x, drop, e, hlater, hx, hsteps, he⟩
      · exact .inl ⟨name :: names, .table hdrops hcreates hlater⟩
      · refine .inr ⟨name :: names, .execute sql :: .execute text :: before, x, drop, e,
          .table hdrops hcreates hlater, hx, ?_, he⟩
        rw [hsteps]
        rfl

end Draft

/-! ## The drafts of a plan -/

theorem Source.mem_listed {source : Source} {schemas : List Schema} {schema : Schema}
    {tables : List String} {table : String} (answered : source.schemas = .ok schemas)
    (hschema : schema ∈ schemas) (full : source.isSchemaEmpty schema.name = .ok false)
    (listed : source.tables schema.name = .ok tables) (htable : table ∈ tables) :
    (schema.name, table) ∈ source.listed := by
  rw [Source.listed, answered]
  refine List.mem_flatMap.mpr ⟨schema, hschema, ?_⟩
  rw [Source.tablesOf_full full listed]
  exact List.mem_map_of_mem htable

namespace Plan

variable (m : RunSettings) (source : Source)

theorem dataDraft_quiet (t : TablePair) :
    Draft.All (Step.AsksOnly Quiet) (dataDraft m source t) := by
  unfold dataDraft
  split
  · refine .bind (.ofOutcome _) fun job => .bind ?_ fun _ => .pure _
    intro l s hs op hop
    refine quiet_of_not_execute fun text htext => ?_
    cases hrows : source.rows job.query with
    | error e =>
      rw [hrows] at hs
      exact List.not_mem_nil hs
    | ok items =>
      rw [hrows] at hs
      cases s with
      | execute sql => exact execute_not_mem_steps job items sql hs
      | openCursor query => cases hop
      | fetch => cases hop
      | begin => cases htext ▸ hop
      | insert table number sql row => cases htext ▸ hop
      | commit => cases htext ▸ hop
      | report table rows estimated => cases hop
  · exact .pure _

theorem tableDraft_recreates {schema targetSchema table : String}
    (hlisted : (schema, table) ∈ source.listed)
    (hschema : m.policy.Names (schema, .schema, schema) targetSchema) :
    Draft.Recreates m source (tableDraft m source schema targetSchema table) := by
  unfold tableDraft
  refine (Draft.Recreates.ofOutcome _).bind fun {_ _ _ columns} hcolumns => ?_
  obtain ⟨hanswered, -, -⟩ := Draft.ofOutcome_ok hcolumns
  refine (Draft.Recreates.rename _).bind (fun {_ _ _ targetTable} htable => ?_) _
  obtain ⟨-, hnames⟩ := rename_names htable
  have hquiet : Draft.All (Step.AsksOnly Quiet) (.each (columnDraft m schema table) columns) :=
    columnDrafts_all schema table columns
  refine hquiet.recreates.bind
    (fun {_ _ _ definitions} hdefinitions => ?_) _
  obtain ⟨-, hdefined⟩ := columnsDefined hdefinitions
  -- all names and types are found by now, without a step
  have hrest : Draft.Recreates m source (do
      let pair : TablePair := { schema, table, targetSchema, targetTable, columns, definitions }
      let rows ← dataDraft m source pair
      partsDraft m source pair
      return (⟨targetSchema, targetTable, rows⟩ : TableReport)) :=
    (dataDraft_quiet m source _).recreates.bind fun _ =>
      (partsDraft_altering m source _).quiet.recreates.bind (fun _ => Draft.Recreates.pure _ _) _
  refine Draft.recreatesFrom_table hrest (fun hdrop hcreate => ?_) (fun hdrop hcreate => ?_) _
  · exact ⟨(targetSchema, targetTable), ⟨_, hdrop, rfl⟩, ⟨definitions, _, hcreate, rfl⟩⟩
  · have htarget : m.targetOf (schema, table) = .ok (targetSchema, targetTable) :=
      RunSettings.targetOf_of_names hschema hnames
    exact ⟨(schema, table), .intro hlisted htarget hanswered hdefined hdrop hcreate
      ((createTable_error_iff hdrop).mp ⟨_, hcreate⟩)⟩

theorem schemaDraft_recreates {schemas : List Schema} {schema : Schema}
    (answered : source.schemas = .ok schemas) (hschema : schema ∈ schemas) :
    Draft.Recreates m source (schemaDraft m source schema) := by
  unfold schemaDraft fullSchemaDraft linkedTableDraft
  refine (Draft.Recreates.ofOutcome _).bind fun {_ _ _ empty} hempty => ?_
  obtain ⟨hempty, -, -⟩ := Draft.ofOutcome_ok hempty
  cases empty with
  | true => exact Draft.Recreates.pure _ _
  | false =>
    refine Draft.Recreates.bind (fun _ => ?_) (fun _ => Draft.Recreates.pure _ _) _
    refine (Draft.Recreates.rename _).bind (fun {_ _ _ target} htarget => ?_) _
    obtain ⟨-, hnames⟩ := rename_names htarget
    refine (Draft.All.execute_asks fun _ => quiet_createSchema).recreates.bind (fun _ => ?_) _
    refine (Draft.Recreates.ofOutcome _).bind (fun {_ _ _ tables} htables => ?_) _
    obtain ⟨hlisted, -, -⟩ := Draft.ofOutcome_ok htables
    refine (Draft.Recreates.each fun table htable => ?_).bind (fun _ => ?_) _
    · refine (tableDraft_recreates m source ?_ hnames).bind fun _ => ?_
      · exact source.mem_listed answered hschema hempty hlisted htable
      · exact (Draft.Recreates.ofOutcome _).bind (fun _ => Draft.Recreates.pure _ _) _
    · exact (indexesDraft_altering m source _).quiet.recreates.bind
        (fun _ => Draft.Recreates.pure _ _) _

/-- A plan makes tables, each created right after its drop, unless it ends at the drop of one that
cannot be created. -/
theorem schemasDraft_recreates : Draft.Recreates m source (schemasDraft m source) := by
  unfold schemasDraft
  refine (Draft.Recreates.ofOutcome _).bind fun {_ _ _ listed} hlisted => ?_
  obtain ⟨answered, -, -⟩ := Draft.ofOutcome_ok hlisted
  refine (Draft.Recreates.each fun schema hschema => ?_).bind (fun _ => ?_) _
  · exact schemaDraft_recreates m source answered hschema
  · exact (foreignKeysDraft_altering m _).quiet.recreates.bind (fun _ => Draft.Recreates.pure _ _) _

end Plan

/-! ## Whole migrations -/

/-- The plan ends at the drop of a table that cannot be created. -/
def Plan.EndsAtDrop (m : RunSettings) (source : Source) : Prop :=
  ∃ x drop e, Plan.Uncreatable m source x drop e ∧
    (Plan.ofSource m source).steps.getLast? = some (.execute drop) ∧
    (Plan.ofSource m source).outcome = .error e

/-- In a plan a drop is followed by the creation of the table, unless the plan ends at it. -/
theorem Plan.creates_or_endsAtDrop {m : RunSettings} {source : Source} {i : Nat}
    {name : QualifiedName} {drop : Operation}
    (hat : (operations (Plan.ofSource m source).steps)[i]? = some drop) (hdrop : Drops name drop) :
    (∃ create, (operations (Plan.ofSource m source).steps)[i + 1]? = some create ∧
        Creates name create) ∨
      (operations (Plan.ofSource m source).steps)[i + 1]? = none ∧ Plan.EndsAtDrop m source := by
  have hsteps : (Plan.ofSource m source).steps = (schemasDraft m source .empty).steps := rfl
  rcases Plan.schemasDraft_recreates m source .empty with
    ⟨names, hmakes⟩ | ⟨names, before, x, sql, e, hmakes, hx, hlast, he⟩
  · exact .inl (hmakes.next hat hdrop)
  · have hops :
        operations (Plan.ofSource m source).steps = operations before ++ [.execute sql] := by
      rw [hsteps, hlast, operations_append]
      rfl
    rw [hops] at hat ⊢
    by_cases hi : i < (operations before).length
    · rw [List.getElem?_append_left hi] at hat
      obtain ⟨create, hnext, hcreates⟩ := hmakes.next hat hdrop
      refine .inl ⟨create, ?_, hcreates⟩
      rw [List.getElem?_append_left (List.getElem?_eq_some_iff.mp hnext).1, hnext]
    · refine .inr ⟨List.getElem?_eq_none (by simp; omega), x, sql, e, hx, ?_, ?_⟩
      · rw [hsteps, hlast, List.getLast?_concat]
      · rw [Plan.ofSource, he]
        rfl

theorem Plan.EndsAtDrop.last {m : RunSettings} {source : Source} (h : Plan.EndsAtDrop m source) :
    ∃ front name drop, operations (Plan.ofSource m source).steps = front ++ [drop] ∧
      Drops name drop := by
  obtain ⟨x, sql, e, ⟨listed, named, answered, defined, dropped, refused, fault⟩, hlast, -⟩ := h
  obtain ⟨front, hsteps⟩ := List.getLast?_eq_some_iff.mp hlast
  refine ⟨operations front, _, .execute sql, ?_, sql, dropped, rfl⟩
  rw [hsteps, operations_append]
  rfl

/-! ## Whole migrations -/

namespace Followed

variable {m : RunSettings} {source : Source} {outcome : Outcome Report} {planned : List Answered}
  {tried : List Tried}

theorem getElem?_planned (h : Followed m source outcome planned tried) {i : Nat}
    (hi : i < (operations (Plan.ofSource m source).steps).length) :
    (planned ++ tried.flatMap (·.log))[i]? = planned[i]? := by
  rcases h.complete with rfl | ⟨rfl, -⟩
  · rw [List.flatMap_nil, List.append_nil]
  · rw [List.getElem?_append_left]
    rwa [acceptedLog, List.length_map]

/-- What is sent beyond the operations of the plan is sent at the turns of modules. -/
theorem drop_planned (h : Followed m source outcome planned tried) :
    (planned ++ tried.flatMap (·.log)).drop (operations (Plan.ofSource m source).steps).length =
      tried.flatMap (·.log) := by
  rcases h.complete with rfl | ⟨rfl, -⟩
  · have hlength := h.halted.isPrefix.length_le
    rw [sentIn, List.length_map] at hlength
    rw [List.flatMap_nil, List.append_nil, List.drop_of_length_le hlength]
  · exact List.drop_left' (by rw [acceptedLog, List.length_map])

/-- At a turn only views are dropped and definitions of the source executed. -/
theorem modules (h : Followed m source outcome planned tried) :
    ∀ entry ∈ tried.flatMap (·.log), DropsView entry.1 ∨ source.Defines entry.1 := by
  intro entry hentry
  obtain ⟨t, ht, hentry⟩ := List.mem_flatMap.mp hentry
  rcases h.complete with rfl | ⟨-, ⟨schemas, attempts⟩, hplan⟩
  · exact absurd ht List.not_mem_nil
  · have hturn : t.turn.attempt m ∈ attempts.list := by
      rw [Plan.ofSource_turns hplan]
      exact List.mem_map_of_mem (h.isPrefix.subset (List.mem_map_of_mem ht))
    have hop : entry.1 ∈ operations (t.turn.attempt m).steps := by
      rw [Plan.Turn.operations_attempt]
      exact (h.fates t ht).sent_isPrefix.subset (List.mem_map_of_mem hentry)
    obtain ⟨steps, planned, -, -, rfl⟩ := Plan.ofSource_ok hplan
    exact Plan.attemptAll_operations _ _ _ _ hturn _ hop

theorem of_endsAtDrop (h : Followed m source outcome planned tried)
    (hends : Plan.EndsAtDrop m source) : tried = [] := by
  obtain ⟨x, sql, e, -, -, he⟩ := hends
  refine h.complete.resolve_right ?_
  rintro ⟨-, p, hp⟩
  rw [he] at hp
  cases hp

end Followed

/-- In a migration every drop of a table that is executed, up to the modules, is followed at once by
the creation of that table, exactly where the plan does not end at the drop of a table that cannot
be created, with all that was sent accepted. At the modules only views are dropped and definitions
of the source executed. -/
theorem migrate_recreates_iff {σ : Type} (m : RunSettings) (source : Source) (target : Target σ)
    (pace : Pace) (start : DateTime) (initial : σ) :
    let log := target.log initial (migrate m source target pace start initial).1.sent.toList
    let ops := operations (Plan.ofSource m source).steps
    ((∀ i < ops.length, ∀ name drop, log[i]? = some (drop, none) → Drops name drop →
        ∃ create answer, log[i + 1]? = some (create, answer) ∧ Creates name create) ↔
      ¬ (Plan.EndsAtDrop m source ∧ log = acceptedLog ops)) ∧
    ∀ entry ∈ log.drop ops.length, DropsView entry.1 ∨ source.Defines entry.1 := by
  intro log ops
  obtain ⟨planned, tried, hlog, hfollowed⟩ := migrate_followed m source target pace start initial
  change log = _ at hlog
  refine ⟨⟨?_, ?_⟩, ?_⟩
  · rintro hkept ⟨hends, hall⟩
    obtain ⟨front, name, drop, hops, hdrop⟩ := hends.last
    change ops = _ at hops
    have hlength : ops.length = front.length + 1 := by rw [hops, List.length_append]; rfl
    have hat : log[front.length]? = some (drop, none) := by
      rw [hall, acceptedLog, hops, List.getElem?_map, List.getElem?_concat_length]
      rfl
    obtain ⟨create, answer, hnext, -⟩ := hkept front.length (by omega) name drop hat hdrop
    -- nothing is sent after the last operation of the plan
    rw [hall, acceptedLog, List.getElem?_eq_none (by rw [List.length_map]; omega)] at hnext
    cases hnext
  · intro hstranded i hi name drop hat hdrop
    rw [hlog, hfollowed.getElem?_planned hi] at hat
    obtain ⟨hop, hsent⟩ := hfollowed.halted.next hat
    rcases Plan.creates_or_endsAtDrop hop hdrop with ⟨create, hcreate, hcreates⟩ | ⟨hnone, hends⟩
    · obtain ⟨answer, hnext⟩ : ∃ answer, planned[i + 1]? = some (create, answer) := by
        rcases hsent with rfl | ⟨op, answer, hop, hanswer⟩
        · exact ⟨none, by rw [acceptedLog, List.getElem?_map, hcreate]; rfl⟩
        · rw [hcreate] at hop
          obtain rfl := Option.some.inj hop
          exact ⟨answer, hanswer⟩
      refine ⟨create, answer, ?_, hcreates⟩
      rw [hlog, List.getElem?_append_left (List.getElem?_eq_some_iff.mp hnext).1, hnext]
    · refine absurd ⟨hends, ?_⟩ hstranded
      rcases hsent with rfl | ⟨op, answer, hop, -⟩
      · rw [hlog, hfollowed.of_endsAtDrop hends]
        exact List.append_nil _
      · rw [hnone] at hop
        cases hop
  · rw [hlog, hfollowed.drop_planned]
    exact hfollowed.modules

/-- A source with a table for which it lists no columns. -/
def bareTable : Memory.Catalog :=
  { schemas := [{ name := "dbo", tables := [{ name := "Log" }] }] }

/-- The log of its migration. -/
def bareTableLog : List Answered :=
  (Memory.target {}).log {}
    (migrate {} bareTable.source (Memory.target {}) {} (DateTime.ofNanos 0) {}).1.sent.toList

set_option maxRecDepth 100000 in
/-- A table without columns: its drop is executed, and the migration fails before the table is
created. -/
theorem table_without_columns_is_lost :
    bareTableLog =
        [(.execute "CREATE SCHEMA IF NOT EXISTS \"public\"", none),
         (.execute "DROP TABLE IF EXISTS \"public\".\"log\"", none)] ∧
      (migrate {} bareTable.source (Memory.target {}) {} (DateTime.ofNanos 0) {}).2.map
        Report.tables = .error (.config "Table public.log has no columns") ∧
      ¬ ∀ (i : Nat) (name : QualifiedName) (drop : Operation),
        bareTableLog[i]? = some (drop, none) → Drops name drop →
          ∃ create answer, bareTableLog[i + 1]? = some (create, answer) ∧ Creates name create := by
  have hlog : bareTableLog =
      [(.execute "CREATE SCHEMA IF NOT EXISTS \"public\"", none),
       (.execute "DROP TABLE IF EXISTS \"public\".\"log\"", none)] := by decide +kernel
  refine ⟨hlog, by decide +kernel, fun hkept => ?_⟩
  rw [hlog] at hkept
  obtain ⟨create, answer, hnext, -⟩ := hkept 1 ("public", "log") _ rfl ⟨_, rfl, rfl⟩
  cases hnext

end Migration
