import Migration.Proofs.RowQueries
import Migration.Proofs.TableLoss

/-
  Which rows a migration copies, from the columns of the source to the commits on the
  target.

  For a table whose rows are copied the columns are listed once, and four lists are made
  of them: what the source query selects, the columns with which the table is created,
  the columns of the insert, and its parameters. This file

  1. writes these texts out, place by place (`TableCopied`), and derives them from the
     statements that a plan makes (`tableCopied`);
  2. says of steps which queries they ask and which rows they leave committed
     (`Fills`), for the parts that alter tables and for a copy that is finished, and by
     induction on what a plan is made of for a whole plan (`PlanMade.fills`);
  3. says what every run does with rows, also one that fails (`Step.CopiesRows`,
     `schemasDraft_copiesRows`);
  4. concludes that a migration which succeeds has copied the rows of the listed tables,
     each once and in order, and that it never asked for the rows of the others
     (`migrate_copies_all_rows`). -/

namespace Migration

open Memory (StoredRow)
open Naming (Ledger)

/-! ## Texts made of columns -/

namespace Statement

theorem castParameters_eq (first : Nat) (columns : List ColumnDefinition) :
    castParameters first columns =
      columns.mapIdx fun k c => "$" ++ toString (first + k) ++ "::" ++ c.typeLiteral := by
  induction columns generalizing first with
  | nil => rfl
  | cons c rest ih =>
    rw [castParameters, List.mapIdx_cons, ih]
    simp only [Nat.add_zero, Nat.add_assoc, Nat.add_comm 1]

theorem insertRow_ok {schema table text : String} {columns : List ColumnDefinition}
    (h : insertRow schema table columns = .ok text) :
    text = "INSERT INTO " ++ (enclosed '"' '"' schema ++ "." ++ enclosed '"' '"' table) ++ " (" ++
      commaJoined (columns.map fun c => enclosed '"' '"' c.name) ++ ") VALUES (" ++
      commaJoined (columns.mapIdx fun k c => "$" ++ toString (k + 1) ++ "::" ++ c.typeLiteral) ++
      ")" := by
  obtain ⟨names, hnames, h⟩ := Outcome.bind_ok h
  obtain ⟨name, hname, h⟩ := Outcome.bind_ok h
  rw [← Except.ok.inj h, qualifyPg_ok hname, Outcome.each_ok quotePg_ok hnames, List.map_map,
    castParameters_eq]
  simp only [Nat.add_comm 1]
  rfl

end Statement

namespace Plan

variable {m : RunSettings} {source : Source}

/-- A table of the source and the one that is created for it, column by column under the names of
the policy and with the types of the mapping. -/
structure TableCreated (m : RunSettings) (source : Source) (t : TablePair) (create : String) :
    Prop where
  listed : source.columns t.schema t.table = .ok t.columns
  named : m.targetOf (t.schema, t.table) = .ok (t.targetSchema, t.targetTable)
  defined : List.Forall₂ (ColumnDefined m t.schema t.table) t.columns t.definitions
  created : create = "CREATE TABLE " ++
    (enclosed '"' '"' t.targetSchema ++ "." ++ enclosed '"' '"' t.targetTable) ++ " (\n" ++
    String.intercalate ",\n" (t.definitions.map fun c => "    " ++ enclosed '"' '"' c.name ++ " " ++
      c.typeLiteral ++ (if c.isNullable then " NULL" else " NOT NULL")) ++ "\n)"

/-- A table whose rows are copied: the query selects the columns of the source in their order; the
insert names the columns of the target in the same order, and casts the parameter of each to the
type with which it is created. -/
structure TableCopied (m : RunSettings) (source : Source) (t : TablePair)
    (create query insert : String) : Prop extends TableCreated m source t create where
  copies : m.copiesDataFor t.schema t.table = true
  selects : query = "SELECT " ++
    Statement.commaJoined (t.columns.map fun c => enclosed '[' ']' c.name) ++ " FROM " ++
    (enclosed '[' ']' t.schema ++ "." ++ enclosed '[' ']' t.table)
  inserts : insert = "INSERT INTO " ++
    (enclosed '"' '"' t.targetSchema ++ "." ++ enclosed '"' '"' t.targetTable) ++ " (" ++
    Statement.commaJoined (t.definitions.map fun c => enclosed '"' '"' c.name) ++ ") VALUES (" ++
    Statement.commaJoined
      (t.definitions.mapIdx fun k c => "$" ++ toString (k + 1) ++ "::" ++ c.typeLiteral) ++ ")"

theorem tableCreated {t : TablePair} {create : String}
    (listed : source.columns t.schema t.table = .ok t.columns)
    (named : m.targetOf (t.schema, t.table) = .ok (t.targetSchema, t.targetTable))
    (defined : List.Forall₂ (ColumnDefined m t.schema t.table) t.columns t.definitions)
    (created : Statement.createTable t.targetSchema t.targetTable t.definitions = .ok create) :
    TableCreated m source t create := by
  obtain ⟨name, hname, htext⟩ := createTable_ok created
  refine ⟨listed, named, defined, ?_⟩
  rw [htext, qualifyPg_ok hname]

theorem tableCopied {t : TablePair} {create : String} {job : CopyJob}
    (created : TableCreated m source t create) (copies : m.copiesDataFor t.schema t.table = true)
    (planned : copyJob source t = .ok job) :
    TableCopied m source t create job.query job.insert := by
  obtain ⟨-, -, -, -, hquery, hinsert, -⟩ := copyJob_ok planned
  obtain ⟨name, hname, hselects⟩ := Statement.selectRows_ok hquery
  refine ⟨created, copies, ?_, Statement.insertRow_ok hinsert⟩
  rw [hselects, qualifyMssql_ok hname, List.map_map]
  rfl

theorem width_of_copyJob {t : TablePair} {create : String} {job : CopyJob}
    (created : TableCreated m source t create) (planned : copyJob source t = .ok job) :
    job.columns.length = t.columns.length := by
  obtain ⟨-, -, -, -, -, -, hcolumns⟩ := copyJob_ok planned
  rw [hcolumns, List.length_map]
  exact created.defined.length_eq.symm

end Plan

/-! ## Targets that take inserts -/

/-- The target takes inserts as pending and makes them committed at a commit. A statement that it
refuses changes none of them. -/
structure HoldsInserts {σ : Type} (target : Target σ) (view : σ → Held) : Prop where
  taken : ∀ s op, (target.respond s op).2 = none →
    view (target.respond s op).1 = (view s).after op
  refused : ∀ s sql e, (target.respond s (.execute sql)).2 = some e →
    view (target.respond s (.execute sql)).1 = view s

theorem KeepsRows.holdsInserts {σ : Type} {target : Target σ} {view : σ → Held}
    (h : KeepsRows target view) : HoldsInserts target view :=
  ⟨h.taken, fun s sql e => h.refused s (.execute sql) e⟩

/-! ## What steps do to rows -/

def Step.query? : Step → Option String
  | .openCursor query => some query
  | _ => none

def openedQueries (steps : List Step) : List String := steps.filterMap Step.query?

/-- Steps ask for the rows of these queries and leave these rows committed, behind those before
them, with nothing pending. -/
structure Fills (steps : List Step) (queries : List String) (stored : List StoredRow) : Prop where
  queries : openedQueries steps = queries
  stored : ∀ base, (operations steps).foldl Held.after ⟨base, []⟩ = ⟨base ++ stored, []⟩

namespace Fills

theorem nil : Fills [] [] [] := ⟨rfl, fun base => by rw [List.append_nil]; rfl⟩

theorem append {first second : List Step} {queries queries' : List String}
    {stored stored' : List StoredRow} (h : Fills first queries stored)
    (h' : Fills second queries' stored') :
    Fills (first ++ second) (queries ++ queries') (stored ++ stored') where
  queries := by
    rw [openedQueries, List.filterMap_append]
    exact congrArg₂ (· ++ ·) h.queries h'.queries
  stored base := by
    rw [operations_append, List.foldl_append, h.stored, h'.stored, List.append_assoc]

theorem of_executes {steps : List Step} (h : ∀ s ∈ steps, ∃ text, s = .execute text) :
    Fills steps [] [] := by
  induction steps with
  | nil => exact nil
  | cons s rest ih =>
    obtain ⟨⟨text, rfl⟩, hrest⟩ := List.forall_mem_cons.mp h
    have hlater := ih hrest
    exact ⟨hlater.queries, hlater.stored⟩

theorem of_altering {α : Type} {d : Draft α} {l l' : Ledger} {steps : List Step}
    {outcome : Outcome α} (h : Draft.All AlteringStep d) (hd : d l = ⟨steps, l', outcome⟩) :
    Fills steps [] [] := by
  apply of_executes
  intro s hs
  obtain ⟨text, hexecute, -⟩ := h l s (by rw [hd]; exact hs)
  exact ⟨text, hexecute⟩

end Fills

theorem held_foldl (steps : List Step) (t : Tally) :
    (steps.foldl Tally.next t).held = (operations steps).foldl Held.after t.held := by
  induction steps generalizing t with
  | nil => rfl
  | cons s rest ih =>
    rw [List.foldl_cons, ih, operations_cons]
    cases hop : s.operation? with
    | some op => rw [(Tally.next_of_operation hop t).1]; rfl
    | none =>
      -- a step without an operation changes no row of the count
      have hsame : (t.next s).held = t.held := by
        cases s with
        | openCursor query => rfl
        | fetch => rfl
        | report table rows estimated => rfl
        | execute sql => cases hop
        | begin => cases hop
        | insert table number sql row => cases hop
        | commit => cases hop
      rw [hsame]
      rfl

/-- A copy that is finished asks for the rows of its query and leaves them all committed. -/
theorem fills_copy {job : CopyJob} {rows : List Row} {last : CopyCount}
    (finished : (job.rowSteps {} (rows.map .ok)).2 = .ok last) :
    Fills (job.steps (rows.map .ok)) [job.query] (rows.map job.stored) where
  queries := by
    have hnone : openedQueries (job.rowSteps {} (rows.map .ok)).1 = [] := by
      apply List.filterMap_eq_nil_iff.mpr
      intro s hs
      cases job.forall_rowSteps {} _ s hs with
      | _ => rfl
    show job.query :: openedQueries (job.rowSteps {} (rows.map .ok)).1 = [job.query]
    rw [hnone]
  stored base := by
    have hrows : (CursorRows.ofList (rows.map .ok)).rows = rows := by
      have hrows := rows_ofList_append rows []
      rw [List.append_nil] at hrows
      simpa [CursorRows.ofList] using hrows
    have hall : job.storedRows (rows.map .ok) = rows.map job.stored := by
      rw [CopyJob.storedRows, hrows]
    rcases holding_end job base (rows.map .ok) with
      ⟨n, -, hn, -, hcount, hholding⟩ | ⟨n, message, herror, -⟩
    · have hheld := held_foldl (job.steps (rows.map .ok)) (Tally.start base)
      rw [hall] at hcount hholding
      rw [hcount] at hheld
      -- the last commit leaves all rows committed
      have hcommitted := hholding.committed
      have hpending := hholding.pending
      rw [List.take_of_length_le (by simp [hn, hrows])] at hcommitted
      rw [List.take_zero] at hpending
      show (operations _).foldl Held.after (Tally.start base).held = _
      rw [← hheld, Tally.held, hcommitted, hpending]
    · rw [finished] at herror
      cases herror

section Runs

variable {σ : Type} {target : Target σ} {pace : Pace} {view : σ → Held} {r after : Run σ}
  {steps : List Step}

theorem Run.Taken.held (holds : HoldsInserts target view)
    (h : Run.Taken target pace r steps after) :
    view after.state = (operations steps).foldl Held.after (view r.state) := by
  induction h with
  | nil => rfl
  | @cons r mid after s steps head tail ih =>
    rw [ih, operations_cons]
    rcases Run.take_none head with ⟨op, hop, hnone, rfl⟩ | ⟨hop, rfl⟩
    · rw [hop]
      show _ = (operations steps).foldl Held.after ((view r.state).after op)
      rw [← holds.taken r.state op hnone]
      rfl
    · rw [hop, Run.state_note]
      rfl

theorem Run.Taken.queries (h : Run.Taken target pace r steps after) :
    after.queries.toList = r.queries.toList ++ openedQueries steps := by
  induction h with
  | nil => exact (List.append_nil _).symm
  | @cons r mid after s steps head tail ih =>
    rw [ih, openedQueries, openedQueries]
    rcases Run.take_none head with ⟨op, hop, -, rfl⟩ | ⟨hop, rfl⟩
    · cases s with
      | openCursor query => cases hop
      | _ => rfl
    · cases s with
      | openCursor query => simp [Run.note, Step.query?]
      | _ => rfl

theorem Run.take_execute (holds : HoldsInserts target view) (r : Run σ) (text : String) :
    view (r.take target pace (.execute text)).1.state = view r.state ∧
      (r.take target pace (.execute text)).1.queries = r.queries := by
  refine ⟨?_, rfl⟩
  show view (target.respond r.state (.execute text)).1 = view r.state
  cases hanswer : (target.respond r.state (.execute text)).2 with
  | none => exact holds.taken r.state _ hanswer
  | some e => exact holds.refused r.state text e hanswer

theorem Run.tryAll_execute {m : RunSettings} (holds : HoldsInserts target view)
    {attempts : List Plan.Attempt} (h : ∀ a ∈ attempts, ∀ s ∈ a.steps, ∃ text, s = .execute text)
    (r : Run σ) :
    view (r.tryAll m target pace attempts).1.state = view r.state ∧
      (r.tryAll m target pace attempts).1.queries = r.queries := by
  apply Run.tryAll_preserves (I := fun later =>
    view later.state = view r.state ∧ later.queries = r.queries) _ ⟨rfl, rfl⟩
  intro a ha s hs later hlater
  obtain ⟨text, rfl⟩ := h a ha s hs
  obtain ⟨hview, hqueries⟩ := @Run.take_execute σ target pace view holds later text
  exact ⟨hview.trans hlater.1, hqueries.trans hlater.2⟩

end Runs

/-! ## The rows of a plan -/

section Plans

variable (m : RunSettings) (source : Source)

/-- What there is of a listed table in the end: its line in the report, the queries for its rows and
the rows that are stored. The table was created in any case. -/
inductive TableFilled (sent : List Operation) :
    QualifiedName → TableReport → List String → List StoredRow → Prop where
  | skipped {t : Plan.TablePair} {create : String} (created : Plan.TableCreated m source t create)
      (executed : .execute create ∈ sent) (copies : m.copiesDataFor t.schema t.table = false) :
      TableFilled sent (t.schema, t.table) ⟨t.targetSchema, t.targetTable, none⟩ [] []
  | copied {t : Plan.TablePair} {create query insert : String} {rows : List Row}
      {stored : List StoredRow} (copied : Plan.TableCopied m source t create query insert)
      (executed : .execute create ∈ sent) (read : source.rows query = .ok (rows.map .ok))
      (widths : ∀ row ∈ rows, row.length = t.columns.length)
      (stores : StoresRows insert rows stored) :
      TableFilled sent (t.schema, t.table) ⟨t.targetSchema, t.targetTable, some rows.length⟩
        [query] stored

/-- Tables one after another, with their queries and stored rows in the same order. -/
inductive AllFilled (sent : List Operation) :
    List QualifiedName → List TableReport → List String → List StoredRow → Prop where
  | nil : AllFilled sent [] [] [] []
  | cons {x : QualifiedName} {xs : List QualifiedName} {report : TableReport}
      {reports : List TableReport} {queries queries' : List String}
      {stored stored' : List StoredRow}
      (head : TableFilled m source sent x report queries stored)
      (tail : AllFilled sent xs reports queries' stored') :
      AllFilled sent (x :: xs) (report :: reports) (queries ++ queries') (stored ++ stored')

variable {m source} {sent more : List Operation}

theorem TableFilled.mono {x : QualifiedName} {report : TableReport} {queries : List String}
    {stored : List StoredRow} (h : TableFilled m source sent x report queries stored)
    (hsent : sent ⊆ more) : TableFilled m source more x report queries stored := by
  cases h with
  | skipped created executed copies => exact .skipped created (hsent executed) copies
  | copied copied executed read widths stores =>
    exact .copied copied (hsent executed) read widths stores

namespace AllFilled

variable {xs ys : List QualifiedName} {reports reports' : List TableReport}
  {queries queries' : List String} {stored stored' : List StoredRow}

theorem mono (h : AllFilled m source sent xs reports queries stored) (hsent : sent ⊆ more) :
    AllFilled m source more xs reports queries stored := by
  induction h with
  | nil => exact .nil
  | cons head tail ih => exact .cons (head.mono hsent) ih

theorem append (h : AllFilled m source sent xs reports queries stored)
    (h' : AllFilled m source sent ys reports' queries' stored') :
    AllFilled m source sent (xs ++ ys) (reports ++ reports') (queries ++ queries')
      (stored ++ stored') := by
  induction h with
  | nil => exact h'
  | cons head tail ih =>
    rw [List.append_assoc, List.append_assoc]
    exact .cons head ih

theorem join (h : AllFilled m source sent xs reports queries stored)
    (h' : AllFilled m source more ys reports' queries' stored') :
    AllFilled m source (sent ++ more) (xs ++ ys) (reports ++ reports') (queries ++ queries')
      (stored ++ stored') :=
  (h.mono (List.subset_append_left _ _)).append (h'.mono (List.subset_append_right _ _))

end AllFilled

namespace Plan

variable {steps : List Step}

theorem TableMade.fills {schema targetSchema table : String} {made : TableReport × List Constraint}
    (hschema : m.policy.Names (schema, .schema, schema) targetSchema)
    (h : TableMade m source schema targetSchema table made steps) :
    ∃ queries stored, Fills steps queries stored ∧
      TableFilled m source (operations steps) (schema, table) made.1 queries stored := by
  have hnamed := (h.makes hschema).2
  cases h with
  | @intro columns targetTable drop create definitions rows foreignKeys rowSteps partSteps l l'
      listed names defined dropped created filled parts linked =>
    have hcreated : TableCreated m source
        ⟨schema, table, targetSchema, targetTable, columns, definitions⟩ create :=
      tableCreated listed hnamed defined created
    have hstart : Fills [.execute drop, .execute create] [] [] := by
      apply Fills.of_executes
      intro s hs
      rcases List.mem_pair.mp hs with rfl | rfl
      · exact ⟨drop, rfl⟩
      · exact ⟨create, rfl⟩
    have hparts : Fills partSteps [] [] := .of_altering (partsDraft_altering m source _) parts
    have hexecuted : Operation.execute create ∈
        operations (.execute drop :: .execute create :: (rowSteps ++ partSteps)) :=
      List.mem_cons_of_mem _ List.mem_cons_self
    cases filled with
    | skipped notCopied =>
      exact ⟨[], [], hstart.append hparts, .skipped hcreated hexecuted notCopied⟩
    | @copied job items copied copies planned read finished =>
      obtain ⟨cells, rfl, hwidths, hrows⟩ := CopyJob.rowSteps_ok finished
      have hfills := (hstart.append (fills_copy finished)).append hparts
      rw [List.nil_append, List.append_nil, List.nil_append, List.append_nil] at hfills
      rw [hrows, Nat.zero_add]
      refine ⟨_, _, hfills, .copied (tableCopied hcreated copies planned) hexecuted read ?_ ?_⟩
      · rw [← width_of_copyJob hcreated planned]
        exact hwidths
      · exact storesRows_map job cells

theorem TablesMade.fills {schema targetSchema : String} {tables : List String}
    {made : List (TableReport × List Constraint)}
    (hschema : m.policy.Names (schema, .schema, schema) targetSchema)
    (h : TablesMade m source schema targetSchema tables made steps) :
    ∃ queries stored, Fills steps queries stored ∧
      AllFilled m source (operations steps) (tables.map fun name => (schema, name))
        (made.map (·.1)) queries stored := by
  induction h with
  | nil => exact ⟨[], [], .nil, .nil⟩
  | cons head tail ih =>
    obtain ⟨queries, stored, hfills, hhead⟩ := head.fills hschema
    obtain ⟨queries', stored', hfills', htail⟩ := ih
    refine ⟨_, _, hfills.append hfills', ?_⟩
    rw [operations_append, List.map_cons, List.map_cons]
    exact .cons (hhead.mono (List.subset_append_left _ _))
      (htail.mono (List.subset_append_right _ _))

theorem SchemaMade.fills {schema : String} {planned : PlannedSchema}
    (full : source.isSchemaEmpty schema = .ok false)
    (h : SchemaMade m source schema planned steps) :
    ∃ queries stored, Fills steps queries stored ∧
      AllFilled m source (operations steps) (source.tablesOf schema) planned.tables queries
        stored := by
  cases h with
  | @intro target create tables made tableSteps indexSteps l l' names created listed filled
      indexed =>
    obtain ⟨queries, stored, hfills, hall⟩ := filled.fills names
    have hcreate : Fills [.execute create] [] [] :=
      .of_executes fun s hs => ⟨create, List.mem_singleton.mp hs⟩
    have hindexes : Fills indexSteps [] [] :=
      .of_altering (indexesDraft_altering m source schema) indexed
    have hwhole := (hcreate.append hfills).append hindexes
    rw [List.nil_append, List.append_nil, List.nil_append, List.append_nil] at hwhole
    refine ⟨queries, stored, hwhole, ?_⟩
    rw [Source.tablesOf_full full listed]
    apply hall.mono
    rw [operations_cons, operations_append]
    intro op hop
    exact List.mem_append_right _ (List.mem_append_left _ hop)

theorem SchemasMade.fills {listed : List Schema} {planned : List PlannedSchema}
    (h : SchemasMade m source listed planned steps) :
    ∃ queries stored, Fills steps queries stored ∧
      AllFilled m source (operations steps) (listed.flatMap fun s => source.tablesOf s.name)
        (planned.flatMap (·.tables)) queries stored := by
  induction h with
  | nil => exact ⟨[], [], .nil, .nil⟩
  | @passed schema schemas planned steps empty tail ih =>
    have hnone : source.tablesOf schema.name = [] := by rw [Source.tablesOf, empty]
    rw [List.flatMap_cons, hnone, List.nil_append]
    exact ih
  | cons full head tail ih =>
    obtain ⟨queries, stored, hfills, hhead⟩ := head.fills full
    obtain ⟨queries', stored', hfills', htail⟩ := ih
    refine ⟨_, _, hfills.append hfills', ?_⟩
    rw [operations_append, List.flatMap_cons, List.flatMap_cons]
    exact hhead.join htail

theorem PlanMade.fills {schemas : List PlannedSchema} (h : PlanMade m source schemas steps) :
    ∃ queries stored, Fills steps queries stored ∧
      AllFilled m source (operations steps) source.listed (schemas.flatMap (·.tables)) queries
        stored := by
  cases h with
  | @intro listed schemas made keySteps l l' done answered filled keys =>
    obtain ⟨queries, stored, hfills, hall⟩ := filled.fills
    have hkeys : Fills keySteps [] [] := .of_altering (foreignKeysDraft_altering m _) keys
    have hwhole := hfills.append hkeys
    rw [List.append_nil, List.append_nil] at hwhole
    refine ⟨queries, stored, hwhole, ?_⟩
    rw [Source.listed, answered, operations_append]
    exact hall.mono (List.subset_append_left _ _)

end Plan

end Plans

/-! ## What every run does with rows -/

/-- The insert is of a copy of a row that the source yields for a table whose rows are copied, and
which has one cell for each column of the table. -/
def InsertsCopy (m : RunSettings) (source : Source) (insert : String) (row : Row) : Prop :=
  ∃ t create query items cells, Plan.TableCopied m source t create query insert ∧
    source.rows query = .ok items ∧ .ok cells ∈ items ∧ cells.length = t.columns.length ∧
    CopiedRow cells row

/-- A step that has to do with rows is one of a table whose rows are copied. -/
def Step.CopiesRows (m : RunSettings) (source : Source) : Step → Prop
  | .openCursor query => ¬ ReadsUncopied m query
  | .insert _ _ sql row => InsertsCopy m source sql row
  | _ => True

namespace Plan

variable {m : RunSettings} {source : Source}

theorem copiesRows_of_altering {α : Type} {d : Draft α} (h : Draft.All AlteringStep d) :
    Draft.All (Step.CopiesRows m source) d := by
  intro l s hs
  obtain ⟨text, rfl, -⟩ := h l s hs
  trivial

theorem dataDraft_copiesRows {t : TablePair} {create : String}
    (created : TableCreated m source t create) :
    Draft.All (Step.CopiesRows m source) (dataDraft m source t) := by
  unfold dataDraft
  split
  · rename_i hcopies
    refine .bind_ok (.ofOutcome _) fun {l l' steps job} hjob => .bind ?_ fun _ => .pure _
    obtain ⟨hplanned, -, -⟩ := Draft.ofOutcome_ok hjob
    obtain ⟨-, -, -, -, hquery, -⟩ := copyJob_ok hplanned
    intro ledger s hs
    cases hread : source.rows job.query with
    | error e =>
      rw [hread] at hs
      cases hs
    | ok items =>
      rw [hread] at hs
      have hs : s ∈ job.steps items := hs
      rcases List.mem_cons.mp hs with rfl | hs
      · -- the cursor is opened for a table whose rows are copied, and its text tells the table
        rintro ⟨schema, table, columns, huncopied, hsame⟩
        obtain ⟨rfl, rfl⟩ := Statement.selectRows_inj hsame hquery
        rw [hcopies] at huncopied
        cases huncopied
      · rcases List.mem_cons.mp hs with rfl | hs
        · trivial
        · cases job.forall_rowSteps {} items s hs with
          | @insert cells number yielded fits =>
            rw [width_of_copyJob created hplanned] at fits
            exact ⟨t, create, job.query, items, cells, tableCopied created hcopies hplanned, hread,
              yielded, fits, copied_map_scrubbed cells⟩
          | _ => trivial
  · exact .pure _

theorem tableDraft_copiesRows {schema targetSchema : String}
    (hschema : m.policy.Names (schema, .schema, schema) targetSchema) (table : String) :
    Draft.All (Step.CopiesRows m source) (tableDraft m source schema targetSchema table) := by
  have hexecute (sql : Outcome String) : Draft.All (Step.CopiesRows m source) (Draft.execute sql) :=
    .execute fun _ _ => trivial
  unfold tableDraft
  refine .bind_ok (.ofOutcome _) fun {_ _ _ columns} hcolumns =>
    .bind_ok (.rename _) fun {_ _ _ targetTable} hname =>
    .bind_ok (columnDrafts_all schema table columns) fun {_ _ _ definitions} hdefinitions =>
    .bind (hexecute _) fun _ => .bind_ok (hexecute _) fun hcreate => ?_
  obtain ⟨hlisted, -, -⟩ := Draft.ofOutcome_ok hcolumns
  obtain ⟨-, hnames⟩ := rename_names hname
  obtain ⟨-, hdefined⟩ := columnsDefined hdefinitions
  obtain ⟨create, hcreated, -⟩ := Draft.execute_ok hcreate
  have hmade : TableCreated m source
      ⟨schema, table, targetSchema, targetTable, columns, definitions⟩ create :=
    tableCreated hlisted (RunSettings.targetOf_of_names hschema hnames) hdefined hcreated
  exact .bind (dataDraft_copiesRows hmade) fun _ =>
    .bind (copiesRows_of_altering (partsDraft_altering m source _)) fun _ => .pure _

theorem schemaDraft_copiesRows (s : Schema) :
    Draft.All (Step.CopiesRows m source) (schemaDraft m source s) := by
  unfold schemaDraft
  refine .bind (.ofOutcome _) fun isEmpty => ?_
  split
  · exact .pure _
  · refine .bind (.bind_ok (.rename _) fun hname => ?_) fun _ => .pure _
    obtain ⟨-, hnames⟩ := rename_names hname
    refine .bind (.execute fun _ _ => trivial) fun _ => .bind (.ofOutcome _) fun _ =>
      .bind (.each fun table _ => ?_) fun _ =>
      .bind (copiesRows_of_altering (indexesDraft_altering m source _)) fun _ => .pure _
    exact .bind (tableDraft_copiesRows hnames table) fun _ => .bind (.ofOutcome _) fun _ => .pure _

/-- Whatever a plan ends with, it does so with the rows of the tables that are copied only. -/
theorem schemasDraft_copiesRows :
    Draft.All (Step.CopiesRows m source) (schemasDraft m source) :=
  .bind (.ofOutcome _) fun _ => .bind (.each fun s _ => schemaDraft_copiesRows s) fun _ =>
    .bind (copiesRows_of_altering (foreignKeysDraft_altering m _)) fun _ => .pure _

end Plan

/-- The queries and the inserts of a run are of tables whose rows are copied. -/
structure Run.CopiesRows {σ : Type} (m : RunSettings) (source : Source) (r : Run σ) : Prop where
  queries : ∀ query ∈ r.queries.toList, ¬ ReadsUncopied m query
  inserts : ∀ insert row, .insert insert row ∈ r.sent.toList → InsertsCopy m source insert row

theorem Run.CopiesRows.take {σ : Type} {m : RunSettings} {source : Source} {target : Target σ}
    {pace : Pace} {r : Run σ} {s : Step} (h : r.CopiesRows m source)
    (hs : s.CopiesRows m source) : (r.take target pace s).1.CopiesRows m source := by
  have hsent (op : Operation)
      (hop : ∀ insert row, op = .insert insert row → InsertsCopy m source insert row) :
      (r.send target pace op).1.CopiesRows m source := by
    refine ⟨h.queries, fun insert row hmem => ?_⟩
    simp only [Run.send, Array.toList_push, List.mem_append, List.mem_singleton] at hmem
    rcases hmem with hmem | hmem
    · exact h.inserts insert row hmem
    · exact hop insert row hmem.symm
  cases s with
  | openCursor query =>
    refine ⟨fun asked hmem => ?_, h.inserts⟩
    simp only [Run.take, Step.operation?, Run.note, Array.toList_push, List.mem_append,
      List.mem_singleton] at hmem
    rcases hmem with hmem | rfl
    · exact h.queries asked hmem
    · exact hs
  | fetch => exact ⟨h.queries, h.inserts⟩
  | report table rows estimated => exact ⟨h.queries, h.inserts⟩
  | execute sql => exact hsent _ fun insert row heq => by cases heq
  | begin => exact hsent _ fun insert row heq => by cases heq
  | commit => exact hsent _ fun insert row heq => by cases heq
  | insert table number sql row =>
    apply hsent
    intro insert row' heq
    cases heq
    exact hs

/-- However a migration ends, its queries and inserts are of tables whose rows are copied. -/
theorem migrate_copiesRows {σ : Type} (m : RunSettings) (source : Source) (target : Target σ)
    (pace : Pace) (start : DateTime) (initial : σ) :
    (migrate m source target pace start initial).1.CopiesRows m source := by
  apply Run.follow_preserves (I := fun r => r.CopiesRows m source)
  · intro s hs r hr
    exact hr.take (Plan.schemasDraft_copiesRows .empty s hs)
  · intro schemas attempts houtcome a ha s hs r hr
    obtain ⟨steps, planned, -, -, rfl⟩ := Plan.ofSource_ok houtcome
    obtain ⟨text, rfl, -⟩ := Plan.attemptAll_steps _ _ _ a ha s hs
    exact hr.take trivial
  · exact ⟨by simp, by simp⟩

/-! ## Whole migrations -/

/-- In a migration that succeeds the rows of the listed tables are committed and nothing is
pending. -/
theorem migrate_fills {σ : Type} {m : RunSettings} {source : Source} {target : Target σ}
    {pace : Pace} {start : DateTime} {initial : σ} {run : Run σ} {report : Report} {view : σ → Held}
    (holds : HoldsInserts target view) (idle : view initial = ⟨[], []⟩)
    (h : migrate m source target pace start initial = (run, .ok report)) :
    (view run.state).pending = [] ∧
      AllFilled m source run.sent.toList source.listed report.tables run.queries.toList
        (view run.state).committed := by
  obtain ⟨mid, schemas, attempts, skipped, htaken, houtcome, htried, -, rfl⟩ := Run.follow_report h
  obtain ⟨steps, planned, hdrafted, hsteps, rfl⟩ := Plan.ofSource_ok houtcome
  rw [hsteps] at htaken
  obtain ⟨queries, stored, hfills, hall⟩ := (Plan.planMade hdrafted).fills
  have hmid : view mid.state = ⟨stored, []⟩ := by
    rw [htaken.held holds]
    show (operations steps).foldl Held.after (view initial) = _
    rw [idle, hfills.stored, List.nil_append]
  have hqueries : mid.queries.toList = queries := by
    rw [htaken.queries, hfills.queries]
    rfl
  -- at the modules only statements are sent
  have hmodules : ∀ a ∈ (Plan.attemptAll m source (schemas.map (·.target)) (Plan.listings schemas)
      planned).list, ∀ s ∈ a.steps, ∃ text, s = .execute text := by
    intro a ha s hs
    obtain ⟨text, hs, -⟩ := Plan.attemptAll_steps _ _ _ a ha s hs
    exact ⟨text, hs⟩
  obtain ⟨hview, hasked⟩ := @Run.tryAll_execute σ target pace view m holds _ hmodules mid
  obtain ⟨more, hmore, -⟩ := @Run.tryAll_sent σ m target pace _ mid
  rw [htried] at hview hasked hmore
  rw [hview, hasked, hmid, hqueries]
  refine ⟨rfl, hall.mono ?_⟩
  rw [hmore, htaken.sent]
  intro op hop
  exact List.mem_append_left _ (List.mem_append_right _ hop)

/-- A migration and the rows of its source. Whatever the source would answer about the rows of the
tables that are not copied, to a count or to a cursor, the migration is the same, for it asks
neither. However a migration ends, it has inserted only rows that a cursor yielded for a copied
table and that have one cell for each of its columns. In one that succeeds, the committed inserts
are the rows of the tables that are copied, each once, in the order of the listing and of the
cursors; nothing is pending, and the report has the number of the rows. -/
theorem migrate_copies_all_rows {σ : Type} (m : RunSettings) (source : Source) (target : Target σ)
    (pace : Pace) (start : DateTime) (initial : σ) :
    (∀ scalar rows, (∀ query, ¬ CountsUncopied m query → scalar query = source.scalar query) →
      (∀ query, ¬ ReadsUncopied m query → rows query = source.rows query) →
      migrate m { source with scalar, rows } target pace start initial =
        migrate m source target pace start initial) ∧
    (migrate m source target pace start initial).1.CopiesRows m source ∧
    ∀ run report view, migrate m source target pace start initial = (run, .ok report) →
      HoldsInserts target view → view initial = ⟨[], []⟩ →
      (view run.state).pending = [] ∧
        AllFilled m source run.sent.toList source.listed report.tables run.queries.toList
          (view run.state).committed := by
  refine ⟨fun scalar rows hscalar hrows => ?_,
    migrate_copiesRows m source target pace start initial,
    fun run report view hrun holds idle => migrate_fills holds idle hrun⟩
  unfold migrate
  rw [Plan.ofSource_congr hscalar hrows]

def ordersWithLog : Memory.Catalog where
  schemas := [
    { name := "dbo"
      tables := [
        { name := "Orders"
          columns := [{ name := "Id", isNullable := false, type := some .int32 },
                      { name := "Note", type := some .string }]
          rows := [[.int32 1, .text "a\x00b"], [.int32 2, .null]] },
        { name := "Log", columns := [{ name := "Id", type := some .int32 }],
          rows := [[.int32 7]] }] }]

/-- A source that fails where the rows of the log are counted. -/
def lockedLog : Source :=
  { ordersWithLog.source with
    scalar := fun query =>
      if query = "SELECT COUNT_BIG(1) FROM [dbo].[Log]" then .error (.source "locked")
      else ordersWithLog.source.scalar query }

/-- Settings with which the rows of the log are not copied. -/
def withoutLog : RunSettings := { skippedTables := ["dbo.Log"] }

set_option maxRecDepth 100000 in
/-- A migration to which all parts of `migrate_copies_all_rows` apply: it would not find out that
the log cannot be counted. -/
theorem locked_log_is_not_read :
    migrate withoutLog lockedLog (Memory.target {}) {} (DateTime.ofNanos 0) {} =
        migrate withoutLog ordersWithLog.source (Memory.target {}) {} (DateTime.ofNanos 0) {} ∧
      HoldsInserts (Memory.target {}) heldInMemory ∧ heldInMemory {} = ⟨[], []⟩ ∧
      ∃ run report, migrate withoutLog ordersWithLog.source (Memory.target {}) {}
          (DateTime.ofNanos 0) {} = (run, .ok report) ∧
        (heldInMemory run.state).pending = [] ∧
        AllFilled withoutLog ordersWithLog.source run.sent.toList ordersWithLog.source.listed
          report.tables run.queries.toList (heldInMemory run.state).committed ∧
        report.tables.map (·.rows) = [some 2, none] ∧
        (heldInMemory run.state).committed.map (·.row) =
          [[.int32 1, .text "ab"], [.int32 2, .null]] := by
  obtain ⟨hsame, -, hfilled⟩ := migrate_copies_all_rows withoutLog ordersWithLog.source
    (Memory.target {}) {} (DateTime.ofNanos 0) {}
  have holds : HoldsInserts (Memory.target {}) heldInMemory := (memory_keepsRows {}).holdsInserts
  refine ⟨hsame lockedLog.scalar ordersWithLog.source.rows (fun query hquery => ?_)
      (fun _ _ => rfl),
    holds, rfl, ?_⟩
  · -- the one query that fails counts the log
    apply if_neg
    rintro rfl
    exact hquery ⟨"dbo", "Log", by decide +kernel, by decide +kernel⟩
  · have hsucceeds : (migrate withoutLog ordersWithLog.source (Memory.target {}) {}
        (DateTime.ofNanos 0) {}).2.isOk = true := by decide +kernel
    have hrows : (migrate withoutLog ordersWithLog.source (Memory.target {}) {}
        (DateTime.ofNanos 0) {}).1.state.committed.toList.map (·.row) =
          [[.int32 1, .text "ab"], [.int32 2, .null]] := by decide +kernel
    have hreport : (migrate withoutLog ordersWithLog.source (Memory.target {}) {}
        (DateTime.ofNanos 0) {}).2.toOption.map (fun report => report.tables.map (·.rows)) =
          some [some 2, none] := by decide +kernel
    rcases h : migrate withoutLog ordersWithLog.source (Memory.target {}) {} (DateTime.ofNanos 0) {}
      with ⟨run, e | report⟩
    · rw [h] at hsucceeds
      cases hsucceeds
    · rw [h] at hrows hreport
      obtain ⟨hpending, hall⟩ := hfilled run report heldInMemory h holds rfl
      exact ⟨run, report, rfl, hpending, hall, Option.some.inj hreport, hrows⟩

end Migration
