import Migration.Proofs.Drafting
import Migration.Proofs.Quoting
import Migration.Run

/-
  What a migration asks its source about rows.

  The rows of a table are counted by one query and read by another, both with the
  names of the table in brackets. The text of such a query tells the table, whatever
  its columns are called (`countRows_inj`, `selectRows_inj`). So a migration does not
  depend on what the source would answer about the rows of a table that are not copied
  (`ofSource_congr`): it never asks. -/

namespace Migration

namespace Statement

/-! ## The texts of queries -/

theorem countRows_ok {schema table text : String} (h : countRows schema table = .ok text) :
    ∃ name, qualifyMssql schema table = .ok name ∧ text = "SELECT COUNT_BIG(1) FROM " ++ name := by
  obtain ⟨name, hname, h⟩ := Outcome.bind_ok h
  exact ⟨name, hname, (Except.ok.inj h).symm⟩

theorem selectRows_ok {schema table text : String} {columns : List String}
    (h : selectRows schema table columns = .ok text) :
    ∃ name, qualifyMssql schema table = .ok name ∧
      text = "SELECT " ++ commaJoined (columns.map (enclosed '[' ']')) ++ " FROM " ++ name := by
  obtain ⟨quoted, hquoted, h⟩ := Outcome.bind_ok h
  obtain ⟨name, hname, h⟩ := Outcome.bind_ok h
  refine ⟨name, hname, ?_⟩
  rw [← Except.ok.inj h, Outcome.each_ok quoteMssql_ok hquoted]

/-- What is behind the first text of a list joined by commas. -/
def behindFirst : List String → List Char
  | [] => []
  | text :: rest => ", ".toList ++ text.toList ++ behindFirst rest

theorem toList_commaJoined_cons (text : String) (rest : List String) :
    (commaJoined (text :: rest)).toList = text.toList ++ behindFirst rest := by
  induction rest generalizing text with
  | nil => simp [commaJoined, behindFirst]
  | cons next rest ih =>
    rw [commaJoined, String.intercalate_cons_cons, String.toList_append, String.toList_append,
      behindFirst, List.append_assoc, List.append_assoc]
    congr 2
    exact ih next

/-- A comma or the word stands behind a name in brackets, and no other bracket. -/
theorem head_behindFirst_ne (columns : List String) (rest : List Char) :
    (behindFirst (columns.map (enclosed '[' ']')) ++ (" FROM ".toList ++ rest)).head? ≠
      some ']' := by
  cases columns with
  | nil => simp [behindFirst]
  | cons name names => simp [behindFirst]

/-- Names in brackets end where the word behind them begins, whatever they are. -/
theorem behindFirst_inj {columns columns' : List String} {rest rest' : List Char}
    (h : behindFirst (columns.map (enclosed '[' ']')) ++ (" FROM ".toList ++ rest) =
      behindFirst (columns'.map (enclosed '[' ']')) ++ (" FROM ".toList ++ rest')) :
    rest = rest' := by
  induction columns generalizing columns' with
  | nil =>
    cases columns' with
    | nil => exact List.append_cancel_left h
    | cons name names => simp [behindFirst] at h
  | cons name names ih =>
    cases columns' with
    | nil => simp [behindFirst] at h
    | cons name' names' =>
      simp only [List.map_cons, behindFirst, List.append_assoc] at h
      have hnames := List.append_cancel_left h
      obtain ⟨-, hlater⟩ := enclosed_append_inj (head_behindFirst_ne names rest)
        (head_behindFirst_ne names' rest') hnames
      exact ih hlater

theorem commaJoined_inj {columns columns' : List String} {rest rest' : List Char}
    (h : (commaJoined (columns.map (enclosed '[' ']'))).toList ++ (" FROM ".toList ++ rest) =
      (commaJoined (columns'.map (enclosed '[' ']'))).toList ++ (" FROM ".toList ++ rest')) :
    rest = rest' := by
  cases columns with
  | nil =>
    cases columns' with
    | nil => exact List.append_cancel_left h
    | cons name names =>
      rw [List.map_cons, toList_commaJoined_cons, toList_enclosed] at h
      simp [commaJoined] at h
  | cons name names =>
    rw [List.map_cons, toList_commaJoined_cons, List.append_assoc] at h
    cases columns' with
    | nil =>
      rw [toList_enclosed] at h
      simp [commaJoined] at h
    | cons name' names' =>
      rw [List.map_cons, toList_commaJoined_cons, List.append_assoc] at h
      obtain ⟨-, hlater⟩ := enclosed_append_inj (head_behindFirst_ne names rest)
        (head_behindFirst_ne names' rest') h
      exact behindFirst_inj hlater

theorem countRows_inj {schema schema' table table' text : String}
    (h : countRows schema table = .ok text) (h' : countRows schema' table' = .ok text) :
    schema = schema' ∧ table = table' := by
  obtain ⟨name, hname, rfl⟩ := countRows_ok h
  obtain ⟨name', hname', hsame⟩ := countRows_ok h'
  have hchars := congrArg String.toList hsame
  rw [String.toList_append, String.toList_append] at hchars
  exact qualifyMssql_inj hname hname' (by simp) (by simp)
    (congrArg (· ++ []) (List.append_cancel_left hchars))

theorem selectRows_inj {schema schema' table table' text : String} {columns columns' : List String}
    (h : selectRows schema table columns = .ok text)
    (h' : selectRows schema' table' columns' = .ok text) : schema = schema' ∧ table = table' := by
  obtain ⟨name, hname, rfl⟩ := selectRows_ok h
  obtain ⟨name', hname', hsame⟩ := selectRows_ok h'
  have hchars := congrArg String.toList hsame
  simp only [String.toList_append, List.append_assoc] at hchars
  have hrest := commaJoined_inj (List.append_cancel_left hchars)
  exact qualifyMssql_inj hname hname' (by simp) (by simp) (congrArg (· ++ []) hrest)

end Statement

/-! ## Tables whose rows are not copied -/

/-- The query counts the rows of a table that are not copied. -/
def CountsUncopied (m : RunSettings) (query : String) : Prop :=
  ∃ schema table, m.copiesDataFor schema table = false ∧
    Statement.countRows schema table = .ok query

/-- The query reads the rows of a table that are not copied. -/
def ReadsUncopied (m : RunSettings) (query : String) : Prop :=
  ∃ schema table columns, m.copiesDataFor schema table = false ∧
    Statement.selectRows schema table columns = .ok query

namespace Plan

variable {m : RunSettings} {source : Source}

theorem copyJob_ok {t : TablePair} {job : CopyJob} (h : copyJob source t = .ok job) :
    ∃ counting count, Statement.countRows t.schema t.table = .ok counting ∧
      source.scalar counting = .ok count ∧
      Statement.selectRows t.schema t.table (t.columns.map Column.name) = .ok job.query ∧
      Statement.insertRow t.targetSchema t.targetTable t.definitions = .ok job.insert ∧
      job.columns = t.definitions.map ColumnDefinition.name := by
  obtain ⟨counting, hcounting, h⟩ := Outcome.bind_ok h
  obtain ⟨count, hcount, h⟩ := Outcome.bind_ok h
  obtain ⟨query, hquery, h⟩ := Outcome.bind_ok h
  obtain ⟨insert, hinsert, h⟩ := Outcome.bind_ok h
  obtain rfl := Except.ok.inj h
  exact ⟨counting, count, hcounting, hcount, hquery, hinsert, rfl⟩

section Answers

variable {scalar : String → Outcome Cell} {rows : String → Outcome (List (Outcome Row))}

theorem copyJob_congr
    (hscalar : ∀ query, ¬ CountsUncopied m query → scalar query = source.scalar query)
    {t : TablePair} (hcopies : m.copiesDataFor t.schema t.table = true) :
    copyJob { source with scalar, rows } t = copyJob source t := by
  unfold copyJob
  cases hcounting : Statement.countRows t.schema t.table with
  | error e => rfl
  | ok counting =>
    -- no table whose rows are not copied is counted by this query
    have hasked : ¬ CountsUncopied m counting := by
      rintro ⟨schema, table, huncopied, hsame⟩
      obtain ⟨rfl, rfl⟩ := Statement.countRows_inj hsame hcounting
      rw [hcopies] at huncopied
      cases huncopied
    show scalar counting >>= _ = source.scalar counting >>= _
    rw [hscalar counting hasked]

theorem dataDraft_congr
    (hscalar : ∀ query, ¬ CountsUncopied m query → scalar query = source.scalar query)
    (hrows : ∀ query, ¬ ReadsUncopied m query → rows query = source.rows query) :
    dataDraft m { source with scalar, rows } = dataDraft m source := by
  funext t l
  unfold dataDraft
  split
  · rename_i hcopies
    have hplanned := @copyJob_congr m source scalar rows hscalar t hcopies
    rw [hplanned]
    cases hjob : copyJob source t with
    | error e => rfl
    | ok job =>
      obtain ⟨-, -, -, -, hquery, -⟩ := copyJob_ok hjob
      have hasked : ¬ ReadsUncopied m job.query := by
        rintro ⟨schema, table, columns, huncopied, hsame⟩
        obtain ⟨rfl, rfl⟩ := Statement.selectRows_inj hsame hquery
        rw [hcopies] at huncopied
        cases huncopied
      show (job.draft (rows job.query) >>= _) l = (job.draft (source.rows job.query) >>= _) l
      rw [hrows job.query hasked]
  · rfl

/-- A plan does not depend on answers about the rows of tables that are not copied. -/
theorem ofSource_congr
    (hscalar : ∀ query, ¬ CountsUncopied m query → scalar query = source.scalar query)
    (hrows : ∀ query, ¬ ReadsUncopied m query → rows query = source.rows query) :
    Plan.ofSource m { source with scalar, rows } = Plan.ofSource m source := by
  have hdata := @dataDraft_congr m source scalar rows hscalar hrows
  have htable : tableDraft m { source with scalar, rows } = tableDraft m source := by
    funext schema targetSchema table
    unfold tableDraft
    rw [hdata]
    rfl
  have hlinked : linkedTableDraft m { source with scalar, rows } = linkedTableDraft m source := by
    funext schema targetSchema table
    unfold linkedTableDraft
    rw [htable]
  have hfull : fullSchemaDraft m { source with scalar, rows } = fullSchemaDraft m source := by
    funext schema
    unfold fullSchemaDraft
    rw [hlinked]
    rfl
  have hschema : schemaDraft m { source with scalar, rows } = schemaDraft m source := by
    funext schema
    unfold schemaDraft
    rw [hfull]
  have hschemas : schemasDraft m { source with scalar, rows } = schemasDraft m source := by
    unfold schemasDraft
    rw [hschema]
  have hattempts : attemptAll m { source with scalar, rows } = attemptAll m source := by
    funext reserved listings ledger
    induction listings generalizing ledger with
    | nil => rfl
    | cons listing rest ih =>
      simp only [attemptAll]
      cases source.modules listing.1.source listing.2 with
      | error e => rfl
      | ok modules => simp only [ih]
  unfold Plan.ofSource
  rw [hschemas, hattempts]

end Answers

end Plan

end Migration
