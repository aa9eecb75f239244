import Migration.Proofs.Quoting
import Migration.Statement
import Migration.Step

/-
  Sequences of operations that drop and create tables.

  Statements reach the target as texts. This file

  1. says of an operation that it drops or creates the table of a name, and proves
     that the text tells the name and the sort of statement (`drops_inj`,
     `creates_inj`, `not_creates_of_drops`);
  2. says of a sequence that it makes tables in order, each dropped and then created,
     between operations that do neither (`Makes`);
  3. proves that in such a sequence no table is dropped after it was created exactly
     where no two of the tables have one name (`Makes.keepsTables_iff`). -/

namespace Migration

abbrev QualifiedName := String × String

/-! ## Statements by their texts -/

def Drops (name : QualifiedName) (op : Operation) : Prop :=
  ∃ text, Statement.dropTable name.1 name.2 = .ok text ∧ op = .execute text

def Creates (name : QualifiedName) (op : Operation) : Prop :=
  ∃ columns text, Statement.createTable name.1 name.2 columns = .ok text ∧ op = .execute text

/-- The operation neither drops nor creates a table. -/
def Quiet (op : Operation) : Prop := ∀ name, ¬ Drops name op ∧ ¬ Creates name op

theorem dropTable_ok {schema table text : String}
    (h : Statement.dropTable schema table = .ok text) :
    ∃ name, qualifyPg schema table = .ok name ∧ text = "DROP TABLE IF EXISTS " ++ name := by
  obtain ⟨name, hname, h⟩ := Outcome.bind_ok h
  exact ⟨name, hname, (Except.ok.inj h).symm⟩

theorem columnLine_ok {c : ColumnDefinition} {line : String}
    (h : Statement.columnLine c = .ok line) :
    line = "    " ++ enclosed '"' '"' c.name ++ " " ++ c.typeLiteral ++
      (if c.isNullable then " NULL" else " NOT NULL") := by
  obtain ⟨name, hname, h⟩ := Outcome.bind_ok h
  rw [← Except.ok.inj h, quotePg_ok hname]

theorem createTable_ok {schema table text : String} {columns : List ColumnDefinition}
    (h : Statement.createTable schema table columns = .ok text) :
    ∃ name, qualifyPg schema table = .ok name ∧
      text = "CREATE TABLE " ++ name ++ " (\n" ++
        String.intercalate ",\n" (columns.map fun c => "    " ++ enclosed '"' '"' c.name ++ " " ++
          c.typeLiteral ++ (if c.isNullable then " NULL" else " NOT NULL")) ++ "\n)" := by
  rw [Statement.createTable] at h
  split at h
  · cases h
  · obtain ⟨name, hname, h⟩ := Outcome.bind_ok h
    obtain ⟨lines, hlines, h⟩ := Outcome.bind_ok h
    refine ⟨name, hname, ?_⟩
    rw [← Except.ok.inj h, Outcome.each_ok columnLine_ok hlines]

/-- The text of a statement begins with these words. -/
def Begins (words text : String) : Prop := ∃ rest, text = words ++ rest

@[simp] theorem begins_append (words rest : String) : Begins words (words ++ rest) := ⟨rest, rfl⟩

/-- What is behind the first words does not matter to the characters that tell statements apart. -/
theorem take_of_begins {words text : String} (h : Begins words text) (n : Nat)
    (hn : n ≤ words.toList.length) : text.toList.take n = words.toList.take n := by
  obtain ⟨rest, rfl⟩ := h
  rw [String.toList_append, List.take_append_of_le_length hn]

theorem begins_of_drops {name : QualifiedName} {text : String} (h : Drops name (.execute text)) :
    Begins "DROP TABLE IF EXISTS " text := by
  obtain ⟨text', hdrop, heq⟩ := h
  cases heq
  obtain ⟨qualified, -, rfl⟩ := dropTable_ok hdrop
  exact begins_append _ _

theorem begins_of_creates {name : QualifiedName} {text : String}
    (h : Creates name (.execute text)) :
    Begins "CREATE TABLE " text := by
  obtain ⟨columns, text', hcreate, heq⟩ := h
  cases heq
  obtain ⟨qualified, -, rfl⟩ := createTable_ok hcreate
  simp only [String.append_assoc, begins_append]

/-- Words that begin neither with `DROP TAB` nor with `CREATE T` begin no statement about tables. -/
theorem quiet_of_begins {words text : String} (h : Begins words text)
    (hlength : 8 ≤ words.toList.length) (hdrop : words.toList.take 8 ≠ "DROP TAB".toList)
    (hcreate : words.toList.take 8 ≠ "CREATE T".toList) : Quiet (.execute text) := by
  have htake := take_of_begins h 8 hlength
  intro name
  constructor
  · intro hdrops
    have htext := take_of_begins (begins_of_drops hdrops) 8 (by decide)
    exact hdrop (htake.symm.trans (htext.trans (by decide)))
  · intro hcreates
    have htext := take_of_begins (begins_of_creates hcreates) 8 (by decide)
    exact hcreate (htake.symm.trans (htext.trans (by decide)))

/-- The statement adds a key, a default or an identity column, or makes an index. -/
def Alters (text : String) : Prop :=
  Begins "ALTER TABLE " text ∨ Begins "CREATE INDEX " text ∨ Begins "CREATE UNIQUE INDEX " text

theorem Alters.quiet {text : String} (h : Alters text) : Quiet (.execute text) := by
  rcases h with h | h | h
  · exact quiet_of_begins h (by decide) (by decide) (by decide)
  · exact quiet_of_begins h (by decide) (by decide) (by decide)
  · exact quiet_of_begins h (by decide) (by decide) (by decide)

theorem quiet_of_not_execute {op : Operation} (h : ∀ text, op ≠ .execute text) : Quiet op := by
  intro name
  constructor
  · rintro ⟨text, -, rfl⟩
    exact h text rfl
  · rintro ⟨columns, text, -, rfl⟩
    exact h text rfl

theorem not_creates_of_drops {name name' : QualifiedName} {op : Operation} (h : Drops name op) :
    ¬ Creates name' op := by
  obtain ⟨text, hdrop, rfl⟩ := h
  intro hcreates
  have hdrops : Drops name (.execute text) := ⟨text, hdrop, rfl⟩
  have htext := take_of_begins (begins_of_drops hdrops) 8 (by decide)
  have htext' := take_of_begins (begins_of_creates hcreates) 8 (by decide)
  rw [htext] at htext'
  exact absurd htext' (by decide)

theorem drops_inj {name name' : QualifiedName} {op : Operation} (h : Drops name op)
    (h' : Drops name' op) : name = name' := by
  obtain ⟨text, hdrop, rfl⟩ := h
  obtain ⟨text', hdrop', heq⟩ := h'
  cases heq
  obtain ⟨qualified, hname, rfl⟩ := dropTable_ok hdrop
  obtain ⟨qualified', hname', hsame⟩ := dropTable_ok hdrop'
  have hchars := congrArg String.toList hsame
  rw [String.toList_append, String.toList_append] at hchars
  have hinj := qualifyPg_inj hname hname' (by simp) (by simp)
    (congrArg (· ++ []) (List.append_cancel_left hchars))
  exact Prod.ext hinj.1 hinj.2

theorem creates_inj {name name' : QualifiedName} {op : Operation} (h : Creates name op)
    (h' : Creates name' op) : name = name' := by
  obtain ⟨columns, text, hcreate, rfl⟩ := h
  obtain ⟨columns', text', hcreate', heq⟩ := h'
  cases heq
  obtain ⟨qualified, hname, rfl⟩ := createTable_ok hcreate
  obtain ⟨qualified', hname', hsame⟩ := createTable_ok hcreate'
  have hchars := congrArg String.toList hsame
  simp only [String.toList_append, List.append_assoc] at hchars
  have hinj := qualifyPg_inj hname hname' (by simp) (by simp) (List.append_cancel_left hchars)
  exact Prod.ext hinj.1 hinj.2

/-! ## Sequences that make tables -/

/-- The operations make the tables of these names in order: each is dropped, then created, and no
other operation is about a table. -/
inductive Makes : List QualifiedName → List Operation → Prop where
  | nil : Makes [] []
  | quiet {names : List QualifiedName} {op : Operation} {ops : List Operation} (quiet : Quiet op)
      (later : Makes names ops) : Makes names (op :: ops)
  | table {name : QualifiedName} {names : List QualifiedName} {drop create : Operation}
      {ops : List Operation} (drops : Drops name drop) (creates : Creates name create)
      (later : Makes names ops) : Makes (name :: names) (drop :: create :: ops)

theorem Makes.append {names names' : List QualifiedName} {ops ops' : List Operation}
    (h : Makes names ops) (h' : Makes names' ops') : Makes (names ++ names') (ops ++ ops') := by
  induction h with
  | nil => exact h'
  | quiet quiet later ih => exact .quiet quiet ih
  | table drops creates later ih => exact .table drops creates ih

theorem makes_of_quiet {ops : List Operation} (h : ∀ op ∈ ops, Quiet op) : Makes [] ops := by
  induction ops with
  | nil => exact .nil
  | cons op ops ih =>
    exact .quiet (h op List.mem_cons_self) (ih fun op' hop' => h op' (List.mem_cons_of_mem _ hop'))

/-- A table is created right after it is dropped. -/
theorem Makes.next {names : List QualifiedName} {ops : List Operation} (h : Makes names ops)
    {i : Nat} {name : QualifiedName} {drop : Operation} (hat : ops[i]? = some drop)
    (hdrop : Drops name drop) : ∃ create, ops[i + 1]? = some create ∧ Creates name create := by
  induction h generalizing i with
  | nil => cases hat
  | @quiet names op ops quiet later ih =>
    cases i with
    | zero =>
      obtain rfl := Option.some.inj hat
      exact absurd hdrop (quiet name).1
    | succ i => exact ih hat
  | @table name' names drop' create ops drops creates later ih =>
    match i, hat with
    | 0, hat =>
      obtain rfl := Option.some.inj hat
      exact ⟨create, rfl, drops_inj drops hdrop ▸ creates⟩
    | 1, hat =>
      obtain rfl := Option.some.inj hat
      exact absurd creates (not_creates_of_drops hdrop)
    | i + 2, hat => exact ih hat

theorem Makes.exists_drops_iff {names : List QualifiedName} {ops : List Operation}
    (h : Makes names ops) (name : QualifiedName) : (∃ op ∈ ops, Drops name op) ↔ name ∈ names := by
  induction h with
  | nil => simp
  | @quiet names op ops quiet later ih =>
    rw [← ih]
    simp [(quiet name).1]
  | @table name' names drop create ops drops creates later ih =>
    have hcreate : ¬ Drops name create := fun h => not_creates_of_drops h creates
    have hdrop : Drops name drop ↔ name = name' :=
      ⟨fun h => drops_inj h drops, fun h => h ▸ drops⟩
    simp [hcreate, hdrop, ih]

/-- No operation drops a table that an earlier one created. -/
def KeepsTables (ops : List Operation) : Prop :=
  ops.Pairwise fun earlier later => ∀ name, Creates name earlier → ¬ Drops name later

/-- No table is dropped after it was created exactly where no two of the tables have one name. -/
theorem Makes.keepsTables_iff {names : List QualifiedName} {ops : List Operation}
    (h : Makes names ops) : KeepsTables ops ↔ names.Nodup := by
  induction h with
  | nil => exact iff_of_true List.Pairwise.nil List.nodup_nil
  | @quiet names op ops quiet later ih =>
    rw [KeepsTables, List.pairwise_cons]
    refine ⟨fun h => ih.mp h.2, fun h => ⟨fun op' _ name hcreates => ?_, ih.mpr h⟩⟩
    exact absurd hcreates (quiet name).2
  | @table name names drop create ops drops creates later ih =>
    rw [KeepsTables, List.pairwise_cons, List.pairwise_cons, List.nodup_cons]
    constructor
    · rintro ⟨-, hkept, hlater⟩
      refine ⟨fun hname => ?_, ih.mp hlater⟩
      obtain ⟨op, hop, hdrops⟩ := (later.exists_drops_iff name).mpr hname
      exact hkept op hop name creates hdrops
    · rintro ⟨hname, hnodup⟩
      refine ⟨fun op _ name' h => absurd h (not_creates_of_drops drops), ?_, ih.mpr hnodup⟩
      intro op hop name' hcreates hdrops
      obtain rfl := creates_inj hcreates creates
      exact hname ((later.exists_drops_iff name').mp ⟨op, hop, hdrops⟩)

end Migration
