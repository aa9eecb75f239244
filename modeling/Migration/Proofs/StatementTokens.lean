import Migration.Proofs.RowQueries
import Migration.Proofs.WovenNames

/-
  The tokens of generated statements.

  Ten of the statements are made of names alone: nothing else in them comes from the
  source but counts, a flag, referential actions and the numbers of an identity column.
  This file

  1. names these statements with what they are made from (`NamedStatement`), the names in
     them in order (`NamedStatement.names`), and the rest, which is their shape
     (`StatementShape`);
  2. proves that each is the words of its shape with its names quoted between them
     (`NamedStatement.weaves`);
  3. concludes that a name stays between its marks whatever it holds
     (`names_stay_between_marks`). -/

namespace Migration

/-- A statement that is made of words and names. -/
inductive NamedStatement where
  | createSchema (schema : String)
  | dropTable (schema table : String)
  | dropView (schema view : String)
  | addPrimaryKey (c : Constraint)
  | addUniqueKey (c : Constraint)
  | addForeignKey (c : Constraint)
  | createIndex (i : Index)
  | addIdentity (i : Identity)
  | selectRows (schema table : String) (columns : List String)
  | countRows (schema table : String)

/-- What a statement is like apart from the names in it. -/
inductive StatementShape where
  | createSchema
  | dropTable
  | dropView
  | addPrimaryKey (fields : Nat)
  | addUniqueKey (fields : Nat)
  | addForeignKey (fields referencedFields : Nat) (onDelete onUpdate : String)
  | createIndex (isUnique : Bool) (keys included : Nat)
  | addIdentity (startValue increment : Int)
  | selectRows (columns : Nat)
  | countRows
  deriving DecidableEq

namespace NamedStatement

def text : NamedStatement → Outcome String
  | createSchema schema => Statement.createSchema schema
  | dropTable schema table => Statement.dropTable schema table
  | dropView schema view => Statement.dropView schema view
  | addPrimaryKey c => Statement.addPrimaryKey c
  | addUniqueKey c => Statement.addUniqueKey c
  | addForeignKey c => Statement.addForeignKey c
  | createIndex i => Statement.createIndex i
  | addIdentity i => Statement.addIdentity i
  | selectRows schema table columns => Statement.selectRows schema table columns
  | countRows schema table => Statement.countRows schema table

def names : NamedStatement → List String
  | createSchema schema => [schema]
  | dropTable schema table => [schema, table]
  | dropView schema view => [schema, view]
  | addPrimaryKey c => [c.schema, c.table, c.name] ++ c.fields
  | addUniqueKey c => [c.schema, c.table, c.name] ++ c.fields
  | addForeignKey c =>
    [c.schema, c.table, c.name] ++ c.fields ++ [c.referencedSchema.getD c.schema] ++
      c.referencedTable.toList ++ c.referencedFields
  | createIndex i => [i.name, i.schema, i.table] ++ i.keyColumns ++ i.includedColumns
  | addIdentity i => [i.schema, i.table, i.column]
  | selectRows schema table columns => columns ++ [schema, table]
  | countRows schema table => [schema, table]

/-- The shape of the statement: how many columns each list has, whether an index is unique, the
referential actions, and the numbers of an identity column. -/
def shape : NamedStatement → StatementShape
  | createSchema _ => .createSchema
  | dropTable _ _ => .dropTable
  | dropView _ _ => .dropView
  | addPrimaryKey c => .addPrimaryKey c.fields.length
  | addUniqueKey c => .addUniqueKey c.fields.length
  | addForeignKey c =>
    .addForeignKey c.fields.length c.referencedFields.length
      (Statement.referentialAction (c.onDelete.getD "NO_ACTION"))
      (Statement.referentialAction (c.onUpdate.getD "NO_ACTION"))
  | createIndex i => .createIndex i.isUnique i.keyColumns.length i.includedColumns.length
  | addIdentity i => .addIdentity i.startValue i.increment
  | selectRows _ _ columns => .selectRows columns.length
  | countRows _ _ => .countRows

end NamedStatement

/-- The words in front of the names of a list. -/
def listedWords (opening : String) : Nat → List String
  | 0 => []
  | n + 1 => opening :: List.replicate n ", "

namespace StatementShape

/-- The server that statements of the shape are for. -/
def server : StatementShape → Server
  | selectRows _ => .source
  | countRows => .source
  | _ => .target

def words : StatementShape → List String
  | createSchema => ["CREATE SCHEMA IF NOT EXISTS "]
  | dropTable => ["DROP TABLE IF EXISTS ", "."]
  | dropView => ["DROP VIEW IF EXISTS ", "."]
  | addPrimaryKey fields =>
    ["ALTER TABLE ", ".", " ADD CONSTRAINT "] ++ listedWords " PRIMARY KEY (" fields
  | addUniqueKey fields =>
    ["ALTER TABLE ", ".", " ADD CONSTRAINT "] ++ listedWords " UNIQUE (" fields
  | addForeignKey fields referencedFields _ _ =>
    ["ALTER TABLE ", ".", " ADD CONSTRAINT "] ++ listedWords " FOREIGN KEY (" fields ++
      [") REFERENCES ", "."] ++ listedWords " (" referencedFields
  | createIndex isUnique keys included =>
    ["CREATE " ++ (if isUnique then "UNIQUE " else "") ++ "INDEX ", " ON ", "."] ++
      listedWords " (" keys ++ listedWords ") INCLUDE (" included
  | addIdentity _ _ => ["ALTER TABLE ", ".", " ALTER COLUMN "]
  | selectRows 0 => ["SELECT  FROM ", "."]
  | selectRows (columns + 1) => listedWords "SELECT " (columns + 1) ++ [" FROM ", "."]
  | countRows => ["SELECT COUNT_BIG(1) FROM ", "."]

def last : StatementShape → String
  | addPrimaryKey _ => ")"
  | addUniqueKey _ => ")"
  | addForeignKey _ _ onDelete onUpdate => ") ON DELETE " ++ onDelete ++ " ON UPDATE " ++ onUpdate
  | createIndex _ _ _ => ")"
  | addIdentity startValue increment =>
    " ADD GENERATED BY DEFAULT AS IDENTITY (START WITH " ++ toString startValue ++
      " INCREMENT BY " ++ toString increment ++ ")"
  | _ => ""

/-- The tokens of a statement of the shape, the names left out. -/
def skeleton (s : StatementShape) : List Outline :=
  (s.words.flatMap fun words => wordOutlines words ++ [.name s.server.nameKind]) ++
    wordOutlines s.last

end StatementShape

/-! ## The words of a shape -/

theorem isWords_listedWords {opening : String} (h : IsWords opening) (n : Nat) :
    ∀ words ∈ listedWords opening n, IsWords words := by
  cases n with
  | zero => exact nofun
  | succ n =>
    refine List.forall_mem_cons.mpr ⟨h, ?_⟩
    intro words hwords
    rw [List.eq_of_mem_replicate hwords]
    decide

theorem StatementShape.isWords (s : StatementShape) : ∀ words ∈ s.words, IsWords words := by
  have hkey : ∀ words ∈ ["ALTER TABLE ", ".", " ADD CONSTRAINT "], IsWords words := by decide
  cases s with
  | createSchema => decide
  | dropTable => decide
  | dropView => decide
  | addPrimaryKey fields =>
    exact List.forall_mem_append.mpr ⟨hkey, isWords_listedWords (by decide) fields⟩
  | addUniqueKey fields =>
    exact List.forall_mem_append.mpr ⟨hkey, isWords_listedWords (by decide) fields⟩
  | addForeignKey fields referencedFields _ _ =>
    refine List.forall_mem_append.mpr ⟨List.forall_mem_append.mpr
      ⟨List.forall_mem_append.mpr ⟨hkey, ?_⟩, by decide⟩, ?_⟩
    · exact isWords_listedWords (by decide) fields
    · exact isWords_listedWords (by decide) referencedFields
  | createIndex isUnique keys included =>
    refine List.forall_mem_append.mpr ⟨List.forall_mem_append.mpr ⟨?_, ?_⟩, ?_⟩
    · cases isUnique with
      | true => decide
      | false => decide
    · exact isWords_listedWords (by decide) keys
    · exact isWords_listedWords (by decide) included
  | addIdentity _ _ =>
    have hidentity : ∀ words ∈ ["ALTER TABLE ", ".", " ALTER COLUMN "], IsWords words := by decide
    exact hidentity
  | selectRows columns =>
    cases columns with
    | zero => decide
    | succ columns =>
      exact List.forall_mem_append.mpr ⟨isWords_listedWords (by decide) (columns + 1), by decide⟩
  | countRows => decide

theorem isPlain_append {s t : String} (hs : IsPlain s.toList) (ht : IsPlain t.toList) :
    IsPlain (s ++ t).toList := by
  rw [String.toList_append]
  exact hs.append ht

theorem referentialAction_mem (action : String) :
    Statement.referentialAction action ∈ ["CASCADE", "SET NULL", "SET DEFAULT", "NO ACTION"] := by
  unfold Statement.referentialAction
  dsimp only
  split
  · exact .head _
  · exact .tail _ (.head _)
  · exact .tail _ (.tail _ (.head _))
  · exact .tail _ (.tail _ (.tail _ (.head _)))

theorem isPlain_referentialAction (action : String) :
    IsPlain (Statement.referentialAction action).toList := by
  have hplain : ∀ text ∈ ["CASCADE", "SET NULL", "SET DEFAULT", "NO ACTION"],
      IsPlain text.toList := by decide
  exact hplain _ (referentialAction_mem action)

theorem not_mem_delimiters_of_isDigit {c : Char} (h : c.isDigit = true) : c ∉ delimiters := by
  intro hmem
  have hnone : delimiters.all (fun d => !d.isDigit) = true := rfl
  have hc := List.all_eq_true.mp hnone c hmem
  rw [h] at hc
  cases hc

theorem isPlain_toString_nat (n : Nat) : IsPlain n.repr.toList := by
  intro c hc
  rw [Nat.toList_repr] at hc
  exact not_mem_delimiters_of_isDigit (Nat.isDigit_of_mem_toDigits (by decide) (by decide) hc)

theorem isPlain_toString_int (n : Int) : IsPlain (toString n).toList := by
  cases n with
  | ofNat n => exact isPlain_toString_nat n
  | negSucc n =>
    have hchars : (toString (Int.negSucc n)).toList = "-".toList ++ (n + 1).repr.toList :=
      String.toList_append
    rw [hchars]
    exact IsPlain.append (by decide) (isPlain_toString_nat (n + 1))

/-- What stands behind the last name holds no delimiter. -/
theorem NamedStatement.isPlain_last (r : NamedStatement) : IsPlain r.shape.last.toList := by
  have hempty : IsPlain "".toList := by decide
  have hparen : IsPlain ")".toList := by decide
  cases r with
  | addForeignKey c =>
    have hdelete := isPlain_referentialAction (c.onDelete.getD "NO_ACTION")
    have hupdate := isPlain_referentialAction (c.onUpdate.getD "NO_ACTION")
    have hfront : IsPlain ") ON DELETE ".toList := by decide
    have hmiddle : IsPlain " ON UPDATE ".toList := by decide
    exact isPlain_append (isPlain_append (isPlain_append hfront hdelete) hmiddle) hupdate
  | addIdentity i =>
    have hstart := isPlain_toString_int i.startValue
    have hincrement := isPlain_toString_int i.increment
    have hfront : IsPlain " ADD GENERATED BY DEFAULT AS IDENTITY (START WITH ".toList := by decide
    have hmiddle : IsPlain " INCREMENT BY ".toList := by decide
    exact isPlain_append (isPlain_append (isPlain_append (isPlain_append hfront hstart) hmiddle)
      hincrement) hparen
  | createSchema _ => exact hempty
  | dropTable _ _ => exact hempty
  | dropView _ _ => exact hempty
  | addPrimaryKey _ => exact hparen
  | addUniqueKey _ => exact hparen
  | createIndex _ => exact hparen
  | selectRows _ _ _ => exact hempty
  | countRows _ _ => exact hempty

/-! ## Quoted names -/

theorem quotePg_named {name text : String} (h : quotePg name = .ok text) :
    text = Server.target.quoted name ∧ name ≠ "" := by
  obtain ⟨⟨⟩, hvalid, -⟩ := Outcome.bind_ok h
  exact ⟨quotePg_ok h, ne_empty_of_valid hvalid⟩

theorem quoteMssql_named {name text : String} (h : quoteMssql name = .ok text) :
    text = Server.source.quoted name ∧ name ≠ "" := by
  obtain ⟨⟨⟩, hvalid, -⟩ := Outcome.bind_ok h
  exact ⟨quoteMssql_ok h, ne_empty_of_valid hvalid⟩

theorem qualifyPg_named {schema name text : String} (h : qualifyPg schema name = .ok text) :
    text = Server.target.quoted schema ++ "." ++ Server.target.quoted name ∧ schema ≠ "" ∧
      name ≠ "" := by
  obtain ⟨s, hschema, h'⟩ := Outcome.bind_ok h
  obtain ⟨t, hname, -⟩ := Outcome.bind_ok h'
  exact ⟨qualifyPg_ok h, (quotePg_named hschema).2, (quotePg_named hname).2⟩

theorem qualifyMssql_named {schema name text : String} (h : qualifyMssql schema name = .ok text) :
    text = Server.source.quoted schema ++ "." ++ Server.source.quoted name ∧ schema ≠ "" ∧
      name ≠ "" := by
  obtain ⟨s, hschema, h'⟩ := Outcome.bind_ok h
  obtain ⟨t, hname, -⟩ := Outcome.bind_ok h'
  exact ⟨qualifyMssql_ok h, (quoteMssql_named hschema).2, (quoteMssql_named hname).2⟩

theorem Outcome.forall_of_each {α β : Type} {step : α → Outcome β} {P : α → Prop}
    (hstep : ∀ {a b}, step a = .ok b → P a) {items : List α} {bs : List β}
    (h : Outcome.each step items = .ok bs) : ∀ a ∈ items, P a := by
  induction items generalizing bs with
  | nil => exact nofun
  | cons a rest ih =>
    obtain ⟨b, hb, h⟩ := Outcome.bind_ok h
    obtain ⟨later, hlater, -⟩ := Outcome.bind_ok h
    exact List.forall_mem_cons.mpr ⟨hstep hb, ih hlater⟩

theorem columnList_named {columns : List String} {text : String}
    (h : Statement.columnList columns = .ok text) :
    text = Statement.commaJoined (columns.map Server.target.quoted) ∧
      ∀ name ∈ columns, name ≠ "" := by
  obtain ⟨quoted, hquoted, h⟩ := Outcome.bind_ok h
  cases h
  refine ⟨?_, Outcome.forall_of_each (fun h => (quotePg_named h).2) hquoted⟩
  rw [Outcome.each_ok (fun h => (quotePg_named h).1) hquoted]

/-! ## Words and names of a list -/

/-- The names of a list, each behind its words. -/
def listed (opening : String) : List String → List (String × String)
  | [] => []
  | name :: rest => (opening, name) :: rest.map fun name => (", ", name)

theorem map_fst_listed (opening : String) (names : List String) :
    (listed opening names).map Prod.fst = listedWords opening names.length := by
  cases names with
  | nil => rfl
  | cons name rest =>
    rw [listed, List.map_cons, List.map_map, List.length_cons, listedWords]
    exact congrArg _ List.map_const

theorem map_snd_listed (opening : String) (names : List String) :
    (listed opening names).map Prod.snd = names := by
  cases names with
  | nil => rfl
  | cons name rest =>
    rw [listed, List.map_cons, List.map_map]
    exact congrArg _ (List.map_id rest)

@[simp] theorem woven_nil (server : Server) : woven server [] = [] := rfl

@[simp] theorem woven_append (server : Server) (pairs pairs' : List (String × String)) :
    woven server (pairs ++ pairs') = woven server pairs ++ woven server pairs' :=
  List.flatMap_append

theorem woven_behindFirst (server : Server) (names : List String) :
    woven server (names.map fun name => (", ", name)) =
      Statement.behindFirst (names.map server.quoted) := by
  induction names with
  | nil => rfl
  | cons name rest ih => rw [List.map_cons, woven_cons, ih, List.map_cons, Statement.behindFirst]

/-- The names of a list stand behind its words as they stand in the list joined by commas. -/
theorem woven_listed (server : Server) (opening : String) {names : List String} (h : names ≠ []) :
    woven server (listed opening names) =
      opening.toList ++ (Statement.commaJoined (names.map server.quoted)).toList := by
  cases names with
  | nil => exact absurd rfl h
  | cons name rest =>
    rw [listed, woven_cons, woven_behindFirst, List.map_cons, Statement.toList_commaJoined_cons,
      List.append_assoc]

/-! ## The text of each statement -/

/-- The text is made of the words and the names, quoted, in turn, and of the last words. -/
structure Weaves (server : Server) (words : List String) (last : String) (names : List String)
    (sql : String) (pairs : List (String × String)) : Prop where
  inFront : pairs.map Prod.fst = words
  behind : pairs.map Prod.snd = names
  named : ∀ name ∈ names, name ≠ ""
  text : sql.toList = woven server pairs ++ last.toList

theorem weaves_createSchema {schema sql : String} (h : Statement.createSchema schema = .ok sql) :
    ∃ pairs, Weaves .target ["CREATE SCHEMA IF NOT EXISTS "] "" [schema] sql pairs := by
  obtain ⟨text, htext, h⟩ := Outcome.bind_ok h
  cases h
  obtain ⟨rfl, hname⟩ := quotePg_named htext
  refine ⟨[("CREATE SCHEMA IF NOT EXISTS ", schema)], rfl, rfl, by simp [hname], ?_⟩
  simp only [woven_cons, woven_nil, String.toList_append, List.append_nil, String.toList_empty]

theorem weaves_qualified {server : Server} (words : String) {schema name text : String}
    (h : text = server.quoted schema ++ "." ++ server.quoted name ∧ schema ≠ "" ∧ name ≠ "") :
    ∃ pairs, Weaves server [words, "."] "" [schema, name] (words ++ text) pairs := by
  obtain ⟨rfl, hschema, hname⟩ := h
  refine ⟨[(words, schema), (".", name)], rfl, rfl, by simp [hschema, hname], ?_⟩
  simp only [woven_cons, woven_nil, String.toList_append, List.append_assoc, List.append_nil,
    String.toList_empty]

theorem weaves_addIdentity {i : Identity} {sql : String} (h : Statement.addIdentity i = .ok sql) :
    ∃ pairs, Weaves .target ["ALTER TABLE ", ".", " ALTER COLUMN "]
      (" ADD GENERATED BY DEFAULT AS IDENTITY (START WITH " ++ toString i.startValue ++
        " INCREMENT BY " ++ toString i.increment ++ ")") [i.schema, i.table, i.column] sql
        pairs := by
  obtain ⟨table, hqualified, h⟩ := Outcome.bind_ok h
  obtain ⟨column, hquoted, h⟩ := Outcome.bind_ok h
  cases h
  obtain ⟨rfl, hschema, htable⟩ := qualifyPg_named hqualified
  obtain ⟨rfl, hcolumn⟩ := quotePg_named hquoted
  refine ⟨[("ALTER TABLE ", i.schema), (".", i.table), (" ALTER COLUMN ", i.column)], rfl, rfl,
    ?_, ?_⟩
  · simp [hschema, htable, hcolumn]
  · simp only [woven_cons, woven_nil, String.toList_append, List.append_assoc, List.append_nil]

theorem weaves_addKey {words sql : String} {c : Constraint}
    (h : Statement.addKey words c = .ok sql) :
    ∃ pairs, Weaves .target (["ALTER TABLE ", ".", " ADD CONSTRAINT "] ++
      listedWords (" " ++ words ++ " (") c.fields.length) ")"
      ([c.schema, c.table, c.name] ++ c.fields) sql pairs := by
  rw [Statement.addKey] at h
  split at h
  · cases h
  · rename_i hfields
    have hfields : c.fields ≠ [] := by simpa using hfields
    obtain ⟨table, hqualified, h⟩ := Outcome.bind_ok h
    obtain ⟨name, hquoted, h⟩ := Outcome.bind_ok h
    obtain ⟨fields, hlist, h⟩ := Outcome.bind_ok h
    cases h
    obtain ⟨rfl, hschema, htable⟩ := qualifyPg_named hqualified
    obtain ⟨rfl, hname⟩ := quotePg_named hquoted
    obtain ⟨rfl, hnamed⟩ := columnList_named hlist
    refine ⟨[("ALTER TABLE ", c.schema), (".", c.table), (" ADD CONSTRAINT ", c.name)] ++
      listed (" " ++ words ++ " (") c.fields, ?_, ?_, ?_, ?_⟩
    · rw [List.map_append, map_fst_listed]
      rfl
    · rw [List.map_append, map_snd_listed]
      rfl
    · exact List.forall_mem_append.mpr ⟨by simp [hschema, htable, hname], hnamed⟩
    · simp only [woven_append, woven_cons, woven_nil, woven_listed _ _ hfields,
        String.toList_append, List.append_assoc, List.append_nil]

theorem weaves_addForeignKey {c : Constraint} {sql : String}
    (h : Statement.addForeignKey c = .ok sql) :
    ∃ pairs, Weaves .target (["ALTER TABLE ", ".", " ADD CONSTRAINT "] ++
        listedWords " FOREIGN KEY (" c.fields.length ++ [") REFERENCES ", "."] ++
        listedWords " (" c.referencedFields.length)
      (") ON DELETE " ++ Statement.referentialAction (c.onDelete.getD "NO_ACTION") ++
        " ON UPDATE " ++ Statement.referentialAction (c.onUpdate.getD "NO_ACTION"))
      ([c.schema, c.table, c.name] ++ c.fields ++ [c.referencedSchema.getD c.schema] ++
        c.referencedTable.toList ++ c.referencedFields) sql pairs := by
  rw [Statement.addForeignKey] at h
  split at h
  · cases h
  · rename_i hfields
    have hfields : c.fields ≠ [] := by simpa using hfields
    cases hreferenced : c.referencedTable with
    | none =>
      rw [hreferenced] at h
      cases h
    | some referencedTable =>
      simp only [hreferenced] at h
      split at h
      · cases h
      · rename_i hlength
        -- both lists have one length, so neither is empty
        have hreferencedFields : c.referencedFields ≠ [] := by
          intro hnil
          rw [hnil] at hlength
          exact hfields (List.length_eq_zero_iff.mp (Decidable.not_not.mp hlength).symm)
        obtain ⟨table, hqualified, h⟩ := Outcome.bind_ok h
        obtain ⟨name, hquoted, h⟩ := Outcome.bind_ok h
        obtain ⟨fields, hlist, h⟩ := Outcome.bind_ok h
        obtain ⟨referenced, hqualified', h⟩ := Outcome.bind_ok h
        obtain ⟨referencedFields, hlist', h⟩ := Outcome.bind_ok h
        cases h
        obtain ⟨rfl, hschema, htable⟩ := qualifyPg_named hqualified
        obtain ⟨rfl, hname⟩ := quotePg_named hquoted
        obtain ⟨rfl, hnamed⟩ := columnList_named hlist
        obtain ⟨rfl, hschema', htable'⟩ := qualifyPg_named hqualified'
        obtain ⟨rfl, hnamed'⟩ := columnList_named hlist'
        refine ⟨[("ALTER TABLE ", c.schema), (".", c.table), (" ADD CONSTRAINT ", c.name)] ++
          listed " FOREIGN KEY (" c.fields ++
          [(") REFERENCES ", c.referencedSchema.getD c.schema), (".", referencedTable)] ++
          listed " (" c.referencedFields, ?_, ?_, ?_, ?_⟩
        · simp only [List.map_append, map_fst_listed]
          rfl
        · simp only [List.map_append, map_snd_listed, List.append_assoc]
          rfl
        · simp only [List.forall_mem_append]
          refine ⟨⟨⟨⟨?_, hnamed⟩, ?_⟩, ?_⟩, hnamed'⟩
          · simp [hschema, htable, hname]
          · simp [hschema']
          · simp [htable']
        · simp only [woven_append, woven_cons, woven_nil, woven_listed _ _ hfields,
            woven_listed _ _ hreferencedFields, String.toList_append, List.append_assoc,
            List.append_nil]

/-- The columns that an index covers stand behind its keys, or nothing does. -/
theorem includeClause_named {columns : List String} {clause : String}
    (h : Statement.includeClause columns = .ok clause) :
    (∀ name ∈ columns, name ≠ "") ∧ ")".toList ++ clause.toList =
      woven .target (listed ") INCLUDE (" columns) ++ ")".toList := by
  rw [Statement.includeClause] at h
  split at h
  · rename_i hempty
    cases h
    obtain rfl := List.isEmpty_iff.mp hempty
    exact ⟨nofun, rfl⟩
  · rename_i hcolumns
    have hcolumns : columns ≠ [] := by simpa using hcolumns
    obtain ⟨text, hlist, h⟩ := Outcome.bind_ok h
    cases h
    obtain ⟨rfl, hnamed⟩ := columnList_named hlist
    have hwords : ") INCLUDE (".toList = ")".toList ++ " INCLUDE (".toList := rfl
    refine ⟨hnamed, ?_⟩
    simp only [woven_listed _ _ hcolumns, hwords, String.toList_append, List.append_assoc]

theorem weaves_createIndex {i : Index} {sql : String} (h : Statement.createIndex i = .ok sql) :
    ∃ pairs, Weaves .target
      (["CREATE " ++ (if i.isUnique then "UNIQUE " else "") ++ "INDEX ", " ON ", "."] ++
        listedWords " (" i.keyColumns.length ++ listedWords ") INCLUDE (" i.includedColumns.length)
      ")" ([i.name, i.schema, i.table] ++ i.keyColumns ++ i.includedColumns) sql pairs := by
  rw [Statement.createIndex] at h
  split at h
  · cases h
  · rename_i hkeys
    have hkeys : i.keyColumns ≠ [] := by simpa using hkeys
    obtain ⟨name, hquoted, h⟩ := Outcome.bind_ok h
    obtain ⟨table, hqualified, h⟩ := Outcome.bind_ok h
    obtain ⟨keys, hlist, h⟩ := Outcome.bind_ok h
    obtain ⟨included, hclause, h⟩ := Outcome.bind_ok h
    cases h
    obtain ⟨rfl, hname⟩ := quotePg_named hquoted
    obtain ⟨rfl, hschema, htable⟩ := qualifyPg_named hqualified
    obtain ⟨rfl, hnamed⟩ := columnList_named hlist
    obtain ⟨hnamed', hincluded⟩ := includeClause_named hclause
    refine ⟨[("CREATE " ++ (if i.isUnique then "UNIQUE " else "") ++ "INDEX ", i.name),
      (" ON ", i.schema), (".", i.table)] ++ listed " (" i.keyColumns ++
      listed ") INCLUDE (" i.includedColumns, ?_, ?_, ?_, ?_⟩
    · simp only [List.map_append, map_fst_listed]
      rfl
    · simp only [List.map_append, map_snd_listed]
      rfl
    · simp only [List.forall_mem_append]
      exact ⟨⟨by simp [hname, hschema, htable], hnamed⟩, hnamed'⟩
    · simp only [woven_append, woven_cons, woven_nil, woven_listed _ _ hkeys, hincluded,
        String.toList_append, List.append_assoc, List.append_nil]

theorem weaves_selectRows {schema table sql : String} {columns : List String}
    (h : Statement.selectRows schema table columns = .ok sql) :
    ∃ pairs, Weaves .source (StatementShape.selectRows columns.length).words ""
      (columns ++ [schema, table]) sql pairs := by
  obtain ⟨quoted, hlist, h⟩ := Outcome.bind_ok h
  obtain ⟨name, hqualified, h⟩ := Outcome.bind_ok h
  cases h
  obtain ⟨rfl, hschema, htable⟩ := qualifyMssql_named hqualified
  have hnamed := Outcome.forall_of_each (fun h => (quoteMssql_named h).2) hlist
  obtain rfl := Outcome.each_ok (fun h => (quoteMssql_named h).1) hlist
  cases columns with
  | nil =>
    -- without columns the blanks on both sides of the list run together
    have hwords : "SELECT  FROM ".toList = "SELECT ".toList ++ " FROM ".toList := rfl
    have hnone : (Statement.commaJoined []).toList = [] := rfl
    refine ⟨[("SELECT  FROM ", schema), (".", table)], rfl, rfl, by simp [hschema, htable], ?_⟩
    simp only [woven_cons, woven_nil, hwords, hnone, List.map_nil, String.toList_append,
      List.append_assoc, List.append_nil, String.toList_empty]
  | cons column columns =>
    refine ⟨listed "SELECT " (column :: columns) ++ [(" FROM ", schema), (".", table)], ?_, ?_, ?_,
      ?_⟩
    · rw [List.map_append, map_fst_listed]
      rfl
    · rw [List.map_append, map_snd_listed]
      rfl
    · exact List.forall_mem_append.mpr ⟨hnamed, by simp [hschema, htable]⟩
    · simp only [woven_append, woven_cons, woven_nil,
        woven_listed _ _ (List.cons_ne_nil column columns), String.toList_append,
        List.append_assoc, List.append_nil, String.toList_empty]

theorem NamedStatement.weaves {r : NamedStatement} {sql : String} (h : r.text = .ok sql) :
    ∃ pairs, Weaves r.shape.server r.shape.words r.shape.last r.names sql pairs := by
  cases r with
  | createSchema _ => exact weaves_createSchema h
  | dropTable _ _ =>
    obtain ⟨text, htext, h⟩ := Outcome.bind_ok h
    cases h
    exact weaves_qualified _ (qualifyPg_named htext)
  | dropView _ _ =>
    obtain ⟨text, htext, h⟩ := Outcome.bind_ok h
    cases h
    exact weaves_qualified _ (qualifyPg_named htext)
  | addPrimaryKey _ => exact weaves_addKey h
  | addUniqueKey _ => exact weaves_addKey h
  | addForeignKey _ => exact weaves_addForeignKey h
  | createIndex _ => exact weaves_createIndex h
  | addIdentity _ => exact weaves_addIdentity h
  | selectRows _ _ _ => exact weaves_selectRows h
  | countRows _ _ =>
    obtain ⟨text, htext, h⟩ := Outcome.bind_ok h
    cases h
    exact weaves_qualified _ (qualifyMssql_named htext)

/-! ## The tokens of each statement -/

theorem NamedStatement.tokens {r : NamedStatement} {sql : String} (h : r.text = .ok sql) :
    ∃ ts, tokenize sql = .ok ts ∧ outlines ts = r.shape.skeleton ∧
      namesIn ts = r.names.map fun name => (r.shape.server.nameKind, name) := by
  obtain ⟨pairs, hwoven⟩ := weaves h
  have hpairs : ∀ p ∈ pairs, IsWords p.1 ∧ p.2 ≠ "" := by
    intro p hp
    refine ⟨r.shape.isWords p.1 ?_, hwoven.named p.2 ?_⟩
    · rw [← hwoven.inFront]
      exact List.mem_map_of_mem hp
    · rw [← hwoven.behind]
      exact List.mem_map_of_mem hp
  obtain ⟨ts, hts, houtlines, hnames⟩ :=
    tokenize_woven r.shape.server hpairs r.isPlain_last hwoven.text
  refine ⟨ts, hts, ?_, ?_⟩
  · rw [houtlines, StatementShape.skeleton, ← hwoven.inFront, List.flatMap_map]
  · rw [hnames, ← hwoven.behind, List.map_map]
    rfl

/-- A statement of words and names has tokens, whatever its names hold. The names between marks
among them are its names in order, and the other tokens depend on nothing but its shape. So
statements of one shape differ in nothing but their names, and those with other names are other
statements. -/
theorem names_stay_between_marks (r : NamedStatement) (sql : String) (h : r.text = .ok sql) :
    ∃ ts, tokenize sql = .ok ts ∧ outlines ts = r.shape.skeleton ∧
      namesIn ts = (r.names.map fun name => (r.shape.server.nameKind, name)) ∧
      ∀ (r' : NamedStatement) (sql' : String), r'.text = .ok sql' → r'.shape = r.shape →
        (∃ ts', tokenize sql' = .ok ts' ∧ outlines ts' = outlines ts) ∧
        (r'.names ≠ r.names → sql' ≠ sql) := by
  obtain ⟨ts, hts, houtlines, hnames⟩ := NamedStatement.tokens h
  refine ⟨ts, hts, houtlines, hnames, ?_⟩
  intro r' sql' h' hshape
  obtain ⟨ts', hts', houtlines', hnames'⟩ := NamedStatement.tokens h'
  refine ⟨⟨ts', hts', by rw [houtlines', houtlines, hshape]⟩, ?_⟩
  rintro hne rfl
  -- one text has one list of tokens, and they tell the names
  obtain rfl := Except.ok.inj (hts'.symm.trans hts)
  rw [hnames, hshape] at hnames'
  have hsame := congrArg (List.map Prod.snd) hnames'
  simp only [List.map_map, Function.comp_def, List.map_id'] at hsame
  exact hne hsame.symm

/-- A key whose names hold a quote, the end of the statement and the openings of comments, and a key
of the same shape. -/
theorem hostile_names_stay_between_marks :
    ∃ ts, tokenize ("ALTER TABLE \"s\".\"t\"\"\" ADD CONSTRAINT \"x\"\"); DROP TABLE t --\"" ++
        " PRIMARY KEY (\"/*\", \"'\")") = .ok ts ∧
      outlines ts = (StatementShape.addPrimaryKey 2).skeleton ∧
      namesIn ts = [(.quotedIdentifier, "s"), (.quotedIdentifier, "t\""),
        (.quotedIdentifier, "x\"); DROP TABLE t --"), (.quotedIdentifier, "/*"),
        (.quotedIdentifier, "'")] ∧
      ∃ ts', tokenize "ALTER TABLE \"s\".\"t\" ADD CONSTRAINT \"k\" PRIMARY KEY (\"a\", \"b\")" =
        .ok ts' ∧ outlines ts' = outlines ts := by
  let hostile : NamedStatement :=
    .addPrimaryKey ⟨"s", "t\"", "x\"); DROP TABLE t --", .primaryKey, ["/*", "'"], none, none, [],
      none, none, none, none⟩
  let plain : NamedStatement :=
    .addPrimaryKey ⟨"s", "t", "k", .primaryKey, ["a", "b"], none, none, [], none, none, none, none⟩
  obtain ⟨ts, hts, houtlines, hnames, hshape⟩ := names_stay_between_marks hostile _ rfl
  obtain ⟨hplain, -⟩ := hshape plain _ rfl rfl
  exact ⟨ts, hts, houtlines, hnames, hplain⟩

end Migration
