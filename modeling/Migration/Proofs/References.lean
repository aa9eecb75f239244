import Migration.Proofs.TableLoss

/-
  What the statements of a migration refer to.

  Keys, identity columns and indexes find the target name of their table by renaming
  what their descriptors say of it, defaults take it from the table at hand, and foreign
  keys name a second table, maybe of another schema. This file

  1. says of a source that its descriptors name their own tables and columns of them
     (`Source.Consistent`);
  2. says which statement is made of which descriptor, and which tables and columns of
     the source stand in it for which of the target (`Alteration`, `Mention`), and that a
     mention is grounded where the table was made before with such columns (`Grounded`);
  3. proves of each draft that what it alters is grounded in the table at hand, and by
     induction on what a plan is made of that each statement is grounded in those before
     it (`Plan.PlanMade.founded`);
  4. concludes the same of a migration that succeeds (`migrate_refers_to_made_tables`). -/

namespace Migration

open Naming (ColumnsCarry Ledger NamingPolicy Renaming referredSchema resolveIndexCollisions)

/-! ## Consistent sources -/

def answered {α : Type} : Outcome (List α) → List α
  | .ok as => as
  | .error _ => []

namespace Source

variable (source : Source)

def columnNames (x : QualifiedName) : List String :=
  (answered (source.columns x.1 x.2)).map Column.name

def keysOf (x : QualifiedName) : List Constraint :=
  answered ((source.primaryKey x.1 x.2).map Option.toList) ++ answered (source.uniqueKeys x.1 x.2)

def foreignKeysOf (x : QualifiedName) : List Constraint := answered (source.foreignKeys x.1 x.2)

/-- The indexes of a schema, and its statistics as indexes. -/
def indexesOf (schema : String) : List Index :=
  answered (source.indexes schema) ++ (answered (source.statistics schema)).map Statistics.toIndex

/-- Every descriptor names the table that it belongs to and columns of it, and every foreign key a
table of a migrated schema and columns of that. -/
structure Consistent : Prop where
  keys : ∀ x ∈ source.listed, ∀ c ∈ source.keysOf x ++ source.foreignKeysOf x,
    (c.schema, c.table) = x ∧ c.fields ⊆ source.columnNames x
  references : ∀ x ∈ source.listed, ∀ c ∈ source.foreignKeysOf x, ∀ table ∈ c.referencedTable,
    (referredSchema c, table) ∈ source.listed ∧
      c.referencedFields ⊆ source.columnNames (referredSchema c, table)
  identities : ∀ x ∈ source.listed, ∀ i ∈ answered (source.identities x.1 x.2),
    (i.schema, i.table) = x ∧ i.column ∈ source.columnNames x
  indexes : ∀ s ∈ answered source.schemas, source.isSchemaEmpty s.name = .ok false →
    ∀ i ∈ source.indexesOf s.name, (i.schema, i.table) ∈ source.tablesOf s.name ∧
      i.keyColumns ++ i.includedColumns ⊆ source.columnNames (i.schema, i.table)

end Source

/-! ## Statements and what they mention -/

/-- A table of the source with some of its columns, and what stands for them in a statement. -/
structure Mention where
  table : QualifiedName
  columns : List String
  targetTable : QualifiedName
  targetColumns : List String

/-- The statement is made of a descriptor that the source lists for a table or a schema, and
mentions these tables: its own, and that to which a foreign key refers. -/
inductive Alteration (m : RunSettings) (source : Source) (text : String) : List Mention → Prop where
  | key {x : QualifiedName} {c renamed : Constraint} {events : List Renaming} {words : String}
      (listed : c ∈ source.keysOf x) (renames : (m.policy.renameConstraint c).Yields renamed events)
      (written : Statement.addKey words renamed = .ok text) :
      Alteration m source text [⟨x, c.fields, (renamed.schema, renamed.table), renamed.fields⟩]
  | foreignKey {x : QualifiedName} {c renamed : Constraint} {events : List Renaming}
      {table targetTable : String} (listed : c ∈ source.foreignKeysOf x)
      (renames : (m.policy.renameConstraint c).Yields renamed events)
      (refers : c.referencedTable = some table)
      (referred : renamed.referencedTable = some targetTable)
      (written : Statement.addForeignKey renamed = .ok text) :
      Alteration m source text [⟨x, c.fields, (renamed.schema, renamed.table), renamed.fields⟩,
        ⟨(referredSchema c, table), c.referencedFields, (referredSchema renamed, targetTable),
          renamed.referencedFields⟩]
  | default {x target : QualifiedName} {column name expression : String} {c : Constraint}
      (listed : c ∈ answered (source.defaults x.1 x.2 column))
      (written : Statement.setDefault target.1 target.2 name expression = .ok text) :
      Alteration m source text [⟨x, [column], target, [name]⟩]
  | identity {x : QualifiedName} {i renamed : Identity} {events : List Renaming}
      (listed : i ∈ answered (source.identities x.1 x.2))
      (renames : (m.policy.renameIdentity i).Yields renamed events)
      (written : Statement.addIdentity renamed = .ok text) :
      Alteration m source text [⟨x, [i.column], (renamed.schema, renamed.table), [renamed.column]⟩]
  | index {schema name : String} {i renamed : Index} {events : List Renaming}
      (listed : i ∈ source.indexesOf schema)
      (renames : (m.policy.renameIndex i).Yields renamed events)
      (written : Statement.createIndex { renamed with name } = .ok text) :
      Alteration m source text [⟨(i.schema, i.table), i.keyColumns ++ i.includedColumns,
        (renamed.schema, renamed.table), renamed.keyColumns ++ renamed.includedColumns⟩]

/-- The operations before create the schema, and then the table, for a table of the source: under
the name of the policy, with a definition for each of its columns. -/
structure MadeBefore (m : RunSettings) (source : Source) (before : List Operation)
    (x target : QualifiedName) (columns : List Column) (definitions : List ColumnDefinition) :
    Prop where
  isListed : x ∈ source.listed
  named : m.targetOf x = .ok target
  listed : source.columns x.1 x.2 = .ok columns
  defined : List.Forall₂ (Plan.ColumnDefined m x.1 x.2) columns definitions
  made : ∃ schema create, Statement.createSchema target.1 = .ok schema ∧
    Statement.createTable target.1 target.2 definitions = .ok create ∧
    [.execute schema, .execute create].Sublist before

/-- What is mentioned was made before: the table under this name, and each column by the definition
that has this name. -/
def Grounded (m : RunSettings) (source : Source) (before : List Operation) (x : Mention) : Prop :=
  ∃ columns definitions, MadeBefore m source before x.table x.targetTable columns definitions ∧
    List.Forall₂ (fun raw name => ∃ p ∈ columns.zip definitions, p.1.name = raw ∧ p.2.name = name)
      x.columns x.targetColumns

/-- If the operation alters a table, it is made of a descriptor, and what it mentions was made
before. -/
def Founded (m : RunSettings) (source : Source) (before : List Operation) (op : Operation) : Prop :=
  ∀ text, op = .execute text → Alters text →
    ∃ mentions, Alteration m source text mentions ∧ ∀ x ∈ mentions, Grounded m source before x

/-- Each operation is founded in those before it. -/
def AllFounded (m : RunSettings) (source : Source) :
    (before : List Operation) → List Operation → Prop
  | _, [] => True
  | before, op :: rest => Founded m source before op ∧ AllFounded m source (before ++ [op]) rest

variable {m : RunSettings} {source : Source} {before before' : List Operation}
  {x target : QualifiedName} {columns : List Column} {definitions : List ColumnDefinition}

/-! ## More operations before -/

theorem MadeBefore.mono (h : MadeBefore m source before x target columns definitions)
    (hbefore : before.Sublist before') :
    MadeBefore m source before' x target columns definitions where
  isListed := h.isListed
  named := h.named
  listed := h.listed
  defined := h.defined
  made := by
    obtain ⟨schema, create, hschema, hcreate, hmade⟩ := h.made
    exact ⟨schema, create, hschema, hcreate, hmade.trans hbefore⟩

theorem Founded.mono {op : Operation} (h : Founded m source before op)
    (hbefore : before.Sublist before') : Founded m source before' op := by
  intro text hop halters
  obtain ⟨mentions, halteration, hgrounded⟩ := h text hop halters
  refine ⟨mentions, halteration, fun x hx => ?_⟩
  obtain ⟨columns, definitions, hmade, hcolumns⟩ := hgrounded x hx
  exact ⟨columns, definitions, hmade.mono hbefore, hcolumns⟩

theorem AllFounded.mono {ops : List Operation} (h : AllFounded m source before ops)
    (hbefore : before.Sublist before') : AllFounded m source before' ops := by
  induction ops generalizing before before' with
  | nil => trivial
  | cons op rest ih => exact ⟨h.1.mono hbefore, ih h.2 (hbefore.append_right [op])⟩

theorem AllFounded.append {first second : List Operation} (h : AllFounded m source before first)
    (h' : AllFounded m source (before ++ first) second) :
    AllFounded m source before (first ++ second) := by
  induction first generalizing before with
  | nil => simpa using h'
  | cons op rest ih =>
    refine ⟨h.1, ih h.2 ?_⟩
    simpa using h'

theorem allFounded_of_forall {ops : List Operation} (h : ∀ op ∈ ops, Founded m source before op) :
    AllFounded m source before ops := by
  induction ops generalizing before with
  | nil => trivial
  | cons op rest ih =>
    refine ⟨h op List.mem_cons_self, ih fun op' hop' => ?_⟩
    exact (h op' (List.mem_cons_of_mem _ hop')).mono (List.sublist_append_left _ _)

theorem AllFounded.founded {earlier later : List Operation} {op : Operation}
    (h : AllFounded m source before (earlier ++ op :: later)) :
    Founded m source (before ++ earlier) op := by
  induction earlier generalizing before with
  | nil =>
    rw [List.append_nil]
    exact h.1
  | cons op' rest ih => simpa using ih h.2

/-! ## Mentions that are grounded -/

theorem exists_definition {schema table raw name : String}
    (hdefined : List.Forall₂ (Plan.ColumnDefined m schema table) columns definitions)
    (hraw : raw ∈ columns.map Column.name) (hname : m.policy.Names (schema, .column, raw) name) :
    ∃ p ∈ columns.zip definitions, p.1.name = raw ∧ p.2.name = name := by
  induction hdefined with
  | nil => exact absurd hraw List.not_mem_nil
  | @cons c d columns definitions hc hrest ih =>
    rcases List.mem_cons.mp hraw with rfl | hraw
    · exact ⟨(c, d), List.mem_cons_self, rfl, hc.names.unique hname⟩
    · obtain ⟨p, hp, hsame⟩ := ih hraw
      exact ⟨p, List.mem_cons_of_mem _ hp, hsame⟩

/-- Where a table was made before, a mention of it by the names of the policy is grounded. -/
theorem MadeBefore.grounded (h : MadeBefore m source before x target columns definitions)
    {schema table : String} {raws names : List String} (hraws : raws ⊆ source.columnNames x)
    (hschema : m.policy.Names (x.1, .schema, x.1) schema)
    (htable : m.policy.Names (x.1, .table, x.2) table)
    (hnames : ColumnsCarry m.policy.Names x.1 raws names) :
    Grounded m source before ⟨x, raws, (schema, table), names⟩ := by
  have htarget : target = (schema, table) := by
    have hnamed : m.targetOf x = .ok (schema, table) :=
      RunSettings.targetOf_of_names hschema htable
    rw [h.named] at hnamed
    exact Except.ok.inj hnamed
  subst htarget
  refine ⟨columns, definitions, h, ?_⟩
  have hlisted : source.columnNames x = columns.map Column.name := by
    rw [Source.columnNames, h.listed]
    rfl
  rw [hlisted] at hraws
  show List.Forall₂ _ raws names
  induction hnames with
  | nil => exact .nil
  | cons hname hnames ih =>
    rw [List.cons_subset] at hraws
    exact .cons (exists_definition h.defined hraws.1 hname) (ih hraws.2)

theorem founded_of_alteration {text : String} {mentions : List Mention}
    (h : Alteration m source text mentions)
    (hgrounded : ∀ x ∈ mentions, Grounded m source before x) :
    Founded m source before (.execute text) := by
  intro text' hop _
  cases hop
  exact ⟨mentions, h, hgrounded⟩

/-! ## Statements that alter nothing -/

theorem founded_of_not_execute {op : Operation} (h : ∀ text, op ≠ .execute text) :
    Founded m source before op :=
  fun text hop _ => absurd hop (h text)

/-- Where the first eight characters are not those of a statement that alters, nothing is to be
founded. -/
theorem founded_of_begins {words text : String} (h : Begins words text)
    (hlength : 8 ≤ words.toList.length)
    (hwords : words.toList.take 8 ∉ ["ALTER TA".toList, "CREATE I".toList, "CREATE U".toList]) :
    Founded m source before (.execute text) := by
  intro text' hop halters
  cases hop
  refine absurd ?_ hwords
  rw [← take_of_begins h 8 hlength]
  rcases halters with halters | halters | halters
  · rw [take_of_begins halters 8 (by decide)]
    decide
  · rw [take_of_begins halters 8 (by decide)]
    decide
  · rw [take_of_begins halters 8 (by decide)]
    decide

theorem founded_createSchema {schema text : String}
    (h : Statement.createSchema schema = .ok text) : Founded m source before (.execute text) := by
  obtain ⟨name, -, h⟩ := Outcome.bind_ok h
  obtain rfl := Except.ok.inj h
  exact founded_of_begins (begins_append _ _) (by decide) (by decide)

theorem founded_of_drops {op : Operation} {name : QualifiedName} (h : Drops name op) :
    Founded m source before op := by
  obtain ⟨text, hdrop, rfl⟩ := h
  exact founded_of_begins (begins_of_drops ⟨text, hdrop, rfl⟩) (by decide) (by decide)

theorem founded_of_creates {op : Operation} {name : QualifiedName} (h : Creates name op) :
    Founded m source before op := by
  obtain ⟨columns, text, hcreate, rfl⟩ := h
  exact founded_of_begins (begins_of_creates ⟨columns, text, hcreate, rfl⟩) (by decide) (by decide)

/-! ## Statements of descriptors -/

theorem referencedTable_of_addForeignKey {c : Constraint} {text : String}
    (h : Statement.addForeignKey c = .ok text) : ∃ table, c.referencedTable = some table := by
  rw [Statement.addForeignKey] at h
  split at h
  · cases h
  · split at h
    · cases h
    · rename_i table htable
      exact ⟨table, htable⟩

theorem mem_resolveIndexCollisions {indexes : List Index} {i : Index}
    (h : i ∈ resolveIndexCollisions indexes) : ∃ j ∈ indexes, ∃ name, i = { j with name } := by
  unfold resolveIndexCollisions at h
  generalize indexes.map Index.name = names at h
  generalize ([] : List String) = numbered at h
  induction indexes generalizing numbered with
  | nil => exact absurd h List.not_mem_nil
  | cons j rest ih =>
    rcases List.mem_cons.mp h with rfl | h
    · exact ⟨j, List.mem_cons_self, _, rfl⟩
    · obtain ⟨k, hk, hi⟩ := ih _ h
      exact ⟨k, List.mem_cons_of_mem _ hk, hi⟩

namespace Plan

theorem keyDraft_founded (hmade : MadeBefore m source before x target columns definitions)
    {c : Constraint} {words : String} (hlisted : c ∈ source.keysOf x)
    (hown : (c.schema, c.table) = x) (hfields : c.fields ⊆ source.columnNames x) :
    Draft.All (Step.AsksOnly (Founded m source before))
      (keyDraft m (Statement.addKey words) c) := by
  subst hown
  refine .bind_ok (.rename _) fun hrenamed => .execute_asks fun text htext => ?_
  obtain ⟨-, events, hyields⟩ := Draft.rename_ok hrenamed
  have hcarries := (Naming.made_renameConstraint hyields).carried_names
  apply founded_of_alteration (.key hlisted hyields htext)
  intro y hy
  obtain rfl := List.mem_singleton.mp hy
  exact hmade.grounded hfields hcarries.schema hcarries.table hcarries.fields

theorem identityDraft_founded (hmade : MadeBefore m source before x target columns definitions)
    {i : Identity} (hlisted : i ∈ answered (source.identities x.1 x.2))
    (hown : (i.schema, i.table) = x) (hcolumn : i.column ∈ source.columnNames x) :
    Draft.All (Step.AsksOnly (Founded m source before)) (identityDraft m i) := by
  subst hown
  refine .bind_ok (.rename _) fun hrenamed => .execute_asks fun text htext => ?_
  obtain ⟨-, events, hyields⟩ := Draft.rename_ok hrenamed
  have hcarries := (Naming.made_renameIdentity hyields).carried_names
  apply founded_of_alteration (.identity hlisted hyields htext)
  intro y hy
  obtain rfl := List.mem_singleton.mp hy
  exact hmade.grounded (List.cons_subset.mpr ⟨hcolumn, List.nil_subset _⟩) hcarries.schema
    hcarries.table (.cons hcarries.column .nil)

theorem columnDefaultsDraft_founded {t : TablePair}
    (hmade : MadeBefore m source before (t.schema, t.table) (t.targetSchema, t.targetTable)
      t.columns t.definitions) {column : Column × ColumnDefinition}
    (hcolumn : column ∈ t.columns.zip t.definitions) :
    Draft.All (Step.AsksOnly (Founded m source before))
      (columnDefaultsDraft m source t column) := by
  refine .bind_ok (.ofOutcome _) fun hdefaults => .bind (.each fun c hc => ?_) fun _ => .pure _
  obtain ⟨hanswer, -, -⟩ := Draft.ofOutcome_ok hdefaults
  have hlisted : c ∈ answered (source.defaults t.schema t.table column.1.name) := by
    rw [hanswer]
    exact hc
  refine .bind (.rename _) fun _ => .bind (.ofOutcome _) fun _ => .execute_asks fun text htext => ?_
  have halteration : Alteration m source text [⟨(t.schema, t.table), [column.1.name],
      (t.targetSchema, t.targetTable), [column.2.name]⟩] :=
    .default hlisted htext
  apply founded_of_alteration halteration
  intro y hy
  obtain rfl := List.mem_singleton.mp hy
  exact ⟨t.columns, t.definitions, hmade, .cons ⟨column, hcolumn, rfl, rfl⟩ .nil⟩

theorem partsDraft_founded (hsource : source.Consistent) {t : TablePair}
    (hmade : MadeBefore m source before (t.schema, t.table) (t.targetSchema, t.targetTable)
      t.columns t.definitions) :
    Draft.All (Step.AsksOnly (Founded m source before)) (partsDraft m source t) := by
  have hkey {c : Constraint} {words : String} (hc : c ∈ source.keysOf (t.schema, t.table)) :
      Draft.All (Step.AsksOnly (Founded m source before))
        (keyDraft m (Statement.addKey words) c) := by
    obtain ⟨hown, hfields⟩ := hsource.keys _ hmade.isListed c (List.mem_append_left _ hc)
    exact keyDraft_founded hmade hc hown hfields
  refine .bind_ok (.ofOutcome _) fun hprimary => .bind (.each fun c hc => hkey ?_) fun _ =>
    .bind_ok (.ofOutcome _) fun hunique => .bind (.each fun c hc => hkey ?_) fun _ =>
    .bind (.each fun column hcolumn => columnDefaultsDraft_founded hmade hcolumn) fun _ =>
    .bind_ok (.ofOutcome _) fun hidentities => .bind (.each fun i hi => ?_) fun _ => .pure _
  · obtain ⟨hanswer, -, -⟩ := Draft.ofOutcome_ok hprimary
    rw [Source.keysOf, hanswer]
    exact List.mem_append_left _ hc
  · obtain ⟨hanswer, -, -⟩ := Draft.ofOutcome_ok hunique
    rw [Source.keysOf, hanswer]
    exact List.mem_append_right _ hc
  · obtain ⟨hanswer, -, -⟩ := Draft.ofOutcome_ok hidentities
    have hi : i ∈ answered (source.identities t.schema t.table) := by
      rw [hanswer]
      exact hi
    obtain ⟨hown, hcolumn⟩ := hsource.identities _ hmade.isListed i hi
    exact identityDraft_founded hmade hi hown hcolumn

/-- The table was made before, under some name and with some columns. -/
def Stands (m : RunSettings) (source : Source) (before : List Operation) (x : QualifiedName) :
    Prop :=
  ∃ target columns definitions, MadeBefore m source before x target columns definitions

theorem indexesDraft_founded {schema : String}
    (hindexes : ∀ i ∈ source.indexesOf schema, (i.schema, i.table) ∈ source.tablesOf schema ∧
      i.keyColumns ++ i.includedColumns ⊆ source.columnNames (i.schema, i.table))
    (hstands : ∀ x ∈ source.tablesOf schema, Stands m source before x) :
    Draft.All (Step.AsksOnly (Founded m source before)) (indexesDraft m source schema) := by
  refine .bind_ok (.ofOutcome _) fun hlisted => .bind_ok (.ofOutcome _) fun hstatistics =>
    .bind_ok (.each fun _ _ => .rename _) fun hrenamed =>
    .bind (.each fun numbered hnumbered => .execute_asks fun text htext => ?_) fun _ => .pure _
  rename_i indexes _ _ _ statistics _ _ _ renamed
  obtain ⟨hanswer, -, -⟩ := Draft.ofOutcome_ok hlisted
  obtain ⟨hanswer', -, -⟩ := Draft.ofOutcome_ok hstatistics
  have hall : source.indexesOf schema = indexes ++ statistics.map Statistics.toIndex := by
    rw [Source.indexesOf, hanswer, hanswer']
    rfl
  rw [← hall] at hrenamed
  -- the index of the statement is a listed one, renamed and then maybe numbered
  obtain ⟨i', hi', name, rfl⟩ := mem_resolveIndexCollisions hnumbered
  obtain ⟨i, hi, l, steps, l', hone⟩ := Draft.exists_of_mem_each hrenamed i' hi'
  obtain ⟨-, events, hyields⟩ := Draft.rename_ok hone
  have hcarries := (Naming.made_renameIndex hyields).carried_names
  obtain ⟨hown, hcolumns⟩ := hindexes i hi
  obtain ⟨target, columns, definitions, hmade⟩ := hstands _ hown
  apply founded_of_alteration (.index hi hyields htext)
  intro y hy
  obtain rfl := List.mem_singleton.mp hy
  exact hmade.grounded hcolumns hcarries.schema hcarries.table
    (List.rel_append hcarries.keyColumns hcarries.includedColumns)

/-! ## All statements of a plan -/

section Made

variable {steps : List Step}

theorem Stands.mono (h : Stands m source before x) (hbefore : before.Sublist before') :
    Stands m source before' x := by
  obtain ⟨target, columns, definitions, hmade⟩ := h
  exact ⟨target, columns, definitions, hmade.mono hbefore⟩

theorem TableMade.founded (hsource : source.Consistent)
    {schema targetSchema table create : String} {made : TableReport × List Constraint}
    (hnames : m.policy.Names (schema, .schema, schema) targetSchema)
    (hcreate : Statement.createSchema targetSchema = .ok create)
    (hbefore : .execute create ∈ before) (hlisted : (schema, table) ∈ source.listed)
    (h : TableMade m source schema targetSchema table made steps) :
    AllFounded m source before (operations steps) ∧
      Stands m source (before ++ operations steps) (schema, table) := by
  cases h with
  | @intro columns targetTable drop createTable definitions rows foreignKeys rowSteps partSteps l l'
      listed names defined dropped created filled parts linked =>
    have hops : operations (.execute drop :: .execute createTable :: (rowSteps ++ partSteps)) =
        .execute drop :: .execute createTable :: (operations rowSteps ++ operations partSteps) := by
      rw [operations_cons, operations_cons, operations_append]
      rfl
    rw [hops]
    have hmade : MadeBefore m source (before ++ [.execute drop] ++ [.execute createTable])
        (schema, table) (targetSchema, targetTable) columns definitions := by
      refine ⟨hlisted, RunSettings.targetOf_of_names hnames names, listed, defined, create,
        createTable, hcreate, created, ?_⟩
      have hschema : [Operation.execute create].Sublist (before ++ [.execute drop]) :=
        (List.singleton_sublist.mpr hbefore).trans (List.sublist_append_left _ _)
      exact hschema.append (List.Sublist.refl [Operation.execute createTable])
    constructor
    · have hdrop : Founded m source before (.execute drop) :=
        @founded_of_drops _ _ _ _ (targetSchema, targetTable) ⟨drop, dropped, rfl⟩
      have hcreated : Founded m source (before ++ [.execute drop]) (.execute createTable) :=
        @founded_of_creates _ _ _ _ (targetSchema, targetTable)
          ⟨definitions, createTable, created, rfl⟩
      refine ⟨hdrop, hcreated, allFounded_of_forall fun op hop => ?_⟩
      rcases List.mem_append.mp hop with hop | hop
      · exact founded_of_not_execute (filled.not_execute op hop)
      · exact (partsDraft_founded hsource hmade).forall_operations parts op hop
    · refine ⟨_, columns, definitions, hmade.mono ?_⟩
      rw [List.append_assoc]
      apply List.Sublist.append_left
      simp

theorem TablesMade.founded (hsource : source.Consistent) {schema targetSchema create : String}
    {tables : List String} {made : List (TableReport × List Constraint)}
    (hnames : m.policy.Names (schema, .schema, schema) targetSchema)
    (hcreate : Statement.createSchema targetSchema = .ok create)
    (hbefore : .execute create ∈ before)
    (hlisted : ∀ table ∈ tables, (schema, table) ∈ source.listed)
    (h : TablesMade m source schema targetSchema tables made steps) :
    AllFounded m source before (operations steps) ∧
      ∀ table ∈ tables, Stands m source (before ++ operations steps) (schema, table) := by
  induction h generalizing before with
  | nil => exact ⟨trivial, fun table htable => absurd htable List.not_mem_nil⟩
  | @cons table tables made others first rest head tail ih =>
    obtain ⟨htable, htables⟩ := List.forall_mem_cons.mp hlisted
    obtain ⟨hfirst, hstands⟩ := head.founded hsource hnames hcreate hbefore htable
    obtain ⟨hrest, hothers⟩ := ih (List.mem_append_left _ hbefore) htables
    rw [operations_append, ← List.append_assoc]
    refine ⟨hfirst.append hrest, List.forall_mem_cons.mpr ⟨?_, hothers⟩⟩
    exact hstands.mono (List.sublist_append_left _ _)

theorem SchemaMade.founded (hsource : source.Consistent) {s : Schema} {planned : PlannedSchema}
    (hs : s ∈ answered source.schemas) (full : source.isSchemaEmpty s.name = .ok false)
    (hlisted : source.tablesOf s.name ⊆ source.listed)
    (h : SchemaMade m source s.name planned steps) :
    AllFounded m source [] (operations steps) ∧
      ∀ x ∈ source.tablesOf s.name, Stands m source (operations steps) x := by
  cases h with
  | @intro target create tables made tableSteps indexSteps l l' names created listed filled
      indexed =>
    have hops : operations (Step.execute create :: (tableSteps ++ indexSteps)) =
        Operation.execute create :: (operations tableSteps ++ operations indexSteps) := by
      rw [operations_cons, operations_append]
      rfl
    rw [hops]
    have htables := Source.tablesOf_full full listed
    have hbefore : Operation.execute create ∈ [Operation.execute create] := List.mem_cons_self
    obtain ⟨hfilled, hstands⟩ := filled.founded hsource names created hbefore
      fun table htable => hlisted (htables ▸ List.mem_map_of_mem htable)
    have hstands : ∀ x ∈ source.tablesOf s.name,
        Stands m source (.execute create :: operations tableSteps) x := by
      rw [htables]
      exact List.forall_mem_map.mpr hstands
    have hindexed := indexesDraft_founded (hsource.indexes s hs full) hstands
    constructor
    · refine ⟨founded_createSchema created, hfilled.append ?_⟩
      exact allFounded_of_forall (hindexed.forall_operations indexed)
    · intro x hx
      exact (hstands x hx).mono (List.sublist_append_left _ _)

theorem SchemasMade.founded (hsource : source.Consistent) {listed : List Schema}
    {planned : List PlannedSchema} (hlisted : listed ⊆ answered source.schemas)
    (htables : ∀ s ∈ listed, source.tablesOf s.name ⊆ source.listed)
    (h : SchemasMade m source listed planned steps) :
    AllFounded m source [] (operations steps) ∧
      ∀ s ∈ listed, ∀ x ∈ source.tablesOf s.name, Stands m source (operations steps) x := by
  induction h with
  | nil => exact ⟨trivial, fun s hs => absurd hs List.not_mem_nil⟩
  | @passed schema schemas planned steps empty tail ih =>
    rw [List.cons_subset] at hlisted
    obtain ⟨-, htables⟩ := List.forall_mem_cons.mp htables
    obtain ⟨hrest, hstands⟩ := ih hlisted.2 htables
    have hnone : source.tablesOf schema.name = [] := by rw [Source.tablesOf, empty]
    refine ⟨hrest, List.forall_mem_cons.mpr ⟨?_, hstands⟩⟩
    rw [hnone]
    exact fun x hx => absurd hx List.not_mem_nil
  | @cons schema schemas one planned first rest full head tail ih =>
    rw [List.cons_subset] at hlisted
    obtain ⟨htable, htables⟩ := List.forall_mem_cons.mp htables
    obtain ⟨hfirst, hone⟩ := head.founded hsource hlisted.1 full htable
    obtain ⟨hrest, hstands⟩ := ih hlisted.2 htables
    rw [operations_append]
    constructor
    · exact hfirst.append (hrest.mono (List.nil_sublist _))
    · refine List.forall_mem_cons.mpr ⟨fun x hx => ?_, fun s hs x hx => ?_⟩
      · exact (hone x hx).mono (List.sublist_append_left _ _)
      · exact (hstands s hs x hx).mono (List.sublist_append_right _ _)

/-- The foreign keys that wait are those that the source lists for the tables. -/
theorem TablesMade.foreignKeys {schema targetSchema : String} {tables : List String}
    {made : List (TableReport × List Constraint)}
    (h : TablesMade m source schema targetSchema tables made steps) :
    ∀ c ∈ made.flatMap (·.2), ∃ table ∈ tables, c ∈ source.foreignKeysOf (schema, table) := by
  induction h with
  | nil => simp
  | @cons table tables made others first rest head tail ih =>
    intro c hc
    rw [List.flatMap_cons] at hc
    rcases List.mem_append.mp hc with hc | hc
    · cases head with
      | intro listed names defined dropped created filled parts linked =>
        refine ⟨table, List.mem_cons_self, ?_⟩
        rw [Source.foreignKeysOf, linked]
        exact hc
    · obtain ⟨table', htable, hc⟩ := ih c hc
      exact ⟨table', List.mem_cons_of_mem _ htable, hc⟩

theorem SchemasMade.foreignKeys {listed : List Schema} {planned : List PlannedSchema}
    (h : SchemasMade m source listed planned steps) :
    ∀ c ∈ planned.flatMap (·.foreignKeys),
      ∃ s ∈ listed, ∃ x ∈ source.tablesOf s.name, c ∈ source.foreignKeysOf x := by
  induction h with
  | nil => simp
  | passed empty tail ih =>
    intro c hc
    obtain ⟨s, hs, hx⟩ := ih c hc
    exact ⟨s, List.mem_cons_of_mem _ hs, hx⟩
  | @cons schema schemas one planned first rest full head tail ih =>
    intro c hc
    rw [List.flatMap_cons] at hc
    rcases List.mem_append.mp hc with hc | hc
    · cases head with
      | intro names created listed filled indexed =>
        obtain ⟨table, htable, hc⟩ := filled.foreignKeys c hc
        refine ⟨schema, List.mem_cons_self, (schema.name, table), ?_, hc⟩
        rw [Source.tablesOf_full full listed]
        exact List.mem_map_of_mem htable
    · obtain ⟨s, hs, hx⟩ := ih c hc
      exact ⟨s, List.mem_cons_of_mem _ hs, hx⟩

theorem foreignKeyDraft_founded (hsource : source.Consistent) (hlisted : x ∈ source.listed)
    (hstands : ∀ y ∈ source.listed, Stands m source before y) {c : Constraint}
    (hc : c ∈ source.foreignKeysOf x) :
    Draft.All (Step.AsksOnly (Founded m source before)) (keyDraft m Statement.addForeignKey c) := by
  refine .bind_ok (.rename _) fun hrenamed => .execute_asks fun text htext => ?_
  obtain ⟨-, events, hyields⟩ := Draft.rename_ok hrenamed
  have hcarries := (Naming.made_renameConstraint hyields).carried_names
  obtain ⟨hown, hfields⟩ := hsource.keys x hlisted c (List.mem_append_right _ hc)
  subst hown
  obtain ⟨targetTable, hreferred⟩ := referencedTable_of_addForeignKey htext
  obtain ⟨table, hrefers, htable⟩ : ∃ table, c.referencedTable = some table ∧
      m.policy.Names (referredSchema c, .table, table) targetTable := by
    have hrel := hcarries.referencedTable
    rw [hreferred] at hrel
    cases hrefers : c.referencedTable with
    | none =>
      rw [hrefers] at hrel
      cases hrel
    | some table =>
      rw [hrefers] at hrel
      cases hrel with
      | some hname => exact ⟨table, rfl, hname⟩
  obtain ⟨hreferredListed, hreferredFields⟩ := hsource.references _ hlisted c hc table hrefers
  obtain ⟨target, columns, definitions, hmade⟩ := hstands _ hlisted
  obtain ⟨target', columns', definitions', hmade'⟩ := hstands _ hreferredListed
  apply founded_of_alteration (.foreignKey hc hyields hrefers hreferred htext)
  refine List.forall_mem_cons.mpr ⟨?_, List.forall_mem_cons.mpr ⟨?_, by simp⟩⟩
  · exact hmade.grounded hfields hcarries.schema hcarries.table hcarries.fields
  · exact hmade'.grounded hreferredFields hcarries.referredSchema htable hcarries.referencedFields

/-- All statements of a plan are founded in those before them. -/
theorem PlanMade.founded (hsource : source.Consistent) {schemas : List PlannedSchema}
    (h : PlanMade m source schemas steps) : AllFounded m source [] (operations steps) := by
  cases h with
  | @intro listed schemas made keySteps l l' done answered filled keys =>
    have hschemas : Migration.answered source.schemas = listed := by
      rw [answered]
      rfl
    have hlisted : source.listed = listed.flatMap fun s => source.tablesOf s.name := by
      rw [Source.listed, answered]
    have htables : ∀ s ∈ listed, source.tablesOf s.name ⊆ source.listed := by
      intro s hs x hx
      rw [hlisted]
      exact List.mem_flatMap.mpr ⟨s, hs, hx⟩
    have hanswered : listed ⊆ Migration.answered source.schemas :=
      hschemas ▸ List.Subset.refl listed
    obtain ⟨hmade, hstands⟩ := filled.founded hsource hanswered htables
    rw [operations_append]
    refine hmade.append
      (allFounded_of_forall (Draft.All.forall_operations (.each fun c hc => ?_) keys))
    -- foreign keys come when all tables of all schemas stand
    obtain ⟨s, hs, x, hx, hc⟩ := filled.foreignKeys c hc
    refine foreignKeyDraft_founded hsource (htables s hs hx) (fun y hy => ?_) hc
    rw [hlisted] at hy
    obtain ⟨s', hs', hy⟩ := List.mem_flatMap.mp hy
    exact hstands s' hs' y hy

end Made

end Plan

end Migration
