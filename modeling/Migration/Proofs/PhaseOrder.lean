import Migration.Proofs.CopiedRows
import Migration.Proofs.PhaseWords
import Migration.Proofs.Recreation

/-
  Migrations send what they send in phases.

  What an operation is sent for is known from what it was made of: a name of the policy, a
  row that the source yielded, or a descriptor that the source lists. This file

  1. says which operations serve a purpose (`Serves`);
  2. says of a draft that its operations serve the purposes of a start of a word, and of a
     whole word where the draft ends with a value, and carries that through the forms of
     drafts (`Draft.Speaks`);
  3. proves it of each draft of a plan, with the words of tables, schemas and plans
     (`Plan.tableDraft_speaks`, `Plan.schemaDraft_speaks`, `Plan.schemasDraft_speaks`);
  4. concludes that whatever ends a migration, it sent the start of a word of its source, and
     so kept to the phases (`migrate_in_phases`). -/

namespace Migration

open Naming (Ledger Renaming)

/-! ## Operations and their purposes -/

/-- What the operation is made of shows that it is sent for this purpose. -/
inductive Serves (m : RunSettings) (source : Source) : Purpose → Operation → Prop where
  | schema {s target text : String} (named : m.policy.Names (s, .schema, s) target)
      (written : Statement.createSchema target = .ok text) :
      Serves m source (.schema s) (.execute text)
  | drop {x target : QualifiedName} {text : String} (named : m.targetOf x = .ok target)
      (written : Statement.dropTable target.1 target.2 = .ok text) :
      Serves m source (.drop x) (.execute text)
  | table {t : Plan.TablePair} {text : String} (created : Plan.TableCreated m source t text) :
      Serves m source (.table (t.schema, t.table)) (.execute text)
  | begin {x : QualifiedName} (copies : m.copiesDataFor x.1 x.2 = true) :
      Serves m source (.rows x) .begin
  | insert {t : Plan.TablePair} {create query insert : String} {items : List (Outcome Row)}
      {cells row : Row} (copied : Plan.TableCopied m source t create query insert)
      (read : source.rows query = .ok items) (yielded : .ok cells ∈ items)
      (copy : CopiedRow cells row) :
      Serves m source (.rows (t.schema, t.table)) (.insert insert row)
  | commit {x : QualifiedName} (copies : m.copiesDataFor x.1 x.2 = true) :
      Serves m source (.rows x) .commit
  | primaryKey {x : QualifiedName} {c renamed : Constraint} {events : List Renaming} {text : String}
      (listed : source.primaryKey x.1 x.2 = .ok (some c))
      (renames : (m.policy.renameConstraint c).Yields renamed events)
      (written : Statement.addPrimaryKey renamed = .ok text) :
      Serves m source (.part x) (.execute text)
  | uniqueKey {x : QualifiedName} {c renamed : Constraint} {events : List Renaming} {text : String}
      (listed : c ∈ answered (source.uniqueKeys x.1 x.2))
      (renames : (m.policy.renameConstraint c).Yields renamed events)
      (written : Statement.addUniqueKey renamed = .ok text) :
      Serves m source (.part x) (.execute text)
  | default {t : Plan.TablePair} {create expression text : String}
      {column : Column × ColumnDefinition} {c : Constraint}
      (created : Plan.TableCreated m source t create)
      (isColumn : column ∈ t.columns.zip t.definitions)
      (listed : c ∈ answered (source.defaults t.schema t.table column.1.name))
      (written : Statement.setDefault t.targetSchema t.targetTable column.2.name expression =
        .ok text) :
      Serves m source (.part (t.schema, t.table)) (.execute text)
  | identity {x : QualifiedName} {i renamed : Identity} {events : List Renaming} {text : String}
      (listed : i ∈ answered (source.identities x.1 x.2))
      (renames : (m.policy.renameIdentity i).Yields renamed events)
      (written : Statement.addIdentity renamed = .ok text) :
      Serves m source (.part x) (.execute text)
  | index {s name text : String} {i renamed : Index} {events : List Renaming}
      (listed : i ∈ source.indexesOf s) (renames : (m.policy.renameIndex i).Yields renamed events)
      (written : Statement.createIndex { renamed with name } = .ok text) :
      Serves m source (.index s) (.execute text)
  | foreignKey {x : QualifiedName} {c renamed : Constraint} {events : List Renaming} {text : String}
      (listed : c ∈ source.foreignKeysOf x)
      (renames : (m.policy.renameConstraint c).Yields renamed events)
      (written : Statement.addForeignKey renamed = .ok text) :
      Serves m source (.foreignKey x) (.execute text)
  | module {op : Operation} (made : DropsView op ∨ source.Defines op) : Serves m source .module op

/-! ## Drafts and words -/

namespace Draft

variable {α β : Type} {m : RunSettings} {source : Source} {L M : Language Purpose}

/-- From these renamings the operations of the draft serve a start of a word, and the whole word
where the draft ends with a value. -/
def SpeaksFrom (m : RunSettings) (source : Source) (d : Draft α) (L : Language Purpose)
    (l : Ledger) : Prop :=
  ∃ w rest, List.Forall₂ (Serves m source) w (operations (d l).steps) ∧ w ++ rest ∈ L ∧
    ∀ a, (d l).outcome = .ok a → rest = []

/-- The operations of the draft do so whatever was renamed before. -/
def Speaks (m : RunSettings) (source : Source) (d : Draft α) (L : Language Purpose) : Prop :=
  ∀ l, SpeaksFrom m source d L l

/-- A draft after another adds to its word; if there is no other, the word could have been
continued. -/
theorem Speaks.bind {d : Draft α} {f : α → Draft β} (hd : Speaks m source d L) (hM : ∃ w, w ∈ M)
    (hf : ∀ {l mid steps a}, d l = ⟨steps, mid, .ok a⟩ → SpeaksFrom m source (f a) M mid) :
    Speaks m source (d >>= f) (L * M) := by
  intro l
  obtain ⟨w, rest, hserves, hword, hwhole⟩ := hd l
  rcases hdrafted : d l with ⟨first, mid, e | a⟩
  · rw [hdrafted] at hserves
    rw [SpeaksFrom, bind_of_error hdrafted]
    obtain ⟨v, hv⟩ := hM
    refine ⟨w, rest ++ v, hserves, ?_, fun b hb => by cases hb⟩
    rw [← List.append_assoc]
    exact Language.mem_mul.mpr ⟨w ++ rest, hword, v, hv, rfl⟩
  · rw [hdrafted] at hserves hwhole
    obtain rfl := hwhole a rfl
    rw [List.append_nil] at hword
    obtain ⟨w', rest', hserves', hword', hwhole'⟩ := hf hdrafted
    rw [SpeaksFrom, bind_of_ok hdrafted, operations_append]
    refine ⟨w ++ w', rest', List.rel_append hserves hserves', ?_, hwhole'⟩
    rw [List.append_assoc]
    exact Language.mem_mul.mpr ⟨w, hword, w' ++ rest', hword', rfl⟩

theorem speaks_of_no_step {d : Draft α} (h : All (fun _ => False) d) : Speaks m source d 1 := by
  intro l
  refine ⟨[], [], ?_, Language.nil_mem_one, fun _ _ => rfl⟩
  rw [h.steps_eq_nil l]
  exact .nil

/-- What is found without a step only decides what is spoken next. -/
theorem Speaks.after {d : Draft α} {f : α → Draft β} (hd : All (fun _ => False) d)
    (hM : ∃ w, w ∈ M)
    (hf : ∀ {l mid steps a}, d l = ⟨steps, mid, .ok a⟩ → SpeaksFrom m source (f a) M mid) :
    Speaks m source (d >>= f) M := by
  rw [← one_mul M]
  exact (speaks_of_no_step hd).bind hM hf

theorem Speaks.then {d : Draft α} {f : α → Draft β} (hd : Speaks m source d L)
    (hf : ∀ a, All (fun _ => False) (f a)) : Speaks m source (d >>= f) L := by
  rw [← mul_one L]
  exact hd.bind ⟨[], Language.nil_mem_one⟩ fun _ => speaks_of_no_step (hf _) _

theorem speaks_execute {sql : Outcome String} {p : Purpose}
    (h : ∀ text, sql = .ok text → Serves m source p (.execute text)) :
    Speaks m source (execute sql) {[p]} := by
  intro l
  cases sql with
  | error e => exact ⟨[], [p], .nil, rfl, fun _ hvalue => by cases hvalue⟩
  | ok text => exact ⟨[p], [], .cons (h text rfl) .nil, rfl, fun _ _ => rfl⟩

theorem Speaks.each {f : β → Draft α} {K : β → Language Purpose} {items : List β}
    (hK : ∀ b ∈ items, ∃ w, w ∈ K b) (hf : ∀ b ∈ items, Speaks m source (f b) (K b)) :
    Speaks m source (each f items) (items.map K).prod := by
  induction items with
  | nil => exact speaks_of_no_step (All.pure [])
  | cons b rest ih =>
    obtain ⟨-, hwords⟩ := List.forall_mem_cons.mp hK
    obtain ⟨hfirst, hrest⟩ := List.forall_mem_cons.mp hf
    rw [List.map_cons, List.prod_cons]
    have hlater : ∀ a, Speaks m source (Draft.each f rest >>= fun as => pure (a :: as))
        (rest.map K).prod :=
      fun a => (ih hwords hrest).then fun as => All.pure _
    exact hfirst.bind (exists_mem_prod hwords) fun _ => hlater _ _

/-- Where each operation serves one of these purposes, a word of them is spoken. -/
theorem All.speaks {d : Draft α} {P : Purpose → Prop}
    (h : All (Step.AsksOnly fun op => ∃ p, P p ∧ Serves m source p op) d) :
    Speaks m source d (only P) := by
  intro l
  have hops : ∀ op ∈ operations (d l).steps, ∃ p, P p ∧ Serves m source p op :=
    h.forall_operations (l := l) rfl
  obtain ⟨w, hserves, hw⟩ : ∃ w, List.Forall₂ (Serves m source) w (operations (d l).steps) ∧
      w ∈ only P := by
    generalize operations (d l).steps = ops at hops
    induction ops with
    | nil => exact ⟨[], .nil, List.forall_mem_nil P⟩
    | cons op rest ih =>
      obtain ⟨p, hp, hserves⟩ := hops op List.mem_cons_self
      obtain ⟨w, hserved, hw⟩ := ih fun op' hop' => hops op' (List.mem_cons_of_mem _ hop')
      exact ⟨p :: w, .cons hserves hserved, List.forall_mem_cons.mpr ⟨hp, hw⟩⟩
  refine ⟨w, [], hserves, ?_, fun _ _ => rfl⟩
  rw [List.append_nil]
  exact hw

theorem All.speaks_eq {d : Draft α} {p : Purpose} (h : All (Step.AsksOnly (Serves m source p)) d) :
    Speaks m source d (only (· = p)) :=
  All.speaks fun l s hs op hop => ⟨p, rfl, h l s hs op hop⟩

end Draft

/-! ## The drafts of a plan -/

namespace Plan

variable {m : RunSettings} {source : Source}

theorem dataDraft_serves {t : TablePair} {create : String}
    (created : TableCreated m source t create) :
    Draft.All (Step.AsksOnly (Serves m source (.rows (t.schema, t.table))))
      (dataDraft m source t) := by
  unfold dataDraft
  split
  · rename_i copies
    refine .bind_ok (.ofOutcome _) fun {_ _ _ job} hjob => .bind ?_ fun _ => .pure _
    obtain ⟨hplanned, -, -⟩ := Draft.ofOutcome_ok hjob
    intro l s hs op hop
    cases hread : source.rows job.query with
    | error e =>
      rw [hread] at hs
      exact absurd hs List.not_mem_nil
    | ok items =>
      rw [hread] at hs
      have hs : s ∈ job.steps items := hs
      rcases List.mem_cons.mp hs with rfl | hs
      · cases hop
      · rcases List.mem_cons.mp hs with rfl | hs
        · cases hop
          exact .begin copies
        · cases job.forall_rowSteps {} items s hs with
          | fetch => cases hop
          | begin =>
            cases hop
            exact .begin copies
          | commit =>
            cases hop
            exact .commit copies
          | report rows => cases hop
          | insert number yielded fits =>
            cases hop
            exact .insert (tableCopied created copies hplanned) hread yielded
              (copied_map_scrubbed _)
  · exact .pure _

theorem keyDraft_serves {p : Purpose} {statement : Constraint → Outcome String} {c : Constraint}
    (h : ∀ {renamed events text}, (m.policy.renameConstraint c).Yields renamed events →
      statement renamed = .ok text → Serves m source p (.execute text)) :
    Draft.All (Step.AsksOnly (Serves m source p)) (keyDraft m statement c) := by
  refine .bind_ok (.rename _) fun hrenamed => .execute_asks fun text htext => ?_
  obtain ⟨-, events, hyields⟩ := Draft.rename_ok hrenamed
  exact h hyields htext

theorem columnDefaultsDraft_serves {t : TablePair} {create : String}
    (created : TableCreated m source t create) {column : Column × ColumnDefinition}
    (hcolumn : column ∈ t.columns.zip t.definitions) :
    Draft.All (Step.AsksOnly (Serves m source (.part (t.schema, t.table))))
      (columnDefaultsDraft m source t column) := by
  refine .bind_ok (.ofOutcome _) fun hdefaults => .bind (.each fun c hc => ?_) fun _ => .pure _
  obtain ⟨hanswer, -, -⟩ := Draft.ofOutcome_ok hdefaults
  have hlisted : c ∈ answered (source.defaults t.schema t.table column.1.name) := by
    rw [hanswer]
    exact hc
  refine .bind (.rename _) fun _ => .bind (.ofOutcome _) fun _ => .execute_asks fun text htext => ?_
  exact .default created hcolumn hlisted htext

theorem partsDraft_serves {t : TablePair} {create : String}
    (created : TableCreated m source t create) :
    Draft.All (Step.AsksOnly (Serves m source (.part (t.schema, t.table))))
      (partsDraft m source t) := by
  refine .bind_ok (.ofOutcome _) fun {_ _ _ primary} hprimary =>
    .bind (.each fun c hc => keyDraft_serves fun hyields htext => ?_) fun _ =>
    .bind_ok (.ofOutcome _) fun hunique =>
    .bind (.each fun c hc => keyDraft_serves fun hyields htext => ?_) fun _ =>
    .bind (.each fun column hcolumn => columnDefaultsDraft_serves created hcolumn) fun _ =>
    .bind_ok (.ofOutcome _) fun hidentities => .bind (.each fun i hi => ?_) fun _ => .pure _
  · obtain ⟨hanswer, -, -⟩ := Draft.ofOutcome_ok hprimary
    obtain rfl := Option.mem_toList.mp hc
    exact .primaryKey hanswer hyields htext
  · obtain ⟨hanswer, -, -⟩ := Draft.ofOutcome_ok hunique
    refine .uniqueKey ?_ hyields htext
    rw [hanswer]
    exact hc
  · obtain ⟨hanswer, -, -⟩ := Draft.ofOutcome_ok hidentities
    refine .bind_ok (.rename _) fun hrenamed => .execute_asks fun text htext => ?_
    obtain ⟨-, events, hyields⟩ := Draft.rename_ok hrenamed
    refine .identity ?_ hyields htext
    rw [hanswer]
    exact hi

theorem tableDraft_speaks {schema targetSchema : String}
    (hschema : m.policy.Names (schema, .schema, schema) targetSchema) (table : String) :
    Draft.Speaks m source (tableDraft m source schema targetSchema table)
      (tableWords (schema, table)) := by
  have hwords := exists_mem_tableWords (schema, table)
  unfold tableDraft
  refine Draft.Speaks.after (.ofOutcome _) hwords fun {_ _ _ columns} hcolumns => ?_
  refine Draft.Speaks.after (.rename _) hwords (fun {_ _ _ targetTable} hname => ?_) _
  refine Draft.Speaks.after (columnDrafts_all schema table columns) hwords
    (fun {_ _ _ definitions} hdefinitions => ?_) _
  obtain ⟨hlisted, -, -⟩ := Draft.ofOutcome_ok hcolumns
  obtain ⟨-, hnames⟩ := rename_names hname
  obtain ⟨-, hdefined⟩ := columnsDefined hdefinitions
  have hnamed : m.targetOf (schema, table) = .ok (targetSchema, targetTable) :=
    RunSettings.targetOf_of_names hschema hnames
  have hcreated {text : String}
      (h : Statement.createTable targetSchema targetTable definitions = .ok text) :
      TableCreated m source ⟨schema, table, targetSchema, targetTable, columns, definitions⟩ text :=
    tableCreated hlisted hnamed hdefined h
  have hfilled : ∃ w, w ∈ only (· = .rows (schema, table)) * only (· = .part (schema, table)) :=
    exists_mem_mul (exists_mem_only _) (exists_mem_only _)
  have hmade : ∃ w, w ∈ ({[.table (schema, table)]} : Language Purpose) *
      (only (· = .rows (schema, table)) * only (· = .part (schema, table))) :=
    exists_mem_mul ⟨[.table (schema, table)], rfl⟩ hfilled
  have hdrop : Draft.Speaks m source (.execute (Statement.dropTable targetSchema targetTable))
      {[.drop (schema, table)]} :=
    Draft.speaks_execute fun text htext => .drop hnamed htext
  have hcreate : Draft.Speaks m source
      (.execute (Statement.createTable targetSchema targetTable definitions))
      {[.table (schema, table)]} :=
    Draft.speaks_execute fun text htext => .table (hcreated htext)
  refine hdrop.bind hmade (fun _ => ?_) _
  refine hcreate.bind hfilled (fun hexecuted => ?_) _
  obtain ⟨create, htext, -⟩ := Draft.execute_ok hexecuted
  refine (dataDraft_serves (hcreated htext)).speaks_eq.bind (exists_mem_only _) (fun _ => ?_) _
  exact (partsDraft_serves (hcreated htext)).speaks_eq.then (fun _ => .pure _) _

theorem indexesDraft_serves (schema : String) :
    Draft.All (Step.AsksOnly (Serves m source (.index schema))) (indexesDraft m source schema) := by
  refine .bind_ok (.ofOutcome _) fun {_ _ _ indexes} hlisted =>
    .bind_ok (.ofOutcome _) fun {_ _ _ statistics} hstatistics =>
    .bind_ok (.each fun _ _ => .rename _) fun hrenamed =>
    .bind (.each fun numbered hnumbered => .execute_asks fun text htext => ?_) fun _ => .pure _
  obtain ⟨hanswer, -, -⟩ := Draft.ofOutcome_ok hlisted
  obtain ⟨hanswer', -, -⟩ := Draft.ofOutcome_ok hstatistics
  have hall : source.indexesOf schema = indexes ++ statistics.map Statistics.toIndex := by
    rw [Source.indexesOf, hanswer, hanswer']
    rfl
  rw [← hall] at hrenamed
  obtain ⟨i', hi', name, rfl⟩ := mem_resolveIndexCollisions hnumbered
  obtain ⟨i, hi, l, steps, l', hone⟩ := Draft.exists_of_mem_each hrenamed i' hi'
  obtain ⟨-, events, hyields⟩ := Draft.rename_ok hone
  exact .index hi hyields htext

theorem fullSchemaDraft_speaks {schema : String} (full : source.isSchemaEmpty schema = .ok false) :
    Draft.Speaks m source (fullSchemaDraft m source schema) (source.schemaWords schema) := by
  have hwords := Source.exists_mem_schemaWords source schema
  have htables : ∃ w, w ∈ ((source.tablesOf schema).map tableWords).prod :=
    exists_mem_prod fun x _ => exists_mem_tableWords x
  have hlater := exists_mem_mul htables (exists_mem_only (· = .index schema))
  unfold fullSchemaDraft
  refine Draft.Speaks.after (.rename _) hwords fun hname => ?_
  obtain ⟨-, hnames⟩ := rename_names hname
  rw [Source.schemaWords_full full]
  refine (Draft.speaks_execute fun text htext => .schema hnames htext).bind hlater (fun _ => ?_) _
  refine Draft.Speaks.after (.ofOutcome _) hlater (fun {_ _ _ names} hlisted => ?_) _
  obtain ⟨hlisted, -, -⟩ := Draft.ofOutcome_ok hlisted
  have hsame : ((source.tablesOf schema).map tableWords).prod =
      (names.map fun name => tableWords (schema, name)).prod := by
    rw [Source.tablesOf_full full hlisted, List.map_map]
    rfl
  rw [hsame]
  refine (Draft.Speaks.each (fun name _ => exists_mem_tableWords (schema, name))
    fun name _ => ?_).bind (exists_mem_only _) (fun _ => ?_) _
  · exact (tableDraft_speaks hnames name).then fun _ => .bind (.ofOutcome _) fun _ => .pure _
  · exact (indexesDraft_serves schema).speaks_eq.then (fun _ => .pure _) _

theorem schemaDraft_speaks (schema : Schema) :
    Draft.Speaks m source (schemaDraft m source schema) (source.schemaWords schema.name) := by
  have hwords := Source.exists_mem_schemaWords source schema.name
  unfold schemaDraft
  refine Draft.Speaks.after (.ofOutcome _) hwords fun {_ _ _ isEmpty} hempty => ?_
  obtain ⟨hempty, -, -⟩ := Draft.ofOutcome_ok hempty
  cases isEmpty with
  | true =>
    -- a schema that is passed over has the empty word
    have hnone : source.schemaWords schema.name = 1 := by rw [Source.schemaWords, hempty]
    rw [hnone]
    exact Draft.speaks_of_no_step (.pure _) _
  | false => exact (fullSchemaDraft_speaks hempty).then (fun _ => .pure _) _

theorem schemasDraft_speaks : Draft.Speaks m source (schemasDraft m source) source.planWords := by
  unfold schemasDraft
  refine Draft.Speaks.after (.ofOutcome _) (Source.exists_mem_planWords source)
    fun {_ _ _ listed} hlisted => ?_
  obtain ⟨hanswer, -, -⟩ := Draft.ofOutcome_ok hlisted
  have hschemas : answered source.schemas = listed := by
    rw [hanswer]
    rfl
  rw [Source.planWords, hschemas, List.map_map]
  refine (Draft.Speaks.each (fun s _ => Source.exists_mem_schemaWords source s.name)
    fun s _ => schemaDraft_speaks s).bind (exists_mem_only _) (fun hplanned => ?_) _
  have hmade := schemasMade hplanned
  refine (Draft.All.speaks (Draft.All.each fun c hc => ?_)).then (fun _ => .pure _) _
  obtain ⟨s, hs, x, hx, hc⟩ := hmade.foreignKeys c hc
  have hx : x ∈ source.listed := by
    rw [Source.listed, hanswer]
    exact List.mem_flatMap.mpr ⟨s, hs, hx⟩
  have hserves : Draft.All (Step.AsksOnly (Serves m source (.foreignKey x)))
      (keyDraft m Statement.addForeignKey c) :=
    keyDraft_serves fun hyields htext => .foreignKey hc hyields htext
  exact fun l s hs op hop => ⟨_, ⟨x, hx, rfl⟩, hserves l s hs op hop⟩

end Plan

/-! ## Whole migrations -/

/-- However a migration ends, what it sent serves a start of a word of its source. -/
theorem migrate_speaks {σ : Type} (m : RunSettings) (source : Source) (target : Target σ)
    (pace : Pace) (start : DateTime) (initial : σ) :
    ∃ w rest,
      List.Forall₂ (Serves m source) w (migrate m source target pace start initial).1.sent.toList ∧
        w ++ rest ∈ source.migrationWords := by
  obtain ⟨planned, tried, hlog, hfollowed⟩ := migrate_followed m source target pace start initial
  have hsent := congrArg sentIn hlog
  rw [Target.sentIn_log, sentIn_append] at hsent
  rw [hsent]
  obtain ⟨w, rest, hserves, hword, hwhole⟩ := @Plan.schemasDraft_speaks m source .empty
  change List.Forall₂ _ w (operations (Plan.ofSource m source).steps) at hserves
  rcases hfollowed.complete with rfl | ⟨rfl, p, hp⟩
  · -- the plan was sent up to some operation
    obtain ⟨unsent, hplan⟩ := hfollowed.halted.isPrefix
    have hstart := List.forall₂_take (sentIn planned).length hserves
    rw [← hplan, List.take_left] at hstart
    refine ⟨w.take (sentIn planned).length, w.drop (sentIn planned).length ++ rest, ?_, ?_⟩
    · simpa [sentIn] using hstart
    · rw [← List.append_assoc, List.take_append_drop]
      exact Language.mem_mul.mpr ⟨w ++ rest, hword, [], List.forall_mem_nil _, List.append_nil _⟩
  · -- the plan was sent, and modules after it
    obtain ⟨schemas, attempts⟩ := p
    obtain ⟨steps, ledger, hdrafted, -, -⟩ := Plan.ofSource_ok hp
    obtain rfl := hwhole schemas (by rw [hdrafted])
    rw [List.append_nil] at hword
    let modules := sentIn (tried.flatMap (·.log))
    have hmodules : List.Forall₂ (Serves m source) (modules.map fun _ => .module) modules := by
      refine List.forall₂_map_left_iff.mpr (List.forall₂_same.mpr fun op hop => ?_)
      obtain ⟨entry, hentry, rfl⟩ := List.mem_map.mp hop
      exact .module (hfollowed.modules entry hentry)
    refine ⟨w ++ modules.map fun _ => .module, [], ?_, ?_⟩
    · rw [sentIn_acceptedLog]
      exact List.rel_append hserves hmodules
    · rw [List.append_nil]
      refine Language.mem_mul.mpr ⟨w, hword, modules.map fun _ => .module, fun p hp => ?_, rfl⟩
      obtain ⟨op, -, rfl⟩ := List.mem_map.mp hp
      rfl

/-- However a migration ends, and whatever the target refuses: where the source lists each schema
and each table once, each operation that was sent serves a purpose, these purposes come in the
order in which a migration of the source goes through them, and that order keeps to the phases. -/
theorem migrate_in_phases {σ : Type} (m : RunSettings) {source : Source} (target : Target σ)
    (pace : Pace) (start : DateTime) (initial : σ) (once : source.ListsOnce) :
    ∃ w,
      List.Forall₂ (Serves m source) w (migrate m source target pace start initial).1.sent.toList ∧
        (∃ rest, w ++ rest ∈ source.migrationWords) ∧ InPhases w := by
  obtain ⟨w, rest, hserves, hword⟩ := migrate_speaks m source target pace start initial
  exact ⟨w, hserves, ⟨rest, hword⟩, inPhases_of_starts once hword⟩

/-- Lines with an index, and orders with a key, in two schemas with a foreign key from one to the
other. -/
def filledSchemas : Memory.Catalog where
  schemas := [
    { name := "dbo"
      tables := [{
        name := "Lines"
        columns := [{ name := "Order", type := some .int32 }]
        foreignKeys := [{ schema := "dbo", table := "Lines", name := "FK", kind := .foreignKey,
                          fields := ["Order"], referencedSchema := some "Sales",
                          referencedTable := some "Orders", referencedFields := ["Id"] }]
        rows := [[.int32 1], [.int32 1]] }]
      indexes := [{ schema := "dbo", table := "Lines", name := "IX", keyColumns := ["Order"] }] },
    { name := "Sales"
      tables := [{
        name := "Orders"
        columns := [{ name := "Id", isNullable := false, type := some .int32 }]
        primaryKey := some { schema := "Sales", table := "Orders", name := "PK",
                             kind := .primaryKey, fields := ["Id"] }
        rows := [[.int32 1], [.int32 2]] }] }]

/-- Its migration to a target that refuses the fourth row. -/
def filledSchemasMigrated : Run Memory.Store × Outcome Report :=
  migrate {} filledSchemas.source (Memory.target { insert := some 4 }) {} (DateTime.ofNanos 0) {}

set_option maxRecDepth 100000 in
/-- A migration to which `migrate_in_phases` applies: it fails in the middle of the second schema,
and kept to the phases until then. -/
theorem refused_row_in_phases :
    filledSchemas.source.ListsOnce ∧ filledSchemasMigrated.2.isOk = false ∧
      filledSchemasMigrated.1.sent.size = 20 ∧
      ∃ w, List.Forall₂ (Serves {} filledSchemas.source) w filledSchemasMigrated.1.sent.toList ∧
        (∃ rest, w ++ rest ∈ filledSchemas.source.migrationWords) ∧ InPhases w := by
  have honce : filledSchemas.source.ListsOnce := by
    constructor <;> decide +kernel
  have hphases := migrate_in_phases {} (Memory.target { insert := some 4 }) {} (DateTime.ofNanos 0)
    {} honce
  exact ⟨honce, by decide +kernel, by decide +kernel, hphases⟩

end Migration
