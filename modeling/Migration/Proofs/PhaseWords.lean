import Mathlib.Computability.Language
import Migration.Proofs.References

/-
  The words that a migration speaks.

  Each operation of a migration has a purpose: it makes a schema, is sent for a table, or
  is a foreign key or the statement of a module. A migration goes through these purposes
  in an order that the source alone decides, and that is a word of a language: of each
  schema its creation, its tables one after another and its indexes, then the foreign keys
  of all schemas, then the modules (`Source.migrationWords`). This file

  1. says which purposes go before which (`Purpose.Precedes`), and what it is for a word
     to keep to that (`InPhases`);
  2. proves that the words of a table, a schema and a migration keep to it, where the
     source lists each schema and each table once (`ordered_of_mem_migrationWords`), and so
     does every start of such a word (`inPhases_of_starts`). -/

namespace Migration

/-! ## Purposes -/

/-- What an operation is sent for. -/
inductive Purpose where
  /-- The schema is created. -/
  | schema (s : String)
  /-- The table is dropped. -/
  | drop (x : QualifiedName)
  /-- The table is created. -/
  | table (x : QualifiedName)
  /-- Rows of the table are copied: a transaction begins or ends, or a row is inserted. -/
  | rows (x : QualifiedName)
  /-- A primary or unique key, a default or an identity column is added to the table. -/
  | part (x : QualifiedName)
  /-- An index is created for the schema. -/
  | index (s : String)
  /-- A foreign key is added to the table. -/
  | foreignKey (x : QualifiedName)
  /-- A view is dropped, or a module is made. -/
  | module
  deriving DecidableEq, Repr

namespace Purpose

/-- The schema that is to be there before. -/
def schema? : Purpose → Option String
  | schema _ => none
  | drop x => some x.1
  | table x => some x.1
  | rows x => some x.1
  | part x => some x.1
  | index s => some s
  | foreignKey x => some x.1
  | module => none

/-- The table that is made, filled or given a part. -/
def table? : Purpose → Option QualifiedName
  | drop x => some x
  | table x => some x
  | rows x => some x
  | part x => some x
  | _ => none

/-- Schemas and tables come first, then foreign keys, then modules. -/
def phase : Purpose → Nat
  | foreignKey _ => 1
  | module => 2
  | _ => 0

/-- How far a table is: dropped, created, filled, given its parts. -/
def stage : Purpose → Nat
  | table _ => 1
  | rows _ => 2
  | part _ => 3
  | _ => 0

/-- What goes before what: an earlier phase, the schema of a table, an earlier stage of a table, and
the tables of a schema before its indexes. -/
inductive Precedes : Purpose → Purpose → Prop where
  | phase {p q : Purpose} (earlier : p.phase < q.phase) : Precedes p q
  | schema {s : String} {q : Purpose} (within : q.schema? = some s) : Precedes (.schema s) q
  | stage {x : QualifiedName} {p q : Purpose} (one : p.table? = some x) (same : q.table? = some x)
      (earlier : p.stage < q.stage) : Precedes p q
  | index {x : QualifiedName} {p : Purpose} (made : p.table? = some x) : Precedes p (.index x.1)

variable {p q : Purpose} {s s' : String} {x y : QualifiedName}

theorem phase_of_table? (h : p.table? = some x) : p.phase = 0 := by
  cases p <;> first | rfl | cases h

theorem schema?_of_table? (h : p.table? = some x) : p.schema? = some x.1 := by
  cases p with
  | drop y | table y | rows y | part y =>
    cases h
    rfl
  | schema s | index s | foreignKey y | module => cases h

/-- Something of a table goes before something of a table only at an earlier stage of the same. -/
theorem Precedes.of_tables (h : q.Precedes p) (hp : p.table? = some x) (hq : q.table? = some y) :
    x = y ∧ q.stage < p.stage := by
  cases h with
  | phase earlier =>
    have hphase := phase_of_table? hp
    omega
  | schema within => cases hq
  | stage one same earlier =>
    have hx := Option.some.inj (hp.symm.trans same)
    have hy := Option.some.inj (hq.symm.trans one)
    exact ⟨hx.trans hy.symm, earlier⟩
  | index made => cases hp

theorem not_precedes_self (p : Purpose) : ¬ p.Precedes p := by
  intro h
  cases h with
  | phase earlier => exact Nat.lt_irrefl _ earlier
  | schema within => cases within
  | stage one same earlier => exact Nat.lt_irrefl _ earlier
  | index made => cases made

/-- What comes after schemas and tables goes before nothing of its phase or of an earlier one. -/
theorem not_precedes_of_phase (hlate : q.phase ≠ 0) (h : p.phase ≤ q.phase) : ¬ q.Precedes p := by
  intro hq
  cases hq with
  | phase earlier => omega
  | schema within => exact hlate rfl
  | stage one same earlier => exact hlate (phase_of_table? one)
  | index made => exact hlate (phase_of_table? made)

theorem not_precedes_schema (q : Purpose) (s : String) : ¬ q.Precedes (.schema s) := by
  intro h
  cases h with
  | phase earlier => exact Nat.not_lt_zero _ earlier
  | schema within => cases within
  | stage one same earlier => cases same

theorem not_index_precedes (s : String) (hp : p.table? = some x) :
    ¬ (Purpose.index s).Precedes p := by
  intro h
  cases h with
  | phase earlier =>
    have hphase := phase_of_table? hp
    omega
  | stage one same earlier => cases one
  | index made => cases made

/-- The purpose is the making of the schema, or of something in it, before the foreign keys. -/
def Within (s : String) (p : Purpose) : Prop := p.phase = 0 ∧ (p = .schema s ∨ p.schema? = some s)

theorem Within.eq (h : Within s p) (h' : Within s' p) : s = s' := by
  obtain ⟨-, rfl | h⟩ := h
  · obtain ⟨-, h' | h'⟩ := h'
    · exact Purpose.schema.inj h'
    · cases h'
  · obtain ⟨-, rfl | h'⟩ := h'
    · cases h
    · exact Option.some.inj (h.symm.trans h')

theorem within_of_table? (h : p.table? = some x) : Within x.1 p :=
  ⟨phase_of_table? h, .inr (schema?_of_table? h)⟩

theorem Precedes.within (h : q.Precedes p) (hp : Within s p) : Within s q := by
  cases h with
  | phase earlier =>
    have hphase := hp.1
    omega
  | schema within =>
    obtain ⟨-, rfl | hschema⟩ := hp
    · cases within
    · obtain rfl := Option.some.inj (within.symm.trans hschema)
      exact ⟨rfl, .inl rfl⟩
  | stage one same earlier =>
    obtain rfl := hp.eq (within_of_table? same)
    exact within_of_table? one
  | @index x p made =>
    have hindex : Within x.1 (.index x.1) := ⟨rfl, .inr rfl⟩
    have hs : s = x.1 := hp.eq hindex
    rw [hs]
    exact within_of_table? made

end Purpose

open Purpose (Within)

/-! ## Words -/

/-- The purposes come in an order that keeps to what goes before what. -/
def Ordered (w : List Purpose) : Prop := w.Pairwise fun p q => ¬ q.Precedes p

theorem Ordered.append {u v : List Purpose} (hu : Ordered u) (hv : Ordered v)
    (h : ∀ p ∈ u, ∀ q ∈ v, ¬ q.Precedes p) : Ordered (u ++ v) :=
  List.pairwise_append.mpr ⟨hu, hv, h⟩

def only (P : Purpose → Prop) : Language Purpose := {w | ∀ p ∈ w, P p}

theorem ordered_of_forall_eq {a : Purpose} {w : List Purpose} (h : ∀ p ∈ w, p = a) : Ordered w := by
  refine List.pairwise_of_forall_mem_list fun p hp q hq => ?_
  rw [h p hp, h q hq]
  exact Purpose.not_precedes_self a

/-! ## Languages that have words -/

theorem exists_mem_only (P : Purpose → Prop) : ∃ w, w ∈ only P := ⟨[], List.forall_mem_nil P⟩

theorem exists_mem_mul {L M : Language Purpose} (hL : ∃ w, w ∈ L) (hM : ∃ w, w ∈ M) :
    ∃ w, w ∈ L * M := by
  obtain ⟨u, hu⟩ := hL
  obtain ⟨v, hv⟩ := hM
  exact ⟨u ++ v, Language.mem_mul.mpr ⟨u, hu, v, hv, rfl⟩⟩

theorem exists_mem_prod {α : Type} {L : α → Language Purpose} {items : List α}
    (h : ∀ a ∈ items, ∃ w, w ∈ L a) : ∃ w, w ∈ (items.map L).prod := by
  induction items with
  | nil => exact ⟨[], Language.nil_mem_one⟩
  | cons a rest ih =>
    obtain ⟨ha, hrest⟩ := List.forall_mem_cons.mp h
    rw [List.map_cons, List.prod_cons]
    exact exists_mem_mul ha (ih hrest)

/-! ## Words in a row -/

/-- A word of languages in a row has a word of each of them in it, and nothing else. -/
theorem mem_prod_words {α : Type} {L : α → Language Purpose} {items : List α} {w : List Purpose}
    (h : w ∈ (items.map L).prod) :
    (∀ p ∈ w, ∃ a ∈ items, ∃ u ∈ L a, p ∈ u ∧ u ⊆ w) ∧ ∀ a ∈ items, ∃ u ∈ L a, u ⊆ w := by
  induction items generalizing w with
  | nil =>
    obtain rfl := (Language.mem_one w).mp h
    simp
  | cons a rest ih =>
    rw [List.map_cons, List.prod_cons] at h
    obtain ⟨u, hu, v, hv, rfl⟩ := Language.mem_mul.mp h
    obtain ⟨hin, hall⟩ := ih hv
    have hleft : u ⊆ u ++ v := List.subset_append_left u v
    have hright : v ⊆ u ++ v := List.subset_append_right u v
    constructor
    · intro p hp
      rcases List.mem_append.mp hp with hp | hp
      · exact ⟨a, List.mem_cons_self, u, hu, hp, hleft⟩
      · obtain ⟨b, hb, t, ht, hpt, htv⟩ := hin p hp
        exact ⟨b, List.mem_cons_of_mem _ hb, t, ht, hpt, List.Subset.trans htv hright⟩
    · refine List.forall_mem_cons.mpr ⟨⟨u, hu, hleft⟩, fun b hb => ?_⟩
      obtain ⟨t, ht, htv⟩ := hall b hb
      exact ⟨t, ht, List.Subset.trans htv hright⟩

/-- Words in a row are in order where each is, and where those of different items may stand in any
order. -/
theorem ordered_of_mem_prod {α : Type} {L : α → Language Purpose} {items : List α}
    (once : items.Nodup) (each : ∀ a ∈ items, ∀ w ∈ L a, Ordered w)
    (apart : ∀ a b, a ≠ b → ∀ u ∈ L a, ∀ v ∈ L b, ∀ p ∈ u, ∀ q ∈ v, ¬ q.Precedes p)
    {w : List Purpose} (h : w ∈ (items.map L).prod) : Ordered w := by
  induction items generalizing w with
  | nil =>
    obtain rfl := (Language.mem_one w).mp h
    exact List.Pairwise.nil
  | cons a rest ih =>
    rw [List.map_cons, List.prod_cons] at h
    obtain ⟨u, hu, v, hv, rfl⟩ := Language.mem_mul.mp h
    obtain ⟨ha, hrest⟩ := List.forall_mem_cons.mp each
    obtain ⟨hnew, hnodup⟩ := List.nodup_cons.mp once
    refine (ha u hu).append (ih hnodup hrest hv) fun p hp q hq => ?_
    obtain ⟨b, hb, t, ht, hqt, -⟩ := (mem_prod_words hv).1 q hq
    have hne : a ≠ b := by
      rintro rfl
      exact hnew hb
    exact apart a b hne u hu t ht p hp q hqt

/-! ## The words of tables -/

/-- A table is dropped and created, then its rows are copied, then it is given its parts. -/
def tableWords (x : QualifiedName) : Language Purpose :=
  {[.drop x]} * ({[.table x]} * (only (· = .rows x) * only (· = .part x)))

theorem mem_tableWords {x : QualifiedName} {w : List Purpose} : w ∈ tableWords x ↔
    ∃ rows parts, w = .drop x :: .table x :: (rows ++ parts) ∧ (∀ p ∈ rows, p = .rows x) ∧
      ∀ p ∈ parts, p = .part x := by
  constructor
  · intro h
    obtain ⟨_, rfl, _, hcreated, rfl⟩ := Language.mem_mul.mp h
    obtain ⟨_, rfl, _, hfilled, rfl⟩ := Language.mem_mul.mp hcreated
    obtain ⟨rows, hrows, parts, hparts, rfl⟩ := Language.mem_mul.mp hfilled
    exact ⟨rows, parts, rfl, hrows, hparts⟩
  · rintro ⟨rows, parts, rfl, hrows, hparts⟩
    have hrest : rows ++ parts ∈ only (· = Purpose.rows x) * only (· = Purpose.part x) :=
      Language.mem_mul.mpr ⟨rows, hrows, parts, hparts, rfl⟩
    exact Language.mem_mul.mpr ⟨_, rfl, _, Language.mem_mul.mpr ⟨_, rfl, _, hrest, rfl⟩, rfl⟩

theorem exists_mem_tableWords (x : QualifiedName) : ∃ w, w ∈ tableWords x :=
  exists_mem_mul ⟨[.drop x], rfl⟩ (exists_mem_mul ⟨[.table x], rfl⟩
    (exists_mem_mul (exists_mem_only _) (exists_mem_only _)))

theorem table?_of_mem_tableWords {x : QualifiedName} {w : List Purpose} (h : w ∈ tableWords x) :
    ∀ p ∈ w, p.table? = some x := by
  obtain ⟨rows, parts, rfl, hrows, hparts⟩ := mem_tableWords.mp h
  simp only [List.forall_mem_cons, List.forall_mem_append]
  refine ⟨rfl, rfl, fun p hp => ?_, fun p hp => ?_⟩
  · rw [hrows p hp]
    rfl
  · rw [hparts p hp]
    rfl

theorem ordered_of_mem_tableWords {x : QualifiedName} {w : List Purpose} (h : w ∈ tableWords x) :
    Ordered w := by
  have htable := table?_of_mem_tableWords h
  obtain ⟨rows, parts, rfl, hrows, hparts⟩ := mem_tableWords.mp h
  -- the stages of the word only rise
  have hstages : (Purpose.drop x :: .table x :: (rows ++ parts)).Pairwise
      fun p q => p.stage ≤ q.stage := by
    have hrow : ∀ p ∈ rows, p.stage = 2 := fun p hp => by rw [hrows p hp]; rfl
    have hpart : ∀ p ∈ parts, p.stage = 3 := fun p hp => by rw [hparts p hp]; rfl
    simp only [List.pairwise_cons, List.pairwise_append, List.forall_mem_cons,
      List.forall_mem_append]
    refine ⟨⟨?_, fun p hp => ?_, fun p hp => ?_⟩, ⟨fun p hp => ?_, fun p hp => ?_⟩, ?_, ?_, ?_⟩
    · exact Nat.zero_le _
    · exact Nat.zero_le _
    · exact Nat.zero_le _
    · rw [hrow p hp]
      show 1 ≤ 2
      omega
    · rw [hpart p hp]
      show 1 ≤ 3
      omega
    · refine List.pairwise_of_forall_mem_list fun p hp q hq => ?_
      rw [hrow p hp, hrow q hq]
    · refine List.pairwise_of_forall_mem_list fun p hp q hq => ?_
      rw [hpart p hp, hpart q hq]
    · intro p hp q hq
      rw [hrow p hp, hpart q hq]
      decide
  refine hstages.imp_of_mem fun hp hq hstage hprecedes => ?_
  obtain ⟨-, hearlier⟩ := hprecedes.of_tables (htable _ hp) (htable _ hq)
  omega

/-! ## The words of schemas -/

namespace Source

variable (source : Source)

/-- A schema that is not passed over is created, then come its tables, then its indexes. -/
def schemaWords (schema : String) : Language Purpose :=
  match source.isSchemaEmpty schema with
  | .ok false =>
    {[.schema schema]} * (((source.tablesOf schema).map tableWords).prod *
      only (· = .index schema))
  | _ => 1

/-- The schemas come one after another, then the foreign keys of their tables. -/
def planWords : Language Purpose :=
  (((answered source.schemas).map Schema.name).map source.schemaWords).prod *
    only fun p => ∃ x ∈ source.listed, p = .foreignKey x

/-- The modules come at the end. -/
def migrationWords : Language Purpose := source.planWords * only (· = .module)

structure ListsOnce : Prop where
  schemas : ((answered source.schemas).map Schema.name).Nodup
  tables : ∀ s ∈ answered source.schemas, (answered (source.tables s.name)).Nodup

variable {source} {schema : String} {w : List Purpose}

theorem fst_of_mem_tablesOf {x : QualifiedName} (h : x ∈ source.tablesOf schema) :
    x.1 = schema ∧ source.isSchemaEmpty schema = .ok false := by
  rw [tablesOf] at h
  split at h
  · rename_i full listed
    obtain ⟨name, -, rfl⟩ := List.mem_map.mp h
    exact ⟨rfl, full⟩
  · exact absurd h List.not_mem_nil

theorem ListsOnce.tablesOf (h : source.ListsOnce) {s : Schema} (hs : s ∈ answered source.schemas) :
    (source.tablesOf s.name).Nodup := by
  have htables := h.tables s hs
  rw [Source.tablesOf]
  split
  · rename_i names full listed
    rw [listed] at htables
    exact List.Nodup.map (fun a b hab => (Prod.mk.inj hab).2) htables
  · exact List.nodup_nil

theorem schemaWords_full (full : source.isSchemaEmpty schema = .ok false) :
    source.schemaWords schema = {[.schema schema]} *
      (((source.tablesOf schema).map tableWords).prod * only (· = .index schema)) := by
  rw [schemaWords, full]

theorem exists_mem_schemaWords (source : Source) (schema : String) :
    ∃ w, w ∈ source.schemaWords schema := by
  rw [schemaWords]
  split
  · refine exists_mem_mul ⟨[.schema schema], rfl⟩ (exists_mem_mul ?_ (exists_mem_only _))
    exact exists_mem_prod fun x _ => exists_mem_tableWords x
  · exact ⟨[], Language.nil_mem_one⟩

theorem exists_mem_planWords (source : Source) : ∃ w, w ∈ source.planWords :=
  exists_mem_mul (exists_mem_prod fun s _ => exists_mem_schemaWords source s) (exists_mem_only _)

theorem mem_schemaWords (h : w ∈ source.schemaWords schema) : w = [] ∨
    source.isSchemaEmpty schema = .ok false ∧ ∃ tables indexes,
      w = .schema schema :: (tables ++ indexes) ∧
        tables ∈ ((source.tablesOf schema).map tableWords).prod ∧
        ∀ p ∈ indexes, p = .index schema := by
  rw [schemaWords] at h
  split at h
  · rename_i full
    obtain ⟨_, rfl, _, hrest, rfl⟩ := Language.mem_mul.mp h
    obtain ⟨tables, htables, indexes, hindexes, rfl⟩ := Language.mem_mul.mp hrest
    exact .inr ⟨full, tables, indexes, rfl, htables, hindexes⟩
  · exact .inl ((Language.mem_one w).mp h)

theorem mem_tables {tables : List Purpose}
    (h : tables ∈ ((source.tablesOf schema).map tableWords).prod) :
    ∀ p ∈ tables, ∃ x ∈ source.tablesOf schema, p.table? = some x ∧ .table x ∈ tables := by
  intro p hp
  obtain ⟨x, hx, u, hu, hpu, husub⟩ := (mem_prod_words h).1 p hp
  refine ⟨x, hx, table?_of_mem_tableWords hu p hpu, husub ?_⟩
  obtain ⟨rows, parts, rfl, -, -⟩ := mem_tableWords.mp hu
  simp

theorem within_of_mem_schemaWords (h : w ∈ source.schemaWords schema) :
    ∀ p ∈ w, Within schema p := by
  rcases mem_schemaWords h with rfl | ⟨-, tables, indexes, rfl, htables, hindexes⟩
  · simp
  · simp only [List.forall_mem_cons, List.forall_mem_append]
    refine ⟨⟨rfl, .inl rfl⟩, fun p hp => ?_, fun p hp => ?_⟩
    · obtain ⟨x, hx, hpx, -⟩ := mem_tables htables p hp
      rw [← (fst_of_mem_tablesOf hx).1]
      exact Purpose.within_of_table? hpx
    · rw [hindexes p hp]
      exact ⟨rfl, .inr rfl⟩

theorem made_in_schemaWords (h : w ∈ source.schemaWords schema) :
    ∀ p ∈ w, .schema schema ∈ w ∧ ∀ x, p.table? = some x → .table x ∈ w := by
  rcases mem_schemaWords h with rfl | ⟨-, tables, indexes, rfl, htables, hindexes⟩
  · simp
  · intro p hp
    refine ⟨List.mem_cons_self, fun x hpx => List.mem_cons_of_mem _ (List.mem_append_left _ ?_)⟩
    rcases List.mem_cons.mp hp with rfl | hp
    · cases hpx
    · rcases List.mem_append.mp hp with hp | hp
      · obtain ⟨y, -, hpy, hmade⟩ := mem_tables htables p hp
        obtain rfl := Option.some.inj (hpx.symm.trans hpy)
        exact hmade
      · rw [hindexes p hp] at hpx
        cases hpx

theorem ordered_of_mem_schemaWords (once : (source.tablesOf schema).Nodup)
    (h : w ∈ source.schemaWords schema) : Ordered w := by
  rcases mem_schemaWords h with rfl | ⟨-, tables, indexes, rfl, htables, hindexes⟩
  · exact List.Pairwise.nil
  · have hin := mem_tables htables
    have hordered : Ordered tables := by
      refine ordered_of_mem_prod once (fun x _ u hu => ordered_of_mem_tableWords hu) ?_ htables
      intro x y hne u hu v hv p hp q hq hprecedes
      have hpx := table?_of_mem_tableWords hu p hp
      have hqy := table?_of_mem_tableWords hv q hq
      exact hne (hprecedes.of_tables hpx hqy).1
    have hboth : Ordered (tables ++ indexes) := by
      refine hordered.append (ordered_of_forall_eq hindexes) fun p hp q hq => ?_
      obtain ⟨x, -, hpx, -⟩ := hin p hp
      rw [hindexes q hq]
      exact Purpose.not_index_precedes schema hpx
    exact List.pairwise_cons.mpr ⟨fun q _ => Purpose.not_precedes_schema q schema, hboth⟩

/-! ## The words of a migration -/

/-- What a word of a plan has in it is made for a schema that is not passed over, or is a foreign
key of a listed table. -/
theorem mem_planWords (h : w ∈ source.planWords) :
    ∃ schemas keys, w = schemas ++ keys ∧
      schemas ∈ (((answered source.schemas).map Schema.name).map source.schemaWords).prod ∧
      ∀ p ∈ keys, ∃ x ∈ source.listed, p = .foreignKey x := by
  obtain ⟨schemas, hschemas, keys, hkeys, rfl⟩ := Language.mem_mul.mp h
  exact ⟨schemas, keys, rfl, hschemas, hkeys⟩

theorem ordered_of_mem_planWords (once : source.ListsOnce) (h : w ∈ source.planWords) :
    Ordered w := by
  obtain ⟨schemas, keys, rfl, hschemas, hkeys⟩ := mem_planWords h
  have hfirst : Ordered schemas := by
    refine ordered_of_mem_prod once.schemas (fun name hname u hu => ?_) ?_ hschemas
    · obtain ⟨s, hs, rfl⟩ := List.mem_map.mp hname
      exact ordered_of_mem_schemaWords (once.tablesOf hs) hu
    · intro s s' hne u hu v hv p hp q hq hprecedes
      have hp' := within_of_mem_schemaWords hu p hp
      have hq' := within_of_mem_schemaWords hv q hq
      exact hne ((hprecedes.within hp').eq hq')
  have hphase : ∀ p ∈ schemas, p.phase = 0 := by
    intro p hp
    obtain ⟨s, -, u, hu, hpu, -⟩ := (mem_prod_words hschemas).1 p hp
    exact (within_of_mem_schemaWords hu p hpu).1
  have hkey : ∀ p ∈ keys, p.phase = 1 := by
    intro p hp
    obtain ⟨x, -, rfl⟩ := hkeys p hp
    rfl
  refine hfirst.append (List.pairwise_of_forall_mem_list fun p hp q hq => ?_) fun p hp q hq => ?_
  · apply Purpose.not_precedes_of_phase
    · rw [hkey q hq]
      omega
    · rw [hkey p hp, hkey q hq]
  · apply Purpose.not_precedes_of_phase
    · rw [hkey q hq]
      omega
    · rw [hphase p hp]
      omega

theorem made_in_planWords (h : w ∈ source.planWords) : ∀ p ∈ w,
    (∀ s, p.schema? = some s → .schema s ∈ w) ∧ ∀ x, p.table? = some x → .table x ∈ w := by
  obtain ⟨schemas, keys, rfl, hschemas, hkeys⟩ := mem_planWords h
  obtain ⟨hin, hall⟩ := mem_prod_words hschemas
  intro p hp
  rcases List.mem_append.mp hp with hp | hp
  · obtain ⟨name, hname, u, hu, hpu, husub⟩ := hin p hp
    obtain ⟨hmade, htable⟩ := made_in_schemaWords hu p hpu
    constructor
    · intro s hs
      have hwithin := within_of_mem_schemaWords hu p hpu
      obtain rfl := hwithin.eq ⟨hwithin.1, .inr hs⟩
      exact List.mem_append_left _ (husub hmade)
    · intro x hx
      exact List.mem_append_left _ (husub (htable x hx))
  · obtain ⟨x, hx, rfl⟩ := hkeys p hp
    refine ⟨fun s hs => ?_, fun y hy => by cases hy⟩
    obtain rfl := Option.some.inj hs
    -- the schema of a listed table is not passed over, so its word is not empty
    obtain ⟨schema, hschema, hxs⟩ : ∃ s ∈ answered source.schemas, x ∈ source.tablesOf s.name := by
      rw [Source.listed] at hx
      cases hlisted : source.schemas with
      | error e =>
        rw [hlisted] at hx
        exact absurd hx List.not_mem_nil
      | ok listed =>
        rw [hlisted] at hx
        obtain ⟨s, hs, hxs⟩ := List.mem_flatMap.mp hx
        exact ⟨s, hs, hxs⟩
    obtain ⟨hfst, hfull⟩ := fst_of_mem_tablesOf hxs
    obtain ⟨u, hu, husub⟩ := hall schema.name (List.mem_map_of_mem hschema)
    rw [schemaWords_full hfull] at hu
    obtain ⟨_, rfl, rest, -, rfl⟩ := Language.mem_mul.mp hu
    rw [hfst]
    exact List.mem_append_left _ (husub List.mem_cons_self)

end Source

/-! ## Phases -/

/-- What a migration sends comes in phases. -/
structure InPhases (w : List Purpose) : Prop where
  /-- A schema is made before anything is sent for it and its tables, and not again. -/
  schemas : ∀ {before after p s}, w = before ++ p :: after → p.schema? = some s →
    .schema s ∈ before ∧ .schema s ∉ after
  /-- Rows of a table are copied when it has been created and has no key, default or identity
  column. -/
  rows : ∀ {before after x}, w = before ++ .rows x :: after →
    .table x ∈ before ∧ .table x ∉ after ∧ .part x ∉ before
  /-- Nothing is done for the tables of a schema after an index of the schema. -/
  indexes : ∀ {before after s}, w = before ++ .index s :: after →
    ∀ p ∈ after, ∀ x, p.table? = some x → x.1 ≠ s
  /-- After a foreign key come only foreign keys and modules. -/
  foreignKeys : ∀ {before after x}, w = before ++ .foreignKey x :: after →
    ∀ p ∈ after, (∃ y, p = .foreignKey y) ∨ p = .module
  /-- After a module come only modules. -/
  modules : ∀ {before after}, w = before ++ .module :: after → ∀ p ∈ after, p = .module

namespace Source

variable {source : Source} {w : List Purpose}

theorem ordered_of_mem_migrationWords (once : source.ListsOnce) (h : w ∈ source.migrationWords) :
    Ordered w := by
  obtain ⟨plan, hplan, modules, hmodules, rfl⟩ := Language.mem_mul.mp h
  have hfirst := ordered_of_mem_planWords once hplan
  refine hfirst.append (ordered_of_forall_eq hmodules) fun p hp q hq => ?_
  rw [hmodules q hq]
  apply Purpose.not_precedes_of_phase
  · show 2 ≠ 0
    omega
  · cases p <;> simp [Purpose.phase]

theorem made_in_migrationWords (h : w ∈ source.migrationWords) : ∀ p ∈ w,
    (∀ s, p.schema? = some s → .schema s ∈ w) ∧ ∀ x, p.table? = some x → .table x ∈ w := by
  obtain ⟨plan, hplan, modules, hmodules, rfl⟩ := Language.mem_mul.mp h
  intro p hp
  rcases List.mem_append.mp hp with hp | hp
  · obtain ⟨hschema, htable⟩ := made_in_planWords hplan p hp
    exact ⟨fun s hs => List.mem_append_left _ (hschema s hs),
      fun x hx => List.mem_append_left _ (htable x hx)⟩
  · obtain rfl := hmodules p hp
    constructor
    · intro s hs
      cases hs
    · intro x hx
      cases hx

end Source

/-- Every start of a word of a migration is in phases, where the source lists each schema and each
table once. -/
theorem inPhases_of_starts {source : Source} (once : source.ListsOnce) {w rest : List Purpose}
    (h : w ++ rest ∈ source.migrationWords) : InPhases w := by
  have hordered := Source.ordered_of_mem_migrationWords once h
  have hmade := Source.made_in_migrationWords h
  have hbefore {before after : List Purpose} {p q : Purpose} (hw : w = before ++ p :: after)
      (hq : q ∈ before) : ¬ p.Precedes q := by
    rw [hw, List.append_assoc] at hordered
    exact (List.pairwise_append.mp hordered).2.2 q hq p List.mem_cons_self
  have hafter {before after : List Purpose} {p q : Purpose} (hw : w = before ++ p :: after)
      (hq : q ∈ after) : ¬ q.Precedes p := by
    rw [hw, List.append_assoc] at hordered
    have hlater := (List.pairwise_cons.mp (List.pairwise_append.mp hordered).2.1).1
    exact hlater q (List.mem_append_left _ hq)
  -- what goes before a purpose and is there at all stands before it
  have hneeded {before after : List Purpose} {p q : Purpose} (hw : w = before ++ p :: after)
      (hq : q ∈ w ++ rest) (hprecedes : q.Precedes p) : q ∈ before := by
    rw [hw, List.append_assoc] at hq hordered
    rcases List.mem_append.mp hq with hq | hq
    · exact hq
    · rcases List.mem_cons.mp hq with rfl | hq
      · exact absurd hprecedes (Purpose.not_precedes_self q)
      · have hlater := (List.pairwise_cons.mp (List.pairwise_append.mp hordered).2.1).1
        exact absurd hprecedes (hlater q hq)
  have hmem {before after : List Purpose} {p : Purpose} (hw : w = before ++ p :: after) :
      p ∈ w ++ rest := by
    rw [hw]
    simp
  constructor
  · intro before after p s hw hs
    have hschema : (Purpose.schema s).Precedes p := .schema hs
    have hthere : .schema s ∈ w ++ rest := (hmade p (hmem hw)).1 s hs
    exact ⟨hneeded hw hthere hschema, fun hlate => hafter hw hlate hschema⟩
  · intro before after x hw
    have htable : (Purpose.table x).Precedes (.rows x) := by
      apply Purpose.Precedes.stage (x := x) rfl rfl
      show 1 < 2
      omega
    have hpart : (Purpose.rows x).Precedes (.part x) := by
      apply Purpose.Precedes.stage (x := x) rfl rfl
      show 2 < 3
      omega
    have hthere : .table x ∈ w ++ rest := (hmade _ (hmem hw)).2 x rfl
    exact ⟨hneeded hw hthere htable, fun hlate => hafter hw hlate htable,
      fun hearly => hbefore hw hearly hpart⟩
  · intro before after s hw p hp x hx hsame
    subst hsame
    exact hafter hw hp (.index hx)
  · intro before after x hw p hp
    have hphase : ¬ p.phase < 1 := fun hearlier => hafter hw hp (.phase hearlier)
    cases p with
    | foreignKey y => exact .inl ⟨y, rfl⟩
    | module => exact .inr rfl
    | schema s | drop y | table y | rows y | part y | index s => exact absurd Nat.one_pos hphase
  · intro before after hw p hp
    have hphase : ¬ p.phase < 2 := fun hearlier => hafter hw hp (.phase hearlier)
    cases p with
    | module => rfl
    | foreignKey y => exact absurd (Nat.lt_succ_self 1) hphase
    | schema s | drop y | table y | rows y | part y | index s => exact absurd Nat.two_pos hphase

end Migration
