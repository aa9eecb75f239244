import Migration.Proofs.Quoting
import Migration.Proofs.Spellings
import Migration.Settings

/-
  Tables that are made but not filled.

  The settings name such tables by entries of a schema, a point and a table. Entries are cut twice:
  where the settings are checked, and where it is asked of a table whether its rows are copied. The
  first cut refuses a further point, the second takes it for a part of the table. This file

  1. says what the cut at the first point finds (`splitAtPoint_iff`), and which entries are
     accepted: those that spell a table (`Spells`, `isTableEntry_iff`);
  2. proves that an entry that spells a table can be cut in no other way (`Spells.parts_eq`), and
     that it is in any mix of cases the joined name of that table only
     (`Spells.same_joined_iff`);
  3. concludes that with accepted settings rows are left out of just those tables of which the
     joined name is an entry (`copiesDataFor_eq_false_iff`). -/

namespace Migration

/-! ## Entries that are accepted -/

/-- The entry is a schema and a table, which are not empty, with the only point between them. -/
structure Spells (entry schema table : String) : Prop where
  joined : entry = schema ++ "." ++ table
  schema_ne : schema ≠ ""
  table_ne : table ≠ ""
  schema_plain : '.' ∉ schema.toList
  table_plain : '.' ∉ table.toList

theorem toList_joined (schema table : String) :
    (schema ++ "." ++ table).toList = schema.toList ++ '.' :: table.toList := by
  rw [String.toList_append, String.toList_append, List.append_assoc]
  rfl

theorem splitAtPoint_append {s : List Char} (hplain : '.' ∉ s) (t : List Char) :
    splitAtPoint (s ++ '.' :: t) = some (s, t) := by
  induction s with
  | nil => rfl
  | cons c s ih =>
    have hc : c ≠ '.' := (List.ne_of_not_mem_cons hplain).symm
    rw [List.cons_append, splitAtPoint, if_neg hc, ih (List.not_mem_of_not_mem_cons hplain)]
    rfl

/-- The cut is at the first point. -/
theorem splitAtPoint_iff {cs s t : List Char} :
    splitAtPoint cs = some (s, t) ↔ cs = s ++ '.' :: t ∧ '.' ∉ s := by
  refine ⟨fun h => ?_, fun ⟨hjoined, hplain⟩ => hjoined ▸ splitAtPoint_append hplain t⟩
  induction cs generalizing s with
  | nil => cases h
  | cons c rest ih =>
    rw [splitAtPoint] at h
    split at h
    · rename_i hpoint
      cases h
      exact ⟨hpoint ▸ rfl, List.not_mem_nil⟩
    · rename_i hpoint
      obtain ⟨⟨s', t'⟩, hrest, hparts⟩ := Option.map_eq_some_iff.mp h
      cases hparts
      obtain ⟨rfl, hplain⟩ := ih hrest
      exact ⟨rfl, List.not_mem_cons_of_ne_of_not_mem (Ne.symm hpoint) hplain⟩

theorem isTableEntry_iff {entry : String} :
    isTableEntry entry = true ↔ ∃ schema table, Spells entry schema table := by
  constructor
  · intro h
    rw [isTableEntry] at h
    split at h
    · rename_i s t hcut
      obtain ⟨hjoined, hs⟩ := splitAtPoint_iff.mp hcut
      simp only [Bool.and_eq_true, Bool.not_eq_true', List.isEmpty_eq_false_iff,
        List.contains_eq_mem, decide_eq_false_iff_not] at h
      obtain ⟨⟨hs0, ht0⟩, ht⟩ := h
      refine ⟨String.ofList s, String.ofList t, ⟨?_, ?_, ?_, ?_, ?_⟩⟩
      · rw [← String.toList_inj, toList_joined, String.toList_ofList, String.toList_ofList, hjoined]
      · rwa [Ne, String.ofList_eq_empty_iff]
      · rwa [Ne, String.ofList_eq_empty_iff]
      · rwa [String.toList_ofList]
      · rwa [String.toList_ofList]
    · cases h
  · rintro ⟨schema, table, h⟩
    rw [isTableEntry, h.joined, toList_joined, splitAtPoint_append h.schema_plain]
    simp [h.schema_ne, h.table_ne, h.table_plain]

/-! ## What an entry names -/

section Named

variable {entry schema table : String}

/-- No other schema and table have this joined name. -/
theorem Spells.parts_eq (h : Spells entry schema table) {schema' table' : String}
    (hjoined : entry = schema' ++ "." ++ table') : schema' = schema ∧ table' = table := by
  have hchars : schema'.toList ++ '.' :: table'.toList = schema.toList ++ '.' :: table.toList := by
    rw [← toList_joined, ← toList_joined, ← hjoined, h.joined]
  obtain ⟨hschema, -, htable⟩ :=
    (List.append_cons_inj_of_notMem h.schema_plain h.table_plain).mp hchars.symm
  exact ⟨(String.toList_inj.mp hschema).symm, (String.toList_inj.mp htable).symm⟩

theorem point_mem_map_toLower {cs : List Char} : '.' ∈ cs.map Char.toLower ↔ '.' ∈ cs := by
  have hpoint (c : Char) : (c.toLower = '.') = (c = '.') :=
    map_toLower_invariant (f := fun d => d = '.') (by decide +kernel) c
  simp only [List.mem_map, hpoint, exists_eq_right]

/-- In any mix of cases the entry is the joined name of one table only. -/
theorem Spells.same_joined_iff (h : Spells entry schema table) (schema' table' : String) :
    Text.sameIgnoringAsciiCase entry (schema' ++ "." ++ table') = true ↔
      Text.sameIgnoringAsciiCase schema schema' = true ∧
        Text.sameIgnoringAsciiCase table table' = true := by
  have hschema := mt point_mem_map_toLower.mp h.schema_plain
  have htable := mt point_mem_map_toLower.mp h.table_plain
  have hpoint : '.'.toLower = '.' := rfl
  simp only [Text.sameIgnoringAsciiCase, beq_iff_eq, h.joined, toList_joined, List.map_append,
    List.map_cons, hpoint]
  rw [List.append_cons_inj_of_notMem hschema htable]
  exact and_congr_right fun _ => and_iff_right rfl

theorem Spells.entryNames_iff (h : Spells entry schema table) (schema' table' : String) :
    entryNames schema' table' entry = true ↔
      Text.sameIgnoringAsciiCase schema schema' = true ∧
        Text.sameIgnoringAsciiCase table table' = true := by
  rw [entryNames, h.joined, toList_joined, splitAtPoint_append h.schema_plain]
  simp only [String.ofList_toList, Bool.and_eq_true]

end Named

/-! ## Accepted settings -/

theorem isTableEntry_of_validate {s : Settings} (accepted : s.validate = .ok ()) {entry : String}
    (hentry : entry ∈ s.migration.skippedTables) : isTableEntry entry = true := by
  obtain ⟨-, -, accepted⟩ := Outcome.bind_ok accepted
  obtain ⟨-, -, accepted⟩ := Outcome.bind_ok accepted
  obtain ⟨-, -, accepted⟩ := Outcome.bind_ok accepted
  obtain ⟨-, -, accepted⟩ := Outcome.bind_ok accepted
  rw [RunSettings.fault?] at accepted
  split at accepted
  · cases accepted
  · rename_i hnone
    simpa using List.find?_eq_none.mp hnone entry hentry

/-- With accepted settings the rows of a table are left out if no table is filled or if the joined
name of this table is an entry in any mix of cases, and else they are copied. What an entry spells
can be told from it in one way, and it names no other table. -/
theorem copiesDataFor_eq_false_iff (s : Settings) (accepted : s.validate = .ok ()) :
    (∀ schema table, s.migration.copiesDataFor schema table = false ↔
      s.migration.schemaOnly = true ∨ ∃ entry ∈ s.migration.skippedTables,
        Text.sameIgnoringAsciiCase entry (schema ++ "." ++ table) = true) ∧
    ∀ entry ∈ s.migration.skippedTables, ∃ schema table, Spells entry schema table ∧
      (∀ schema' table', entryNames schema' table' entry = true ↔
        Text.sameIgnoringAsciiCase schema schema' = true ∧
          Text.sameIgnoringAsciiCase table table' = true) ∧
      ∀ schema' table', entry = schema' ++ "." ++ table' → schema' = schema ∧ table' = table := by
  have hspells : ∀ entry ∈ s.migration.skippedTables, ∃ schema table, Spells entry schema table :=
    fun entry hentry => isTableEntry_iff.mp (isTableEntry_of_validate accepted hentry)
  constructor
  · intro schema table
    rw [RunSettings.copiesDataFor, Bool.and_eq_false_iff, Bool.not_eq_false', Bool.not_eq_false',
      List.any_eq_true]
    refine or_congr_right (exists_congr fun entry => and_congr_right fun hentry => ?_)
    obtain ⟨schema', table', h⟩ := hspells entry hentry
    rw [h.entryNames_iff, h.same_joined_iff]
  · intro entry hentry
    obtain ⟨schema, table, h⟩ := hspells entry hentry
    exact ⟨schema, table, h, h.entryNames_iff, fun _ _ => h.parts_eq⟩

/-- Settings that leave the rows of one table out. -/
def auditedSettings : Settings where
  source := { host := "mssql.local", database := "Sales", user := "sa" }
  target := { host := "pg.local", database := "sales", user := "postgres" }
  migration := { skippedTables := ["dbo.AuditLog"] }

/-- The entry leaves out the table that it spells, and not the one whose name is the whole entry. -/
theorem audit_log_skipped :
    auditedSettings.validate = .ok () ∧
      auditedSettings.migration.copiesDataFor "DBO" "auditlog" = false ∧
      ¬ auditedSettings.migration.copiesDataFor "" "dbo.AuditLog" = false := by
  have accepted : auditedSettings.validate = .ok () := by decide +kernel
  obtain ⟨hiff, -⟩ := copiesDataFor_eq_false_iff auditedSettings accepted
  refine ⟨accepted, (hiff _ _).mpr (.inr ⟨"dbo.AuditLog", ?_, ?_⟩), mt (hiff _ _).mp ?_⟩
  · decide
  · decide
  · decide

end Migration
