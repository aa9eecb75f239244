import Mathlib.Data.List.SplitBy
import Migration.Proofs.Quoting
import Migration.SqlServer.Catalog

/-
  Catalog rows and the descriptors that they make up.

  Keys, foreign keys, indexes and statistics come with one row for each column. Rows next to each
  other with one name make up one descriptor. This file

  1. reads the cells of rows that have the types of a query (`HasTypes`, `textIn`, `bitIn`);
  2. says what it is for descriptors to be told by rows (`Grouped`): the rows are cut into runs
     with one key each, every run makes one descriptor, descriptors next to each other have
     different keys, and none has the key of another where the rows of each key stand together;
  3. proves that grouping rows makes such descriptors, whatever is made of a run
     (`grouped_made`), and that taking rows in one by one does (`ToldSoFar.grouped`); what
     descriptors list is then what the rows list, in order (`Grouped.flatMap`);
  4. concludes so of all four queries, which succeed on every list of rows with the types that
     they read (`catalog_rows_grouped`). -/

namespace Migration

theorem Outcome.each_of_forall {α β : Type} {step : α → Outcome β} {f : α → β} {items : List α}
    (h : ∀ a ∈ items, step a = .ok (f a)) : Outcome.each step items = .ok (items.map f) := by
  induction items with
  | nil => rfl
  | cons a rest ih =>
    obtain ⟨ha, hrest⟩ := List.forall_mem_cons.mp h
    rw [Outcome.each, ha, ih hrest]
    rfl

theorem Outcome.foldlM_of_forall {α β : Type} {step : β → α → Outcome β} {f : β → α → β}
    {items : List α} (h : ∀ a ∈ items, ∀ b, step b a = .ok (f b a)) (b : β) :
    items.foldlM step b = .ok (items.foldl f b) := by
  induction items generalizing b with
  | nil => rfl
  | cons a rest ih =>
    obtain ⟨ha, hrest⟩ := List.forall_mem_cons.mp h
    rw [List.foldlM_cons, ha, List.foldl_cons]
    exact ih hrest (f b a)

namespace SqlServer

/-! ## Cells of the types that are read -/

/-- The row has cells of these types at its first places. Any of them may be null. -/
def HasTypes (types : List WireType) (row : WireRow) : Prop := types <+: row.map WireCell.type

instance (types : List WireType) (row : WireRow) : Decidable (HasTypes types row) :=
  inferInstanceAs (Decidable (_ <+: _))

def textIn (row : WireRow) (place : Nat) : String :=
  match row[place]? with
  | some ⟨.nvarchar, some (.nvarchar text)⟩ => text
  | _ => ""

def bitIn (row : WireRow) (place : Nat) : Bool :=
  match row[place]? with
  | some ⟨.bit, some (.bit b)⟩ => b
  | _ => false

theorem HasTypes.cell {types : List WireType} {row : WireRow} (h : HasTypes types row) {place : Nat}
    {type : WireType} (htype : types[place]? = some type) :
    ∃ value, row[place]? = some ⟨type, value⟩ := by
  have hcell : (row.map WireCell.type)[place]? = some type := by
    obtain ⟨more, hmore⟩ := h
    rw [← hmore, List.getElem?_append_left (List.getElem?_eq_some_iff.mp htype).1, htype]
  rw [List.getElem?_map, Option.map_eq_some_iff] at hcell
  obtain ⟨⟨cellType, value⟩, hcell, rfl⟩ := hcell
  exact ⟨value, hcell⟩

theorem HasTypes.textAt {types : List WireType} {row : WireRow} (h : HasTypes types row)
    {place : Nat} (htype : types[place]? = some .nvarchar) :
    textAt row place = .ok (textIn row place) := by
  obtain ⟨value, hcell⟩ := h.cell htype
  simp only [SqlServer.textAt, text?, cellAt, textIn, hcell]
  cases value with
  | none => rfl
  | some value => cases value <;> rfl

theorem HasTypes.bitAt {types : List WireType} {row : WireRow} (h : HasTypes types row)
    {place : Nat} (htype : types[place]? = some .bit) :
    bitAt row place = .ok (bitIn row place) := by
  obtain ⟨value, hcell⟩ := h.cell htype
  simp only [SqlServer.bitAt, cellAt, bitIn, hcell]
  cases value with
  | none => rfl
  | some value => cases value <;> rfl

/-! ## Runs of rows -/

section Runs

variable {ρ δ κ : Type} {key : ρ → κ} {same : ρ → ρ → Bool}

/-- No row with another key stands between two rows with one key. -/
def Contiguous (key : ρ → κ) (rows : List ρ) : Prop :=
  ∀ first between last, [first, between, last].Sublist rows → key first = key last →
    key between = key first

/-- The descriptor is made of this run of rows, which all have its key. -/
def MadeOf (key : ρ → κ) (keyOf : δ → κ) (make : ρ → List ρ → δ) (run : List ρ) (d : δ) : Prop :=
  (∃ first, run.head? = some first ∧ d = make first run) ∧ ∀ row ∈ run, key row = keyOf d

/-- The descriptors are told by the rows. -/
structure Grouped (key : ρ → κ) (keyOf : δ → κ) (make : ρ → List ρ → δ) (rows : List ρ)
    (found : List δ) : Prop where
  /-- Each descriptor is made of the next run of rows. -/
  runs : ∃ runs, runs.flatten = rows ∧ List.Forall₂ (MadeOf key keyOf make) runs found
  /-- Rows next to each other with one key are in one run. -/
  apart : found.IsChain fun d e => keyOf d ≠ keyOf e
  keys : ∀ k, k ∈ found.map keyOf ↔ k ∈ rows.map key
  once : Contiguous key rows → (found.map keyOf).Nodup

section Made

variable {keyOf : δ → κ} {make : ρ → List ρ → δ} {runs : List (List ρ)} {found : List δ}

theorem MadeOf.exists_mem {run : List ρ} {d : δ} (h : MadeOf key keyOf make run d) :
    ∃ row ∈ run, key row = keyOf d := by
  obtain ⟨⟨first, hfirst, -⟩, hkeys⟩ := h
  exact ⟨first, List.mem_of_head? hfirst, hkeys first (List.mem_of_head? hfirst)⟩

theorem mem_keys_iff (h : List.Forall₂ (MadeOf key keyOf make) runs found) (k : κ) :
    k ∈ found.map keyOf ↔ k ∈ runs.flatten.map key := by
  induction h with
  | nil => exact Iff.rfl
  | @cons run d runs found made rest ih =>
    obtain ⟨row, hrow, hkey⟩ := made.exists_mem
    rw [List.map_cons, List.mem_cons, ih, List.flatten_cons, List.map_append, List.mem_append]
    refine or_congr_left ⟨?_, fun hmem => ?_⟩
    · rintro rfl
      exact hkey ▸ List.mem_map_of_mem hrow
    · obtain ⟨row', hrow', rfl⟩ := List.mem_map.mp hmem
      exact made.2 row' hrow'

theorem isChain_keys (h : List.Forall₂ (MadeOf key keyOf make) runs found)
    (apart : runs.IsChain fun a b => ∃ r ∈ a, ∃ s ∈ b, key r ≠ key s) :
    found.IsChain fun d e => keyOf d ≠ keyOf e := by
  induction h with
  | nil => exact .nil
  | cons made rest ih =>
    cases rest with
    | nil => exact .singleton _
    | cons next rest =>
      obtain ⟨⟨r, hr, s, hs, hne⟩, hlater⟩ := List.isChain_cons_cons.mp apart
      refine List.isChain_cons_cons.mpr ⟨?_, ih hlater⟩
      rwa [← made.2 r hr, ← next.2 s hs]

theorem Contiguous.sublist {rows part : List ρ} (h : Contiguous key rows)
    (hpart : part.Sublist rows) : Contiguous key part :=
  fun first between last hthree => h first between last (hthree.trans hpart)

/-- If two descriptors had one key, there would be rows of another key between theirs. -/
theorem nodup_keys (h : List.Forall₂ (MadeOf key keyOf make) runs found)
    (apart : found.IsChain fun d e => keyOf d ≠ keyOf e)
    (contiguous : Contiguous key runs.flatten) : (found.map keyOf).Nodup := by
  induction h with
  | nil => exact .nil
  | @cons run d runs found made rest ih =>
    rw [List.flatten_cons] at contiguous
    refine List.nodup_cons.mpr ⟨fun hmem => ?_,
      ih apart.tail (contiguous.sublist (List.sublist_append_right _ _))⟩
    cases rest with
    | nil => cases hmem
    | @cons run' e runs found next rest =>
      have hne : keyOf d ≠ keyOf e := (List.isChain_cons_cons.mp apart).1
      have hlater : keyOf d ∈ found.map keyOf :=
        (List.mem_cons.mp hmem).resolve_left hne
      rw [mem_keys_iff rest, List.mem_map] at hlater
      obtain ⟨last, hlast, hlastKey⟩ := hlater
      obtain ⟨first, hfirst, hfirstKey⟩ := made.exists_mem
      obtain ⟨between, hbetween, hbetweenKey⟩ := next.exists_mem
      have hthree : [first, between, last].Sublist (run ++ (run' :: runs).flatten) :=
        (List.singleton_sublist.mpr hfirst).append
          ((List.singleton_sublist.mpr hbetween).append (List.singleton_sublist.mpr hlast))
      have hsame := contiguous first between last hthree (hfirstKey.trans hlastKey.symm)
      exact hne (hfirstKey.symm.trans (hsame.symm.trans hbetweenKey))

/-- Runs with descriptors that differ from those next to them tell all the rest. -/
theorem Grouped.of_runs {rows : List ρ} (hflatten : runs.flatten = rows)
    (h : List.Forall₂ (MadeOf key keyOf make) runs found)
    (apart : found.IsChain fun d e => keyOf d ≠ keyOf e) : Grouped key keyOf make rows found where
  runs := ⟨runs, hflatten, h⟩
  apart := apart
  keys k := by rw [mem_keys_iff h, hflatten]
  once contiguous := nodup_keys h apart (hflatten.symm ▸ contiguous)

theorem Grouped.exists_run {rows : List ρ} (h : Grouped key keyOf make rows found) {d : δ}
    (hd : d ∈ found) : ∃ run, MadeOf key keyOf make run d := by
  obtain ⟨runs, -, hruns⟩ := h.runs
  clear h
  induction hruns with
  | nil => cases hd
  | cons made _ ih =>
    rcases List.mem_cons.mp hd with rfl | hd
    · exact ⟨_, made⟩
    · exact ih hd

theorem Grouped.flatMap {β : Type} {rows : List ρ} (h : Grouped key keyOf make rows found)
    (part : δ → List β) (listed : List ρ → List β) (hnil : listed [] = [])
    (happend : ∀ a b, listed (a ++ b) = listed a ++ listed b)
    (hpart : ∀ first run, part (make first run) = listed run) :
    found.flatMap part = listed rows := by
  obtain ⟨runs, rfl, hruns⟩ := h.runs
  clear h
  induction hruns with
  | nil => exact hnil.symm
  | @cons run d runs found made _ ih =>
    obtain ⟨⟨first, -, rfl⟩, -⟩ := made
    rw [List.flatMap_cons, List.flatten_cons, happend, hpart, ih]

end Made

/-! ## Rows that are grouped -/

section Rows

variable (hsame : ∀ a b, same a b = true ↔ key a = key b)
include hsame

theorem key_of_mem_grouped {rows run : List ρ} (h : run ∈ grouped same rows) :
    ∀ r ∈ run, ∀ s ∈ run, key r = key s := by
  have : Trans (fun a b => key a = key b) (fun a b => key a = key b) (fun a b => key a = key b) :=
    ⟨Eq.trans⟩
  have : Std.Symm fun a b => key a = key b := ⟨fun _ _ => Eq.symm⟩
  have hchain : run.IsChain fun a b => key a = key b :=
    (List.isChain_of_mem_splitBy h).imp fun a b hab => (hsame a b).mp hab
  exact fun r hr s hs => hchain.pairwise.forall_of_forall (fun a _ => (rfl : key a = key a)) hr hs

theorem grouped_apart (rows : List ρ) :
    (grouped same rows).IsChain fun a b => ∃ r ∈ a, ∃ s ∈ b, key r ≠ key s := by
  refine (List.isChain_getLast_head_splitBy same rows).imp fun a b => ?_
  rintro ⟨ha, hb, hdiffer⟩
  refine ⟨a.getLast ha, List.getLast_mem ha, b.head hb, List.head_mem hb, fun hkey => ?_⟩
  rw [(hsame _ _).mpr hkey] at hdiffer
  cases hdiffer

theorem grouped_made (keyOf : δ → κ) (make : ρ → List ρ → δ)
    (hmake : ∀ first run, keyOf (make first run) = key first) (rows : List ρ) :
    Grouped key keyOf make rows
      ((grouped same rows).filterMap fun g => g.head?.map fun first => make first g) := by
  have hall : ∀ runs : List (List ρ), (∀ run ∈ runs, run ∈ grouped same rows) →
      List.Forall₂ (MadeOf key keyOf make) runs
        (runs.filterMap fun g => g.head?.map fun first => make first g) := by
    intro runs hruns
    induction runs with
    | nil => exact .nil
    | cons run runs ih =>
      obtain ⟨hrun, hlater⟩ := List.forall_mem_cons.mp hruns
      cases hfirst : run.head? with
      | none => exact absurd (List.head?_eq_none_iff.mp hfirst) (List.ne_nil_of_mem_splitBy hrun)
      | some first =>
        rw [List.filterMap_cons_some (by rw [hfirst]; rfl)]
        refine .cons ⟨⟨first, hfirst, rfl⟩, fun row hrow => ?_⟩ (ih hlater)
        rw [hmake]
        exact key_of_mem_grouped hsame hrun row hrow first (List.mem_of_head? hfirst)
  have hruns := hall (grouped same rows) fun _ hrun => hrun
  have hflatten : (grouped same rows).flatten = rows := List.flatten_splitBy same rows
  exact .of_runs hflatten hruns (isChain_keys hruns (grouped_apart hsame rows))

end Rows

theorem grouped_map {σ : Type} (view : ρ → σ) (same : σ → σ → Bool) (rows : List ρ) :
    grouped same (rows.map view) =
      (grouped (fun a b => same (view a) (view b)) rows).map (List.map view) := by
  refine List.splitBy_eq_iff.mpr ⟨?_, ?_, ?_, ?_⟩
  · rw [← List.map_flatten, grouped, List.flatten_splitBy]
  · rw [List.mem_map]
    rintro ⟨g, hg, hnil⟩
    exact List.ne_nil_of_mem_splitBy hg (List.map_eq_nil_iff.mp hnil)
  · intro g hg
    obtain ⟨h, hh, rfl⟩ := List.mem_map.mp hg
    exact (List.isChain_map view).mpr (List.isChain_of_mem_splitBy hh)
  · rw [List.isChain_map]
    refine (List.isChain_getLast_head_splitBy _ rows).imp fun a b => ?_
    rintro ⟨ha, hb, hdiffer⟩
    refine ⟨by simpa using ha, by simpa using hb, ?_⟩
    rwa [List.getLast_map, List.head_map]

/-- Descriptors can be made of what is read of the rows as of the rows themselves. -/
theorem filterMap_grouped_map {σ : Type} {view : ρ → σ} {same : σ → σ → Bool}
    {make : ρ → List ρ → δ} {makeRead : σ → List σ → δ}
    (hmake : ∀ first run, makeRead (view first) (run.map view) = make first run) (rows : List ρ) :
    ((grouped same (rows.map view)).filterMap fun g => g.head?.map fun first => makeRead first g) =
      (grouped (fun a b => same (view a) (view b)) rows).filterMap fun g =>
        g.head?.map fun first => make first g := by
  rw [grouped_map, List.filterMap_map]
  refine List.filterMap_congr fun g _ => ?_
  simp only [Function.comp_apply, List.head?_map, Option.map_map]
  exact congrArg (Option.map · g.head?) (funext fun first => hmake first g)

/-! ## Rows that are taken in one by one -/

section Joined

variable {keyOf : δ → κ} {make : ρ → List ρ → δ} {rows : List ρ} {found : List δ}

/-- Descriptors, the latest first, are told by the rows so far. -/
def ToldSoFar (key : ρ → κ) (keyOf : δ → κ) (make : ρ → List ρ → δ) (rows : List ρ)
    (found : List δ) : Prop :=
  ∃ runs, runs.reverse.flatten = rows ∧ List.Forall₂ (MadeOf key keyOf make) runs found ∧
    found.IsChain fun d e => keyOf e ≠ keyOf d

theorem toldSoFar_nil : ToldSoFar key keyOf make [] [] := ⟨[], rfl, .nil, .nil⟩

theorem ToldSoFar.begin (h : ToldSoFar key keyOf make rows found) {row : ρ}
    (hkey : keyOf (make row [row]) = key row)
    (hnew : ∀ latest ∈ found.head?, keyOf latest ≠ key row) :
    ToldSoFar key keyOf make (rows ++ [row]) (make row [row] :: found) := by
  obtain ⟨runs, rfl, hruns, apart⟩ := h
  refine ⟨[row] :: runs, ?_, .cons ⟨⟨row, rfl, rfl⟩, ?_⟩ hruns, ?_⟩
  · rw [List.reverse_cons, List.flatten_append, List.flatten_singleton]
  · intro other hother
    rw [List.mem_singleton.mp hother, hkey]
  · cases found with
    | nil => exact .singleton _
    | cons latest earlier =>
      refine List.isChain_cons_cons.mpr ⟨?_, apart⟩
      rw [hkey]
      exact hnew latest rfl

theorem ToldSoFar.goOn {latest extended : δ} {earlier : List δ}
    (h : ToldSoFar key keyOf make rows (latest :: earlier)) {row : ρ}
    (hkey : keyOf latest = key row) (hsame : keyOf extended = keyOf latest)
    (hextended : ∀ first run, latest = make first run → extended = make first (run ++ [row])) :
    ToldSoFar key keyOf make (rows ++ [row]) (extended :: earlier) := by
  obtain ⟨runs, rfl, hruns, apart⟩ := h
  cases hruns with
  | @cons run _ runs _ made rest =>
    obtain ⟨⟨first, hfirst, hmade⟩, hkeys⟩ := made
    refine ⟨(run ++ [row]) :: runs, ?_, .cons ⟨⟨first, ?_, hextended first run hmade⟩, ?_⟩ rest, ?_⟩
    · simp only [List.reverse_cons, List.flatten_append, List.flatten_singleton, List.append_assoc]
    · rw [List.head?_append, hfirst]
      rfl
    · intro other hother
      rw [hsame]
      rcases List.mem_append.mp hother with hother | hother
      · exact hkeys other hother
      · rw [List.mem_singleton.mp hother, hkey]
    · cases earlier with
      | nil => exact .singleton _
      | cons next earlier =>
        obtain ⟨hne, hlater⟩ := List.isChain_cons_cons.mp apart
        refine List.isChain_cons_cons.mpr ⟨?_, hlater⟩
        rw [hsame]
        exact hne

theorem ToldSoFar.foldl {step : List δ → ρ → List δ}
    (hstep : ∀ {rows found}, ToldSoFar key keyOf make rows found →
      ∀ row, ToldSoFar key keyOf make (rows ++ [row]) (step found row))
    (h : ToldSoFar key keyOf make rows found) (later : List ρ) :
    ToldSoFar key keyOf make (rows ++ later) (later.foldl step found) := by
  induction later generalizing rows found with
  | nil =>
    rw [List.append_nil]
    exact h
  | cons row later ih =>
    have hnext := ih (hstep h row)
    rwa [List.append_assoc] at hnext

theorem ToldSoFar.grouped (h : ToldSoFar key keyOf make rows found) :
    Grouped key keyOf make rows found.reverse := by
  obtain ⟨runs, hflatten, hruns, apart⟩ := h
  apply Grouped.of_runs hflatten
  · exact List.forall₂_reverse_iff.mpr hruns
  · exact List.isChain_reverse.mpr apart

end Joined

end Runs

/-! ## The four queries -/

def keyOfRun (schema table : String) (kind : ConstraintKind) (first : WireRow)
    (run : List WireRow) : Constraint :=
  { schema, table, name := textIn first 0, kind, fields := run.map (textIn · 1) }

def foreignKeyOfRun (schema table : String) (first : WireRow) (run : List WireRow) : Constraint :=
  { schema, table, name := textIn first 0, kind := .foreignKey
    fields := run.map (textIn · 1)
    referencedSchema := some (textIn first 2)
    referencedTable := some (textIn first 3)
    referencedFields := run.map (textIn · 4)
    onDelete := some (textIn first 5)
    onUpdate := some (textIn first 6) }

def indexOfRun (schema : String) (first : WireRow) (run : List WireRow) : Index :=
  { schema, table := textIn first 0, name := textIn first 1
    keyColumns := (run.filter (!bitIn · 4)).map (textIn · 3)
    includedColumns := (run.filter (bitIn · 4)).map (textIn · 3)
    isUnique := bitIn first 2 }

def statisticsOfRun (schema : String) (first : WireRow) (run : List WireRow) : Statistics :=
  { schema, table := textIn first 0, name := textIn first 1, columns := run.map (textIn · 2) }

/-- The types of the cells that are read of a key, a foreign key, an index and statistics. -/
def keyTypes : List WireType := [.nvarchar, .nvarchar]

@[inherit_doc keyTypes] def foreignKeyTypes : List WireType := List.replicate 7 .nvarchar

@[inherit_doc keyTypes] def indexTypes : List WireType :=
  [.nvarchar, .nvarchar, .bit, .nvarchar, .bit]

@[inherit_doc keyTypes] def statisticsTypes : List WireType := [.nvarchar, .nvarchar, .nvarchar]

section Queries

variable {rows : List WireRow}

theorem keys_read (schema table code : String) (kind : ConstraintKind)
    (h : ∀ row ∈ rows, HasTypes keyTypes row) :
    (keys schema table code kind).read rows =
      .ok ((grouped (fun a b => textIn a 0 == textIn b 0) rows).filterMap fun g =>
        g.head?.map fun first => keyOfRun schema table kind first g) := by
  have hread : Outcome.each keyRow rows = .ok (rows.map fun row => ⟨textIn row 0, textIn row 1⟩) :=
    Outcome.each_of_forall fun row hrow => by
      rw [keyRow, (h row hrow).textAt rfl, (h row hrow).textAt rfl]
      rfl
  have hkeys : (keys schema table code kind).read rows =
      .ok (keysOf schema table kind (rows.map fun row => ⟨textIn row 0, textIn row 1⟩)) := by
    simp only [keys, hread]
    rfl
  rw [hkeys, keysOf, filterMap_grouped_map fun first run => ?_]
  rw [List.map_map]
  rfl

theorem indexes_read (schema : String) (table : Option String)
    (h : ∀ row ∈ rows, HasTypes indexTypes row) :
    (indexes schema table).read rows =
      .ok ((grouped (fun a b => textIn a 0 == textIn b 0 && textIn a 1 == textIn b 1)
        rows).filterMap fun g => g.head?.map fun first => indexOfRun schema first g) := by
  have hread : Outcome.each indexRow rows = .ok (rows.map fun row =>
      ⟨textIn row 0, textIn row 1, bitIn row 2, textIn row 3, bitIn row 4⟩) :=
    Outcome.each_of_forall fun row hrow => by
      have htext {place : Nat} := @HasTypes.textAt _ _ (h row hrow) place
      have hbit {place : Nat} := @HasTypes.bitAt _ _ (h row hrow) place
      rw [indexRow, htext rfl, htext rfl, htext rfl, hbit rfl, hbit rfl]
      rfl
  have hindexes : (indexes schema table).read rows = .ok (indexesOf schema (rows.map fun row =>
      ⟨textIn row 0, textIn row 1, bitIn row 2, textIn row 3, bitIn row 4⟩)) := by
    simp only [indexes, hread]
    rfl
  rw [hindexes, indexesOf, filterMap_grouped_map fun first run => ?_]
  rw [List.filter_map, List.filter_map, List.map_map, List.map_map]
  rfl

theorem statistics_read (schema : String) (h : ∀ row ∈ rows, HasTypes statisticsTypes row) :
    (statistics schema).read rows =
      .ok ((grouped (fun a b => textIn a 0 == textIn b 0 && textIn a 1 == textIn b 1)
        rows).filterMap fun g => g.head?.map fun first => statisticsOfRun schema first g) := by
  have hread : Outcome.each statisticsRow rows = .ok (rows.map fun row =>
      ⟨textIn row 0, textIn row 1, textIn row 2⟩) :=
    Outcome.each_of_forall fun row hrow => by
      have htext {place : Nat} := @HasTypes.textAt _ _ (h row hrow) place
      rw [statisticsRow, htext rfl, htext rfl, htext rfl]
      rfl
  have hstatistics : (statistics schema).read rows = .ok (statisticsOf schema (rows.map fun row =>
      ⟨textIn row 0, textIn row 1, textIn row 2⟩)) := by
    simp only [statistics, hread]
    rfl
  rw [hstatistics, statisticsOf, filterMap_grouped_map fun first run => ?_]
  rw [List.map_map]
  rfl

/-- What one more row of the right types makes of the foreign keys so far, the latest first. -/
def withForeignKeyRow (schema table : String) (found : List Constraint) (row : WireRow) :
    List Constraint :=
  match found.head?.filter (·.name == textIn row 0) with
  | some latest =>
    { latest with
      fields := latest.fields ++ [textIn row 1]
      referencedFields := latest.referencedFields ++ [textIn row 4] } :: found.tail
  | none => foreignKeyOfRun schema table row [row] :: found

theorem addForeignKeyRow_typed (schema table : String) (found : List Constraint) {row : WireRow}
    (h : HasTypes foreignKeyTypes row) :
    addForeignKeyRow schema table found row = .ok (withForeignKeyRow schema table found row) := by
  have htext {place : Nat} := @HasTypes.textAt _ _ h place
  rw [addForeignKeyRow, htext rfl, htext rfl, htext rfl, htext rfl, htext rfl, htext rfl, htext rfl,
    withForeignKeyRow]
  show (match found.head?.filter (·.name == textIn row 0) with | some latest => _ | none => _) = _
  cases found.head?.filter (·.name == textIn row 0) with
  | none => rfl
  | some latest => rfl

/-- One more row keeps foreign keys told by their rows. -/
theorem toldSoFar_withForeignKeyRow (schema table : String) {found : List Constraint}
    (h : ToldSoFar (textIn · 0) Constraint.name (foreignKeyOfRun schema table) rows found)
    (row : WireRow) :
    ToldSoFar (textIn · 0) Constraint.name (foreignKeyOfRun schema table) (rows ++ [row])
      (withForeignKeyRow schema table found row) := by
  rw [withForeignKeyRow]
  split
  · rename_i latest hlatest
    obtain ⟨hhead, hname⟩ := Option.filter_eq_some_iff.mp hlatest
    obtain ⟨earlier, rfl⟩ : ∃ earlier, found = latest :: earlier := by
      cases found with
      | nil => cases hhead
      | cons first earlier => exact ⟨earlier, congrArg (· :: earlier) (Option.some.inj hhead)⟩
    refine h.goOn (beq_iff_eq.mp hname) rfl ?_
    rintro first run rfl
    simp only [foreignKeyOfRun, List.map_append, List.map_singleton]
  · rename_i hnone
    refine h.begin rfl fun latest hlatest hname => ?_
    rw [Option.mem_def.mp hlatest] at hnone
    simp [hname] at hnone

/-- The foreign keys that are found are told by the rows. -/
theorem foreignKeys_read (schema table : String) (h : ∀ row ∈ rows, HasTypes foreignKeyTypes row) :
    ∃ found, (foreignKeys schema table).read rows = .ok found ∧
      Grouped (textIn · 0) Constraint.name (foreignKeyOfRun schema table) rows found := by
  have htold := toldSoFar_nil.foldl (toldSoFar_withForeignKeyRow schema table) rows
  refine ⟨_, ?_, htold.grouped⟩
  show (rows.foldlM (addForeignKeyRow schema table) [] >>= _) = _
  rw [Outcome.foldlM_of_forall fun row hrow found =>
    addForeignKeyRow_typed schema table found (h row hrow)]
  rfl

end Queries

/-- Whatever rows a server sends for the keys, foreign keys, indexes or statistics, in whatever
order, if only their cells have the types that are read, the descriptors are told by the rows: one
is made of each run of rows with one name, those next to each other differ in their names, none has
the name of another where the rows of each name stand together, and all list together what the rows
list, in order and once. A foreign key pairs each column with the one that it refers to. -/
theorem catalog_rows_grouped (schema table : String) (seconds : Nat) (rows : List WireRow)
    (affected : List Nat) :
    (∀ code kind, (∀ row ∈ rows, HasTypes keyTypes row) → ∃ found,
      (keys schema table code kind).answer seconds (.answer (some rows) affected none) = .ok found ∧
      Grouped (textIn · 0) Constraint.name (keyOfRun schema table kind) rows found ∧
      found.flatMap Constraint.fields = rows.map (textIn · 1)) ∧
    ((∀ row ∈ rows, HasTypes foreignKeyTypes row) → ∃ found,
      (foreignKeys schema table).answer seconds (.answer (some rows) affected none) = .ok found ∧
      Grouped (textIn · 0) Constraint.name (foreignKeyOfRun schema table) rows found ∧
      (∀ c ∈ found, c.fields ≠ [] ∧ c.fields.length = c.referencedFields.length) ∧
      found.flatMap (fun c => c.fields.zip c.referencedFields) =
        rows.map fun row => (textIn row 1, textIn row 4)) ∧
    (∀ only, (∀ row ∈ rows, HasTypes indexTypes row) → ∃ found,
      (indexes schema only).answer seconds (.answer (some rows) affected none) = .ok found ∧
      Grouped (fun row => (textIn row 0, textIn row 1)) (fun i => (i.table, i.name))
        (indexOfRun schema) rows found ∧
      found.flatMap Index.keyColumns = (rows.filter (!bitIn · 4)).map (textIn · 3) ∧
      found.flatMap Index.includedColumns = (rows.filter (bitIn · 4)).map (textIn · 3)) ∧
    ((∀ row ∈ rows, HasTypes statisticsTypes row) → ∃ found,
      (statistics schema).answer seconds (.answer (some rows) affected none) = .ok found ∧
      Grouped (fun row => (textIn row 0, textIn row 1)) (fun s => (s.table, s.name))
        (statisticsOfRun schema) rows found ∧
      found.flatMap Statistics.columns = rows.map (textIn · 2)) := by
  have hname (a b : WireRow) : (textIn a 0 == textIn b 0) = true ↔ textIn a 0 = textIn b 0 :=
    beq_iff_eq
  have hnames (a b : WireRow) : (textIn a 0 == textIn b 0 && textIn a 1 == textIn b 1) = true ↔
      (textIn a 0, textIn a 1) = (textIn b 0, textIn b 1) := by
    rw [Bool.and_eq_true, beq_iff_eq, beq_iff_eq, Prod.mk.injEq]
  refine ⟨fun code kind h => ?_, fun h => ?_, fun only h => ?_, fun h => ?_⟩
  · have hgrouped := grouped_made hname Constraint.name (keyOfRun schema table kind)
      (fun _ _ => rfl) rows
    refine ⟨_, keys_read schema table code kind h, hgrouped, ?_⟩
    exact hgrouped.flatMap _ (List.map (textIn · 1)) rfl (fun _ _ => List.map_append) fun _ _ => rfl
  · obtain ⟨found, hread, hgrouped⟩ := foreignKeys_read schema table h
    refine ⟨found, hread, hgrouped, fun c hc => ?_, ?_⟩
    · obtain ⟨run, ⟨first, hfirst, rfl⟩, -⟩ := hgrouped.exists_run hc
      refine ⟨fun hnone => ?_, by rw [foreignKeyOfRun, List.length_map, List.length_map]⟩
      obtain rfl := List.map_eq_nil_iff.mp hnone
      cases hfirst
    · refine hgrouped.flatMap _ (List.map fun row => (textIn row 1, textIn row 4)) rfl
        (fun _ _ => List.map_append) fun first run => ?_
      rw [foreignKeyOfRun, List.zip_map']
  · have hgrouped := grouped_made hnames (fun i : Index => (i.table, i.name)) (indexOfRun schema)
      (fun _ _ => rfl) rows
    have happend (p : WireRow → Bool) (a b : List WireRow) :
        ((a ++ b).filter p).map (textIn · 3) =
          (a.filter p).map (textIn · 3) ++ (b.filter p).map (textIn · 3) := by
      rw [List.filter_append, List.map_append]
    refine ⟨_, indexes_read schema only h, hgrouped, ?_, ?_⟩
    · exact hgrouped.flatMap _ (fun run => (run.filter (!bitIn · 4)).map (textIn · 3)) rfl
        (happend _) fun _ _ => rfl
    · exact hgrouped.flatMap _ (fun run => (run.filter (bitIn · 4)).map (textIn · 3)) rfl
        (happend _) fun _ _ => rfl
  · have hgrouped := grouped_made hnames (fun s : Statistics => (s.table, s.name))
      (statisticsOfRun schema) (fun _ _ => rfl) rows
    refine ⟨_, statistics_read schema h, hgrouped, ?_⟩
    exact hgrouped.flatMap _ (List.map (textIn · 2)) rfl (fun _ _ => List.map_append) fun _ _ => rfl

/-- The rows of two foreign keys, the first of two columns. -/
def foreignKeyRows : List WireRow :=
  [["fk_item", "order", "dbo", "item", "order_no", "CASCADE", "NO_ACTION"],
   ["fk_item", "line", "dbo", "item", "line_no", "CASCADE", "NO_ACTION"],
   ["fk_user", "user", "app", "user", "id", "NO_ACTION", "NO_ACTION"]].map
    (List.map fun text => ⟨.nvarchar, some (.nvarchar text)⟩)

/-- The rows of an index with a column that it only covers. -/
def coveringIndexRows : List WireRow :=
  [("order", false), ("note", true)].map fun (column, isIncluded) =>
    [⟨.nvarchar, some (.nvarchar "ship")⟩, ⟨.nvarchar, some (.nvarchar "ix_ship")⟩,
     ⟨.bit, some (.bit true)⟩, ⟨.nvarchar, some (.nvarchar column)⟩,
     ⟨.bit, some (.bit isIncluded)⟩]

/-- Rows to which `catalog_rows_grouped` applies: two keys of which one has two columns, pairs of
columns that refer to one another, and an index with a column that it only covers. -/
theorem composite_rows_grouped :
    (∃ found, (keys "dbo" "ship" "UQ" .uniqueKey).answer 30
        (.answer (some foreignKeyRows) [3] none) = .ok found ∧
      found.flatMap Constraint.fields = ["order", "line", "user"]) ∧
    (∃ found, (foreignKeys "dbo" "ship").answer 30
        (.answer (some foreignKeyRows) [3] none) = .ok found ∧
      (∀ c ∈ found, c.fields ≠ [] ∧ c.fields.length = c.referencedFields.length) ∧
      found.flatMap (fun c => c.fields.zip c.referencedFields) =
        [("order", "order_no"), ("line", "line_no"), ("user", "id")]) ∧
    (∃ found, (indexes "dbo" none).answer 30
        (.answer (some coveringIndexRows) [2] none) = .ok found ∧
      found.flatMap Index.keyColumns = ["order"] ∧
      found.flatMap Index.includedColumns = ["note"]) ∧
    (∃ found, (statistics "dbo").answer 30 (.answer (some foreignKeyRows) [3] none) = .ok found ∧
      found.flatMap Statistics.columns = ["dbo", "dbo", "app"]) := by
  obtain ⟨hkeys, hforeign, -, hstatistics⟩ :=
    catalog_rows_grouped "dbo" "ship" 30 foreignKeyRows [3]
  obtain ⟨-, -, hindexes, -⟩ := catalog_rows_grouped "dbo" "ship" 30 coveringIndexRows [2]
  obtain ⟨found, hfound, -, hfields⟩ := hkeys "UQ" .uniqueKey (by decide)
  obtain ⟨found', hfound', -, hpaired, hfields'⟩ := hforeign (by decide)
  obtain ⟨indexes, hindexes, -, hkeyColumns, hincluded⟩ := hindexes none (by decide)
  obtain ⟨statistics, hstatistics, -, hcolumns⟩ := hstatistics (by decide)
  exact ⟨⟨found, hfound, hfields⟩, ⟨found', hfound', hpaired, hfields'⟩,
    ⟨indexes, hindexes, hkeyColumns, hincluded⟩, ⟨statistics, hstatistics, hcolumns⟩⟩

end SqlServer

end Migration
