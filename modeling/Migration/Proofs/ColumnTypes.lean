import Migration.Proofs.Quoting
import Migration.Proofs.TypeNames
import Migration.SqlServer.Catalog
import Migration.TypeMap.Postgres

/-
  Columns of the source and their types in the target.

  The catalog of the source reports a type name, a precision, a scale and a length,
  each number signed and possibly absent. The type name is classified by the map of
  the source and resolved by that of the target. This file

  1. sorts the type names of the source by what the type in the target depends on
     (`sourceSorts`), and proves that this is how they are classified (`classify_sort`);
  2. writes out what the target has for each sort, size and precision (`targetLiteral`),
     and proves that this is how its map resolves (`resolve_postgresTypes`);
  3. puts the two together on the rows of the catalog, with rules for the literals
     (`Becomes`) and for what fits into them (`HoldsText`, `HoldsDecimal`), in
     `classified_column_survives`. -/

namespace Migration

/-! ## Sorts of types -/

/-- What the type of a column in the target depends on. -/
inductive TypeSort where
  /-- Characters, up to a length. -/
  | varying
  /-- Characters, exactly of a length. -/
  | fixed
  | decimal
  | binary
  /-- One type for all columns of the sort. -/
  | plain (literal : String)
  deriving DecidableEq, Repr

def TypeSort.IsText (sort : TypeSort) : Prop := sort = .varying ∨ sort = .fixed

def ColumnType.sort : ColumnType → TypeSort
  | .ansiString => .varying
  | .ansiStringFixedLength => .fixed
  | .binary => .binary
  | .boolean => .plain "boolean"
  | .byte => .plain "smallint"
  | .currency => .plain "money"
  | .date => .plain "date"
  | .dateTime => .plain "timestamp"
  | .dateTime2 => .plain "timestamp"
  | .dateTimeOffset => .plain "timestamptz"
  | .decimal => .decimal
  | .double => .plain "float8"
  | .guid => .plain "uuid"
  | .int16 => .plain "smallint"
  | .int32 => .plain "integer"
  | .int64 => .plain "bigint"
  | .single => .plain "float4"
  | .string => .varying
  | .stringFixedLength => .fixed
  | .time => .plain "time"
  | .xml => .plain "xml"

def sourceSorts : List (String × TypeSort) :=
  [("varchar", .varying), ("nvarchar", .varying), ("text", .varying), ("ntext", .varying),
   ("sysname", .varying), ("char", .fixed), ("nchar", .fixed),
   ("decimal", .decimal), ("numeric", .decimal),
   ("binary", .binary), ("varbinary", .binary), ("image", .binary), ("timestamp", .binary),
   ("rowversion", .binary),
   ("bit", .plain "boolean"), ("tinyint", .plain "smallint"), ("smallint", .plain "smallint"),
   ("int", .plain "integer"), ("bigint", .plain "bigint"), ("real", .plain "float4"),
   ("float", .plain "float8"), ("money", .plain "money"), ("smallmoney", .plain "money"),
   ("date", .plain "date"), ("time", .plain "time"), ("datetime", .plain "timestamp"),
   ("smalldatetime", .plain "timestamp"), ("datetime2", .plain "timestamp"),
   ("datetimeoffset", .plain "timestamptz"), ("uniqueidentifier", .plain "uuid"),
   ("xml", .plain "xml")]

theorem lookup_congr {α β : Type} [DecidableEq α] {names names' : List (α × β)}
    (h : ∀ p ∈ names ++ names', names.lookup p.1 = names'.lookup p.1) (name : α) :
    names.lookup name = names'.lookup name := by
  by_cases hname : ∃ p ∈ names ++ names', p.1 = name
  · obtain ⟨p, hp, rfl⟩ := hname
    exact h p hp
  · have hne : ∀ p ∈ names ++ names', (name != p.1) = true := by
      intro p hp
      exact bne_iff_ne.mpr fun heq => hname ⟨p, hp, heq.symm⟩
    rw [List.forall_mem_append] at hne
    rw [List.lookup_eq_none_iff.mpr hne.1, List.lookup_eq_none_iff.mpr hne.2]

theorem lookup_map_snd {α β γ : Type} [BEq α] (f : β → γ) (names : List (α × β)) (name : α) :
    (names.map fun p => (p.1, f p.2)).lookup name = (names.lookup name).map f := by
  induction names with
  | nil => rfl
  | cons p rest ih =>
    rw [List.map_cons, List.lookup_cons, List.lookup_cons, ih]
    split <;> rfl

/-- The names of templates and aliases of the source have the sorts of the table. -/
theorem sourceNames_sort :
    ∀ p ∈ ((sqlServerTypes.typeNames ++ sqlServerTypes.aliases).map fun p => (p.1, p.2.sort)) ++
        sourceSorts,
      ((sqlServerTypes.typeNames ++ sqlServerTypes.aliases).map
          fun p => (p.1, p.2.sort)).lookup p.1 =
        sourceSorts.lookup p.1 := by
  rw [sqlServerTypes_typeNames]
  decide +kernel

theorem classify_sort (type : String) :
    (sqlServerTypes.classify type).map ColumnType.sort = sourceSorts.lookup (typeNameOf type) := by
  rw [TypeMap.classify, TypeMap.lookup_invert, ← List.lookup_append, ← lookup_map_snd]
  exact lookup_congr sourceNames_sort _

/-! ## Numbers in literals -/

def withLength (name : String) (length : Int) : String := name ++ "(" ++ toString length ++ ")"

def withScale (name : String) (precision scale : Int) : String :=
  name ++ "(" ++ toString precision ++ "," ++ toString scale ++ ")"

theorem replaceAll_behind {pattern before : String} {first : Char} {later : List Char}
    (hpattern : pattern.toList = first :: later) (h : first ∉ before.toList)
    (replacement after : String) :
    Text.replaceAll pattern replacement (before ++ after) =
      before ++ Text.replaceAll pattern replacement after := by
  have hstart (c : Char) (more : List Char) (hsuffix : c :: more <:+ before.toList) :
      ¬ first :: later <+: c :: (more ++ after.toList) := by
    rintro ⟨_, heq⟩
    obtain ⟨rfl, -⟩ := List.cons.inj heq
    exact h (hsuffix.subset List.mem_cons_self)
  rw [Text.replaceAll, Text.replaceAll, hpattern, String.toList_append,
    replaceFrom_append _ hstart, String.ofList_append, String.ofList_toList]

theorem dollar_notMem_digits (n : Nat) : '$' ∉ Nat.toDigits 10 n := by
  intro h
  exact absurd (Nat.isDigit_of_mem_toDigits (by decide) (by decide) h) (by decide)

section Substituted

variable {literal name : String}

theorem replaceAll_size (h : '$' ∉ literal.toList) (size after : String) :
    Text.replaceAll "$size" size (literal ++ after) =
      literal ++ Text.replaceAll "$size" size after :=
  replaceAll_behind rfl h size after

theorem replaceAll_precision (h : '$' ∉ literal.toList) (precision after : String) :
    Text.replaceAll "$precision" precision (literal ++ after) =
      literal ++ Text.replaceAll "$precision" precision after :=
  replaceAll_behind rfl h precision after

theorem replaceAll_precision_none (h : '$' ∉ literal.toList) (precision : String) :
    Text.replaceAll "$precision" precision literal = literal := by
  have hreplaced := replaceAll_precision h precision ""
  rwa [show Text.replaceAll "$precision" precision "" = "" from rfl,
    String.append_empty] at hreplaced

theorem substituted_plain (h : '$' ∉ literal.toList) (size precision : Option Nat) :
    substituted literal size precision = literal := by
  have hsize := replaceAll_size h (toString (size.getD 0)) ""
  rw [show Text.replaceAll "$size" (toString (size.getD 0)) "" = "" from rfl,
    String.append_empty] at hsize
  rw [substituted, hsize, replaceAll_precision_none h]

theorem substituted_size (h : '$' ∉ name.toList) (n : Nat) (precision : Option Nat) :
    substituted (name ++ "($size)") (some n) precision = withLength name n := by
  have hsize : Text.replaceAll "$size" (toString n) "($size)" = "(" ++ toString n ++ ")" :=
    String.toList_injective (by simp [Text.replaceAll, Text.replaceFrom, List.isPrefixOf])
  have hnone : '$' ∉ (name ++ ("(" ++ toString n ++ ")")).toList := by
    simp [h, dollar_notMem_digits n]
  rw [substituted, Option.getD_some, replaceAll_size h, hsize, replaceAll_precision_none hnone,
    withLength]
  simp only [String.append_assoc]
  rfl

theorem substituted_scale (h : '$' ∉ name.toList) (n : Nat) (precision : Option Nat) :
    substituted (name ++ "($size,$precision)") (some n) precision =
      withScale name n (precision.getD 0 : Nat) := by
  have hsize : Text.replaceAll "$size" (toString n) "($size,$precision)" =
      "(" ++ toString n ++ "," ++ "$precision)" :=
    String.toList_injective (by simp [Text.replaceAll, Text.replaceFrom, List.isPrefixOf])
  have hprecision (value : String) : Text.replaceAll "$precision" value "$precision)" =
      value ++ ")" :=
    String.toList_injective (by simp [Text.replaceAll, Text.replaceFrom, List.isPrefixOf])
  have hnone : '$' ∉ (name ++ ("(" ++ toString n ++ ",")).toList := by
    simp [h, dollar_notMem_digits n]
  rw [substituted, Option.getD_some, replaceAll_size h, hsize, ← String.append_assoc,
    replaceAll_precision hnone, hprecision, withScale]
  simp only [String.append_assoc]
  rfl

end Substituted

/-! ## Types of the target -/

/-- What the target has for a column of a sort, by its size and precision. -/
def targetLiteral (citext : Bool) (sort : TypeSort) (size precision : Option Nat) : String :=
  let text (literal : String) := if citext then "citext" else literal
  match sort, size with
  | .varying, some n => text (if n ≤ pgVarcharCapacity then withLength "varchar" n else "text")
  | .varying, none => text "text"
  | .fixed, some n => text (if n ≤ largestReportedSize then withLength "char" n else "char(255)")
  | .fixed, none => text "char(255)"
  | .decimal, some n =>
    if n ≤ pgDecimalCapacity then withScale "decimal" n (precision.getD 0 : Nat)
    else "decimal(19,5)"
  | .decimal, none => "decimal(19,5)"
  | .binary, _ => "bytea"
  | .plain literal, _ => literal

/-- The ceilings and literals of a sort in the target. -/
def targetTemplates (citext : Bool) : TypeSort → List (Ceiling × String)
  | .varying =>
    let text (literal : String) := if citext then "citext" else literal
    [(.bounded pgVarcharCapacity, text "varchar($size)"),
     (.bounded largestReportedSize, text "text"),
     (.unbounded, text "text")]
  | .fixed =>
    let text (literal : String) := if citext then "citext" else literal
    [(.bounded largestReportedSize, text "char($size)"), (.unbounded, text "char(255)")]
  | .decimal =>
    [(.bounded pgDecimalCapacity, "decimal($size,$precision)"), (.unbounded, "decimal(19,5)")]
  | .binary => [(.bounded largestReportedSize, "bytea"), (.unbounded, "bytea")]
  | .plain literal => [(.unbounded, literal)]

theorem templatesOf_postgresTypes (citext : Bool) (type : ColumnType) :
    (postgresTypes citext).templatesOf type =
      (targetTemplates citext type.sort).map fun p => ⟨type, p.1, p.2⟩ := by
  cases citext <;> cases type <;> rfl

/-- The literal of the first ceiling that admits the size, else of the unbounded one. -/
def literalFor (templates : List (Ceiling × String)) (size : Option Nat) : Option String :=
  let unbounded := templates.find? (·.1 == .unbounded)
  let found : Option (Ceiling × String) := match size with
    | none => unbounded
    | some n => (templates.find? (·.1.admits n)).or unbounded
  found.map Prod.snd

theorem literalFor_none (max : Nat) (literal : String) (later : List (Ceiling × String)) :
    literalFor ((.bounded max, literal) :: later) none = literalFor later none := by
  simp [literalFor]

theorem literalFor_some (max n : Nat) (literal : String) (later : List (Ceiling × String)) :
    literalFor ((.bounded max, literal) :: later) (some n) =
      if n ≤ max then some literal else literalFor later (some n) := by
  by_cases h : n ≤ max <;> simp [literalFor, Ceiling.admits, h]

theorem literalFor_unbounded (literal : String) (size : Option Nat) :
    literalFor [(.unbounded, literal)] size = some literal := by
  cases size <;> simp [literalFor, Ceiling.admits]

theorem templateFor_postgresTypes (citext : Bool) (type : ColumnType) (size : Option Nat) :
    ((postgresTypes citext).templateFor type size).map Template.literal =
      literalFor (targetTemplates citext type.sort) size := by
  cases size with
  | none =>
    rw [TypeMap.templateFor, TypeMap.catchAll?, templatesOf_postgresTypes]
    simp [literalFor, List.find?_map, Function.comp_def]
  | some n =>
    rw [TypeMap.templateFor_some, TypeMap.catchAll?, templatesOf_postgresTypes]
    simp [literalFor, List.find?_map, Function.comp_def, Option.map_or]

theorem ColumnType.dollar_notMem_plain {type : ColumnType} {literal : String}
    (h : type.sort = .plain literal) : '$' ∉ literal.toList := by
  cases type <;> simp only [ColumnType.sort, TypeSort.plain.injEq, reduceCtorEq] at h <;>
    subst h <;> decide

/-- Numbers are put into the literal of a text type only where case counts. -/
theorem substituted_text (citext : Bool) (literal : String) (size precision : Option Nat) :
    substituted (if citext then "citext" else literal) size precision =
      if citext then "citext" else substituted literal size precision := by
  split
  · exact substituted_plain (by decide) size precision
  · rfl

/-- The literal for a size, with its numbers in place, is what the target has for the sort. -/
theorem targetTemplates_literal (citext : Bool) {sort : TypeSort}
    (plain : ∀ literal, sort = .plain literal → '$' ∉ literal.toList)
    (size precision : Option Nat) :
    (literalFor (targetTemplates citext sort) size).map (substituted · size precision) =
      some (targetLiteral citext sort size precision) := by
  have hvarchar (n : Nat) :
      substituted "varchar($size)" (some n) precision = withLength "varchar" n := by
    rw [show "varchar($size)" = "varchar" ++ "($size)" by decide]
    exact substituted_size (by decide) n precision
  have hchar (n : Nat) : substituted "char($size)" (some n) precision = withLength "char" n := by
    rw [show "char($size)" = "char" ++ "($size)" by decide]
    exact substituted_size (by decide) n precision
  have hdecimal (n : Nat) : substituted "decimal($size,$precision)" (some n) precision =
      withScale "decimal" n (precision.getD 0 : Nat) := by
    rw [show "decimal($size,$precision)" = "decimal" ++ "($size,$precision)" by decide]
    exact substituted_scale (by decide) n precision
  cases sort with
  | varying =>
    cases size with
    | none =>
      rw [targetTemplates, literalFor_none, literalFor_none, literalFor_unbounded, Option.map_some,
        substituted_text, substituted_plain (by decide)]
      rfl
    | some n =>
      rw [targetTemplates, literalFor_some, literalFor_some, literalFor_unbounded, targetLiteral]
      split
      · rw [Option.map_some, substituted_text, hvarchar]
      · rw [ite_self, Option.map_some, substituted_text, substituted_plain (by decide)]
  | fixed =>
    cases size with
    | none =>
      rw [targetTemplates, literalFor_none, literalFor_unbounded, Option.map_some, substituted_text,
        substituted_plain (by decide)]
      rfl
    | some n =>
      rw [targetTemplates, literalFor_some, literalFor_unbounded, targetLiteral]
      split
      · rw [Option.map_some, substituted_text, hchar]
      · rw [Option.map_some, substituted_text, substituted_plain (by decide)]
  | decimal =>
    cases size with
    | none =>
      rw [targetTemplates, literalFor_none, literalFor_unbounded, Option.map_some,
        substituted_plain (by decide)]
      rfl
    | some n =>
      rw [targetTemplates, literalFor_some, literalFor_unbounded, targetLiteral]
      split
      · rw [Option.map_some, hdecimal]
      · rw [Option.map_some, substituted_plain (by decide)]
  | binary =>
    have hbytea : substituted "bytea" size precision = "bytea" :=
      substituted_plain (by decide) size precision
    cases size with
    | none =>
      rw [targetTemplates, literalFor_none, literalFor_unbounded, Option.map_some, hbytea]
      rfl
    | some n =>
      rw [targetTemplates, literalFor_some, literalFor_unbounded, ite_self, Option.map_some, hbytea]
      rfl
  | plain literal =>
    rw [targetTemplates, literalFor_unbounded, Option.map_some,
      substituted_plain (plain literal rfl)]
    rfl

/-- The map of the target resolves every column type, of every size and precision. -/
theorem resolve_postgresTypes (citext : Bool) (type : ColumnType) (size precision : Option Nat) :
    (postgresTypes citext).resolve type size precision =
      .ok (targetLiteral citext type.sort size precision) := by
  have plain (literal : String) (h : type.sort = .plain literal) : '$' ∉ literal.toList :=
    ColumnType.dollar_notMem_plain h
  have htarget := targetTemplates_literal citext plain size precision
  rw [← templateFor_postgresTypes, Option.map_map] at htarget
  obtain ⟨t, ht, hliteral⟩ := Option.map_eq_some_iff.mp htarget
  rw [TypeMap.resolve_of_template ht, ← hliteral]
  rfl

/-! ## Rows of the catalog -/

namespace SqlServer

/-- What a row of the catalog reports of the type of a column. -/
structure Reported (row : WireRow) (type : String) (precision scale length : Option Int32) :
    Prop where
  type : textAt row 2 = .ok type
  precision : int? row 3 = .ok precision
  scale : int? row 4 = .ok scale
  length : int? row 5 = .ok length

variable {row : WireRow} {c : Column} {type : String} {precision scale length : Option Int32}

/-- A column has its type, size and precision from what its row reports. -/
theorem columnOf_ok (reported : Reported row type precision scale length)
    (h : columnOf row = .ok c) :
    c.type = sqlServerTypes.classify type ∧ c.size = columnSize length precision ∧
      c.precision = scale.map sizeOf := by
  obtain ⟨name, -, h⟩ := Outcome.bind_ok h
  obtain ⟨type', htype, h⟩ := Outcome.bind_ok h
  obtain ⟨precision', hprecision, h⟩ := Outcome.bind_ok h
  obtain ⟨scale', hscale, h⟩ := Outcome.bind_ok h
  obtain ⟨length', hlength, h⟩ := Outcome.bind_ok h
  obtain ⟨isNullable, -, h⟩ := Outcome.bind_ok h
  obtain ⟨isUserDefined, -, h⟩ := Outcome.bind_ok h
  cases reported.type.symm.trans htype
  cases reported.precision.symm.trans hprecision
  cases reported.scale.symm.trans hscale
  cases reported.length.symm.trans hlength
  obtain rfl := Except.ok.inj h
  simp only [and_self]

theorem columnType_reported (reported : Reported row type precision scale length)
    (h : columnOf row = .ok c) {sort : TypeSort}
    (hsort : sourceSorts.lookup (typeNameOf type) = some sort) (citext : Bool) :
    (postgresTypes citext).columnType c =
      .ok (targetLiteral citext sort (columnSize length precision) (scale.map sizeOf)) := by
  obtain ⟨htype, hsize, hprecision⟩ := columnOf_ok reported h
  rw [← classify_sort, ← htype] at hsort
  obtain ⟨t, ht, rfl⟩ := Option.map_eq_some_iff.mp hsort
  rw [TypeMap.columnType, ht, hsize, hprecision]
  exact resolve_postgresTypes citext t _ _

theorem sizeOf_toInt {n : Int32} (h : 0 ≤ n) : (sizeOf n : Int) = n.toInt := by
  have hpos : 0 ≤ n.toInt := Int32.le_iff_toInt_le.mp h
  rw [sizeOf, Int32.toNat_toUInt32_of_le h, ← Int32.toNat_toInt, Int.toNat_of_nonneg hpos]

theorem sizeOf_le_largest {n : Int32} (h : 0 ≤ n) : sizeOf n ≤ largestReportedSize := by
  have hsize := sizeOf_toInt h
  have hlt := Int32.toInt_lt n
  rw [largestReportedSize]
  omega

theorem columnSize_of_nonneg {n : Int32} (h : 0 ≤ n) (precision : Option Int32) :
    columnSize (some n) precision = some (sizeOf n) := by
  rw [columnSize, if_neg (Int32.not_lt.mpr h)]

theorem columnSize_of_neg {n : Int32} (h : n < 0) (precision : Option Int32) :
    columnSize (some n) precision = none := by
  rw [columnSize, if_pos h]

/-! ## What fits -/

/-- The literal that the numbers of the catalog call for where case counts. -/
inductive Becomes : TypeSort → (precision scale length : Option Int32) → String → Prop where
  | varchar {precision scale : Option Int32} {n : Int32} (least : 0 ≤ n)
      (most : n.toInt ≤ 10485760) :
      Becomes .varying precision scale (some n) (withLength "varchar" n.toInt)
  | text {precision scale : Option Int32} {n : Int32} (beyond : n < 0 ∨ 10485760 < n.toInt) :
      Becomes .varying precision scale (some n) "text"
  | char {precision scale : Option Int32} {n : Int32} (least : 0 ≤ n) :
      Becomes .fixed precision scale (some n) (withLength "char" n.toInt)
  | decimal {p s : Int32} (least : 0 ≤ p) (most : p.toInt ≤ 1000) (fraction : 0 ≤ s) :
      Becomes .decimal (some p) (some s) none (withScale "decimal" p.toInt s.toInt)
  | bytea {precision scale length : Option Int32} : Becomes .binary precision scale length "bytea"
  | plain {precision scale length : Option Int32} {literal : String} :
      Becomes (.plain literal) precision scale length literal

/-- The type holds every text of a length. A length below zero is without bound. -/
inductive HoldsText (length : Int) : String → Prop where
  | text : HoldsText length "text"
  | citext : HoldsText length "citext"
  | varchar {most : Int} (least : 0 ≤ length) (fits : length ≤ most) :
      HoldsText length (withLength "varchar" most)
  | char {most : Int} (least : 0 ≤ length) (fits : length ≤ most) :
      HoldsText length (withLength "char" most)

/-- The type holds every decimal of a precision and scale: it has as many digits behind the point
and as many in front of it. -/
inductive HoldsDecimal (precision scale : Int) : String → Prop where
  | decimal {p s : Int} (fraction : scale ≤ s) (whole : precision - scale ≤ p - s) :
      HoldsDecimal precision scale (withScale "decimal" p s)

/-- The column has a type in the target, which is the one that its sort and numbers call for, and
which is not narrower than the column of the source. -/
structure Survives (c : Column) (sort : TypeSort) (precision scale length : Option Int32) :
    Prop where
  resolves : ∀ citext, ∃ literal, (postgresTypes citext).columnType c = .ok literal
  becomes : ∀ literal, Becomes sort precision scale length literal →
    (postgresTypes false).columnType c = .ok literal
  citext : sort.IsText → (postgresTypes true).columnType c = .ok "citext"
  otherwise : ¬ sort.IsText →
    (postgresTypes true).columnType c = (postgresTypes false).columnType c
  holdsText : sort.IsText → ∀ n, length = some n → (sort = .fixed → 0 ≤ n) →
    ∀ citext literal, (postgresTypes citext).columnType c = .ok literal → HoldsText n.toInt literal
  holdsDecimal : sort = .decimal → length = none →
    ∀ p s, precision = some p → scale = some s → 0 ≤ p → p.toInt ≤ 1000 → 0 ≤ s →
      ∀ citext literal, (postgresTypes citext).columnType c = .ok literal →
        HoldsDecimal p.toInt s.toInt literal

theorem targetLiteral_of_becomes {sort : TypeSort} {literal : String}
    (h : Becomes sort precision scale length literal) :
    targetLiteral false sort (columnSize length precision) (scale.map sizeOf) = literal := by
  cases h with
  | @varchar _ _ n least most =>
    have hfits : sizeOf n ≤ pgVarcharCapacity := by
      have hsize := sizeOf_toInt least
      rw [pgVarcharCapacity]
      omega
    rw [columnSize_of_nonneg least, targetLiteral, if_pos hfits, sizeOf_toInt least]
    rfl
  | @text _ _ n beyond =>
    rcases Int32.lt_or_le n 0 with hneg | hpos
    · rw [columnSize_of_neg hneg]
      rfl
    · have hbeyond : ¬ sizeOf n ≤ pgVarcharCapacity := by
        have hsize := sizeOf_toInt hpos
        have hover := beyond.resolve_left (Int32.not_lt.mpr hpos)
        rw [pgVarcharCapacity]
        omega
      rw [columnSize_of_nonneg hpos, targetLiteral, if_neg hbeyond]
      rfl
  | @char _ _ n least =>
    rw [columnSize_of_nonneg least, targetLiteral, if_pos (sizeOf_le_largest least),
      sizeOf_toInt least]
    rfl
  | @decimal p s least most fraction =>
    have hfits : sizeOf p ≤ pgDecimalCapacity := by
      have hsize := sizeOf_toInt least
      rw [pgDecimalCapacity]
      omega
    rw [columnSize, Option.map_some, Option.map_some, targetLiteral, if_pos hfits,
      Option.getD_some, sizeOf_toInt least, sizeOf_toInt fraction]
  | bytea => rfl
  | plain => rfl

theorem targetLiteral_citext {sort : TypeSort} (h : sort.IsText) (size precision : Option Nat) :
    targetLiteral true sort size precision = "citext" := by
  rcases h with rfl | rfl
  · cases size <;> rfl
  · cases size <;> rfl

theorem targetLiteral_otherwise {sort : TypeSort} (h : ¬ sort.IsText) (citext : Bool)
    (size precision : Option Nat) :
    targetLiteral citext sort size precision = targetLiteral false sort size precision := by
  cases sort with
  | varying => exact absurd (.inl rfl) h
  | fixed => exact absurd (.inr rfl) h
  | decimal => cases size <;> rfl
  | binary => rfl
  | plain literal => rfl

/-- A column of characters holds every text that its source holds. -/
theorem targetLiteral_holdsText {sort : TypeSort} (h : sort.IsText) {n : Int32}
    (bounded : sort = .fixed → 0 ≤ n) (citext : Bool) :
    HoldsText n.toInt
      (targetLiteral citext sort (columnSize (some n) precision) (scale.map sizeOf)) := by
  cases citext with
  | true =>
    rw [targetLiteral_citext h]
    exact .citext
  | false =>
    have itself (hpos : 0 ≤ n) : 0 ≤ n.toInt ∧ n.toInt ≤ n.toInt :=
      ⟨Int32.le_iff_toInt_le.mp hpos, Int.le_refl _⟩
    rcases h with rfl | rfl
    · by_cases hfits : 0 ≤ n ∧ n.toInt ≤ 10485760
      · rw [targetLiteral_of_becomes (.varchar hfits.1 hfits.2)]
        exact .varchar (itself hfits.1).1 (itself hfits.1).2
      · have hbeyond : n < 0 ∨ 10485760 < n.toInt := by
          rw [not_and_or, Int32.not_le, Int.not_le] at hfits
          exact hfits
        rw [targetLiteral_of_becomes (.text hbeyond)]
        exact .text
    · have hpos := bounded rfl
      rw [targetLiteral_of_becomes (.char hpos)]
      exact .char (itself hpos).1 (itself hpos).2

/-- Every column whose type name the source's map classifies survives in the target: whatever
numbers the catalog reports, it has a type there, of its sort, and within the capacities of the
target it is not narrower than in the source. -/
theorem classified_column_survives (reported : Reported row type precision scale length)
    (read : columnOf row = .ok c) {columnType : ColumnType}
    (classified : sqlServerTypes.classify type = some columnType) :
    ∃ sort, sourceSorts.lookup (typeNameOf type) = some sort ∧
      Survives c sort precision scale length := by
  have hsort : sourceSorts.lookup (typeNameOf type) = some columnType.sort := by
    rw [← classify_sort, classified]
    rfl
  have htype := columnType_reported reported read hsort
  refine ⟨columnType.sort, hsort, ?_⟩
  constructor
  case resolves => exact fun citext => ⟨_, htype citext⟩
  case becomes =>
    intro literal h
    rw [htype, targetLiteral_of_becomes h]
  case citext =>
    intro h
    rw [htype, targetLiteral_citext h]
  case otherwise =>
    intro h
    rw [htype, htype, targetLiteral_otherwise h]
  case holdsText =>
    rintro h n rfl bounded citext literal hliteral
    rw [htype] at hliteral
    rw [← Except.ok.inj hliteral]
    exact targetLiteral_holdsText h bounded citext
  case holdsDecimal =>
    rintro h rfl p s rfl rfl least most fraction citext literal hliteral
    have hdecimal : ¬ columnType.sort.IsText := by simp [h, TypeSort.IsText]
    rw [htype, targetLiteral_otherwise hdecimal, h,
      targetLiteral_of_becomes (.decimal least most fraction)] at hliteral
    rw [← Except.ok.inj hliteral]
    exact .decimal (Int.le_refl _) (Int.le_refl _)

/-- The row of a column that was declared `NUMERIC(18,2)`. -/
def amountRow : WireRow :=
  [⟨.nvarchar, some (.nvarchar "Amount")⟩, ⟨.nvarchar, some (.nvarchar "NO")⟩,
   ⟨.nvarchar, some (.nvarchar "NUMERIC(18,2)")⟩, ⟨.int, some (.int 18)⟩, ⟨.int, some (.int 2)⟩,
   ⟨.int, none⟩, ⟨.int, some (.int 0)⟩]

/-- The amounts keep their digits. -/
theorem amounts_keep_digits :
    Reported amountRow "NUMERIC(18,2)" (some 18) (some 2) none ∧
    sqlServerTypes.classify "NUMERIC(18,2)" = some .decimal ∧
    ∃ amount, columnOf amountRow = .ok amount ∧
      (postgresTypes false).columnType amount = .ok "decimal(18,2)" ∧
      (postgresTypes true).columnType amount = .ok "decimal(18,2)" ∧
      HoldsDecimal 18 2 "decimal(18,2)" := by
  have reported : Reported amountRow "NUMERIC(18,2)" (some 18) (some 2) none := ⟨rfl, rfl, rfl, rfl⟩
  have classified : sqlServerTypes.classify "NUMERIC(18,2)" = some .decimal := by
    rw [TypeMap.classify, TypeMap.lookup_invert, sqlServerTypes_typeNames]
    decide +kernel
  have hname : sourceSorts.lookup (typeNameOf "NUMERIC(18,2)") = some .decimal := by decide +kernel
  obtain ⟨amount, hread⟩ : ∃ amount, columnOf amountRow = .ok amount := ⟨_, rfl⟩
  obtain ⟨sort, hsort, survives⟩ := classified_column_survives reported hread classified
  obtain rfl : TypeSort.decimal = sort := Option.some.inj (hname.symm.trans hsort)
  have called : Becomes .decimal (some 18) (some 2) none "decimal(18,2)" :=
    .decimal (by decide) (by decide) (by decide)
  have hdecimal := survives.becomes _ called
  have hcitext := (survives.otherwise (by simp [TypeSort.IsText])).trans hdecimal
  exact ⟨reported, classified, amount, hread, hdecimal, hcitext,
    survives.holdsDecimal rfl rfl 18 2 rfl rfl (by decide) (by decide) (by decide) false _ hdecimal⟩

end SqlServer

end Migration
