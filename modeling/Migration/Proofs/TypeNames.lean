import Mathlib.Data.List.Infix
import Migration.TypeMap.SqlServer

/-
  Type names, there and back.

  A map resolves a column type to a template with numbers put into it, and classifies
  a literal by its name, the part in front of the first parenthesis. This file

  1. proves that what stands in front of a parenthesis stays where no placeholder occurs
     in it (`headOf_replaceAll`), so that a literal has the name of its template
     (`typeNameOf_substituted`);
  2. proves that the templates of a map are in order (`templatesOrdered_ofRules`), by what one
     insertion does (`insertTemplate_templatesOrdered`);
  3. finds in the reverse index the column type of the first template with a name
     (`lookup_invert`);
  4. concludes what classifying a resolved literal gives (`classify_resolve`). -/

namespace Migration

/-! ## The name of a literal with its numbers -/

/-- Nothing is replaced in the first part of a text if no occurrence of the pattern starts in it. -/
theorem replaceFrom_append {pattern before after : List Char} (replacement : List Char)
    (h : ∀ c more, c :: more <:+ before → ¬ pattern <+: c :: (more ++ after)) :
    Text.replaceFrom pattern replacement 0 (before ++ after) =
      before ++ Text.replaceFrom pattern replacement 0 after := by
  induction before with
  | nil => rfl
  | cons c before ih =>
    have hstart : pattern.isPrefixOf (c :: (before ++ after)) = false :=
      eq_false_of_ne_true fun hstart =>
        h c before (List.suffix_refl _) (List.isPrefixOf_iff_prefix.mp hstart)
    have hlater := ih fun d more hsuffix => h d more (hsuffix.trans (List.suffix_cons _ _))
    rw [List.cons_append, Text.replaceFrom, hstart, hlater]
    rfl

/-- No occurrence of a pattern starts in a text in which it does not occur, if what comes behind the
text does not begin with a character of the pattern. -/
theorem not_starts_of_parted {pattern before after : List Char} (absent : ¬ pattern <:+: before)
    (parted : ∀ c ∈ after.head?, c ∉ pattern) (c : Char) (more : List Char)
    (hsuffix : c :: more <:+ before) : ¬ pattern <+: c :: (more ++ after) := by
  intro hpattern
  rcases List.prefix_or_prefix_of_prefix hpattern (List.prefix_append (c :: more) after) with
    h | ⟨beyond, rfl⟩
  · exact absent (h.isInfix.trans hsuffix.isInfix)
  · -- an occurrence that goes on behind the text holds the character found there
    cases beyond with
    | nil => exact absent (by rw [List.append_nil]; exact hsuffix.isInfix)
    | cons d beyond =>
      obtain ⟨rest, rfl⟩ := (List.prefix_append_right_inj (c :: more)).mp hpattern
      exact parted d rfl (by simp)

/-- The text of a literal in front of its parameters. -/
def headOf (literal : String) : List Char := literal.toList.takeWhile (fun c => c ≠ '(')

theorem typeNameOf_congr {literal literal' : String} (h : headOf literal = headOf literal') :
    typeNameOf literal = typeNameOf literal' := by
  unfold headOf at h
  rw [typeNameOf, typeNameOf, h]

theorem headOf_append {before : List Char} (after : List Char) (h : '(' ∉ before) :
    headOf (String.ofList (before ++ '(' :: after)) = before := by
  have hall : ∀ c ∈ before, decide (c ≠ '(') = true := by
    intro c hc
    exact decide_eq_true fun heq => h (heq ▸ hc)
  rw [headOf, String.toList_ofList, List.takeWhile_append_of_pos hall]
  simp

theorem headOf_cases (literal : String) :
    '(' ∉ headOf literal ∧
      (literal.toList = headOf literal ∨
        ∃ after, literal.toList = headOf literal ++ '(' :: after) := by
  have hhead : '(' ∉ headOf literal := by
    intro hmem
    have := List.all_eq_true.mp (List.all_takeWhile (l := literal.toList)) '(' hmem
    simp at this
  refine ⟨hhead, ?_⟩
  have hsplit := (List.takeWhile_append_dropWhile (p := fun c => decide (c ≠ '('))
    (l := literal.toList)).symm
  cases hrest : literal.toList.dropWhile (fun c => decide (c ≠ '(')) with
  | nil =>
    rw [hrest, List.append_nil] at hsplit
    exact .inl hsplit
  | cons c after =>
    have hc := List.head?_dropWhile_not (fun c => decide (c ≠ '(')) literal.toList
    rw [hrest] at hc hsplit
    obtain rfl : c = '(' := by simpa using hc
    exact .inr ⟨after, hsplit⟩

/-- Replacing a pattern that does not occur in the head of a literal leaves the head as it is. -/
theorem headOf_replaceAll {pattern literal : String} (replacement : String)
    (bare : '(' ∉ pattern.toList) (absent : ¬ pattern.toList <:+: headOf literal) :
    headOf (Text.replaceAll pattern replacement literal) = headOf literal := by
  obtain ⟨hhead, heq | ⟨after, heq⟩⟩ := headOf_cases literal
  · have hsame : Text.replaceAll pattern replacement literal = literal := by
      have parted : ∀ c ∈ ([] : List Char).head?, c ∉ pattern.toList := by simp
      have hreplaced := replaceFrom_append replacement.toList (not_starts_of_parted absent parted)
      rw [List.append_nil, ← heq, Text.replaceFrom, List.append_nil] at hreplaced
      rw [Text.replaceAll, hreplaced, String.ofList_toList]
    rw [hsame]
  · have parted : ∀ c ∈ ('(' :: after).head?, c ∉ pattern.toList := by simpa using bare
    have hreplaced := replaceFrom_append replacement.toList (not_starts_of_parted absent parted)
    -- the parenthesis stays too, for no pattern begins with it
    have hopen : pattern.toList.isPrefixOf ('(' :: after) = false := by
      cases hpattern : pattern.toList with
      | nil => exact absurd (hpattern ▸ List.nil_infix) absent
      | cons c more =>
        have hne : c ≠ '(' := by
          rintro rfl
          exact bare (by simp [hpattern])
        simp [List.isPrefixOf, hne]
    rw [Text.replaceFrom, hopen] at hreplaced
    rw [Text.replaceAll, heq, hreplaced]
    exact headOf_append _ hhead

/-- No placeholder stands in front of the parameters of a literal. -/
def NamesPlainly (literal : String) : Prop :=
  ∀ placeholder ∈ ["$size", "$precision"], ¬ placeholder.toList <:+: headOf literal

instance (literal : String) : Decidable (NamesPlainly literal) :=
  inferInstanceAs (Decidable (∀ placeholder ∈ ["$size", "$precision"],
    ¬ placeholder.toList <:+: headOf literal))

theorem typeNameOf_substituted {literal : String} (plain : NamesPlainly literal)
    (size precision : Option Nat) :
    typeNameOf (substituted literal size precision) = typeNameOf literal := by
  apply typeNameOf_congr
  have hsize : headOf (Text.replaceAll "$size" (toString (size.getD 0)) literal) = headOf literal :=
    headOf_replaceAll _ (by decide) (plain "$size" (by simp))
  have hprecision : ¬ "$precision".toList <:+: headOf literal := plain "$precision" (by simp)
  rw [substituted, headOf_replaceAll _ (by decide) (by rwa [hsize]), hsize]

/-! ## The order of templates -/

theorem ColumnType.getElem?_rank (type : ColumnType) : ColumnType.all[type.rank]? = some type := by
  cases type <;> rfl

theorem ColumnType.rank_inj {a b : ColumnType} (h : a.rank = b.rank) : a = b := by
  have ha := ColumnType.getElem?_rank a
  rw [h, ColumnType.getElem?_rank b] at ha
  exact (Option.some.inj ha).symm

theorem Ceiling.precedes_trans {a b c : Ceiling} (hab : a.precedes b = true)
    (hbc : b.precedes c = true) : a.precedes c = true := by
  cases a <;> cases b <;> cases c <;> simp_all [Ceiling.precedes]
  omega

theorem Ceiling.precedes_of_not {a b : Ceiling} (h : ¬ a.precedes b = true) (hne : a ≠ b) :
    b.precedes a = true := by
  cases a <;> cases b <;> simp_all [Ceiling.precedes]
  omega

theorem Template.precedes_iff {a b : Template} :
    a.precedes b = true ↔
      a.type.rank < b.type.rank ∨ a.type = b.type ∧ a.ceiling.precedes b.ceiling = true := by
  simp [Template.precedes]

theorem Template.rank_le {a b : Template} (h : a.precedes b = true) :
    a.type.rank ≤ b.type.rank := by
  rcases Template.precedes_iff.mp h with h | ⟨h, -⟩
  · exact Nat.le_of_lt h
  · exact Nat.le_of_eq (congrArg ColumnType.rank h)

theorem Template.precedes_trans {a b c : Template} (hab : a.precedes b = true)
    (hbc : b.precedes c = true) : a.precedes c = true := by
  rw [Template.precedes_iff] at *
  rcases hab with hab | ⟨hab, hceiling⟩
  · rcases hbc with hbc | ⟨hbc, -⟩
    · exact .inl (hab.trans hbc)
    · exact .inl (hbc ▸ hab)
  · rcases hbc with hbc | ⟨hbc, hceiling'⟩
    · exact .inl (hab ▸ hbc)
    · exact .inr ⟨hab.trans hbc, Ceiling.precedes_trans hceiling hceiling'⟩

theorem Template.precedes_of_not {a b : Template} (h : ¬ a.precedes b = true)
    (hne : ¬ (a.type = b.type ∧ a.ceiling = b.ceiling)) : b.precedes a = true := by
  rw [Template.precedes_iff, not_or, not_lt] at h
  rw [Template.precedes_iff]
  rcases Nat.lt_or_eq_of_le h.1 with hlt | heq
  · exact .inl hlt
  · have htype := ColumnType.rank_inj heq
    refine .inr ⟨htype, Ceiling.precedes_of_not (fun hc => h.2 ⟨htype.symm, hc⟩) fun hc => ?_⟩
    exact hne ⟨htype.symm, hc⟩

/-- Templates in order, one for each type and ceiling. -/
def TemplatesOrdered (templates : List Template) : Prop :=
  templates.Pairwise fun t u => t.precedes u = true

theorem mem_of_mem_insertTemplate {t u : Template} {templates : List Template}
    (h : u ∈ insertTemplate t templates) : u = t ∨ u ∈ templates := by
  induction templates with
  | nil => exact .inl (List.mem_singleton.mp h)
  | cons v rest ih =>
    rw [insertTemplate] at h
    split at h
    · exact List.mem_cons.mp h
    · split at h
      · exact (List.mem_cons.mp h).imp_right (List.mem_cons_of_mem _)
      · rcases List.mem_cons.mp h with rfl | h
        · exact .inr List.mem_cons_self
        · exact (ih h).imp_right (List.mem_cons_of_mem _)

theorem insertTemplate_templatesOrdered (t : Template) {templates : List Template}
    (h : TemplatesOrdered templates) : TemplatesOrdered (insertTemplate t templates) := by
  induction templates with
  | nil => exact List.pairwise_singleton _ _
  | cons u rest ih =>
    obtain ⟨hfirst, hrest⟩ := List.pairwise_cons.mp h
    rw [insertTemplate]
    split
    · rename_i hbefore
      refine List.pairwise_cons.mpr ⟨fun v hv => ?_, h⟩
      rcases List.mem_cons.mp hv with rfl | hv
      · exact hbefore
      · exact Template.precedes_trans hbefore (hfirst v hv)
    · rename_i hnot
      split
      · rename_i hsame
        refine List.pairwise_cons.mpr ⟨fun v hv => ?_, hrest⟩
        have hlater := hfirst v hv
        rw [Template.precedes_iff] at hlater ⊢
        rwa [hsame.1, hsame.2]
      · rename_i hne
        refine List.pairwise_cons.mpr ⟨fun v hv => ?_, ih hrest⟩
        rcases mem_of_mem_insertTemplate hv with rfl | hv
        · exact Template.precedes_of_not hnot hne
        · exact hfirst v hv

theorem addRule_templatesOrdered {m : TypeMap} (rule : TypeRule)
    (h : TemplatesOrdered m.templates) : TemplatesOrdered (m.addRule rule).templates := by
  cases rule with
  | catchAll type literal => exact insertTemplate_templatesOrdered _ h
  | bounded type max literal => exact insertTemplate_templatesOrdered _ h
  | custom definition literal => exact h
  | «alias» name type => exact h

theorem templatesOrdered_ofRules (profile : String) (rules : List TypeRule) :
    TemplatesOrdered (TypeMap.ofRules profile rules).templates := by
  have made : ∀ m : TypeMap, TemplatesOrdered m.templates →
      TemplatesOrdered (rules.foldl TypeMap.addRule m).templates := by
    induction rules with
    | nil => exact fun _ h => h
    | cons rule rest ih => exact fun m h => ih _ (addRule_templatesOrdered rule h)
  exact made { profile } .nil

/-! ## The reverse index -/

namespace TypeMap

def typeNames (m : TypeMap) : List (String × ColumnType) :=
  m.templates.map fun t => (typeNameOf t.literal, t.type)

/-- The first of the column types that are listed for a name. -/
def firstListed (found : List (String × List ColumnType)) (name : String) : Option ColumnType :=
  (found.lookup name).bind List.head?

theorem firstListed_cons (n name : String) (types : List ColumnType)
    (found : List (String × List ColumnType)) :
    firstListed ((n, types) :: found) name =
      if n = name then types.head? else firstListed found name := by
  by_cases h : n = name
  · subst h
    simp [firstListed]
  · have hne : (name == n) = false := beq_eq_false_iff_ne.mpr (Ne.symm h)
    simp [firstListed, List.lookup_cons, hne, h]

theorem head?_added (type : ColumnType) (types : List ColumnType) :
    (if types.contains type then types else types ++ [type]).head? =
      types.head?.or (some type) := by
  cases types with
  | nil => rfl
  | cons first more =>
    split
    · rfl
    · rfl

theorem firstListed_addCandidate (n name : String) (type : ColumnType)
    (found : List (String × List ColumnType)) :
    firstListed (addCandidate n type found) name =
      (firstListed found name).or (if n = name then some type else none) := by
  induction found with
  | nil => rw [addCandidate, firstListed_cons]; rfl
  | cons c rest ih =>
    obtain ⟨m, types⟩ := c
    rw [addCandidate]
    split
    · rename_i hm
      subst hm
      rw [firstListed_cons, firstListed_cons]
      split
      · exact head?_added type types
      · rw [Option.or_none]
    · rename_i hm
      rw [firstListed_cons, firstListed_cons, ih]
      split
      · rename_i hmname
        rw [if_neg (fun hn => hm (hmname.trans hn.symm)), Option.or_none]
      · rfl

theorem firstListed_foldl (templates : List Template) (found : List (String × List ColumnType))
    (name : String) :
    firstListed (templates.foldl (fun found t => addCandidate (typeNameOf t.literal) t.type found)
        found) name =
      (firstListed found name).or
        ((templates.map fun t => (typeNameOf t.literal, t.type)).lookup name) := by
  induction templates generalizing found with
  | nil => simp
  | cons t rest ih =>
    rw [List.foldl_cons, ih, firstListed_addCandidate, Option.or_assoc, List.map_cons,
      List.lookup_cons]
    by_cases h : typeNameOf t.literal = name
    · simp [h]
    · rw [if_neg h, beq_eq_false_iff_ne.mpr (Ne.symm h), Option.none_or]

theorem addCandidate_listed (name : String) (type : ColumnType)
    {found : List (String × List ColumnType)} (h : ∀ c ∈ found, c.2 ≠ []) :
    ∀ c ∈ addCandidate name type found, c.2 ≠ [] := by
  induction found with
  | nil => simp [addCandidate]
  | cons c rest ih =>
    obtain ⟨n, types⟩ := c
    obtain ⟨hfirst, hrest⟩ := List.forall_mem_cons.mp h
    rw [addCandidate]
    split
    · refine List.forall_mem_cons.mpr ⟨?_, hrest⟩
      split
      · exact hfirst
      · simp
    · exact List.forall_mem_cons.mpr ⟨hfirst, ih hrest⟩

theorem candidates_listed (m : TypeMap) : ∀ c ∈ m.candidates, c.2 ≠ [] := by
  have kept (templates : List Template) : ∀ found : List (String × List ColumnType),
      (∀ c ∈ found, c.2 ≠ []) → ∀ c ∈ templates.foldl
        (fun found t => addCandidate (typeNameOf t.literal) t.type found) found, c.2 ≠ [] := by
    induction templates with
    | nil => exact fun _ h => h
    | cons t rest ih => exact fun found h => ih _ (addCandidate_listed _ _ h)
  exact kept m.templates [] (by simp)

theorem lookup_chosen {found : List (String × List ColumnType)} (h : ∀ c ∈ found, c.2 ≠ [])
    (name : String) :
    (found.map fun c => match c.2 with
      | [type] => (c.1, type)
      | types => (c.1, types.headD .ansiString)).lookup name = firstListed found name := by
  induction found with
  | nil => rfl
  | cons c rest ih =>
    obtain ⟨n, types⟩ := c
    obtain ⟨hfirst, hrest⟩ := List.forall_mem_cons.mp h
    cases types with
    | nil => exact absurd rfl hfirst
    | cons type more =>
      rw [List.map_cons, firstListed_cons, ← ih hrest]
      have hchosen : (match type :: more with
          | [type] => (n, type)
          | types => (n, types.headD .ansiString)) = (n, type) := by
        cases more with
        | nil => rfl
        | cons _ _ => rfl
      simp only [hchosen, List.lookup_cons]
      by_cases hn : n = name
      · simp [hn]
      · rw [if_neg hn, beq_eq_false_iff_ne.mpr (Ne.symm hn)]

theorem lookup_invert (m : TypeMap) (name : String) :
    m.invert.lookup name = m.typeNames.lookup name := by
  have hfound := firstListed_foldl m.templates [] name
  rw [show firstListed [] name = none from rfl, Option.none_or] at hfound
  exact (lookup_chosen (candidates_listed m) name).trans hfound

/-! ## Classifying a resolved literal -/

/-- The column type has a template with the type name. -/
def HasName (m : TypeMap) (type : ColumnType) (name : String) : Prop :=
  ∃ t ∈ m.templatesOf type, typeNameOf t.literal = name

/-- The column type is the first, in declaration order, that has a template with the type name. -/
structure IsFirstWith (m : TypeMap) (name : String) (type : ColumnType) : Prop where
  hasName : m.HasName type name
  first : ∀ other, m.HasName other name → type.rank ≤ other.rank

variable {m : TypeMap} {type : ColumnType} {name literal : String} {size precision : Option Nat}

theorem hasName_iff : m.HasName type name ↔ (name, type) ∈ m.typeNames := by
  constructor
  · rintro ⟨t, ht, rfl⟩
    obtain ⟨ht, htype⟩ := List.mem_filter.mp ht
    exact List.mem_map.mpr ⟨t, ht, by rw [beq_iff_eq.mp htype]⟩
  · intro h
    obtain ⟨t, ht, heq⟩ := List.mem_map.mp h
    obtain ⟨hname, htype⟩ := Prod.mk.inj heq
    exact ⟨t, List.mem_filter.mpr ⟨ht, beq_iff_eq.mpr htype⟩, hname⟩

theorem mem_of_templateFor {t : Template} (h : m.templateFor type size = some t) :
    t ∈ m.templatesOf type := by
  cases size with
  | none => exact List.mem_of_find?_eq_some h
  | some n =>
    rw [templateFor_some] at h
    rcases Option.or_eq_some_iff.mp h with h | ⟨-, h⟩
    · exact List.mem_of_find?_eq_some h
    · exact List.mem_of_find?_eq_some h

theorem resolve_ok (h : m.resolve type size precision = .ok literal) :
    ∃ t, m.templateFor type size = some t ∧ literal = substituted t.literal size precision := by
  unfold resolve at h
  split at h
  · rename_i t hfound
    exact ⟨t, hfound, (Except.ok.inj h).symm⟩
  · cases h

theorem resolve_of_template {t : Template} (h : m.templateFor type size = some t) :
    m.resolve type size precision = .ok (substituted t.literal size precision) := by
  rw [resolve, h]

theorem hasName_of_resolve (plain : ∀ t ∈ m.templates, NamesPlainly t.literal)
    (h : m.resolve type size precision = .ok literal) : m.HasName type (typeNameOf literal) := by
  obtain ⟨t, ht, rfl⟩ := resolve_ok h
  have hmem := mem_of_templateFor ht
  have hplain := plain t (List.mem_filter.mp hmem).1
  exact ⟨t, hmem, (typeNameOf_substituted hplain size precision).symm⟩

/-- A lookup in a list in order finds the first type that is there with the name. -/
theorem lookup_first {names : List (String × ColumnType)}
    (ordered : names.Pairwise fun a b => a.2.rank ≤ b.2.rank) (h : (name, type) ∈ names) :
    ∃ first, names.lookup name = some first ∧ (name, first) ∈ names ∧
      ∀ other, (name, other) ∈ names → first.rank ≤ other.rank := by
  induction names with
  | nil => cases h
  | cons c rest ih =>
    obtain ⟨n, t⟩ := c
    obtain ⟨hfirst, hrest⟩ := List.pairwise_cons.mp ordered
    by_cases hn : n = name
    · subst hn
      refine ⟨t, by simp, List.mem_cons_self, fun other hother => ?_⟩
      rcases List.mem_cons.mp hother with heq | hother
      · exact Nat.le_of_eq (congrArg (fun p => p.2.rank) heq).symm
      · exact hfirst _ hother
    · have hlater {u : ColumnType} (hu : (name, u) ∈ (n, t) :: rest) : (name, u) ∈ rest :=
        (List.mem_cons.mp hu).resolve_left fun heq => hn (congrArg Prod.fst heq).symm
      obtain ⟨first, hlookup, hmem, hle⟩ := ih hrest (hlater h)
      refine ⟨first, ?_, List.mem_cons_of_mem _ hmem, fun other hother => hle other (hlater hother)⟩
      rw [List.lookup_cons, beq_eq_false_iff_ne.mpr (Ne.symm hn)]
      exact hlookup

theorem classify_of_hasName (ordered : TemplatesOrdered m.templates)
    (h : m.HasName type (typeNameOf literal)) :
    ∃ first, m.classify literal = some first ∧ m.IsFirstWith (typeNameOf literal) first := by
  have hranks : m.typeNames.Pairwise fun a b => a.2.rank ≤ b.2.rank :=
    List.pairwise_map.mpr (ordered.imp Template.rank_le)
  obtain ⟨first, hlookup, hmem, hle⟩ := lookup_first hranks (hasName_iff.mp h)
  refine ⟨first, ?_, hasName_iff.mpr hmem, fun other hother => hle other (hasName_iff.mp hother)⟩
  rw [classify, lookup_invert, hlookup]
  rfl

theorem exists_templateFor (h : ∃ t ∈ m.templatesOf type, t.ceiling = .unbounded)
    (size : Option Nat) : ∃ t, m.templateFor type size = some t := by
  obtain ⟨t, ht, hceiling⟩ := h
  have hunbounded : (m.catchAll? type).isSome = true :=
    List.find?_isSome.mpr ⟨t, ht, by simp [hceiling]⟩
  apply Option.isSome_iff_exists.mp
  cases size with
  | none => exact hunbounded
  | some n => rw [templateFor_some, Option.isSome_or, hunbounded, Bool.or_true]

end TypeMap

/-! ## The type names of the source -/

theorem sqlServerTypes_typeNames : sqlServerTypes.typeNames =
    [("varchar", .ansiString), ("varchar", .ansiString), ("varchar", .ansiString),
     ("char", .ansiStringFixedLength), ("char", .ansiStringFixedLength), ("varbinary", .binary),
     ("varbinary", .binary), ("varbinary", .binary), ("bit", .boolean), ("tinyint", .byte),
     ("money", .currency), ("date", .date), ("datetime", .dateTime), ("datetime2", .dateTime2),
     ("datetimeoffset", .dateTimeOffset), ("datetimeoffset", .dateTimeOffset),
     ("decimal", .decimal), ("decimal", .decimal), ("float", .double),
     ("uniqueidentifier", .guid), ("smallint", .int16), ("int", .int32), ("bigint", .int64),
     ("real", .single), ("nvarchar", .string), ("nvarchar", .string), ("nvarchar", .string),
     ("nchar", .stringFixedLength), ("nchar", .stringFixedLength), ("time", .time),
     ("xml", .xml)] := by
  decide +kernel

theorem sqlServerTypes_namesPlainly : ∀ t ∈ sqlServerTypes.templates, NamesPlainly t.literal := by
  decide +kernel

theorem sqlServerTypes_templatesOrdered : TemplatesOrdered sqlServerTypes.templates :=
  templatesOrdered_ofRules _ _

theorem sqlServerTypes_unbounded (type : ColumnType) :
    ∃ t ∈ sqlServerTypes.templatesOf type, t.ceiling = .unbounded := by
  have unbounded : ∀ type ∈ ColumnType.all,
      ∃ t ∈ sqlServerTypes.templatesOf type, t.ceiling = .unbounded := by
    decide +kernel
  exact unbounded type (List.mem_of_getElem? (ColumnType.getElem?_rank type))

/-- No two column types of the source share a type name. -/
theorem sqlServerTypes_alone {name : String} {type other : ColumnType}
    (h : sqlServerTypes.HasName type name) (hother : sqlServerTypes.HasName other name) :
    other = type := by
  have apart : ∀ a ∈ sqlServerTypes.typeNames, ∀ b ∈ sqlServerTypes.typeNames,
      a.1 = b.1 → b.2 = a.2 := by
    rw [sqlServerTypes_typeNames]
    decide +kernel
  exact apart _ (TypeMap.hasName_iff.mp h) _ (TypeMap.hasName_iff.mp hother) rfl

/-- Classification undoes resolution. In every map made from rules whose templates have no
placeholder in front of their parameters, a resolved literal has the name of a template of its
column type; it is classified, whatever the aliases, as the first column type that has a template of
that name, which is the resolved one where no other has the name. In the source's own map every
column type resolves, and is the type of the literal. -/
theorem classify_resolve (profile : String) (rules : List TypeRule)
    (plain : ∀ t ∈ (TypeMap.ofRules profile rules).templates, NamesPlainly t.literal) :
    (∀ type size precision literal,
      (TypeMap.ofRules profile rules).resolve type size precision = .ok literal →
        (TypeMap.ofRules profile rules).HasName type (typeNameOf literal) ∧
        (∃ first, (TypeMap.ofRules profile rules).classify literal = some first ∧
          (TypeMap.ofRules profile rules).IsFirstWith (typeNameOf literal) first) ∧
        ((∀ other, (TypeMap.ofRules profile rules).HasName other (typeNameOf literal) →
            other = type) →
          (TypeMap.ofRules profile rules).classify literal = some type)) ∧
    ∀ type size precision, ∃ literal, sqlServerTypes.resolve type size precision = .ok literal ∧
      sqlServerTypes.classify literal = some type := by
  refine ⟨fun type size precision literal h => ?_, fun type size precision => ?_⟩
  · have hname := TypeMap.hasName_of_resolve plain h
    obtain ⟨first, hclassify, hfirst⟩ :=
      TypeMap.classify_of_hasName (templatesOrdered_ofRules profile rules) hname
    exact ⟨hname, ⟨first, hclassify, hfirst⟩, fun alone => by
      rw [hclassify, alone first hfirst.hasName]⟩
  · obtain ⟨t, ht⟩ := TypeMap.exists_templateFor (sqlServerTypes_unbounded type) size
    have hresolve : sqlServerTypes.resolve type size precision =
        .ok (substituted t.literal size precision) := TypeMap.resolve_of_template ht
    have hname := TypeMap.hasName_of_resolve sqlServerTypes_namesPlainly hresolve
    obtain ⟨first, hclassify, hfirst⟩ :=
      TypeMap.classify_of_hasName sqlServerTypes_templatesOrdered hname
    exact ⟨_, hresolve, by rw [hclassify, sqlServerTypes_alone hname hfirst.hasName]⟩

/-- Two column types with one type name, the later of them in the first rule, and aliases for names
of templates. -/
def sharedNameRules : List TypeRule :=
  [.catchAll .int16 "smallint", .catchAll .byte " SmallInt ", .alias "smallint" .string,
   .bounded .decimal 38 "decimal($size,$precision)", .alias "decimal" .xml]

/-- The shared name stands for the earlier type, and the name of a decimal for decimals. -/
theorem shared_name_stands_for_first :
    (∀ t ∈ (TypeMap.ofRules "test" sharedNameRules).templates, NamesPlainly t.literal) ∧
    (TypeMap.ofRules "test" sharedNameRules).resolve .int16 none none = .ok "smallint" ∧
    (TypeMap.ofRules "test" sharedNameRules).classify "smallint" = some .byte ∧
    (TypeMap.ofRules "test" sharedNameRules).resolve .decimal (some 10) (some 2) =
      .ok "decimal(10,2)" ∧
    (TypeMap.ofRules "test" sharedNameRules).classify "decimal(10,2)" = some .decimal := by
  have hnames : (TypeMap.ofRules "test" sharedNameRules).typeNames =
      [("smallint", .byte), ("decimal", .decimal), ("smallint", .int16)] := by decide +kernel
  have hplain : ∀ t ∈ (TypeMap.ofRules "test" sharedNameRules).templates,
      NamesPlainly t.literal := by decide +kernel
  have hsmall : typeNameOf "smallint" = "smallint" := by decide +kernel
  have hdecimal : typeNameOf "decimal(10,2)" = "decimal" := by decide +kernel
  obtain ⟨hrules, -⟩ := classify_resolve "test" sharedNameRules hplain
  obtain ⟨-, ⟨first, hclassify, hfirst⟩, -⟩ := hrules .int16 none none "smallint" rfl
  obtain ⟨-, -, halone⟩ := hrules .decimal (some 10) (some 2) "decimal(10,2)" rfl
  refine ⟨hplain, rfl, ?_, rfl, halone fun other hother => ?_⟩
  · have hmem := TypeMap.hasName_iff.mp hfirst.hasName
    have hle := hfirst.first .byte (TypeMap.hasName_iff.mpr (by rw [hnames, hsmall]; simp))
    rw [hnames, hsmall] at hmem
    have hcases : first = .byte ∨ first = .int16 := by simpa using hmem
    rcases hcases with rfl | rfl
    · exact hclassify
    · exact absurd hle (by decide)
  · have hmem := TypeMap.hasName_iff.mp hother
    rw [hnames, hdecimal] at hmem
    simpa using hmem

end Migration
