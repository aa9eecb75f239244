import Mathlib.Data.List.Sort
import Migration.Proofs.Placeholders

/-
  What a type map resolves, told by its rules.

  The rules of a map may come in any order, may repeat a type and ceiling, and may leave a type
  without a literal for sizes beyond its ceilings. This file

  1. proves that the templates of a map are just those registered last for their type and
     ceiling (`mem_templates_iff`), so that rules with the same last literals make the same
     templates (`templates_congr`);
  2. says which literal counts for a size: that of the least ceiling that is not below it, else
     that for sizes beyond every ceiling (`Chosen`), and proves that a map chooses so
     (`chosen_of_templateFor`, `not_chosen_of_templateFor`);
  3. concludes what a map resolves and what it refuses (`resolve_as_registered`). -/

namespace Migration

/-! ## Registered literals -/

def TypeRule.template? : TypeRule → Option Template
  | .catchAll type literal => some ⟨type, .unbounded, literal⟩
  | .bounded type max literal => some ⟨type, .bounded max, literal⟩
  | .custom _ _ => none
  | .alias _ _ => none

/-- The literal that rules register last for a column type and a ceiling. -/
def registered (rules : List TypeRule) (type : ColumnType) (ceiling : Ceiling) : Option String :=
  ((rules.filterMap TypeRule.template?).filter
    (fun t => t.type = type ∧ t.ceiling = ceiling)).getLast?.map Template.literal

section Registered

variable {rules : List TypeRule} {rule : TypeRule} {type : ColumnType} {ceiling : Ceiling}

theorem registered_append_none (h : rule.template? = none) :
    registered (rules ++ [rule]) type ceiling = registered rules type ceiling := by
  rw [registered, List.filterMap_append, List.filterMap_cons_none h, List.filterMap_nil,
    List.append_nil, registered]

theorem registered_append_some {t : Template} (h : rule.template? = some t) :
    registered (rules ++ [rule]) type ceiling =
      if t.type = type ∧ t.ceiling = ceiling then some t.literal
      else registered rules type ceiling := by
  rw [registered, List.filterMap_append, List.filterMap_cons_some h, List.filterMap_nil,
    List.filter_append]
  split
  · rename_i hkey
    have hlast : [t].filter (fun t => t.type = type ∧ t.ceiling = ceiling) = [t] := by simp [hkey]
    rw [hlast, List.getLast?_concat]
    rfl
  · rename_i hkey
    have hnone : [t].filter (fun t => t.type = type ∧ t.ceiling = ceiling) = [] := by simp [hkey]
    rw [hnone, List.append_nil, registered]

/-- Rules next to each other for different types or ceilings may change places. -/
theorem registered_swap {first second : TypeRule} (before after : List TypeRule)
    (apart : ∀ t ∈ first.template?, ∀ u ∈ second.template?,
      ¬ (t.type = u.type ∧ t.ceiling = u.ceiling)) :
    registered (before ++ first :: second :: after) type ceiling =
      registered (before ++ second :: first :: after) type ceiling := by
  unfold registered
  cases hfirst : first.template? with
  | none => simp only [List.filterMap_append, List.filterMap_cons, hfirst]
  | some t =>
    cases hsecond : second.template? with
    | none => simp only [List.filterMap_append, List.filterMap_cons, hfirst, hsecond]
    | some u =>
      -- one of the two is not for the type and ceiling
      have hone :
          ¬ ((t.type = type ∧ t.ceiling = ceiling) ∧ (u.type = type ∧ u.ceiling = ceiling)) := by
        rintro ⟨⟨rfl, rfl⟩, htype, hceiling⟩
        exact apart t hfirst u hsecond ⟨htype.symm, hceiling.symm⟩
      simp only [List.filterMap_append, List.filterMap_cons, hfirst, hsecond, List.filter_append,
        List.filter_cons, decide_eq_true_eq]
      split
      · rename_i ht
        have hu : ¬ (u.type = type ∧ u.ceiling = ceiling) := fun hu => hone ⟨ht, hu⟩
        rw [if_neg hu, if_neg hu]
      · rfl

end Registered

/-! ## The templates of a map -/

theorem Template.precedes_apart {a b : Template} (h : a.precedes b = true) :
    ¬ (a.type = b.type ∧ a.ceiling = b.ceiling) := by
  rintro ⟨htype, hceiling⟩
  rcases Template.precedes_iff.mp h with hrank | ⟨-, hbefore⟩
  · rw [htype] at hrank
    exact Nat.lt_irrefl _ hrank
  · rw [hceiling] at hbefore
    cases hb : b.ceiling with
    | bounded max => simp [hb, Ceiling.precedes] at hbefore
    | unbounded => simp [hb, Ceiling.precedes] at hbefore

/-- Templates in order are told by which there are. -/
theorem TemplatesOrdered.eq_of_mem_iff {templates templates' : List Template}
    (h : TemplatesOrdered templates) (h' : TemplatesOrdered templates')
    (hmem : ∀ t, t ∈ templates ↔ t ∈ templates') : templates = templates' := by
  have hirrefl : Std.Irrefl fun t u : Template => t.precedes u = true :=
    ⟨fun t ht => Template.precedes_apart ht ⟨rfl, rfl⟩⟩
  have hantisymm : Std.Antisymm fun t u : Template => t.precedes u = true :=
    ⟨fun t u htu hut => absurd (Template.precedes_trans htu hut) (hirrefl.irrefl t)⟩
  exact List.Pairwise.eq_of_mem_iff h h' hmem

theorem mem_insertTemplate_iff {t u : Template} {templates : List Template}
    (h : TemplatesOrdered templates) : u ∈ insertTemplate t templates ↔
      u = t ∨ u ∈ templates ∧ ¬ (t.type = u.type ∧ t.ceiling = u.ceiling) := by
  induction templates with
  | nil => simp [insertTemplate]
  | cons v rest ih =>
    obtain ⟨hfirst, hrest⟩ := List.pairwise_cons.mp h
    rw [insertTemplate]
    split
    · rename_i hbefore
      rw [List.mem_cons]
      refine or_congr_right ⟨fun hu => ⟨hu, ?_⟩, And.left⟩
      rcases List.mem_cons.mp hu with rfl | hu
      · exact Template.precedes_apart hbefore
      · exact Template.precedes_apart (Template.precedes_trans hbefore (hfirst u hu))
    · rename_i hbefore
      split
      · rename_i hsame
        rw [List.mem_cons]
        refine or_congr_right ⟨fun hu => ⟨List.mem_cons_of_mem _ hu, ?_⟩, ?_⟩
        · rw [hsame.1, hsame.2]
          exact Template.precedes_apart (hfirst u hu)
        · rintro ⟨hu, hapart⟩
          rcases List.mem_cons.mp hu with rfl | hu
          · exact absurd hsame hapart
          · exact hu
      · rename_i hne
        rw [List.mem_cons, ih hrest, List.mem_cons]
        constructor
        · rintro (rfl | rfl | ⟨hu, hapart⟩)
          · exact .inr ⟨.inl rfl, hne⟩
          · exact .inl rfl
          · exact .inr ⟨.inr hu, hapart⟩
        · rintro (rfl | ⟨rfl | hu, hapart⟩)
          · exact .inr (.inl rfl)
          · exact .inl rfl
          · exact .inr (.inr ⟨hu, hapart⟩)

namespace TypeMap

section Rules

variable {profile : String} {rules : List TypeRule} {type : ColumnType} {size : Option Nat}

theorem templates_addRule (m : TypeMap) (rule : TypeRule) : (m.addRule rule).templates =
    match rule.template? with
    | some t => insertTemplate t m.templates
    | none => m.templates := by
  cases rule <;> rfl

theorem ofRules_append (profile : String) (rules : List TypeRule) (rule : TypeRule) :
    ofRules profile (rules ++ [rule]) = (ofRules profile rules).addRule rule := by
  rw [ofRules, List.foldl_append]
  rfl

/-- The templates of a map are those registered last for their type and ceiling. -/
theorem mem_templates_iff {t : Template} :
    t ∈ (ofRules profile rules).templates ↔
      registered rules t.type t.ceiling = some t.literal := by
  induction rules using List.reverseRecOn with
  | nil => simp [ofRules, registered]
  | append_singleton rules rule ih =>
    rw [ofRules_append, templates_addRule]
    cases hrule : rule.template? with
    | none => rw [registered_append_none hrule, ih]
    | some u =>
      rw [registered_append_some hrule, mem_insertTemplate_iff (templatesOrdered_ofRules _ _), ih]
      split
      · rename_i hkey
        constructor
        · rintro (rfl | ⟨-, hapart⟩)
          · rfl
          · exact absurd hkey hapart
        · intro hliteral
          obtain ⟨type, ceiling, literal⟩ := t
          obtain ⟨rfl, rfl⟩ := hkey
          obtain rfl := Option.some.inj hliteral
          exact .inl rfl
      · rename_i hkey
        constructor
        · rintro (rfl | ⟨hregistered, -⟩)
          · exact absurd ⟨rfl, rfl⟩ hkey
          · exact hregistered
        · exact fun hregistered => .inr ⟨hregistered, hkey⟩

/-- Rules that register the same literals last make the same templates. -/
theorem templates_congr {profile' : String} {rules' : List TypeRule}
    (h : ∀ type ceiling, registered rules type ceiling = registered rules' type ceiling) :
    (ofRules profile rules).templates = (ofRules profile' rules').templates := by
  refine TemplatesOrdered.eq_of_mem_iff (templatesOrdered_ofRules _ _)
    (templatesOrdered_ofRules _ _) fun t => ?_
  rw [mem_templates_iff, mem_templates_iff, h]

/-! ## The literal for a size -/

/-- The literal that counts for a size: that of the least ceiling that is not below the size, else
the one for sizes beyond every ceiling. -/
inductive Chosen (rules : List TypeRule) (type : ColumnType) (size : Option Nat) :
    String → Prop where
  | within {n max : Nat} {literal : String} (asked : size = some n) (fits : n ≤ max)
      (has : registered rules type (.bounded max) = some literal)
      (least : ∀ other, n ≤ other → registered rules type (.bounded other) ≠ none → max ≤ other) :
      Chosen rules type size literal
  | beyond {literal : String}
      (above : ∀ n max, size = some n → n ≤ max → registered rules type (.bounded max) = none)
      (has : registered rules type .unbounded = some literal) : Chosen rules type size literal

theorem mem_templatesOf_iff {t : Template} : t ∈ (ofRules profile rules).templatesOf type ↔
    t.type = type ∧ registered rules type t.ceiling = some t.literal := by
  rw [templatesOf, List.mem_filter, mem_templates_iff, beq_iff_eq, and_comm]
  constructor
  · rintro ⟨rfl, h⟩
    exact ⟨rfl, h⟩
  · rintro ⟨rfl, h⟩
    exact ⟨rfl, h⟩

theorem mem_templatesOf (profile : String) {ceiling : Ceiling} {literal : String}
    (h : registered rules type ceiling = some literal) :
    ⟨type, ceiling, literal⟩ ∈ (ofRules profile rules).templatesOf type :=
  mem_templatesOf_iff.mpr ⟨rfl, h⟩

theorem find?_unbounded {t : Template}
    (h : ((ofRules profile rules).templatesOf type).find? (·.ceiling == .unbounded) = some t) :
    registered rules type .unbounded = some t.literal := by
  have hceiling : t.ceiling = .unbounded := by simpa using List.find?_some h
  have hmem := (mem_templatesOf_iff.mp (List.mem_of_find?_eq_some h)).2
  rwa [hceiling] at hmem

theorem ceilings_ordered (profile : String) (rules : List TypeRule) (type : ColumnType) :
    ((ofRules profile rules).templatesOf type).Pairwise
      fun t u => t.ceiling.precedes u.ceiling = true := by
  have hordered : TemplatesOrdered ((ofRules profile rules).templatesOf type) :=
    (templatesOrdered_ofRules profile rules).sublist List.filter_sublist
  refine List.Pairwise.imp_of_mem (fun {t u} ht hu h => ?_) hordered
  rcases Template.precedes_iff.mp h with hrank | ⟨-, hceiling⟩
  · rw [(mem_templatesOf_iff.mp ht).1, (mem_templatesOf_iff.mp hu).1] at hrank
    exact absurd hrank (Nat.lt_irrefl _)
  · exact hceiling

/-- The first template whose ceiling admits a size has the least such ceiling. -/
theorem find?_admits {n : Nat} {t : Template}
    (h : ((ofRules profile rules).templatesOf type).find? (·.ceiling.admits n) = some t) :
    Chosen rules type (some n) t.literal := by
  obtain ⟨hadmits, before, after, hsplit, hbefore⟩ := List.find?_eq_some_iff_append.mp h
  have hregistered := (mem_templatesOf_iff.mp (List.mem_of_find?_eq_some h)).2
  obtain ⟨tType, ceiling, literal⟩ := t
  cases ceiling with
  | unbounded => exact absurd hadmits Bool.false_ne_true
  | bounded max =>
    refine .within rfl (of_decide_eq_true hadmits) hregistered ?_
    intro other hfits hother
    obtain ⟨literal', hliteral'⟩ := Option.ne_none_iff_exists'.mp hother
    have hmem := mem_templatesOf profile hliteral'
    have hordered := ceilings_ordered profile rules type
    rw [hsplit] at hmem hordered
    rcases List.mem_append.mp hmem with hmem | hmem
    · -- what stands before does not admit the size
      have hnot := hbefore _ hmem
      simp [Ceiling.admits, hfits] at hnot
    · rcases List.mem_cons.mp hmem with heq | hmem
      · cases heq
        exact Nat.le_refl _
      · have hafter := (List.pairwise_cons.mp (List.pairwise_append.mp hordered).2.1).1 _ hmem
        exact Nat.le_of_lt (of_decide_eq_true hafter)

theorem chosen_of_templateFor {t : Template}
    (h : (ofRules profile rules).templateFor type size = some t) :
    Chosen rules type size t.literal := by
  cases size with
  | none => exact .beyond nofun (find?_unbounded h)
  | some n =>
    rw [templateFor_some] at h
    rcases Option.or_eq_some_iff.mp h with hadmits | ⟨hnone, hunbounded⟩
    · exact find?_admits hadmits
    · refine .beyond ?_ (find?_unbounded hunbounded)
      intro asked max hasked hfits
      obtain rfl := Option.some.inj hasked
      by_contra hregistered
      obtain ⟨literal, hliteral⟩ := Option.ne_none_iff_exists'.mp hregistered
      have hnot := List.find?_eq_none.mp hnone _ (mem_templatesOf profile hliteral)
      exact hnot (decide_eq_true hfits)

theorem not_chosen_of_templateFor (h : (ofRules profile rules).templateFor type size = none)
    (literal : String) : ¬ Chosen rules type size literal := by
  have hunbounded (hnone : (ofRules profile rules).catchAll? type = none) :
      registered rules type .unbounded = none := by
    by_contra hregistered
    obtain ⟨literal, hliteral⟩ := Option.ne_none_iff_exists'.mp hregistered
    exact List.find?_eq_none.mp hnone _ (mem_templatesOf profile hliteral) rfl
  intro hchosen
  cases size with
  | none =>
    cases hchosen with
    | within asked => cases asked
    | beyond _ has => rw [hunbounded h] at has; cases has
  | some n =>
    rw [templateFor_some] at h
    obtain ⟨hadmits, hnone⟩ := Option.or_eq_none_iff.mp h
    cases hchosen with
    | within asked fits has =>
      obtain rfl := Option.some.inj asked
      exact List.find?_eq_none.mp hadmits _ (mem_templatesOf profile has) (decide_eq_true fits)
    | beyond _ has => rw [hunbounded hnone] at has; cases has

/-- A size has one literal that counts. -/
theorem Chosen.unique {literal literal' : String} (h : Chosen rules type size literal)
    (h' : Chosen rules type size literal') : literal = literal' := by
  cases h with
  | within asked fits has least =>
    cases h' with
    | within asked' fits' has' least' =>
      obtain rfl := Option.some.inj (asked.symm.trans asked')
      have hle := least _ fits' (Option.ne_none_iff_exists'.mpr ⟨_, has'⟩)
      have hge := least' _ fits (Option.ne_none_iff_exists'.mpr ⟨_, has⟩)
      obtain rfl := Nat.le_antisymm hle hge
      exact Option.some.inj (has.symm.trans has')
    | beyond above' _ =>
      rw [above' _ _ asked fits] at has
      cases has
  | beyond above has =>
    cases h' with
    | within asked' fits' has' _ =>
      rw [above _ _ asked' fits'] at has'
      cases has'
    | beyond _ has' => exact Option.some.inj (has.symm.trans has')

theorem Chosen.congr {rules' : List TypeRule} {literal : String}
    (h : ∀ ceiling, registered rules type ceiling = registered rules' type ceiling)
    (hchosen : Chosen rules type size literal) : Chosen rules' type size literal := by
  cases hchosen with
  | within asked fits has least =>
    refine .within asked fits (by rwa [← h]) ?_
    intro other hfits hother
    exact least other hfits (by rwa [h])
  | beyond above has =>
    refine .beyond ?_ (by rwa [← h])
    intro n max asked fits
    rw [← h]
    exact above n max asked fits

/-! ## Resolving -/

theorem profile_ofRules (profile : String) (rules : List TypeRule) :
    (ofRules profile rules).profile = profile := by
  induction rules using List.reverseRecOn with
  | nil => rfl
  | append_singleton rules rule ih =>
    have hadd :
        ((ofRules profile rules).addRule rule).profile = (ofRules profile rules).profile := by
      cases rule <;> rfl
    rw [ofRules_append, hadd, ih]

theorem resolve_ok_iff {precision : Option Nat} {text : String} :
    (ofRules profile rules).resolve type size precision = .ok text ↔
      ∃ literal, Chosen rules type size literal ∧ text = filledLiteral literal size precision := by
  rw [resolve]
  cases htemplate : (ofRules profile rules).templateFor type size with
  | none =>
    refine iff_of_false (by simp) ?_
    rintro ⟨literal, hchosen, -⟩
    exact not_chosen_of_templateFor htemplate literal hchosen
  | some t =>
    have hchosen := chosen_of_templateFor htemplate
    rw [Except.ok.injEq, substituted_eq_filled]
    constructor
    · rintro rfl
      exact ⟨t.literal, hchosen, rfl⟩
    · rintro ⟨literal, hchosen', rfl⟩
      rw [hchosen.unique hchosen']

theorem resolve_error_iff {precision : Option Nat} {e : MigrationError} :
    (ofRules profile rules).resolve type size precision = .error e ↔
      (∀ literal, ¬ Chosen rules type size literal) ∧
        e = .unsupportedType type.name size precision profile := by
  rw [resolve]
  cases htemplate : (ofRules profile rules).templateFor type size with
  | none =>
    rw [Except.error.injEq, profile_ofRules]
    constructor
    · rintro rfl
      exact ⟨not_chosen_of_templateFor htemplate, rfl⟩
    · rintro ⟨-, rfl⟩
      rfl
  | some t =>
    refine iff_of_false (by simp) ?_
    rintro ⟨hnot, -⟩
    exact hnot _ (chosen_of_templateFor htemplate)

end Rules

/-- A map that rules make resolves a column type, size and precision to the literal that counts for
the size, with its placeholders filled all at once, and refuses it where there is none. No
placeholder is left in what it resolves to. Rules that register the same literals last for the type
resolve it alike. -/
theorem resolve_as_registered (profile : String) (rules : List TypeRule) (type : ColumnType)
    (size precision : Option Nat) :
    (∀ text, (ofRules profile rules).resolve type size precision = .ok text ↔
      ∃ literal, Chosen rules type size literal ∧ text = filledLiteral literal size precision) ∧
    (∀ e, (ofRules profile rules).resolve type size precision = .error e ↔
      (∀ literal, ¬ Chosen rules type size literal) ∧
        e = .unsupportedType type.name size precision profile) ∧
    (∀ text, (ofRules profile rules).resolve type size precision = .ok text →
      ∀ placeholder ∈ ["$size", "$precision"], ¬ placeholder.toList <:+: text.toList) ∧
    ∀ rules', (∀ ceiling, registered rules type ceiling = registered rules' type ceiling) →
      (ofRules profile rules').resolve type size precision =
        (ofRules profile rules).resolve type size precision := by
  refine ⟨fun text => resolve_ok_iff, fun e => resolve_error_iff, ?_, ?_⟩
  · intro text h
    obtain ⟨literal, -, rfl⟩ := resolve_ok_iff.mp h
    rw [← substituted_eq_filled]
    exact not_placeholder_substituted literal size precision
  · intro rules' hsame
    cases hresolved : (ofRules profile rules).resolve type size precision with
    | ok text =>
      obtain ⟨literal, hchosen, htext⟩ := resolve_ok_iff.mp hresolved
      exact resolve_ok_iff.mpr ⟨literal, hchosen.congr hsame, htext⟩
    | error e =>
      obtain ⟨hnot, he⟩ := resolve_error_iff.mp hresolved
      refine resolve_error_iff.mpr ⟨fun literal hchosen => hnot literal ?_, he⟩
      exact hchosen.congr fun ceiling => (hsame ceiling).symm

/-- A ceiling that was registered twice, before and after a higher one. -/
def repeatedRules : List TypeRule :=
  [.bounded .binary 100 "image", .bounded .binary 8000 "varbinary($size)",
   .catchAll .binary "image",
   .bounded .binary 100 "binary($size)$precision"]

/-- The literal that was registered last counts up to its ceiling, the next one from there. -/
theorem last_registered_counts :
    (∀ ceiling, registered repeatedRules .binary ceiling =
      registered (repeatedRules.drop 1) .binary ceiling) ∧
    (ofRules "test" repeatedRules).resolve .binary (some 100) (some 7) = .ok "binary(100)7" ∧
    (ofRules "test" (repeatedRules.drop 1)).resolve .binary (some 100) (some 7) =
      .ok "binary(100)7" := by
  have hlow : registered repeatedRules .binary (.bounded 100) = some "binary($size)$precision" := by
    decide
  have hchosen : Chosen repeatedRules .binary (some 100) "binary($size)$precision" :=
    .within rfl (Nat.le_refl _) hlow fun other hfits _ => hfits
  have hsame : ∀ ceiling, registered repeatedRules .binary ceiling =
      registered (repeatedRules.drop 1) .binary ceiling := by
    intro ceiling
    by_cases hceiling : ceiling = .bounded 100
    · rw [hceiling]
      decide
    · simp [registered, repeatedRules, TypeRule.template?, Ne.symm hceiling]
  obtain ⟨hok, -, -, hrules⟩ :=
    resolve_as_registered "test" repeatedRules .binary (some 100) (some 7)
  have hresolved := (hok "binary(100)7").mpr ⟨_, hchosen, by decide +kernel⟩
  exact ⟨hsame, hresolved, (hrules _ hsame).trans hresolved⟩

end TypeMap

end Migration
