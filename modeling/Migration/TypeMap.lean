import Migration.Error
import Migration.Text.Blank
import Migration.Text.Lowercase
import Migration.Text.Replace

/-
  Type maps: from column types to the type literals of one dialect and back.

  A map is made from rules. For each column type it holds templates, each with
  the greatest size that it admits, and possibly one for sizes beyond all those.
  The least ceiling that admits the size decides; the size and the precision are
  then put in the place of `$size` and `$precision`.

  Read backwards, the templates tell which column type a type name stands for.
  Names that no template has can be added as aliases, and types without a column
  type as custom definitions.

  What is proved beside the definitions: a column type with no template but an unbounded
  one needs no rule of its own (`templateFor_some`).
-/

namespace Migration

/-! ## Templates -/

/-- The greatest size that a template admits. -/
inductive Ceiling where
  | bounded (max : Nat)
  | unbounded
  deriving DecidableEq, Repr

/-- Finite ceilings in order, the unbounded one last. -/
def Ceiling.precedes : Ceiling → Ceiling → Bool
  | .bounded a, .bounded b => a < b
  | .bounded _, .unbounded => true
  | .unbounded, _ => false

/-- Whether a ceiling is the one that a size is held against. The unbounded one is not: it is
taken only where no other admits the size. -/
def Ceiling.admits (size : Nat) : Ceiling → Bool
  | .bounded max => size ≤ max
  | .unbounded => false

/-- A type literal for the sizes of a column type up to a ceiling. -/
structure Template where
  type : ColumnType
  ceiling : Ceiling
  literal : String
  deriving DecidableEq, Repr

/-- The order of templates: by column type, then ceiling. -/
def Template.precedes (a b : Template) : Bool :=
  a.type.rank < b.type.rank || (a.type == b.type && a.ceiling.precedes b.ceiling)

/-- Puts a template in its place; it replaces the one with the same type and ceiling. -/
def insertTemplate (t : Template) : List Template → List Template
  | [] => [t]
  | u :: rest =>
    if t.precedes u then t :: u :: rest
    else if t.type = u.type ∧ t.ceiling = u.ceiling then t :: rest
    else u :: insertTemplate t rest

/-- The literal with the size and the precision in their places, an absent one as zero. -/
def substituted (literal : String) (size precision : Option Nat) : String :=
  Text.replaceAll "$precision" (toString (precision.getD 0))
    (Text.replaceAll "$size" (toString (size.getD 0)) literal)

/-- The name of a type literal: the part before any parameters, trimmed and in lower case. -/
def typeNameOf (literal : String) : String :=
  Text.lowercase (Text.trim (String.ofList (literal.toList.takeWhile (fun c => c ≠ '('))))

/-! ## Rules and maps -/

/-- What a map is made from. -/
inductive TypeRule where
  /-- The literal for sizes beyond every ceiling. -/
  | catchAll (type : ColumnType) (literal : String)
  /-- The literal for sizes up to a ceiling. -/
  | bounded (type : ColumnType) (max : Nat) (literal : String)
  /-- The literal for a dialect type without a column type. -/
  | custom (definition literal : String)
  /-- A further name of a column type. -/
  | alias (name : String) (type : ColumnType)
  deriving DecidableEq, Repr

/-- The types of one dialect. -/
structure TypeMap where
  /-- The name of the dialect in messages. -/
  profile : String
  /-- The templates, sorted, one for each type and ceiling. -/
  templates : List Template := []
  /-- The custom definitions, oldest first. -/
  custom : List (String × String) := []
  /-- The aliases, newest first. -/
  aliases : List (String × ColumnType) := []
  deriving Repr

namespace TypeMap

/-- The map with one more rule. -/
def addRule (m : TypeMap) : TypeRule → TypeMap
  | .catchAll type literal =>
    { m with templates := insertTemplate ⟨type, .unbounded, literal⟩ m.templates }
  | .bounded type max literal =>
    { m with templates := insertTemplate ⟨type, .bounded max, literal⟩ m.templates }
  | .custom definition literal => { m with custom := m.custom ++ [(definition, literal)] }
  | .alias name type => { m with aliases := (typeNameOf name, type) :: m.aliases }

/-- The map that rules make, a later rule for the same type and ceiling replacing an earlier. -/
def ofRules (profile : String) (rules : List TypeRule) : TypeMap :=
  rules.foldl addRule { profile }

def templatesOf (m : TypeMap) (type : ColumnType) : List Template :=
  m.templates.filter (·.type == type)

/-! ## From column types to literals -/

/-- The template for sizes beyond every ceiling. -/
def catchAll? (m : TypeMap) (type : ColumnType) : Option Template :=
  (m.templatesOf type).find? (·.ceiling == .unbounded)

/-- Whether the column type has one template, which is for sizes beyond every ceiling. -/
def hasOnlyCatchAll (m : TypeMap) (type : ColumnType) : Bool :=
  (m.templatesOf type).length == 1 && (m.catchAll? type).isSome

/-- The template for a size: the least ceiling that admits it, else the unbounded one. Without a
size, or where the unbounded one is the only one, no ceiling is looked at. -/
def templateFor (m : TypeMap) (type : ColumnType) (size : Option Nat) : Option Template :=
  match size with
  | some n =>
    if m.hasOnlyCatchAll type then m.catchAll? type
    else ((m.templatesOf type).find? (·.ceiling.admits n)).or (m.catchAll? type)
  | none => m.catchAll? type

/-- Ceilings can be looked at in any case: an unbounded one admits no size. -/
theorem templateFor_some (m : TypeMap) (type : ColumnType) (n : Nat) :
    m.templateFor type (some n) =
      ((m.templatesOf type).find? (·.ceiling.admits n)).or (m.catchAll? type) := by
  rw [templateFor]
  split
  · rename_i honly
    obtain ⟨hlength, hunbounded⟩ := Bool.and_eq_true_iff.mp honly
    obtain ⟨t, ht⟩ := List.length_eq_one_iff.mp (beq_iff_eq.mp hlength)
    rw [catchAll?, ht] at hunbounded ⊢
    have hceiling : t.ceiling = .unbounded := by
      simpa using hunbounded
    have hadmits : ([t].find? (·.ceiling.admits n)) = none := by
      rw [List.find?_singleton, hceiling]
      rfl
    rw [hadmits, Option.none_or]
  · rfl

/-- The type literal for a column type of some size and precision. -/
def resolve (m : TypeMap) (type : ColumnType) (size precision : Option Nat) : Outcome String :=
  match m.templateFor type size with
  | some t => .ok (substituted t.literal size precision)
  | none => .error (.unsupportedType type.name size precision m.profile)

/-- The type literal for a dialect type that has no column type. -/
def resolveCustom (m : TypeMap) (definition : String) (size precision : Option Nat) :
    Outcome String :=
  let definition := Text.trim definition
  match m.custom.find? (fun c => Text.sameIgnoringAsciiCase c.1 definition) with
  | some c => .ok (substituted c.2 size precision)
  | none => .error (.unsupportedCustomType definition m.profile)

/-- The type literal of a column: by its column type, or by its dialect type without one. -/
def columnType (m : TypeMap) (c : Column) : Outcome String :=
  match c.type with
  | some type => m.resolve type c.size c.precision
  | none => m.resolveCustom c.dialectType c.size c.precision

/-! ## From names to column types -/

/-- Adds a column type to those of a name. -/
def addCandidate (name : String) (type : ColumnType) :
    List (String × List ColumnType) → List (String × List ColumnType)
  | [] => [(name, [type])]
  | (n, types) :: rest =>
    if n = name then (n, if types.contains type then types else types ++ [type]) :: rest
    else (n, types) :: addCandidate name type rest

/-- Every type name of the templates with the column types that it may stand for, names and types
in the order in which the templates bring them up. -/
def candidates (m : TypeMap) : List (String × List ColumnType) :=
  m.templates.foldl (fun found t => addCandidate (typeNameOf t.literal) t.type found) []

/-- The names that may stand for more than one column type. -/
def conflicts (m : TypeMap) : List (String × List ColumnType) :=
  m.candidates.filter (fun c => 1 < c.2.length)

/-- The column type of every type name; where there are several, `choose` takes one of them. -/
def invertWith (m : TypeMap) (choose : String → List ColumnType → ColumnType) :
    List (String × ColumnType) :=
  m.candidates.map fun c =>
    match c.2 with
    | [type] => (c.1, type)
    | types => (c.1, choose c.1 types)

def invert (m : TypeMap) : List (String × ColumnType) :=
  m.invertWith fun _ types => types.headD .ansiString

/-- The column type that a type name stands for. Templates come before aliases. -/
def classify (m : TypeMap) (typeName : String) : Option ColumnType :=
  let name := typeNameOf typeName
  (m.invert.lookup name).or (m.aliases.lookup name)

end TypeMap

end Migration
