import Migration.Proofs.Registrations
import Migration.Proofs.TargetName

/-
  The reverse index of a type map, and what its resolver is asked.

  `invertWith` takes a function for the names that several column types have. A resolver may
  do more than a function: it may keep a state and answer the same question differently. This file

  1. proves that the list that is built up name by name holds each name once, where it is
     first met, with its column types in declaration order (`candidates_eq`), from what one
     addition does to it (`foldl_addCandidate`);
  2. gives the inversion with a resolver that has a state (`invertWithM`), and notes each call
     of the resolver (`noting`);
  3. says what index and what calls belong to names and their column types (`SettledBy`), and
     proves it of every run, name by name (`run_settle`); without a state this is
     `invertWith` (`invertWithM_pure`);
  4. concludes that each conflict is put to the resolver once (`conflicts_asked_once`). -/

namespace Migration

/-! ## First occurrences -/

theorem firstOccurrences_concat (names : List String) (name : String) :
    firstOccurrences (names ++ [name]) =
      if name ∈ names then firstOccurrences names else firstOccurrences names ++ [name] := by
  induction names with
  | nil => rfl
  | cons n rest ih =>
    rw [List.cons_append, firstOccurrences, ih, firstOccurrences]
    by_cases hrest : name ∈ rest
    · rw [if_pos hrest, if_pos (List.mem_cons_of_mem _ hrest)]
    · rw [if_neg hrest, List.filter_append]
      by_cases hn : name = n
      · simp [hn]
      · simp [hn, hrest]

theorem nodup_firstOccurrences (names : List String) : (firstOccurrences names).Nodup := by
  induction names with
  | nil => exact List.nodup_nil
  | cons n rest ih =>
    rw [firstOccurrences]
    exact List.nodup_cons.mpr ⟨by simp, ih.filter _⟩

/-! ## Column types in declaration order -/

theorem ColumnType.mem_all (type : ColumnType) : type ∈ ColumnType.all :=
  List.mem_of_getElem? (ColumnType.getElem?_rank type)

theorem ColumnType.all_ordered : ColumnType.all.Pairwise fun a b => a.rank < b.rank := by
  decide

theorem ColumnType.eq_of_mem_iff {types types' : List ColumnType}
    (h : types.Pairwise fun a b => a.rank < b.rank)
    (h' : types'.Pairwise fun a b => a.rank < b.rank)
    (hmem : ∀ type, type ∈ types ↔ type ∈ types') : types = types' := by
  have hirrefl : Std.Irrefl fun a b : ColumnType => a.rank < b.rank := ⟨fun _ => Nat.lt_irrefl _⟩
  have hantisymm : Std.Antisymm fun a b : ColumnType => a.rank < b.rank :=
    ⟨fun _ _ hab hba => absurd (hab.trans hba) (Nat.lt_irrefl _)⟩
  exact h.eq_of_mem_iff h' hmem

/-- The column types that stand with a name, in declaration order. -/
def typesWith (names : List (String × ColumnType)) (name : String) : List ColumnType :=
  ColumnType.all.filter fun type => (name, type) ∈ names

section TypesWith

variable {names : List (String × ColumnType)} {name : String} {type : ColumnType}

theorem mem_typesWith : type ∈ typesWith names name ↔ (name, type) ∈ names := by
  simp [typesWith, ColumnType.mem_all]

theorem typesWith_ordered (names : List (String × ColumnType)) (name : String) :
    (typesWith names name).Pairwise fun a b => a.rank < b.rank :=
  ColumnType.all_ordered.sublist List.filter_sublist

theorem typesWith_concat_of_ne {other : String} (h : other ≠ name) :
    typesWith (names ++ [(name, type)]) other = typesWith names other := by
  refine ColumnType.eq_of_mem_iff (typesWith_ordered _ _) (typesWith_ordered _ _) fun t => ?_
  simp [mem_typesWith, h]

theorem typesWith_concat (later : ∀ p ∈ names, p.2.rank ≤ type.rank) :
    typesWith (names ++ [(name, type)]) name =
      if (typesWith names name).contains type then typesWith names name
      else typesWith names name ++ [type] := by
  split
  · rename_i hhas
    rw [List.contains_iff_mem, mem_typesWith] at hhas
    refine ColumnType.eq_of_mem_iff (typesWith_ordered _ _) (typesWith_ordered _ _) fun t => ?_
    rw [mem_typesWith, mem_typesWith, List.mem_append, List.mem_singleton]
    exact or_iff_left_of_imp fun heq => heq ▸ hhas
  · rename_i hnew
    rw [List.contains_iff_mem] at hnew
    refine ColumnType.eq_of_mem_iff (typesWith_ordered _ _) ?_ fun t => ?_
    · refine List.pairwise_append.mpr ⟨typesWith_ordered _ _, List.pairwise_singleton _ _, ?_⟩
      rintro earlier hearlier t ht
      obtain rfl := List.mem_singleton.mp ht
      have hle := later _ (mem_typesWith.mp hearlier)
      refine Nat.lt_of_le_of_ne hle fun hrank => hnew ?_
      rwa [← ColumnType.rank_inj hrank]
    · simp [mem_typesWith]

end TypesWith

/-! ## The candidates of a map -/

namespace TypeMap

theorem addCandidate_of_mem {name : String} {type : ColumnType} {listed : List String}
    (types : String → List ColumnType) (distinct : listed.Nodup) (h : name ∈ listed) :
    addCandidate name type (listed.map fun n => (n, types n)) =
      listed.map fun n => (n, if n = name then
        if (types n).contains type then types n else types n ++ [type] else types n) := by
  induction listed with
  | nil => cases h
  | cons n rest ih =>
    obtain ⟨hfresh, hrest⟩ := List.nodup_cons.mp distinct
    rw [List.map_cons, addCandidate, List.map_cons]
    split
    · rename_i hn
      subst hn
      congr 1
      refine List.map_congr_left fun other hother => ?_
      rw [if_neg]
      rintro rfl
      exact hfresh hother
    · rename_i hn
      rw [ih hrest (List.mem_of_ne_of_mem (Ne.symm hn) h)]

theorem addCandidate_of_not_mem {name : String} {type : ColumnType}
    {found : List (String × List ColumnType)} (h : name ∉ found.map Prod.fst) :
    addCandidate name type found = found ++ [(name, [type])] := by
  induction found with
  | nil => rfl
  | cons c rest ih =>
    obtain ⟨n, types⟩ := c
    obtain ⟨hne, hrest⟩ := not_or.mp (mt List.mem_cons.mpr h)
    rw [addCandidate, if_neg (Ne.symm hne), ih hrest, List.cons_append]

theorem foldl_addCandidate {names : List (String × ColumnType)}
    (ordered : names.Pairwise fun a b => a.2.rank ≤ b.2.rank) :
    names.foldl (fun found p => addCandidate p.1 p.2 found) [] =
      (firstOccurrences (names.map Prod.fst)).map fun name => (name, typesWith names name) := by
  induction names using List.reverseRecOn with
  | nil => rfl
  | append_singleton names p ih =>
    obtain ⟨name, type⟩ := p
    obtain ⟨hbefore, -, hlater⟩ := List.pairwise_append.mp ordered
    have later : ∀ p ∈ names, p.2.rank ≤ type.rank := fun p hp =>
      hlater p hp (name, type) (List.mem_singleton.mpr rfl)
    rw [List.foldl_append, ih hbefore, List.map_append, List.map_singleton,
      firstOccurrences_concat]
    change addCandidate name type _ = _
    by_cases hmet : name ∈ names.map Prod.fst
    · rw [if_pos hmet, addCandidate_of_mem _ (nodup_firstOccurrences _)
        (mem_firstOccurrences.mpr hmet)]
      refine List.map_congr_left fun n _ => ?_
      split
      · rename_i hn
        rw [hn, typesWith_concat later]
      · rename_i hn
        rw [typesWith_concat_of_ne hn]
    · have hfresh : name ∉ ((firstOccurrences (names.map Prod.fst)).map
          fun name => (name, typesWith names name)).map Prod.fst := by
        rw [List.map_map]
        change name ∉ (firstOccurrences (names.map Prod.fst)).map id
        rwa [List.map_id, mem_firstOccurrences]
      have hnone : typesWith names name = [] := by
        refine List.eq_nil_iff_forall_not_mem.mpr fun t ht => hmet ?_
        exact List.mem_map_of_mem (f := Prod.fst) (mem_typesWith.mp ht)
      rw [if_neg hmet, addCandidate_of_not_mem hfresh, List.map_append, List.map_singleton,
        typesWith_concat later, hnone]
      congr 1
      refine List.map_congr_left fun n hn => ?_
      rw [typesWith_concat_of_ne]
      rintro rfl
      exact hmet (mem_firstOccurrences.mp hn)

/-- The templates of a map, the column types in declaration order and the ceilings of each
ascending. -/
def walk (m : TypeMap) : List Template :=
  ColumnType.all.flatMap m.templatesOf

/-- The type names of the templates without repeats, each where the walk first meets it. -/
def namesMet (m : TypeMap) : List String :=
  firstOccurrences (m.walk.map fun t => typeNameOf t.literal)

instance (m : TypeMap) (type : ColumnType) (name : String) : Decidable (m.HasName type name) :=
  inferInstanceAs (Decidable (∃ t ∈ m.templatesOf type, typeNameOf t.literal = name))

def typesNamed (m : TypeMap) (name : String) : List ColumnType :=
  ColumnType.all.filter fun type => m.HasName type name

section Ordered

variable {m : TypeMap}

/-- Templates in order stand as the walk meets them. -/
theorem walk_eq (ordered : TemplatesOrdered m.templates) : m.walk = m.templates := by
  refine TemplatesOrdered.eq_of_mem_iff ?_ ordered fun t => ?_
  · refine List.pairwise_flatMap.mpr ⟨fun type _ => ordered.sublist List.filter_sublist, ?_⟩
    refine ColumnType.all_ordered.imp fun {a b} hrank t ht u hu => ?_
    have hta : t.type = a := by simpa using (List.mem_filter.mp ht).2
    have hub : u.type = b := by simpa using (List.mem_filter.mp hu).2
    exact Template.precedes_iff.mpr (.inl (by rwa [hta, hub]))
  · rw [walk, List.mem_flatMap]
    constructor
    · rintro ⟨type, -, ht⟩
      exact (List.mem_filter.mp ht).1
    · exact fun ht => ⟨t.type, t.type.mem_all, List.mem_filter.mpr ⟨ht, beq_self_eq_true _⟩⟩

theorem typesNamed_eq (m : TypeMap) (name : String) :
    m.typesNamed name = typesWith m.typeNames name := by
  rw [typesNamed, typesWith]
  exact List.filter_congr fun type _ => by rw [decide_eq_decide, hasName_iff]

/-- The candidates are the names that the walk meets, each with all its column types. -/
theorem candidates_eq (ordered : TemplatesOrdered m.templates) :
    m.candidates = m.namesMet.map fun name => (name, m.typesNamed name) := by
  have hranks : m.typeNames.Pairwise fun a b => a.2.rank ≤ b.2.rank :=
    List.pairwise_map.mpr (ordered.imp Template.rank_le)
  have hnames : m.namesMet = firstOccurrences (m.typeNames.map Prod.fst) := by
    rw [namesMet, walk_eq ordered, typeNames, List.map_map]
    rfl
  simp only [typesNamed_eq, hnames, ← foldl_addCandidate hranks]
  rw [candidates, typeNames, List.foldl_map]

theorem mem_namesMet {profile : String} {rules : List TypeRule} {name : String} :
    name ∈ (ofRules profile rules).namesMet ↔
      ∃ type ceiling literal, registered rules type ceiling = some literal ∧
        typeNameOf literal = name := by
  rw [namesMet, mem_firstOccurrences, walk_eq (templatesOrdered_ofRules _ _), List.mem_map]
  constructor
  · rintro ⟨t, ht, hname⟩
    exact ⟨t.type, t.ceiling, t.literal, mem_templates_iff.mp ht, hname⟩
  · rintro ⟨type, ceiling, literal, hregistered, hname⟩
    exact ⟨⟨type, ceiling, literal⟩, mem_templates_iff.mpr hregistered, hname⟩

end Ordered

/-! ## A resolver with a state -/

section Resolver

variable {M : Type → Type} [Monad M]

/-- The column type of a name: its only one, else what the resolver takes. -/
def settle (resolver : String → List ColumnType → M ColumnType) (c : String × List ColumnType) :
    M (String × ColumnType) :=
  match c.2 with
  | [type] => pure (c.1, type)
  | types => do return (c.1, ← resolver c.1 types)

/-- The column type of every type name; where there are several, the resolver is asked. -/
def invertWithM (m : TypeMap) (resolver : String → List ColumnType → M ColumnType) :
    M (List (String × ColumnType)) :=
  m.candidates.mapM (settle resolver)

end Resolver

/-- A question to a resolver, and the answer. -/
structure Call where
  name : String
  types : List ColumnType
  answer : ColumnType

def Call.question (call : Call) : String × List ColumnType :=
  (call.name, call.types)

/-- The resolver, with each of its calls noted behind the earlier ones. -/
def noting {σ : Type} (resolver : String → List ColumnType → StateM σ ColumnType) (name : String)
    (types : List ColumnType) : StateT (List Call) (StateM σ) ColumnType := do
  let answer ← resolver name types
  modify fun log => log ++ [⟨name, types, answer⟩]
  return answer

/-- Names with their column types were settled by the calls of a resolver. -/
structure SettledBy (found : List (String × List ColumnType)) (index : List (String × ColumnType))
    (log : List Call) : Prop where
  /-- The names are the keys of the index. -/
  keys : index.map Prod.fst = found.map Prod.fst
  /-- Each name with several column types was asked for once, with all of them, in order. -/
  asked : log.map Call.question = found.filter fun c => 1 < c.2.length
  only : ∀ name type, (name, [type]) ∈ found → (name, type) ∈ index
  answered : ∀ call ∈ log, (call.name, call.answer) ∈ index

section Settled

variable {found : List (String × List ColumnType)} {index : List (String × ColumnType)}
variable {log : List Call} {name : String} {type answer : ColumnType} {types : List ColumnType}

theorem SettledBy.cons_only (h : SettledBy found index log) :
    SettledBy ((name, [type]) :: found) ((name, type) :: index) log where
  keys := by rw [List.map_cons, List.map_cons, h.keys]
  asked := by rw [h.asked, List.filter_cons_of_neg (by simp)]
  only := by
    intro n t hmem
    rcases List.mem_cons.mp hmem with heq | hmem
    · cases heq
      exact List.mem_cons_self
    · exact List.mem_cons_of_mem _ (h.only n t hmem)
  answered := fun call hcall => List.mem_cons_of_mem _ (h.answered call hcall)

theorem SettledBy.cons_asked (several : 1 < types.length) (h : SettledBy found index log) :
    SettledBy ((name, types) :: found) ((name, answer) :: index)
      (⟨name, types, answer⟩ :: log) where
  keys := by rw [List.map_cons, List.map_cons, h.keys]
  asked := by
    rw [List.map_cons, h.asked, List.filter_cons, if_pos (decide_eq_true several)]
    rfl
  only := by
    intro n t hmem
    rcases List.mem_cons.mp hmem with heq | hmem
    · cases heq
      exact absurd several (Nat.lt_irrefl _)
    · exact List.mem_cons_of_mem _ (h.only n t hmem)
  answered := by
    intro call hcall
    rcases List.mem_cons.mp hcall with rfl | hcall
    · exact List.mem_cons_self
    · exact List.mem_cons_of_mem _ (h.answered call hcall)

end Settled

theorem settle_several {M : Type → Type} [Monad M]
    (resolver : String → List ColumnType → M ColumnType) {name : String} {types : List ColumnType}
    (several : 1 < types.length) :
    settle resolver (name, types) = do return (name, ← resolver name types) := by
  rcases types with _ | ⟨type, _ | ⟨other, more⟩⟩
  · cases several
  · exact absurd several (Nat.lt_irrefl _)
  · rfl

section Runs

variable {σ : Type} (resolver : String → List ColumnType → StateM σ ColumnType)

theorem run_bind_of {α β : Type} {x : StateM σ α} {f : α → StateM σ β} {a : α} {s s₁ : σ}
    (h : x.run s = (a, s₁)) : (x >>= f).run s = (f a).run s₁ := by
  rw [StateT.run_bind, h]
  rfl

theorem run_noting {name : String} {types : List ColumnType} {answer : ColumnType} {s s₁ : σ}
    (log : List Call) (h : (resolver name types).run s = (answer, s₁)) :
    ((noting resolver name types).run log).run s =
      ((answer, log ++ [⟨name, types, answer⟩]), s₁) := by
  have hnote : ((noting resolver name types).run log).run s =
      let r := (resolver name types).run s
      ((r.1, log ++ [⟨name, types, r.1⟩]), r.2) := rfl
  rw [hnote, h]

theorem run_settle {found : List (String × List ColumnType)} (listed : ∀ c ∈ found, c.2 ≠ [])
    (log : List Call) (s : σ) :
    ∃ index later s', (found.mapM (settle resolver)).run s = (index, s') ∧
      ((found.mapM (settle (noting resolver))).run log).run s = ((index, log ++ later), s') ∧
      SettledBy found index later := by
  induction found generalizing log s with
  | nil =>
    refine ⟨[], [], s, rfl, ?_, rfl, rfl, nofun, nofun⟩
    rw [List.append_nil]
    rfl
  | cons c rest ih =>
    obtain ⟨name, types⟩ := c
    obtain ⟨hfirst, hrest⟩ := List.forall_mem_cons.mp listed
    rw [List.mapM_cons, List.mapM_cons]
    by_cases several : 1 < types.length
    · obtain ⟨⟨answer, s₁⟩, hanswer⟩ : ∃ r, (resolver name types).run s = r := ⟨_, rfl⟩
      obtain ⟨index, later, s', hrun, hnoted, hsettled⟩ :=
        ih hrest (log ++ [⟨name, types, answer⟩]) s₁
      refine ⟨(name, answer) :: index, ⟨name, types, answer⟩ :: later, s', ?_, ?_,
        hsettled.cons_asked several⟩
      · rw [settle_several _ several, bind_assoc, run_bind_of hanswer, pure_bind, run_bind_of hrun]
        rfl
      · have hnote := run_noting resolver log hanswer
        rw [settle_several _ several, bind_assoc, StateT.run_bind, run_bind_of hnote, pure_bind,
          StateT.run_bind, run_bind_of hnoted, ← List.append_cons]
        rfl
    · obtain ⟨type, rfl⟩ : ∃ type, types = [type] := by
        have hlength := List.length_pos_iff.mpr hfirst
        exact List.length_eq_one_iff.mp (Nat.le_antisymm (Nat.le_of_not_lt several) hlength)
      obtain ⟨index, later, s', hrun, hnoted, hsettled⟩ := ih hrest log s
      refine ⟨(name, type) :: index, later, s', ?_, ?_, hsettled.cons_only⟩
      · rw [settle, pure_bind, run_bind_of hrun]
        rfl
      · rw [settle, pure_bind, StateT.run_bind, run_bind_of hnoted]
        rfl

end Runs

theorem invertWithM_pure {M : Type → Type} [Monad M] [LawfulMonad M] (m : TypeMap)
    (choose : String → List ColumnType → ColumnType) :
    m.invertWithM (fun name types => (pure (choose name types) : M ColumnType)) =
      pure (m.invertWith choose) := by
  rw [invertWithM, invertWith, ← List.mapM_pure]
  congr 1
  funext c
  obtain ⟨name, types⟩ := c
  rcases types with _ | ⟨type, _ | ⟨other, more⟩⟩
  · exact pure_bind _ _
  · rfl
  · exact pure_bind _ _

/-- Only a list with an element is put to a resolver, so that one that picks the first is
`invert`. -/
theorem invertWith_first {m : TypeMap} {choose : String → List ColumnType → ColumnType}
    (picks : ∀ name first more, choose name (first :: more) = first) :
    m.invertWith choose = m.invert := by
  refine List.map_congr_left fun c hc => ?_
  obtain ⟨name, types⟩ := c
  rcases types with _ | ⟨type, _ | ⟨other, more⟩⟩
  · exact absurd rfl (candidates_listed m _ hc)
  · rfl
  · exact congrArg (Prod.mk name) (picks name type (other :: more))

theorem candidates_congr {profile profile' : String} {rules rules' : List TypeRule}
    (h : ∀ type ceiling, registered rules type ceiling = registered rules' type ceiling) :
    (ofRules profile' rules').candidates = (ofRules profile rules).candidates := by
  rw [candidates, candidates, templates_congr fun type ceiling => (h type ceiling).symm]

/-- The reverse index of a map that rules make has the type names of the registered literals as its
keys. A run of the inversion puts each name with several column types to the resolver once, in the
order in which column types in declaration order and templates by ascending ceiling bring the names
up, with all the column types of the name in declaration order, and puts nothing else to it; the
index has the only column type of a name, or the answer. `invert` takes the first, and rules that
register the same literals last, in whatever order, are inverted alike. -/
theorem conflicts_asked_once (profile : String) (rules : List TypeRule) :
    (∀ type, ((ofRules profile rules).templatesOf type).Pairwise
        (fun t u => t.ceiling.precedes u.ceiling = true) ∧
      ∀ t, t ∈ (ofRules profile rules).templatesOf type ↔
        t.type = type ∧ registered rules type t.ceiling = some t.literal) ∧
    (∀ name, name ∈ (ofRules profile rules).namesMet ↔ ∃ type ceiling literal,
      registered rules type ceiling = some literal ∧ typeNameOf literal = name) ∧
    (ofRules profile rules).namesMet.Nodup ∧
    (∀ {σ : Type} (resolver : String → List ColumnType → StateM σ ColumnType) (s : σ),
      ∃ index log s', ((ofRules profile rules).invertWithM resolver).run s = (index, s') ∧
        (((ofRules profile rules).invertWithM (noting resolver)).run []).run s =
          ((index, log), s') ∧
        log.map Call.question = (ofRules profile rules).conflicts ∧
        SettledBy ((ofRules profile rules).namesMet.map fun name =>
          (name, (ofRules profile rules).typesNamed name)) index log) ∧
    (∀ {σ : Type} (choose : String → List ColumnType → ColumnType) (s : σ),
      ((ofRules profile rules).invertWithM fun name types =>
          (pure (choose name types) : StateM σ ColumnType)).run s =
        ((ofRules profile rules).invertWith choose, s)) ∧
    (∀ choose : String → List ColumnType → ColumnType,
      (∀ name first more, choose name (first :: more) = first) →
        (ofRules profile rules).invertWith choose = (ofRules profile rules).invert) ∧
    ∀ rules', (∀ type ceiling, registered rules type ceiling = registered rules' type ceiling) →
      (ofRules profile rules').invert = (ofRules profile rules).invert ∧
      ∀ {σ : Type} (resolver : String → List ColumnType → StateM σ ColumnType),
        (ofRules profile rules').invertWithM resolver =
          (ofRules profile rules).invertWithM resolver := by
  have hcandidates := candidates_eq (templatesOrdered_ofRules profile rules)
  refine ⟨fun type => ⟨ceilings_ordered profile rules type, fun t => mem_templatesOf_iff⟩,
    fun name => mem_namesMet, nodup_firstOccurrences _, fun resolver s => ?_, fun choose s => ?_,
    fun choose picks => invertWith_first picks, fun rules' hsame => ⟨?_, fun resolver => ?_⟩⟩
  · obtain ⟨index, log, s', hrun, hnoted, hsettled⟩ :=
      run_settle resolver (candidates_listed (ofRules profile rules)) [] s
    refine ⟨index, log, s', hrun, hnoted, hsettled.asked, ?_⟩
    rwa [← hcandidates]
  · rw [invertWithM_pure]
    rfl
  · rw [invert, invert, invertWith, invertWith, candidates_congr hsame]
  · rw [invertWithM, invertWithM, candidates_congr hsame]

/-- Two column types with one type name, the later one registered first. -/
def sharedNames : List TypeRule :=
  [.catchAll .int16 "smallint", .catchAll .byte "SmallInt", .bounded .int32 10 "int($size)"]

/-- The same rules, the earlier column type registered first. -/
def sharedNamesSwapped : List TypeRule :=
  [.catchAll .byte "SmallInt", .catchAll .int16 "smallint", .bounded .int32 10 "int($size)"]

/-- Takes the last column type, and counts how often it is asked. -/
def countingResolver (_ : String) (types : List ColumnType) : StateM Nat ColumnType :=
  fun asked => (types.getLastD .ansiString, asked + 1)

/-- The shared name is asked for once, whichever of its rules comes first. -/
theorem shared_name_asked_once :
    (∀ type ceiling, registered sharedNames type ceiling =
      registered sharedNamesSwapped type ceiling) ∧
    ((ofRules "test" sharedNames).invertWithM countingResolver).run 0 =
      ([("smallint", .int16), ("int", .int32)], 1) ∧
    ((ofRules "test" sharedNamesSwapped).invertWithM countingResolver).run 0 =
      ([("smallint", .int16), ("int", .int32)], 1) ∧
    (ofRules "test" sharedNamesSwapped).invertWith (fun _ types => types.headD .xml) =
      [("smallint", .byte), ("int", .int32)] := by
  have hsame : ∀ type ceiling, registered sharedNames type ceiling =
      registered sharedNamesSwapped type ceiling := fun type ceiling =>
    registered_swap [] [.bounded .int32 10 "int($size)"] (by decide)
  have hcandidates : (ofRules "test" sharedNames).candidates =
      [("smallint", [.byte, .int16]), ("int", [.int32])] := by decide +kernel
  obtain ⟨-, -, -, -, -, -, hrules⟩ := conflicts_asked_once "test" sharedNames
  obtain ⟨-, -, -, -, -, hfirst, -⟩ := conflicts_asked_once "test" sharedNamesSwapped
  have hrun : ((ofRules "test" sharedNames).invertWithM countingResolver).run 0 =
      ([("smallint", .int16), ("int", .int32)], 1) := by
    rw [invertWithM, hcandidates]
    rfl
  refine ⟨hsame, hrun, ?_, ?_⟩
  · rw [(hrules _ hsame).2 countingResolver]
    exact hrun
  · rw [hfirst _ fun _ _ _ => rfl, (hrules _ hsame).1, invert, invertWith, hcandidates]
    rfl

end TypeMap

end Migration
