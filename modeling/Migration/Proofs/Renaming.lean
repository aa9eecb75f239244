import Migration.Naming.Renamed
import Mathlib.Data.List.Forall2

/-
  What a renaming that succeeds yields, descriptor by descriptor.

  `Made` says of the events of a renaming which keys they are for, that the policy made
  them, and that a descriptor carries at each place the name of the event for what stood
  there. Parts are put together by `Made.append`, so there is one lemma for each function
  that renames, and callers open none of them. Which names a descriptor carries is said
  for any relation of keys and names (`ConstraintCarries`, `IndexCarries`,
  `IdentityCarries`): it may be that of the policy, or that of a ledger which took the
  events. -/

namespace Migration.Naming

/-- A renaming ends with a value and the events that led to it. -/
def Renames.Yields {α : Type} (m : Renames α) (a : α) (events : List Renaming) : Prop :=
  (m : Outcome (Renamed α)) = .ok ⟨a, events⟩

/-- The renaming is the one that the policy makes of the old name. -/
def NamingPolicy.Makes (policy : NamingPolicy) (r : Renaming) : Prop :=
  policy.apply r.kind r.oldName = .ok ⟨r.newName, r.normalized⟩

/-- The policy has this new name for a key. -/
def NamingPolicy.Names (policy : NamingPolicy) (key : Key) (name : String) : Prop :=
  ∃ normalized, policy.apply key.2.1 key.2.2 = .ok ⟨name, normalized⟩

theorem NamingPolicy.Makes.names {policy : NamingPolicy} {r : Renaming} (h : policy.Makes r) :
    policy.Names r.key r.newName :=
  ⟨r.normalized, h⟩

theorem NamingPolicy.Names.unique {policy : NamingPolicy} {key : Key} {name name' : String}
    (h : policy.Names key name) (h' : policy.Names key name') : name = name' := by
  obtain ⟨normalized, h⟩ := h
  obtain ⟨normalized', h'⟩ := h'
  rw [h] at h'
  cases h'
  rfl

/-! ## What descriptors carry -/

section Carries

variable (Said : Key → String → Prop)

def ColumnsCarry (schema : String) (raws names : List String) : Prop :=
  List.Forall₂ (fun raw name => Said (schema, .column, raw) name) raws names

/-- The schema under which a constraint speaks of what it refers to. -/
def referredSchema (c : Constraint) : String := c.referencedSchema.getD c.schema

/-- A renamed constraint: at each place stands what is said for the name that stood there. -/
structure ConstraintCarries (c renamed : Constraint) : Prop where
  schema : Said (c.schema, .schema, c.schema) renamed.schema
  table : Said (c.schema, .table, c.table) renamed.table
  name : Said (c.schema, c.kind.objectKind, c.name) renamed.name
  fields : ColumnsCarry Said c.schema c.fields renamed.fields
  referencedSchema : Option.Rel (fun raw name => Said (raw, .schema, raw) name)
    c.referencedSchema renamed.referencedSchema
  referencedTable : Option.Rel (fun raw name => Said (referredSchema c, .table, raw) name)
    c.referencedTable renamed.referencedTable
  referencedFields :
    ColumnsCarry Said (referredSchema c) c.referencedFields renamed.referencedFields
  /-- Nothing else changes. -/
  rest : renamed = { c with
    schema := renamed.schema, table := renamed.table, name := renamed.name,
    fields := renamed.fields,
    referencedSchema := renamed.referencedSchema, referencedTable := renamed.referencedTable,
    referencedFields := renamed.referencedFields }

theorem ConstraintCarries.referredSchema {c renamed : Constraint}
    (h : ConstraintCarries Said c renamed) :
    Said (Naming.referredSchema c, .schema, Naming.referredSchema c)
      (Naming.referredSchema renamed) := by
  have hschema := h.schema
  have hreferred := h.referencedSchema
  unfold Naming.referredSchema
  generalize c.referencedSchema = raw, renamed.referencedSchema = name at hreferred ⊢
  cases hreferred with
  | none => exact hschema
  | some hname => exact hname

structure IndexCarries (i renamed : Index) : Prop where
  schema : Said (i.schema, .schema, i.schema) renamed.schema
  table : Said (i.schema, .table, i.table) renamed.table
  name : Said (i.schema, .index, i.name) renamed.name
  keyColumns : ColumnsCarry Said i.schema i.keyColumns renamed.keyColumns
  includedColumns : ColumnsCarry Said i.schema i.includedColumns renamed.includedColumns
  rest : renamed.isUnique = i.isUnique

structure IdentityCarries (i renamed : Identity) : Prop where
  schema : Said (i.schema, .schema, i.schema) renamed.schema
  table : Said (i.schema, .table, i.table) renamed.table
  column : Said (i.schema, .column, i.column) renamed.column
  rest : renamed = { i with
    schema := renamed.schema, table := renamed.table, column := renamed.column }

end Carries

def columnKeys (schema : String) (raws : List String) : List Key :=
  raws.map fun raw => (schema, .column, raw)

/-- The keys of the names in a constraint, in the order in which they are renamed. -/
def constraintKeys (c : Constraint) : List Key :=
  [(c.schema, .schema, c.schema), (c.schema, .table, c.table),
   (c.schema, c.kind.objectKind, c.name)]
    ++ columnKeys c.schema c.fields
    ++ c.referencedSchema.toList.map (fun raw => (raw, .schema, raw))
    ++ c.referencedTable.toList.map (fun raw => (referredSchema c, .table, raw))
    ++ columnKeys (referredSchema c) c.referencedFields

def indexKeys (i : Index) : List Key :=
  [(i.schema, .schema, i.schema), (i.schema, .table, i.table), (i.schema, .index, i.name)]
    ++ columnKeys i.schema i.keyColumns ++ columnKeys i.schema i.includedColumns

def identityKeys (i : Identity) : List Key :=
  [(i.schema, .schema, i.schema), (i.schema, .table, i.table), (i.schema, .column, i.column)]

/-! ## Events of a policy -/

/-- The events are for these keys, in order, and the policy made them; what is said of every event
is carried. -/
structure Made (policy : NamingPolicy) (keys : List Key) (Carried : (Key → String → Prop) → Prop)
    (events : List Renaming) : Prop where
  keys : events.map Renaming.key = keys
  made : ∀ r ∈ events, policy.Makes r
  carried : ∀ Said : Key → String → Prop, (∀ r ∈ events, Said r.key r.newName) → Carried Said

variable {α β : Type} {policy : NamingPolicy}

theorem Made.nil (policy : NamingPolicy) : Made policy [] (fun _ => True) [] where
  keys := rfl
  made _ hr := absurd hr List.not_mem_nil
  carried _ _ := trivial

theorem Made.append {keys keys' : List Key} {Carried Carried' : (Key → String → Prop) → Prop}
    {events events' : List Renaming} (h : Made policy keys Carried events)
    (h' : Made policy keys' Carried' events') :
    Made policy (keys ++ keys') (fun Said => Carried Said ∧ Carried' Said) (events ++ events') where
  keys := by rw [List.map_append, h.keys, h'.keys]
  made := List.forall_mem_append.mpr ⟨h.made, h'.made⟩
  carried Said hsaid := by
    obtain ⟨hfirst, hsecond⟩ := List.forall_mem_append.mp hsaid
    exact ⟨h.carried Said hfirst, h'.carried Said hsecond⟩

theorem Made.mono {keys keys' : List Key} {Carried Carried' : (Key → String → Prop) → Prop}
    {events : List Renaming} (h : Made policy keys Carried events) (hkeys : keys = keys')
    (hcarried : ∀ Said, Carried Said → Carried' Said) : Made policy keys' Carried' events where
  keys := hkeys ▸ h.keys
  made := h.made
  carried Said hsaid := hcarried Said (h.carried Said hsaid)

/-- A descriptor carries the names of the policy. -/
theorem Made.carried_names {keys : List Key} {Carried : (Key → String → Prop) → Prop}
    {events : List Renaming} (h : Made policy keys Carried events) : Carried policy.Names :=
  h.carried policy.Names fun r hr => (h.made r hr).names

theorem yields_bind {m : Renames α} {f : α → Renames β} {b : β} {events : List Renaming}
    (h : (m >>= f).Yields b events) :
    ∃ a first second, m.Yields a first ∧ (f a).Yields b second ∧ events = first ++ second := by
  change Renames.andThen m f = .ok ⟨b, events⟩ at h
  cases hm : (m : Outcome (Renamed α)) with
  | error e =>
    simp only [Renames.andThen, hm] at h
    cases h
  | ok first =>
    cases hf : (f first.value : Outcome (Renamed β)) with
    | error e =>
      simp only [Renames.andThen, hm, hf] at h
      cases h
    | ok second =>
      simp only [Renames.andThen, hm, hf] at h
      cases h
      exact ⟨first.value, first.events, second.events, rfl, hf, rfl⟩

theorem yields_pure {a b : α} {events : List Renaming} (h : (pure a : Renames α).Yields b events) :
    b = a ∧ events = [] := by
  cases h
  exact ⟨rfl, rfl⟩

/-! ## One lemma for each renaming -/

theorem made_rename {schema raw name : String} {kind : ObjectKind} {events : List Renaming}
    (h : (policy.rename schema kind raw).Yields name events) :
    Made policy [(schema, kind, raw)] (fun Said => Said (schema, kind, raw) name) events := by
  unfold Renames.Yields NamingPolicy.rename at h
  split at h
  · cases h
  · rename_i target happly
    cases h
    refine ⟨rfl, ?_, fun Said hsaid => hsaid _ (List.mem_singleton_self _)⟩
    intro r hr
    rw [List.mem_singleton.mp hr]
    exact happly

theorem made_renameOption {schema : String} {kind : ObjectKind} {raw name : Option String}
    {events : List Renaming} (h : (policy.renameOption schema kind raw).Yields name events) :
    Made policy (raw.toList.map fun r => (schema, kind, r))
      (fun Said => Option.Rel (fun r n => Said (schema, kind, r) n) raw name) events := by
  cases raw with
  | none =>
    obtain ⟨rfl, rfl⟩ := yields_pure h
    exact (Made.nil policy).mono rfl fun _ _ => .none
  | some raw =>
    obtain ⟨name, first, second, hname, hpure, rfl⟩ := yields_bind h
    obtain ⟨rfl, rfl⟩ := yields_pure hpure
    rw [List.append_nil]
    exact (made_rename hname).mono rfl fun _ hname => .some hname

theorem made_renameSchemaOption {raw name : Option String} {events : List Renaming}
    (h : (policy.renameSchemaOption raw).Yields name events) :
    Made policy (raw.toList.map fun r => (r, .schema, r))
      (fun Said => Option.Rel (fun r n => Said (r, .schema, r) n) raw name) events := by
  cases raw with
  | none =>
    obtain ⟨rfl, rfl⟩ := yields_pure h
    exact (Made.nil policy).mono rfl fun _ _ => .none
  | some raw =>
    obtain ⟨name, first, second, hname, hpure, rfl⟩ := yields_bind h
    obtain ⟨rfl, rfl⟩ := yields_pure hpure
    rw [List.append_nil]
    exact (made_rename hname).mono rfl fun _ hname => .some hname

theorem made_renameColumns {schema : String} {raws names : List String} {events : List Renaming}
    (h : (policy.renameColumns schema raws).Yields names events) :
    Made policy (columnKeys schema raws) (fun Said => ColumnsCarry Said schema raws names)
      events := by
  induction raws generalizing names events with
  | nil =>
    obtain ⟨rfl, rfl⟩ := yields_pure h
    exact (Made.nil policy).mono rfl fun _ _ => .nil
  | cons raw rest ih =>
    obtain ⟨name, first, later, hname, hlater, rfl⟩ := yields_bind h
    obtain ⟨others, second, third, hrest, hpure, rfl⟩ := yields_bind hlater
    obtain ⟨rfl, rfl⟩ := yields_pure hpure
    rw [List.append_nil]
    exact ((made_rename hname).append (ih hrest)).mono rfl fun _ hboth => .cons hboth.1 hboth.2

theorem made_renameConstraint {c renamed : Constraint} {events : List Renaming}
    (h : (policy.renameConstraint c).Yields renamed events) :
    Made policy (constraintKeys c) (fun Said => ConstraintCarries Said c renamed) events := by
  unfold NamingPolicy.renameConstraint at h
  split at h
  · cases h
  · obtain ⟨schema, e₁, _, hschema, h₁, rfl⟩ := yields_bind h
    obtain ⟨table, e₂, _, htable, h₂, rfl⟩ := yields_bind h₁
    obtain ⟨name, e₃, _, hname, h₃, rfl⟩ := yields_bind h₂
    obtain ⟨fields, e₄, _, hfields, h₄, rfl⟩ := yields_bind h₃
    obtain ⟨referencedSchema, e₅, _, hrefSchema, h₅, rfl⟩ := yields_bind h₄
    obtain ⟨referencedTable, e₆, _, hrefTable, h₆, rfl⟩ := yields_bind h₅
    obtain ⟨referencedFields, e₇, _, hrefFields, h₇, rfl⟩ := yields_bind h₆
    obtain ⟨rfl, rfl⟩ := yields_pure h₇
    rw [List.append_nil]
    have hmade := (made_rename hschema).append <| (made_rename htable).append <|
      (made_rename hname).append <| (made_renameColumns hfields).append <|
      (made_renameSchemaOption hrefSchema).append <| (made_renameOption hrefTable).append
      (made_renameColumns hrefFields)
    refine hmade.mono (by simp [constraintKeys, referredSchema]) ?_
    rintro Said ⟨hschema, htable, hname, hfields, hrefSchema, hrefTable, hrefFields⟩
    exact ⟨hschema, htable, hname, hfields, hrefSchema, hrefTable, hrefFields, rfl⟩

theorem made_renameIndex {i renamed : Index} {events : List Renaming}
    (h : (policy.renameIndex i).Yields renamed events) :
    Made policy (indexKeys i) (fun Said => IndexCarries Said i renamed) events := by
  obtain ⟨schema, e₁, _, hschema, h₁, rfl⟩ := yields_bind h
  obtain ⟨table, e₂, _, htable, h₂, rfl⟩ := yields_bind h₁
  obtain ⟨name, e₃, _, hname, h₃, rfl⟩ := yields_bind h₂
  obtain ⟨keyColumns, e₄, _, hkeys, h₄, rfl⟩ := yields_bind h₃
  obtain ⟨includedColumns, e₅, _, hincluded, h₅, rfl⟩ := yields_bind h₄
  obtain ⟨rfl, rfl⟩ := yields_pure h₅
  rw [List.append_nil]
  have hmade := (made_rename hschema).append <| (made_rename htable).append <|
    (made_rename hname).append <| (made_renameColumns hkeys).append (made_renameColumns hincluded)
  refine hmade.mono (by simp [indexKeys]) ?_
  rintro Said ⟨hschema, htable, hname, hkeys, hincluded⟩
  exact ⟨hschema, htable, hname, hkeys, hincluded, rfl⟩

theorem made_renameIdentity {i renamed : Identity} {events : List Renaming}
    (h : (policy.renameIdentity i).Yields renamed events) :
    Made policy (identityKeys i) (fun Said => IdentityCarries Said i renamed) events := by
  obtain ⟨schema, e₁, _, hschema, h₁, rfl⟩ := yields_bind h
  obtain ⟨table, e₂, _, htable, h₂, rfl⟩ := yields_bind h₁
  obtain ⟨column, e₃, _, hcolumn, h₃, rfl⟩ := yields_bind h₂
  obtain ⟨rfl, rfl⟩ := yields_pure h₃
  rw [List.append_nil]
  have hmade := (made_rename hschema).append <| (made_rename htable).append (made_rename hcolumn)
  refine hmade.mono rfl ?_
  rintro Said ⟨hschema, htable, hcolumn⟩
  exact ⟨hschema, htable, hcolumn, rfl⟩

end Migration.Naming
