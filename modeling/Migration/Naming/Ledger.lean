import Migration.Error
import Migration.Text.Lowercase

/-
  The ledger of a migration: every renaming that took place.

  A renaming is known by its key: schema, kind and old name. The ledger holds one
  renaming per key, sorted by key, and an index that has the keys of each old name,
  whatever its case, in the order in which they were first recorded. A second renaming
  of a key is passed over where it agrees with the first, and refused where it does not.

  What is proved beside the definitions: the order of keys is total (`precedes_or`),
  the index and the renamings stay in step (`Ledger.inStep`, a field of the ledger), what
  `get?` finds is in the ledger (`get?_some`), and a renaming is new, known already or
  refused (`record_cases`).
-/

namespace Migration.Naming

structure Renaming where
  /-- The source schema of the object. -/
  schema : String
  kind : ObjectKind
  oldName : String
  newName : String
  /-- Whether the new name took more than lower case. -/
  normalized : Bool := false
  deriving DecidableEq, Repr

/-! ## Keys -/

/-- What a renaming is known by. -/
abbrev Key := String × ObjectKind × String

def Renaming.key (r : Renaming) : Key := (r.schema, r.kind, r.oldName)

namespace Key

/-- The old name of a key in lower case. -/
def form (key : Key) : String := Text.lowercase key.2.2

/-- The order of keys: by schema, then kind, then old name, texts by code points. -/
def precedes (a b : Key) : Bool :=
  a.1 < b.1 ||
    (a.1 == b.1 &&
      (a.2.1.rank < b.2.1.rank || (a.2.1 == b.2.1 && a.2.2 < b.2.2)))

theorem precedes_iff {a b : Key} : a.precedes b = true ↔
    a.1 < b.1 ∨ a.1 = b.1 ∧ (a.2.1.rank < b.2.1.rank ∨ a.2.1 = b.2.1 ∧ a.2.2 < b.2.2) := by
  simp [precedes]

theorem precedes_irrefl (a : Key) : ¬ a.precedes a = true := by
  rw [precedes_iff]
  rintro (h | ⟨-, h | ⟨-, h⟩⟩)
  · exact String.lt_irrefl _ h
  · exact Nat.lt_irrefl _ h
  · exact String.lt_irrefl _ h

theorem precedes_trans {a b c : Key} (h : a.precedes b = true) (h' : b.precedes c = true) :
    a.precedes c = true := by
  rw [precedes_iff] at *
  grind

theorem precedes_or {a b : Key} (h : a ≠ b) : a.precedes b = true ∨ b.precedes a = true := by
  obtain ⟨schema, kind, name⟩ := a
  obtain ⟨schema', kind', name'⟩ := b
  have hkind := @ObjectKind.rank_inj kind kind'
  simp only [precedes_iff]
  grind

end Key

/-- The renamings are sorted by key, and no two have the same key. -/
def Sorted (entries : List Renaming) : Prop :=
  entries.Pairwise fun r s => r.key.precedes s.key = true

def insertSorted (r : Renaming) : List Renaming → List Renaming
  | [] => [r]
  | s :: rest => if r.key.precedes s.key then r :: s :: rest else s :: insertSorted r rest

theorem insertSorted_perm (r : Renaming) (entries : List Renaming) :
    (insertSorted r entries).Perm (r :: entries) := by
  induction entries with
  | nil => exact .refl _
  | cons s rest ih =>
    rw [insertSorted]
    split
    · exact .refl _
    · exact (ih.cons s).trans (.swap r s rest)

@[simp] theorem mem_insertSorted {r s : Renaming} {entries : List Renaming} :
    s ∈ insertSorted r entries ↔ s = r ∨ s ∈ entries := by
  rw [(insertSorted_perm r entries).mem_iff, List.mem_cons]

theorem mem_keys_insertSorted {r : Renaming} {entries : List Renaming} {key : Key} :
    key ∈ (insertSorted r entries).map Renaming.key ↔
      key = r.key ∨ key ∈ entries.map Renaming.key := by
  rw [((insertSorted_perm r entries).map Renaming.key).mem_iff, List.map_cons, List.mem_cons]

theorem Sorted.eq_of_key_eq {entries : List Renaming} (h : Sorted entries) {r s : Renaming}
    (hr : r ∈ entries) (hs : s ∈ entries) (hkey : r.key = s.key) : r = s := by
  induction entries with
  | nil => exact absurd hr List.not_mem_nil
  | cons t rest ih =>
    obtain ⟨ht, hrest⟩ := List.pairwise_cons.mp h
    rcases List.mem_cons.mp hr with rfl | hr'
    · rcases List.mem_cons.mp hs with rfl | hs'
      · rfl
      · exact absurd (hkey ▸ ht s hs') (Key.precedes_irrefl _)
    · rcases List.mem_cons.mp hs with rfl | hs'
      · exact absurd (hkey ▸ ht r hr') (Key.precedes_irrefl _)
      · exact ih hrest hr' hs'

theorem Sorted.insertSorted {r : Renaming} {entries : List Renaming} (h : Sorted entries)
    (hnew : ∀ s ∈ entries, s.key ≠ r.key) : Sorted (insertSorted r entries) := by
  induction entries with
  | nil => exact List.pairwise_singleton _ _
  | cons s rest ih =>
    obtain ⟨hs, hrest⟩ := List.pairwise_cons.mp h
    obtain ⟨hne, hnew⟩ := List.forall_mem_cons.mp hnew
    rw [Naming.insertSorted]
    split
    · rename_i hfirst
      refine List.pairwise_cons.mpr ⟨List.forall_mem_cons.mpr ⟨hfirst, fun t ht => ?_⟩, h⟩
      exact Key.precedes_trans hfirst (hs t ht)
    · rename_i hlater
      refine List.pairwise_cons.mpr ⟨fun t ht => ?_, ih hrest hnew⟩
      rcases mem_insertSorted.mp ht with rfl | ht
      · exact (Key.precedes_or hne).resolve_right hlater
      · exact hs t ht

/-! ## The index of old names -/

abbrev NameIndex := List (String × List Key)

namespace NameIndex

/-- The keys under an old name in lower case. -/
def under : NameIndex → String → List Key
  | [], _ => []
  | (name, keys) :: rest, form => if name = form then keys else under rest form

def add : NameIndex → Key → NameIndex
  | [], key => [(key.form, [key])]
  | (name, keys) :: rest, key =>
    if name = key.form then (name, keys ++ [key]) :: rest else (name, keys) :: add rest key

theorem under_add (index : NameIndex) (key : Key) (form : String) :
    (index.add key).under form = index.under form ++ if form = key.form then [key] else [] := by
  induction index with
  | nil =>
    simp only [add, under, List.nil_append, eq_comm]
  | cons entry rest ih =>
    obtain ⟨name, keys⟩ := entry
    rw [add]
    by_cases hname : name = key.form
    · rw [if_pos hname, under, under]
      by_cases hform : name = form
      · rw [if_pos hform, if_pos hform, if_pos (hform.symm.trans hname)]
      · rw [if_neg hform, if_neg hform, if_neg fun h => hform (hname.trans h.symm), List.append_nil]
    · rw [if_neg hname, under, under, ih]
      by_cases hform : name = form
      · rw [if_pos hform, if_pos hform, if_neg fun h => hname (hform.trans h), List.append_nil]
      · rw [if_neg hform, if_neg hform]

end NameIndex

/-- The index has the keys of the renamings, each once and under its old name. -/
structure InStep (entries : List Renaming) (index : NameIndex) : Prop where
  mem_under : ∀ form key, key ∈ index.under form ↔ key ∈ entries.map Renaming.key ∧ key.form = form
  once : ∀ form, (index.under form).Nodup

theorem InStep.empty : InStep [] [] :=
  ⟨fun form key => by simp [NameIndex.under], fun _ => List.nodup_nil⟩

theorem InStep.add {entries : List Renaming} {index : NameIndex} (h : InStep entries index)
    {r : Renaming} (hnew : ∀ s ∈ entries, s.key ≠ r.key) :
    InStep (insertSorted r entries) (index.add r.key) where
  mem_under form key := by
    rw [NameIndex.under_add, List.mem_append, h.mem_under, mem_keys_insertSorted]
    by_cases hform : form = r.key.form
    · rw [if_pos hform, List.mem_singleton]
      constructor
      · rintro (⟨hkey, hsame⟩ | rfl)
        · exact ⟨.inr hkey, hsame⟩
        · exact ⟨.inl rfl, hform.symm⟩
      · rintro ⟨rfl | hkey, hsame⟩
        · exact .inr rfl
        · exact .inl ⟨hkey, hsame⟩
    · rw [if_neg hform]
      constructor
      · rintro (⟨hkey, hsame⟩ | hnone)
        · exact ⟨.inr hkey, hsame⟩
        · exact absurd hnone List.not_mem_nil
      · rintro ⟨rfl | hkey, hsame⟩
        · exact absurd hsame.symm hform
        · exact .inl ⟨hkey, hsame⟩
  once form := by
    rw [NameIndex.under_add]
    split
    · -- the key is new, so it was not in the index either
      refine List.nodup_append.mpr ⟨h.once form, List.pairwise_singleton _ _, ?_⟩
      rintro key hkey key' hkey' rfl
      obtain rfl := List.mem_singleton.mp hkey'
      obtain ⟨s, hs, hsame⟩ := List.mem_map.mp ((h.mem_under form _).mp hkey).1
      exact hnew s hs hsame
    · rw [List.append_nil]
      exact h.once form

/-! ## Ledgers -/

/-- One renaming per key, sorted by key, with the index of their old names. -/
structure Ledger where
  entries : List Renaming
  index : NameIndex
  sorted : Sorted entries
  inStep : InStep entries index

namespace Ledger

def empty : Ledger := ⟨[], [], List.Pairwise.nil, .empty⟩

/-- The renaming with this key. -/
def find? (l : Ledger) (key : Key) : Option Renaming := l.entries.find? (fun r => r.key == key)

/-- The renaming of an old name of one kind in one schema. -/
def get? (l : Ledger) (schema : String) (kind : ObjectKind) (oldName : String) :
    Option Renaming :=
  l.find? (schema, kind, oldName)

theorem key_ne_of_find?_none {l : Ledger} {key : Key} (h : l.find? key = none) :
    ∀ e ∈ l.entries, e.key ≠ key := by
  intro e he
  have := List.find?_eq_none.mp h e he
  simpa using this

def add (l : Ledger) (r : Renaming) (hnew : ∀ s ∈ l.entries, s.key ≠ r.key) : Ledger where
  entries := insertSorted r l.entries
  index := l.index.add r.key
  sorted := l.sorted.insertSorted hnew
  inStep := l.inStep.add hnew

@[simp] theorem mem_add {l : Ledger} {r s : Renaming} {hnew : ∀ s ∈ l.entries, s.key ≠ r.key} :
    s ∈ (l.add r hnew).entries ↔ s = r ∨ s ∈ l.entries := mem_insertSorted

theorem distinct (l : Ledger) : l.entries.Pairwise fun r s => r.key ≠ s.key := by
  refine l.sorted.imp fun {r s} hfirst hsame => ?_
  rw [hsame] at hfirst
  exact Key.precedes_irrefl _ hfirst

/-- Takes in a renaming: the ledger after it, and whether its key is new, or the error of one that
is refused. -/
def record (l : Ledger) (r : Renaming) : Ledger × Outcome Bool :=
  match h : l.find? r.key with
  | some existing =>
    if existing.newName = r.newName then (l, .ok false)
    else
      (l, .error
        (.ambiguousMapping r.schema (some r.kind) r.oldName existing.newName r.newName))
  | none => (l.add r (key_ne_of_find?_none h), .ok true)

/-- Takes in renamings up to the first that is refused. -/
def recordAll (l : Ledger) : List Renaming → Ledger × Outcome Unit
  | [] => (l, .ok ())
  | r :: rest =>
    match l.record r with
    | (after, .error e) => (after, .error e)
    | (after, .ok _) => after.recordAll rest

/-- Every renaming of the old name, in any mix of cases, oldest first. -/
def findByRawName (l : Ledger) (raw : String) : List Renaming :=
  (l.index.under (Text.lowercase raw)).filterMap l.find?

def toList (l : Ledger) : List Renaming := l.entries

def size (l : Ledger) : Nat := l.entries.length

def isEmpty (l : Ledger) : Bool := l.entries.isEmpty

/-! ## What is found -/

/-- What is found is in the ledger, under the key that was asked for. -/
theorem get?_some {l : Ledger} {schema : String} {kind : ObjectKind} {oldName : String}
    {r : Renaming} (h : l.get? schema kind oldName = some r) :
    r ∈ l.entries ∧ r.key = (schema, kind, oldName) := by
  refine ⟨List.mem_of_find?_eq_some h, ?_⟩
  simpa using List.find?_some h

theorem find?_iff {l : Ledger} {key : Key} {r : Renaming} :
    l.find? key = some r ↔ r ∈ l.entries ∧ r.key = key := by
  refine ⟨fun h => get?_some h, ?_⟩
  rintro ⟨hr, rfl⟩
  cases hfind : l.find? r.key with
  | none => exact absurd rfl (key_ne_of_find?_none hfind r hr)
  | some s =>
    obtain ⟨hs, hkey⟩ := get?_some hfind
    exact congrArg some (l.sorted.eq_of_key_eq hs hr hkey)

theorem find?_none_iff {l : Ledger} {key : Key} :
    l.find? key = none ↔ ∀ s ∈ l.entries, s.key ≠ key := by
  simp [find?]

theorem record_cases (l : Ledger) (r : Renaming) :
    (∃ hnew, l.record r = (l.add r hnew, .ok true)) ∨
    (∃ s, l.find? r.key = some s ∧ s.newName = r.newName ∧ l.record r = (l, .ok false)) ∨
    ∃ s, l.find? r.key = some s ∧ s.newName ≠ r.newName ∧ l.record r =
      (l, .error (.ambiguousMapping r.schema (some r.kind) r.oldName s.newName r.newName)) := by
  unfold record
  split
  · rename_i s hfind
    by_cases hname : s.newName = r.newName
    · exact .inr (.inl ⟨s, hfind, hname, if_pos hname⟩)
    · exact .inr (.inr ⟨s, hfind, hname, if_neg hname⟩)
  · rename_i hnone
    exact .inl ⟨find?_none_iff.mp hnone, rfl⟩

theorem mem_findByRawName {l : Ledger} {raw : String} {r : Renaming} :
    r ∈ l.findByRawName raw ↔
      r ∈ l.entries ∧ Text.lowercase r.oldName = Text.lowercase raw := by
  rw [findByRawName, List.mem_filterMap]
  constructor
  · rintro ⟨key, hkey, hfind⟩
    obtain ⟨hr, rfl⟩ := find?_iff.mp hfind
    exact ⟨hr, ((l.inStep.mem_under _ _).mp hkey).2⟩
  · rintro ⟨hr, hsame⟩
    exact ⟨r.key, (l.inStep.mem_under _ _).mpr ⟨List.mem_map_of_mem hr, hsame⟩,
      find?_iff.mpr ⟨hr, rfl⟩⟩

end Ledger

end Migration.Naming
