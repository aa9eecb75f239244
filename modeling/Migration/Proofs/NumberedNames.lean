import Mathlib.Algebra.Group.Nat.Defs
import Mathlib.Data.List.Nodup
import Migration.Naming.Collision

/-
  Names of indexes, numbered within their schema.

  Where a name occurs more than once in a batch, its members are numbered in order. The
  number needs room: a long name loses as many characters at its end as the number has
  digits. So the numbers 1 and 11 cut the same name at different places. This file

  1. says what the numbering makes of the member at each place of a batch
     (`resolveIndexCollisions_eq_mapIdx`), and that it cuts no more than it must
     (`longestBase_cut`);
  2. says when two numbered names are the same (`numbered_eq_iff`): the digits of one
     number end with those of the other, and the digits before them are the end of the
     other name (`RunsTogether`);
  3. concludes which batches have no two members that meet under a name that nobody had
     before (`numbered_members_apart_iff`), and shows eleven members of one group of
     which the first and the last meet (`eleventh_member_meets_first`);
  4. concludes that names which leave room and do not end in a digit never meet
     (`groups_numbered_in_order`). -/

namespace Migration.Naming

/-! ## What the numbering makes of a batch -/

/-- What the numbering makes of a name at a place among the names. -/
def nameAt (names : List String) (i : Nat) (name : String) : String :=
  if 1 < names.count name then numbered name ((names.take i).count name + 1) else name

def resolvedNames (indexes : List Index) : List String :=
  (resolveIndexCollisions indexes).map Index.name

/-- The numbering goes on from the names before: it counts them and those it has passed. -/
theorem numberFrom_eq_mapIdx (names before : List String) (indexes : List Index) :
    numberFrom names before indexes = indexes.mapIdx fun i index =>
      { index with
        name := if 1 < names.count index.name then
            numbered index.name
              (before.count index.name + ((indexes.map Index.name).take i).count index.name + 1)
          else index.name } := by
  induction indexes generalizing before with
  | nil => rfl
  | cons first rest ih =>
    rw [numberFrom, ih, List.mapIdx_cons]
    apply congrArg₂ List.cons
    · simp
    · apply congrArg (List.mapIdx · rest)
      funext i index
      -- the first one counts among those before, or among those passed
      have hcount : (first.name :: before).count index.name +
            ((rest.map Index.name).take i).count index.name =
          before.count index.name +
            (((first :: rest).map Index.name).take (i + 1)).count index.name := by
        simp only [List.map_cons, List.take_succ_cons, List.count_cons]
        omega
      rw [hcount]

theorem resolveIndexCollisions_eq_mapIdx (indexes : List Index) :
    resolveIndexCollisions indexes = indexes.mapIdx fun i index =>
      { index with name := nameAt (indexes.map Index.name) i index.name } := by
  rw [resolveIndexCollisions, numberFrom_eq_mapIdx]
  simp [nameAt]

theorem getElem?_resolvedNames (indexes : List Index) (i : Nat) :
    (resolvedNames indexes)[i]? =
      (indexes.map Index.name)[i]?.map (nameAt (indexes.map Index.name) i) := by
  rw [resolvedNames, resolveIndexCollisions_eq_mapIdx, List.getElem?_map, List.getElem?_mapIdx,
    List.getElem?_map, Option.map_map, Option.map_map]
  rfl

/-! ## Places and numbers -/

section Places

variable {names : List String} {name : String} {i j : Nat}

theorem count_take_lt (hi : names[i]? = some name) (hij : i < j) :
    (names.take i).count name < (names.take j).count name := by
  have hnext : (names.take (i + 1)).count name = (names.take i).count name + 1 := by
    simp [List.take_add_one, hi]
  have hmono : (names.take (i + 1)).count name ≤ (names.take j).count name :=
    (List.take_prefix_take_left (by omega : i + 1 ≤ j)).sublist.count_le name
  omega

theorem count_take_lt_count (hi : names[i]? = some name) :
    (names.take i).count name < names.count name := by
  obtain ⟨hlt, -⟩ := List.getElem?_eq_some_iff.mp hi
  simpa using count_take_lt hi hlt

theorem exists_place {n : Nat} (hpos : 1 ≤ n) (hn : n ≤ names.count name) :
    ∃ i, names[i]? = some name ∧ (names.take i).count name + 1 = n := by
  induction names generalizing n with
  | nil => simp at hn; omega
  | cons first rest ih =>
    by_cases hfirst : first = name
    · subst hfirst
      rw [List.count_cons_self] at hn
      by_cases hone : n = 1
      · exact ⟨0, by simp, by simp [hone]⟩
      · obtain ⟨i, hi, hnumber⟩ := ih (n := n - 1) (by omega) (by omega)
        refine ⟨i + 1, by simpa using hi, ?_⟩
        rw [List.take_succ_cons, List.count_cons_self]
        omega
    · rw [List.count_cons_of_ne hfirst] at hn
      obtain ⟨i, hi, hnumber⟩ := ih hpos hn
      refine ⟨i + 1, by simpa using hi, ?_⟩
      rw [List.take_succ_cons, List.count_cons_of_ne hfirst]
      exact hnumber

end Places

/-- The numbering gives the number to a member of the name. -/
def Numbers (names : List String) (name : String) (n : Nat) : Prop :=
  1 < names.count name ∧ 1 ≤ n ∧ n ≤ names.count name

section Numbers

variable {names : List String} {name : String} {n i : Nat}

theorem Numbers.exists_place (h : Numbers names name n) :
    ∃ i, names[i]? = some name ∧ (names.take i).count name + 1 = n ∧
      nameAt names i name = numbered name n := by
  obtain ⟨hgroup, hpos, hle⟩ := h
  obtain ⟨i, hi, hnumber⟩ := Naming.exists_place hpos hle
  refine ⟨i, hi, hnumber, ?_⟩
  rw [nameAt, if_pos hgroup, hnumber]

theorem nameAt_cases (hi : names[i]? = some name) :
    names.count name = 1 ∧ nameAt names i name = name ∨
      Numbers names name ((names.take i).count name + 1) ∧
        nameAt names i name = numbered name ((names.take i).count name + 1) := by
  have hlt := count_take_lt_count hi
  unfold nameAt
  split
  · rename_i hgroup
    exact .inr ⟨⟨hgroup, by omega, by omega⟩, rfl⟩
  · exact .inl ⟨by omega, rfl⟩

end Numbers

/-! ## Numbered names -/

/-- What a number leaves of a name. -/
def cut (name : String) (n : Nat) : List Char :=
  name.toList.take (maxNameLength - (toString n).length)

/-- The longest beginning of a name that leaves room for so many digits. -/
structure LongestBase (name : String) (digits : Nat) (base : List Char) : Prop where
  begins : base <+: name.toList
  fits : base.length + digits ≤ maxNameLength
  longest : ∀ other, other <+: name.toList → other.length + digits ≤ maxNameLength →
    other.length ≤ base.length

/-- The numbered names of `name` and `m` and of `name'` and `n` are the same text, in which the
second number begins no later: the digits of `n` end with those of `m`, and the digits before them
are the end of what `m` leaves of `name`. -/
def RunsTogether (name : String) (m : Nat) (name' : String) (n : Nat) : Prop :=
  ∃ lead, (toString n).toList = lead ++ (toString m).toList ∧ cut name m = cut name' n ++ lead

section Numbered

variable {name name' : String} {m n size : Nat}

theorem numbered_eq (name : String) (n : Nat) :
    numbered name n = String.ofList (cut name n) ++ toString n := rfl

theorem toList_numbered (name : String) (n : Nat) :
    (numbered name n).toList = cut name n ++ (toString n).toList := by
  simp [numbered_eq]

/-- Two numbered names are the same exactly where they run together one way or the other. -/
theorem numbered_eq_iff : numbered name m = numbered name' n ↔
    RunsTogether name m name' n ∨ RunsTogether name' n name m := by
  rw [← String.toList_inj, toList_numbered, toList_numbered, List.append_eq_append_iff]
  constructor
  · rintro (⟨lead, hcut, hdigits⟩ | ⟨lead, hcut, hdigits⟩)
    · exact .inr ⟨lead, hdigits, hcut⟩
    · exact .inl ⟨lead, hdigits, hcut⟩
  · rintro (⟨lead, hdigits, hcut⟩ | ⟨lead, hdigits, hcut⟩)
    · exact .inr ⟨lead, hcut, hdigits⟩
    · exact .inl ⟨lead, hcut, hdigits⟩

theorem digits_inj (h : (toString m).toList = (toString n).toList) : m = n := by
  rw [Nat.toString_eq_repr, Nat.toString_eq_repr, Nat.toList_repr, Nat.toList_repr] at h
  have hvalue := congrArg (fun digits => Nat.ofDigitChars 10 digits 0) h
  simpa only [Nat.ofDigitChars_ten_toDigits] using hvalue

theorem isDigit_of_mem_toString {c : Char} (h : c ∈ (toString n).toList) : c.isDigit = true := by
  rw [Nat.toString_eq_repr, Nat.toList_repr] at h
  exact Nat.isDigit_of_mem_toDigits (by omega) (by omega) h

theorem length_toString_le (h : n ≤ size) : (toString n).length ≤ (toString size).length := by
  have hpos : 0 < (toString size).length := Nat.length_repr_pos
  have hsize : size < 10 ^ (toString size).length :=
    (Nat.length_repr_le_iff hpos).mp (Nat.le_refl _)
  exact (Nat.length_repr_le_iff hpos).mpr (by omega)

theorem length_cut_le (name : String) (n : Nat) :
    (cut name n).length ≤ maxNameLength - (toString n).length := by
  rw [cut, List.length_take]
  omega

/-- The cut takes no more than the number needs. -/
theorem longestBase_cut (name : String) (h : (toString n).length ≤ maxNameLength) :
    LongestBase name (toString n).length (cut name n) where
  begins := List.take_prefix _ _
  fits := by
    have hcut := length_cut_le name n
    omega
  longest other hother hfits := by
    have hlength := hother.length_le
    rw [cut, List.length_take]
    omega

theorem length_numbered_le (name : String) (h : (toString n).length ≤ maxNameLength) :
    (numbered name n).length ≤ maxNameLength := by
  have hcut := length_cut_le name n
  have hlength : (numbered name n).length = (cut name n).length + (toString n).length := by
    rw [← String.length_toList, toList_numbered, List.length_append, String.length_toList]
  omega

end Numbered

/-! ## Members that meet -/

/-- Two members of the batch have one name after the numbering only if some member had it before. -/
def MeetsOnlyGivenNames (indexes : List Index) : Prop :=
  ∀ (i j : Nat) (name : String), i < j → (resolvedNames indexes)[i]? = some name →
    (resolvedNames indexes)[j]? = some name → name ∈ indexes.map Index.name

/-- Two members of one name have different names after the numbering. -/
def KeepsGroupsApart (indexes : List Index) : Prop :=
  ∀ i j : Nat, i < j → j < indexes.length →
    (indexes.map Index.name)[i]? = (indexes.map Index.name)[j]? →
      (resolvedNames indexes)[i]? ≠ (resolvedNames indexes)[j]?

section Meeting

variable {names : List String} {name name' : String} {i j m n : Nat}

/-- Two members that meet are both numbered, or one is numbered and has the name of another. -/
theorem meeting_cases (hij : i < j) (hi : names[i]? = some name) (hj : names[j]? = some name')
    (h : nameAt names i name = nameAt names j name') :
    (∃ m n, Numbers names name m ∧ Numbers names name' n ∧ (name, m) ≠ (name', n) ∧
      nameAt names i name = numbered name m ∧ nameAt names j name' = numbered name' n) ∨
    ∃ given m, Numbers names given m ∧ nameAt names i name = numbered given m ∧
      numbered given m ∈ names := by
  rcases nameAt_cases hi with ⟨honce, hkept⟩ | ⟨hnumbers, hnumbered⟩
  · rcases nameAt_cases hj with ⟨-, hkept'⟩ | ⟨hnumbers', hnumbered'⟩
    · -- a name that stands at two places is numbered at both
      have hsame : name = name' := by rw [← hkept, h, hkept']
      subst hsame
      have hlt := count_take_lt hi hij
      have hlt' := count_take_lt_count hj
      omega
    · refine .inr ⟨name', _, hnumbers', by rw [h, hnumbered'], ?_⟩
      rw [← hnumbered', ← h, hkept]
      exact List.mem_of_getElem? hi
  · rcases nameAt_cases hj with ⟨-, hkept'⟩ | ⟨hnumbers', hnumbered'⟩
    · refine .inr ⟨name, _, hnumbers, hnumbered, ?_⟩
      rw [← hnumbered, h, hkept']
      exact List.mem_of_getElem? hj
    · refine .inl ⟨_, _, hnumbers, hnumbers', ?_, hnumbered, hnumbered'⟩
      intro hsame
      obtain ⟨rfl, hnumber⟩ := Prod.mk.inj hsame
      have hlt := count_take_lt hi hij
      omega

theorem exists_places (hm : Numbers names name m) (hn : Numbers names name' n)
    (hne : (name, m) ≠ (name', n)) :
    ∃ i j, i ≠ j ∧ names[i]? = some name ∧ names[j]? = some name' ∧
      nameAt names i name = numbered name m ∧ nameAt names j name' = numbered name' n := by
  obtain ⟨i, hi, hnumber, hname⟩ := hm.exists_place
  obtain ⟨j, hj, hnumber', hname'⟩ := hn.exists_place
  refine ⟨i, j, ?_, hi, hj, hname, hname'⟩
  rintro rfl
  obtain rfl := Option.some.inj (hi.symm.trans hj)
  exact hne (by rw [← hnumber, ← hnumber'])

/-- What runs together within a group does so at the end of a name that leaves no room for the
number. -/
theorem RunsTogether.eq_of_room (h : RunsTogether name m name n)
    (hroom : name.length + (toString n).length ≤ maxNameLength) : m = n := by
  obtain ⟨lead, hdigits, hcut⟩ := h
  have hlength : (toString n).length = lead.length + (toString m).length := by
    rw [← String.length_toList, hdigits, List.length_append, String.length_toList]
  have hcut_length : (cut name m).length = (cut name n).length + lead.length := by
    rw [hcut, List.length_append]
  have hnil : lead = [] := by
    rw [cut, cut, List.length_take, List.length_take, String.length_toList] at hcut_length
    apply List.eq_nil_of_length_eq_zero
    omega
  rw [hnil, List.nil_append] at hdigits
  exact (digits_inj hdigits).symm

end Meeting

section Batch

variable {indexes : List Index}

theorem resolvedNames_some {i : Nat} {name : String} (h : (resolvedNames indexes)[i]? = some name) :
    ∃ given, (indexes.map Index.name)[i]? = some given ∧
      nameAt (indexes.map Index.name) i given = name := by
  rw [getElem?_resolvedNames] at h
  exact Option.map_eq_some_iff.mp h

theorem getElem?_resolvedNames_of_some {i : Nat} {name : String}
    (h : (indexes.map Index.name)[i]? = some name) :
    (resolvedNames indexes)[i]? = some (nameAt (indexes.map Index.name) i name) := by
  rw [getElem?_resolvedNames, h, Option.map_some]

theorem meetsOnlyGivenNames_iff : MeetsOnlyGivenNames indexes ↔
    ∀ name m name' n, Numbers (indexes.map Index.name) name m →
      Numbers (indexes.map Index.name) name' n → (name, m) ≠ (name', n) →
      RunsTogether name m name' n → numbered name m ∈ indexes.map Index.name := by
  constructor
  · intro h name m name' n hm hn hne hruns
    obtain ⟨i, j, hij, hi, hj, hname, hname'⟩ := exists_places hm hn hne
    have hsame : numbered name m = numbered name' n := numbered_eq_iff.mpr (.inl hruns)
    have hi' := getElem?_resolvedNames_of_some hi
    have hj' := getElem?_resolvedNames_of_some hj
    rw [hname] at hi'
    rw [hname', ← hsame] at hj'
    rcases Nat.lt_or_gt_of_ne hij with hlt | hgt
    · exact h i j _ hlt hi' hj'
    · exact h j i _ hgt hj' hi'
  · intro h i j name hij hi hj
    obtain ⟨given, hgiven, rfl⟩ := resolvedNames_some hi
    obtain ⟨given', hgiven', hsame⟩ := resolvedNames_some hj
    rcases meeting_cases hij hgiven hgiven' hsame.symm with
      ⟨m, n, hm, hn, hne, hname, hname'⟩ | ⟨_, _, -, hname, hmem⟩
    · have hmeet : numbered given m = numbered given' n := by rw [← hname, ← hname', hsame]
      rw [hname]
      rcases numbered_eq_iff.mp hmeet with hruns | hruns
      · exact h given m given' n hm hn hne hruns
      · rw [hmeet]
        exact h given' n given m hn hm hne.symm hruns
    · rwa [hname]

theorem keepsGroupsApart_iff : KeepsGroupsApart indexes ↔
    ∀ name m n, Numbers (indexes.map Index.name) name m → Numbers (indexes.map Index.name) name n →
      m ≠ n → ¬ RunsTogether name m name n := by
  constructor
  · intro h name m n hm hn hne hruns
    have hsame : numbered name m = numbered name n := numbered_eq_iff.mpr (.inl hruns)
    obtain ⟨i, j, hij, hi, hj, hname, hname'⟩ := exists_places hm hn (by simp [hne])
    have hmeet : (resolvedNames indexes)[i]? = (resolvedNames indexes)[j]? := by
      rw [getElem?_resolvedNames_of_some hi, getElem?_resolvedNames_of_some hj, hname, hname',
        hsame]
    obtain ⟨hi_lt, -⟩ := List.getElem?_eq_some_iff.mp hi
    obtain ⟨hj_lt, -⟩ := List.getElem?_eq_some_iff.mp hj
    rw [List.length_map] at hi_lt hj_lt
    rcases Nat.lt_or_gt_of_ne hij with hlt | hgt
    · exact h i j hlt hj_lt (hi.trans hj.symm) hmeet
    · exact h j i hgt hi_lt (hj.trans hi.symm) hmeet.symm
  · intro h i j hij hj_lt hgroup hmeet
    obtain ⟨name, hj⟩ : ∃ name, (indexes.map Index.name)[j]? = some name :=
      ⟨_, List.getElem?_eq_getElem (by simpa using hj_lt)⟩
    have hi := hgroup.trans hj
    have hlt := count_take_lt hi hij
    have hlt' := count_take_lt_count hj
    -- a name that stands at two places is numbered at both
    rcases nameAt_cases hi with ⟨honce, -⟩ | ⟨hm, hname⟩
    · omega
    rcases nameAt_cases hj with ⟨honce, -⟩ | ⟨hn, hname'⟩
    · omega
    rw [getElem?_resolvedNames_of_some hi, getElem?_resolvedNames_of_some hj, Option.some.injEq,
      hname, hname'] at hmeet
    rcases numbered_eq_iff.mp hmeet with hruns | hruns
    · exact h name _ _ hm hn (by omega) hruns
    · exact h name _ _ hn hm (by omega) hruns

/-- A group stays apart if its name leaves room for the digits of its size. -/
theorem keepsGroupsApart_of_room
    (hroom : ∀ name ∈ indexes.map Index.name,
      name.length + (toString ((indexes.map Index.name).count name)).length ≤ maxNameLength) :
    KeepsGroupsApart indexes := by
  rw [keepsGroupsApart_iff]
  intro name m n hm hn hne hruns
  apply hne
  apply hruns.eq_of_room
  have hmem : name ∈ indexes.map Index.name := List.count_pos_iff.mp (by have := hm.1; omega)
  have hsize := hroom name hmem
  have hdigits : (toString n).length ≤ (toString ((indexes.map Index.name).count name)).length :=
    length_toString_le hn.2.2
  omega

end Batch

/-- Members of a batch meet under a name that none of them had just where numbered names of the
batch run together outside the names given, members of one group just where the numbers of one name
do. A name that leaves room for the digits of its group's size is not among them. -/
theorem numbered_members_apart_iff (indexes : List Index) :
    (MeetsOnlyGivenNames indexes ↔
      ∀ name m name' n, Numbers (indexes.map Index.name) name m →
        Numbers (indexes.map Index.name) name' n → (name, m) ≠ (name', n) →
        RunsTogether name m name' n → numbered name m ∈ indexes.map Index.name) ∧
    (KeepsGroupsApart indexes ↔
      ∀ name m n, Numbers (indexes.map Index.name) name m →
        Numbers (indexes.map Index.name) name n → m ≠ n → ¬ RunsTogether name m name n) ∧
    ((∀ name ∈ indexes.map Index.name,
        name.length + (toString ((indexes.map Index.name).count name)).length ≤ maxNameLength) →
      KeepsGroupsApart indexes) :=
  ⟨meetsOnlyGivenNames_iff, keepsGroupsApart_iff, keepsGroupsApart_of_room⟩

/-- A name of 62 characters that ends in a digit. -/
def crowdedName : String := String.ofList (List.replicate 61 'a' ++ ['1'])

def crowdedIndex (k : Nat) : Index where
  schema := "public"
  table := "t" ++ toString k
  name := crowdedName
  keyColumns := ["id"]

/-- Of eleven members of one group the first and the last have one name, which no member had: the
number 1 stands behind the digit of the name, the number 11 in its place. -/
theorem eleventh_member_meets_first :
    let batch := (List.range 11).map crowdedIndex
    let name := String.ofList (List.replicate 61 'a' ++ ['1', '1'])
    (∀ index ∈ batch, index.name.length ≤ maxNameLength) ∧
      (resolvedNames batch)[0]? = some name ∧ (resolvedNames batch)[10]? = some name ∧
      name ∉ batch.map Index.name ∧ ¬ KeepsGroupsApart batch ∧ ¬ MeetsOnlyGivenNames batch := by
  intro batch name
  have hnames : batch.map Index.name = List.replicate 11 crowdedName := rfl
  have hone : numbered crowdedName 1 = name := by decide +kernel
  have heleven : numbered crowdedName 11 = name := by decide +kernel
  have hfirst : (resolvedNames batch)[0]? = some name := by
    simp [getElem?_resolvedNames, hnames, nameAt, hone]
  have hlast : (resolvedNames batch)[10]? = some name := by
    simp [getElem?_resolvedNames, hnames, nameAt, heleven]
  have hnew : name ∉ batch.map Index.name := by
    rw [hnames, List.mem_replicate]
    decide +kernel
  have hlength : ∀ index ∈ batch, index.name.length ≤ maxNameLength := by
    intro index hindex
    have hname : index.name ∈ List.replicate 11 crowdedName := hnames ▸ List.mem_map_of_mem hindex
    rw [List.eq_of_mem_replicate hname]
    decide +kernel
  refine ⟨hlength, hfirst, hlast, hnew, ?_, ?_⟩
  · intro h
    exact h 0 10 (by omega) (by decide) rfl (hfirst.trans hlast.symm)
  · intro h
    exact hnew (h 0 10 name (by omega) hfirst hlast)

/-! ## Batches without any meeting -/

def endsInDigit (name : String) : Bool := name.toList.getLast?.any Char.isDigit

section Apart

variable {name name' : String} {m n : Nat}

theorem cut_of_room (h : name.length + (toString n).length ≤ maxNameLength) :
    cut name n = name.toList := by
  apply List.take_of_length_le
  rw [String.length_toList]
  omega

theorem endsInDigit_append {start : List Char} {name : String} {digits : List Char}
    (hname : name.toList = start ++ digits) (hne : digits ≠ [])
    (hdigits : ∀ c ∈ digits, c.isDigit = true) : endsInDigit name = true := by
  rw [endsInDigit, hname, List.getLast?_append_of_ne_nil _ hne,
    List.getLast?_eq_getLast_of_ne_nil hne]
  exact hdigits _ (List.getLast_mem hne)

theorem endsInDigit_numbered (name : String) (n : Nat) : endsInDigit (numbered name n) = true := by
  apply endsInDigit_append (toList_numbered name n)
  · rw [Nat.toString_eq_repr, Nat.toList_repr]
    exact Nat.toDigits_ne_nil
  · intro c hc
    exact isDigit_of_mem_toString hc

theorem RunsTogether.eq_of_not_endsInDigit (h : RunsTogether name m name' n)
    (hroom : name.length + (toString m).length ≤ maxNameLength)
    (hroom' : name'.length + (toString n).length ≤ maxNameLength)
    (hends : endsInDigit name = false) : (name, m) = (name', n) := by
  obtain ⟨lead, hdigits, hcut⟩ := h
  rw [cut_of_room hroom, cut_of_room hroom'] at hcut
  have hnil : lead = [] := by
    by_contra hne
    have hlead : ∀ c ∈ lead, c.isDigit = true := by
      intro c hc
      apply isDigit_of_mem_toString (n := n)
      rw [hdigits]
      exact List.mem_append_left _ hc
    rw [endsInDigit_append hcut hne hlead] at hends
    cases hends
  rw [hnil, List.append_nil, String.toList_inj] at hcut
  rw [hnil, List.nil_append] at hdigits
  rw [hcut, digits_inj hdigits]

end Apart

section Batch

variable {indexes : List Index}

theorem Numbers.length_digits_le {name : String} {n : Nat}
    (h : Numbers (indexes.map Index.name) name n) :
    (toString n).length ≤ (toString indexes.length).length := by
  apply length_toString_le
  calc n ≤ (indexes.map Index.name).count name := h.2.2
    _ ≤ (indexes.map Index.name).length := List.count_le_length
    _ = indexes.length := List.length_map ..

theorem length_size_le (hsize : indexes.length < 10 ^ maxNameLength) :
    (toString indexes.length).length ≤ maxNameLength :=
  (Nat.length_repr_le_iff (by decide)).mpr hsize

theorem member_numbered (hsize : indexes.length < 10 ^ maxNameLength) {i : Nat} {index : Index}
    (h : indexes[i]? = some index) :
    ∃ name, (resolveIndexCollisions indexes)[i]? = some { index with name } ∧
      ((indexes.map Index.name).count index.name = 1 → name = index.name) ∧
      (1 < (indexes.map Index.name).count index.name →
        let digits := toString (((indexes.map Index.name).take i).count index.name + 1)
        ∃ base, LongestBase index.name digits.length base ∧
          name = String.ofList base ++ digits) := by
  have hplace : (indexes.map Index.name)[i]? = some index.name := by
    rw [List.getElem?_map, h, Option.map_some]
  refine ⟨nameAt (indexes.map Index.name) i index.name, ?_, ?_, ?_⟩
  · rw [resolveIndexCollisions_eq_mapIdx, List.getElem?_mapIdx, h, Option.map_some]
  · intro honce
    rw [nameAt, if_neg (by omega)]
  · intro hgroup
    rcases nameAt_cases hplace with ⟨honce, -⟩ | ⟨hnumbers, hname⟩
    · omega
    · refine ⟨cut index.name _, longestBase_cut index.name ?_, hname⟩
      have hdigits := hnumbers.length_digits_le
      have hroom := length_size_le hsize
      omega

theorem length_resolved_le (hsize : indexes.length < 10 ^ maxNameLength)
    (hlength : ∀ index ∈ indexes, index.name.length ≤ maxNameLength) :
    ∀ index ∈ resolveIndexCollisions indexes, index.name.length ≤ maxNameLength := by
  intro index hindex
  obtain ⟨i, hi⟩ := List.getElem?_of_mem (List.mem_map_of_mem (f := Index.name) hindex)
  obtain ⟨name, hplace, hname⟩ := resolvedNames_some hi
  rw [← hname]
  rcases nameAt_cases hplace with ⟨-, hkept⟩ | ⟨hnumbers, hnumbered⟩
  · rw [hkept]
    obtain ⟨given, hgiven, rfl⟩ := List.mem_map.mp (List.mem_of_getElem? hplace)
    exact hlength given hgiven
  · rw [hnumbered]
    apply length_numbered_le
    have hdigits := hnumbers.length_digits_le
    have hroom := length_size_le hsize
    omega

theorem resolvedNames_nodup (hends : ∀ index ∈ indexes, endsInDigit index.name = false)
    (hroom : ∀ index ∈ indexes,
      index.name.length + (toString indexes.length).length ≤ maxNameLength) :
    (resolvedNames indexes).Nodup := by
  have hgiven : ∀ name ∈ indexes.map Index.name, endsInDigit name = false ∧
      name.length + (toString indexes.length).length ≤ maxNameLength := by
    intro name hname
    obtain ⟨index, hindex, rfl⟩ := List.mem_map.mp hname
    exact ⟨hends index hindex, hroom index hindex⟩
  rw [List.nodup_iff_getElem?_ne_getElem?]
  intro i j hij hj_lt hmeet
  have hj := List.getElem?_eq_getElem hj_lt
  obtain ⟨name', hplace', hname'⟩ := resolvedNames_some hj
  obtain ⟨name, hplace, hname⟩ := resolvedNames_some (hmeet.trans hj)
  rcases meeting_cases hij hplace hplace' (hname.trans hname'.symm) with
    ⟨m, n, hm, hn, hne, hnumbered, hnumbered'⟩ | ⟨given, m, -, -, hmem⟩
  · obtain ⟨hends, hlength⟩ := hgiven name (List.mem_of_getElem? hplace)
    obtain ⟨hends', hlength'⟩ := hgiven name' (List.mem_of_getElem? hplace')
    have hdigits := hm.length_digits_le
    have hdigits' := hn.length_digits_le
    have hsame : numbered name m = numbered name' n := by
      rw [← hnumbered, ← hnumbered', hname, hname']
    rcases numbered_eq_iff.mp hsame with hruns | hruns
    · exact hne (hruns.eq_of_not_endsInDigit (by omega) (by omega) hends)
    · exact hne (hruns.eq_of_not_endsInDigit (by omega) (by omega) hends').symm
  · -- a numbered name ends in a digit, so it is none of those given
    have hends := (hgiven _ hmem).1
    rw [endsInDigit_numbered] at hends
    cases hends

end Batch

/-- The numbering keeps the members of a batch in order and changes only names: a name that occurs
once stays, and the members of another have the longest beginning of it that leaves room for their
number among the members of that name, and the number. So names that fit still fit; and where no
name ends in a digit and each leaves room for the digits of the size of the batch, no two members
meet. With `10 ^ 63` members or more, which no list in memory has, a number would itself be longer
than a name, and no beginning would leave room for it. -/
theorem groups_numbered_in_order (indexes : List Index)
    (hsize : indexes.length < 10 ^ maxNameLength) :
    (resolveIndexCollisions indexes).length = indexes.length ∧
    (∀ (i : Nat) (index : Index), indexes[i]? = some index →
      ∃ name, (resolveIndexCollisions indexes)[i]? = some { index with name } ∧
        ((indexes.map Index.name).count index.name = 1 → name = index.name) ∧
        (1 < (indexes.map Index.name).count index.name →
          let digits := toString (((indexes.map Index.name).take i).count index.name + 1)
          ∃ base, LongestBase index.name digits.length base ∧
            name = String.ofList base ++ digits)) ∧
    ((∀ index ∈ indexes, index.name.length ≤ maxNameLength) →
      (∀ index ∈ resolveIndexCollisions indexes, index.name.length ≤ maxNameLength) ∧
      ((∀ index ∈ indexes, endsInDigit index.name = false) →
        (∀ index ∈ indexes,
          index.name.length + (toString indexes.length).length ≤ maxNameLength) →
        (resolvedNames indexes).Nodup)) := by
  refine ⟨?_, ?_, ?_⟩
  · rw [resolveIndexCollisions_eq_mapIdx, List.length_mapIdx]
  · intro i index h
    exact member_numbered hsize h
  · intro hlength
    exact ⟨length_resolved_le hsize hlength, resolvedNames_nodup⟩

/-- Two groups that take turns, and a name that occurs once. -/
theorem interleaved_groups_numbered :
    let index (table name : String) : Index := { schema := "public", table, name }
    let batch := [index "a" "ix", index "b" "iy", index "c" "ix", index "d" "iy", index "e" "iz"]
    batch.length < 10 ^ maxNameLength ∧
      resolvedNames batch = ["ix1", "iy1", "ix2", "iy2", "iz"] ∧ (resolvedNames batch).Nodup := by
  intro index batch
  have hsize : batch.length < 10 ^ maxNameLength := by decide +kernel
  obtain ⟨-, -, hnames⟩ := groups_numbered_in_order batch hsize
  obtain ⟨-, hapart⟩ := hnames (by decide +kernel)
  exact ⟨hsize, by decide +kernel, hapart (by decide +kernel) (by decide +kernel)⟩

end Migration.Naming
