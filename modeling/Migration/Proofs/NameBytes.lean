import Mathlib.Algebra.BigOperators.Group.List.Basic
import Mathlib.Algebra.GroupWithZero.Nat
import Migration.Proofs.CanonicalNames
import Migration.Proofs.NumberedNames
import Migration.Proofs.Spellings
import Migration.Text.Bytes

/-
  The bytes of target names.

  The limit of the target is in bytes, and it cuts a longer name off without a word. The
  policy and the numbering count characters. So a name of 63 characters or fewer may still
  be too long, by the bytes that its characters take beyond the first of each. This file

  1. proves that setting words apart and taking runs of underscores as one change nothing
     in these bytes, so that a canonical name has those of the small forms of its source
     name (`furtherBytes_canonicalForm`), wherever each character stands;
  2. says what the target keeps of a name (`keptName_eq_iff`) and which names become one
     there (`kept_same_iff`);
  3. concludes which translated and numbered names the target keeps
     (`translated_names_fit_iff`), and shows names that it cuts off and takes for one
     (`accented_names_become_one`). -/

namespace Migration.Naming

open Text (utf8ByteSize_ofList)

/-! ## Bytes beyond the characters -/

/-- The bytes that characters take beyond the first of each. -/
def furtherBytes (cs : List Char) : Nat := (cs.map fun c => c.utf8Size - 1).sum

@[simp] theorem furtherBytes_nil : furtherBytes [] = 0 := rfl

@[simp] theorem furtherBytes_cons (c : Char) (cs : List Char) :
    furtherBytes (c :: cs) = c.utf8Size - 1 + furtherBytes cs := by
  rw [furtherBytes, List.map_cons, List.sum_cons, furtherBytes]

theorem furtherBytes_append (cs ds : List Char) :
    furtherBytes (cs ++ ds) = furtherBytes cs + furtherBytes ds := by
  rw [furtherBytes, List.map_append, List.sum_append, furtherBytes, furtherBytes]

theorem furtherBytes_take_le (n : Nat) (cs : List Char) :
    furtherBytes (cs.take n) ≤ furtherBytes cs := by
  have hsplit := furtherBytes_append (cs.take n) (cs.drop n)
  rw [List.take_append_drop] at hsplit
  omega

theorem byteLength_eq (cs : List Char) : Text.byteLength cs = cs.length + furtherBytes cs := by
  induction cs with
  | nil => rfl
  | cons c rest ih =>
    have hpos := c.utf8Size_pos
    rw [Text.byteLength_cons, ih, List.length_cons, furtherBytes_cons]
    omega

theorem utf8ByteSize_eq (name : String) :
    name.utf8ByteSize = name.length + furtherBytes name.toList := by
  rw [← String.length_toList, ← byteLength_eq, Text.byteLength_toList]

/-! ## What the policy makes of them -/

/-- The further bytes of the small form of a character. -/
def smallFurtherBytes (c : Char) : Nat := furtherBytes (Text.lowerAt [] c [])

/-- The further bytes of the small forms of the characters of a name. -/
def loweredFurtherBytes (raw : String) : Nat := (raw.toList.map smallFurtherBytes).sum

theorem furtherBytes_lowerAt (before : List Char) (c : Char) (after : List Char) :
    furtherBytes (Text.lowerAt before c after) = smallFurtherBytes c := by
  rw [smallFurtherBytes]
  unfold Text.lowerAt
  by_cases hsigma : c = 'Σ'
  · -- of the two small forms of sigma each takes two bytes
    have hforms (final : Bool) : furtherBytes [if final then 'ς' else 'σ'] = 1 := by
      cases final <;> decide
    rw [if_pos hsigma, if_pos hsigma, hforms, hforms]
  · rw [if_neg hsigma, if_neg hsigma]

theorem furtherBytes_lowered (cs : List Char) :
    furtherBytes (Text.lowered cs) = (cs.map smallFurtherBytes).sum := by
  have behind : ∀ before, furtherBytes (Text.lowerAfter before cs) =
      (cs.map smallFurtherBytes).sum := by
    induction cs with
    | nil => exact fun _ => rfl
    | cons c rest ih =>
      intro before
      rw [Text.lowerAfter, furtherBytes_append, furtherBytes_lowerAt, ih, List.map_cons,
        List.sum_cons]
  exact behind []

section Separators

variable {f : Char → Nat}

/-- Setting words apart adds nothing to a sum to which underscores add nothing. -/
theorem sum_splitCapitalized (hf : f '_' = 0) (inWord : Bool) (cs : List Char) :
    ((splitCapitalized inWord cs).map f).sum = (cs.map f).sum := by
  fun_induction splitCapitalized inWord cs with
  | case1 inWord c u l rest h ih =>
    simp only [List.map_cons, List.sum_cons] at ih ⊢
    omega
  | case2 inWord c u l rest hword h ih =>
    simp only [List.map_cons, List.sum_cons] at ih ⊢
    omega
  | case3 inWord c u l rest hword h ih =>
    simp only [List.map_cons, List.sum_cons] at ih ⊢
    omega
  | case4 => rfl

theorem sum_splitLowerUpper (hf : f '_' = 0) (cs : List Char) :
    ((splitLowerUpper cs).map f).sum = (cs.map f).sum := by
  fun_induction splitLowerUpper cs with
  | case1 c u rest h ih =>
    simp only [List.map_cons, List.sum_cons] at ih ⊢
    omega
  | case2 c u rest h ih =>
    simp only [List.map_cons, List.sum_cons] at ih ⊢
    omega
  | case3 => rfl

theorem sum_collapse (hf : f '_' = 0) (cs : List Char) :
    ((collapse cs).map f).sum = (cs.map f).sum := by
  fun_induction collapse cs with
  | case1 c d rest h ih =>
    rw [ih, h.1, List.map_cons (a := '_'), List.sum_cons, hf, Nat.zero_add]
  | case2 c d rest h ih =>
    simp only [List.map_cons, List.sum_cons] at ih ⊢
    omega
  | case3 => rfl

end Separators

theorem smallFurtherBytes_of_ascii {c : Char} (h : c.toNat < 128) : smallFurtherBytes c = 0 := by
  have hascii : ∀ n ∈ List.range 128, smallFurtherBytes (Char.ofNat n) = 0 := by decide +kernel
  have hone := hascii c.toNat (List.mem_range.mpr h)
  rwa [Char.ofNat_toNat] at hone

/-- A canonical name has the further bytes of the small forms of its source name. -/
theorem furtherBytes_canonicalForm (raw : String) :
    furtherBytes (canonicalForm raw).toList = loweredFurtherBytes raw := by
  have hsmall : smallFurtherBytes '_' = 0 := smallFurtherBytes_of_ascii (by decide)
  rw [canonicalForm, String.toList_ofList, furtherBytes, sum_collapse rfl, ← furtherBytes,
    furtherBytes_lowered, sum_splitLowerUpper hsmall, sum_splitCapitalized hsmall,
    loweredFurtherBytes]

theorem loweredFurtherBytes_of_ascii {raw : String} (h : ∀ c ∈ raw.toList, c.toNat < 128) :
    loweredFurtherBytes raw = 0 := by
  apply List.sum_eq_zero
  intro bytes hbytes
  obtain ⟨c, hc, rfl⟩ := List.mem_map.mp hbytes
  exact smallFurtherBytes_of_ascii (h c hc)

theorem loweredFurtherBytes_eq_toLower (raw : String) :
    loweredFurtherBytes raw = ((raw.toList.map Char.toLower).map smallFurtherBytes).sum := by
  have hascii : ∀ n ∈ List.range' 65 26,
      (Char.ofNat n).toLower.toNat < 128 ∧ (Char.ofNat n).toNat < 128 := by decide
  have hcase : ∀ c : Char, smallFurtherBytes c.toLower = smallFurtherBytes c :=
    map_toLower_invariant fun n hn => by
      rw [smallFurtherBytes_of_ascii (hascii n hn).1, smallFurtherBytes_of_ascii (hascii n hn).2]
  rw [loweredFurtherBytes, List.map_map]
  congr 2
  funext c
  exact (hcase c).symm

theorem loweredFurtherBytes_aliasSchema (raw : String) :
    loweredFurtherBytes (aliasSchema raw) = loweredFurtherBytes raw := by
  rw [aliasSchema]
  split
  · rename_i hdefault
    rw [Text.sameIgnoringAsciiCase, beq_iff_eq] at hdefault
    rw [loweredFurtherBytes_eq_toLower raw, hdefault, ← loweredFurtherBytes_eq_toLower,
      loweredFurtherBytes_of_ascii (by simp), loweredFurtherBytes_of_ascii (by simp)]
  · rfl

section Policy

variable {kind : ObjectKind} {raw : String} {target : TargetName}

theorem canonicalForm_of_apply (h : NamingPolicy.canonicalizing.apply kind raw = .ok target) :
    canonicalForm (if kind = .schema then aliasSchema raw else raw) = target.name ∧
      target.name.length ≤ maxNameLength :=
  canonicalize_ok_iff.mp (congrArg (Except.map TargetName.name) h)

theorem utf8ByteSize_of_apply (h : NamingPolicy.canonicalizing.apply kind raw = .ok target) :
    target.name.utf8ByteSize = target.name.length + loweredFurtherBytes raw := by
  rw [utf8ByteSize_eq, ← (canonicalForm_of_apply h).1, furtherBytes_canonicalForm]
  split
  · rw [loweredFurtherBytes_aliasSchema]
  · rfl

end Policy

/-! ## What the numbering makes of them -/

/-- What the numbering leaves of a name at a place among the names. -/
def stemAt (names : List String) (i : Nat) (name : String) : List Char :=
  if 1 < names.count name then cut name ((names.take i).count name + 1) else name.toList

theorem furtherBytes_digits (n : Nat) : furtherBytes (toString n).toList = 0 := by
  apply List.sum_eq_zero
  intro bytes hbytes
  obtain ⟨c, hc, rfl⟩ := List.mem_map.mp hbytes
  have hdigit := isDigit_of_mem_toString hc
  rw [Char.isDigit, Bool.and_eq_true, decide_eq_true_iff, decide_eq_true_iff] at hdigit
  have hascii : c.val ≤ 127 := UInt32.le_trans hdigit.2 (by decide)
  show c.utf8Size - 1 = 0
  rw [Char.utf8Size_eq_one_iff.mpr hascii]

theorem utf8ByteSize_nameAt (names : List String) (i : Nat) (name : String) :
    (nameAt names i name).utf8ByteSize =
      (nameAt names i name).length + furtherBytes (stemAt names i name) := by
  rw [utf8ByteSize_eq, nameAt, stemAt]
  split
  · rw [toList_numbered, furtherBytes_append, furtherBytes_digits]
    exact congrArg _ (Nat.add_zero _)
  · rfl

/-! ## What the target keeps -/

def maxNameBytes : Nat := 63

/-- What the target keeps of a name: the characters that end within its first bytes. -/
def keptName (name : String) : String :=
  String.ofList (Text.splitBytes maxNameBytes name.toList).1

/-- Nothing of what follows a beginning is kept: the name ends there, or its next character reaches
beyond the last byte. -/
def EndsKept (start more : List Char) : Prop :=
  ∀ c ∈ more.head?, maxNameBytes < Text.byteLength start + c.utf8Size

/-- The names are the same as far as the target keeps them. -/
def CutTogether (name name' : String) : Prop :=
  ∃ start more more', name.toList = start ++ more ∧ name'.toList = start ++ more' ∧
    Text.byteLength start ≤ maxNameBytes ∧ EndsKept start more ∧ EndsKept start more'

theorem byteLength_splitBytes_le (n : Nat) (cs : List Char) :
    Text.byteLength (Text.splitBytes n cs).1 ≤ n := by
  induction cs generalizing n with
  | nil => exact Nat.zero_le n
  | cons c rest ih =>
    rw [Text.splitBytes]
    split
    · exact Nat.zero_le n
    · have hrest := ih (n - c.utf8Size)
      show c.utf8Size + Text.byteLength (Text.splitBytes (n - c.utf8Size) rest).1 ≤ n
      omega

theorem lt_of_splitBytes (n : Nat) (cs : List Char) : ∀ c ∈ (Text.splitBytes n cs).2.head?,
    n < Text.byteLength (Text.splitBytes n cs).1 + c.utf8Size := by
  induction cs generalizing n with
  | nil => nofun
  | cons d rest ih =>
    rw [Text.splitBytes]
    split
    · rename_i hbeyond
      intro c hc
      obtain rfl : d = c := Option.some.inj hc
      exact Nat.lt_of_lt_of_le hbeyond (Nat.le_add_left _ _)
    · intro c hc
      have hrest := ih (n - d.utf8Size) c hc
      show n < d.utf8Size + Text.byteLength (Text.splitBytes (n - d.utf8Size) rest).1 + c.utf8Size
      omega

theorem splitBytes_of_ends {n : Nat} {start more : List Char} (hfits : Text.byteLength start ≤ n)
    (hends : ∀ c ∈ more.head?, n < Text.byteLength start + c.utf8Size) :
    Text.splitBytes n (start ++ more) = (start, more) := by
  induction start generalizing n with
  | nil =>
    cases more with
    | nil => rfl
    | cons c rest =>
      have hbeyond := hends c rfl
      rw [Text.byteLength_nil, Nat.zero_add] at hbeyond
      rw [List.nil_append, Text.splitBytes, if_pos hbeyond]
  | cons d start ih =>
    rw [Text.byteLength_cons] at hfits hends
    have hrest : Text.splitBytes (n - d.utf8Size) (start ++ more) = (start, more) := by
      apply ih (by omega)
      intro c hc
      have hend := hends c hc
      omega
    rw [List.cons_append, Text.splitBytes, if_neg (by omega), hrest]

theorem keptName_eq_iff {name kept : String} :
    keptName name = kept ↔ ∃ more, name.toList = kept.toList ++ more ∧
      Text.byteLength kept.toList ≤ maxNameBytes ∧ EndsKept kept.toList more := by
  rw [keptName]
  constructor
  · rintro rfl
    rw [String.toList_ofList]
    exact ⟨_, (Text.splitBytes_append _ _).symm, byteLength_splitBytes_le _ _, lt_of_splitBytes _ _⟩
  · rintro ⟨more, hname, hfits, hends⟩
    rw [hname, splitBytes_of_ends hfits hends, String.ofList_toList]

/-- The target keeps just the names that fit. -/
theorem keptName_eq_self_iff {name : String} :
    keptName name = name ↔ name.utf8ByteSize ≤ maxNameBytes := by
  rw [keptName_eq_iff, utf8ByteSize_eq, ← String.length_toList, ← byteLength_eq]
  constructor
  · rintro ⟨more, -, hfits, -⟩
    exact hfits
  · intro hfits
    exact ⟨[], (List.append_nil _).symm, hfits, nofun⟩

theorem kept_same_iff {name name' : String} :
    keptName name = keptName name' ↔ CutTogether name name' := by
  constructor
  · intro h
    obtain ⟨more, hname, hfits, hends⟩ := keptName_eq_iff.mp h
    obtain ⟨more', hname', -, hends'⟩ := keptName_eq_iff.mp (rfl : keptName name' = _)
    exact ⟨_, more, more', hname, hname', hfits, hends, hends'⟩
  · rintro ⟨start, more, more', hname, hname', hfits, hends, hends'⟩
    have hkept {name : String} {more : List Char} (hname : name.toList = start ++ more)
        (hends : EndsKept start more) : keptName name = String.ofList start :=
      keptName_eq_iff.mpr ⟨more, by rwa [String.toList_ofList],
        by rwa [String.toList_ofList], by rwa [String.toList_ofList]⟩
    rw [hkept hname hends, hkept hname' hends']

/-! ## Names that fit -/

/-- The canonicalizing policy gives the name to a source name of ASCII characters. -/
def FromAscii (name : String) : Prop :=
  ∃ kind raw target, (∀ c ∈ raw.toList, c.toNat < 128) ∧
    NamingPolicy.canonicalizing.apply kind raw = .ok target ∧ target.name = name

theorem furtherBytes_of_fromAscii {name : String} (h : FromAscii name) :
    furtherBytes name.toList = 0 ∧ name.length ≤ maxNameLength := by
  obtain ⟨kind, raw, target, hascii, happly, rfl⟩ := h
  have hbytes := utf8ByteSize_of_apply happly
  rw [utf8ByteSize_eq, loweredFurtherBytes_of_ascii hascii] at hbytes
  exact ⟨by omega, (canonicalForm_of_apply happly).2⟩

theorem furtherBytes_stemAt_le (names : List String) (i : Nat) (name : String) :
    furtherBytes (stemAt names i name) ≤ furtherBytes name.toList := by
  rw [stemAt]
  split
  · exact furtherBytes_take_le _ _
  · exact Nat.le_refl _

/-- A translated name fits the target exactly where its characters and the further bytes of the
small forms of its source name are at most 63, a numbered one where its characters and the further
bytes of what the number leaves are. Names that come from ASCII names fit. Different names become
one on the target exactly where they are the same as far as it keeps them, which names that fit are
not. -/
theorem translated_names_fit_iff (kind : ObjectKind) (raw : String) (indexes : List Index) :
    (∀ target, NamingPolicy.canonicalizing.apply kind raw = .ok target →
      (target.name.utf8ByteSize ≤ maxNameBytes ↔
        target.name.length + loweredFurtherBytes raw ≤ maxNameBytes) ∧
      ((∀ c ∈ raw.toList, c.toNat < 128) → target.name.utf8ByteSize ≤ maxNameBytes)) ∧
    (∀ (i : Nat) (given index : Index), indexes[i]? = some given →
      (resolveIndexCollisions indexes)[i]? = some index →
      (index.name.utf8ByteSize ≤ maxNameBytes ↔
        index.name.length + furtherBytes (stemAt (indexes.map Index.name) i given.name) ≤
          maxNameBytes)) ∧
    (indexes.length < 10 ^ maxNameLength → (∀ given ∈ indexes, FromAscii given.name) →
      ∀ index ∈ resolveIndexCollisions indexes, index.name.utf8ByteSize ≤ maxNameBytes) ∧
    ∀ name name', name ≠ name' →
      (keptName name = keptName name' ↔ CutTogether name name') ∧
      (name.utf8ByteSize ≤ maxNameBytes → name'.utf8ByteSize ≤ maxNameBytes →
        keptName name ≠ keptName name') := by
  refine ⟨?_, ?_, ?_, ?_⟩
  · intro target h
    refine ⟨by rw [utf8ByteSize_of_apply h], fun hascii => ?_⟩
    obtain ⟨hbytes, hlength⟩ := furtherBytes_of_fromAscii ⟨kind, raw, target, hascii, h, rfl⟩
    rw [utf8ByteSize_eq, hbytes]
    exact hlength
  · intro i given index hgiven hindex
    rw [resolveIndexCollisions_eq_mapIdx, List.getElem?_mapIdx, hgiven] at hindex
    obtain rfl := Option.some.inj hindex
    rw [utf8ByteSize_nameAt]
  · intro hsize hascii index hindex
    have hlength := length_resolved_le hsize
      (fun given hgiven => (furtherBytes_of_fromAscii (hascii given hgiven)).2) index hindex
    rw [resolveIndexCollisions_eq_mapIdx] at hindex
    obtain ⟨i, hi, rfl⟩ := List.mem_mapIdx.mp hindex
    have hbytes := (furtherBytes_of_fromAscii (hascii _ (List.getElem_mem hi))).1
    have hstem := furtherBytes_stemAt_le (indexes.map Index.name) i indexes[i].name
    rw [utf8ByteSize_nameAt]
    change (nameAt (indexes.map Index.name) i indexes[i].name).length ≤ maxNameLength at hlength
    rw [maxNameLength] at hlength
    rw [maxNameBytes]
    omega
  · intro name name' hne
    refine ⟨kept_same_iff, ?_⟩
    intro hfits hfits' hsame
    rw [keptName_eq_self_iff.mpr hfits, keptName_eq_self_iff.mpr hfits'] at hsame
    exact hne hsame

/-- Three characters of two bytes each in a short name. -/
theorem accented_name_fits :
    NamingPolicy.canonicalizing.apply .column "GrößeDesBüros" = .ok ⟨"größe_des_büros", true⟩ ∧
      "größe_des_büros".utf8ByteSize ≤ maxNameBytes := by
  have h : NamingPolicy.canonicalizing.apply .column "GrößeDesBüros" =
        .ok ⟨"größe_des_büros", true⟩ ∧
      "größe_des_büros".length + loweredFurtherBytes "GrößeDesBüros" ≤ maxNameBytes := by
    decide +kernel
  obtain ⟨hpolicy, -⟩ := translated_names_fit_iff .column "GrößeDesBüros" []
  exact ⟨h.1, (hpolicy _ h.1).1.mpr h.2⟩

/-- A name of so many accented letters and an ending. -/
def accented (n : Nat) (ending : String) : String :=
  String.ofList (List.replicate n 'é' ++ ending.toList)

theorem toList_accented (n : Nat) (ending : String) :
    (accented n ending).toList = List.replicate n 'é' ++ ending.toList := by
  rw [accented, String.toList_ofList]

theorem apply_accented {n : Nat} {ending : String}
    (settled : ending.toList.all (fun c => decide (Settled c ∧ c ≠ '_')) = true)
    (fits : n + ending.toList.length ≤ maxNameLength) :
    NamingPolicy.canonicalizing.apply .table (accented n ending) =
      .ok ⟨accented n ending, false⟩ := by
  have hchars : ∀ c ∈ (accented n ending).toList, Settled c ∧ c ≠ '_' := by
    intro c hc
    rw [toList_accented, List.mem_append] at hc
    rcases hc with hc | hc
    · rw [List.eq_of_mem_replicate hc]
      decide
    · exact of_decide_eq_true (List.all_eq_true.mp settled c hc)
  have hsingle : (accented n ending).toList.Pairwise NotBothUnderscores :=
    List.pairwise_of_forall_mem_list fun c hc d _ (hboth : c = '_' ∧ d = '_') =>
      (hchars c hc).2 hboth.1
  show canonicalize (accented n ending) = .ok ⟨accented n ending, false⟩
  apply canonicalize_of_canonical ⟨fun c hc => (hchars c hc).1, hsingle.isChain⟩
  rwa [← String.length_toList, toList_accented, List.length_append, List.length_replicate]

theorem numbered_accented {n ordinal : Nat} (fits : n + (toString ordinal).length ≤ maxNameLength) :
    numbered (accented n "") ordinal = accented n (toString ordinal) := by
  have hroom : (List.replicate n 'é').length ≤ maxNameLength - (toString ordinal).length := by
    rw [List.length_replicate]
    omega
  rw [← String.toList_inj, toList_numbered, cut, toList_accented, toList_accented,
    String.toList_empty, List.append_nil, List.take_of_length_le hroom]

/-- What two names have in common up to the last byte that is kept is all that is kept of them. -/
theorem keptName_accented {n : Nat} {ending ending' : String} {start : List Char} {c c' : Char}
    {more more' : List Char} (h : (accented n ending).toList = start ++ c :: more)
    (h' : (accented n ending').toList = start ++ c' :: more')
    (fits : Text.byteLength start ≤ maxNameBytes)
    (ends : maxNameBytes < Text.byteLength start + c.utf8Size)
    (ends' : maxNameBytes < Text.byteLength start + c'.utf8Size) :
    keptName (accented n ending) = keptName (accented n ending') := by
  refine kept_same_iff.mpr ⟨start, _, _, h, h', fits, fun d hd => ?_, fun d hd => ?_⟩
  · obtain rfl := Option.some.inj hd
    exact ends
  · obtain rfl := Option.some.inj hd
    exact ends'

/-- The policy takes names that the target cuts off: one of 32 letters with 64 bytes, two that
differ in their last letter and become one, and an index name whose two numbers are both cut off. -/
theorem accented_names_become_one :
    NamingPolicy.canonicalizing.apply .table (accented 32 "") = .ok ⟨accented 32 "", false⟩ ∧
    ¬ (accented 32 "").utf8ByteSize ≤ maxNameBytes ∧
    NamingPolicy.canonicalizing.apply .table (accented 31 "xa") = .ok ⟨accented 31 "xa", false⟩ ∧
    NamingPolicy.canonicalizing.apply .table (accented 31 "xb") = .ok ⟨accented 31 "xb", false⟩ ∧
    accented 31 "xa" ≠ accented 31 "xb" ∧
    keptName (accented 31 "xa") = keptName (accented 31 "xb") ∧
    let index (table : String) : Index := { schema := "public", table, name := accented 32 "" }
    resolvedNames [index "a", index "b"] = [accented 32 "1", accented 32 "2"] ∧
    keptName (accented 32 "1") = keptName (accented 32 "2") := by
  have hbytes : ¬ (accented 32 "").utf8ByteSize ≤ maxNameBytes := by
    rw [accented, utf8ByteSize_ofList]
    decide
  have hne : accented 31 "xa" ≠ accented 31 "xb" := by
    intro h
    have hlists := congrArg String.toList h
    rw [toList_accented, toList_accented] at hlists
    exact absurd (List.append_cancel_left hlists) (by decide)
  have hletters : keptName (accented 31 "xa") = keptName (accented 31 "xb") := by
    have hends (c : Char) (ending : String) (h : ending.toList = ['x', c]) :
        (accented 31 ending).toList = (List.replicate 31 'é' ++ ['x']) ++ [c] := by
      rw [toList_accented, h, List.append_assoc]
      rfl
    exact keptName_accented (hends 'a' "xa" rfl) (hends 'b' "xb" rfl) (by decide) (by decide)
      (by decide)
  have hnumbers : keptName (accented 32 "1") = keptName (accented 32 "2") := by
    have hends (c : Char) (ending : String) (h : ending.toList = [c]) :
        (accented 32 ending).toList = List.replicate 31 'é' ++ 'é' :: [c] := by
      rw [toList_accented, h, List.replicate_succ', List.append_assoc]
      rfl
    exact keptName_accented (hends '1' "1" rfl) (hends '2' "2" rfl) (by decide) (by decide)
      (by decide)
  have hresolved (a b : Index) (ha : a.name = accented 32 "") (hb : b.name = accented 32 "") :
      resolvedNames [a, b] = [accented 32 "1", accented 32 "2"] := by
    have hfirst : numbered (accented 32 "") 1 = accented 32 "1" := numbered_accented (by decide)
    have hsecond : numbered (accented 32 "") 2 = accented 32 "2" := numbered_accented (by decide)
    simp [resolvedNames, resolveIndexCollisions, numberFrom, ha, hb, hfirst, hsecond]
  exact ⟨apply_accented (by decide) (by decide), hbytes, apply_accented (by decide) (by decide),
    apply_accented (by decide) (by decide), hne, hletters, hresolved _ _ rfl rfl, hnumbers⟩

end Migration.Naming
