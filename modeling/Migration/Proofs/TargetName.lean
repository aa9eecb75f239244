import Migration.Substitution

/-
  Which target name a name in a module gets.

  `targetName` asks the ledger, then the reserved names, then the canonical form.
  `NameFor` says the same by cases that exclude each other, and `NoNameFor` says why
  a name has none: the ledger has two new names for it, or its canonical form is too
  long. What is proved: the function finds a name exactly where the relation has it,
  and fails exactly as the relation says (`targetName_ok_iff`,
  `targetName_error_iff`).
-/

namespace Migration

open Naming (Ledger Renaming TargetName canonicalize)

/-! ## Distinct new names -/

theorem mem_firstOccurrences {s : String} {names : List String} :
    s ∈ firstOccurrences names ↔ s ∈ names := by
  induction names with
  | nil => rfl
  | cons n rest ih =>
    simp only [firstOccurrences, List.mem_cons, List.mem_filter, ih, decide_eq_true_eq]
    constructor
    · rintro (h | ⟨h, -⟩)
      · exact .inl h
      · exact .inr h
    · rintro (h | h)
      · exact .inl h
      · by_cases hs : s = n
        · exact .inl hs
        · exact .inr ⟨h, hs⟩

theorem find?_firstOccurrences (p : String → Bool) (names : List String) :
    (firstOccurrences names).find? p = names.find? p := by
  induction names generalizing p with
  | nil => rfl
  | cons n rest ih =>
    rw [firstOccurrences, List.find?_cons, List.find?_cons]
    cases hp : p n with
    | true => rfl
    | false =>
      -- a name with the property is not `n`, so nothing is lost where `n` is taken out
      have hpne : (fun s => decide (decide (s ≠ n) = true ∧ p s = true)) = p := by
        funext s
        by_cases hs : s = n
        · simp [hs, hp]
        · simp [hs]
      rw [List.find?_filter, hpne, ih]

/-- Two distinct names: the first, and the first that differs from it. -/
theorem firstOccurrences_two {names rest : List String} {first second : String}
    (h : firstOccurrences names = first :: second :: rest) :
    ∃ same later, names = first :: (same ++ second :: later) ∧ (∀ s ∈ same, s = first) ∧
      second ≠ first := by
  cases names with
  | nil => cases h
  | cons n later =>
    rw [firstOccurrences, List.cons.injEq] at h
    obtain ⟨rfl, h⟩ := h
    have hfind : later.find? (fun s => decide (s ≠ n)) = some second := by
      rw [← find?_firstOccurrences, ← List.head?_filter, h]
      rfl
    obtain ⟨hne, same, after, hlater, hsame⟩ := List.find?_eq_some_iff_append.mp hfind
    refine ⟨same, after, by rw [hlater], fun s hs => ?_, by simpa using hne⟩
    simpa using hsame s hs

theorem firstOccurrences_of_two {same : List String} (later : List String) {first second : String}
    (hsame : ∀ s ∈ same, s = first) (hne : second ≠ first) :
    ∃ rest, firstOccurrences (first :: (same ++ second :: later)) = first :: second :: rest := by
  have hfind : (same ++ second :: later).find? (fun s => decide (s ≠ first)) = some second := by
    refine List.find?_eq_some_iff_append.mpr ⟨by simpa using hne, same, later, rfl, fun s hs => ?_⟩
    simpa using hsame s hs
  rw [← find?_firstOccurrences, ← List.head?_filter] at hfind
  obtain ⟨rest, hrest⟩ := List.head?_eq_some_iff.mp hfind
  exact ⟨rest, by rw [firstOccurrences, hrest]⟩

/-! ## Recorded names -/

/-- The ledger holds the renaming for a name that differs from `raw` at most in case. -/
def RecordedFor (ledger : Ledger) (raw : String) (r : Renaming) : Prop :=
  r ∈ ledger.entries ∧ Text.lowercase r.oldName = Text.lowercase raw

/-- The new names that the ledger has for a name, oldest first. -/
def newNames (ledger : Ledger) (raw : String) : List String :=
  (ledger.findByRawName raw).map (·.newName)

theorem mem_newNames {ledger : Ledger} {raw name : String} :
    name ∈ newNames ledger raw ↔ ∃ r, RecordedFor ledger raw r ∧ r.newName = name := by
  simp only [newNames, List.mem_map, Ledger.mem_findByRawName, RecordedFor]

theorem newNames_eq_nil_iff {ledger : Ledger} {raw : String} :
    newNames ledger raw = [] ↔ ∀ r, ¬ RecordedFor ledger raw r := by
  rw [List.eq_nil_iff_forall_not_mem]
  constructor
  · intro h r hr
    exact h r.newName (mem_newNames.mpr ⟨r, hr, rfl⟩)
  · intro h name hname
    obtain ⟨r, hr, -⟩ := mem_newNames.mp hname
    exact h r hr

/-- The ledger has two new names for a name: the first recorded, and the first that differs. -/
def Disagrees (ledger : Ledger) (raw first second : String) : Prop :=
  ∃ same later, newNames ledger raw = first :: (same ++ second :: later) ∧
    (∀ s ∈ same, s = first) ∧ second ≠ first

theorem recordedName_none_iff {ledger : Ledger} {raw : String} :
    recordedName ledger raw = .ok none ↔ ∀ r, ¬ RecordedFor ledger raw r := by
  rw [← newNames_eq_nil_iff]
  unfold recordedName newNames
  constructor
  · intro h
    split at h
    · rename_i hnames
      rw [List.eq_nil_iff_forall_not_mem] at hnames ⊢
      exact fun s hs => hnames s (mem_firstOccurrences.mpr hs)
    · cases h
    · cases h
  · intro h
    rw [h]
    rfl

theorem recordedName_some_iff {ledger : Ledger} {raw name : String} :
    recordedName ledger raw = .ok (some name) ↔
      (∃ r, RecordedFor ledger raw r) ∧ ∀ r, RecordedFor ledger raw r → r.newName = name := by
  unfold recordedName
  constructor
  · intro h
    split at h
    · cases h
    · rename_i only hnames
      cases h
      have hall : ∀ s, s ∈ newNames ledger raw ↔ s = name := by
        intro s
        rw [newNames, ← mem_firstOccurrences, hnames, List.mem_singleton]
      obtain ⟨r, hr, -⟩ := mem_newNames.mp ((hall name).mpr rfl)
      exact ⟨⟨r, hr⟩, fun s hs => (hall s.newName).mp (mem_newNames.mpr ⟨s, hs, rfl⟩)⟩
    · cases h
  · rintro ⟨⟨r, hr⟩, hall⟩
    have hnames : ∀ s ∈ newNames ledger raw, s = name := by
      intro s hs
      obtain ⟨t, ht, rfl⟩ := mem_newNames.mp hs
      exact hall t ht
    have hmem : name ∈ newNames ledger raw := mem_newNames.mpr ⟨r, hr, hall r hr⟩
    split
    · rename_i hnil
      rw [← mem_firstOccurrences, newNames, hnil] at hmem
      cases hmem
    · rename_i only honly
      have : only ∈ newNames ledger raw := by
        rw [← mem_firstOccurrences, newNames, honly]
        exact List.mem_singleton_self only
      rw [hnames only this]
    · rename_i first second rest htwo
      obtain ⟨same, later, heq, -, hne⟩ := firstOccurrences_two htwo
      have hfirst : first ∈ newNames ledger raw := by rw [newNames, heq]; simp
      have hsecond : second ∈ newNames ledger raw := by rw [newNames, heq]; simp
      exact absurd ((hnames second hsecond).trans (hnames first hfirst).symm) hne

theorem recordedName_error_iff {ledger : Ledger} {raw : String} {e : MigrationError} :
    recordedName ledger raw = .error e ↔
      ∃ first second, Disagrees ledger raw first second ∧
        e = .ambiguousMapping "" none raw first second := by
  unfold recordedName
  constructor
  · intro h
    split at h
    · cases h
    · cases h
    · rename_i first second rest htwo
      cases h
      exact ⟨first, second, firstOccurrences_two htwo, rfl⟩
  · rintro ⟨first, second, ⟨same, later, hnames, hsame, hne⟩, rfl⟩
    obtain ⟨rest, hrest⟩ := firstOccurrences_of_two later hsame hne
    rw [← hnames, newNames] at hrest
    rw [hrest]

/-! ## Target names -/

/-- No reserved name differs from `raw` at most in ASCII case. -/
def Unreserved (reserved : List String) (raw : String) : Prop :=
  ∀ s ∈ reserved, Text.sameIgnoringAsciiCase s raw = false

/-- The target names of names in a module. -/
inductive NameFor (ledger : Ledger) (reserved : List String) (raw : String) : String → Prop where
  /-- The one new name of all renamings for the name. -/
  | recorded {name : String} (known : ∃ r, RecordedFor ledger raw r)
      (agree : ∀ r, RecordedFor ledger raw r → r.newName = name) : NameFor ledger reserved raw name
  /-- The first reserved name that it is, without a renaming. -/
  | reserved {before after : List String} {name : String}
      (unknown : ∀ r, ¬ RecordedFor ledger raw r) (listed : reserved = before ++ name :: after)
      (first : Unreserved before raw) (same : Text.sameIgnoringAsciiCase name raw = true) :
      NameFor ledger reserved raw name
  /-- Its canonical form, where it is not reserved either. -/
  | canonical {target : TargetName} (unknown : ∀ r, ¬ RecordedFor ledger raw r)
      (unreserved : Unreserved reserved raw) (fits : canonicalize raw = .ok target) :
      NameFor ledger reserved raw target.name

/-- Why a name in a module has no target name. -/
inductive NoNameFor (ledger : Ledger) (reserved : List String) (raw : String) :
    MigrationError → Prop where
  | ambiguous {first second : String} (disagree : Disagrees ledger raw first second) :
      NoNameFor ledger reserved raw (.ambiguousMapping "" none raw first second)
  | tooLong {e : MigrationError} (unknown : ∀ r, ¬ RecordedFor ledger raw r)
      (unreserved : Unreserved reserved raw) (refused : canonicalize raw = .error e) :
      NoNameFor ledger reserved raw e

theorem find?_reserved_none_iff {reserved : List String} {raw : String} :
    reserved.find? (Text.sameIgnoringAsciiCase · raw) = none ↔ Unreserved reserved raw := by
  rw [List.find?_eq_none]
  simp only [Bool.not_eq_true, Unreserved]

theorem find?_reserved_some_iff {reserved : List String} {raw name : String} :
    reserved.find? (Text.sameIgnoringAsciiCase · raw) = some name ↔
      Text.sameIgnoringAsciiCase name raw = true ∧
        ∃ before after, reserved = before ++ name :: after ∧ Unreserved before raw := by
  rw [List.find?_eq_some_iff_append]
  simp only [Bool.not_eq_true', Unreserved]

/-- The name that the ledger has goes first. -/
theorem targetName_recorded {ledger : Ledger} {raw name : String} (reserved : List String)
    (h : recordedName ledger raw = .ok (some name)) :
    targetName ledger reserved raw = .ok name := by
  rw [targetName, h]
  rfl

theorem targetName_refused {ledger : Ledger} {raw : String} {e : MigrationError}
    (reserved : List String) (h : recordedName ledger raw = .error e) :
    targetName ledger reserved raw = .error e := by
  rw [targetName, h]
  rfl

/-- Without a recorded name the reserved names are asked, then the canonical form. -/
theorem targetName_unrecorded {ledger : Ledger} {raw : String} (reserved : List String)
    (h : recordedName ledger raw = .ok none) :
    targetName ledger reserved raw =
      match reserved.find? (Text.sameIgnoringAsciiCase · raw) with
      | some name => .ok name
      | none => (canonicalize raw).map (·.name) := by
  cases hreserved : reserved.find? (Text.sameIgnoringAsciiCase · raw) with
  | some name => simp only [targetName, h, hreserved, bind, Except.bind, pure, Except.pure]
  | none =>
    simp only [targetName, h, hreserved, bind, Except.bind, pure, Except.pure]
    cases canonicalize raw <;> rfl

theorem targetName_of_nameFor {ledger : Ledger} {reserved : List String} {raw name : String}
    (h : NameFor ledger reserved raw name) : targetName ledger reserved raw = .ok name := by
  cases h with
  | recorded known agree =>
    exact targetName_recorded reserved (recordedName_some_iff.mpr ⟨known, agree⟩)
  | reserved unknown listed first same =>
    rw [targetName_unrecorded reserved (recordedName_none_iff.mpr unknown),
      find?_reserved_some_iff.mpr ⟨same, _, _, listed, first⟩]
  | canonical unknown unreserved fits =>
    rw [targetName_unrecorded reserved (recordedName_none_iff.mpr unknown),
      find?_reserved_none_iff.mpr unreserved, fits]
    rfl

theorem targetName_of_noNameFor {ledger : Ledger} {reserved : List String} {raw : String}
    {e : MigrationError} (h : NoNameFor ledger reserved raw e) :
    targetName ledger reserved raw = .error e := by
  cases h with
  | ambiguous disagree =>
    exact targetName_refused reserved (recordedName_error_iff.mpr ⟨_, _, disagree, rfl⟩)
  | tooLong unknown unreserved refused =>
    rw [targetName_unrecorded reserved (recordedName_none_iff.mpr unknown),
      find?_reserved_none_iff.mpr unreserved, refused]
    rfl

/-- Every name has a target name or a reason to have none. -/
theorem nameFor_or_noNameFor (ledger : Ledger) (reserved : List String) (raw : String) :
    (∃ name, NameFor ledger reserved raw name) ∨ ∃ e, NoNameFor ledger reserved raw e := by
  cases hrecorded : recordedName ledger raw with
  | error e =>
    obtain ⟨first, second, hdisagree, -⟩ := recordedName_error_iff.mp hrecorded
    exact .inr ⟨_, .ambiguous hdisagree⟩
  | ok found =>
    cases found with
    | some name =>
      obtain ⟨hknown, hagree⟩ := recordedName_some_iff.mp hrecorded
      exact .inl ⟨name, .recorded hknown hagree⟩
    | none =>
      have hunknown := recordedName_none_iff.mp hrecorded
      cases hreserved : reserved.find? (Text.sameIgnoringAsciiCase · raw) with
      | some name =>
        obtain ⟨hsame, before, after, hlisted, hfirst⟩ := find?_reserved_some_iff.mp hreserved
        exact .inl ⟨name, .reserved hunknown hlisted hfirst hsame⟩
      | none =>
        have hunreserved := find?_reserved_none_iff.mp hreserved
        cases hcanonical : canonicalize raw with
        | ok target => exact .inl ⟨_, .canonical hunknown hunreserved hcanonical⟩
        | error e => exact .inr ⟨e, .tooLong hunknown hunreserved hcanonical⟩

theorem targetName_ok_iff {ledger : Ledger} {reserved : List String} {raw name : String} :
    targetName ledger reserved raw = .ok name ↔ NameFor ledger reserved raw name := by
  constructor
  · intro h
    rcases nameFor_or_noNameFor ledger reserved raw with ⟨n, hn⟩ | ⟨e, he⟩
    · rw [targetName_of_nameFor hn] at h
      cases h
      exact hn
    · rw [targetName_of_noNameFor he] at h
      cases h
  · exact targetName_of_nameFor

theorem targetName_error_iff {ledger : Ledger} {reserved : List String} {raw : String}
    {e : MigrationError} :
    targetName ledger reserved raw = .error e ↔ NoNameFor ledger reserved raw e := by
  constructor
  · intro h
    rcases nameFor_or_noNameFor ledger reserved raw with ⟨n, hn⟩ | ⟨e', he⟩
    · rw [targetName_of_nameFor hn] at h
      cases h
    · rw [targetName_of_noNameFor he] at h
      cases h
      exact he
  · exact targetName_of_noNameFor

end Migration
