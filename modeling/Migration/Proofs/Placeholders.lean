import Migration.Proofs.NumberedNames
import Migration.Proofs.TypeNames

/-
  The numbers of a type literal.

  A template has its size and its precision put in one after the other, each by replacing
  every occurrence of its placeholder from the left. `filled` says what that should come to:
  the template is read once, and each placeholder met is taken for its number. This file

  1. proves that what a text with a pattern replaced begins with stood at the beginning of the
     text already, unless the replacement has its characters (`prefix_of_replaced`), and that
     an occurrence of another pattern stood in it too (`infix_of_replaced`);
  2. concludes that replacing one placeholder after the other is reading once
     (`substituted_eq_filled`), and that no placeholder is left (`not_placeholder_substituted`). -/

namespace Migration

/-! ## One pattern replaced -/

section Replaced

variable {pattern replacement : List Char}

theorem replaceFrom_pending (pending : Nat) (cs : List Char) :
    Text.replaceFrom pattern replacement pending cs =
      Text.replaceFrom pattern replacement 0 (cs.drop pending) := by
  induction cs generalizing pending with
  | nil => rw [List.drop_nil, Text.replaceFrom, Text.replaceFrom]
  | cons c rest ih =>
    cases pending with
    | zero => rfl
    | succ pending => rw [Text.replaceFrom, ih, List.drop_succ_cons]

theorem replaceFrom_pattern (hpattern : pattern ≠ []) (rest : List Char) :
    Text.replaceFrom pattern replacement 0 (pattern ++ rest) =
      replacement ++ Text.replaceFrom pattern replacement 0 rest := by
  cases pattern with
  | nil => exact absurd rfl hpattern
  | cons c later =>
    have hstart : (c :: later).isPrefixOf (c :: (later ++ rest)) = true :=
      List.isPrefixOf_iff_prefix.mpr (List.prefix_append (c :: later) rest)
    rw [List.cons_append, Text.replaceFrom, if_pos hstart, replaceFrom_pending, List.length_cons,
      Nat.add_sub_cancel, List.drop_left]

theorem replaceFrom_of_not_start {c : Char} {rest : List Char} (h : ¬ pattern <+: c :: rest) :
    Text.replaceFrom pattern replacement 0 (c :: rest) =
      c :: Text.replaceFrom pattern replacement 0 rest := by
  rw [Text.replaceFrom, if_neg (fun hstart => h (List.isPrefixOf_iff_prefix.mp hstart))]

/-- The replaced text begins as the text does, as long as the replacement has none of the
characters. -/
theorem prefix_of_replaced (hne : replacement ≠ []) {word cs : List Char}
    (hword : ∀ c ∈ word, c ∉ replacement)
    (h : word <+: Text.replaceFrom pattern replacement 0 cs) : word <+: cs := by
  induction word generalizing cs with
  | nil => exact List.nil_prefix
  | cons w word ih =>
    obtain ⟨hw, hword⟩ := List.forall_mem_cons.mp hword
    cases cs with
    | nil => rwa [Text.replaceFrom] at h
    | cons c rest =>
      by_cases hstart : pattern.isPrefixOf (c :: rest) = true
      · -- the replacement would begin with the first character of the word
        rw [Text.replaceFrom, if_pos hstart] at h
        cases replacement with
        | nil => exact absurd rfl hne
        | cons r later =>
          obtain rfl : w = r := (List.cons_prefix_cons.mp h).1
          exact absurd List.mem_cons_self hw
      · rw [Text.replaceFrom, if_neg hstart, List.cons_prefix_cons] at h
        exact List.cons_prefix_cons.mpr ⟨h.1, ih hword h.2⟩

theorem infix_of_infix_append {first : Char} {word before after : List Char}
    (hfirst : first ∉ before)
    (h : first :: word <:+: before ++ after) : first :: word <:+: after := by
  induction before with
  | nil => exact h
  | cons c before ih =>
    obtain ⟨hc, hbefore⟩ := not_or.mp (List.mem_cons.not.mp hfirst)
    rcases List.infix_cons_iff.mp h with hstart | hlater
    · exact absurd (List.cons_prefix_cons.mp hstart).1 hc
    · exact ih hbefore hlater

/-- An occurrence in the replaced text stood in the text, where the pattern did not begin. -/
theorem infix_of_replaced (hne : replacement ≠ []) {first : Char} {word : List Char}
    (hfirst : first ∉ replacement) (hword : ∀ c ∈ word, c ∉ replacement) (pending : Nat)
    (cs : List Char) (h : first :: word <:+: Text.replaceFrom pattern replacement pending cs) :
    ∃ more, more <:+ cs ∧ first :: word <+: more ∧ ¬ pattern <+: more := by
  fun_induction Text.replaceFrom pattern replacement pending cs with
  | case1 pending => exact absurd (List.eq_nil_of_infix_nil h) (List.cons_ne_nil _ _)
  | case2 pending c rest ih =>
    obtain ⟨more, hmore, hstart⟩ := ih h
    exact ⟨more, hmore.trans (List.suffix_cons _ _), hstart⟩
  | case3 c rest hpattern ih =>
    obtain ⟨more, hmore, hstart⟩ := ih (infix_of_infix_append hfirst h)
    exact ⟨more, hmore.trans (List.suffix_cons _ _), hstart⟩
  | case4 c rest hpattern ih =>
    rcases List.infix_cons_iff.mp h with hstart | hlater
    · obtain ⟨rfl, hrest⟩ := List.cons_prefix_cons.mp hstart
      refine ⟨first :: rest, List.suffix_refl _, ?_, ?_⟩
      · exact List.cons_prefix_cons.mpr ⟨rfl, prefix_of_replaced hne hword hrest⟩
      · exact fun hprefix => hpattern (List.isPrefixOf_iff_prefix.mpr hprefix)
    · obtain ⟨more, hmore, hstart⟩ := ih hlater
      exact ⟨more, hmore.trans (List.suffix_cons _ _), hstart⟩

end Replaced

/-! ## Both placeholders -/

/-- The text with the size for each `$size` and the precision for each `$precision`, read once from
the left. -/
def filled (size precision : List Char) : List Char → List Char
  | '$' :: 's' :: 'i' :: 'z' :: 'e' :: rest => size ++ filled size precision rest
  | '$' :: 'p' :: 'r' :: 'e' :: 'c' :: 'i' :: 's' :: 'i' :: 'o' :: 'n' :: rest =>
    precision ++ filled size precision rest
  | c :: rest => c :: filled size precision rest
  | [] => []

/-- Characters of which no placeholder is made. -/
def OffPlaceholders (cs : List Char) : Prop := cs ≠ [] ∧ ∀ c ∈ "$sizeprecision".toList, c ∉ cs

section Filled

variable {size precision : List Char}

theorem not_starts_of_dollar {word before : List Char} (h : '$' ∉ before) (after : List Char)
    (c : Char) (more : List Char) (hsuffix : c :: more <:+ before) :
    ¬ '$' :: word <+: c :: (more ++ after) := by
  intro hstart
  obtain rfl : '$' = c := (List.cons_prefix_cons.mp hstart).1
  exact h (hsuffix.subset List.mem_cons_self)

namespace OffPlaceholders

variable {cs : List Char}

theorem dollar (h : OffPlaceholders cs) : '$' ∉ cs := h.2 '$' (by decide)

theorem letters_size (h : OffPlaceholders cs) : ∀ c ∈ "size".toList, c ∉ cs := by
  have hletters : "size".toList ⊆ "$sizeprecision".toList := by decide
  exact fun c hc => h.2 c (hletters hc)

theorem letters_precision (h : OffPlaceholders cs) : ∀ c ∈ "precision".toList, c ∉ cs := by
  have hletters : "precision".toList ⊆ "$sizeprecision".toList := by decide
  exact fun c hc => h.2 c (hletters hc)

end OffPlaceholders

/-- Replacing one placeholder and then the other is reading once. -/
theorem replaced_eq_filled (hsize : OffPlaceholders size) (cs : List Char) :
    Text.replaceFrom "$precision".toList precision 0 (Text.replaceFrom "$size".toList size 0 cs) =
      filled size precision cs := by
  fun_induction filled size precision cs with
  | case1 rest ih =>
    have hfirst : Text.replaceFrom "$size".toList size 0 ("$size".toList ++ rest) =
        size ++ Text.replaceFrom "$size".toList size 0 rest := replaceFrom_pattern (by decide) rest
    have hsecond : Text.replaceFrom "$precision".toList precision 0
        (size ++ Text.replaceFrom "$size".toList size 0 rest) = size ++ _ :=
      replaceFrom_append precision (not_starts_of_dollar hsize.dollar _)
    rw [← ih, ← hsecond, ← hfirst]
    rfl
  | case2 rest ih =>
    -- no other placeholder begins within this one
    have hfirst : Text.replaceFrom "$size".toList size 0 ("$precision".toList ++ rest) =
        "$precision".toList ++ Text.replaceFrom "$size".toList size 0 rest := by
      have hlater : Text.replaceFrom "$size".toList size 0 ("precision".toList ++ rest) =
          "precision".toList ++ Text.replaceFrom "$size".toList size 0 rest :=
        replaceFrom_append size (not_starts_of_dollar (by decide) rest)
      have hdollar : ¬ "$size".toList <+: '$' :: ("precision".toList ++ rest) := by
        intro h
        exact absurd (List.cons_prefix_cons.mp (List.cons_prefix_cons.mp h).2).1 (by decide)
      exact (replaceFrom_of_not_start hdollar).trans (congrArg _ hlater)
    have hsecond : Text.replaceFrom "$precision".toList precision 0
        ("$precision".toList ++ Text.replaceFrom "$size".toList size 0 rest) = precision ++ _ :=
      replaceFrom_pattern (by decide) _
    rw [← ih, ← hsecond, ← hfirst]
    rfl
  | case3 c rest hnot hnot' ih =>
    have hsize_not : ¬ "$size".toList <+: c :: rest := by
      rintro ⟨more, hmore⟩
      exact hnot more (List.cons.inj hmore).1.symm (List.cons.inj hmore).2.symm
    have hprecision_not : ¬ "$precision".toList <+: c :: rest := by
      rintro ⟨more, hmore⟩
      exact hnot' more (List.cons.inj hmore).1.symm (List.cons.inj hmore).2.symm
    rw [replaceFrom_of_not_start hsize_not, replaceFrom_of_not_start, ih]
    -- the letters of a placeholder in the replaced text stood in the text
    intro h
    obtain ⟨rfl, hword⟩ := List.cons_prefix_cons.mp h
    exact hprecision_not (List.cons_prefix_cons.mpr
      ⟨rfl, prefix_of_replaced hsize.1 hsize.letters_precision hword⟩)
  | case4 => rfl

theorem not_placeholder_filled (hsize : OffPlaceholders size)
    (hprecision : OffPlaceholders precision)
    (cs : List Char) : ∀ placeholder ∈ ["$size", "$precision"],
      ¬ placeholder.toList <:+: filled size precision cs := by
  rw [← replaced_eq_filled hsize cs]
  intro placeholder hmem h
  rcases List.mem_pair.mp hmem with rfl | rfl
  · -- it stood in the text already in which the size had been put
    obtain ⟨more, hmore, hstart, -⟩ := infix_of_replaced hprecision.1 hprecision.dollar
      hprecision.letters_size 0 _ h
    obtain ⟨more', -, hstart', hnot⟩ :=
      infix_of_replaced hsize.1 hsize.dollar hsize.letters_size 0 _
      (hstart.isInfix.trans hmore.isInfix)
    exact hnot hstart'
  · obtain ⟨more, -, hstart, hnot⟩ := infix_of_replaced hprecision.1 hprecision.dollar
      hprecision.letters_precision 0 _ h
    exact hnot hstart

end Filled

/-! ## Literals with their numbers -/

/-- The literal with the size and the precision for their placeholders, an absent one as zero, all
at once. -/
def filledLiteral (literal : String) (size precision : Option Nat) : String :=
  String.ofList
    (filled (toString (size.getD 0)).toList (toString (precision.getD 0)).toList literal.toList)

theorem offPlaceholders_digits (n : Nat) : OffPlaceholders (toString n).toList := by
  constructor
  · intro hnil
    have hpos : 0 < (toString n).length := Nat.length_repr_pos
    rw [← String.length_toList, hnil] at hpos
    exact absurd hpos (by decide)
  · intro c hc hmem
    have hdigit := Naming.isDigit_of_mem_toString hmem
    have hnone : "$sizeprecision".toList.all (fun d => !d.isDigit) = true := by decide
    have hnot := List.all_eq_true.mp hnone c hc
    rw [hdigit] at hnot
    exact Bool.false_ne_true hnot

theorem substituted_eq_filled (literal : String) (size precision : Option Nat) :
    substituted literal size precision = filledLiteral literal size precision := by
  rw [filledLiteral, ← replaced_eq_filled (offPlaceholders_digits (size.getD 0))]
  exact congrArg (fun cs => String.ofList (Text.replaceFrom _ _ 0 cs)) String.toList_ofList

theorem not_placeholder_substituted (literal : String) (size precision : Option Nat) :
    ∀ placeholder ∈ ["$size", "$precision"],
      ¬ placeholder.toList <:+: (substituted literal size precision).toList := by
  rw [substituted_eq_filled, filledLiteral, String.toList_ofList]
  exact not_placeholder_filled (offPlaceholders_digits _) (offPlaceholders_digits _) _

end Migration
