import Migration.Proofs.ModuleNames

/-
  Spellings of one name that differ in case.

  The ledger is asked in small letters, the reserved names ignoring the case of ASCII
  letters, and the canonical form sets words apart at capitals. So what case does to a
  name depends on which of them answers. This file

  1. proves that the small form of a text does not depend on the case of its ASCII letters
     (`lowered_map_toLower`);
  2. concludes that the canonical form depends on the case only by the words that it sets
     apart (`canonicalForm_congr`), so that neither a reserved name nor one of the same
     words depends on it (`unrecordedName_congr`);
  3. says when two names of a text that are the same in small letters become the same name
     (`spellings_same_iff`), and shows two that do not (`spellings_part_at_capitals`). -/

namespace Migration

open Naming (Ledger canonicalize canonicalForm splitCapitalized splitLowerUpper maxNameLength)

/-! ## The case of ASCII letters -/

/-- What does not tell a capital ASCII letter from the small one tells no character from its small
ASCII form. -/
theorem map_toLower_invariant {α : Type} {f : Char → α}
    (h : ∀ n ∈ List.range' 65 26, f (Char.ofNat n).toLower = f (Char.ofNat n)) (c : Char) :
    f c.toLower = f c := by
  by_cases hupper : c.val ≥ 'A'.val ∧ c.val ≤ 'Z'.val
  · have hA : 65 ≤ c.toNat := UInt32.le_iff_toNat_le.mp hupper.1
    have hZ : c.toNat ≤ 90 := UInt32.le_iff_toNat_le.mp hupper.2
    have hc := h c.toNat (List.mem_range'_1.mpr (by omega))
    rwa [Char.ofNat_toNat] at hc
  · rw [show c.toLower = c from dif_neg hupper]

theorem isCaseIgnorable_toLower (c : Char) :
    Text.isCaseIgnorable c.toLower = Text.isCaseIgnorable c :=
  map_toLower_invariant (by decide +kernel) c

theorem isCased_toLower (c : Char) : Text.isCased c.toLower = Text.isCased c :=
  map_toLower_invariant (by decide +kernel) c

theorem lowerChar_toLower (c : Char) : Text.lowerChar c.toLower = Text.lowerChar c :=
  map_toLower_invariant (by decide +kernel) c

theorem meetsCased_map_toLower (cs : List Char) :
    Text.meetsCased (cs.map Char.toLower) = Text.meetsCased cs := by
  have hdrop : (cs.map Char.toLower).dropWhile Text.isCaseIgnorable =
      (cs.dropWhile Text.isCaseIgnorable).map Char.toLower := by
    rw [List.dropWhile_map]
    congr 2
    exact funext isCaseIgnorable_toLower
  rw [Text.meetsCased, Text.meetsCased, hdrop]
  cases cs.dropWhile Text.isCaseIgnorable with
  | nil => rfl
  | cons c rest => exact isCased_toLower c

theorem lowerAt_toLower (before : List Char) (c : Char) (after : List Char) :
    Text.lowerAt (before.map Char.toLower) c.toLower (after.map Char.toLower) =
      Text.lowerAt before c after := by
  have hsigma : (c.toLower = 'Σ') = (c = 'Σ') :=
    map_toLower_invariant (f := fun d => d = 'Σ') (by decide +kernel) c
  have hdotted : (c.toLower = 'İ') = (c = 'İ') :=
    map_toLower_invariant (f := fun d => d = 'İ') (by decide +kernel) c
  unfold Text.lowerAt
  simp only [hsigma, hdotted, meetsCased_map_toLower, lowerChar_toLower]

theorem lowered_map_toLower (cs : List Char) :
    Text.lowered (cs.map Char.toLower) = Text.lowered cs := by
  have behind : ∀ before : List Char,
      Text.lowerAfter (before.map Char.toLower) (cs.map Char.toLower) =
      Text.lowerAfter before cs := by
    induction cs with
    | nil => exact fun _ => rfl
    | cons c cs ih =>
      intro before
      rw [List.map_cons, Text.lowerAfter, Text.lowerAfter, lowerAt_toLower, ← List.map_cons, ih]
  exact behind []

/-! ## Names without a renaming -/

/-- The name with an underscore wherever a word begins within it. -/
def worded (raw : String) : String :=
  String.ofList (splitLowerUpper (splitCapitalized false raw.toList))

theorem canonicalForm_congr {raw raw' : String}
    (h : Text.sameIgnoringAsciiCase (worded raw) (worded raw') = true) :
    canonicalForm raw = canonicalForm raw' := by
  simp only [Text.sameIgnoringAsciiCase, worded, String.toList_ofList, beq_iff_eq] at h
  rw [canonicalForm, canonicalForm, ← lowered_map_toLower, h, lowered_map_toLower]

theorem canonicalize_ok_iff {raw name : String} :
    (canonicalize raw).map (·.name) = .ok name ↔
      canonicalForm raw = name ∧ name.length ≤ maxNameLength := by
  simp only [canonicalize]
  split
  · rename_i hlong
    refine iff_of_false nofun ?_
    rintro ⟨rfl, hfits⟩
    exact absurd hlong (Nat.not_lt.mpr hfits)
  · rename_i hfits
    constructor
    · intro h
      obtain rfl := Except.ok.inj h
      exact ⟨rfl, Nat.not_lt.mp hfits⟩
    · rintro ⟨rfl, -⟩
      rfl

section Unrecorded

variable {reserved : List String} {raw raw' name : String}

theorem sameIgnoringAsciiCase_right (h : Text.sameIgnoringAsciiCase raw raw' = true) (s : String) :
    Text.sameIgnoringAsciiCase s raw = Text.sameIgnoringAsciiCase s raw' := by
  rw [Text.sameIgnoringAsciiCase, beq_iff_eq] at h
  rw [Text.sameIgnoringAsciiCase, Text.sameIgnoringAsciiCase, h]

/-- The case of ASCII letters makes no difference to a name without a renaming if the name is
reserved, or if the same words are set apart in it. -/
theorem unrecordedName_congr (hsame : Text.sameIgnoringAsciiCase raw raw' = true)
    (h : (∃ s ∈ reserved, Text.sameIgnoringAsciiCase s raw = true) ∨
      Text.sameIgnoringAsciiCase (worded raw) (worded raw') = true)
    (hname : unrecordedName reserved raw = .ok name) :
    unrecordedName reserved raw' = .ok name := by
  have hreserved : (Text.sameIgnoringAsciiCase · raw) = (Text.sameIgnoringAsciiCase · raw') :=
    funext fun s => sameIgnoringAsciiCase_right hsame s
  rw [unrecordedName, hreserved] at hname
  rw [unrecordedName]
  cases hfound : reserved.find? (Text.sameIgnoringAsciiCase · raw') with
  | some s =>
    rw [hfound] at hname
    exact hname
  | none =>
    rw [hfound] at hname
    rcases h with ⟨s, hs, hcase⟩ | hwords
    · rw [sameIgnoringAsciiCase_right hsame] at hcase
      exact absurd hcase (List.find?_eq_none.mp hfound s hs)
    · rw [canonicalize_ok_iff, canonicalForm_congr hwords] at hname
      exact canonicalize_ok_iff.mpr hname

end Unrecorded

/-! ## Names of a text -/

section Names

variable {ledger : Ledger} {reserved : List String} {raw raw' name name' : String}

/-- Names that are the same in small letters become the same name exactly where there is a renaming
for them, or where they become the same name without one. -/
theorem nameFor_same_iff (hsame : Text.lowercase raw = Text.lowercase raw')
    (h : NameFor ledger reserved raw name) (h' : NameFor ledger reserved raw' name') :
    name = name' ↔
      Knows ledger raw ∨ unrecordedName reserved raw = unrecordedName reserved raw' := by
  by_cases hknown : Knows ledger raw
  · refine iff_of_true ?_ (.inl hknown)
    obtain ⟨r, hr, hold⟩ := hknown
    rw [← newName_of_nameFor ⟨hr, hold⟩ h, ← newName_of_nameFor ⟨hr, hold.trans hsame⟩ h']
  · have hunknown : ¬ Knows ledger raw' :=
      fun ⟨r, hr, hold⟩ => hknown ⟨r, hr, hold.trans hsame.symm⟩
    rw [or_iff_right hknown, unrecordedName_of_nameFor hknown h,
      unrecordedName_of_nameFor hunknown h', Except.ok.injEq]

end Names

/-- Two names of a text that are the same in small letters become the same name exactly where there
is a renaming for them, or where they become the same name without one. Names that differ at most in
the case of ASCII letters become the same name where that name is reserved, and where the same words
are set apart in both. -/
theorem spellings_same_iff (sql out : String) (ledger : Ledger) (reserved : List String)
    (h : substituteNames sql ledger reserved = .ok out) :
    ∃ tokens texts, tokenize sql = .ok tokens ∧ NewTexts ledger reserved [] tokens texts ∧
      out = String.join texts ∧
      ∀ (i j : Nat) (t u : Token) (text text' : String),
        tokens[i]? = some t → tokens[j]? = some u →
        texts[i]? = some text → texts[j]? = some text' →
        t.isIdentifier = true → u.isIdentifier = true →
        Text.lowercase t.identifierName = Text.lowercase u.identifierName →
          (text = text' ↔ Knows ledger t.identifierName ∨
            unrecordedName reserved t.identifierName = unrecordedName reserved u.identifierName) ∧
          (Text.sameIgnoringAsciiCase t.identifierName u.identifierName = true →
            (∃ s ∈ reserved, Text.sameIgnoringAsciiCase s t.identifierName = true) ∨
              Text.sameIgnoringAsciiCase (worded t.identifierName)
                (worded u.identifierName) = true →
            text = text') := by
  obtain ⟨tokens, texts, htokens, htexts, rfl⟩ := substituteNames_ok_iff.mp h
  refine ⟨tokens, texts, htokens, htexts, rfl, ?_⟩
  intro i j t u text text' ht hu htext htext' hidentifier hidentifier' hlower
  -- what stands for either is the rendering of the name given
  obtain ⟨_, hnew⟩ := htexts.newText_at ht htext
  obtain ⟨_, hnew'⟩ := htexts.newText_at hu htext'
  obtain ⟨name, hname, hrendered⟩ := hnew.of_identifier hidentifier
  obtain ⟨name', hname', hrendered'⟩ := hnew'.of_identifier hidentifier'
  have htexts_iff : text = text' ↔ name = name' := by
    constructor
    · rintro rfl
      exact renderPg_inj hrendered hrendered'
    · rintro rfl
      exact Except.ok.inj (hrendered.symm.trans hrendered')
  have hiff := htexts_iff.trans (nameFor_same_iff hlower hname hname')
  refine ⟨hiff, fun hcase hwords => hiff.mpr ?_⟩
  by_cases hknown : Knows ledger t.identifierName
  · exact .inl hknown
  · have hunrecorded := unrecordedName_of_nameFor hknown hname
    exact .inr (hunrecorded.trans (unrecordedName_congr hcase hwords hunrecorded).symm)

/-- A name in capitals and the name in small letters, in which no words are set apart. -/
theorem capitals_same_name :
    substituteNames "USERID, userid" .empty [] = .ok "userid, userid" ∧
      ∃ texts text, NewTexts .empty [] [] [⟨.identifier, "USERID", 0⟩, ⟨.symbol, ",", 6⟩,
          ⟨.whitespace, " ", 7⟩, ⟨.identifier, "userid", 8⟩] texts ∧
        "userid, userid" = String.join texts ∧ texts[0]? = some text ∧ texts[3]? = some text := by
  obtain ⟨tokens, texts, htokens, htexts, hout, hsame⟩ :=
    spellings_same_iff "USERID, userid" "userid, userid" .empty [] rfl
  have hsource : tokenize "USERID, userid" = .ok [⟨.identifier, "USERID", 0⟩, ⟨.symbol, ",", 6⟩,
      ⟨.whitespace, " ", 7⟩, ⟨.identifier, "userid", 8⟩] := rfl
  obtain rfl := Except.ok.inj (hsource.symm.trans htokens)
  obtain ⟨-, text, htext, -⟩ := htexts.getElem? (i := 0) rfl
  obtain ⟨-, text', htext', -⟩ := htexts.getElem? (i := 3) rfl
  obtain ⟨-, hwords⟩ := hsame 0 3 _ _ text text' rfl rfl htext htext' rfl rfl (by decide +kernel)
  obtain rfl := hwords (by decide +kernel) (.inr (by decide +kernel))
  exact ⟨rfl, texts, text, htexts, hout, htext, htext'⟩

/-- Two spellings of one alias part where a capital sets a word apart in one of them: the first is
replaced, the second stays. -/
theorem spellings_part_at_capitals :
    let t : Token := ⟨.identifier, "userID", 7⟩
    let u : Token := ⟨.identifier, "userid", 15⟩
    let tokens := [⟨.keyword, "SELECT", 0⟩, ⟨.whitespace, " ", 6⟩, t, ⟨.symbol, ",", 13⟩,
      ⟨.whitespace, " ", 14⟩, u]
    tokenize "SELECT userID, userid" = .ok tokens ∧
      Text.lowercase t.identifierName = Text.lowercase u.identifierName ∧
      replacementsOf .empty [] tokens = .ok [⟨t.start, t.stop, "user_id"⟩] ∧
      substituteNames "SELECT userID, userid" .empty [] = .ok "SELECT user_id, userid" := by
  refine ⟨rfl, ?_, rfl, rfl⟩
  decide +kernel

end Migration
