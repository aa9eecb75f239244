import Migration.Proofs.Quoting
import Migration.Proofs.Substitution

/-
  Whether a substitution keeps the boundaries of tokens.

  A name between brackets or double quotes may become a bare one, and then nothing
  parts it from a word, a number or a literal beside it. This file

  1. says for every class of token which text may not come behind it (`RunsOn`), and
     proves that in front of any other text the same token is scanned again
     (`scan_again`, `scan_other`);
  2. says on the new texts alone where two of them run together (`runsInto`): a word and
     a character of words, the letter N and a single quote, two double quotes, a number
     and what makes it longer;
  3. proves that the tokens of the new text are the new texts exactly where none runs
     into what comes after it (`substituteNames_keeps_boundaries_iff`). -/

namespace Migration

open Naming (Ledger)

/-! ## Where a token ends -/

/-- The text goes on with a character of a class. -/
def goesOn (p : Char → Bool) (rest : List Char) : Bool := rest.head?.any p

theorem takeWhile_eq_nil_of_not_goesOn {p : Char → Bool} {rest : List Char}
    (h : goesOn p rest = false) : rest.takeWhile p = [] := by
  cases rest with
  | nil => rfl
  | cons c rest =>
    have hc : p c = false := by simpa [goesOn] using h
    rw [List.takeWhile_cons, if_neg (by simp [hc])]

theorem takeWhile_ne_nil_of_goesOn {p : Char → Bool} {rest : List Char}
    (h : goesOn p rest = true) : rest.takeWhile p ≠ [] := by
  cases rest with
  | nil => cases h
  | cons c rest =>
    have hc : p c = true := by simpa [goesOn] using h
    rw [List.takeWhile_cons, if_pos hc]
    exact List.cons_ne_nil _ _

theorem takeWhile_run_append (p : Char → Bool) (before rest : List Char) :
    (before.takeWhile p ++ rest).takeWhile p = before.takeWhile p ++ rest.takeWhile p :=
  List.takeWhile_append_of_pos fun _ hc => List.all_eq_true.mp List.all_takeWhile _ hc

theorem not_goesOn_of_takeWhile {p : Char → Bool} {before rest : List Char}
    (h : before = before.takeWhile p ++ rest) : goesOn p rest = false := by
  refine eq_false_of_ne_true fun hgoes => takeWhile_ne_nil_of_goesOn hgoes ?_
  have hagain := takeWhile_run_append p before rest
  rw [← h] at hagain
  simpa using hagain

theorem closeComments_ne_nil {depth : Nat} {cs taken : List Char}
    (h : closeComments (depth + 1) cs = some taken) : taken ≠ [] := by
  rintro rfl
  match cs with
  | [] => cases h
  | [_] => cases h
  | c :: d :: cs =>
    rw [closeComments] at h
    split at h
    · simp at h
    · split at h
      · simp at h
      · simp at h

theorem closeComments_append {depth : Nat} {cs taken : List Char} (rest : List Char)
    (h : closeComments depth cs = some taken) :
    closeComments depth (taken ++ rest) = some taken := by
  induction depth, cs using closeComments.induct generalizing taken with
  | case1 =>
    rw [closeComments] at h
    cases h
    exact closeComments.eq_1 rest
  | case2 => cases h
  | case3 => cases h
  | case4 depth c d cs hopen ih =>
    rw [closeComments, if_pos hopen, Option.map_eq_some_iff] at h
    obtain ⟨inner, hinner, rfl⟩ := h
    rw [List.cons_append, List.cons_append, closeComments, if_pos hopen, ih hinner]
    rfl
  | case5 depth c d cs hopen hclose ih =>
    rw [closeComments, if_neg hopen, if_pos hclose, Option.map_eq_some_iff] at h
    obtain ⟨inner, hinner, rfl⟩ := h
    rw [List.cons_append, List.cons_append, closeComments, if_neg hopen, if_pos hclose, ih hinner]
    rfl
  | case6 depth c d cs hopen hclose ih =>
    rw [closeComments, if_neg hopen, if_neg hclose, Option.map_eq_some_iff] at h
    obtain ⟨inner, hinner, rfl⟩ := h
    have hread := ih hinner
    cases inner with
    | nil => exact absurd rfl (closeComments_ne_nil hinner)
    | cons e more =>
      obtain ⟨rfl, -⟩ := List.cons_prefix_cons.mp (closeComments_isPrefix hinner)
      rw [List.cons_append] at hread
      rw [List.cons_append, List.cons_append, closeComments, if_neg hopen, if_neg hclose, hread]
      rfl

/-- The text may not come behind the token, for the token would not end there. -/
def RunsOn (l : Lexeme) (rest : List Char) : Prop :=
  match l.kind with
  | .whitespace => goesOn Text.isBlank rest = true
  | .lineComment => goesOn (fun d => d ≠ '\n') rest = true
  | .blockComment => False
  | .stringLiteral => rest.head? = some '\''
  | .bracketIdentifier => rest.head? = some ']'
  | .quotedIdentifier => rest.head? = some '"'
  | .variableName | .tempName => goesOn isWordChar rest = true
  | .numberLiteral => numberOf (l.chars ++ rest) ≠ l.chars
  | .keyword | .identifier =>
    goesOn isWordChar rest = true ∨ (l.chars = ['N'] ∨ l.chars = ['n']) ∧ rest.head? = some '\''
  | .symbol =>
    l.chars = ['-'] ∧ rest.head? = some '-' ∨ l.chars = ['/'] ∧ rest.head? = some '*'

theorem wordKind_cases (word : List Char) :
    wordKind word = .keyword ∨ wordKind word = .identifier := by
  unfold wordKind
  split
  · exact .inl rfl
  · exact .inr rfl

theorem runsOn_word {word rest : List Char} :
    RunsOn ⟨wordKind word, word⟩ rest ↔
      goesOn isWordChar rest = true ∨ (word = ['N'] ∨ word = ['n']) ∧ rest.head? = some '\'' := by
  rcases wordKind_cases word with h | h
  · rw [h]; rfl
  · rw [h]; rfl

theorem head?_word_append {before rest : List Char}
    (h : (before.takeWhile isWordChar ++ rest).head? = some '\'') :
    before.takeWhile isWordChar = [] ∧ rest.head? = some '\'' := by
  cases hword : before.takeWhile isWordChar with
  | nil =>
    rw [hword, List.nil_append] at h
    exact ⟨rfl, h⟩
  | cons d more =>
    have hd : isWordChar d = true :=
      List.all_eq_true.mp (List.all_takeWhile (p := isWordChar) (l := before)) d (by simp [hword])
    rw [hword, List.cons_append, List.head?_cons] at h
    cases h
    exact absurd hd (by decide)

/-- A token is scanned again in front of every text that may come behind it. -/
theorem scan_again {c : Char} {before rest : List Char} {l : Lexeme} (h : scan c before = .ok l)
    (hrest : ¬ RunsOn l rest) : scan c (l.chars.tail ++ rest) = .ok l := by
  have run {p : Char → Bool} (hgoes : ¬ goesOn p rest = true) :
      (before.takeWhile p ++ rest).takeWhile p = before.takeWhile p := by
    rw [takeWhile_run_append, takeWhile_eq_nil_of_not_goesOn (eq_false_of_ne_true hgoes),
      List.append_nil]
  cases scans_of_scan h with
  | blank hblank =>
    have hscan := scan_of_scans (@Scans.blank c (before.takeWhile Text.isBlank ++ rest) hblank)
    rwa [run hrest] at hscan
  | lineComment hhyphen =>
    obtain ⟨more, rfl⟩ := List.head?_eq_some_iff.mp hhyphen
    have hscan := scan_of_scans
      (@Scans.lineComment (('-' :: more).takeWhile (fun d => d ≠ '\n') ++ rest) rfl)
    rwa [run hrest] at hscan
  | blockComment hclosed => exact scan_of_scans (.blockComment (closeComments_append rest hclosed))
  | string hclosed => exact scan_of_scans (.string (closeAt_append hclosed hrest))
  | letterString hletter hclosed =>
    exact scan_of_scans (.letterString hletter (closeAt_append hclosed hrest))
  | bracket hclosed hnonempty =>
    exact scan_of_scans (.bracket (closeAt_append hclosed hrest) hnonempty)
  | quoted hclosed => exact scan_of_scans (.quoted (closeAt_append hclosed hrest))
  | variableName =>
    have hscan := scan_of_scans (@Scans.variableName (before.takeWhile isWordChar ++ rest))
    rwa [run hrest] at hscan
  | tempName =>
    have hscan := scan_of_scans (@Scans.tempName (before.takeWhile isWordChar ++ rest))
    rwa [run hrest] at hscan
  | number hdigit =>
    obtain ⟨digits, hdigits⟩ := numberOf_cons hdigit before
    have hsame : numberOf (c :: (digits ++ rest)) = c :: digits := by
      have hrest := Decidable.not_not.mp hrest
      rwa [hdigits] at hrest
    have hscan := scan_of_scans (@Scans.number c (digits ++ rest) hdigit)
    rw [hsame] at hscan
    rw [hdigits]
    exact hscan
  | word hletter hblank hstring =>
    rw [runsOn_word, not_or] at hrest
    have hscan := scan_of_scans
      (@Scans.word c (before.takeWhile isWordChar ++ rest) hletter hblank ?_)
    · rwa [run hrest.1] at hscan
    · rintro ⟨hN, hquote⟩
      obtain ⟨hword, hhead⟩ := head?_word_append hquote
      refine hrest.2 ⟨?_, hhead⟩
      rw [hword]
      rcases hN with rfl | rfl
      · exact .inl rfl
      · exact .inr rfl
  | symbol hblank hline hblock hmark hdigit hletter =>
    refine scan_of_scans (.symbol hblank ?_ ?_ hmark hdigit hletter)
    · rintro ⟨rfl, hhead⟩
      exact hrest (.inl ⟨rfl, hhead⟩)
    · rintro ⟨rfl, hhead⟩
      exact hrest (.inr ⟨rfl, hhead⟩)

/-- In front of a text that may not come behind it, a token is not scanned again. -/
theorem scan_other {c : Char} {before rest : List Char} {l l' : Lexeme}
    (h : scan c before = .ok l) (hrest : RunsOn l rest)
    (h' : scan c (l.chars.tail ++ rest) = .ok l') : l'.chars ≠ l.chars := by
  have run {p : Char → Bool} (hgoes : goesOn p rest = true) :
      (before.takeWhile p ++ rest).takeWhile p ≠ before.takeWhile p := by
    rw [takeWhile_run_append]
    intro heq
    exact takeWhile_ne_nil_of_goesOn hgoes (List.append_right_eq_self.mp heq)
  have found {m : Lexeme} (hm : Scans c (l.chars.tail ++ rest) m) : l' = m := by
    rw [scan_of_scans hm] at h'
    exact (Except.ok.inj h').symm
  cases scans_of_scan h with
  | blank hblank =>
    rw [found (.blank hblank)]
    exact fun heq => run hrest (List.cons.inj heq).2
  | lineComment hhyphen =>
    obtain ⟨more, rfl⟩ := List.head?_eq_some_iff.mp hhyphen
    rw [found (.lineComment rfl)]
    exact fun heq => run hrest (List.cons.inj heq).2
  | blockComment hclosed => exact absurd hrest id
  | string hclosed =>
    obtain ⟨later, rfl⟩ := List.head?_eq_some_iff.mp hrest
    obtain ⟨chars, hchars, rfl⟩ := closedToken_ok ((scan_singleQuote _).symm.trans h')
    -- a mark behind the closing mark doubles it, so what closes is longer
    rintro ⟨⟩
    exact closeAt_append_mark_ne hclosed hchars
  | letterString hletter hclosed =>
    obtain ⟨later, rfl⟩ := List.head?_eq_some_iff.mp hrest
    obtain ⟨chars, hchars, rfl⟩ := closedToken_ok ((scan_letterQuote hletter _).symm.trans h')
    rintro ⟨⟩
    exact closeAt_append_mark_ne hclosed hchars
  | bracket hclosed hnonempty =>
    obtain ⟨later, rfl⟩ := List.head?_eq_some_iff.mp hrest
    have hscan := (scan_bracket _).symm.trans h'
    split at hscan
    · cases hscan
    · obtain ⟨chars, hchars, rfl⟩ := closedToken_ok hscan
      rintro ⟨⟩
      exact closeAt_append_mark_ne hclosed hchars
  | quoted hclosed =>
    obtain ⟨later, rfl⟩ := List.head?_eq_some_iff.mp hrest
    obtain ⟨chars, hchars, rfl⟩ := closedToken_ok ((scan_doubleQuote _).symm.trans h')
    rintro ⟨⟩
    exact closeAt_append_mark_ne hclosed hchars
  | variableName =>
    rw [found .variableName]
    exact fun heq => run hrest (List.cons.inj heq).2
  | tempName =>
    rw [found .tempName]
    exact fun heq => run hrest (List.cons.inj heq).2
  | number hdigit =>
    obtain ⟨digits, hdigits⟩ := numberOf_cons hdigit before
    rw [found (.number hdigit)]
    have hrest : numberOf (numberOf (c :: before) ++ rest) ≠ numberOf (c :: before) := hrest
    rw [hdigits] at hrest ⊢
    exact hrest
  | word hletter hblank hstring =>
    -- the word becomes longer, or it is the letter N and a literal begins
    rcases runsOn_word.mp hrest with hgoes | ⟨hN, hhead⟩
    · rw [found (.word hletter hblank ?_)]
      · exact fun heq => run hgoes (List.cons.inj heq).2
      · rintro ⟨-, hquote⟩
        obtain ⟨-, hhead⟩ := head?_word_append hquote
        rw [goesOn, hhead] at hgoes
        exact absurd hgoes (by decide)
    · obtain ⟨later, rfl⟩ := List.head?_eq_some_iff.mp hhead
      have hnil : before.takeWhile isWordChar = [] := by
        rcases hN with hN | hN
        · exact (List.cons.inj hN).2
        · exact (List.cons.inj hN).2
      have hletter : c = 'N' ∨ c = 'n' :=
        hN.imp (fun h => (List.cons.inj h).1) fun h => (List.cons.inj h).1
      rw [hnil] at h' ⊢
      obtain ⟨chars, -, rfl⟩ := closedToken_ok ((scan_letterQuote hletter later).symm.trans h')
      simp
  | symbol hblank hline hblock hmark hdigit hletter =>
    -- two symbols that open a comment
    rcases hrest with ⟨hc, hhead⟩ | ⟨hc, hhead⟩
    · cases hc
      rw [found (.lineComment hhead)]
      obtain ⟨later, rfl⟩ := List.head?_eq_some_iff.mp hhead
      simp
    · cases hc
      obtain ⟨later, rfl⟩ := List.head?_eq_some_iff.mp hhead
      obtain ⟨chars, -, rfl⟩ := closedToken_ok ((scan_slashStar later).symm.trans h')
      simp

/-! ## Where two texts run together -/

/-- Whether a word may begin with the character. -/
def isWordStart (c : Char) : Bool := Text.isLetter c || c == '_' || c == '@' || c == '#'

/-- Whether a token with this text would not end in front of `rest`: a word in front of a character
of words, the letter N in front of a single quote, a quoted name in front of a double quote, a
number in front of what makes it longer. -/
def runsInto (text rest : List Char) : Bool :=
  match text with
  | [] => false
  | c :: more =>
    isWordStart c && more.all isWordChar && goesOn isWordChar rest ||
    (c == 'N' || c == 'n') && more.isEmpty && rest.head? == some '\'' ||
    c == '"' && rest.head? == some '"' ||
    c.isDigit && numberOf (c :: (more ++ rest)) != c :: more

theorem runsInto_cons {c : Char} {more rest : List Char} :
    runsInto (c :: more) rest = true ↔
      (isWordStart c = true ∧ more.all isWordChar = true ∧ goesOn isWordChar rest = true) ∨
      ((c = 'N' ∨ c = 'n') ∧ more = [] ∧ rest.head? = some '\'') ∨
      (c = '"' ∧ rest.head? = some '"') ∨
      (c.isDigit = true ∧ numberOf (c :: (more ++ rest)) ≠ c :: more) := by
  simp only [runsInto, Bool.or_eq_true, Bool.and_eq_true, beq_iff_eq, List.isEmpty_iff,
    bne_iff_ne, and_assoc, or_assoc]

theorem not_runsInto {c : Char} (more rest : List Char) (hword : isWordStart c = false)
    (hquote : c ≠ '"') (hdigit : c.isDigit = false) : ¬ runsInto (c :: more) rest = true := by
  rw [runsInto_cons]
  rintro (⟨h, -⟩ | ⟨h, -⟩ | ⟨h, -⟩ | ⟨h, -⟩)
  · rw [hword] at h
    cases h
  · rcases h with rfl | rfl
    · exact absurd hword (by decide)
    · exact absurd hword (by decide)
  · exact hquote h
  · rw [hdigit] at h
    cases h

theorem runsInto_quoted {more rest : List Char} :
    runsInto ('"' :: more) rest = true ↔ rest.head? = some '"' := by
  rw [runsInto_cons]
  have hword : isWordStart '"' = false := by decide
  have hdigit : Char.isDigit '"' = false := by decide
  simp [hword, hdigit]

theorem isDigit_lt {c : Char} (h : c.isDigit = true) : c.toNat < 58 := by
  simp only [Char.isDigit, Bool.and_eq_true, decide_eq_true_eq, UInt32.le_iff_toNat_le] at h
  have h57 : c.toNat ≤ 57 := h.2
  omega

theorem isWordStart_of_isDigit {c : Char} (h : c.isDigit = true) : isWordStart c = false := by
  have hletter : Text.isLetter c = false := not_isLetter_of_lt (by have := isDigit_lt h; omega)
  have hne {d : Char} (hd : d.isDigit = false) : c ≠ d := by
    rintro rfl
    rw [h] at hd
    cases hd
  simp [isWordStart, hletter, hne (d := '_') rfl, hne (d := '@') rfl, hne (d := '#') rfl]

theorem not_isDigit_of_isWordStart {c : Char} (h : isWordStart c = true) : c.isDigit = false := by
  refine eq_false_of_ne_true fun hdigit => ?_
  rw [isWordStart_of_isDigit hdigit] at h
  cases h

theorem runsInto_word {c : Char} {more rest : List Char} (hstart : isWordStart c = true)
    (hmore : more.all isWordChar = true) :
    runsInto (c :: more) rest = true ↔
      goesOn isWordChar rest = true ∨
        (c :: more = ['N'] ∨ c :: more = ['n']) ∧ rest.head? = some '\'' := by
  have hquote : c ≠ '"' := by
    rintro rfl
    exact absurd hstart (by decide)
  rw [runsInto_cons, not_isDigit_of_isWordStart hstart]
  simp only [hstart, hmore, hquote, true_and, false_and, or_false, Bool.false_eq_true,
    List.cons.injEq, ← or_and_right, and_assoc]

theorem runsInto_number {c : Char} {more rest : List Char} (hdigit : c.isDigit = true) :
    runsInto (c :: more) rest = true ↔ numberOf (c :: (more ++ rest)) ≠ c :: more := by
  have hne {d : Char} (hd : d.isDigit = false) : c ≠ d := by
    rintro rfl
    rw [hdigit] at hd
    cases hd
  rw [runsInto_cons, isWordStart_of_isDigit hdigit]
  simp [hdigit, hne (d := 'N') rfl, hne (d := 'n') rfl, hne (d := '"') rfl]

/-! ## Classes of characters -/

theorem mem_of_inRanges {ranges : List (Nat × Nat)} {n : Nat}
    (h : Text.inRanges ranges n = true) : ∃ r ∈ ranges, r.1 ≤ n ∧ n ≤ r.2 := by
  induction ranges with
  | nil => cases h
  | cons r ranges ih =>
    obtain ⟨low, high⟩ := r
    rw [Text.inRanges] at h
    split at h
    · cases h
    · rename_i hlow
      rcases Bool.or_eq_true_iff.mp h with hhigh | hlater
      · exact ⟨(low, high), List.mem_cons_self, Nat.le_of_not_lt hlow, of_decide_eq_true hhigh⟩
      · obtain ⟨r, hr, hin⟩ := ih hlater
        exact ⟨r, List.mem_cons_of_mem _ hr, hin⟩

theorem not_isLetter_of_isBlank {c : Char} (h : Text.isBlank c = true) :
    Text.isLetter c = false := by
  have apart : ∀ r ∈ Text.blankRanges, ∀ s ∈ Text.letterRanges, r.2 < s.1 ∨ s.2 < r.1 := by
    decide +kernel
  refine eq_false_of_ne_true fun hletter => ?_
  obtain ⟨r, hr, hlow, hhigh⟩ := mem_of_inRanges h
  obtain ⟨s, hs, hlow', hhigh'⟩ := mem_of_inRanges hletter
  have hapart := apart r hr s hs
  omega

theorem isWordStart_of_isBlank {c : Char} (h : Text.isBlank c = true) :
    isWordStart c = false := by
  have hne {d : Char} (hd : Text.isBlank d = false) : c ≠ d := by
    rintro rfl
    rw [h] at hd
    cases hd
  simp [isWordStart, not_isLetter_of_isBlank h, hne (d := '_') (by decide),
    hne (d := '@') (by decide), hne (d := '#') (by decide)]

theorem toNat_of_isLower {c : Char} (h : c.isLower = true) : 97 ≤ c.toNat ∧ c.toNat ≤ 122 := by
  have hbounds : (decide ('a'.val ≤ c.val) && decide (c.val ≤ 'z'.val)) = true := h
  rw [Bool.and_eq_true, decide_eq_true_eq, decide_eq_true_eq] at hbounds
  exact ⟨UInt32.le_iff_toNat_le.mp hbounds.1, UInt32.le_iff_toNat_le.mp hbounds.2⟩

theorem isLetter_of_isLower {c : Char} (h : c.isLower = true) : Text.isLetter c = true := by
  have letters : ∀ n ∈ List.range' 97 26, Text.inRanges Text.letterRanges n = true := by decide
  obtain ⟨h97, h122⟩ := toNat_of_isLower h
  exact letters c.toNat (List.mem_range'_1.mpr (by omega))

/-! ## What a substitution puts behind a token -/

/-- What the text of a name that is put in begins with. -/
def isNameStart (c : Char) : Bool := c == '"' || isBareStart c

/-- A text that may come in the place of another behind a token: it begins with the same character,
or it begins with a name, and the other did not begin with a line end. -/
def MayFollow (later rest : List Char) : Prop :=
  rest.head? = later.head? ∨
    (∃ c, later.head? = some c ∧ c ≠ '\n') ∧ goesOn isNameStart rest = true

theorem isNameStart_cases {c : Char} (h : isNameStart c = true) :
    c = '"' ∨ c.isLower = true ∨ c = '_' := by
  simpa [isNameStart, isBareStart] using h

theorem MayFollow.not_goesOn {p : Char → Bool} {later rest : List Char} (h : MayFollow later rest)
    (hlater : goesOn p later = false) (hname : ∀ c, isNameStart c = true → p c = false) :
    goesOn p rest = false := by
  rcases h with h | ⟨-, h⟩
  · rw [goesOn, h]
    exact hlater
  · cases rest with
    | nil => rfl
    | cons c rest => exact hname c (by simpa [goesOn] using h)

theorem MayFollow.head?_ne {d : Char} {later rest : List Char} (h : MayFollow later rest)
    (hlater : later.head? ≠ some d) (hd : isNameStart d = false) : rest.head? ≠ some d := by
  rcases h with h | ⟨-, h⟩
  · rw [h]
    exact hlater
  · intro hhead
    rw [goesOn, hhead] at h
    rw [Option.any_some, hd] at h
    cases h

theorem not_isBlank_of_isNameStart {c : Char} (h : isNameStart c = true) :
    Text.isBlank c = false := by
  rcases isNameStart_cases h with rfl | h | rfl
  · decide
  · refine eq_false_of_ne_true fun hblank => ?_
    have hletter := not_isLetter_of_isBlank hblank
    rw [isLetter_of_isLower h] at hletter
    cases hletter
  · decide

/-- In front of what a substitution may put behind it, a token of the text runs on exactly where the
condition on texts says so. -/
theorem runsOn_iff_runsInto {c : Char} {before later rest : List Char} {l : Lexeme}
    (h : scan c before = .ok l) (cut : c :: before = l.chars ++ later)
    (hfollow : MayFollow later rest) : RunsOn l rest ↔ runsInto l.chars rest = true := by
  cases scans_of_scan h with
  | blank hblank =>
    have hlater : goesOn Text.isBlank later = false :=
      not_goesOn_of_takeWhile (List.cons.inj cut).2
    have hrest := hfollow.not_goesOn hlater fun c hc => not_isBlank_of_isNameStart hc
    have hdigit : c.isDigit = false := by
      refine eq_false_of_ne_true fun hdigit => ?_
      rw [not_isBlank_of_isDigit hdigit] at hblank
      cases hblank
    have hquote : c ≠ '"' := by
      rintro rfl
      exact absurd hblank (by decide)
    refine iff_of_false ?_ (not_runsInto _ _ (isWordStart_of_isBlank hblank) hquote hdigit)
    show ¬ goesOn Text.isBlank rest = true
    simp [hrest]
  | lineComment hhyphen =>
    refine iff_of_false ?_ (not_runsInto _ _ (by decide) (by decide) (by decide))
    show ¬ goesOn (fun d => d ≠ '\n') rest = true
    have hlater : goesOn (fun d => d ≠ '\n') later = false :=
      not_goesOn_of_takeWhile (List.cons.inj cut).2
    rcases hfollow with hsame | ⟨⟨d, hd, hne⟩, -⟩
    · rw [goesOn, hsame]
      simpa [goesOn] using hlater
    · -- a comment ends at a line end only, and there no name is put in
      rw [goesOn, hd] at hlater
      simp [hne] at hlater
  | blockComment hclosed =>
    exact iff_of_false id (not_runsInto _ _ (by decide) (by decide) (by decide))
  | string hclosed =>
    refine iff_of_false ?_ (not_runsInto _ _ (by decide) (by decide) (by decide))
    rw [(List.cons.inj cut).2] at hclosed
    exact hfollow.head?_ne (head?_ne_of_closeAt hclosed) (by decide)
  | @letterString c before chars hletter hclosed =>
    have hends : chars ++ later = before := by
      simpa using (List.cons.inj (List.cons.inj cut).2).2.symm
    rw [← hends] at hclosed
    refine iff_of_false (hfollow.head?_ne (head?_ne_of_closeAt hclosed) (by decide)) ?_
    rw [runsInto_cons]
    have hquote : isWordChar '\'' = false := by decide
    rcases hletter with rfl | rfl
    · simp [hquote]
    · simp [hquote]
  | bracket hclosed hnonempty =>
    refine iff_of_false ?_ (not_runsInto _ _ (by decide) (by decide) (by decide))
    rw [(List.cons.inj cut).2] at hclosed
    exact hfollow.head?_ne (head?_ne_of_closeAt hclosed) (by decide)
  | quoted hclosed => exact runsInto_quoted.symm
  | variableName =>
    rw [runsInto_word (by decide) List.all_takeWhile]
    simp [RunsOn]
  | tempName =>
    rw [runsInto_word (by decide) List.all_takeWhile]
    simp [RunsOn]
  | number hdigit =>
    obtain ⟨digits, hdigits⟩ := numberOf_cons hdigit before
    rw [hdigits, runsInto_number hdigit]
    rfl
  | word hletter hblank hstring =>
    have hstart : isWordStart c = true := by
      rcases hletter with h | rfl
      · simp [isWordStart, h]
      · decide
    rw [runsOn_word, runsInto_word hstart List.all_takeWhile]
  | symbol hblank hline hblock hmark hdigit hletter =>
    obtain rfl : before = later := (List.cons.inj cut).2
    simp only [List.mem_cons, List.not_mem_nil, or_false, not_or] at hmark hletter
    obtain ⟨-, -, hquote, hat, hhash⟩ := hmark
    have hword : isWordStart c = false := by
      simp [isWordStart, hletter, hat, hhash]
    refine iff_of_false ?_ (not_runsInto _ _ hword hquote hdigit)
    rintro (⟨hc, hhead⟩ | ⟨hc, hhead⟩)
    · cases hc
      exact hfollow.head?_ne (fun h => hline ⟨rfl, h⟩) (by decide) hhead
    · cases hc
      exact hfollow.head?_ne (fun h => hblock ⟨rfl, h⟩) (by decide) hhead

/-! ## New texts as tokens -/

/-- A new text is the old one, a bare name, or a name between double quotes. -/
theorem newText_cases {ledger : Ledger} {reserved : List String} {earlier : List Token} {t : Token}
    {text : String} (h : NewText ledger reserved earlier t text) :
    text = t.text ∨ (t.isIdentifier = true ∨ t.kind = .stringLiteral) ∧
      (isBareName text = true ∨ ∃ name, text = enclosed '"' '"' name) := by
  cases h with
  | @name name text identifier found written =>
    refine .inr ⟨.inl identifier, ?_⟩
    rw [renderPg] at written
    split at written
    · rename_i hbare
      obtain ⟨-, -, hname⟩ := Outcome.bind_ok written
      obtain rfl := Except.ok.inj hname
      exact .inl hbare
    · exact .inr ⟨name, quotePg_ok written⟩
  | aliased literal column written => exact .inr ⟨.inr literal, .inr ⟨_, quotePg_ok written⟩⟩
  | kept notName notAlias => exact .inl rfl

theorem isWordChar_of_isBareRest {c : Char} (h : isBareRest c = true) : isWordChar c = true := by
  simp only [isBareRest, Bool.or_eq_true, beq_iff_eq] at h
  rcases h with ((h | h) | rfl) | rfl
  · simp [isWordChar, Text.isLetterOrNumber, isLetter_of_isLower h]
  · have numbers : ∀ n ∈ List.range' 48 10, Text.inRanges Text.numberRanges n = true := by decide
    have hnumber : Text.inRanges Text.numberRanges c.toNat = true := by
      simp only [Char.isDigit, Bool.and_eq_true, decide_eq_true_eq, UInt32.le_iff_toNat_le] at h
      have h48 : 48 ≤ c.toNat := h.1
      have h57 : c.toNat ≤ 57 := h.2
      exact numbers c.toNat (List.mem_range'_1.mpr (by omega))
    simp [isWordChar, Text.isLetterOrNumber, hnumber]
  · decide
  · decide

theorem bareName_cases {name : String} (h : isBareName name = true) :
    ∃ c more, name.toList = c :: more ∧ (c.isLower = true ∨ c = '_') ∧
      more.all isWordChar = true := by
  unfold isBareName at h
  split at h
  · cases h
  · rename_i c more hchars
    obtain ⟨hstart, hmore⟩ := Bool.and_eq_true_iff.mp h
    refine ⟨c, more, hchars, by simpa [isBareStart] using hstart, ?_⟩
    rw [List.all_eq_true] at hmore ⊢
    exact fun d hd => isWordChar_of_isBareRest (hmore d hd)

theorem scan_bareName {name : String} (h : isBareName name = true) :
    ∃ c more, name.toList = c :: more ∧ isNameStart c = true ∧ isWordStart c = true ∧
      more.all isWordChar = true ∧ scan c more = .ok ⟨wordKind name.toList, name.toList⟩ := by
  obtain ⟨c, more, hchars, hc, hmore⟩ := bareName_cases h
  have hall : more.takeWhile isWordChar = more := by
    have htake := @List.takeWhile_append_of_pos Char isWordChar more [] (List.all_eq_true.mp hmore)
    simpa using htake
  have hletter : Text.isLetter c = true ∨ c = '_' := hc.imp_left isLetter_of_isLower
  have hname : isNameStart c = true := by simpa [isNameStart, isBareStart] using .inr hc
  have hstart : isWordStart c = true := by
    rcases hletter with h | rfl
    · simp [isWordStart, h]
    · decide
  have hstring : ¬ ((c = 'N' ∨ c = 'n') ∧ more.head? = some '\'') := by
    rintro ⟨-, hhead⟩
    rw [← hall] at hhead
    obtain ⟨-, hnil⟩ := @head?_word_append more [] (by simpa using hhead)
    cases hnil
  have hscan := scan_of_scans (.word hletter (not_isBlank_of_isNameStart hname) hstring)
  rw [hall, ← hchars] at hscan
  exact ⟨c, more, hchars, hname, hstart, hmore, hscan⟩

/-- A new text other than the old one is a token by itself, and runs on exactly where the condition
on texts says so. -/
theorem scan_put {text : String}
    (h : isBareName text = true ∨ ∃ name, text = enclosed '"' '"' name) :
    ∃ c before l, scan c before = .ok l ∧ l.chars = text.toList ∧ isNameStart c = true ∧
      ∀ rest, RunsOn l rest ↔ runsInto l.chars rest = true := by
  rcases h with hbare | ⟨name, rfl⟩
  · obtain ⟨c, more, hchars, hname, hstart, hmore, hscan⟩ := scan_bareName hbare
    refine ⟨c, more, _, hscan, rfl, hname, fun rest => ?_⟩
    rw [runsOn_word, hchars, runsInto_word hstart hmore]
  · have hclosed : closeAt '"' (doubled '"' name.toList ++ ['"']) = some _ :=
      closeAt_doubled name.toList (by simp)
    have hscan := scan_of_scans (.quoted hclosed)
    refine ⟨'"', _, _, hscan, (toList_enclosed _ _ _).symm, by decide, fun rest => ?_⟩
    exact runsInto_quoted.symm

section NewTexts

variable {ledger : Ledger} {reserved : List String} {earlier : List Token} {offset : Nat}

/-- The new text of a token is a token by itself, of the old class where the text is the old one. -/
theorem scan_newText {c : Char} {before later : List Char} {l : Lexeme} {text : String}
    (h : scan c before = .ok l) (cut : c :: before = l.chars ++ later)
    (hnew : NewText ledger reserved earlier ⟨l.kind, String.ofList l.chars, offset⟩ text) :
    ∃ d after m, scan d after = .ok m ∧ m.chars = text.toList ∧
      (text = String.ofList l.chars → m.kind = l.kind) ∧
      ∀ rest, MayFollow later rest → (RunsOn m rest ↔ runsInto text.toList rest = true) := by
  by_cases hsame : text = String.ofList l.chars
  · subst hsame
    refine ⟨c, before, l, h, by simp, fun _ => rfl, fun rest hfollow => ?_⟩
    rw [String.toList_ofList]
    exact runsOn_iff_runsInto h cut hfollow
  · have hput := ((newText_cases hnew).resolve_left hsame).2
    obtain ⟨d, after, m, hscan, hchars, -, hrest⟩ := scan_put hput
    refine ⟨d, after, m, hscan, hchars, fun hs => absurd hs hsame, fun rest _ => ?_⟩
    rw [← hchars]
    exact hrest rest

theorem kind_of_lineEnd {before : List Char} {l : Lexeme} (h : scan '\n' before = .ok l) :
    l.kind = .whitespace := by
  rw [scan, if_pos (by decide)] at h
  obtain rfl := Except.ok.inj h
  rfl

/-- What the new texts begin with may come where the old text stood. -/
theorem mayFollow_newTexts {cs : List Char} {ls : List Lexeme} {texts : List String}
    (h : Lexes cs ls) (hnew : NewTexts ledger reserved earlier (placed offset ls) texts) :
    MayFollow cs (texts.flatMap String.toList) := by
  cases h with
  | nil =>
    cases hnew
    exact .inl rfl
  | @cons c before after l ls scanned cut later =>
    cases hnew with
    | @cons _ _ _ text texts head tail =>
      rw [List.flatMap_cons]
      rcases newText_cases head with rfl | ⟨hkind, hput⟩
      · obtain ⟨taken, htaken, -⟩ := scan_isPrefix scanned
        refine .inl ?_
        simp [htaken]
      · obtain ⟨d, more, m, hscan, hchars, hname, -⟩ := scan_put hput
        obtain ⟨taken, htaken, -⟩ := scan_isPrefix hscan
        refine .inr ⟨⟨c, rfl, ?_⟩, ?_⟩
        · rintro rfl
          simp [Token.isIdentifier, kind_of_lineEnd scanned] at hkind
        · rw [← hchars, htaken]
          exact hname

/-- No text runs into what comes after it. -/
def setApart : List String → Bool
  | [] => true
  | text :: texts => !runsInto text.toList (texts.flatMap String.toList) && setApart texts

theorem setApart_cons {text : String} {texts : List String} :
    setApart (text :: texts) = true ↔
      ¬ runsInto text.toList (texts.flatMap String.toList) = true ∧ setApart texts = true := by
  simp [setApart]

/-- Lexemes at the same place with the same text are of the same class. -/
def SameKinds (ls new : List Lexeme) : Prop :=
  ∀ (i : Nat) (l m : Lexeme), ls[i]? = some l → new[i]? = some m → m.chars = l.chars →
    m.kind = l.kind

theorem SameKinds.cons {l m : Lexeme} {ls new : List Lexeme}
    (head : m.chars = l.chars → m.kind = l.kind) (tail : SameKinds ls new) :
    SameKinds (l :: ls) (m :: new) := by
  intro i l' m' hl hm hchars
  cases i with
  | zero =>
    rw [List.getElem?_cons_zero, Option.some.injEq] at hl hm
    subst hl hm
    exact head hchars
  | succ i => exact tail i l' m' hl hm hchars

theorem lexes_of_setApart {cs : List Char} {ls : List Lexeme} {texts : List String}
    (h : Lexes cs ls) (hnew : NewTexts ledger reserved earlier (placed offset ls) texts)
    (apart : setApart texts = true) :
    ∃ new, Lexes (texts.flatMap String.toList) new ∧
      new.map Lexeme.chars = texts.map String.toList ∧
      SameKinds ls new := by
  induction h generalizing earlier offset texts with
  | nil =>
    cases hnew
    exact ⟨[], .nil, rfl, fun i l m hl => by simp at hl⟩
  | @cons c before after l ls scanned cut later ih =>
    cases hnew with
    | @cons _ _ _ text texts head tail =>
      obtain ⟨hhead, htail⟩ := setApart_cons.mp apart
      obtain ⟨new, hnew, htexts, hkinds⟩ := ih tail htail
      obtain ⟨d, more, m, hscan, hchars, hkind, hruns⟩ := scan_newText scanned cut head
      have hstop := fun hon => hhead ((hruns _ (mayFollow_newTexts later tail)).mp hon)
      have hagain := scan_again hscan hstop
      obtain ⟨taken, htaken, -⟩ := scan_isPrefix hscan
      refine ⟨m :: new, ?_, by rw [List.map_cons, List.map_cons, hchars, htexts], ?_⟩
      · rw [List.flatMap_cons, ← hchars]
        rw [htaken] at hagain ⊢
        exact .cons hagain (by rw [htaken]; rfl) hnew
      · refine SameKinds.cons (fun hsame => hkind ?_) hkinds
        rw [← hsame, hchars, String.ofList_toList]

theorem setApart_of_lexes {cs : List Char} {ls new : List Lexeme} {texts : List String}
    (h : Lexes cs ls) (hnew : NewTexts ledger reserved earlier (placed offset ls) texts)
    (hlexes : Lexes (texts.flatMap String.toList) new)
    (htexts : new.map Lexeme.chars = texts.map String.toList) : setApart texts = true := by
  induction h generalizing earlier offset texts new with
  | nil =>
    cases hnew
    rfl
  | @cons c before after l ls scanned cut later ih =>
    cases hnew with
    | @cons _ _ _ text texts head tail =>
      obtain ⟨d, more, m, hscan, hchars, -, hruns⟩ := scan_newText scanned cut head
      obtain ⟨taken, htaken, -⟩ := scan_isPrefix hscan
      rw [List.flatMap_cons, ← hchars, htaken, List.cons_append] at hlexes
      cases hlexes with
      | @cons _ _ behind m' new scanned' cut' later' =>
        obtain ⟨hhead, htail⟩ := List.cons.inj htexts
        have hbehind : behind = texts.flatMap String.toList := by
          rw [hhead, ← hchars, htaken] at cut'
          exact (@List.append_cancel_left _ (d :: taken) _ _ cut').symm
        refine setApart_cons.mpr ⟨fun hinto => ?_, ih tail (hbehind ▸ later') htail⟩
        -- a text that runs on is not the text of the token found there
        have hon := (hruns _ (mayFollow_newTexts later tail)).mpr hinto
        refine scan_other hscan hon ?_ (hhead.trans hchars.symm)
        rw [htaken]
        exact scanned'

end NewTexts

/-! ## The tokens of the new text -/

theorem length_placed (offset : Nat) (ls : List Lexeme) :
    (placed offset ls).length = ls.length := by
  induction ls generalizing offset with
  | nil => rfl
  | cons l ls ih => rw [placed, List.length_cons, List.length_cons, ih]

theorem text_placed (offset : Nat) (ls : List Lexeme) :
    (placed offset ls).map (·.text) = ls.map fun l => String.ofList l.chars := by
  induction ls generalizing offset with
  | nil => rfl
  | cons l ls ih => rw [placed, List.map_cons, List.map_cons, ih]

theorem getElem?_placed {offset i : Nat} {ls : List Lexeme} {t : Token}
    (h : (placed offset ls)[i]? = some t) :
    ∃ l, ls[i]? = some l ∧ t.kind = l.kind ∧ t.text = String.ofList l.chars := by
  induction ls generalizing offset i with
  | nil => cases h
  | cons l ls ih =>
    rw [placed] at h
    cases i with
    | zero =>
      cases h
      exact ⟨l, rfl, rfl, rfl⟩
    | succ i => exact ih h

theorem length_newTexts {ledger : Ledger} {reserved : List String} {earlier ts : List Token}
    {texts : List String} (h : NewTexts ledger reserved earlier ts texts) :
    texts.length = ts.length := by
  induction h with
  | nil => rfl
  | cons head tail ih => rw [List.length_cons, List.length_cons, ih]

/-- The tokens of the new text are the new texts of the old tokens: there are as many, and where the
old text stands, it stands as a token of the old class. -/
structure KeepsBoundaries (tokens : List Token) (texts : List String) (new : List Token) :
    Prop where
  stands : new.map (·.text) = texts
  count : new.length = tokens.length
  same : ∀ (i : Nat) (t u : Token), tokens[i]? = some t → new[i]? = some u →
    texts[i]? = some t.text → u.kind = t.kind ∧ u.text = t.text

theorem keepsBoundaries_of_sameKinds {ls new : List Lexeme} {texts : List String}
    (hcount : texts.length = ls.length) (htexts : new.map Lexeme.chars = texts.map String.toList)
    (hkinds : SameKinds ls new) : KeepsBoundaries (placed 0 ls) texts (placed 0 new) := by
  have hmap : (placed 0 new).map (·.text) = texts := by
    have hstrings := congrArg (List.map String.ofList) htexts
    rw [List.map_map, List.map_map] at hstrings
    rw [text_placed]
    simpa [Function.comp_def] using hstrings
  refine ⟨hmap, ?_, ?_⟩
  · rw [length_placed, length_placed, ← hcount]
    simpa using congrArg List.length htexts
  · intro i t u ht hu htext
    have hsame : u.text = t.text := by
      rw [← hmap, List.getElem?_map, hu] at htext
      exact Option.some.inj htext
    obtain ⟨l, hl, hlkind, hltext⟩ := getElem?_placed ht
    obtain ⟨m, hm, hmkind, hmtext⟩ := getElem?_placed hu
    refine ⟨?_, hsame⟩
    rw [hlkind, hmkind]
    refine hkinds i l m hl hm ?_
    rw [hltext, hmtext] at hsame
    exact String.ofList_injective hsame

/-- A substitution keeps the boundaries of tokens exactly where no new text runs into what comes
after it. -/
theorem substituteNames_keeps_boundaries_iff (sql out : String) (ledger : Ledger)
    (reserved : List String) (h : substituteNames sql ledger reserved = .ok out) :
    ∃ tokens texts, tokenize sql = .ok tokens ∧ NewTexts ledger reserved [] tokens texts ∧
      out = String.join texts ∧
      ((∃ new, tokenize out = .ok new ∧ KeepsBoundaries tokens texts new) ↔
        setApart texts = true) := by
  obtain ⟨tokens, texts, htokens, hnew, rfl⟩ := substituteNames_ok_iff.mp h
  obtain ⟨ls, hls, rfl⟩ := tokenize_ok_iff.mp htokens
  refine ⟨_, texts, htokens, hnew, rfl, ?_, ?_⟩
  · rintro ⟨ts, hts, hkeeps⟩
    obtain ⟨new, hlexes, rfl⟩ := tokenize_ok_iff.mp hts
    rw [String.toList_join] at hlexes
    refine setApart_of_lexes hls hnew hlexes ?_
    have htexts := congrArg (List.map String.toList) hkeeps.stands
    rw [text_placed, List.map_map] at htexts
    simpa [Function.comp_def] using htexts
  · intro apart
    obtain ⟨new, hlexes, htexts, hkinds⟩ := lexes_of_setApart hls hnew apart
    refine ⟨placed 0 new, tokenize_ok_iff.mpr ⟨new, ?_, rfl⟩, ?_⟩
    · rw [String.toList_join]
      exact hlexes
    · refine keepsBoundaries_of_sameKinds ?_ htexts hkinds
      rw [length_newTexts hnew, length_placed]

/-- A name that stands apart keeps its boundaries without its brackets. -/
theorem spaced_name_keeps_boundaries :
    substituteNames "SELECT [a] FROM t" .empty [] = .ok "SELECT a FROM t" ∧
      ∃ tokens texts, tokenize "SELECT [a] FROM t" = .ok tokens ∧
        NewTexts .empty [] [] tokens texts ∧ "SELECT a FROM t" = String.join texts ∧
        ((∃ new, tokenize "SELECT a FROM t" = .ok new ∧ KeepsBoundaries tokens texts new) ↔
          setApart texts = true) :=
  ⟨rfl, substituteNames_keeps_boundaries_iff _ _ _ _ rfl⟩

example : setApart ["SELECT", " ", "a", " ", "FROM"] = true ∧
    setApart ["SELECT", " ", "a", "FROM"] = false := by
  decide +kernel

/-- A name that loses its brackets runs into the keyword behind it: six tokens become five. -/
theorem bracketed_name_runs_into_keyword :
    substituteNames "SELECT [a]FROM t" .empty [] = .ok "SELECT aFROM t" ∧
      ∃ old new, tokenize "SELECT [a]FROM t" = .ok old ∧ tokenize "SELECT aFROM t" = .ok new ∧
        old.length = 6 ∧ new.length = 5 :=
  ⟨rfl, _, _, rfl, rfl, rfl, rfl⟩

end Migration
