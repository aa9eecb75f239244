import Migration.Token.Lexer

/-
  The tokens of a text, as a relation.

  `tokensFrom` walks a text with a count of characters still to be passed over.
  `Lexes` says the same without the count: a text is scanned, what the scan took is
  set aside, and the rest is lexed. The tokens are the lexemes placed one after
  another (`tokenize_ok_iff`).

  What is proved of the tokens: they lie one after another without a gap, none is
  empty, and together they are the text (`tiles_of_tokenize`).
-/

namespace Migration

/-! ## What a scan takes is a start of the text -/

theorem closeAt_isPrefix {mark : Char} {cs taken : List Char} (h : closeAt mark cs = some taken) :
    taken <+: cs := by
  induction cs using closeAt.induct mark generalizing taken with
  | case1 => simp [closeAt] at h
  | case2 => simp_all [closeAt]
  | case3 c hc => simp [closeAt, hc] at h
  | case4 rest ih =>
    simp only [closeAt, if_true, Option.map_eq_some_iff] at h
    obtain ⟨inner, hinner, rfl⟩ := h
    simpa using ih hinner
  | case5 d rest hd =>
    simp only [closeAt, hd, if_true, if_false, Option.some.injEq] at h
    subst h
    simp
  | case6 c d rest hc ih =>
    simp only [closeAt, hc, if_false, Option.map_eq_some_iff] at h
    obtain ⟨inner, hinner, rfl⟩ := h
    simpa using ih hinner

theorem closeComments_isPrefix {depth : Nat} {cs taken : List Char}
    (h : closeComments depth cs = some taken) : taken <+: cs := by
  induction depth, cs using closeComments.induct generalizing taken with
  | case1 => simp only [closeComments, Option.some.injEq] at h; subst h; exact List.nil_prefix
  | case2 => simp [closeComments] at h
  | case3 => simp [closeComments] at h
  | case4 depth c d rest hopen ih =>
    simp only [closeComments, hopen, and_self, if_true, Option.map_eq_some_iff] at h
    obtain ⟨inner, hinner, rfl⟩ := h
    obtain ⟨rfl, rfl⟩ := hopen
    simpa using ih hinner
  | case5 depth c d rest hopen hclose ih =>
    simp only [closeComments, if_neg hopen, if_pos hclose, Option.map_eq_some_iff] at h
    obtain ⟨inner, hinner, rfl⟩ := h
    simpa using ih hinner
  | case6 depth c d rest hopen hclose ih =>
    simp only [closeComments, if_neg hopen, if_neg hclose, Option.map_eq_some_iff] at h
    obtain ⟨inner, hinner, rfl⟩ := h
    simpa using ih hinner

theorem fractionOf_isPrefix (cs : List Char) : fractionOf cs <+: cs := by
  unfold fractionOf
  split
  · simpa using List.takeWhile_prefix _
  · exact List.nil_prefix

theorem exponentOf_isPrefix (cs : List Char) : exponentOf cs <+: cs := by
  unfold exponentOf
  split
  · split
    · split
      · exact List.nil_prefix
      · split
        · split
          · simpa using List.takeWhile_prefix _
          · exact List.nil_prefix
        · split
          · simpa using List.takeWhile_prefix _
          · exact List.nil_prefix
    · exact List.nil_prefix
  · exact List.nil_prefix

theorem append_prefix_of_drop {a b cs : List Char} (ha : a <+: cs) (hb : b <+: cs.drop a.length) :
    a ++ b <+: cs := by
  obtain ⟨rest, rfl⟩ := ha
  rw [List.drop_left] at hb
  exact (List.prefix_append_right_inj a).mpr hb

theorem decimalOf_isPrefix (cs : List Char) : decimalOf cs <+: cs := by
  unfold decimalOf
  have hwhole : cs.takeWhile Char.isDigit <+: cs := List.takeWhile_prefix _
  have hfraction := append_prefix_of_drop hwhole (fractionOf_isPrefix _)
  refine append_prefix_of_drop hfraction ?_
  rw [List.length_append]
  exact exponentOf_isPrefix _

theorem numberOf_isPrefix (cs : List Char) : numberOf cs <+: cs := by
  unfold numberOf
  split
  · split
    · simpa using List.takeWhile_prefix _
    · exact decimalOf_isPrefix _
  · exact decimalOf_isPrefix _

theorem numberOf_cons {c : Char} (hc : c.isDigit = true) (rest : List Char) :
    ∃ digits, numberOf (c :: rest) = c :: digits := by
  have hstart := numberOf_isPrefix (c :: rest)
  cases hnumber : numberOf (c :: rest) with
  | nil =>
    exfalso
    unfold numberOf at hnumber
    split at hnumber
    · split at hnumber
      · cases hnumber
      · simp [decimalOf] at hnumber
    · simp [decimalOf, hc] at hnumber
  | cons d digits =>
    rw [hnumber, List.cons_prefix_cons] at hstart
    exact ⟨digits, by rw [hstart.1]⟩

theorem closedToken_ok {kind : TokenKind} {opening : List Char} {offset : Nat} {fault : LexFault}
    {body : Option (List Char)} {l : Lexeme}
    (h : closedToken kind opening offset fault body = .ok l) :
    ∃ chars, body = some chars ∧ l = ⟨kind, opening ++ chars⟩ := by
  cases body with
  | none => cases h
  | some chars => cases h; exact ⟨chars, rfl, rfl⟩

/-! ## What a scan finds -/

def wordKind (word : List Char) : TokenKind :=
  if isKeyword (String.ofList word) then .keyword else .identifier

/-- The tokens that a text can begin with, class by class. -/
inductive Scans : Char → List Char → Lexeme → Prop where
  | blank {c : Char} {rest : List Char} (blank : Text.isBlank c = true) :
      Scans c rest ⟨.whitespace, c :: rest.takeWhile Text.isBlank⟩
  | lineComment {rest : List Char} (hyphen : rest.head? = some '-') :
      Scans '-' rest ⟨.lineComment, '-' :: rest.takeWhile (fun d => d ≠ '\n')⟩
  | blockComment {rest chars : List Char} (closed : closeComments 1 rest = some chars) :
      Scans '/' ('*' :: rest) ⟨.blockComment, '/' :: '*' :: chars⟩
  | string {rest chars : List Char} (closed : closeAt '\'' rest = some chars) :
      Scans '\'' rest ⟨.stringLiteral, '\'' :: chars⟩
  | letterString {c : Char} {rest chars : List Char} (letter : c = 'N' ∨ c = 'n')
      (closed : closeAt '\'' rest = some chars) :
      Scans c ('\'' :: rest) ⟨.stringLiteral, c :: '\'' :: chars⟩
  | bracket {rest chars : List Char} (closed : closeAt ']' rest = some chars)
      (nonempty : chars ≠ [']']) : Scans '[' rest ⟨.bracketIdentifier, '[' :: chars⟩
  | quoted {rest chars : List Char} (closed : closeAt '"' rest = some chars) :
      Scans '"' rest ⟨.quotedIdentifier, '"' :: chars⟩
  | variableName {rest : List Char} :
      Scans '@' rest ⟨.variableName, '@' :: rest.takeWhile isWordChar⟩
  | tempName {rest : List Char} : Scans '#' rest ⟨.tempName, '#' :: rest.takeWhile isWordChar⟩
  | number {c : Char} {rest : List Char} (digit : c.isDigit = true) :
      Scans c rest ⟨.numberLiteral, numberOf (c :: rest)⟩
  | word {c : Char} {rest : List Char} (letter : Text.isLetter c = true ∨ c = '_')
      (notBlank : Text.isBlank c = false)
      (notString : ¬ ((c = 'N' ∨ c = 'n') ∧ rest.head? = some '\'')) :
      Scans c rest
        ⟨wordKind (c :: rest.takeWhile isWordChar), c :: rest.takeWhile isWordChar⟩
  | symbol {c : Char} {rest : List Char} (notBlank : Text.isBlank c = false)
      (notLine : ¬ (c = '-' ∧ rest.head? = some '-'))
      (notBlock : ¬ (c = '/' ∧ rest.head? = some '*'))
      (notMark : c ∉ ['\'', '[', '"', '@', '#']) (notDigit : c.isDigit = false)
      (notLetter : ¬ (Text.isLetter c = true ∨ c = '_')) : Scans c rest ⟨.symbol, [c]⟩

theorem scans_of_scan {c : Char} {rest : List Char} {l : Lexeme} (h : scan c rest = .ok l) :
    Scans c rest l := by
  unfold scan at h
  by_cases hblank : Text.isBlank c = true
  · rw [if_pos hblank] at h
    cases h
    exact .blank hblank
  rw [if_neg hblank] at h
  have hblank := eq_false_of_ne_true hblank
  by_cases hline : c = '-' ∧ rest.head? = some '-'
  · rw [if_pos hline] at h
    cases h
    obtain ⟨rfl, hhyphen⟩ := hline
    exact .lineComment hhyphen
  rw [if_neg hline] at h
  by_cases hblock : c = '/' ∧ rest.head? = some '*'
  · rw [if_pos hblock] at h
    obtain ⟨rfl, hstar⟩ := hblock
    obtain ⟨chars, hbody, rfl⟩ := closedToken_ok h
    obtain ⟨tail, rfl⟩ := List.head?_eq_some_iff.mp hstar
    exact .blockComment hbody
  rw [if_neg hblock] at h
  by_cases hstring : c = '\''
  · rw [if_pos hstring] at h
    subst hstring
    obtain ⟨chars, hbody, rfl⟩ := closedToken_ok h
    exact .string hbody
  rw [if_neg hstring] at h
  by_cases hletter : (c = 'N' ∨ c = 'n') ∧ rest.head? = some '\''
  · rw [if_pos hletter] at h
    obtain ⟨chars, hbody, rfl⟩ := closedToken_ok h
    obtain ⟨tail, rfl⟩ := List.head?_eq_some_iff.mp hletter.2
    exact .letterString hletter.1 hbody
  rw [if_neg hletter] at h
  by_cases hbracket : c = '['
  · rw [if_pos hbracket] at h
    subst hbracket
    by_cases hempty : closeAt ']' rest = some [']']
    · rw [if_pos hempty] at h
      cases h
    · rw [if_neg hempty] at h
      obtain ⟨chars, hbody, rfl⟩ := closedToken_ok h
      exact .bracket hbody (fun hchars => hempty (hchars ▸ hbody))
  rw [if_neg hbracket] at h
  by_cases hquoted : c = '"'
  · rw [if_pos hquoted] at h
    subst hquoted
    obtain ⟨chars, hbody, rfl⟩ := closedToken_ok h
    exact .quoted hbody
  rw [if_neg hquoted] at h
  by_cases hvariable : c = '@'
  · rw [if_pos hvariable] at h
    cases h
    subst hvariable
    exact .variableName
  rw [if_neg hvariable] at h
  by_cases htemp : c = '#'
  · rw [if_pos htemp] at h
    cases h
    subst htemp
    exact .tempName
  rw [if_neg htemp] at h
  by_cases hdigit : c.isDigit = true
  · rw [if_pos hdigit] at h
    cases h
    exact .number hdigit
  rw [if_neg hdigit] at h
  by_cases hword : Text.isLetter c = true ∨ c = '_'
  · rw [if_pos hword] at h
    obtain rfl := Except.ok.inj h
    exact .word hword hblank hletter
  rw [if_neg hword] at h
  cases h
  exact .symbol hblank hline hblock (by simp [hstring, hbracket, hquoted, hvariable, htemp])
    (eq_false_of_ne_true hdigit) hword

theorem not_isLetter_of_lt {c : Char} (h : c.toNat < 65) : Text.isLetter c = false := by
  unfold Text.isLetter Text.letterRanges Text.inRanges
  rw [if_pos h]

theorem not_isBlank_of_isDigit {c : Char} (h : c.isDigit = true) : Text.isBlank c = false := by
  simp only [Char.isDigit, Bool.and_eq_true, decide_eq_true_eq, UInt32.le_iff_toNat_le] at h
  have h48 : 48 ≤ c.toNat := h.1
  have h57 : c.toNat ≤ 57 := h.2
  simp only [Text.isBlank, Text.blankRanges, Text.inRanges]
  grind

theorem scan_singleQuote (rest : List Char) : scan '\'' rest =
    closedToken .stringLiteral ['\''] 0 .unclosedString (closeAt '\'' rest) := by
  have hblank : Text.isBlank '\'' = false := by decide
  simp [scan, hblank]

theorem scan_letterQuote {c : Char} (h : c = 'N' ∨ c = 'n') (rest : List Char) :
    scan c ('\'' :: rest) =
      closedToken .stringLiteral [c, '\''] 1 .unclosedString (closeAt '\'' rest) := by
  have hN : Text.isBlank 'N' = false := by decide
  have hn : Text.isBlank 'n' = false := by decide
  rcases h with rfl | rfl
  · simp [scan, hN]
  · simp [scan, hn]

theorem scan_bracket (rest : List Char) : scan '[' rest =
    if closeAt ']' rest = some [']'] then .error ⟨0, .emptyBracket⟩
    else closedToken .bracketIdentifier ['['] 0 .unclosedBracket (closeAt ']' rest) := by
  have hblank : Text.isBlank '[' = false := by decide
  simp [scan, hblank]

theorem scan_doubleQuote (rest : List Char) : scan '"' rest =
    closedToken .quotedIdentifier ['"'] 0 .unclosedQuote (closeAt '"' rest) := by
  have hblank : Text.isBlank '"' = false := by decide
  simp [scan, hblank]

theorem scan_slashStar (rest : List Char) : scan '/' ('*' :: rest) =
    closedToken .blockComment ['/', '*'] 0 .unclosedComment (closeComments 1 rest) := by
  have hblank : Text.isBlank '/' = false := by decide
  simp [scan, hblank]

theorem scan_of_scans {c : Char} {rest : List Char} {l : Lexeme} (h : Scans c rest l) :
    scan c rest = .ok l := by
  cases h with
  | blank hblank => rw [scan, if_pos hblank]
  | lineComment hhyphen =>
    have hblank : ¬ Text.isBlank '-' = true := by decide
    rw [scan, if_neg hblank, if_pos ⟨rfl, hhyphen⟩]
  | blockComment hclosed => rw [scan_slashStar, hclosed]; rfl
  | string hclosed => rw [scan_singleQuote, hclosed]; rfl
  | letterString hletter hclosed => rw [scan_letterQuote hletter, hclosed]; rfl
  | bracket hclosed hnonempty =>
    rw [scan_bracket, if_neg (by simpa [hclosed] using hnonempty), hclosed]
    rfl
  | quoted hclosed => rw [scan_doubleQuote, hclosed]; rfl
  | variableName =>
    have hblank : Text.isBlank '@' = false := by decide
    simp [scan, hblank]
  | tempName =>
    have hblank : Text.isBlank '#' = false := by decide
    simp [scan, hblank]
  | number hdigit =>
    have hblank := not_isBlank_of_isDigit hdigit
    have hne {d : Char} (hd : d.isDigit = false) : c ≠ d := by
      intro hcd
      rw [hcd, hd] at hdigit
      cases hdigit
    simp only [scan, hblank, hdigit, hne (d := '-') rfl, hne (d := '/') rfl, hne (d := '\'') rfl,
      hne (d := 'N') rfl, hne (d := 'n') rfl, hne (d := '[') rfl, hne (d := '"') rfl,
      hne (d := '@') rfl, hne (d := '#') rfl, Bool.false_eq_true, false_and, or_self, if_false,
      if_true]
  | word hletter hblank hstring =>
    have hne {d : Char} (hd : Text.isLetter d = false) (hd' : d ≠ '_') : c ≠ d := by
      rintro rfl
      rcases hletter with h | h
      · rw [hd] at h
        cases h
      · exact hd' h
    have hdigit : c.isDigit = false := by
      refine eq_false_of_ne_true fun hdigit => ?_
      rcases hletter with h | rfl
      · simp only [Char.isDigit, Bool.and_eq_true, decide_eq_true_eq] at hdigit
        have h57 : c.toNat ≤ 57 := hdigit.2
        rw [not_isLetter_of_lt (by omega)] at h
        cases h
      · cases hdigit
    simp only [scan, hblank, hletter, hdigit, hstring, hne (d := '-') (by decide) (by decide),
      hne (d := '/') (by decide) (by decide), hne (d := '\'') (by decide) (by decide),
      hne (d := '[') (by decide) (by decide), hne (d := '"') (by decide) (by decide),
      hne (d := '@') (by decide) (by decide), hne (d := '#') (by decide) (by decide),
      Bool.false_eq_true, false_and, if_false, if_true, wordKind]
  | symbol hblank hline hblock hmark hdigit hletter =>
    simp only [List.mem_cons, List.not_mem_nil, or_false, not_or] at hmark
    obtain ⟨h1, h2, h3, h4, h5⟩ := hmark
    have hstring : ¬ ((c = 'N' ∨ c = 'n') ∧ rest.head? = some '\'') := by
      rintro ⟨rfl | rfl, -⟩
      · exact hletter (.inl (by decide))
      · exact hletter (.inl (by decide))
    simp only [scan, hblank, hline, hblock, h1, h2, h3, h4, h5, hstring, hdigit, hletter,
      Bool.false_eq_true, if_false]

/-- What a scan takes: the first character, and a start of what follows. -/
theorem scan_isPrefix {c : Char} {rest : List Char} {l : Lexeme} (h : scan c rest = .ok l) :
    ∃ taken, l.chars = c :: taken ∧ taken <+: rest := by
  cases scans_of_scan h with
  | blank _ => exact ⟨_, rfl, List.takeWhile_prefix _⟩
  | lineComment _ => exact ⟨_, rfl, List.takeWhile_prefix _⟩
  | @blockComment rest chars hclosed =>
    refine ⟨'*' :: chars, rfl, ?_⟩
    rw [List.cons_prefix_cons]
    exact ⟨rfl, closeComments_isPrefix hclosed⟩
  | string hclosed => exact ⟨_, rfl, closeAt_isPrefix hclosed⟩
  | @letterString c rest chars _ hclosed =>
    refine ⟨'\'' :: chars, rfl, ?_⟩
    rw [List.cons_prefix_cons]
    exact ⟨rfl, closeAt_isPrefix hclosed⟩
  | bracket hclosed _ => exact ⟨_, rfl, closeAt_isPrefix hclosed⟩
  | quoted hclosed => exact ⟨_, rfl, closeAt_isPrefix hclosed⟩
  | variableName => exact ⟨_, rfl, List.takeWhile_prefix _⟩
  | tempName => exact ⟨_, rfl, List.takeWhile_prefix _⟩
  | number hdigit =>
    obtain ⟨digits, hdigits⟩ := numberOf_cons hdigit rest
    refine ⟨digits, hdigits, ?_⟩
    have hstart := numberOf_isPrefix (c :: rest)
    rw [hdigits, List.cons_prefix_cons] at hstart
    exact hstart.2
  | word _ _ _ => exact ⟨_, rfl, List.takeWhile_prefix _⟩
  | symbol _ _ _ _ _ _ => exact ⟨[], rfl, List.nil_prefix⟩

/-! ## Lexemes one after another -/

/-- The text is made up of these lexemes, each the one that a scan finds where it stands. -/
inductive Lexes : List Char → List Lexeme → Prop where
  | nil : Lexes [] []
  | cons {c : Char} {rest after : List Char} {l : Lexeme} {ls : List Lexeme}
      (scanned : scan c rest = .ok l) (cut : c :: rest = l.chars ++ after)
      (later : Lexes after ls) : Lexes (c :: rest) (l :: ls)

/-- The lexemes as tokens, the first of them at an offset. -/
def placed : (offset : Nat) → List Lexeme → List Token
  | _, [] => []
  | offset, l :: ls =>
    ⟨l.kind, String.ofList l.chars, offset⟩ :: placed (offset + Text.byteLength l.chars) ls

/-- Characters that belong to a token found before are passed over. -/
theorem tokensFrom_skip (skipped cs : List Char) (offset : Nat) :
    tokensFrom skipped.length offset (skipped ++ cs) =
      tokensFrom 0 (offset + Text.byteLength skipped) cs := by
  induction skipped generalizing offset with
  | nil => rfl
  | cons c rest ih =>
    simp only [List.length_cons, List.cons_append, tokensFrom, ih, Text.byteLength_cons,
      Nat.add_assoc]

theorem tokensFrom_cons {c : Char} {rest after : List Char} {l : Lexeme} (offset : Nat)
    (scanned : scan c rest = .ok l) (cut : c :: rest = l.chars ++ after) :
    tokensFrom 0 offset (c :: rest) =
      match tokensFrom 0 (offset + Text.byteLength l.chars) after with
      | .error e => .error e
      | .ok tokens => .ok (⟨l.kind, String.ofList l.chars, offset⟩ :: tokens) := by
  obtain ⟨taken, htaken, -⟩ := scan_isPrefix scanned
  have hrest : rest = taken ++ after := by
    rw [htaken, List.cons_append, List.cons.injEq] at cut
    exact cut.2
  have hskip := tokensFrom_skip taken after (offset + c.utf8Size)
  rw [← hrest] at hskip
  rw [tokensFrom, scanned, htaken, Text.byteLength_cons, ← Nat.add_assoc]
  cases hlater : tokensFrom 0 (offset + c.utf8Size + Text.byteLength taken) after with
  | error e => simp only [List.length_cons, Nat.add_sub_cancel, hskip, htaken, hlater]
  | ok tokens => simp only [List.length_cons, Nat.add_sub_cancel, hskip, htaken, hlater]

theorem tokensFrom_of_lexes {cs : List Char} {ls : List Lexeme} (h : Lexes cs ls) (offset : Nat) :
    tokensFrom 0 offset cs = .ok (placed offset ls) := by
  induction h generalizing offset with
  | nil => rfl
  | cons scanned cut later ih => rw [tokensFrom_cons offset scanned cut, ih]; rfl

theorem lexes_of_tokensFrom {cs : List Char} {offset : Nat} {ts : List Token}
    (h : tokensFrom 0 offset cs = .ok ts) : ∃ ls, Lexes cs ls ∧ ts = placed offset ls := by
  -- each scan takes at least one character, so the rest is shorter
  induction hn : cs.length using Nat.strongRecOn generalizing cs offset ts with
  | _ n ih =>
    cases cs with
    | nil => cases h; exact ⟨[], .nil, rfl⟩
    | cons c rest =>
      cases hscan : scan c rest with
      | error e => simp [tokensFrom, hscan] at h
      | ok l =>
        obtain ⟨taken, htaken, after, hafter⟩ := scan_isPrefix hscan
        have cut : c :: rest = l.chars ++ after := by rw [htaken, ← hafter]; rfl
        rw [tokensFrom_cons offset hscan cut] at h
        cases hlater : tokensFrom 0 (offset + Text.byteLength l.chars) after with
        | error e => rw [hlater] at h; cases h
        | ok later =>
          rw [hlater] at h
          cases h
          have hshorter : after.length < n := by
            rw [← hn, List.length_cons, ← hafter, List.length_append]
            omega
          obtain ⟨ls, hls, rfl⟩ := ih after.length hshorter hlater rfl
          exact ⟨l :: ls, .cons hscan cut hls, rfl⟩

/-- The tokens of a text are its lexemes, placed. -/
theorem tokenize_ok_iff {sql : String} {ts : List Token} :
    tokenize sql = .ok ts ↔ ∃ ls, Lexes sql.toList ls ∧ ts = placed 0 ls := by
  constructor
  · exact lexes_of_tokensFrom
  · rintro ⟨ls, hls, rfl⟩
    exact tokensFrom_of_lexes hls 0

/-! ## Tokens one after another -/

/-- Tokens without a gap between them, the first at an offset. -/
def Tiles : (offset : Nat) → List Token → Prop
  | _, [] => True
  | offset, t :: ts => t.start = offset ∧ t.text.toList ≠ [] ∧ Tiles t.stop ts

def charsOf (ts : List Token) : List Char := ts.flatMap fun t => t.text.toList

@[simp] theorem charsOf_nil : charsOf [] = [] := rfl

@[simp] theorem charsOf_cons (t : Token) (ts : List Token) :
    charsOf (t :: ts) = t.text.toList ++ charsOf ts := rfl

theorem tiles_placed {cs : List Char} {ls : List Lexeme} (h : Lexes cs ls) (offset : Nat) :
    Tiles offset (placed offset ls) ∧ charsOf (placed offset ls) = cs := by
  induction h generalizing offset with
  | nil => exact ⟨trivial, rfl⟩
  | @cons c rest after l ls scanned cut later ih =>
    obtain ⟨taken, htaken, -⟩ := scan_isPrefix scanned
    obtain ⟨htiles, hchars⟩ := ih (offset + Text.byteLength l.chars)
    refine ⟨⟨rfl, by simp [htaken], ?_⟩, ?_⟩
    · simpa [Token.stop] using htiles
    · rw [placed, charsOf_cons, hchars, String.toList_ofList, cut]

/-- The tokens of a text lie one after another from its start, none of them empty, and together
they are the text. -/
theorem tiles_of_tokenize {sql : String} {ts : List Token} (h : tokenize sql = .ok ts) :
    Tiles 0 ts ∧ charsOf ts = sql.toList := by
  obtain ⟨ls, hls, rfl⟩ := tokenize_ok_iff.mp h
  exact tiles_placed hls 0

end Migration
