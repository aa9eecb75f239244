import Migration.Proofs.ModuleNames
import Migration.Proofs.WovenNames

/-
  What a name is read as where it was put in.

  `renderPg` decides by the characters of a name whether it may stand without quotes, and
  the lexer has a table of words that are never names. This file

  1. proves that a text that was read to its end is read the same way in front of more
     text, if its last token does not run on (`Lexes.inFront`);
  2. reads a rendered name alone and between other tokens (`isOneToken_rendered`,
     `hasBetween`): it is one token, of the kind `renderedKind`;
  3. concludes for every name and for every text in which names were put that it stands
     for the name exactly where it is none of the keywords (`rendered_names_read_back`). -/

namespace Migration

open Naming (Ledger)

/-! ## In front of more text -/

theorem takeWhile_inFront {p : Char → Bool} {rest : List Char} (h : goesOn p rest = false)
    (cs : List Char) : (cs ++ rest).takeWhile p = cs.takeWhile p := by
  rw [List.takeWhile_append, takeWhile_eq_nil_of_not_goesOn h, List.append_nil]
  split
  · rename_i hlength
    exact ((List.takeWhile_prefix p).eq_of_length hlength).symm
  · rfl

theorem goesOn_inFront {p : Char → Bool} {rest : List Char} (h : goesOn p rest = false)
    (cs : List Char) : goesOn p (cs ++ rest) = goesOn p cs := by
  cases cs with
  | nil => exact h
  | cons c cs => rfl

/-- A number in base ten is a whole part, a fraction of what is behind that, and an exponent of what
is left. -/
theorem decimalOf_pieces {cs whole behind left : List Char} (hcs : cs = whole ++ behind)
    (hwhole : cs.takeWhile Char.isDigit = whole) (hleft : behind = fractionOf behind ++ left) :
    decimalOf cs = whole ++ fractionOf behind ++ exponentOf left := by
  have hbehind : cs.drop whole.length = behind := by rw [hcs, List.drop_left]
  have hdrop : cs.drop (whole.length + (fractionOf behind).length) = left := by
    have hdropped : (fractionOf behind ++ left).drop (fractionOf behind).length = left :=
      List.drop_left
    rw [← List.drop_drop, hbehind, ← hleft] at *
    exact hdropped
  simp only [decimalOf, hwhole, hbehind, hdrop]

/-- What may come behind the letter of an exponent. -/
def isDigitOrSign (c : Char) : Bool := c.isDigit || c == '+' || c == '-'

section

variable {rest : List Char} (hrest : goesOn isDigitOrSign rest = false)
include hrest

theorem not_goesOn_isDigit : goesOn Char.isDigit rest = false := by
  cases rest with
  | nil => rfl
  | cons d rest =>
    have hd : isDigitOrSign d = false := by simpa [goesOn] using hrest
    simp only [isDigitOrSign, Bool.or_eq_false_iff] at hd
    simpa [goesOn] using hd.1.1

theorem fractionOf_inFront {cs : List Char} (h : cs ≠ []) :
    fractionOf (cs ++ rest) = fractionOf cs := by
  cases cs with
  | nil => exact absurd rfl h
  | cons c cs =>
    by_cases hc : c = '.'
    · subst hc
      rw [List.cons_append, fractionOf, fractionOf, takeWhile_inFront (not_goesOn_isDigit hrest)]
    · have hnone (digits : List Char) : fractionOf (c :: digits) = [] := by
        unfold fractionOf
        split
        · rename_i heq
          exact absurd (List.cons.inj heq).1 hc
        · rfl
      rw [List.cons_append, hnone, hnone]

theorem exponentOf_inFront {cs : List Char} (h : cs ≠ []) :
    exponentOf (cs ++ rest) = exponentOf cs := by
  have hdigit := not_goesOn_isDigit hrest
  match cs with
  | [] => exact absurd rfl h
  | [e] =>
    have hnone : exponentOf [e] = [] := by simp [exponentOf]
    cases rest with
    | nil => rfl
    | cons d rest =>
      have hd : isDigitOrSign d = false := by simpa [goesOn] using hrest
      simp only [isDigitOrSign, Bool.or_eq_false_iff, beq_eq_false_iff_ne] at hd
      rw [hnone]
      simp [exponentOf, hd.1.1, hd.1.2, hd.2]
  | e :: s :: after =>
    have htake := takeWhile_inFront hdigit (s :: after)
    rw [List.cons_append] at htake
    have hhead : (after ++ rest).head?.any Char.isDigit = after.head?.any Char.isDigit :=
      goesOn_inFront hdigit after
    simp only [List.cons_append, exponentOf, takeWhile_inFront hdigit after, htake, hhead]

theorem decimalOf_inFront {cs : List Char} (h : decimalOf cs ≠ cs) :
    decimalOf (cs ++ rest) = decimalOf cs := by
  have hwhole := takeWhile_inFront (not_goesOn_isDigit hrest) cs
  obtain ⟨behind, hbehind⟩ := List.takeWhile_prefix (p := Char.isDigit) (l := cs)
  obtain ⟨left, hleft⟩ := fractionOf_isPrefix behind
  have hdecimal := decimalOf_pieces hbehind.symm rfl hleft.symm
  have hne : left ≠ [] := by
    rintro rfl
    rw [List.append_nil] at hleft
    exact h (by rw [hdecimal, hleft, hbehind, exponentOf, List.append_nil])
  have hfraction : fractionOf (behind ++ rest) = fractionOf behind := by
    refine fractionOf_inFront hrest fun hnil => hne ?_
    rw [hnil] at hleft
    exact (List.append_eq_nil_iff.mp hleft).2
  have hbehind' : cs ++ rest = (cs ++ rest).takeWhile Char.isDigit ++ (behind ++ rest) := by
    rw [hwhole, ← List.append_assoc, hbehind]
  have hleft' : behind ++ rest = fractionOf (behind ++ rest) ++ (left ++ rest) := by
    rw [hfraction, ← List.append_assoc, hleft]
  rw [decimalOf_pieces hbehind' rfl hleft', hwhole, hfraction, exponentOf_inFront hrest hne,
    hdecimal]

theorem numberOf_inFront {cs : List Char} (h : numberOf cs ≠ cs) :
    numberOf (cs ++ rest) = numberOf cs := by
  by_cases hhex : ∃ x digits, cs = '0' :: x :: digits ∧ (x = 'x' ∨ x = 'X')
  · obtain ⟨x, digits, rfl, hx⟩ := hhex
    rw [numberOf_hex hx] at h
    rw [List.cons_append, List.cons_append, numberOf_hex hx, numberOf_hex hx, List.takeWhile_append]
    split
    · rename_i hlength
      exact absurd (by rw [(List.takeWhile_prefix _).eq_of_length hlength]) h
    · rfl
  · have hdecimal : numberOf cs = decimalOf cs :=
      numberOf_decimal fun x digits hcs hx => hhex ⟨x, digits, hcs, hx⟩
    have hdecimal' : numberOf (cs ++ rest) = decimalOf (cs ++ rest) := by
      refine numberOf_decimal fun x digits hcs hx => ?_
      match cs with
      | [] => exact h rfl
      | [c] =>
        obtain ⟨rfl, -⟩ := List.cons.inj hcs
        exact h rfl
      | c :: d :: cs =>
        rw [List.cons_append, List.cons_append, List.cons.injEq, List.cons.injEq] at hcs
        obtain ⟨rfl, rfl, -⟩ := hcs
        exact hhex ⟨d, cs, rfl, hx⟩
    rw [hdecimal] at h ⊢
    rw [hdecimal', decimalOf_inFront hrest h]

/-- Of a token that ends in front of some text the end stays where more comes behind the text. -/
theorem not_runsOn_inFront {l : Lexeme} {later : List Char} (h : ¬ RunsOn l later)
    (hlater : later ≠ []) : ¬ RunsOn l (later ++ rest) := by
  by_cases hnumber : l.kind = .numberLiteral
  · obtain ⟨kind, chars⟩ := l
    obtain rfl : kind = .numberLiteral := hnumber
    have hsame : numberOf (chars ++ later) = chars := Decidable.not_not.mp h
    have hleft : numberOf (chars ++ later) ≠ chars ++ later := by
      rw [hsame]
      exact fun heq => hlater (List.self_eq_append_right.mp heq)
    refine not_not_intro ?_
    rw [← List.append_assoc, numberOf_inFront hrest hleft]
    exact hsame
  · have hhead : (later ++ rest).head? = later.head? := List.head?_append_of_ne_nil _ hlater
    exact fun hon => h ((runsOn_congr hnumber hhead).mp hon)

/-- A text that was read to its end is read the same way in front of more text, if its last token
does not run on. -/
theorem Lexes.inFront {cs : List Char} {ls : List Lexeme} (h : Lexes cs ls)
    (hlast : ∀ l, ls.getLast? = some l → ¬ RunsOn l rest) : Reads rest (cs ++ rest) ls := by
  induction h with
  | nil => exact .done
  | @cons c more after l ls scanned cut later ih =>
    have hends : ¬ RunsOn l (after ++ rest) := by
      cases later with
      | nil => exact hlast l rfl
      | cons _ _ _ =>
        exact not_runsOn_inFront hrest (not_runsOn_of_scan scanned cut) (List.cons_ne_nil _ _)
    have hscan := scan_again scanned hends
    have hlater := ih fun m hm => hlast m (by rw [List.getLast?_cons, hm]; rfl)
    obtain ⟨taken, htaken, -⟩ := scan_isPrefix scanned
    rw [htaken] at hscan cut
    obtain rfl : more = taken ++ after := (List.cons.inj cut).2
    rw [List.cons_append, List.append_assoc]
    exact .cons hscan (by rw [htaken]; rfl) hlater

end

/-! ## Rendered names -/

theorem isBareName_of_keyword : ∀ word ∈ keywords, isBareName word = true := by decide +kernel

/-- What a bare name holds has no other small form. -/
theorem toLower_of_isBareRest {c : Char} (h : isBareRest c = true) : c.toLower = c := by
  refine dif_neg fun hupper => ?_
  have hA : 65 ≤ c.toNat := UInt32.le_iff_toNat_le.mp hupper.1
  have hZ : c.toNat ≤ 90 := UInt32.le_iff_toNat_le.mp hupper.2
  simp only [isBareRest, Bool.or_eq_true, beq_iff_eq] at h
  rcases h with ((hlower | hdigit) | rfl) | rfl
  · have h97 := (toNat_of_isLower hlower).1
    omega
  · have h58 := isDigit_lt hdigit
    omega
  · exact absurd hZ (by decide)
  · exact absurd hA (by decide)

theorem isBareRest_of_bareName {name : String} (h : isBareName name = true) :
    ∀ c ∈ name.toList, isBareRest c = true := by
  unfold isBareName at h
  split at h
  · cases h
  · rename_i c more hchars
    obtain ⟨hstart, hmore⟩ := Bool.and_eq_true_iff.mp h
    have hc : isBareRest c = true := by
      rcases Bool.or_eq_true_iff.mp hstart with hlower | hunder
      · simp [isBareRest, hlower]
      · simp [isBareRest, hunder]
    rw [hchars]
    exact List.forall_mem_cons.mpr ⟨hc, List.all_eq_true.mp hmore⟩

theorem isKeyword_bareName {name : String} (h : isBareName name = true) :
    isKeyword name = true ↔ name ∈ keywords := by
  have hlower : name.toList.map Char.toLower = name.toList :=
    (List.map_congr_left fun c hc => toLower_of_isBareRest (isBareRest_of_bareName h c hc)).trans
      (List.map_id _)
  rw [isKeyword, hlower, String.ofList_toList, List.contains_iff_mem]

/-- A rendered name is the name itself where that is bare, and else stands between quotes. -/
theorem renderPg_cases {name text : String} (h : renderPg name = .ok text) :
    isBareName name = true ∧ text = name ∨
      ¬ isBareName name = true ∧ text = enclosed '"' '"' name := by
  unfold renderPg at h
  split at h
  · rename_i hbare
    obtain ⟨-, -, hname⟩ := Outcome.bind_ok h
    exact .inl ⟨hbare, (Except.ok.inj hname).symm⟩
  · rename_i hquoted
    exact .inr ⟨hquoted, quotePg_ok h⟩

/-- The kind of the token that a rendered name is. -/
def renderedKind (name : String) : TokenKind :=
  if isBareName name then wordKind name.toList else .quotedIdentifier

/-- The token is an identifier, and stands for the name. -/
structure Token.Names (t : Token) (name : String) : Prop where
  kind : t.kind = .identifier ∨ t.kind = .quotedIdentifier
  name : t.identifierName = name

/-- The text goes on with something that is neither part of a word nor a quote. -/
def Parted (after : List Char) : Prop :=
  ∀ c ∈ after.head?, isWordChar c = false ∧ c ≠ '"' ∧ c ≠ '\''

/-- The text begins like a name, and is one token in front of every text that is parted from it. -/
structure IsOneToken (text : String) (kind : TokenKind) : Prop where
  start : ∃ c more, text.toList = c :: more ∧ isNameStart c = true
  reads : ∀ after, Parted after → Reads after (text.toList ++ after) [⟨kind, text.toList⟩]

theorem isOneToken_bare {name : String} (h : isBareName name = true) :
    IsOneToken name (wordKind name.toList) := by
  obtain ⟨c, more, hchars, hname, -, -, hscan⟩ := scan_bareName h
  refine ⟨⟨c, more, hchars, hname⟩, fun after hafter => ?_⟩
  have hends : ¬ RunsOn ⟨wordKind name.toList, name.toList⟩ after := by
    rw [runsOn_word, goesOn, Option.any_eq_true]
    rintro (⟨d, hd, hword⟩ | ⟨-, hhead⟩)
    · rw [(hafter d hd).1] at hword
      cases hword
    · exact (hafter '\'' hhead).2.2 rfl
  have hagain := scan_again hscan hends
  rw [hchars] at hagain ⊢
  exact .cons hagain rfl .done

theorem isOneToken_quoted (name : String) :
    IsOneToken (enclosed '"' '"' name) .quotedIdentifier := by
  refine ⟨⟨'"', _, toList_enclosed _ _ _, by decide⟩, fun after hafter => ?_⟩
  exact reads_enclosed .double after nofun fun hhead => (hafter '"' hhead).2.1 rfl

theorem isOneToken_rendered {name text : String} (h : renderPg name = .ok text) :
    IsOneToken text (renderedKind name) := by
  unfold renderedKind
  rcases renderPg_cases h with ⟨hbare, rfl⟩ | ⟨hquoted, rfl⟩
  · rw [if_pos hbare]
    exact isOneToken_bare hbare
  · rw [if_neg hquoted]
    exact isOneToken_quoted name

theorem tokenize_rendered {name text : String} (h : renderPg name = .ok text) :
    tokenize text = .ok [⟨renderedKind name, text, 0⟩] := by
  have hreads := (isOneToken_rendered h).reads [] fun _ hc => nomatch hc
  rw [List.append_nil] at hreads
  simpa [placed] using tokenize_of_reads hreads

theorem renderedKind_bareName {name : String} (h : isBareName name = true) :
    renderedKind name = if name ∈ keywords then .keyword else .identifier := by
  rw [renderedKind, if_pos h, wordKind, String.ofList_toList]
  simp only [isKeyword_bareName h]

theorem names_quoted (name : String) (start : Nat) :
    (Token.mk .quotedIdentifier (enclosed '"' '"' name) start).Names name :=
  ⟨.inr rfl, identifierName_quoted name start⟩

/-- A rendered name stands for the name where it is no keyword. -/
theorem names_rendered_iff {name text : String} (h : renderPg name = .ok text) (start : Nat) :
    (Token.mk (renderedKind name) text start).Names name ↔ name ∉ keywords := by
  rcases renderPg_cases h with ⟨hbare, rfl⟩ | ⟨hquoted, rfl⟩
  · rw [renderedKind_bareName hbare]
    by_cases hword : text ∈ keywords
    · rw [if_pos hword]
      exact iff_of_false (fun hnames => nomatch hnames.kind) (not_not_intro hword)
    · rw [if_neg hword]
      exact iff_of_true ⟨.inl rfl, rfl⟩ hword
  · rw [renderedKind, if_neg hquoted]
    refine iff_of_true (names_quoted name start) fun hword => ?_
    exact hquoted (isBareName_of_keyword name hword)

theorem tokenize_keyword {name text : String} (h : renderPg name = .ok text)
    (hword : name ∈ keywords) : text = name ∧ tokenize text = .ok [⟨.keyword, name, 0⟩] := by
  have hbare := isBareName_of_keyword name hword
  have htokens := tokenize_rendered h
  rw [renderedKind_bareName hbare, if_pos hword] at htokens
  rcases renderPg_cases h with ⟨-, rfl⟩ | ⟨hquoted, -⟩
  · exact ⟨rfl, htokens⟩
  · exact absurd hbare hquoted

/-! ## Between other tokens -/

/-- The text ends with white space or punctuation, or with a comment that is closed. -/
def EndsApart (ts : List Token) : Prop :=
  ∀ t, ts.getLast? = some t → t.kind = .whitespace ∨ t.kind = .blockComment ∨ t.kind = .symbol

/-- The text begins with white space, a comment, or punctuation that no word may hold. -/
def BeginsApart (ts : List Token) : Prop :=
  ∀ t, ts.head? = some t → t.kind = .whitespace ∨ t.kind = .lineComment ∨ t.kind = .blockComment ∨
    t.kind = .symbol ∧ ∀ c ∈ t.text.toList, isWordChar c = false

theorem ne_of_isBlank {c d : Char} (h : Text.isBlank c = true) (hd : Text.isBlank d = false) :
    c ≠ d := by
  rintro rfl
  rw [h] at hd
  cases hd

theorem not_isWordChar_of_isBlank {c : Char} (h : Text.isBlank c = true) :
    isWordChar c = false := by
  have apart : ∀ r ∈ Text.blankRanges, ∀ s ∈ Text.numberRanges, r.2 < s.1 ∨ s.2 < r.1 := by
    decide +kernel
  have hnumber : Text.inRanges Text.numberRanges c.toNat = false := by
    refine eq_false_of_ne_true fun hnumber => ?_
    obtain ⟨r, hr, hlow, hhigh⟩ := mem_of_inRanges h
    obtain ⟨s, hs, hlow', hhigh'⟩ := mem_of_inRanges hnumber
    have hapart := apart r hr s hs
    omega
  have hunder : c ≠ '_' := ne_of_isBlank h (by decide)
  have hat : c ≠ '@' := ne_of_isBlank h (by decide)
  have hdollar : c ≠ '$' := ne_of_isBlank h (by decide)
  have hhash : c ≠ '#' := ne_of_isBlank h (by decide)
  simp [isWordChar, Text.isLetterOrNumber, not_isLetter_of_isBlank h, hnumber, hunder, hat, hdollar,
    hhash]

theorem parted_of_beginsApart {after : List Char} {ls : List Lexeme} {offset : Nat}
    (h : Lexes after ls) (hapart : BeginsApart (placed offset ls)) : Parted after := by
  cases h with
  | nil => exact fun _ hc => nomatch hc
  | @cons c rest later l ls scanned cut more =>
    rintro d ⟨⟩
    have hkind := hapart _ rfl
    cases scans_of_scan scanned with
    | blank hblank =>
      exact ⟨not_isWordChar_of_isBlank hblank, ne_of_isBlank hblank (by decide),
        ne_of_isBlank hblank (by decide)⟩
    | lineComment _ => decide
    | blockComment _ => decide
    | symbol _ _ _ hmark _ _ =>
      simp only [List.mem_cons, not_or] at hmark
      obtain hkind | hkind | hkind | ⟨-, hword⟩ := hkind
      · cases hkind
      · cases hkind
      · cases hkind
      · exact ⟨hword c (by simp), hmark.2.2.1, hmark.1⟩
    | word _ _ _ =>
      rcases wordKind_cases (c :: rest.takeWhile isWordChar) with hword | hword
      · simp [hword] at hkind
      · simp [hword] at hkind
    | _ => simp at hkind

theorem placed_append (offset : Nat) (ls ls' : List Lexeme) :
    placed offset (ls ++ ls') =
      placed offset ls ++ placed (offset + Text.byteLength (ls.flatMap Lexeme.chars)) ls' := by
  induction ls generalizing offset with
  | nil => rfl
  | cons l ls ih =>
    rw [List.cons_append, placed, ih, placed, List.flatMap_cons, Text.byteLength_append,
      List.cons_append, Nat.add_assoc]

theorem kind_placed (offset : Nat) (ls : List Lexeme) :
    (placed offset ls).map Token.kind = ls.map Lexeme.kind := by
  induction ls generalizing offset with
  | nil => rfl
  | cons l ls ih => rw [placed, List.map_cons, List.map_cons, ih]

theorem not_isDigitOrSign_of_isNameStart {c : Char} (h : isNameStart c = true) :
    isDigitOrSign c = false := by
  rcases isNameStart_cases h with rfl | hlower | rfl
  · decide
  · have hne {d : Char} (hd : d.isLower = false) : c ≠ d := by
      rintro rfl
      rw [hlower] at hd
      cases hd
    have hdigit : c.isDigit = false :=
      not_isDigit_of_isWordStart (by simp [isWordStart, isLetter_of_isLower hlower])
    simp [isDigitOrSign, hdigit, hne (d := '+') (by decide), hne (d := '-') (by decide)]
  · decide

theorem not_runsOn_of_endsApart {l : Lexeme} {rest : List Char}
    (hkind : l.kind = .whitespace ∨ l.kind = .blockComment ∨ l.kind = .symbol)
    {c : Char} (hc : isNameStart c = true) : ¬ RunsOn l (c :: rest) := by
  obtain ⟨kind, chars⟩ := l
  obtain rfl | rfl | rfl := hkind
  · show ¬ Text.isBlank c = true
    simp [not_isBlank_of_isNameStart hc]
  · exact id
  · rintro (⟨-, hhead⟩ | ⟨-, hhead⟩)
    · cases hhead
      exact absurd hc (by decide)
    · cases hhead
      exact absurd hc (by decide)

/-- The text has a token with the tokens of one text in front of it and those of another behind
it. -/
def HasBetween (sql : String) (ts : List Token) (u : Token) (us : List Token) : Prop :=
  ∃ vs, tokenize sql = .ok (ts ++ u :: vs) ∧ vs.map (·.movedBack u.stop) = us

/-- One token between white space or punctuation stays one, and the texts on both sides keep
theirs. -/
theorem hasBetween {text before after : String} {kind : TokenKind} {ts us : List Token}
    (h : IsOneToken text kind) (hbefore : tokenize before = .ok ts)
    (hafter : tokenize after = .ok us) (hends : EndsApart ts) (hbegins : BeginsApart us) :
    HasBetween (before ++ text ++ after) ts ⟨kind, text, Text.byteLength before.toList⟩ us := by
  obtain ⟨ls, hls, rfl⟩ := tokenize_ok_iff.mp hbefore
  obtain ⟨ms, hms, rfl⟩ := tokenize_ok_iff.mp hafter
  obtain ⟨c, more, hchars, hc⟩ := h.start
  have hlast : ∀ l, ls.getLast? = some l → ¬ RunsOn l (text.toList ++ after.toList) := by
    intro l hl
    have hkinds := congrArg List.getLast? (kind_placed 0 ls)
    rw [List.getLast?_map, List.getLast?_map, hl, Option.map_some] at hkinds
    obtain ⟨t, ht, hkind⟩ := Option.map_eq_some_iff.mp hkinds
    rw [hchars, List.cons_append]
    exact not_runsOn_of_endsApart (hkind ▸ hends t ht) hc
  have hsign : goesOn isDigitOrSign (text.toList ++ after.toList) = false := by
    rw [hchars, goesOn, List.cons_append, List.head?_cons, Option.any_some]
    exact not_isDigitOrSign_of_isNameStart hc
  have hname := h.reads after.toList (parted_of_beginsApart hms hbegins)
  have hreads := (hls.inFront hsign hlast).append (hname.append (reads_nil_iff.mpr hms))
  have hwhole : before ++ text ++ after =
      String.ofList (before.toList ++ (text.toList ++ after.toList)) :=
    String.toList_injective (by simp)
  have hbytes : ls.flatMap Lexeme.chars = before.toList := by
    rw [(reads_nil_iff.mpr hls).chars, List.append_nil]
  refine ⟨_, ?_, map_movedBack_placed _ 0 ms⟩
  rw [hwhole, tokenize_of_reads hreads, placed_append, hbytes, List.singleton_append, placed,
    String.ofList_toList, Nat.zero_add, Nat.add_zero]
  rfl

theorem NewText.of_other {ledger : Ledger} {reserved : List String} {before : List Token}
    {t : Token}
    {text : String} (h : NewText ledger reserved before t text) (hname : t.isIdentifier = false)
    (hliteral : t.kind ≠ .stringLiteral) : text = t.text := by
  cases h with
  | name identifier =>
    rw [identifier] at hname
    cases hname
  | aliased literal => exact absurd literal hliteral
  | kept => rfl

theorem NewText.of_literal {ledger : Ledger} {reserved : List String} {before : List Token}
    {t : Token} {text : String} (h : NewText ledger reserved before t text)
    (hliteral : t.kind = .stringLiteral) (hchanged : text ≠ t.text) :
    text = enclosed '"' '"' t.stringValue := by
  cases h with
  | name identifier =>
    rw [not_isIdentifier_of_literal hliteral] at identifier
    cases identifier
  | aliased _ _ written => exact quotePg_ok written
  | kept => exact absurd rfl hchanged

/-- A name is read back from its rendering exactly where it is none of the keywords; a keyword is
rendered as it stands, and read as a keyword. The same holds for the names in a text into which
names were put. Where one stands between white space or punctuation it is one token there, with the
tokens of the text in front of it and of the text behind it on both sides. That token is an
identifier for the name exactly where the name is none of the keywords, and always where the name
came from a literal. -/
theorem rendered_names_read_back (sql : String) (ledger : Ledger) (reserved : List String) :
    (∀ name text, renderPg name = .ok text →
      ((∃ t, tokenize text = .ok [t] ∧ t.Names name) ↔ name ∉ keywords) ∧
      (name ∈ keywords → text = name ∧ tokenize text = .ok [⟨.keyword, name, 0⟩])) ∧
    ∀ out, substituteNames sql ledger reserved = .ok out →
      ∃ tokens texts, tokenize sql = .ok tokens ∧ NewTexts ledger reserved [] tokens texts ∧
        out = String.join texts ∧
        ∀ i t text, tokens[i]? = some t → texts[i]? = some text →
          ∀ ts us, tokenize (String.join (texts.take i)) = .ok ts →
            tokenize (String.join (texts.drop (i + 1))) = .ok us → EndsApart ts → BeginsApart us →
            (t.isIdentifier = true →
              ∃ name u, NameFor ledger reserved t.identifierName name ∧ renderPg name = .ok text ∧
                u.text = text ∧ HasBetween out ts u us ∧ (u.Names name ↔ name ∉ keywords)) ∧
            (t.kind = .stringLiteral → text ≠ t.text →
              ∃ u, u.text = text ∧ HasBetween out ts u us ∧ u.Names t.stringValue) := by
  constructor
  · intro name text h
    refine ⟨?_, tokenize_keyword h⟩
    rw [tokenize_rendered h, ← names_rendered_iff h 0]
    constructor
    · rintro ⟨t, ht, hnames⟩
      obtain ⟨rfl, -⟩ := List.cons.inj (Except.ok.inj ht)
      exact hnames
    · exact fun hnames => ⟨_, rfl, hnames⟩
  · intro out h
    obtain ⟨tokens, texts, htokens, htexts, rfl⟩ := substituteNames_ok_iff.mp h
    refine ⟨tokens, texts, htokens, htexts, rfl, ?_⟩
    intro i t text ht htext ts us hbefore hafter hends hbegins
    obtain ⟨earlier, hnew⟩ := htexts.newText_at ht htext
    have hlist : texts = texts.take i ++ text :: texts.drop (i + 1) := by
      conv_lhs => rw [← List.take_append_drop i texts, List.drop_eq_getElem?_toList_append, htext]
      rfl
    have hparts : String.join texts =
        String.join (texts.take i) ++ text ++ String.join (texts.drop (i + 1)) := by
      rw [String.append_assoc, ← String.join_cons, ← String.join_append, ← hlist]
    rw [hparts]
    refine ⟨fun hidentifier => ?_, fun hliteral hchanged => ?_⟩
    · obtain ⟨name, hname, hrendered⟩ := hnew.of_identifier hidentifier
      have hbetween := hasBetween (isOneToken_rendered hrendered) hbefore hafter hends hbegins
      exact ⟨name, _, hname, hrendered, rfl, hbetween, names_rendered_iff hrendered _⟩
    · obtain rfl := hnew.of_literal hliteral hchanged
      have hbetween := hasBetween (isOneToken_quoted t.stringValue) hbefore hafter hends hbegins
      exact ⟨⟨.quotedIdentifier, _, _⟩, rfl, hbetween, names_quoted _ _⟩

/-- A name between parentheses is read back. -/
theorem name_in_parentheses_reads_back :
    substituteNames "([UserId])" .empty [] = .ok "(user_id)" ∧
      ∃ u, HasBetween "(user_id)" [⟨.symbol, "(", 0⟩] u [⟨.symbol, ")", 0⟩] ∧
        u.Names "user_id" := by
  obtain ⟨-, htexts⟩ := rendered_names_read_back "([UserId])" .empty []
  obtain ⟨tokens, texts, htokens, hnew, -, hnames⟩ := htexts "(user_id)" rfl
  have hsource : tokenize "([UserId])" =
      .ok [⟨.symbol, "(", 0⟩, ⟨.bracketIdentifier, "[UserId]", 1⟩, ⟨.symbol, ")", 9⟩] := rfl
  obtain rfl := Except.ok.inj (hsource.symm.trans htokens)
  obtain ⟨opening, text, closing, rfl⟩ := List.length_eq_three.mp (length_newTexts hnew)
  -- the parentheses stay
  obtain ⟨_, hopening⟩ := hnew.newText_at (i := 0) rfl rfl
  obtain ⟨_, hclosing⟩ := hnew.newText_at (i := 2) rfl rfl
  obtain rfl := hopening.of_other rfl nofun
  obtain rfl := hclosing.of_other rfl nofun
  have hbefore : tokenize "(" = .ok [⟨.symbol, "(", 0⟩] := rfl
  have hafter : tokenize ")" = .ok [⟨.symbol, ")", 0⟩] := rfl
  have hword : isWordChar ')' = false := by decide
  obtain ⟨hname, -⟩ := hnames 1 _ text rfl rfl _ _ (by simpa using hbefore) (by simpa using hafter)
    (by simp [EndsApart]) (by simp [BeginsApart, hword])
  obtain ⟨name, u, hfor, -, -, hbetween, hiff⟩ := hname rfl
  have hgiven : targetName .empty [] "UserId" = .ok "user_id" := rfl
  obtain rfl := Except.ok.inj (hgiven.symm.trans (targetName_of_nameFor hfor))
  exact ⟨rfl, u, hbetween, hiff.mpr (by decide +kernel)⟩

/-- A reserved word between brackets is put in without quotes, and is read as a keyword. -/
theorem reserved_word_loses_quotes :
    renderPg "order" = .ok "order" ∧ tokenize "order" = .ok [⟨.keyword, "order", 0⟩] ∧
      (¬ ∃ t, tokenize "order" = .ok [t] ∧ t.Names "order") ∧
      substituteNames "SELECT [order] FROM t" .empty [] = .ok "SELECT order FROM t" := by
  have hwritten : renderPg "order" = .ok "order" := rfl
  have hread : tokenize "order" = .ok [⟨.keyword, "order", 0⟩] := rfl
  refine ⟨hwritten, hread, ?_, rfl⟩
  rintro ⟨t, ht, hnames⟩
  rw [hread] at ht
  obtain ⟨rfl, -⟩ := List.cons.inj (Except.ok.inj ht)
  exact nomatch hnames.kind

end Migration
