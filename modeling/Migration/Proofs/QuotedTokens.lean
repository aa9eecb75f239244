import Migration.Proofs.OpenDelimiters

/-
  Quoting and lexing.

  A name or a value goes into a statement between marks (`enclosed`), and comes out of
  a token by leaving the marks out (`Token.identifierName`, `Token.stringValue`). This
  file

  1. proves that what is read up to a closing mark was written by doubling
     (`Closed.exists_doubled`);
  2. proves that an enclosed text is scanned as one token in front of any text that
     does not begin with the closing mark (`scan_enclosed`), and that every quoted token
     is an enclosed text (`enclosed_of_token`);
  3. puts both directions together (`quoting_inverts_lexing`). -/

namespace Migration

variable {mark : Char}

theorem Closed.exists_doubled {taken : List Char} (h : Closed mark taken) :
    ∃ value, taken = doubled mark value ++ [mark] := by
  induction h with
  | last => exact ⟨[], rfl⟩
  | pair later ih =>
    obtain ⟨value, rfl⟩ := ih
    exact ⟨mark :: value, by rw [doubled, if_pos rfl]; rfl⟩
  | @other c chars ne later ih =>
    obtain ⟨value, rfl⟩ := ih
    exact ⟨c :: value, by rw [doubled, if_neg ne]; rfl⟩

theorem doubled_ne_nil {cs : List Char} (h : cs ≠ []) : doubled mark cs ≠ [] := by
  cases cs with
  | nil => exact absurd rfl h
  | cons c cs =>
    rw [doubled]
    by_cases hc : c = mark
    · rw [if_pos hc]
      exact List.cons_ne_nil _ _
    · rw [if_neg hc]
      exact List.cons_ne_nil _ _

/-! ## Kinds of quoted tokens -/

/-- The tokens of the kind stand between these marks. -/
inductive QuotedBy : TokenKind → (opening closing : Char) → Prop where
  | double : QuotedBy .quotedIdentifier '"' '"'
  | bracket : QuotedBy .bracketIdentifier '[' ']'
  | single : QuotedBy .stringLiteral '\'' '\''

/-- An enclosed text is one token in front of any text that does not begin with the closing mark.
Brackets have to hold something. -/
theorem scan_enclosed {kind : TokenKind} {opening closing : Char}
    (hkind : QuotedBy kind opening closing) {value : List Char} {after : List Char}
    (hvalue : kind = .bracketIdentifier → value ≠ []) (hafter : after.head? ≠ some closing) :
    scan opening (doubled closing value ++ closing :: after) =
      .ok ⟨kind, opening :: (doubled closing value ++ [closing])⟩ := by
  have hread := closeAt_doubled value hafter
  cases hkind with
  | double => exact scan_of_scans (.quoted hread)
  | single => exact scan_of_scans (.string hread)
  | bracket =>
    -- brackets around nothing are refused
    refine scan_of_scans (.bracket hread ?_)
    intro hempty
    exact doubled_ne_nil (hvalue rfl) (List.append_left_eq_self.mp hempty)

theorem reads_enclosed {kind : TokenKind} {opening closing : Char}
    (hkind : QuotedBy kind opening closing) {s : String} (after : List Char)
    (hs : kind = .bracketIdentifier → s ≠ "") (hafter : after.head? ≠ some closing) :
    Reads after ((enclosed opening closing s).toList ++ after)
      [⟨kind, (enclosed opening closing s).toList⟩] := by
  have hvalue : kind = .bracketIdentifier → s.toList ≠ [] := by
    intro hk hnil
    exact hs hk (String.toList_eq_nil_iff.mp hnil)
  have hscan := scan_enclosed hkind hvalue hafter
  have hcut : (enclosed opening closing s).toList ++ after =
      opening :: (doubled closing s.toList ++ closing :: after) := by
    rw [toList_enclosed, List.cons_append, List.append_assoc]
    rfl
  rw [hcut, toList_enclosed]
  exact .cons hscan (by rw [← toList_enclosed, hcut]) .done

theorem tokenize_enclosed {kind : TokenKind} {opening closing : Char}
    (hkind : QuotedBy kind opening closing) {s : String}
    (hs : kind = .bracketIdentifier → s ≠ "") :
    tokenize (enclosed opening closing s) = .ok [⟨kind, enclosed opening closing s, 0⟩] := by
  have hreads := reads_enclosed hkind [] hs (by simp)
  rw [List.append_nil] at hreads
  simpa [placed] using tokenize_of_reads hreads

/-! ## What a quoted token stands for -/

theorem halved_inner (opening closing : Char) (s : String) :
    String.ofList (halved closing (enclosed opening closing s).toList.tail.dropLast) = s := by
  rw [toList_enclosed, List.tail_cons, List.dropLast_concat, halved_doubled, String.ofList_toList]

theorem identifierName_quoted (s : String) (start : Nat) :
    (Token.mk .quotedIdentifier (enclosed '"' '"' s) start).identifierName = s :=
  halved_inner '"' '"' s

theorem identifierName_bracketed (s : String) (start : Nat) :
    (Token.mk .bracketIdentifier (enclosed '[' ']' s) start).identifierName = s :=
  halved_inner '[' ']' s

/-- The letter N that may stand in front of a string literal. -/
def IsLetterPrefix (letter : String) : Prop := letter = "" ∨ letter = "N" ∨ letter = "n"

theorem stringValue_literal {letter : String} (hletter : IsLetterPrefix letter) (s : String)
    (start : Nat) :
    (Token.mk .stringLiteral (letter ++ quotePgLiteral s) start).stringValue = s := by
  have hinner := halved_inner '\'' '\'' s
  rw [toList_enclosed] at hinner
  rcases hletter with rfl | rfl | rfl
  all_goals
    rw [Token.stringValue, quotePgLiteral, String.toList_append, toList_enclosed]
    exact hinner

/-- Every quoted token is an enclosed text, which may have the letter N in front of it where it is a
string literal. -/
theorem enclosed_of_token {sql : String} {ts : List Token} {t : Token} {opening closing : Char}
    (h : tokenize sql = .ok ts) (ht : t ∈ ts) (hkind : QuotedBy t.kind opening closing) :
    ∃ letter s, t.text = letter ++ enclosed opening closing s ∧ IsLetterPrefix letter ∧
      (t.kind ≠ .stringLiteral → letter = "") := by
  obtain ⟨before, after, rfl⟩ := List.append_of_mem ht
  obtain ⟨c, rest, scanned, cut⟩ := scan_of_tokenize h
  have hclosed := closedIn_of_scan scanned cut
  obtain ⟨kind, text, start⟩ := t
  have henclosed (letter : String) {taken : List Char} (hclosed : Closed closing taken)
      (htext : text.toList = letter.toList ++ opening :: taken) :
      ∃ s, text = letter ++ enclosed opening closing s := by
    obtain ⟨value, rfl⟩ := hclosed.exists_doubled
    refine ⟨String.ofList value, ?_⟩
    rw [← String.toList_inj, String.toList_append, toList_enclosed, htext, String.toList_ofList]
  cases hkind with
  | double =>
    obtain ⟨taken, htext, hcloses, -⟩ := hclosed
    obtain ⟨s, hs⟩ := henclosed "" hcloses htext
    exact ⟨"", s, hs, .inl rfl, fun _ => rfl⟩
  | bracket =>
    obtain ⟨taken, htext, -, hcloses, -⟩ := hclosed
    obtain ⟨s, hs⟩ := henclosed "" hcloses htext
    exact ⟨"", s, hs, .inl rfl, fun _ => rfl⟩
  | single =>
    obtain ⟨letter, taken, htext, hletter, hcloses, -⟩ := hclosed
    have hprefix : IsLetterPrefix (String.ofList letter) := by
      rcases hletter with rfl | rfl | rfl
      · exact .inl rfl
      · exact .inr (.inl rfl)
      · exact .inr (.inr rfl)
    obtain ⟨s, hs⟩ := henclosed (String.ofList letter) hcloses
      (by rw [String.toList_ofList]; exact htext)
    exact ⟨_, s, hs, hprefix, fun hne => absurd rfl hne⟩

/-! ## Both directions -/

theorem ne_empty_of_valid {name : String} (h : validateIdentifier name = .ok ()) : name ≠ "" := by
  rintro rfl
  cases h

theorem quotePg_of_valid {name : String} (h : validateIdentifier name = .ok ()) :
    quotePg name = .ok (enclosed '"' '"' name) := by
  rw [quotePg, h]
  rfl

theorem quoteMssql_of_valid {name : String} (h : validateIdentifier name = .ok ()) :
    quoteMssql name = .ok (enclosed '[' ']' name) := by
  rw [quoteMssql, h]
  rfl

/-- A valid name, quoted for the target or for the source, is one token that stands for the name,
and so is a quoted value. Conversely, quoting what a quoted token of any text stands for gives the
text of the token, where the name is valid; the letter N in front of a string literal is no part of
it. -/
theorem quoting_inverts_lexing :
    (∀ name, validateIdentifier name = .ok () →
      ∃ text text', quotePg name = .ok text ∧ quoteMssql name = .ok text' ∧
        tokenize text = .ok [⟨.quotedIdentifier, text, 0⟩] ∧
        (Token.mk .quotedIdentifier text 0).identifierName = name ∧
        tokenize text' = .ok [⟨.bracketIdentifier, text', 0⟩] ∧
        (Token.mk .bracketIdentifier text' 0).identifierName = name) ∧
    (∀ value,
      tokenize (quotePgLiteral value) = .ok [⟨.stringLiteral, quotePgLiteral value, 0⟩] ∧
      (Token.mk .stringLiteral (quotePgLiteral value) 0).stringValue = value) ∧
    ∀ sql ts t, tokenize sql = .ok ts → t ∈ ts →
      (t.kind = .quotedIdentifier → validateIdentifier t.identifierName = .ok () →
        quotePg t.identifierName = .ok t.text) ∧
      (t.kind = .bracketIdentifier → validateIdentifier t.identifierName = .ok () →
        quoteMssql t.identifierName = .ok t.text) ∧
      (t.kind = .stringLiteral →
        ∃ letter, t.text = letter ++ quotePgLiteral t.stringValue ∧ IsLetterPrefix letter) := by
  refine ⟨?_, ?_, ?_⟩
  · intro name hvalid
    have hname := ne_empty_of_valid hvalid
    refine ⟨_, _, quotePg_of_valid hvalid, quoteMssql_of_valid hvalid, ?_⟩
    exact ⟨tokenize_enclosed .double fun _ => hname, identifierName_quoted name 0,
      tokenize_enclosed .bracket fun _ => hname, identifierName_bracketed name 0⟩
  · intro value
    have hnone : IsLetterPrefix "" := .inl rfl
    have hvalue := stringValue_literal hnone value 0
    rw [String.empty_append] at hvalue
    exact ⟨tokenize_enclosed .single nofun, hvalue⟩
  · rintro sql ts ⟨kind, text, start⟩ h ht
    refine ⟨?_, ?_, ?_⟩
    · rintro rfl hvalid
      obtain ⟨letter, s, rfl, -, hletter⟩ := enclosed_of_token h ht .double
      obtain rfl := hletter nofun
      rw [String.empty_append] at hvalid ⊢
      rw [identifierName_quoted] at hvalid ⊢
      exact quotePg_of_valid hvalid
    · rintro rfl hvalid
      obtain ⟨letter, s, rfl, -, hletter⟩ := enclosed_of_token h ht .bracket
      obtain rfl := hletter nofun
      rw [String.empty_append] at hvalid ⊢
      rw [identifierName_bracketed] at hvalid ⊢
      exact quoteMssql_of_valid hvalid
    · rintro rfl
      obtain ⟨letter, s, rfl, hletter, -⟩ := enclosed_of_token h ht .single
      refine ⟨letter, ?_, hletter⟩
      have hvalue := stringValue_literal hletter s start
      rw [quotePgLiteral] at hvalue
      rw [hvalue]
      rfl

/-- A name that holds both closing marks, there and back. -/
theorem marks_read_back :
    tokenize "\"a]b\"\"\"" = .ok [⟨.quotedIdentifier, "\"a]b\"\"\"", 0⟩] ∧
    tokenize "[a]]b\"]" = .ok [⟨.bracketIdentifier, "[a]]b\"]", 0⟩] ∧
    quoteMssql (Token.mk .bracketIdentifier "[a]]b\"]" 0).identifierName = .ok "[a]]b\"]" := by
  obtain ⟨hnames, -, htokens⟩ := quoting_inverts_lexing
  obtain ⟨text, text', htext, htext', hpg, -, hmssql, hname⟩ := hnames "a]b\"" rfl
  obtain rfl : "\"a]b\"\"\"" = text := Except.ok.inj htext
  obtain rfl : "[a]]b\"]" = text' := Except.ok.inj htext'
  obtain ⟨-, hbracket, -⟩ := htokens _ _ _ hmssql List.mem_cons_self
  exact ⟨hpg, hmssql, hbracket rfl (by rw [hname]; rfl)⟩

end Migration
