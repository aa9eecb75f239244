import Migration.Proofs.QuotedTokens

/-
  Quoted names between words.

  A statement is made of fixed words with quoted names between them. This file

  1. proves that a text without delimiters has tokens, whatever it is (`reads_plain`),
     and that it keeps them in front of the opening mark of a name
     (`Reads.before_opening`);
  2. says what of a token does not depend on a name (`Outline`), and which names the
     tokens of a text stand for (`namesIn`);
  3. proves that words and quoted names in turn are read as the tokens of the words and
     one token for each name (`tokenize_woven`). -/

namespace Migration

/-! ## Texts without delimiters -/

def delimiters : List Char := ['\'', '"', '[', ']', '/']

def IsPlain (cs : List Char) : Prop := ∀ c ∈ cs, c ∉ delimiters

instance (cs : List Char) : Decidable (IsPlain cs) :=
  List.decidableBAll (fun c => c ∉ delimiters) cs

theorem IsPlain.append {cs ds : List Char} (h : IsPlain cs) (h' : IsPlain ds) :
    IsPlain (cs ++ ds) := by
  intro c hc
  rcases List.mem_append.mp hc with hc | hc
  · exact h c hc
  · exact h' c hc

theorem LeftOpen.head {fault : LexFault} {later : List Char} (h : LeftOpen fault later) :
    ∃ c rest, later = c :: rest ∧ c ∈ delimiters := by
  cases h with
  | string _ => exact ⟨_, _, rfl, by decide⟩
  | quoted _ => exact ⟨_, _, rfl, by decide⟩
  | bracket _ => exact ⟨_, _, rfl, by decide⟩
  | emptyBracket _ => exact ⟨_, _, rfl, by decide⟩
  | comment _ => exact ⟨_, _, rfl, by decide⟩

/-- A text without delimiters has tokens. -/
theorem reads_plain {cs : List Char} (h : IsPlain cs) : ∃ ls, Reads [] cs ls := by
  obtain ⟨ls, after, hreads, rfl | ⟨before, later, fault, rfl, -, hopen⟩⟩ := reads_to_open cs
  · exact ⟨ls, hreads⟩
  · obtain ⟨c, rest, rfl, hc⟩ := hopen.head
    exact absurd hc (h c (by rw [hreads.chars]; simp))

/-! ## Tokens of such texts -/

theorem first_of_scan {c : Char} {rest : List Char} {l : Lexeme} (h : scan c rest = .ok l) :
    (l.kind = .quotedIdentifier → c = '"') ∧ (l.kind = .bracketIdentifier → c = '[') ∧
      (l.kind = .lineComment → c = '-') := by
  cases scans_of_scan h with
  | lineComment _ => exact ⟨nofun, nofun, fun _ => rfl⟩
  | bracket _ _ => exact ⟨nofun, fun _ => rfl, nofun⟩
  | quoted _ => exact ⟨fun _ => rfl, nofun, nofun⟩
  | word _ _ _ =>
    rcases wordKind_cases (c :: rest.takeWhile isWordChar) with hkind | hkind
    · rw [hkind]
      exact ⟨nofun, nofun, nofun⟩
    · rw [hkind]
      exact ⟨nofun, nofun, nofun⟩
  | blank _ => exact ⟨nofun, nofun, nofun⟩
  | blockComment _ => exact ⟨nofun, nofun, nofun⟩
  | string _ => exact ⟨nofun, nofun, nofun⟩
  | letterString _ _ => exact ⟨nofun, nofun, nofun⟩
  | variableName => exact ⟨nofun, nofun, nofun⟩
  | tempName => exact ⟨nofun, nofun, nofun⟩
  | number _ => exact ⟨nofun, nofun, nofun⟩
  | symbol _ _ _ _ _ _ => exact ⟨nofun, nofun, nofun⟩

theorem Reads.exists_scan {after cs : List Char} {ls : List Lexeme} (h : Reads after cs ls)
    {l : Lexeme} (hl : l ∈ ls) : ∃ c rest, c ∈ cs ∧ scan c rest = .ok l := by
  induction h with
  | done => cases hl
  | @cons c rest later l' ls scanned cut more ih =>
    rcases List.mem_cons.mp hl with rfl | hl
    · exact ⟨c, rest, List.mem_cons_self, scanned⟩
    · obtain ⟨d, rest', hd, hscan⟩ := ih hl
      exact ⟨d, rest', by rw [cut]; exact List.mem_append_right _ hd, hscan⟩

/-- The kind of a name between marks. -/
def TokenKind.isQuotedName : TokenKind → Bool
  | .quotedIdentifier | .bracketIdentifier => true
  | _ => false

theorem IsPlain.kinds {after cs : List Char} {ls : List Lexeme} (hplain : IsPlain cs)
    (h : Reads after cs ls) : ∀ l ∈ ls, l.kind.isQuotedName = false := by
  intro l hl
  obtain ⟨c, rest, hc, hscan⟩ := h.exists_scan hl
  obtain ⟨hquoted, hbracket, -⟩ := first_of_scan hscan
  have hmark := hplain c hc
  refine eq_false_of_ne_true fun hname => ?_
  cases hkind : l.kind with
  | quotedIdentifier => exact hmark (by rw [hquoted hkind]; decide)
  | bracketIdentifier => exact hmark (by rw [hbracket hkind]; decide)
  | _ => rw [hkind] at hname; cases hname

/-! ## Where a number ends -/

def isNumberChar (c : Char) : Bool :=
  isHexDigit c || c == '.' || c == '+' || c == '-' || c == 'x' || c == 'X'

theorem not_mem_takeWhile {p : Char → Bool} {d : Char} (hd : p d = false) (cs : List Char) :
    d ∉ cs.takeWhile p := by
  intro hmem
  have hp := List.all_eq_true.mp List.all_takeWhile d hmem
  rw [hd] at hp
  cases hp

section

variable {d : Char} (hd : isNumberChar d = false)

include hd

theorem isHexDigit_of_not_isNumberChar : isHexDigit d = false := by
  refine eq_false_of_ne_true fun h => ?_
  rw [isNumberChar, h] at hd
  cases hd

theorem isDigit_of_not_isNumberChar : d.isDigit = false := by
  refine eq_false_of_ne_true fun h => ?_
  rw [isNumberChar, isHexDigit, h] at hd
  cases hd

theorem ne_of_not_isNumberChar {c : Char} (hc : isNumberChar c = true) : d ≠ c := by
  rintro rfl
  rw [hd] at hc
  cases hc

theorem not_mem_fractionOf (cs : List Char) : d ∉ fractionOf cs := by
  unfold fractionOf
  split
  · rw [List.mem_cons, not_or]
    exact ⟨ne_of_not_isNumberChar hd rfl, not_mem_takeWhile (isDigit_of_not_isNumberChar hd) _⟩
  · exact List.not_mem_nil

theorem not_mem_exponentOf (cs : List Char) : d ∉ exponentOf cs := by
  rcases exponentOf_cases cs with hnone | ⟨opening, after, rfl, hopening, hdigit⟩
  · rw [hnone]
    exact List.not_mem_nil
  · rw [exponentOf_opening hopening hdigit, List.mem_append, not_or]
    refine ⟨?_, not_mem_takeWhile (isDigit_of_not_isNumberChar hd) _⟩
    have hne (c : Char) (hc : isNumberChar c = true) : d ≠ c := ne_of_not_isNumberChar hd hc
    have hmark := hne 'e' rfl
    have hmark' := hne 'E' rfl
    have hplus := hne '+' rfl
    have hminus := hne '-' rfl
    obtain ⟨e, rfl | rfl, rfl | ⟨s, rfl | rfl, rfl⟩⟩ := hopening
    all_goals simp [*]

theorem not_mem_numberOf (cs : List Char) : d ∉ numberOf cs := by
  by_cases hhex : ∃ x rest, cs = '0' :: x :: rest ∧ (x = 'x' ∨ x = 'X')
  · obtain ⟨x, rest, rfl, hx⟩ := hhex
    have hxd : d ≠ x := by
      rcases hx with rfl | rfl
      · exact ne_of_not_isNumberChar hd rfl
      · exact ne_of_not_isNumberChar hd rfl
    rw [numberOf_hex hx, List.mem_cons, List.mem_cons, not_or, not_or]
    exact ⟨ne_of_not_isNumberChar hd rfl, hxd,
      not_mem_takeWhile (isHexDigit_of_not_isNumberChar hd) _⟩
  · rw [numberOf_decimal fun x rest hcs hx => hhex ⟨x, rest, hcs, hx⟩]
    simp only [decimalOf, List.mem_append, not_or]
    exact ⟨⟨not_mem_takeWhile (isDigit_of_not_isNumberChar hd) _, not_mem_fractionOf hd _⟩,
      not_mem_exponentOf hd _⟩

theorem numberOf_append (cs more : List Char) : numberOf (cs ++ d :: more) = numberOf cs := by
  refine (cutStable_numberOf _ cs (List.prefix_append _ _) ?_).symm
  have hstart := numberOf_isPrefix (cs ++ d :: more)
  rcases List.prefix_or_prefix_of_prefix hstart (List.prefix_append cs (d :: more)) with h | h
  · exact h
  · -- the number would go on with the character
    obtain ⟨taken, htaken⟩ := h
    cases taken with
    | nil => exact ⟨[], by rw [← htaken, List.append_nil, List.append_nil]⟩
    | cons e taken =>
      rw [← htaken, List.prefix_append_right_inj, List.cons_prefix_cons] at hstart
      obtain ⟨rfl, -⟩ := hstart
      exact absurd (by rw [← htaken]; simp) (not_mem_numberOf hd (cs ++ e :: more))

end

/-! ## In front of a name -/

theorem runsOn_congr {l : Lexeme} {rest rest' : List Char} (hkind : l.kind ≠ .numberLiteral)
    (hhead : rest.head? = rest'.head?) : RunsOn l rest ↔ RunsOn l rest' := by
  obtain ⟨kind, chars⟩ := l
  cases kind with
  | numberLiteral => exact absurd rfl hkind
  | _ => simp only [RunsOn, goesOn, hhead]

/-- What opens a name does not run on from a token in front of it, unless that is a comment to the
end of the line or a name between double quotes. -/
theorem not_runsOn_opening {l : Lexeme} {d : Char} {later more : List Char} (hd : d = '"' ∨ d = '[')
    (hline : l.kind ≠ .lineComment) (hquoted : l.kind ≠ .quotedIdentifier)
    (h : ¬ RunsOn l later) : ¬ RunsOn l (later ++ d :: more) := by
  -- a number depends on more than one character behind it, every other token on one at most
  by_cases hnumber : l.kind = .numberLiteral
  · have hchar : isNumberChar d = false := by
      rcases hd with rfl | rfl
      · rfl
      · rfl
    obtain ⟨kind, chars⟩ := l
    obtain rfl : kind = .numberLiteral := hnumber
    have hsame : numberOf (chars ++ later) = chars := Decidable.not_not.mp h
    refine not_not_intro ?_
    rw [← List.append_assoc, numberOf_append hchar]
    exact hsame
  · cases later with
    | cons e later =>
      have hhead : (e :: later ++ d :: more).head? = (e :: later).head? := rfl
      exact fun hon => h ((runsOn_congr hnumber hhead).mp hon)
    | nil =>
      obtain ⟨kind, chars⟩ := l
      have hblank : Text.isBlank d ≠ true := by
        rcases hd with rfl | rfl
        · decide
        · decide
      have hword : isWordChar d ≠ true := by
        rcases hd with rfl | rfl
        · decide
        · decide
      have hother {c : Char} (hc : c ≠ '"' ∧ c ≠ '[') : some d ≠ some c := by
        rintro ⟨⟩
        exact hd.elim hc.1 hc.2
      cases kind with
      | whitespace => exact hblank
      | lineComment => exact absurd rfl hline
      | blockComment => exact id
      | stringLiteral => exact hother (by decide)
      | bracketIdentifier => exact hother (by decide)
      | quotedIdentifier => exact absurd rfl hquoted
      | variableName => exact hword
      | tempName => exact hword
      | numberLiteral => exact absurd rfl hnumber
      | keyword => exact fun hon => hon.elim hword fun hN => hother (by decide) hN.2
      | identifier => exact fun hon => hon.elim hword fun hN => hother (by decide) hN.2
      | symbol =>
        exact fun hon => hon.elim (fun hline => hother (by decide) hline.2)
          fun hblock => hother (by decide) hblock.2

/-- A text without delimiters and hyphens has the same tokens in front of what opens a name. -/
theorem Reads.before_opening {cs more : List Char} {ls : List Lexeme} {d : Char}
    (h : Reads [] cs ls) (hplain : IsPlain cs) (hhyphen : '-' ∉ cs) (hd : d = '"' ∨ d = '[') :
    Reads (d :: more) (cs ++ d :: more) ls := by
  induction h with
  | done => exact .done
  | @cons c rest later l ls scanned cut reads ih =>
    obtain ⟨hquoted, -, hline⟩ := first_of_scan scanned
    have hc : c ∉ delimiters := hplain c List.mem_cons_self
    have hends : ¬ RunsOn l (later ++ d :: more) := by
      refine not_runsOn_opening hd ?_ ?_ (not_runsOn_of_scan scanned cut)
      · intro hkind
        exact hhyphen (by rw [hline hkind]; exact List.mem_cons_self)
      · intro hkind
        exact hc (by rw [hquoted hkind]; decide)
    have hscan := scan_again scanned hends
    have hlater := ih
      (fun e he => hplain e (by rw [cut]; exact List.mem_append_right _ he))
      (fun he => hhyphen (by rw [cut]; exact List.mem_append_right _ he))
    obtain ⟨taken, htaken, -⟩ := scan_isPrefix scanned
    rw [htaken] at hscan cut
    obtain rfl : rest = taken ++ later := (List.cons.inj cut).2
    rw [List.cons_append, List.append_assoc]
    exact .cons hscan (by rw [htaken]; rfl) hlater

/-! ## What tokens show -/

/-- What of a token does not depend on a name: that there is one, or the token itself. -/
inductive Outline where
  | name (kind : TokenKind)
  | fixed (l : Lexeme)
  deriving DecidableEq

/-- What of the lexeme does not depend on a name. -/
def Lexeme.outline (l : Lexeme) : Outline :=
  if l.kind.isQuotedName then .name l.kind else .fixed l

/-- The tokens, the names among them left out. -/
def outlines (ts : List Token) : List Outline :=
  ts.map fun t => Lexeme.outline ⟨t.kind, t.text.toList⟩

/-- The kind of the token and the name that it stands for, if it is a name between marks. -/
def Token.quotedName? (t : Token) : Option (TokenKind × String) :=
  if t.kind.isQuotedName then some (t.kind, t.identifierName) else none

def namesIn (ts : List Token) : List (TokenKind × String) := ts.filterMap Token.quotedName?

/-- The outlines of a text that holds no names. -/
def wordOutlines (words : String) : List Outline :=
  match tokenize words with
  | .ok ts => outlines ts
  | .error _ => []

/-- The kind of the lexeme and the name that it stands for, if it is a name between marks. -/
def Lexeme.quotedName? (l : Lexeme) : Option (TokenKind × String) :=
  Token.quotedName? ⟨l.kind, String.ofList l.chars, 0⟩

theorem outlines_placed (offset : Nat) (ls : List Lexeme) :
    outlines (placed offset ls) = ls.map Lexeme.outline := by
  induction ls generalizing offset with
  | nil => rfl
  | cons l ls ih =>
    rw [placed, outlines, List.map_cons, String.toList_ofList, List.map_cons]
    exact congrArg _ (ih _)

theorem namesIn_placed (offset : Nat) (ls : List Lexeme) :
    namesIn (placed offset ls) = ls.filterMap Lexeme.quotedName? := by
  induction ls generalizing offset with
  | nil => rfl
  | cons l ls ih =>
    rw [placed, namesIn, List.filterMap_cons, List.filterMap_cons, ← ih]
    rfl

theorem wordOutlines_of_reads {words : String} {ls : List Lexeme} (h : Reads [] words.toList ls) :
    wordOutlines words = ls.map Lexeme.outline := by
  have htokens := tokenize_of_reads h
  rw [String.ofList_toList] at htokens
  rw [wordOutlines, htokens]
  exact outlines_placed 0 ls

theorem filterMap_quotedName?_eq_nil {ls : List Lexeme}
    (h : ∀ l ∈ ls, l.kind.isQuotedName = false) : ls.filterMap Lexeme.quotedName? = [] := by
  rw [List.filterMap_eq_nil_iff]
  intro l hl
  rw [Lexeme.quotedName?, Token.quotedName?, h l hl]
  rfl

/-! ## Words and names in turn -/

/-- The server that a statement is for. -/
inductive Server where
  | target
  | source
  deriving DecidableEq

namespace Server

/-- The kind of the tokens that names are there. -/
def nameKind : Server → TokenKind
  | target => .quotedIdentifier
  | source => .bracketIdentifier

def opening : Server → Char
  | target => '"'
  | source => '['

def closing : Server → Char
  | target => '"'
  | source => ']'

def quoted (server : Server) (name : String) : String :=
  enclosed server.opening server.closing name

theorem quotedBy (server : Server) : QuotedBy server.nameKind server.opening server.closing := by
  cases server with
  | target => exact .double
  | source => exact .bracket

theorem opening_cases (server : Server) : server.opening = '"' ∨ server.opening = '[' := by
  cases server with
  | target => exact .inl rfl
  | source => exact .inr rfl

theorem isQuotedName_nameKind (server : Server) : server.nameKind.isQuotedName = true := by
  cases server with
  | target => rfl
  | source => rfl

theorem closing_mem_delimiters (server : Server) : server.closing ∈ delimiters := by
  cases server with
  | target => decide
  | source => decide

theorem quotedName?_quoted (server : Server) (name : String) :
    Lexeme.quotedName? ⟨server.nameKind, (server.quoted name).toList⟩ =
      some (server.nameKind, name) := by
  rw [Lexeme.quotedName?, Token.quotedName?, if_pos server.isQuotedName_nameKind,
    String.ofList_toList]
  cases server with
  | target => rw [nameKind, quoted, opening, closing, identifierName_quoted]
  | source => rw [nameKind, quoted, opening, closing, identifierName_bracketed]

end Server

/-- Words that may stand in front of a name. -/
def IsWords (words : String) : Prop :=
  words ≠ "" ∧ IsPlain words.toList ∧ '-' ∉ words.toList

instance (words : String) : Decidable (IsWords words) :=
  inferInstanceAs (Decidable (_ ∧ _ ∧ _))

/-- Words, each with a name behind it. -/
def woven (server : Server) (pairs : List (String × String)) : List Char :=
  pairs.flatMap fun p => p.1.toList ++ (server.quoted p.2).toList

theorem woven_cons (server : Server) (p : String × String) (pairs : List (String × String)) :
    woven server (p :: pairs) =
      p.1.toList ++ (server.quoted p.2).toList ++ woven server pairs := rfl

theorem head?_of_isPlain {cs : List Char} (h : IsPlain cs) (server : Server) :
    cs.head? ≠ some server.closing := by
  intro hhead
  exact h _ (List.mem_of_head? hhead) server.closing_mem_delimiters

/-- Behind a name there are words or the end, and neither makes the name longer. -/
theorem head?_woven (server : Server) {pairs : List (String × String)} {last : String}
    (hpairs : ∀ p ∈ pairs, IsWords p.1) (hlast : IsPlain last.toList) :
    (woven server pairs ++ last.toList).head? ≠ some server.closing := by
  cases pairs with
  | nil => exact head?_of_isPlain hlast server
  | cons p pairs =>
    obtain ⟨hne, hplain, -⟩ := hpairs p List.mem_cons_self
    have hwords := head?_of_isPlain hplain server
    cases hchars : p.1.toList with
    | nil => exact absurd (String.toList_eq_nil_iff.mp hchars) hne
    | cons c chars =>
      rw [hchars] at hwords
      rw [woven_cons, hchars]
      exact hwords

theorem reads_woven (server : Server) {pairs : List (String × String)} {last : String}
    (hpairs : ∀ p ∈ pairs, IsWords p.1 ∧ p.2 ≠ "") (hlast : IsPlain last.toList) :
    ∃ ls, Reads [] (woven server pairs ++ last.toList) ls ∧
      ls.map Lexeme.outline = (pairs.flatMap fun p =>
        wordOutlines p.1 ++ [.name server.nameKind]) ++ wordOutlines last ∧
      ls.filterMap Lexeme.quotedName? = pairs.map fun p => (server.nameKind, p.2) := by
  induction pairs with
  | nil =>
    obtain ⟨ls, hreads⟩ := reads_plain hlast
    exact ⟨ls, hreads, (wordOutlines_of_reads hreads).symm,
      filterMap_quotedName?_eq_nil (hlast.kinds hreads)⟩
  | cons p pairs ih =>
    obtain ⟨⟨hwords, hname⟩, hlater⟩ := List.forall_mem_cons.mp hpairs
    obtain ⟨ls, hreads, houtline, hnames⟩ := ih hlater
    obtain ⟨-, hplain, hhyphen⟩ := hwords
    obtain ⟨ws, hws⟩ := reads_plain hplain
    -- the words, then the name, then the rest
    have hafter := head?_woven server (fun q hq => (hlater q hq).1) hlast
    have hquoted : Reads _ _ [⟨server.nameKind, (server.quoted p.2).toList⟩] :=
      reads_enclosed server.quotedBy (woven server pairs ++ last.toList) (fun _ => hname) hafter
    rw [toList_enclosed, List.cons_append] at hquoted
    have hfront := (hws.before_opening hplain hhyphen server.opening_cases).append hquoted
    have hwhole := hfront.append hreads
    rw [woven_cons, Server.quoted, toList_enclosed, List.append_assoc, List.append_assoc]
    refine ⟨_, hwhole, ?_, ?_⟩
    · have hmark : Lexeme.outline ⟨server.nameKind, (server.quoted p.2).toList⟩ =
          .name server.nameKind := if_pos server.isQuotedName_nameKind
      rw [List.map_append, List.map_append, List.map_singleton, hmark, houtline,
        ← wordOutlines_of_reads hws, List.flatMap_cons]
      simp only [List.append_assoc]
    · rw [List.filterMap_append, List.filterMap_append, hnames,
        filterMap_quotedName?_eq_nil (hplain.kinds hws), List.filterMap_cons_some
          (server.quotedName?_quoted p.2)]
      rfl

/-- Words and quoted names in turn are read as the tokens of the words, with one token for each name
behind its words, and these tokens stand for the names. -/
theorem tokenize_woven (server : Server) {pairs : List (String × String)} {last sql : String}
    (hpairs : ∀ p ∈ pairs, IsWords p.1 ∧ p.2 ≠ "") (hlast : IsPlain last.toList)
    (hsql : sql.toList = woven server pairs ++ last.toList) :
    ∃ ts, tokenize sql = .ok ts ∧
      outlines ts = (pairs.flatMap fun p => wordOutlines p.1 ++ [.name server.nameKind]) ++
        wordOutlines last ∧
      namesIn ts = pairs.map fun p => (server.nameKind, p.2) := by
  obtain ⟨ls, hreads, houtline, hnames⟩ := reads_woven server hpairs hlast
  have htokens := tokenize_of_reads hreads
  rw [← hsql, String.ofList_toList] at htokens
  exact ⟨_, htokens, by rw [outlines_placed, houtline], by rw [namesIn_placed, hnames]⟩

end Migration
