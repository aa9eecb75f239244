import Migration.Proofs.TokenCuts

/-
  Delimiters that are left open.

  A text has tokens unless something in it is opened and not closed, or brackets hold
  nothing. This file

  1. says of a quoted text where it is closed, and when never: by the first mark that is
     not half of a pair (`ClosesAt`, `NeverClosed`, `closeAt_eq_some_iff`);
  2. says the same of comments, which nest, by the count of openings and closings
     (`CommentClosesAt`, `CommentNeverCloses`, `closeComments_some`, `closeComments_none`);
  3. proves that a scan fails exactly in front of what is left open (`LeftOpen`,
     `scan_of_leftOpen`, `scans_or_leftOpen`), and that the delimited tokens it finds are
     closed (`ClosedIn`);
  4. carries this from one scan to the whole text (`lexing_fails_at_open_delimiters`). -/

namespace Migration

/-! ## Quoted texts -/

/-- The text `taken ++ after` is closed behind `taken`: by a mark that is not half of a pair, while
every mark before it is. -/
def ClosesAt (mark : Char) (taken after : List Char) : Prop :=
  Closed mark taken ∧ after.head? ≠ some mark

def NeverClosed (mark : Char) (rest : List Char) : Prop :=
  ∀ taken after, rest = taken ++ after → ¬ ClosesAt mark taken after

theorem closeAt_eq_some_iff {mark : Char} {cs taken : List Char} :
    closeAt mark cs = some taken ↔ ∃ after, cs = taken ++ after ∧ ClosesAt mark taken after := by
  constructor
  · intro h
    obtain ⟨after, rfl⟩ := closeAt_isPrefix h
    exact ⟨after, rfl, closed_of_closeAt h, head?_ne_of_closeAt h⟩
  · rintro ⟨after, rfl, hclosed, hafter⟩
    exact hclosed.closeAt_append hafter

theorem closeAt_eq_none_iff {mark : Char} {cs : List Char} :
    closeAt mark cs = none ↔ NeverClosed mark cs := by
  constructor
  · intro h taken after hcs hcloses
    rw [closeAt_eq_some_iff.mpr ⟨after, hcs, hcloses⟩] at h
    cases h
  · intro h
    cases hread : closeAt mark cs with
    | none => rfl
    | some taken =>
      obtain ⟨after, hcs, hcloses⟩ := closeAt_eq_some_iff.mp hread
      exact absurd hcloses (h taken after hcs)

/-! ## Comments -/

/-- What a comment is made of. -/
inductive CommentPiece where
  | opening
  | closing
  | other (c : Char)

def commentPieces : List Char → List CommentPiece
  | [] => []
  | [c] => [.other c]
  | c :: d :: rest =>
    if c = '/' ∧ d = '*' then .opening :: commentPieces rest
    else if c = '*' ∧ d = '/' then .closing :: commentPieces rest
    else .other c :: commentPieces (d :: rest)

/-- How much deeper comments are nested behind the piece. -/
def CommentPiece.deepens : CommentPiece → Int
  | .opening => 1
  | .closing => -1
  | .other _ => 0

/-- How many comments are open behind each of the pieces. -/
def depths : (depth : Int) → List CommentPiece → List Int
  | _, [] => []
  | depth, p :: pieces => (depth + p.deepens) :: depths (depth + p.deepens) pieces

/-- The comments that are open come to be closed at the end of the pieces, and not before. -/
def ClosesLast (depth : Int) (pieces : List CommentPiece) : Prop :=
  ∃ before, depths depth pieces = before ++ [0] ∧ ∀ d ∈ before, 0 < d

/-- The comments that are open come to be closed nowhere. -/
def StaysOpen (depth : Int) (pieces : List CommentPiece) : Prop :=
  ∀ d ∈ depths depth pieces, 0 < d

theorem ClosesLast.cons {depth : Int} {p : CommentPiece} {pieces : List CommentPiece}
    (hopen : 0 < depth + p.deepens) (h : ClosesLast (depth + p.deepens) pieces) :
    ClosesLast depth (p :: pieces) := by
  obtain ⟨before, hdepths, hbefore⟩ := h
  refine ⟨(depth + p.deepens) :: before, by rw [depths, hdepths]; rfl, ?_⟩
  exact List.forall_mem_cons.mpr ⟨hopen, hbefore⟩

theorem StaysOpen.cons {depth : Int} {p : CommentPiece} {pieces : List CommentPiece}
    (hopen : 0 < depth + p.deepens) (h : StaysOpen (depth + p.deepens) pieces) :
    StaysOpen depth (p :: pieces) :=
  List.forall_mem_cons.mpr ⟨hopen, h⟩

theorem depths_append (depth : Int) (pieces more : List CommentPiece) :
    ∃ later, depths depth (pieces ++ more) = depths depth pieces ++ later := by
  induction pieces generalizing depth with
  | nil => exact ⟨_, rfl⟩
  | cons p pieces ih =>
    obtain ⟨later, hlater⟩ := ih (depth + p.deepens)
    exact ⟨later, by rw [List.cons_append, depths, hlater, depths, List.cons_append]⟩

theorem ClosesLast.not_staysOpen {depth : Int} {pieces : List CommentPiece}
    (h : ClosesLast depth pieces) (more : List CommentPiece) :
    ¬ StaysOpen depth (pieces ++ more) := by
  obtain ⟨before, hdepths, -⟩ := h
  obtain ⟨later, hlater⟩ := depths_append depth pieces more
  intro hstays
  have hzero := hstays 0 (by rw [hlater, hdepths]; simp)
  exact Int.lt_irrefl 0 hzero

/-- The comment that opens the text `taken ++ after` is closed at the end of `taken`, where no piece
is cut in two. -/
def CommentClosesAt (taken after : List Char) : Prop :=
  ClosesLast 0 (commentPieces taken) ∧
    commentPieces (taken ++ after) = commentPieces taken ++ commentPieces after

def CommentNeverCloses (cs : List Char) : Prop := StaysOpen 0 (commentPieces cs)

theorem behind_opening (depth : Nat) :
    ((depth + 1 : Nat) : Int) + CommentPiece.opening.deepens = ((depth + 2 : Nat) : Int) := rfl

theorem behind_closing (depth : Nat) :
    ((depth + 1 : Nat) : Int) + CommentPiece.closing.deepens = (depth : Int) :=
  Int.add_neg_cancel_right depth 1

theorem behind_other (depth : Int) (c : Char) : depth + (CommentPiece.other c).deepens = depth :=
  Int.add_zero depth

theorem commentPieces_open (rest : List Char) :
    commentPieces ('/' :: '*' :: rest) = .opening :: commentPieces rest := by
  rw [commentPieces, if_pos ⟨rfl, rfl⟩]

theorem commentPieces_close (rest : List Char) :
    commentPieces ('*' :: '/' :: rest) = .closing :: commentPieces rest := by
  rw [commentPieces, if_neg (by decide), if_pos ⟨rfl, rfl⟩]

theorem commentPieces_other {c d : Char} (hopen : ¬ (c = '/' ∧ d = '*'))
    (hclose : ¬ (c = '*' ∧ d = '/')) (rest : List Char) :
    commentPieces (c :: d :: rest) = .other c :: commentPieces (d :: rest) := by
  rw [commentPieces, if_neg hopen, if_neg hclose]

/-- What closes open comments is made of whole pieces of the text, and closes them at its end
only. -/
theorem closeComments_some {depth : Nat} {taken after : List Char} (hdepth : 0 < depth)
    (h : closeComments depth (taken ++ after) = some taken) :
    ClosesLast depth (commentPieces taken) ∧
      commentPieces (taken ++ after) = commentPieces taken ++ commentPieces after := by
  generalize hcs : taken ++ after = cs at h ⊢
  induction depth, cs using closeComments.induct generalizing taken with
  | case1 => cases hdepth
  | case2 => cases h
  | case3 => cases h
  | case4 depth c d rest hopen ih =>
    obtain ⟨rfl, rfl⟩ := hopen
    rw [closeComments, if_pos ⟨rfl, rfl⟩, Option.map_eq_some_iff] at h
    obtain ⟨inner, hinner, rfl⟩ := h
    obtain rfl : inner ++ after = rest := by simpa using hcs
    obtain ⟨hcloses, hpieces⟩ := ih (Nat.succ_pos _) rfl hinner
    rw [commentPieces_open, commentPieces_open, hpieces]
    refine ⟨.cons ?_ hcloses, rfl⟩
    rw [behind_opening]
    omega
  | case5 depth c d rest hopen hclose ih =>
    obtain ⟨rfl, rfl⟩ := hclose
    rw [closeComments, if_neg hopen, if_pos ⟨rfl, rfl⟩, Option.map_eq_some_iff] at h
    obtain ⟨inner, hinner, rfl⟩ := h
    obtain rfl : inner ++ after = rest := by simpa using hcs
    rw [commentPieces_close, commentPieces_close]
    cases depth with
    | zero =>
      -- the last comment is closed here
      rw [closeComments] at hinner
      cases hinner
      exact ⟨⟨[], rfl, by simp⟩, rfl⟩
    | succ depth =>
      obtain ⟨hcloses, hpieces⟩ := ih (Nat.succ_pos _) rfl hinner
      rw [hpieces]
      refine ⟨.cons ?_ ?_, rfl⟩
      · rw [behind_closing]
        omega
      · rw [behind_closing]
        exact hcloses
  | case6 depth c d rest hopen hclose ih =>
    rw [closeComments, if_neg hopen, if_neg hclose, Option.map_eq_some_iff] at h
    obtain ⟨inner, hinner, rfl⟩ := h
    have hcs : inner ++ after = d :: rest := (List.cons.inj hcs).2
    obtain ⟨hcloses, hpieces⟩ := ih (Nat.succ_pos _) hcs hinner
    cases inner with
    | nil => exact absurd rfl (closeComments_ne_nil hinner)
    | cons e more =>
      obtain rfl : e = d := (List.cons.inj hcs).1
      rw [commentPieces_other hopen hclose, commentPieces_other hopen hclose, hpieces]
      refine ⟨.cons ?_ ?_, rfl⟩
      · rw [behind_other]
        omega
      · rw [behind_other]
        exact hcloses

theorem closeComments_none {depth : Nat} {cs : List Char} (h : closeComments depth cs = none) :
    StaysOpen depth (commentPieces cs) := by
  induction depth, cs using closeComments.induct with
  | case1 =>
    rw [closeComments.eq_1] at h
    cases h
  | case2 depth => simp [commentPieces, StaysOpen, depths]
  | case3 depth c =>
    rw [commentPieces]
    refine .cons ?_ (by simp [StaysOpen, depths])
    rw [behind_other]
    omega
  | case4 depth c d rest hopen ih =>
    obtain ⟨rfl, rfl⟩ := hopen
    rw [closeComments, if_pos ⟨rfl, rfl⟩, Option.map_eq_none_iff] at h
    rw [commentPieces_open]
    refine .cons ?_ (ih h)
    rw [behind_opening]
    omega
  | case5 depth c d rest hopen hclose ih =>
    obtain ⟨rfl, rfl⟩ := hclose
    rw [closeComments, if_neg hopen, if_pos ⟨rfl, rfl⟩, Option.map_eq_none_iff] at h
    rw [commentPieces_close]
    cases depth with
    | zero =>
      rw [closeComments.eq_1] at h
      cases h
    | succ depth =>
      refine .cons ?_ ?_
      · rw [behind_closing]
        omega
      · rw [behind_closing]
        exact ih h
  | case6 depth c d rest hopen hclose ih =>
    rw [closeComments, if_neg hopen, if_neg hclose, Option.map_eq_none_iff] at h
    rw [commentPieces_other hopen hclose]
    refine .cons ?_ ?_
    · rw [behind_other]
      omega
    · rw [behind_other]
      exact ih h

/-! ## What is left open -/

/-- The text begins with a delimiter that nothing closes, or with brackets that hold nothing. -/
inductive LeftOpen : LexFault → List Char → Prop where
  | string {rest : List Char} (never : NeverClosed '\'' rest) :
      LeftOpen .unclosedString ('\'' :: rest)
  | quoted {rest : List Char} (never : NeverClosed '"' rest) :
      LeftOpen .unclosedQuote ('"' :: rest)
  | bracket {rest : List Char} (never : NeverClosed ']' rest) :
      LeftOpen .unclosedBracket ('[' :: rest)
  | emptyBracket {rest : List Char} (single : rest.head? ≠ some ']') :
      LeftOpen .emptyBracket ('[' :: ']' :: rest)
  | comment {rest : List Char} (never : CommentNeverCloses ('/' :: '*' :: rest)) :
      LeftOpen .unclosedComment ('/' :: '*' :: rest)

/-- What stands in front of the delimiter that a scan finds left open: nothing, or the letter N of a
string literal. -/
def IsLiteralPrefix (before : List Char) (fault : LexFault) : Prop :=
  before = [] ∨ (before = ['N'] ∨ before = ['n']) ∧ fault = .unclosedString

theorem commentNeverCloses_iff {rest : List Char} :
    CommentNeverCloses ('/' :: '*' :: rest) ↔ closeComments 1 rest = none := by
  rw [CommentNeverCloses, commentPieces_open]
  constructor
  · intro h
    cases hread : closeComments 1 rest with
    | none => rfl
    | some taken =>
      obtain ⟨after, rfl⟩ := closeComments_isPrefix hread
      obtain ⟨hcloses, hpieces⟩ := closeComments_some Nat.one_pos hread
      rw [hpieces] at h
      have hstays : StaysOpen (1 : Nat) (commentPieces taken ++ commentPieces after) :=
        (List.forall_mem_cons.mp h).2
      exact absurd hstays (hcloses.not_staysOpen _)
  · intro h
    exact .cons (by decide) (closeComments_none h)

theorem emptyBracket_iff {rest : List Char} :
    closeAt ']' rest = some [']'] ↔ ∃ after, rest = ']' :: after ∧ after.head? ≠ some ']' := by
  rw [closeAt_eq_some_iff]
  constructor
  · rintro ⟨after, rfl, -, hafter⟩
    exact ⟨after, rfl, hafter⟩
  · rintro ⟨after, rfl, hafter⟩
    exact ⟨after, rfl, .last, hafter⟩

theorem scan_of_leftOpen {before later : List Char} {fault : LexFault}
    (hbefore : IsLiteralPrefix before fault) (hopen : LeftOpen fault later) :
    ∃ c rest, before ++ later = c :: rest ∧
      scan c rest = .error ⟨Text.byteLength before, fault⟩ := by
  rcases hbefore with rfl | ⟨hletter, rfl⟩
  · cases hopen with
    | string never =>
      refine ⟨_, _, rfl, ?_⟩
      rw [scan_singleQuote, closeAt_eq_none_iff.mpr never]
      rfl
    | quoted never =>
      refine ⟨_, _, rfl, ?_⟩
      rw [scan_doubleQuote, closeAt_eq_none_iff.mpr never]
      rfl
    | bracket never =>
      refine ⟨_, _, rfl, ?_⟩
      rw [scan_bracket, closeAt_eq_none_iff.mpr never]
      rfl
    | emptyBracket single =>
      refine ⟨_, _, rfl, ?_⟩
      rw [scan_bracket, if_pos (emptyBracket_iff.mpr ⟨_, rfl, single⟩)]
      rfl
    | comment never =>
      refine ⟨_, _, rfl, ?_⟩
      rw [scan_slashStar, commentNeverCloses_iff.mp never]
      rfl
  · cases hopen with
    | @string rest never =>
      have hnone := closeAt_eq_none_iff.mpr never
      rcases hletter with rfl | rfl
      · refine ⟨'N', '\'' :: rest, rfl, ?_⟩
        rw [scan_letterQuote (.inl rfl), hnone]
        rfl
      · refine ⟨'n', '\'' :: rest, rfl, ?_⟩
        rw [scan_letterQuote (.inr rfl), hnone]
        rfl

/-- A text begins with a token, or with what is left open. -/
theorem scans_or_leftOpen (c : Char) (rest : List Char) :
    (∃ l, Scans c rest l) ∨ ∃ before later fault, before ++ later = c :: rest ∧
      IsLiteralPrefix before fault ∧ LeftOpen fault later := by
  by_cases hblank : Text.isBlank c = true
  · exact .inl ⟨_, .blank hblank⟩
  have hblank := eq_false_of_ne_true hblank
  by_cases hline : c = '-' ∧ rest.head? = some '-'
  · obtain ⟨rfl, hhyphen⟩ := hline
    exact .inl ⟨_, .lineComment hhyphen⟩
  by_cases hblock : c = '/' ∧ rest.head? = some '*'
  · obtain ⟨rfl, hstar⟩ := hblock
    obtain ⟨rest, rfl⟩ := List.head?_eq_some_iff.mp hstar
    cases hbody : closeComments 1 rest with
    | some chars => exact .inl ⟨_, .blockComment hbody⟩
    | none =>
      exact .inr ⟨[], _, _, rfl, .inl rfl, .comment (commentNeverCloses_iff.mpr hbody)⟩
  by_cases hstring : c = '\''
  · subst hstring
    cases hbody : closeAt '\'' rest with
    | some chars => exact .inl ⟨_, .string hbody⟩
    | none => exact .inr ⟨[], _, _, rfl, .inl rfl, .string (closeAt_eq_none_iff.mp hbody)⟩
  by_cases hletter : (c = 'N' ∨ c = 'n') ∧ rest.head? = some '\''
  · obtain ⟨hN, hquote⟩ := hletter
    obtain ⟨rest, rfl⟩ := List.head?_eq_some_iff.mp hquote
    cases hbody : closeAt '\'' rest with
    | some chars => exact .inl ⟨_, .letterString hN hbody⟩
    | none =>
      have hprefix : IsLiteralPrefix [c] .unclosedString :=
        .inr ⟨hN.imp (congrArg (fun d => [d])) (congrArg (fun d => [d])), rfl⟩
      exact .inr ⟨[c], _, _, rfl, hprefix, .string (closeAt_eq_none_iff.mp hbody)⟩
  by_cases hbracket : c = '['
  · subst hbracket
    cases hbody : closeAt ']' rest with
    | some chars =>
      by_cases hempty : chars = [']']
      · obtain ⟨after, rfl, hafter⟩ := emptyBracket_iff.mp (hempty ▸ hbody)
        exact .inr ⟨[], _, _, rfl, .inl rfl, .emptyBracket hafter⟩
      · exact .inl ⟨_, .bracket hbody hempty⟩
    | none => exact .inr ⟨[], _, _, rfl, .inl rfl, .bracket (closeAt_eq_none_iff.mp hbody)⟩
  by_cases hquoted : c = '"'
  · subst hquoted
    cases hbody : closeAt '"' rest with
    | some chars => exact .inl ⟨_, .quoted hbody⟩
    | none => exact .inr ⟨[], _, _, rfl, .inl rfl, .quoted (closeAt_eq_none_iff.mp hbody)⟩
  by_cases hvariable : c = '@'
  · subst hvariable
    exact .inl ⟨_, .variableName⟩
  by_cases htemp : c = '#'
  · subst htemp
    exact .inl ⟨_, .tempName⟩
  by_cases hdigit : c.isDigit = true
  · exact .inl ⟨_, .number hdigit⟩
  by_cases hword : Text.isLetter c = true ∨ c = '_'
  · exact .inl ⟨_, .word hword hblank hletter⟩
  · exact .inl ⟨_, .symbol hblank hline hblock
      (by simp [hstring, hbracket, hquoted, hvariable, htemp]) (eq_false_of_ne_true hdigit) hword⟩

/-! ## What is closed -/

/-- A delimited token of the kind is closed at its end, in front of `after`, and nowhere before. -/
def ClosedIn (kind : TokenKind) (chars after : List Char) : Prop :=
  match kind with
  | .stringLiteral => ∃ opening taken, chars = opening ++ '\'' :: taken ∧
      (opening = [] ∨ opening = ['N'] ∨ opening = ['n']) ∧ ClosesAt '\'' taken after
  | .quotedIdentifier => ∃ taken, chars = '"' :: taken ∧ ClosesAt '"' taken after
  | .bracketIdentifier => ∃ taken, chars = '[' :: taken ∧ taken ≠ [']'] ∧ ClosesAt ']' taken after
  | .blockComment => ∃ inside, chars = '/' :: '*' :: inside ∧ CommentClosesAt chars after
  | _ => True

theorem closesAt_of_closeAt {mark : Char} {taken after : List Char}
    (h : closeAt mark (taken ++ after) = some taken) : ClosesAt mark taken after :=
  ⟨closed_of_closeAt h, head?_ne_of_closeAt h⟩

theorem closedIn_of_scan {c : Char} {rest after : List Char} {l : Lexeme}
    (scanned : scan c rest = .ok l) (cut : c :: rest = l.chars ++ after) :
    ClosedIn l.kind l.chars after := by
  cases scans_of_scan scanned with
  | blockComment hclosed =>
    obtain rfl := (List.cons.inj (List.cons.inj cut).2).2
    obtain ⟨hcloses, hpieces⟩ := closeComments_some Nat.one_pos hclosed
    refine ⟨_, rfl, ?_, ?_⟩
    · rw [commentPieces_open]
      exact .cons (by decide) hcloses
    · rw [List.cons_append, List.cons_append, commentPieces_open, commentPieces_open]
      exact congrArg _ hpieces
  | string hclosed =>
    obtain rfl := (List.cons.inj cut).2
    exact ⟨[], _, rfl, .inl rfl, closesAt_of_closeAt hclosed⟩
  | @letterString c _ _ hletter hclosed =>
    obtain rfl := (List.cons.inj (List.cons.inj cut).2).2
    refine ⟨[c], _, rfl, .inr ?_, closesAt_of_closeAt hclosed⟩
    exact hletter.imp (congrArg (fun d => [d])) (congrArg (fun d => [d]))
  | bracket hclosed hnonempty =>
    obtain rfl := (List.cons.inj cut).2
    exact ⟨_, rfl, hnonempty, closesAt_of_closeAt hclosed⟩
  | quoted hclosed =>
    obtain rfl := (List.cons.inj cut).2
    exact ⟨_, rfl, closesAt_of_closeAt hclosed⟩
  | word _ _ _ =>
    rcases wordKind_cases (c :: rest.takeWhile isWordChar) with hkind | hkind
    · rw [hkind]
      trivial
    · rw [hkind]
      trivial
  | blank _ => trivial
  | lineComment _ => trivial
  | variableName => trivial
  | tempName => trivial
  | number _ => trivial
  | symbol _ _ _ _ _ _ => trivial

/-! ## The whole text -/

theorem tokensFrom_of_reads {after cs : List Char} {ls : List Lexeme} (h : Reads after cs ls)
    (offset : Nat) :
    tokensFrom 0 offset cs =
      (tokensFrom 0 (offset + Text.byteLength (ls.flatMap Lexeme.chars)) after).map
        (placed offset ls ++ ·) := by
  induction h generalizing offset with
  | done =>
    rw [List.flatMap_nil, Text.byteLength_nil, Nat.add_zero]
    cases tokensFrom 0 offset after with
    | error e => rfl
    | ok ts => rfl
  | @cons c rest later l ls scanned cut more ih =>
    rw [tokensFrom_cons offset scanned cut, ih, List.flatMap_cons, Text.byteLength_append,
      ← Nat.add_assoc]
    cases tokensFrom 0 (offset + Text.byteLength l.chars +
      Text.byteLength (ls.flatMap Lexeme.chars)) after with
    | error e => rfl
    | ok ts => rfl

/-- Read token by token, a text comes to its end or to what is left open. -/
theorem reads_to_open (cs : List Char) :
    ∃ ls after, Reads after cs ls ∧ (after = [] ∨
      ∃ before later fault, after = before ++ later ∧ IsLiteralPrefix before fault ∧
        LeftOpen fault later) := by
  -- each scan takes at least one character, so the rest is shorter
  induction hn : cs.length using Nat.strongRecOn generalizing cs with
  | _ n ih =>
    cases cs with
    | nil => exact ⟨[], [], .done, .inl rfl⟩
    | cons c rest =>
      rcases scans_or_leftOpen c rest with ⟨l, hl⟩ | ⟨before, later, fault, hcut, hopen⟩
      · have hscan := scan_of_scans hl
        obtain ⟨taken, htaken, more, rfl⟩ := scan_isPrefix hscan
        have hshorter : more.length < n := by
          rw [← hn, List.length_cons, List.length_append]
          omega
        obtain ⟨ls, after, hreads, hafter⟩ := ih more.length hshorter more rfl
        exact ⟨l :: ls, after, .cons hscan (by rw [htaken]; rfl) hreads, hafter⟩
      · exact ⟨[], c :: rest, .done, .inr ⟨before, later, fault, hcut.symm, hopen⟩⟩

/-- Read token by token, the text comes to what is left open at the byte `p`. -/
def OpenAt (sql : String) (p : Nat) (fault : LexFault) : Prop :=
  ∃ ls before later, Reads (before ++ later) sql.toList ls ∧ IsLiteralPrefix before fault ∧
    LeftOpen fault later ∧ p = Text.byteLength (ls.flatMap Lexeme.chars ++ before)

theorem tokenize_of_openAt {sql : String} {p : Nat} {fault : LexFault} (h : OpenAt sql p fault) :
    tokenize sql = .error (.tokenize p fault.message) := by
  obtain ⟨ls, before, later, hreads, hbefore, hopen, rfl⟩ := h
  obtain ⟨c, rest, hcut, hscan⟩ := scan_of_leftOpen hbefore hopen
  rw [hcut] at hreads
  rw [tokenize, tokensFrom_of_reads hreads, tokensFrom, hscan, Text.byteLength_append, Nat.zero_add]
  rfl

theorem tokenize_error_iff {sql : String} {e : MigrationError} :
    tokenize sql = .error e ↔ ∃ p fault, OpenAt sql p fault ∧ e = .tokenize p fault.message := by
  constructor
  · intro h
    obtain ⟨ls, after, hreads, rfl | ⟨before, later, fault, rfl, hbefore, hopen⟩⟩ :=
      reads_to_open sql.toList
    · rw [tokenize_ok_iff.mpr ⟨ls, reads_nil_iff.mp hreads, rfl⟩] at h
      cases h
    · have hat : OpenAt sql _ fault := ⟨ls, before, later, hreads, hbefore, hopen, rfl⟩
      rw [tokenize_of_openAt hat] at h
      exact ⟨_, fault, hat, (Except.error.inj h).symm⟩
  · rintro ⟨p, fault, hat, rfl⟩
    exact tokenize_of_openAt hat

/-- The letter N alone is a name. -/
theorem reads_literalPrefix {before : List Char} {fault : LexFault}
    (h : IsLiteralPrefix before fault) : ∃ ls, Reads [] before ls := by
  rcases h with rfl | ⟨rfl | rfl, -⟩
  · exact ⟨[], .done⟩
  · exact ⟨[⟨.identifier, ['N']⟩], .cons rfl rfl .done⟩
  · exact ⟨[⟨.identifier, ['n']⟩], .cons rfl rfl .done⟩

theorem OpenAt.split {sql : String} {p : Nat} {fault : LexFault} (h : OpenAt sql p fault) :
    ∃ earlier later, sql.toList = earlier ++ later ∧ p = Text.byteLength earlier ∧
      (∃ ts, tokenize (String.ofList earlier) = .ok ts) ∧ LeftOpen fault later := by
  obtain ⟨ls, before, later, hreads, hbefore, hopen, rfl⟩ := h
  obtain ⟨ls', hletter⟩ := reads_literalPrefix hbefore
  have hearlier := (hreads.cut (List.prefix_append before later)).append hletter
  refine ⟨_, later, ?_, rfl, ⟨_, tokenize_of_reads hearlier⟩, hopen⟩
  rw [List.append_assoc]
  exact hreads.chars

/-- A text has no tokens exactly where reading it comes to what is left open: a single or double
quote, a bracket or a comment that nothing closes, or brackets that hold nothing. The error has the
place of the opening and what was left open there, and the text in front of it has tokens. Where a
text has tokens, each that is delimited ends where it is first closed. -/
theorem lexing_fails_at_open_delimiters (sql : String) :
    (∀ e, tokenize sql = .error e ↔
      ∃ p fault, OpenAt sql p fault ∧ e = .tokenize p fault.message) ∧
    (∀ p fault, OpenAt sql p fault →
      ∃ earlier later, sql.toList = earlier ++ later ∧ p = Text.byteLength earlier ∧
        (∃ ts, tokenize (String.ofList earlier) = .ok ts) ∧ LeftOpen fault later) ∧
    ∀ before t after, tokenize sql = .ok (before ++ t :: after) →
      ClosedIn t.kind t.text.toList (charsOf after) := by
  refine ⟨fun e => tokenize_error_iff, fun p fault => OpenAt.split, ?_⟩
  intro before t after h
  obtain ⟨c, rest, scanned, cut⟩ := scan_of_tokenize h
  exact closedIn_of_scan scanned cut

example : tokenize "a N'b''" = .error (.tokenize 3 "unterminated string literal") := rfl

end Migration
