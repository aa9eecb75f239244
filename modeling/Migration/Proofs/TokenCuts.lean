import Mathlib.Data.List.Infix
import Migration.Proofs.TokenBoundaries

/-
  A text cut between its tokens.

  A scan looks ahead: behind a mark for a second one, behind a slash or a hyphen for the
  rest of an opening, behind a number for a point and an exponent. This file

  1. reads a text up to a place inside it (`Reads`), with all that follows in sight;
  2. proves that what a scan takes from a text it also takes where the text behind that
     is cut short (`CutStable` for runs and numbers, `RunsOn.longer` for every class of
     token, `scan_cut`);
  3. places the tokens on both sides of a cut (`tokenize_cut`). -/

namespace Migration

/-! ## Reading up to a place -/

/-- A text read token by token: these lexemes, and then the text `after`. -/
inductive Reads (after : List Char) : List Char → List Lexeme → Prop where
  | done : Reads after after []
  | cons {c : Char} {rest later : List Char} {l : Lexeme} {ls : List Lexeme}
      (scanned : scan c rest = .ok l) (cut : c :: rest = l.chars ++ later)
      (more : Reads after later ls) : Reads after (c :: rest) (l :: ls)

theorem reads_nil_iff {cs : List Char} {ls : List Lexeme} : Reads [] cs ls ↔ Lexes cs ls := by
  constructor
  · intro h
    induction h with
    | done => exact .nil
    | cons scanned cut _ ih => exact .cons scanned cut ih
  · intro h
    induction h with
    | nil => exact .done
    | cons scanned cut _ ih => exact .cons scanned cut ih

theorem Reads.chars {after cs : List Char} {ls : List Lexeme} (h : Reads after cs ls) :
    cs = ls.flatMap Lexeme.chars ++ after := by
  induction h with
  | done => rfl
  | cons _ cut _ ih => rw [cut, ih, List.flatMap_cons, List.append_assoc]

theorem Reads.append {middle after cs : List Char} {ls ls' : List Lexeme}
    (first : Reads middle cs ls) (second : Reads after middle ls') :
    Reads after cs (ls ++ ls') := by
  induction first with
  | done => exact second
  | cons scanned cut _ ih => exact .cons scanned cut ih

theorem Reads.split {after cs : List Char} (ls : List Lexeme) {ls' : List Lexeme}
    (h : Reads after cs (ls ++ ls')) : ∃ middle, Reads middle cs ls ∧ Reads after middle ls' := by
  induction ls generalizing cs with
  | nil => exact ⟨cs, .done, h⟩
  | cons l ls ih =>
    cases h with
    | cons scanned cut more =>
      obtain ⟨middle, hfirst, hsecond⟩ := ih more
      exact ⟨middle, .cons scanned cut hfirst, hsecond⟩

/-! ## What a scan takes when the text is cut short -/

theorem head?_of_isPrefix {shorter rest : List Char} {c : Char} (hcut : shorter <+: rest)
    (h : shorter.head? = some c) : rest.head? = some c := by
  obtain ⟨more, rfl⟩ := hcut
  simp [List.head?_append, h]

theorem goesOn_of_isPrefix {p : Char → Bool} {shorter rest : List Char} (hcut : shorter <+: rest)
    (h : goesOn p shorter = true) : goesOn p rest = true := by
  obtain ⟨c, hc, hp⟩ := Option.any_eq_true _ _ |>.mp h
  rw [goesOn, head?_of_isPrefix hcut hc]
  exact hp

/-- What is taken from a text is also taken where the text behind it is cut short. -/
def CutStable (take : List Char → List Char) : Prop :=
  ∀ cs shorter, shorter <+: cs → take cs <+: shorter → take shorter = take cs

theorem cutStable_takeWhile (p : Char → Bool) : CutStable (List.takeWhile p) := by
  rintro cs _ ⟨behind, hcs⟩ ⟨more, rfl⟩
  have hends : goesOn p (more ++ behind) = false :=
    not_goesOn_of_takeWhile (by rw [← List.append_assoc, hcs])
  have hmore : goesOn p more = false := by
    refine eq_false_of_ne_true fun hgoes => ?_
    rw [goesOn_of_isPrefix (List.prefix_append _ _) hgoes] at hends
    cases hends
  rw [takeWhile_run_append, takeWhile_eq_nil_of_not_goesOn hmore, List.append_nil]

theorem CutStable.cons {take : List Char → List Char} (h : CutStable take) {c : Char}
    {rest shorter : List Char} (hcut : shorter <+: c :: rest)
    (htaken : c :: take rest <+: shorter) :
    ∃ shorter', shorter = c :: shorter' ∧ take shorter' = take rest := by
  obtain ⟨more, rfl⟩ := htaken
  rw [List.cons_append, List.cons_prefix_cons] at hcut
  exact ⟨take rest ++ more, rfl, h rest _ hcut.2 (List.prefix_append _ _)⟩

/-- One piece is taken behind another. -/
theorem CutStable.andThen {first second : List Char → List Char} (hfirst : CutStable first)
    (hsecond : CutStable second) :
    CutStable fun cs => first cs ++ second (cs.drop (first cs).length) := by
  intro cs shorter hcut htaken
  have hsame : first shorter = first cs :=
    hfirst cs shorter hcut ((List.prefix_append _ _).trans htaken)
  have hbehind : second (shorter.drop (first cs).length) = second (cs.drop (first cs).length) := by
    refine hsecond _ _ (hcut.drop _) ?_
    simpa using htaken.drop (first cs).length
  simp only [hsame, hbehind]

theorem cutStable_fractionOf : CutStable fractionOf := by
  intro cs shorter hcut htaken
  by_cases hpoint : ∃ rest, cs = '.' :: rest
  · obtain ⟨rest, rfl⟩ := hpoint
    obtain ⟨shorter', rfl, hsame⟩ := (cutStable_takeWhile Char.isDigit).cons hcut htaken
    rw [fractionOf, fractionOf, hsame]
  · have hnone {digits : List Char} (h : ¬ ∃ rest, digits = '.' :: rest) :
        fractionOf digits = [] := by
      unfold fractionOf
      split
      · exact absurd ⟨_, rfl⟩ h
      · rfl
    obtain ⟨more, rfl⟩ := hcut
    rw [hnone hpoint, hnone]
    rintro ⟨rest, rfl⟩
    exact hpoint ⟨rest ++ more, rfl⟩

/-- What stands in front of the digits of an exponent. -/
def IsExponentOpening (opening : List Char) : Prop :=
  ∃ e, (e = 'e' ∨ e = 'E') ∧ (opening = [e] ∨ ∃ s, (s = '+' ∨ s = '-') ∧ opening = [e, s])

theorem exponentOf_opening {opening after : List Char} (hopening : IsExponentOpening opening)
    (hdigit : goesOn Char.isDigit after = true) :
    exponentOf (opening ++ after) = opening ++ after.takeWhile Char.isDigit := by
  obtain ⟨e, he, rfl | ⟨s, hs, rfl⟩⟩ := hopening
  · cases after with
    | nil => cases hdigit
    | cons d after =>
      have hd : d.isDigit = true := by simpa [goesOn] using hdigit
      have hsign : ¬ (d = '+' ∨ d = '-') := by
        rintro (rfl | rfl)
        · cases hd
        · cases hd
      simp [exponentOf, he, hsign, hd]
  · have hdigit : after.head?.any Char.isDigit = true := hdigit
    simp [exponentOf, he, hs, hdigit]

theorem exponentOf_cases (cs : List Char) :
    exponentOf cs = [] ∨ ∃ opening after, cs = opening ++ after ∧ IsExponentOpening opening ∧
      goesOn Char.isDigit after = true := by
  unfold exponentOf
  split
  · rename_i e rest
    split
    · rename_i he
      split
      · exact .inl rfl
      · rename_i s after
        split
        · rename_i hs
          split
          · rename_i hdigit
            exact .inr ⟨[e, s], after, rfl, ⟨e, he, .inr ⟨s, hs, rfl⟩⟩, hdigit⟩
          · exact .inl rfl
        · split
          · rename_i hdigit
            exact .inr ⟨[e], s :: after, rfl, ⟨e, he, .inl rfl⟩, hdigit⟩
          · exact .inl rfl
    · exact .inl rfl
  · exact .inl rfl

theorem IsExponentOpening.ne_nil {opening : List Char} (h : IsExponentOpening opening) :
    opening ≠ [] := by
  obtain ⟨e, -, rfl | ⟨s, -, rfl⟩⟩ := h
  · exact List.cons_ne_nil _ _
  · exact List.cons_ne_nil _ _

theorem cutStable_exponentOf : CutStable exponentOf := by
  intro cs shorter hcut htaken
  rcases exponentOf_cases cs with hnone | ⟨opening, after, rfl, hopening, hdigit⟩
  · -- an exponent of the shorter text would be there in the longer one
    rcases exponentOf_cases shorter with hnone' | ⟨opening, after, rfl, hopening, hdigit⟩
    · rw [hnone, hnone']
    · obtain ⟨more, rfl⟩ := hcut
      have hlonger := goesOn_of_isPrefix (List.prefix_append after more) hdigit
      rw [List.append_assoc, exponentOf_opening hopening hlonger] at hnone
      exact absurd (List.append_eq_nil_iff.mp hnone).1 hopening.ne_nil
  · rw [exponentOf_opening hopening hdigit] at htaken ⊢
    obtain ⟨more, rfl⟩ := htaken
    rw [List.append_assoc] at hcut ⊢
    have hcut := (List.prefix_append_right_inj opening).mp hcut
    have hstill : goesOn Char.isDigit (after.takeWhile Char.isDigit ++ more) = true := by
      cases after with
      | nil => cases hdigit
      | cons d after =>
        have hd : d.isDigit = true := by simpa [goesOn] using hdigit
        simp [goesOn, hd]
    rw [exponentOf_opening hopening hstill,
      cutStable_takeWhile Char.isDigit after _ hcut (List.prefix_append _ _)]

theorem cutStable_decimalOf : CutStable decimalOf := by
  have hwhole := (cutStable_takeWhile Char.isDigit).andThen cutStable_fractionOf
  have hnumber := hwhole.andThen cutStable_exponentOf
  intro cs shorter hcut htaken
  have hsame := hnumber cs shorter hcut
  simp only [List.length_append] at hsame
  exact hsame htaken

theorem numberOf_hex {x : Char} (hx : x = 'x' ∨ x = 'X') (rest : List Char) :
    numberOf ('0' :: x :: rest) = '0' :: x :: rest.takeWhile isHexDigit := by
  simp only [numberOf, if_pos hx]

theorem numberOf_decimal {cs : List Char}
    (h : ∀ x rest, cs = '0' :: x :: rest → ¬ (x = 'x' ∨ x = 'X')) :
    numberOf cs = decimalOf cs := by
  unfold numberOf
  split
  · rename_i x rest
    rw [if_neg (h x rest rfl)]
  · rfl

theorem cutStable_numberOf : CutStable numberOf := by
  intro cs shorter hcut htaken
  by_cases hhex : ∃ x rest, cs = '0' :: x :: rest ∧ (x = 'x' ∨ x = 'X')
  · obtain ⟨x, rest, rfl, hx⟩ := hhex
    rw [numberOf_hex hx] at htaken ⊢
    obtain ⟨more, rfl⟩ := htaken
    simp only [List.cons_append, List.cons_prefix_cons, true_and] at hcut
    rw [List.cons_append, List.cons_append, numberOf_hex hx,
      cutStable_takeWhile isHexDigit rest _ hcut (List.prefix_append _ _)]
  · obtain ⟨more, rfl⟩ := hcut
    have hdecimal : numberOf (shorter ++ more) = decimalOf (shorter ++ more) :=
      numberOf_decimal fun x rest hcs hx => hhex ⟨x, rest, hcs, hx⟩
    have hdecimal' : numberOf shorter = decimalOf shorter := by
      refine numberOf_decimal ?_
      rintro x rest rfl hx
      exact hhex ⟨x, rest ++ more, rfl, hx⟩
    rw [hdecimal] at htaken ⊢
    rw [hdecimal']
    exact cutStable_decimalOf _ _ (List.prefix_append _ _) htaken

/-- A text that may not come behind a token is one with every text that it is the start of. -/
theorem RunsOn.longer {l : Lexeme} {shorter rest : List Char} (hcut : shorter <+: rest)
    (h : RunsOn l shorter) : RunsOn l rest := by
  obtain ⟨kind, chars⟩ := l
  cases kind with
  | whitespace => exact goesOn_of_isPrefix hcut h
  | lineComment => exact goesOn_of_isPrefix hcut h
  | blockComment => exact h
  | stringLiteral => exact head?_of_isPrefix hcut h
  | bracketIdentifier => exact head?_of_isPrefix hcut h
  | quotedIdentifier => exact head?_of_isPrefix hcut h
  | variableName => exact goesOn_of_isPrefix hcut h
  | tempName => exact goesOn_of_isPrefix hcut h
  | numberLiteral =>
    intro hsame
    have hstable := cutStable_numberOf (chars ++ rest) (chars ++ shorter)
      ((List.prefix_append_right_inj chars).mpr hcut)
    rw [hsame] at hstable
    exact h (hstable (List.prefix_append _ _))
  | keyword => exact h.imp (goesOn_of_isPrefix hcut) (And.imp_right (head?_of_isPrefix hcut))
  | identifier => exact h.imp (goesOn_of_isPrefix hcut) (And.imp_right (head?_of_isPrefix hcut))
  | symbol =>
    exact h.imp (And.imp_right (head?_of_isPrefix hcut)) (And.imp_right (head?_of_isPrefix hcut))

theorem not_runsOn_of_scan {c : Char} {rest later : List Char} {l : Lexeme}
    (scanned : scan c rest = .ok l) (cut : c :: rest = l.chars ++ later) : ¬ RunsOn l later := by
  intro hon
  obtain ⟨taken, htaken, -⟩ := scan_isPrefix scanned
  have hagain : scan c (l.chars.tail ++ later) = .ok l := by
    rw [htaken] at cut ⊢
    obtain rfl : rest = taken ++ later := (List.cons.inj cut).2
    exact scanned
  exact scan_other scanned hon hagain rfl

/-- A scan finds the same token where the text behind the token is cut short. -/
theorem scan_cut {c : Char} {rest later shorter : List Char} {l : Lexeme}
    (scanned : scan c rest = .ok l) (cut : c :: rest = l.chars ++ later)
    (hshort : shorter <+: later) : scan c (l.chars.tail ++ shorter) = .ok l :=
  scan_again scanned fun hon => not_runsOn_of_scan scanned cut (hon.longer hshort)

/-- A text that was read up to a place is read the same way where the text from there on is cut
short. -/
theorem Reads.cut {after shorter cs : List Char} {ls : List Lexeme} (h : Reads after cs ls)
    (hshort : shorter <+: after) : Reads shorter (ls.flatMap Lexeme.chars ++ shorter) ls := by
  induction h with
  | done => exact .done
  | @cons c rest later l ls scanned cut more ih =>
    obtain ⟨taken, htaken, -⟩ := scan_isPrefix scanned
    have hlater : ls.flatMap Lexeme.chars ++ shorter <+: later := by
      rw [more.chars]
      exact (List.prefix_append_right_inj _).mpr hshort
    have hscan := scan_cut scanned cut hlater
    rw [List.flatMap_cons, List.append_assoc]
    rw [htaken] at hscan ⊢
    exact .cons hscan (by rw [htaken]; rfl) ih

/-! ## Places -/

@[simp] theorem charsOf_append (ts us : List Token) :
    charsOf (ts ++ us) = charsOf ts ++ charsOf us :=
  List.flatMap_append

/-- The token with its place counted from `p` on. -/
def Token.movedBack (p : Nat) (t : Token) : Token := { t with start := t.start - p }

theorem charsOf_placed (offset : Nat) (ls : List Lexeme) :
    charsOf (placed offset ls) = ls.flatMap Lexeme.chars := by
  induction ls generalizing offset with
  | nil => rfl
  | cons l ls ih => rw [placed, charsOf_cons, ih, List.flatMap_cons, String.toList_ofList]

theorem map_movedBack_placed (p offset : Nat) (ls : List Lexeme) :
    (placed (p + offset) ls).map (·.movedBack p) = placed offset ls := by
  induction ls generalizing offset with
  | nil => rfl
  | cons l ls ih =>
    rw [placed, List.map_cons, Nat.add_assoc, ih, placed, Token.movedBack, Nat.add_sub_cancel_left]

theorem byteLength_pos {cs : List Char} (h : cs ≠ []) : 0 < Text.byteLength cs := by
  cases cs with
  | nil => exact absurd rfl h
  | cons c cs => exact Nat.lt_of_lt_of_le c.utf8Size_pos (Nat.le_add_right _ _)

theorem Tiles.bounds {offset : Nat} {ts : List Token} (h : Tiles offset ts) {t : Token}
    (ht : t ∈ ts) :
    offset ≤ t.start ∧ t.start < t.stop ∧ t.stop ≤ offset + Text.byteLength (charsOf ts) := by
  induction ts generalizing offset with
  | nil => cases ht
  | cons u ts ih =>
    obtain ⟨hstart, hne, htiles⟩ := h
    have hpos := byteLength_pos hne
    have hstop : u.stop = u.start + Text.byteLength u.text.toList := rfl
    rw [charsOf_cons, Text.byteLength_append]
    rcases List.mem_cons.mp ht with rfl | ht
    · omega
    · have hbounds := ih htiles ht
      omega

theorem Tiles.append {offset : Nat} {ts us : List Token} (h : Tiles offset (ts ++ us)) :
    Tiles offset ts ∧ Tiles (offset + Text.byteLength (charsOf ts)) us := by
  induction ts generalizing offset with
  | nil => exact ⟨trivial, h⟩
  | cons t ts ih =>
    obtain ⟨hstart, hne, htiles⟩ := h
    obtain ⟨hfirst, hsecond⟩ := ih htiles
    refine ⟨⟨hstart, hne, hfirst⟩, ?_⟩
    rw [charsOf_cons, Text.byteLength_append, ← Nat.add_assoc, ← hstart]
    exact hsecond

theorem Tiles.filter_stop {offset : Nat} {ts us : List Token} (h : Tiles offset (ts ++ us)) :
    (ts ++ us).filter (fun t => t.stop ≤ offset + Text.byteLength (charsOf ts)) = ts := by
  obtain ⟨hfirst, hsecond⟩ := h.append
  rw [List.filter_append, List.filter_eq_self.mpr, List.filter_eq_nil_iff.mpr, List.append_nil]
  · intro t ht
    have hbounds := hsecond.bounds ht
    simp only [decide_eq_true_eq]
    omega
  · intro t ht
    exact decide_eq_true (hfirst.bounds ht).2.2

theorem Tiles.filter_start {offset : Nat} {ts us : List Token} (h : Tiles offset (ts ++ us)) :
    (ts ++ us).filter (fun t => offset + Text.byteLength (charsOf ts) ≤ t.start) = us := by
  obtain ⟨hfirst, hsecond⟩ := h.append
  rw [List.filter_append, List.filter_eq_nil_iff.mpr, List.filter_eq_self.mpr, List.nil_append]
  · intro t ht
    exact decide_eq_true (hsecond.bounds ht).1
  · intro t ht
    have hbounds := hfirst.bounds ht
    simp only [decide_eq_true_eq]
    omega

theorem Tiles.lastStop {offset : Nat} {ts : List Token} (h : Tiles offset ts) :
    (ts.getLast?.map Token.stop).getD offset = offset + Text.byteLength (charsOf ts) := by
  induction ts generalizing offset with
  | nil => rfl
  | cons t ts ih =>
    obtain ⟨rfl, -, htiles⟩ := h
    have hlast := ih htiles
    rw [charsOf_cons, Text.byteLength_append, ← Nat.add_assoc, ← Token.stop]
    cases ts with
    | nil => rfl
    | cons u ts =>
      have hsome := List.getLast?_eq_some_getLast (List.cons_ne_nil u ts)
      rw [hsome] at hlast
      rw [List.getLast?_cons_cons, hsome]
      exact hlast

/-! ## The tokens on both sides of a cut -/

def textBefore (p : Nat) (sql : String) : String := String.ofList (Text.splitBytes p sql.toList).1

def textFrom (p : Nat) (sql : String) : String := String.ofList (Text.splitBytes p sql.toList).2

/-- The tokens cut the text up: from its first byte to its last they lie one after another, none is
empty, each is the text of its range, which begins and ends between characters, and together they
are the text. -/
structure CutsUp (ts : List Token) (sql : String) : Prop where
  tiles : Tiles 0 ts
  lastStop : (ts.getLast?.map Token.stop).getD 0 = Text.byteLength sql.toList
  ranges : ∀ t ∈ ts, ∃ earlier later, sql.toList = earlier ++ t.text.toList ++ later ∧
    t.start = Text.byteLength earlier ∧ t.stop = Text.byteLength (earlier ++ t.text.toList)
  whole : String.join (ts.map Token.text) = sql

/-- An offset at which no token is cut: the start of the text, or where a token stops. -/
def IsTokenEdge (ts : List Token) (p : Nat) : Prop := p = 0 ∨ ∃ t ∈ ts, p = t.stop

theorem Tiles.start_eq {offset : Nat} {before after : List Token} {t : Token}
    (h : Tiles offset (before ++ t :: after)) :
    t.start = offset + Text.byteLength (charsOf before) :=
  h.append.2.1

theorem exists_split_of_edge {ts : List Token} {p : Nat} (tiles : Tiles 0 ts)
    (h : IsTokenEdge ts p) :
    ∃ before after, ts = before ++ after ∧ p = Text.byteLength (charsOf before) := by
  rcases h with rfl | ⟨t, ht, rfl⟩
  · exact ⟨[], ts, rfl, rfl⟩
  · obtain ⟨before, after, rfl⟩ := List.append_of_mem ht
    refine ⟨before ++ [t], after, by simp, ?_⟩
    rw [Token.stop, tiles.start_eq]
    simp

theorem cutsUp_of_tokenize {sql : String} {ts : List Token} (h : tokenize sql = .ok ts) :
    CutsUp ts sql := by
  obtain ⟨htiles, hchars⟩ := tiles_of_tokenize h
  refine ⟨htiles, ?_, ?_, ?_⟩
  · rw [htiles.lastStop, hchars, Nat.zero_add]
  · intro t ht
    obtain ⟨before, after, rfl⟩ := List.append_of_mem ht
    have hstart := htiles.start_eq
    rw [Nat.zero_add] at hstart
    refine ⟨charsOf before, charsOf after, by simp [← hchars], hstart, ?_⟩
    rw [Token.stop, hstart, Text.byteLength_append]
  · rw [← String.toList_inj, String.toList_join, List.flatMap_map, ← hchars]
    rfl

theorem placed_eq_append {offset : Nat} {ls : List Lexeme} {before after : List Token}
    (h : placed offset ls = before ++ after) :
    ∃ a b, ls = a ++ b ∧ before = placed offset a ∧
      after = placed (offset + Text.byteLength (charsOf before)) b := by
  induction before generalizing offset ls with
  | nil => exact ⟨[], ls, rfl, rfl, h.symm⟩
  | cons t before ih =>
    cases ls with
    | nil => cases h
    | cons l ls =>
      obtain ⟨rfl, hlater⟩ := List.cons.inj h
      obtain ⟨a, b, rfl, rfl, rfl⟩ := ih hlater
      refine ⟨l :: a, b, rfl, rfl, ?_⟩
      rw [charsOf_cons, Text.byteLength_append, String.toList_ofList, ← Nat.add_assoc]

theorem tokenize_of_reads {cs : List Char} {ls : List Lexeme} (h : Reads [] cs ls) :
    tokenize (String.ofList cs) = .ok (placed 0 ls) :=
  tokenize_ok_iff.mpr ⟨ls, by rw [String.toList_ofList]; exact reads_nil_iff.mp h, rfl⟩

/-- The texts on both sides of a cut between tokens have the tokens on these sides. -/
theorem tokenize_split {sql : String} {before after : List Token}
    (h : tokenize sql = .ok (before ++ after)) :
    tokenize (String.ofList (charsOf before)) = .ok before ∧
      tokenize (String.ofList (charsOf after)) =
        .ok (after.map (·.movedBack (Text.byteLength (charsOf before)))) := by
  obtain ⟨ls, hls, hts⟩ := tokenize_ok_iff.mp h
  obtain ⟨a, b, rfl, rfl, rfl⟩ := placed_eq_append hts.symm
  obtain ⟨middle, hfirst, hsecond⟩ := (reads_nil_iff.mpr hls).split a
  have hbefore := hfirst.cut List.nil_prefix
  have hafter := hsecond.chars
  rw [List.append_nil] at hbefore hafter
  subst hafter
  have hmoved := map_movedBack_placed (Text.byteLength (charsOf (placed 0 a))) 0 b
  rw [Nat.add_zero] at hmoved
  rw [Nat.zero_add, hmoved, charsOf_placed, charsOf_placed]
  exact ⟨tokenize_of_reads hbefore, tokenize_of_reads hsecond⟩

theorem scan_of_tokenize {sql : String} {before after : List Token} {t : Token}
    (h : tokenize sql = .ok (before ++ t :: after)) :
    ∃ c rest, scan c rest = .ok ⟨t.kind, t.text.toList⟩ ∧
      c :: rest = t.text.toList ++ charsOf after := by
  obtain ⟨ls, hls, hts⟩ := tokenize_ok_iff.mp h
  obtain ⟨a, b, rfl, -, hafter⟩ := placed_eq_append hts.symm
  obtain ⟨middle, -, hreads⟩ := (reads_nil_iff.mpr hls).split a
  cases hreads with
  | done => cases hafter
  | @cons c rest later l ls scanned cut more =>
    obtain ⟨rfl, rfl⟩ := List.cons.inj hafter
    refine ⟨c, rest, by rw [String.toList_ofList]; exact scanned, ?_⟩
    rw [charsOf_placed _ ls, String.toList_ofList, cut, more.chars, List.append_nil]

/-- A text is its tokens, and it can be cut between any two of them: what comes before the cut has
the tokens before it, and what comes behind has the others, their places counted from there. So the
text of each token alone is that one token. -/
theorem tokenize_cut (sql : String) (ts : List Token) (h : tokenize sql = .ok ts) :
    CutsUp ts sql ∧
    (∀ p, IsTokenEdge ts p →
      tokenize (textBefore p sql) = .ok (ts.filter fun t => t.stop ≤ p) ∧
      tokenize (textFrom p sql) = .ok ((ts.filter fun t => p ≤ t.start).map (·.movedBack p))) ∧
    ∀ t ∈ ts, tokenize t.text = .ok [t.movedBack t.start] := by
  obtain ⟨htiles, hchars⟩ := tiles_of_tokenize h
  refine ⟨cutsUp_of_tokenize h, ?_, ?_⟩
  · intro p hp
    obtain ⟨before, after, rfl, rfl⟩ := exists_split_of_edge htiles hp
    obtain ⟨hbefore, hafter⟩ := tokenize_split h
    have hstops := htiles.filter_stop
    have hstarts := htiles.filter_start
    rw [Nat.zero_add] at hstops hstarts
    rw [hstops, hstarts, textBefore, textFrom, ← hchars, charsOf_append, Text.splitBytes_byteLength]
    exact ⟨hbefore, hafter⟩
  · intro t ht
    obtain ⟨before, after, rfl⟩ := List.append_of_mem ht
    have hstart := htiles.start_eq
    rw [Nat.zero_add] at hstart
    -- cut in front of the token, and then behind it
    obtain ⟨-, hfrom⟩ := tokenize_split h
    obtain ⟨hone, -⟩ := @tokenize_split _ [t.movedBack t.start] _ (hstart ▸ hfrom)
    simpa [Token.movedBack] using hone

/-- A text with a nested comment, a literal behind the letter N and a letter behind a number, cut
behind the comment. -/
theorem cut_behind_nested_comment :
    tokenize "N'a''b'/*/**/*/1e" = .ok [⟨.stringLiteral, "N'a''b'", 0⟩,
      ⟨.blockComment, "/*/**/*/", 7⟩, ⟨.numberLiteral, "1", 15⟩, ⟨.identifier, "e", 16⟩] ∧
    tokenize (textBefore 15 "N'a''b'/*/**/*/1e") =
      .ok [⟨.stringLiteral, "N'a''b'", 0⟩, ⟨.blockComment, "/*/**/*/", 7⟩] ∧
    tokenize (textFrom 15 "N'a''b'/*/**/*/1e") =
      .ok [⟨.numberLiteral, "1", 0⟩, ⟨.identifier, "e", 1⟩] := by
  have htokens : tokenize "N'a''b'/*/**/*/1e" = .ok [⟨.stringLiteral, "N'a''b'", 0⟩,
      ⟨.blockComment, "/*/**/*/", 7⟩, ⟨.numberLiteral, "1", 15⟩, ⟨.identifier, "e", 16⟩] := rfl
  obtain ⟨-, hcut, -⟩ := tokenize_cut _ _ htokens
  refine ⟨htokens, hcut 15 (.inr ⟨⟨.blockComment, "/*/**/*/", 7⟩, ?_, rfl⟩)⟩
  exact List.mem_cons_of_mem _ List.mem_cons_self

end Migration
