import Mathlib.Data.List.TakeWhile
import Migration.Proofs.ClosedDefaults
import Migration.Proofs.RenderedNames

/-
  Parentheses around a default.

  Blanks and parentheses around the whole of a default are taken off before its form is looked at.
  Which parentheses are around the whole is told by a scan that counts depth and passes over what
  stands between single quotes. The scan knows nothing of comments, so a quote or a parenthesis in
  a comment may mislead it. This file

  1. says what a text with blanks and parentheses around it is (`Around`), and which texts leave the
     depth of the scan as it was (`Balanced`): of those every pair of parentheses around comes off
     (`stripped_around`);
  2. proves that nothing that starts with a parenthesis is translated as it stands
     (`expression?_parenthesis`), so that a wrapped text is translated only without the wrapping;
  3. proves that what is translated is balanced unless there are comments in it, which then are
     tokens of the whole default too (`balanced_or_commented`);
  4. concludes that parentheses change nothing around a default without comments
     (`parentheses_irrelevant`). -/

namespace Migration

/-! ## Blanks at the ends -/

namespace Text

def AllBlank (cs : List Char) : Prop := ∀ c ∈ cs, isBlank c = true

instance (cs : List Char) : Decidable (AllBlank cs) :=
  List.decidableBAll (fun c => isBlank c = true) cs

theorem trimStart_behind {before : List Char} (h : AllBlank before) (cs : List Char) :
    trimStart (before ++ cs) = trimStart cs := List.dropWhile_append_of_pos h

theorem trimEnd_inFront {after : List Char} (h : AllBlank after) (cs : List Char) :
    trimEnd (cs ++ after) = trimEnd cs := by
  have hreverse : ∀ c ∈ after.reverse, isBlank c = true := by simpa [AllBlank] using h
  rw [trimEnd, List.reverse_append, List.dropWhile_append_of_pos hreverse, trimEnd]

theorem trimmed_between {before after : List Char} (hbefore : AllBlank before)
    (hafter : AllBlank after) (cs : List Char) : trimmed (before ++ cs ++ after) = trimmed cs := by
  rw [trimmed, List.append_assoc, trimStart_behind hbefore, trimmed]
  by_cases hall : AllBlank cs
  · have hcs : trimStart cs = [] := List.dropWhile_eq_nil_iff.mpr hall
    have hboth : trimStart (cs ++ after) = [] := by
      rw [trimStart_behind hall]
      exact List.dropWhile_eq_nil_iff.mpr hafter
    rw [hcs, hboth]
  · have hcs : ¬ (cs.dropWhile isBlank).isEmpty = true := by
      rw [List.isEmpty_iff, List.dropWhile_eq_nil_iff]
      exact hall
    have hboth : trimStart (cs ++ after) = trimStart cs ++ after := by
      rw [trimStart, List.dropWhile_append, if_neg hcs, trimStart]
    rw [hboth, trimEnd_inFront hafter]

theorem exists_blanks_trimmed (cs : List Char) :
    ∃ before after, AllBlank before ∧ AllBlank after ∧ cs = before ++ trimmed cs ++ after := by
  refine ⟨cs.takeWhile isBlank, ((trimStart cs).reverse.takeWhile isBlank).reverse, ?_, ?_, ?_⟩
  · exact fun c hc => List.mem_takeWhile_imp hc
  · exact fun c hc => List.mem_takeWhile_imp (List.mem_reverse.mp hc)
  · have hend : trimStart cs =
        trimmed cs ++ ((trimStart cs).reverse.takeWhile isBlank).reverse := by
      rw [trimmed, trimEnd, ← List.reverse_append, List.takeWhile_append_dropWhile,
        List.reverse_reverse]
    rw [List.append_assoc, ← hend]
    exact List.takeWhile_append_dropWhile.symm

theorem trimmed_parenthesized (cs : List Char) :
    trimmed ('(' :: cs ++ [')']) = '(' :: cs ++ [')'] := by
  have hopen : isBlank '(' = false := by decide
  have hclose : isBlank ')' = false := by decide
  simp [trimmed, trimStart, trimEnd, hopen, hclose]

end Text

namespace Default

open Text (AllBlank)

/-! ## Depth -/

/-- Whether the scan for parentheses passes over the character. -/
def isPlain (c : Char) : Bool := !(['\'', '(', ')'].contains c)

/-- The text leaves the depth of a scan as it was, and closes all its quotes. -/
def Balanced (cs : List Char) : Prop :=
  ∀ depth rest, 0 < depth → closesAtEnd depth false (cs ++ rest) = closesAtEnd depth false rest

theorem closesAtEnd_plain {c : Char} (h : isPlain c = true) (depth : Nat) (quoted : Bool)
    (rest : List Char) : closesAtEnd depth quoted (c :: rest) = closesAtEnd depth quoted rest := by
  have hmarks : c ≠ '\'' ∧ c ≠ '(' ∧ c ≠ ')' := by simpa [isPlain] using h
  rw [closesAtEnd, if_neg hmarks.1, if_neg (fun hopen => hmarks.2.1 hopen.1),
    if_neg (fun hclose => hmarks.2.2 hclose.1)]

theorem closesAtEnd_quoted {c : Char} (h : c ≠ '\'') (depth : Nat) (rest : List Char) :
    closesAtEnd depth true (c :: rest) = closesAtEnd depth true rest := by
  rw [closesAtEnd, if_neg h, if_neg (by simp), if_neg (by simp)]

theorem closesAtEnd_quote (depth : Nat) (quoted : Bool) (rest : List Char) :
    closesAtEnd depth quoted ('\'' :: rest) = closesAtEnd depth (!quoted) rest := by
  rw [closesAtEnd, if_pos rfl]

theorem closesAtEnd_open (depth : Nat) (rest : List Char) :
    closesAtEnd depth false ('(' :: rest) = closesAtEnd (depth + 1) false rest := rfl

theorem closesAtEnd_close {depth : Nat} (h : 1 < depth) (rest : List Char) :
    closesAtEnd depth false (')' :: rest) = closesAtEnd (depth - 1) false rest := by
  have hdeep : ¬ depth ≤ 1 := by omega
  simp [closesAtEnd, hdeep]

namespace Balanced

theorem nil : Balanced [] := fun _ _ _ => rfl

theorem append {cs ds : List Char} (h : Balanced cs) (h' : Balanced ds) : Balanced (cs ++ ds) := by
  intro depth rest hdepth
  rw [List.append_assoc, h depth _ hdepth, h' depth _ hdepth]

theorem of_plain {cs : List Char} (h : ∀ c ∈ cs, isPlain c = true) : Balanced cs := by
  intro depth rest hdepth
  induction cs with
  | nil => rfl
  | cons c cs ih =>
    obtain ⟨hc, hcs⟩ := List.forall_mem_cons.mp h
    rw [List.cons_append, closesAtEnd_plain hc, ih hcs]

theorem parenthesized {cs : List Char} (h : Balanced cs) : Balanced ('(' :: cs ++ [')']) := by
  intro depth rest hdepth
  rw [List.cons_append, List.cons_append, List.append_assoc, closesAtEnd_open,
    h (depth + 1) _ (by omega), List.singleton_append, closesAtEnd_close (by omega),
    Nat.add_sub_cancel]

theorem quoted {taken : List Char} (h : Migration.Closed '\'' taken) :
    Balanced ('\'' :: taken) := by
  intro depth rest _
  rw [List.cons_append, closesAtEnd_quote]
  induction h with
  | last => exact closesAtEnd_quote depth true rest
  | pair later ih =>
    rw [List.cons_append, List.cons_append, closesAtEnd_quote, closesAtEnd_quote]
    exact ih
  | other ne later ih =>
    rw [List.cons_append, Bool.not_false, closesAtEnd_quoted ne]
    exact ih

end Balanced

theorem isPlain_of_ne {c : Char} (hquote : c ≠ '\'') (hopen : c ≠ '(') (hclose : c ≠ ')') :
    isPlain c = true := by
  simp [isPlain, hquote, hopen, hclose]

theorem isPlain_of_isBlank {c : Char} (h : Text.isBlank c = true) : isPlain c = true := by
  refine isPlain_of_ne ?_ ?_ ?_ <;> rintro rfl <;> cases h

/-! ## Texts with parentheses around them -/

/-- The text, with any blanks and parentheses around it. -/
inductive Around (inner : List Char) : List Char → Prop where
  | bare : Around inner inner
  | blanks {before cs after : List Char} (around : Around inner cs) (blank : AllBlank before)
      (blank' : AllBlank after) : Around inner (before ++ cs ++ after)
  | parentheses {cs : List Char} (around : Around inner cs) : Around inner ('(' :: cs ++ [')'])

theorem Around.balanced {inner cs : List Char} (h : Around inner cs) (balanced : Balanced inner) :
    Balanced cs := by
  induction h with
  | bare => exact balanced
  | blanks _ blank blank' ih =>
    exact ((Balanced.of_plain fun c hc => isPlain_of_isBlank (blank c hc)).append ih).append
      (Balanced.of_plain fun c hc => isPlain_of_isBlank (blank' c hc))
  | parentheses _ ih => exact ih.parenthesized

def AreEnds (cs : List Char) : Prop := ∀ c ∈ cs, Text.isBlank c = true ∨ c = '(' ∨ c = ')'

theorem AreEnds.append {cs ds : List Char} (h : AreEnds cs) (h' : AreEnds ds) :
    AreEnds (cs ++ ds) :=
  fun c hc => (List.mem_append.mp hc).elim (h c) (h' c)

theorem areEnds_of_allBlank {cs : List Char} (h : AllBlank cs) : AreEnds cs :=
  fun c hc => .inl (h c hc)

theorem Around.exists_ends {inner cs : List Char} (h : Around inner cs) :
    ∃ before after, cs = before ++ inner ++ after ∧ AreEnds before ∧ AreEnds after := by
  have hmark : AreEnds ['('] ∧ AreEnds [')'] := by simp [AreEnds]
  induction h with
  | bare => exact ⟨[], [], by simp, nofun, nofun⟩
  | @blanks before' cs after' _ blank blank' ih =>
    obtain ⟨before, after, rfl, hbefore, hafter⟩ := ih
    exact ⟨before' ++ before, after ++ after', by simp, (areEnds_of_allBlank blank).append hbefore,
      hafter.append (areEnds_of_allBlank blank')⟩
  | @parentheses cs _ ih =>
    obtain ⟨before, after, rfl, hbefore, hafter⟩ := ih
    exact ⟨['('] ++ before, after ++ [')'], by simp, hmark.1.append hbefore, hafter.append hmark.2⟩

theorem exists_of_isWrapped {cs : List Char} (h : isWrapped cs = true) :
    ∃ mid, cs = '(' :: mid ++ [')'] := by
  simp only [isWrapped, Bool.and_eq_true, beq_iff_eq] at h
  obtain ⟨⟨hhead, hlast⟩, -⟩ := h
  obtain ⟨tail, rfl⟩ := List.head?_eq_some_iff.mp hhead
  obtain ⟨front, hfront⟩ := List.getLast?_eq_some_iff.mp hlast
  cases front with
  | nil => cases hfront
  | cons d mid =>
    rw [List.cons_append, List.cons.injEq] at hfront
    exact ⟨mid, by rw [hfront.2]; rfl⟩

/-- The parentheses around a text wrap the whole of it where the scan says so of the inside. -/
theorem isWrapped_parenthesized (cs : List Char) :
    isWrapped ('(' :: cs ++ [')']) = closesAtEnd 1 false (cs ++ [')']) := by
  rw [isWrapped, List.getLast?_concat, List.cons_append, closesAtEnd_open]
  rfl

theorem stripped_of_wrapped {cs : List Char} (h : closesAtEnd 1 false (cs ++ [')']) = true) :
    stripped ('(' :: cs ++ [')']) = stripped (Text.trimmed cs) := by
  rw [stripped, dif_pos ((isWrapped_parenthesized cs).trans h)]
  simp

/-- What is stripped off is blanks and parentheses around the rest. -/
theorem around_stripped (cs : List Char) : Around (stripped cs) cs := by
  induction cs using stripped.induct with
  | case1 cs hwrapped ih =>
    obtain ⟨mid, rfl⟩ := exists_of_isWrapped hwrapped
    have hmid : ('(' :: mid ++ [')']).tail.dropLast = mid := by simp
    rw [hmid] at ih
    obtain ⟨before, after, hbefore, hafter, hcs⟩ := Text.exists_blanks_trimmed mid
    rw [stripped, dif_pos hwrapped, hmid]
    have haround := ih.blanks hbefore hafter
    rw [← hcs] at haround
    exact haround.parentheses
  | case2 cs hbare =>
    rw [stripped, dif_neg hbare]
    exact .bare

theorem around_innerOf (definition : String) : Around (innerOf definition) definition.toList := by
  obtain ⟨before, after, hbefore, hafter, hcs⟩ := Text.exists_blanks_trimmed definition.toList
  have haround := (around_stripped (Text.trimmed definition.toList)).blanks hbefore hafter
  rwa [← hcs] at haround

/-- Of a balanced text all parentheses around come off. -/
theorem stripped_around {inner cs : List Char} (h : Around inner cs) (balanced : Balanced inner) :
    stripped (Text.trimmed cs) = stripped (Text.trimmed inner) := by
  induction h with
  | bare => rfl
  | blanks around blank blank' ih => rw [Text.trimmed_between blank blank', ih]
  | parentheses around ih =>
    have hwrapped := around.balanced balanced 1 [')'] (by omega)
    rw [Text.trimmed_parenthesized, stripped_of_wrapped (by rw [hwrapped]; rfl), ih]

/-! ## What is translated -/

/-- The calls of the source that have a counterpart, in lower case. -/
def sourceCalls : List String :=
  ["getdate()", "sysdatetime()", "current_timestamp", "sysdatetimeoffset()", "getutcdate()",
   "sysutcdatetime()", "newid()", "newsequentialid()"]

theorem sourceCalls_of_call? {call text : String} (h : call? call = some text) :
    call ∈ sourceCalls := by
  unfold call? at h
  split at h
  all_goals cases h
  all_goals decide

theorem expression?_parenthesis (rest : List Char) (valueType : Option ColumnType) :
    expression? ('(' :: rest) valueType = none := by
  have hnull : Text.sameIgnoringAsciiCase (String.ofList ('(' :: rest)) "null" = false := by
    rw [Text.sameIgnoringAsciiCase, String.toList_ofList]
    rfl
  have hnumber : isNumeric ('(' :: rest) = false := by
    refine eq_false_of_ne_true fun hnumeric => ?_
    have hbegins : beginsNumber '(' = true := (isNumeric_iff.mp hnumeric).begins
    exact absurd hbegins (by decide)
  have hliteral : stringLiteral? (String.ofList ('(' :: rest)) = none := by
    refine Option.eq_none_iff_forall_ne_some.mpr fun text htext => ?_
    obtain ⟨tokens, token, hread, honly, hkind, -⟩ := stringLiteral?_some htext
    obtain ⟨ls, hls, rfl⟩ := tokenize_ok_iff.mp hread
    rw [String.toList_ofList] at hls
    cases hls with
    | @cons _ _ after l ls scanned _ _ =>
      have hsymbol : scan '(' rest = .ok ⟨.symbol, ['(']⟩ := rfl
      obtain rfl := Except.ok.inj (hsymbol.symm.trans scanned)
      obtain ⟨rfl, -⟩ := List.cons.inj honly
      cases hkind
  have hcall : call? (String.ofList ((('(' :: rest).filter (fun c => !Text.isBlank c)).map
      Char.toLower)) = none := by
    refine Option.eq_none_iff_forall_ne_some.mpr fun text htext => ?_
    have hheads : ∀ call ∈ sourceCalls, call.toList.head? ≠ some '(' := by decide
    exact hheads _ (sourceCalls_of_call? htext) (by rw [String.toList_ofList]; rfl)
  simp only [expression?, hnull, hnumber, hliteral]
  exact hcall

theorem expression?_cases {inner : List Char} {valueType : Option ColumnType} {text : String}
    (h : expression? inner valueType = some text) :
    Text.sameIgnoringAsciiCase (String.ofList inner) "null" = true ∨
    IsNumber Text.isDecimalDigit inner ∨
    stringLiteral? (String.ofList inner) = some text ∨
    String.ofList ((inner.filter (fun c => !Text.isBlank c)).map Char.toLower) ∈ sourceCalls := by
  simp only [expression?] at h
  split at h
  · cases h
  split at h
  · rename_i hnull
    exact .inl hnull
  split at h
  · rename_i hnumeric
    exact .inr (.inl (isNumeric_iff.mp hnumeric))
  split at h
  · rename_i literal hliteral
    exact .inr (.inr (.inl (hliteral.trans h)))
  · exact .inr (.inr (.inr (sourceCalls_of_call? h)))

theorem isPlain_toLower (c : Char) : isPlain c.toLower = isPlain c :=
  map_toLower_invariant (by decide) c

theorem balanced_of_null {inner : List Char}
    (h : Text.sameIgnoringAsciiCase (String.ofList inner) "null" = true) : Balanced inner := by
  rw [Text.sameIgnoringAsciiCase, String.toList_ofList, beq_iff_eq] at h
  refine .of_plain fun c hc => ?_
  have hplain : ("null".toList.map Char.toLower).all isPlain = true := rfl
  rw [← isPlain_toLower]
  exact List.all_eq_true.mp hplain _ (h ▸ List.mem_map_of_mem hc)

theorem balanced_of_number {inner : List Char} (h : IsNumber Text.isDecimalDigit inner) :
    Balanced inner := by
  refine .of_plain fun c hc => ?_
  rcases h.mem_cases c hc with hdigit | hmark
  · refine isPlain_of_ne ?_ ?_ ?_ <;> rintro rfl <;> cases hdigit
  · have hplain : ['+', '-', '.', 'e', 'E'].all isPlain = true := rfl
    exact List.all_eq_true.mp hplain c hmark

theorem balanced_of_word {cs word : List Char}
    (h : (cs.filter (fun c => !Text.isBlank c)).map Char.toLower = word)
    (hword : word.all isPlain = true) : Balanced cs := by
  refine .of_plain fun c hc => ?_
  by_cases hblank : Text.isBlank c = true
  · exact isPlain_of_isBlank hblank
  · have hkept : c ∈ cs.filter (fun c => !Text.isBlank c) :=
      List.mem_filter.mpr ⟨hc, by simp [hblank]⟩
    rw [← isPlain_toLower]
    exact List.all_eq_true.mp hword _ (h ▸ List.mem_map_of_mem hkept)

theorem eq_of_toLower {c mark : Char} (hmark : mark = '(' ∨ mark = ')') (h : c.toLower = mark) :
    c = mark := by
  rcases hmark with rfl | rfl
  · have hsame : (c.toLower == '(') = (c == '(') :=
      @map_toLower_invariant _ (· == '(') (by decide) c
    exact beq_iff_eq.mp (hsame.symm.trans (beq_iff_eq.mpr h))
  · have hsame : (c.toLower == ')') = (c == ')') :=
      @map_toLower_invariant _ (· == ')') (by decide) c
    exact beq_iff_eq.mp (hsame.symm.trans (beq_iff_eq.mpr h))

theorem balanced_of_blanks {cs : List Char} (h : cs.filter (fun c => !Text.isBlank c) = []) :
    Balanced cs := @balanced_of_word _ [] (by rw [h]; rfl) rfl

theorem sourceCalls_forms {call : String} (h : call ∈ sourceCalls) :
    call.toList.all isPlain = true ∨
    ∃ name, name.all isPlain = true ∧ call.toList = name ++ ['(', ')'] := by
  have hforms : ∀ call ∈ sourceCalls, call.toList.all isPlain = true ∨
      (call.toList.dropLast.dropLast.all isPlain = true ∧
        call.toList = call.toList.dropLast.dropLast ++ ['(', ')']) := by decide
  exact (hforms call h).imp_right fun hcall => ⟨_, hcall⟩

theorem balanced_of_call {inner : List Char}
    (h : String.ofList ((inner.filter (fun c => !Text.isBlank c)).map Char.toLower) ∈ sourceCalls) :
    Balanced inner := by
  rcases sourceCalls_forms h with hword | ⟨name, hname, hcall⟩
  · rw [String.toList_ofList] at hword
    exact balanced_of_word rfl hword
  · -- the name, then an opening and a closing parenthesis, with blanks anywhere
    rw [String.toList_ofList, List.map_eq_append_iff] at hcall
    obtain ⟨named, marks, hkept, rfl, hmarks⟩ := hcall
    obtain ⟨front, behind, rfl, hfront, hbehind⟩ := List.filter_eq_append_iff.mp hkept
    obtain ⟨opening, closings, rfl, hopening, hclosings⟩ := List.map_eq_cons_iff.mp hmarks
    obtain ⟨closing, none, rfl, hclosing, hnone⟩ := List.map_eq_cons_iff.mp hclosings
    obtain rfl := List.map_eq_nil_iff.mp hnone
    obtain rfl := eq_of_toLower (.inl rfl) hopening
    obtain rfl := eq_of_toLower (.inr rfl) hclosing
    obtain ⟨between, rest, rfl, hbetween, -, hrest⟩ := List.filter_eq_cons_iff.mp hbehind
    obtain ⟨within, last, rfl, hwithin, -, hlast⟩ := List.filter_eq_cons_iff.mp hrest
    have hinside : Balanced ('(' :: within ++ [')']) :=
      (balanced_of_blanks (List.filter_eq_nil_iff.mpr hwithin)).parenthesized
    have hgroup := (balanced_of_blanks (List.filter_eq_nil_iff.mpr hbetween)).append
      (hinside.append (balanced_of_blanks hlast))
    have hall := (balanced_of_word (by rw [hfront]) hname).append hgroup
    simpa using hall

/-! ## Comments -/

inductive IsComment : TokenKind → Prop where
  | line : IsComment .lineComment
  | block : IsComment .blockComment

/-- There is a comment among the lexemes. -/
def HasComment (ls : List Lexeme) : Prop := ∃ l ∈ ls, IsComment l.kind

/-- There is a comment among the tokens of the text. -/
def Commented (sql : String) : Prop := ∃ ts, tokenize sql = .ok ts ∧ ∃ t ∈ ts, IsComment t.kind

theorem commented_of_lexes {sql : String} {ls : List Lexeme} (h : Lexes sql.toList ls)
    (comment : HasComment ls) : Commented sql := by
  obtain ⟨l, hl, hkind⟩ := comment
  have hmem : l.kind ∈ (placed 0 ls).map Token.kind := by
    rw [kind_placed]
    exact List.mem_map_of_mem hl
  obtain ⟨t, ht, htkind⟩ := List.mem_map.mp hmem
  exact ⟨_, tokenize_ok_iff.mpr ⟨ls, h, rfl⟩, t, ht, htkind ▸ hkind⟩

/-- The kinds of lexemes in a text that is one literal, blanks and comments apart. -/
inductive LiteralPart : TokenKind → Prop where
  | blank : LiteralPart .whitespace
  | comment {kind : TokenKind} (comment : IsComment kind) : LiteralPart kind
  | literal : LiteralPart .stringLiteral

theorem lexes_of_stringLiteral? {expression text : String}
    (h : stringLiteral? expression = some text) :
    ∃ ls, Lexes expression.toList ls ∧ ∀ l ∈ ls, LiteralPart l.kind := by
  obtain ⟨tokens, token, hread, honly, hkind, -⟩ := stringLiteral?_some h
  obtain ⟨ls, hls, rfl⟩ := tokenize_ok_iff.mp hread
  refine ⟨ls, hls, fun l hl => ?_⟩
  have hmem : l.kind ∈ (placed 0 ls).map Token.kind := by
    rw [kind_placed]
    exact List.mem_map_of_mem hl
  obtain ⟨t, ht, htkind⟩ := List.mem_map.mp hmem
  rw [← htkind]
  by_cases htrivia : t.isTrivia = true
  · unfold Token.isTrivia at htrivia
    split at htrivia
    · rename_i hblank
      rw [hblank]
      exact .blank
    · rename_i hline
      rw [hline]
      exact .comment .line
    · rename_i hblock
      rw [hblock]
      exact .comment .block
    · cases htrivia
  · have honly' : t ∈ [token] := honly ▸ List.mem_filter.mpr ⟨ht, by simp [htrivia]⟩
    rw [List.mem_singleton.mp honly', hkind]
    exact .literal

theorem wordKind_eq_cases {word : List Char} {kind : TokenKind} (h : wordKind word = kind) :
    kind = .keyword ∨ kind = .identifier := h ▸ wordKind_cases word

section Scanned

variable {c : Char} {rest : List Char} {l : Lexeme}

theorem allBlank_of_scan (scanned : scan c rest = .ok l) (h : l.kind = .whitespace) :
    AllBlank l.chars := by
  cases scans_of_scan scanned with
  | blank hc => exact List.forall_mem_cons.mpr ⟨hc, fun d hd => List.mem_takeWhile_imp hd⟩
  | word _ _ _ =>
    dsimp only at h
    exact (wordKind_eq_cases h).elim nofun nofun
  | _ => cases h

theorem balanced_of_scan (scanned : scan c rest = .ok l) (h : l.kind = .stringLiteral) :
    Balanced l.chars := by
  cases scans_of_scan scanned with
  | string closed => exact .quoted (closed_of_closeAt closed)
  | letterString letter closed =>
    have hletter : isPlain c = true := by
      rcases letter with rfl | rfl
      all_goals rfl
    have hprefixed : Balanced [c] := .of_plain (by simpa using hletter)
    exact hprefixed.append (.quoted (closed_of_closeAt closed))
  | word _ _ _ =>
    dsimp only at h
    exact (wordKind_eq_cases h).elim nofun nofun
  | _ => cases h

end Scanned

theorem balanced_of_lexes {cs : List Char} {ls : List Lexeme} (h : Lexes cs ls)
    (parts : ∀ l ∈ ls, LiteralPart l.kind) (comment : ¬ HasComment ls) : Balanced cs := by
  induction h with
  | nil => exact .nil
  | @cons c rest after l ls scanned cut later ih =>
    obtain ⟨hpart, hparts⟩ := List.forall_mem_cons.mp parts
    have hafter := ih hparts fun ⟨m, hm, hkind⟩ => comment ⟨m, List.mem_cons_of_mem _ hm, hkind⟩
    have hl : Balanced l.chars := by
      generalize hkind : l.kind = kind at hpart
      cases hpart with
      | blank =>
        exact .of_plain fun d hd => isPlain_of_isBlank (allBlank_of_scan scanned hkind d hd)
      | comment hcomment => exact absurd ⟨l, List.mem_cons_self, hkind ▸ hcomment⟩ comment
      | literal => exact balanced_of_scan scanned hkind
    rw [cut]
    exact hl.append hafter

/-! ## More text around -/

theorem lexes_parenthesis {c : Char} (hc : c = '(' ∨ c = ')') {cs : List Char} {ls : List Lexeme}
    (h : Lexes cs ls) : Lexes (c :: cs) (⟨.symbol, [c]⟩ :: ls) := by
  rcases hc with rfl | rfl
  · exact .cons rfl rfl h
  · exact .cons rfl rfl h

/-- A blank makes a token of its own, or one more character of the first. -/
theorem lexes_blank {c : Char} (hc : Text.isBlank c = true) {cs : List Char} {ls : List Lexeme}
    (h : Lexes cs ls) : ∃ ls', Lexes (c :: cs) ls' ∧ (HasComment ls → HasComment ls') := by
  have hscan (rest : List Char) :
      scan c rest = .ok ⟨.whitespace, c :: rest.takeWhile Text.isBlank⟩ := scan_of_scans (.blank hc)
  cases h with
  | nil => exact ⟨_, .cons (hscan []) rfl .nil, fun ⟨_, hl, _⟩ => absurd hl List.not_mem_nil⟩
  | @cons d rest after l ls scanned cut later =>
    by_cases hd : Text.isBlank d = true
    · have hsame := Except.ok.inj (scanned.symm.trans (scan_of_scans (.blank hd)))
      rw [hsame] at cut ⊢
      refine ⟨⟨.whitespace, c :: (d :: rest).takeWhile Text.isBlank⟩ :: ls, ?_, ?_⟩
      · refine .cons (hscan _) ?_ later
        rw [List.takeWhile_cons_of_pos hd, cut]
        rfl
      · rintro ⟨m, hm, hkind⟩
        rcases List.mem_cons.mp hm with rfl | hm
        · cases hkind
        · exact ⟨m, List.mem_cons_of_mem _ hm, hkind⟩
    · refine ⟨⟨.whitespace, [c]⟩ :: l :: ls, ?_, ?_⟩
      · refine .cons ?_ rfl (.cons scanned cut later)
        rw [hscan, List.takeWhile_cons_of_neg hd]
      · exact fun ⟨m, hm, hkind⟩ => ⟨m, List.mem_cons_of_mem _ hm, hkind⟩

/-- Blanks and parentheses before a text leave its comments. -/
theorem lexes_behind {before : List Char} (hbefore : AreEnds before)
    {cs : List Char} {ls : List Lexeme} (h : Lexes cs ls) :
    ∃ ls', Lexes (before ++ cs) ls' ∧ (HasComment ls → HasComment ls') := by
  induction before with
  | nil => exact ⟨ls, h, id⟩
  | cons c before ih =>
    obtain ⟨hc, hrest⟩ := List.forall_mem_cons.mp hbefore
    obtain ⟨ls', hls', hkeep⟩ := ih hrest
    rcases hc with hblank | hparenthesis
    · obtain ⟨ls'', hls'', hkeep'⟩ := lexes_blank hblank hls'
      exact ⟨ls'', hls'', fun comment => hkeep' (hkeep comment)⟩
    · refine ⟨_, lexes_parenthesis hparenthesis hls', fun comment => ?_⟩
      obtain ⟨l, hl, hkind⟩ := hkeep comment
      exact ⟨l, List.mem_cons_of_mem _ hl, hkind⟩

theorem lexes_again {c : Char} {rest behind : List Char} {l : Lexeme}
    (scanned : scan c rest = .ok l) (hends : ¬ RunsOn l behind)
    {ls : List Lexeme} (h : Lexes behind ls) : Lexes (l.chars ++ behind) (l :: ls) := by
  have hscan := scan_again scanned hends
  obtain ⟨taken, htaken, -⟩ := scan_isPrefix scanned
  rw [htaken] at hscan ⊢
  exact .cons hscan (by rw [htaken]; rfl) h

/-- Of more text behind it, a lexeme that is no number runs on to the start only, and only where it
was the last. -/
theorem runsOn_last {c : Char} {rest later after : List Char} {l : Lexeme}
    (scanned : scan c rest = .ok l) (cut : c :: rest = l.chars ++ later)
    (notNumber : l.kind ≠ .numberLiteral) (hon : RunsOn l (later ++ after)) :
    later = [] ∧ RunsOn l after := by
  cases later with
  | nil => exact ⟨rfl, hon⟩
  | cons d later =>
    exact absurd ((runsOn_congr notNumber (by rfl)).mp hon) (not_runsOn_of_scan scanned cut)

section Ends

variable {after : List Char} (hafter : AreEnds after)
include hafter

theorem not_runsOn_literal {l : Lexeme} (h : l.kind = .stringLiteral) : ¬ RunsOn l after := by
  obtain ⟨kind, chars⟩ := l
  obtain rfl : kind = .stringLiteral := h
  intro hon
  have hquote : after.head? = some '\'' := hon
  rcases hafter '\'' (List.mem_of_head? hquote) with hblank | hopen | hclose
  · exact absurd hblank (by decide)
  · cases hopen
  · cases hclose

theorem lexes_lineComment {c : Char} {rest : List Char} {l : Lexeme} (scanned : scan c rest = .ok l)
    (cut : c :: rest = l.chars ++ []) (h : l.kind = .lineComment) :
    ∃ ls, Lexes (c :: rest ++ after) ls ∧ HasComment ls := by
  cases scans_of_scan scanned with
  | lineComment hyphen =>
    rw [List.append_nil, List.cons.injEq] at cut
    have hrest : ∀ d ∈ rest, decide (d ≠ '\n') = true := List.takeWhile_eq_self_iff.mp cut.2.symm
    have hends : AreEnds (after.dropWhile (fun d => d ≠ '\n')) :=
      fun d hd => hafter d ((List.dropWhile_sublist _).subset hd)
    obtain ⟨ls, hls, -⟩ := lexes_behind hends .nil
    have hyphen' : (rest ++ after).head? = some '-' := by rw [List.head?_append, hyphen]; rfl
    refine ⟨_ :: ls, .cons (scan_of_scans (.lineComment hyphen')) ?_ hls, _, List.mem_cons_self,
      .line⟩
    rw [List.append_nil, ← List.dropWhile_append_of_pos hrest]
    exact congrArg ('-' :: ·) List.takeWhile_append_dropWhile.symm
  | word _ _ _ =>
    dsimp only at h
    exact (wordKind_eq_cases h).elim nofun nofun
  | _ => cases h

theorem lexes_literal_inFront {cs : List Char} {ls : List Lexeme} (h : Lexes cs ls)
    (parts : ∀ l ∈ ls, LiteralPart l.kind) :
    ∃ ls', Lexes (cs ++ after) ls' ∧ (HasComment ls → HasComment ls') := by
  induction h with
  | nil =>
    obtain ⟨ls', hls', hkeep⟩ := lexes_behind hafter .nil
    exact ⟨ls', by simpa using hls', hkeep⟩
  | @cons c rest later l ls scanned cut more ih =>
    obtain ⟨hpart, hparts⟩ := List.forall_mem_cons.mp parts
    obtain ⟨ls', hls', hkeep⟩ := ih hparts
    have hcut : c :: rest ++ after = l.chars ++ (later ++ after) := by rw [cut, List.append_assoc]
    have hagain (hends : ¬ RunsOn l (later ++ after)) :
        ∃ ls', Lexes (c :: rest ++ after) ls' ∧ (HasComment (l :: ls) → HasComment ls') := by
      refine ⟨l :: ls', hcut ▸ lexes_again scanned hends hls', ?_⟩
      rintro ⟨m, hm, hkind⟩
      rcases List.mem_cons.mp hm with rfl | hm
      · exact ⟨m, List.mem_cons_self, hkind⟩
      · obtain ⟨n, hn, hnkind⟩ := hkeep ⟨m, hm, hkind⟩
        exact ⟨n, List.mem_cons_of_mem _ hn, hnkind⟩
    generalize hkind : l.kind = kind at hpart
    cases hpart with
    | blank =>
      obtain ⟨ls'', hls'', hkeep'⟩ :=
        lexes_behind (fun d hd => .inl (allBlank_of_scan scanned hkind d hd)) hls'
      refine ⟨ls'', hcut ▸ hls'', ?_⟩
      rintro ⟨m, hm, hcomment⟩
      rcases List.mem_cons.mp hm with rfl | hm
      · rw [hkind] at hcomment
        cases hcomment
      · exact hkeep' (hkeep ⟨m, hm, hcomment⟩)
    | literal =>
      refine hagain fun hon => ?_
      exact not_runsOn_literal hafter hkind (runsOn_last scanned cut (by rw [hkind]; nofun) hon).2
    | comment hcomment =>
      by_cases hon : RunsOn l (later ++ after)
      · obtain ⟨rfl, hon⟩ := runsOn_last scanned cut (by rw [hkind]; rintro rfl; cases hcomment) hon
        cases hcomment with
        | line =>
          obtain ⟨ls'', hls'', hcomment⟩ := lexes_lineComment hafter scanned cut hkind
          exact ⟨ls'', hls'', fun _ => hcomment⟩
        | block =>
          -- a closed comment goes on with nothing
          obtain ⟨lkind, chars⟩ := l
          obtain rfl : lkind = .blockComment := hkind
          exact hon.elim
      · exact hagain hon

end Ends

/-! ## Parentheses around a default -/

/-- What is translated is balanced, or there are comments in it and in every text around it. -/
theorem balanced_or_commented {inner : List Char} {valueType : Option ColumnType} {text : String}
    (h : expression? inner valueType = some text) :
    Balanced inner ∨
      ∀ definition : String, Around inner definition.toList → Commented definition := by
  rcases expression?_cases h with hnull | hnumber | hliteral | hcall
  · exact .inl (balanced_of_null hnull)
  · exact .inl (balanced_of_number hnumber)
  · obtain ⟨ls, hls, hparts⟩ := lexes_of_stringLiteral? hliteral
    rw [String.toList_ofList] at hls
    by_cases hcomment : HasComment ls
    · refine .inr fun definition haround => ?_
      obtain ⟨before, after, hcs, hbefore, hafter⟩ := haround.exists_ends
      obtain ⟨ls', hls', hkeep⟩ := lexes_literal_inFront hafter hls hparts
      obtain ⟨ls'', hls'', hkeep'⟩ := lexes_behind hbefore hls'
      rw [← List.append_assoc, ← hcs] at hls''
      exact commented_of_lexes hls'' (hkeep' (hkeep hcomment))
    · exact .inl (balanced_of_lexes hls hparts hcomment)
  · exact .inl (balanced_of_call hcall)

theorem expression?_stripped_parenthesized {cs : List Char} {valueType : Option ColumnType}
    {text : String} (h : expression? (stripped ('(' :: cs ++ [')'])) valueType = some text) :
    expression? (stripped (Text.trimmed cs)) valueType = some text := by
  by_cases hwrapped : closesAtEnd 1 false (cs ++ [')']) = true
  · rwa [stripped_of_wrapped hwrapped] at h
  · have hbare : ¬ isWrapped ('(' :: cs ++ [')']) = true := by rwa [isWrapped_parenthesized]
    rw [stripped, dif_neg hbare, List.cons_append, expression?_parenthesis] at h
    cases h

/-- What is translated with parentheses around it is translated without them. -/
theorem expression?_of_around {inner cs : List Char} (h : Around inner cs)
    {valueType : Option ColumnType} {text : String}
    (translated : expression? (stripped (Text.trimmed cs)) valueType = some text) :
    expression? (stripped (Text.trimmed inner)) valueType = some text := by
  induction h with
  | bare => exact translated
  | blanks _ blank blank' ih =>
    rw [Text.trimmed_between blank blank'] at translated
    exact ih translated
  | parentheses _ ih =>
    rw [Text.trimmed_parenthesized] at translated
    exact ih (expression?_stripped_parenthesized translated)

section Wrapped

variable {definition wrapped : String} (around : Around definition.toList wrapped.toList)
  {valueType : Option ColumnType} {text : String}
include around

theorem targetDefault_of_wrapped (h : targetDefault wrapped valueType = .ok text) :
    targetDefault definition valueType = .ok text :=
  targetDefault_ok_iff.mpr (expression?_of_around around (targetDefault_ok_iff.mp h))

theorem targetDefault_wrapped (comment : ¬ Commented definition)
    (h : targetDefault definition valueType = .ok text) :
    targetDefault wrapped valueType = .ok text := by
  have hinner := targetDefault_ok_iff.mp h
  have hbalanced : Balanced definition.toList := by
    rcases balanced_or_commented hinner with hbalanced | hcommented
    · exact (around_innerOf definition).balanced hbalanced
    · exact absurd (hcommented definition (around_innerOf definition)) comment
  rw [targetDefault_ok_iff, innerOf, stripped_around around hbalanced]
  exact hinner

end Wrapped

def inParentheses (before inside inside' after definition : String) : String :=
  before ++ "(" ++ inside ++ definition ++ inside' ++ ")" ++ after

theorem around_inParentheses {before inside inside' after : String}
    (blank : ∀ s ∈ [before, inside, inside', after], AllBlank s.toList) (definition : String) :
    Around definition.toList (inParentheses before inside inside' after definition).toList := by
  simp only [List.forall_mem_cons] at blank
  obtain ⟨hbefore, hinside, hinside', hafter, -⟩ := blank
  have haround : Around definition.toList _ :=
    ((Around.bare.blanks hinside hinside').parentheses).blanks hbefore hafter
  simpa [inParentheses] using haround

/-- Parentheses around a default do not matter, whatever blanks are around and within them: what is
translated with them is translated without them, to the same, and where the default has no comments
what is translated without them is translated with them too. -/
theorem parentheses_irrelevant (definition : String) (valueType : Option ColumnType)
    {before inside inside' after : String}
    (blank : ∀ s ∈ [before, inside, inside', after], AllBlank s.toList) (text : String) :
    (targetDefault (inParentheses before inside inside' after definition) valueType = .ok text →
      targetDefault definition valueType = .ok text) ∧
    (¬ Commented definition →
      (targetDefault (inParentheses before inside inside' after definition) valueType = .ok text ↔
        targetDefault definition valueType = .ok text)) := by
  have haround := around_inParentheses blank definition
  refine ⟨targetDefault_of_wrapped haround, fun comment => ?_⟩
  exact ⟨targetDefault_of_wrapped haround, targetDefault_wrapped haround comment⟩

/-- Parentheses and quotes within a literal keep nothing from coming off around it. -/
theorem parenthesized_literal_translated :
    ¬ Commented "( N'it''s (x' )" ∧
    targetDefault (inParentheses "\n" " " "" "\t" "( N'it''s (x' )") none = .ok "'it''s (x'" := by
  have hinner : innerOf "( N'it''s (x' )" = "N'it''s (x'".toList := by
    rw [innerOf, stripped, dif_pos (by rfl), stripped, dif_neg (by decide)]
    rfl
  have htranslated : targetDefault "( N'it''s (x' )" none = .ok "'it''s (x'" :=
    targetDefault_ok_iff.mpr (by rw [hinner]; rfl)
  have hcomment : ¬ Commented "( N'it''s (x' )" := by
    have htokens : tokenize "( N'it''s (x' )" = .ok
        [⟨.symbol, "(", 0⟩, ⟨.whitespace, " ", 1⟩, ⟨.stringLiteral, "N'it''s (x'", 2⟩,
          ⟨.whitespace, " ", 13⟩, ⟨.symbol, ")", 14⟩] := rfl
    rintro ⟨ts, hread, t, ht, hkind⟩
    obtain rfl := Except.ok.inj (htokens.symm.trans hread)
    simp only [List.mem_cons, List.not_mem_nil, or_false] at ht
    rcases ht with rfl | rfl | rfl | rfl | rfl
    all_goals cases hkind
  exact ⟨hcomment, ((parentheses_irrelevant _ none (by decide) _).2 hcomment).mpr htranslated⟩

end Default

end Migration
