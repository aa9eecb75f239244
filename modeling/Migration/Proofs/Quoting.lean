import Migration.Identifier
import Migration.Token.Lexer

/-
  Where a quoted text ends.

  `enclosed` writes every closing mark twice, and `closeAt` reads up to the first mark
  that is not followed by another. What is proved: what was read ends at the same
  place in front of any text that does not go on with the mark (`closeAt_append`), in
  front of a mark it goes on (`closeAt_append_mark`), and what `enclosed` writes is
  read to its end (`closeAt_doubled`). So a qualified name has one reading, whatever
  comes behind it (`qualifyPg_inj`).
-/

namespace Migration

theorem Outcome.bind_ok {α β : Type} {first : Outcome α} {next : α → Outcome β} {b : β}
    (h : (first >>= next) = .ok b) : ∃ a, first = .ok a ∧ next a = .ok b := by
  cases first with
  | error e => cases h
  | ok a => exact ⟨a, rfl, h⟩

/-- Where a step can yield one value only, the step for each item yields the list of these. -/
theorem Outcome.each_ok {α β : Type} {step : α → Outcome β} {f : α → β}
    (hstep : ∀ {a b}, step a = .ok b → b = f a) {items : List α} {bs : List β}
    (h : Outcome.each step items = .ok bs) : bs = items.map f := by
  induction items generalizing bs with
  | nil =>
    cases h
    rfl
  | cons a rest ih =>
    obtain ⟨b, hb, h⟩ := Outcome.bind_ok h
    obtain ⟨later, hlater, h⟩ := Outcome.bind_ok h
    cases h
    rw [List.map_cons, ← hstep hb, ← ih hlater]

variable {mark : Char}

theorem closeAt_cons_of_ne {c : Char} (h : c ≠ mark) (rest : List Char) :
    closeAt mark (c :: rest) = (closeAt mark rest).map (c :: ·) := by
  cases rest with
  | nil => simp [closeAt, h]
  | cons d rest => rw [closeAt, if_neg h]

theorem closeAt_pair (rest : List Char) :
    closeAt mark (mark :: mark :: rest) = (closeAt mark rest).map (mark :: mark :: ·) := by
  rw [closeAt, if_pos rfl, if_pos rfl]

theorem closeAt_single {rest : List Char} (h : rest.head? ≠ some mark) :
    closeAt mark (mark :: rest) = some [mark] := by
  cases rest with
  | nil => simp [closeAt]
  | cons d rest =>
    have hd : d ≠ mark := by simpa using h
    rw [closeAt, if_pos rfl, if_neg hd]

/-- A text that is read to its closing mark is a mark behind pairs of marks and other characters. -/
inductive Closed (mark : Char) : List Char → Prop where
  | last : Closed mark [mark]
  | pair {chars : List Char} (later : Closed mark chars) : Closed mark (mark :: mark :: chars)
  | other {c : Char} {chars : List Char} (ne : c ≠ mark) (later : Closed mark chars) :
      Closed mark (c :: chars)

theorem closed_of_closeAt {cs taken : List Char} (h : closeAt mark cs = some taken) :
    Closed mark taken := by
  induction cs using closeAt.induct mark generalizing taken with
  | case1 => cases h
  | case2 =>
    rw [closeAt_single (by simp)] at h
    cases h
    exact .last
  | case3 c hc =>
    rw [closeAt, if_neg hc] at h
    cases h
  | case4 rest ih =>
    rw [closeAt_pair, Option.map_eq_some_iff] at h
    obtain ⟨inner, hinner, rfl⟩ := h
    exact .pair (ih hinner)
  | case5 d rest hd =>
    rw [closeAt_single (by simpa using hd)] at h
    cases h
    exact .last
  | case6 c d rest hc ih =>
    rw [closeAt_cons_of_ne hc, Option.map_eq_some_iff] at h
    obtain ⟨inner, hinner, rfl⟩ := h
    exact .other hc (ih hinner)

theorem Closed.closeAt_append {taken rest : List Char} (h : Closed mark taken)
    (hrest : rest.head? ≠ some mark) : closeAt mark (taken ++ rest) = some taken := by
  induction h with
  | last => exact closeAt_single hrest
  | pair later ih => rw [List.cons_append, List.cons_append, closeAt_pair, ih]; rfl
  | other ne later ih => rw [List.cons_append, closeAt_cons_of_ne ne, ih]; rfl

/-- In front of one more mark the closing mark is the first of a pair. -/
theorem Closed.closeAt_append_mark {taken : List Char} (h : Closed mark taken)
    (rest : List Char) :
    closeAt mark (taken ++ mark :: rest) = (closeAt mark rest).map (taken ++ mark :: ·) := by
  induction h with
  | last => exact closeAt_pair rest
  | pair later ih =>
    rw [List.cons_append, List.cons_append, closeAt_pair, ih, Option.map_map]
    rfl
  | other ne later ih =>
    rw [List.cons_append, closeAt_cons_of_ne ne, ih, Option.map_map]
    rfl

theorem closed_doubled (mark : Char) (cs : List Char) :
    Closed mark (doubled mark cs ++ [mark]) := by
  induction cs with
  | nil => exact .last
  | cons c cs ih =>
    rw [doubled]
    by_cases hc : c = mark
    · rw [if_pos hc]
      exact .pair ih
    · rw [if_neg hc]
      exact .other hc ih

theorem closeAt_append {cs taken rest : List Char} (h : closeAt mark cs = some taken)
    (hrest : rest.head? ≠ some mark) : closeAt mark (taken ++ rest) = some taken :=
  (closed_of_closeAt h).closeAt_append hrest

theorem closeAt_append_mark_ne {cs taken rest : List Char} (h : closeAt mark cs = some taken) :
    closeAt mark (taken ++ mark :: rest) ≠ some taken := by
  rw [(closed_of_closeAt h).closeAt_append_mark]
  intro heq
  obtain ⟨more, -, hmore⟩ := Option.map_eq_some_iff.mp heq
  have hlength := congrArg List.length hmore
  simp at hlength

theorem head?_ne_of_closeAt {taken rest : List Char}
    (h : closeAt mark (taken ++ rest) = some taken) : rest.head? ≠ some mark := by
  intro hhead
  obtain ⟨later, rfl⟩ := List.head?_eq_some_iff.mp hhead
  exact closeAt_append_mark_ne h h

theorem closeAt_doubled (cs : List Char) {rest : List Char} (h : rest.head? ≠ some mark) :
    closeAt mark (doubled mark cs ++ mark :: rest) = some (doubled mark cs ++ [mark]) := by
  have hread := (closed_doubled mark cs).closeAt_append h
  simpa using hread

/-! ## Quoted and qualified names -/

theorem toList_enclosed (opening closing : Char) (name : String) :
    (enclosed opening closing name).toList =
      opening :: (doubled closing name.toList ++ [closing]) := by
  rw [enclosed, String.toList_ofList]

theorem quotePg_ok {name text : String} (h : quotePg name = .ok text) :
    text = enclosed '"' '"' name := by
  obtain ⟨-, -, h⟩ := Outcome.bind_ok h
  cases h
  rfl

theorem qualifyPg_ok {schema name text : String} (h : qualifyPg schema name = .ok text) :
    text = enclosed '"' '"' schema ++ "." ++ enclosed '"' '"' name := by
  obtain ⟨s, hschema, h⟩ := Outcome.bind_ok h
  obtain ⟨t, hname, h⟩ := Outcome.bind_ok h
  cases h
  rw [quotePg_ok hschema, quotePg_ok hname]

/-- A quoted name and the text behind it are read in one way only. -/
theorem enclosed_append_inj {opening : Char} {name name' : String} {rest rest' : List Char}
    (hrest : rest.head? ≠ some mark) (hrest' : rest'.head? ≠ some mark)
    (h : (enclosed opening mark name).toList ++ rest =
      (enclosed opening mark name').toList ++ rest') :
    name = name' ∧ rest = rest' := by
  rw [toList_enclosed, toList_enclosed, List.cons_append, List.cons_append, List.cons.injEq,
    List.append_assoc, List.append_assoc] at h
  have hread := closeAt_doubled name.toList hrest
  have hread' := closeAt_doubled name'.toList hrest'
  have hsame :
      doubled mark name.toList ++ mark :: rest = doubled mark name'.toList ++ mark :: rest' :=
    h.2
  rw [hsame, hread'] at hread
  have hdoubled : doubled mark name'.toList = doubled mark name.toList :=
    List.append_cancel_right (Option.some.inj hread)
  have hname := congrArg (halved mark) hdoubled
  rw [halved_doubled, halved_doubled] at hname
  rw [hdoubled] at hsame
  exact ⟨String.toList_inj.mp hname.symm, (List.cons.inj (List.append_cancel_left hsame)).2⟩

theorem qualified_append_inj {opening : Char} {schema schema' name name' : String}
    {rest rest' : List Char} (hmark : mark ≠ '.') (hrest : rest.head? ≠ some mark)
    (hrest' : rest'.head? ≠ some mark)
    (h : (enclosed opening mark schema ++ "." ++ enclosed opening mark name).toList ++ rest =
      (enclosed opening mark schema' ++ "." ++ enclosed opening mark name').toList ++ rest') :
    schema = schema' ∧ name = name' := by
  simp only [String.toList_append, List.append_assoc] at h
  have hpoint (more : List Char) : (".".toList ++ more).head? ≠ some mark := by
    simpa using hmark.symm
  obtain ⟨hschema, hlater⟩ := enclosed_append_inj (hpoint _) (hpoint _) h
  obtain ⟨hname, -⟩ := enclosed_append_inj hrest hrest' (List.append_cancel_left hlater)
  exact ⟨hschema, hname⟩

/-- A qualified name is read in one way only, whatever comes behind it but one more quote. -/
theorem qualifyPg_inj {schema schema' name name' text text' : String} {rest rest' : List Char}
    (h : qualifyPg schema name = .ok text) (h' : qualifyPg schema' name' = .ok text')
    (hrest : rest.head? ≠ some '"') (hrest' : rest'.head? ≠ some '"')
    (hsame : text.toList ++ rest = text'.toList ++ rest') : schema = schema' ∧ name = name' := by
  rw [qualifyPg_ok h, qualifyPg_ok h'] at hsame
  exact qualified_append_inj (by decide) hrest hrest' hsame

theorem quoteMssql_ok {name text : String} (h : quoteMssql name = .ok text) :
    text = enclosed '[' ']' name := by
  obtain ⟨-, -, h⟩ := Outcome.bind_ok h
  cases h
  rfl

theorem qualifyMssql_ok {schema name text : String} (h : qualifyMssql schema name = .ok text) :
    text = enclosed '[' ']' schema ++ "." ++ enclosed '[' ']' name := by
  obtain ⟨s, hschema, h⟩ := Outcome.bind_ok h
  obtain ⟨t, hname, h⟩ := Outcome.bind_ok h
  cases h
  rw [quoteMssql_ok hschema, quoteMssql_ok hname]

theorem qualifyMssql_inj {schema schema' name name' text text' : String} {rest rest' : List Char}
    (h : qualifyMssql schema name = .ok text) (h' : qualifyMssql schema' name' = .ok text')
    (hrest : rest.head? ≠ some ']') (hrest' : rest'.head? ≠ some ']')
    (hsame : text.toList ++ rest = text'.toList ++ rest') : schema = schema' ∧ name = name' := by
  rw [qualifyMssql_ok h, qualifyMssql_ok h'] at hsame
  exact qualified_append_inj (by decide) hrest hrest' hsame

end Migration
