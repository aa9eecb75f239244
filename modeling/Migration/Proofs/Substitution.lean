import Migration.Proofs.Lexing
import Migration.Proofs.TargetName

/-
  Substitution, token by token.

  `substituteNames` lists replacements by byte ranges, leaves out the tokens that do
  not change, and splices the list into the text. This file

  1. says for one token what its new text is, given the tokens before it (`NewText`),
     and why it has none (`NoNewText`);
  2. proves that a list of replacements exists exactly where every token has a new
     text, and that the first token without one gives the error
     (`planned_of_replacementsAfter`, `replacementsAfter_error_iff`);
  3. proves that a splice of such a list is the new texts one after another
     (`spliceFrom_planned`), by the invariant that the cursor and the text passed over
     since then end where the next token starts;
  4. composes these (`substituteNames_tokenwise`). -/

namespace Migration

open Naming (Ledger)

/-! ## The new text of one token -/

/-- The last token that carries meaning. -/
def lastMeaning (tokens : List Token) : Option Token :=
  (tokens.filter fun t => !t.isTrivia).getLast?

@[simp] theorem lastMeaning_nil : lastMeaning [] = none := rfl

theorem lastMeaning_concat (before : List Token) (t : Token) :
    lastMeaning (before ++ [t]) = if t.isTrivia then lastMeaning before else some t := by
  cases h : t.isTrivia with
  | true => simp [lastMeaning, List.filter_append, h]
  | false => simp [lastMeaning, List.filter_append, h]

/-- The last token that carries meaning is the keyword AS. -/
def FollowsAs (before : List Token) : Prop :=
  ∃ p, lastMeaning before = some p ∧ p.isKeyword "as" = true

theorem followsAs_iff {before : List Token} :
    FollowsAs before ↔ (lastMeaning before).any (·.isKeyword "as") = true := by
  rw [Option.any_eq_true]
  rfl

/-- What stands for a token that comes after `before`. -/
inductive NewText (ledger : Ledger) (reserved : List String) (before : List Token) (t : Token) :
    String → Prop where
  /-- A name takes its target name, written bare where possible. -/
  | name {name text : String} (identifier : t.isIdentifier = true)
      (found : NameFor ledger reserved t.identifierName name) (written : renderPg name = .ok text) :
      NewText ledger reserved before t text
  /-- A literal after the keyword AS is a column name. -/
  | aliased {text : String} (literal : t.kind = .stringLiteral) (column : FollowsAs before)
      (written : quotePg t.stringValue = .ok text) : NewText ledger reserved before t text
  /-- Every other token stays. -/
  | kept (notName : t.isIdentifier = false)
      (notAlias : ¬ (t.kind = .stringLiteral ∧ FollowsAs before)) :
      NewText ledger reserved before t t.text

/-- Why nothing can stand for a token that comes after `before`. -/
inductive NoNewText (ledger : Ledger) (reserved : List String) (before : List Token) (t : Token) :
    MigrationError → Prop where
  | unnamed {e : MigrationError} (identifier : t.isIdentifier = true)
      (missing : NoNameFor ledger reserved t.identifierName e) :
      NoNewText ledger reserved before t e
  | unwritable {name : String} {e : MigrationError} (identifier : t.isIdentifier = true)
      (found : NameFor ledger reserved t.identifierName name) (refused : renderPg name = .error e) :
      NoNewText ledger reserved before t e
  | badAlias {e : MigrationError} (literal : t.kind = .stringLiteral) (column : FollowsAs before)
      (refused : quotePg t.stringValue = .error e) : NoNewText ledger reserved before t e

variable {ledger : Ledger} {reserved : List String} {before : List Token} {t : Token}

theorem not_isIdentifier_of_literal (h : t.kind = .stringLiteral) : t.isIdentifier = false := by
  rw [Token.isIdentifier, h]

theorem replacementText_name (h : t.isIdentifier = true) (previous : Option Token) :
    replacementText ledger reserved previous t = (do
      let text ← renderPg (← targetName ledger reserved t.identifierName)
      return if text = t.text then none else some text) := by
  rw [replacementText, if_pos h]

theorem replacementText_alias (h : t.kind = .stringLiteral) (column : FollowsAs before) :
    replacementText ledger reserved (lastMeaning before) t =
      (quotePg t.stringValue).map some := by
  have hname : ¬ t.isIdentifier = true := by simp [not_isIdentifier_of_literal h]
  rw [replacementText, if_neg hname, if_pos ⟨h, followsAs_iff.mp column⟩]
  cases quotePg t.stringValue <;> rfl

theorem replacementText_kept (h : t.isIdentifier = false)
    (notAlias : ¬ (t.kind = .stringLiteral ∧ FollowsAs before)) :
    replacementText ledger reserved (lastMeaning before) t = .ok none := by
  rw [followsAs_iff] at notAlias
  rw [replacementText, if_neg (by simp [h]), if_neg notAlias]
  rfl

theorem replacementText_of_newText {text : String} (h : NewText ledger reserved before t text) :
    ∃ r, replacementText ledger reserved (lastMeaning before) t = .ok r ∧
      text = r.getD t.text := by
  cases h with
  | name identifier found written =>
    rw [replacementText_name identifier, targetName_of_nameFor found]
    simp only [bind, Except.bind, written]
    by_cases hsame : text = t.text
    · exact ⟨none, by rw [if_pos hsame]; rfl, hsame⟩
    · exact ⟨some text, by rw [if_neg hsame]; rfl, rfl⟩
  | aliased literal column written =>
    rw [replacementText_alias literal column, written]
    exact ⟨some text, rfl, rfl⟩
  | kept notName notAlias => exact ⟨none, replacementText_kept notName notAlias, rfl⟩

theorem replacementText_of_noNewText {e : MigrationError}
    (h : NoNewText ledger reserved before t e) :
    replacementText ledger reserved (lastMeaning before) t = .error e := by
  cases h with
  | unnamed identifier missing =>
    rw [replacementText_name identifier, targetName_of_noNameFor missing]
    rfl
  | unwritable identifier found refused =>
    rw [replacementText_name identifier, targetName_of_nameFor found]
    simp only [bind, Except.bind, refused]
  | badAlias literal column refused =>
    rw [replacementText_alias literal column, refused]
    rfl

theorem newText_or_noNewText (ledger : Ledger) (reserved : List String) (before : List Token)
    (t : Token) :
    (∃ text, NewText ledger reserved before t text) ∨
      ∃ e, NoNewText ledger reserved before t e := by
  cases hname : t.isIdentifier with
  | true =>
    rcases nameFor_or_noNameFor ledger reserved t.identifierName with ⟨name, hfound⟩ | ⟨e, he⟩
    · cases hwritten : renderPg name with
      | ok text => exact .inl ⟨text, .name hname hfound hwritten⟩
      | error e => exact .inr ⟨e, .unwritable hname hfound hwritten⟩
    · exact .inr ⟨e, .unnamed hname he⟩
  | false =>
    by_cases halias : t.kind = .stringLiteral ∧ FollowsAs before
    · cases hwritten : quotePg t.stringValue with
      | ok text => exact .inl ⟨text, .aliased halias.1 halias.2 hwritten⟩
      | error e => exact .inr ⟨e, .badAlias halias.1 halias.2 hwritten⟩
    · exact .inl ⟨t.text, .kept hname halias⟩

/-! ## All tokens -/

/-- What stands for tokens that come after `before`, one text for each. -/
inductive NewTexts (ledger : Ledger) (reserved : List String) :
    List Token → List Token → List String → Prop where
  | nil {before : List Token} : NewTexts ledger reserved before [] []
  | cons {before ts : List Token} {t : Token} {text : String} {texts : List String}
      (head : NewText ledger reserved before t text)
      (tail : NewTexts ledger reserved (before ++ [t]) ts texts) :
      NewTexts ledger reserved before (t :: ts) (text :: texts)

/-- The replacements put the texts in the place of the tokens; a token without a replacement
stands for itself. -/
inductive Planned : List Token → List String → List Replacement → Prop where
  | nil : Planned [] [] []
  | kept {t : Token} {ts : List Token} {texts : List String} {reps : List Replacement}
      (later : Planned ts texts reps) : Planned (t :: ts) (t.text :: texts) reps
  | replaced {t : Token} {ts : List Token} {text : String} {texts : List String}
      {reps : List Replacement} (later : Planned ts texts reps) :
      Planned (t :: ts) (text :: texts) (⟨t.start, t.stop, text⟩ :: reps)

theorem replacementsAfter_cons_error {e : MigrationError} (ts : List Token)
    (h : replacementText ledger reserved (lastMeaning before) t = .error e) :
    replacementsAfter ledger reserved (lastMeaning before) (t :: ts) = .error e := by
  simp only [replacementsAfter, h, bind, Except.bind]

theorem replacementsAfter_cons {r : Option String} (ts : List Token)
    (h : replacementText ledger reserved (lastMeaning before) t = .ok r) :
    replacementsAfter ledger reserved (lastMeaning before) (t :: ts) =
      (replacementsAfter ledger reserved (lastMeaning (before ++ [t])) ts).map fun later =>
        (r.map (Replacement.mk t.start t.stop)).toList ++ later := by
  rw [lastMeaning_concat]
  simp only [replacementsAfter, h, bind, Except.bind]
  cases replacementsAfter ledger reserved
    (if t.isTrivia = true then lastMeaning before else some t) ts with
  | error e => rfl
  | ok later => cases r <;> rfl

theorem replacementsAfter_of_newTexts {ts : List Token} {texts : List String}
    (h : NewTexts ledger reserved before ts texts) :
    ∃ reps, replacementsAfter ledger reserved (lastMeaning before) ts = .ok reps ∧
      Planned ts texts reps := by
  induction h with
  | nil => exact ⟨[], rfl, .nil⟩
  | cons head tail ih =>
    obtain ⟨reps, hreps, hplanned⟩ := ih
    obtain ⟨r, hr, rfl⟩ := replacementText_of_newText head
    rw [replacementsAfter_cons _ hr, hreps]
    cases r with
    | none => exact ⟨reps, rfl, .kept hplanned⟩
    | some text => exact ⟨_, rfl, .replaced hplanned⟩

/-- Either every token has a new text, or there is a first one that has none. -/
theorem newTexts_or_first_refusal (ledger : Ledger) (reserved : List String)
    (before ts : List Token) :
    (∃ texts, NewTexts ledger reserved before ts texts) ∨
      ∃ earlier t later texts e, ts = earlier ++ t :: later ∧
        NewTexts ledger reserved before earlier texts ∧
        NoNewText ledger reserved (before ++ earlier) t e := by
  induction ts generalizing before with
  | nil => exact .inl ⟨[], .nil⟩
  | cons t ts ih =>
    rcases newText_or_noNewText ledger reserved before t with ⟨text, htext⟩ | ⟨e, he⟩
    · rcases ih (before ++ [t]) with ⟨texts, htexts⟩ | ⟨earlier, u, later, texts, e, rfl, hs, he⟩
      · exact .inl ⟨text :: texts, .cons htext htexts⟩
      · refine .inr ⟨t :: earlier, u, later, text :: texts, e, rfl, .cons htext hs, ?_⟩
        simpa using he
    · exact .inr ⟨[], t, ts, [], e, rfl, .nil, by simpa using he⟩

theorem replacementsAfter_of_refusal {earlier later : List Token} {texts : List String}
    {e : MigrationError} (h : NewTexts ledger reserved before earlier texts)
    (he : NoNewText ledger reserved (before ++ earlier) t e) :
    replacementsAfter ledger reserved (lastMeaning before) (earlier ++ t :: later) = .error e := by
  induction h with
  | nil =>
    exact replacementsAfter_cons_error later (replacementText_of_noNewText (by simpa using he))
  | cons head tail ih =>
    obtain ⟨r, hr, -⟩ := replacementText_of_newText head
    rw [List.cons_append, replacementsAfter_cons _ hr, ih (by simpa using he)]
    rfl

/-- The replacements of a successful plan put a new text in the place of every token. -/
theorem planned_of_replacementsAfter {ts : List Token} {reps : List Replacement}
    (h : replacementsAfter ledger reserved (lastMeaning before) ts = .ok reps) :
    ∃ texts, NewTexts ledger reserved before ts texts ∧ Planned ts texts reps := by
  rcases newTexts_or_first_refusal ledger reserved before ts with
    ⟨texts, htexts⟩ | ⟨earlier, u, later, texts, e, rfl, hs, he⟩
  · obtain ⟨reps', hreps', hplanned⟩ := replacementsAfter_of_newTexts htexts
    rw [h] at hreps'
    cases hreps'
    exact ⟨texts, htexts, hplanned⟩
  · rw [replacementsAfter_of_refusal hs he] at h
    cases h

theorem replacementsAfter_error_iff {ts : List Token} {e : MigrationError} :
    replacementsAfter ledger reserved (lastMeaning before) ts = .error e ↔
      ∃ earlier t later texts, ts = earlier ++ t :: later ∧
        NewTexts ledger reserved before earlier texts ∧
        NoNewText ledger reserved (before ++ earlier) t e := by
  constructor
  · intro h
    rcases newTexts_or_first_refusal ledger reserved before ts with
      ⟨texts, htexts⟩ | ⟨earlier, u, later, texts, e', rfl, hs, he⟩
    · obtain ⟨reps, hreps, -⟩ := replacementsAfter_of_newTexts htexts
      rw [h] at hreps
      cases hreps
    · rw [replacementsAfter_of_refusal hs he] at h
      cases h
      exact ⟨earlier, u, later, texts, rfl, hs, he⟩
  · rintro ⟨earlier, u, later, texts, rfl, hs, he⟩
    exact replacementsAfter_of_refusal hs he

/-! ## Splicing -/

/-- A splice puts the new texts one after another. The text from the cursor on is `kept`, which
ends where the next token starts, and then the tokens. -/
theorem spliceFrom_planned {ts : List Token} {texts : List String} {reps : List Replacement}
    (h : Planned ts texts reps) {cursor offset : Nat} (kept : List Char)
    (tiles : Tiles offset ts) (reaches : cursor + Text.byteLength kept = offset) :
    spliceFrom cursor (kept ++ charsOf ts) reps = kept ++ texts.flatMap String.toList := by
  induction h generalizing cursor offset kept with
  | nil => rfl
  | @kept t ts texts reps later ih =>
    obtain ⟨hstart, -, htiles⟩ := tiles
    have hstop : cursor + Text.byteLength (kept ++ t.text.toList) = t.stop := by
      rw [Text.byteLength_append, Token.stop, hstart, ← reaches, Nat.add_assoc]
    have hih := ih (kept ++ t.text.toList) htiles hstop
    simpa using hih
  | @replaced t ts text texts reps later ih =>
    obtain ⟨hstart, -, htiles⟩ := tiles
    have hkept : t.start - cursor = Text.byteLength kept := by omega
    have htoken : t.stop - t.start = Text.byteLength t.text.toList := by
      rw [Token.stop]
      omega
    -- behind the replacement the cursor stands where the next token starts
    have hih := ih [] htiles (Nat.add_zero t.stop)
    simp only [List.nil_append] at hih
    simp only [spliceFrom, hkept, htoken, charsOf_cons, Text.splitBytes_byteLength, hih,
      List.flatMap_cons, List.append_assoc]

/-- A replacement is for a piece of the text that is not empty and begins and ends between
characters. -/
def Replacement.CutsOut (r : Replacement) (sql : String) : Prop :=
  ∃ earlier piece later, sql.toList = earlier ++ piece ++ later ∧ piece ≠ [] ∧
    r.start = Text.byteLength earlier ∧ r.stop = Text.byteLength (earlier ++ piece)

/-- The replacements are sorted, and none begins before the one in front of it has ended. -/
def InOrder (reps : List Replacement) : Prop := reps.Pairwise fun r s => r.stop ≤ s.start

theorem Planned.start_le {ts : List Token} {texts : List String} {reps : List Replacement}
    (h : Planned ts texts reps) {offset : Nat} (tiles : Tiles offset ts) :
    ∀ r ∈ reps, offset ≤ r.start := by
  induction h generalizing offset with
  | nil => simp
  | @kept t ts texts reps later ih =>
    intro r hr
    have hle := ih tiles.2.2 r hr
    have hstop : t.stop = t.start + Text.byteLength t.text.toList := rfl
    have hstart := tiles.1
    omega
  | @replaced t ts text texts reps later ih =>
    intro r hr
    have hstop : t.stop = t.start + Text.byteLength t.text.toList := rfl
    have hstart := tiles.1
    rcases List.mem_cons.mp hr with rfl | hr
    · exact Nat.le_of_eq hstart.symm
    · have hle := ih tiles.2.2 r hr
      omega

theorem Planned.inOrder {ts : List Token} {texts : List String} {reps : List Replacement}
    (h : Planned ts texts reps) {offset : Nat} (tiles : Tiles offset ts) : InOrder reps := by
  induction h generalizing offset with
  | nil => exact List.Pairwise.nil
  | kept later ih => exact ih tiles.2.2
  | replaced later ih => exact List.pairwise_cons.mpr ⟨later.start_le tiles.2.2, ih tiles.2.2⟩

theorem Planned.cutsOut {sql : String} {ts : List Token} {texts : List String}
    {reps : List Replacement} (h : Planned ts texts reps) (earlier : List Char)
    (tiles : Tiles (Text.byteLength earlier) ts) (whole : sql.toList = earlier ++ charsOf ts) :
    ∀ r ∈ reps, r.CutsOut sql := by
  induction h generalizing earlier with
  | nil => simp
  | @kept t ts texts reps later ih =>
    obtain ⟨hstart, -, htiles⟩ := tiles
    refine ih (earlier ++ t.text.toList) ?_ (by simpa using whole)
    rw [Text.byteLength_append, ← hstart]
    exact htiles
  | @replaced t ts text texts reps later ih =>
    obtain ⟨hstart, hne, htiles⟩ := tiles
    have hstop : t.stop = Text.byteLength (earlier ++ t.text.toList) := by
      rw [Text.byteLength_append, ← hstart, Token.stop]
    intro r hr
    rcases List.mem_cons.mp hr with rfl | hr
    · exact ⟨earlier, t.text.toList, charsOf ts, by simpa using whole, hne, hstart, hstop⟩
    · refine ih (earlier ++ t.text.toList) ?_ (by simpa using whole) r hr
      rw [← hstop]
      exact htiles

/-! ## The text of a module -/

theorem splice_planned {sql : String} {ts : List Token} {texts : List String}
    {reps : List Replacement} (htokens : tokenize sql = .ok ts) (h : Planned ts texts reps) :
    splice sql reps = String.join texts := by
  obtain ⟨htiles, hchars⟩ := tiles_of_tokenize htokens
  have hsplice := spliceFrom_planned h [] htiles rfl
  rw [List.nil_append, List.nil_append, hchars] at hsplice
  rw [splice, hsplice, ← String.toList_join, String.ofList_toList]

theorem substituteNames_of_tokens {sql : String} {ts : List Token}
    (htokens : tokenize sql = .ok ts) :
    substituteNames sql ledger reserved =
      (replacementsAfter ledger reserved (lastMeaning []) ts).map (splice sql) := by
  simp only [substituteNames, htokens, replacementsOf, bind, Except.bind, lastMeaning_nil]
  cases replacementsAfter ledger reserved none ts <;> rfl

theorem substituteNames_refused {sql : String} {e : MigrationError} (h : tokenize sql = .error e) :
    substituteNames sql ledger reserved = .error e := by
  simp only [substituteNames, h, bind, Except.bind]

/-- A substitution succeeds exactly where the text has tokens and each has a new text. -/
theorem substituteNames_ok_iff {sql out : String} :
    substituteNames sql ledger reserved = .ok out ↔
      ∃ tokens texts, tokenize sql = .ok tokens ∧ NewTexts ledger reserved [] tokens texts ∧
        out = String.join texts := by
  constructor
  · intro h
    cases htokens : tokenize sql with
    | error e =>
      rw [substituteNames_refused htokens] at h
      cases h
    | ok tokens =>
      rw [substituteNames_of_tokens htokens] at h
      cases hreps : replacementsAfter ledger reserved (lastMeaning []) tokens with
      | error e =>
        rw [hreps] at h
        cases h
      | ok reps =>
        rw [hreps] at h
        obtain ⟨texts, htexts, hplanned⟩ := planned_of_replacementsAfter hreps
        refine ⟨tokens, texts, rfl, htexts, ?_⟩
        rw [← splice_planned htokens hplanned]
        exact (Except.ok.inj h).symm
  · rintro ⟨tokens, texts, htokens, htexts, rfl⟩
    obtain ⟨reps, hreps, hplanned⟩ := replacementsAfter_of_newTexts htexts
    rw [substituteNames_of_tokens htokens, hreps, ← splice_planned htokens hplanned]
    rfl

/-- A substitution fails where the text has no tokens, and else at the first token that has no
new text. -/
theorem substituteNames_error_iff {sql : String} {e : MigrationError} :
    substituteNames sql ledger reserved = .error e ↔
      tokenize sql = .error e ∨
        ∃ earlier t later texts, tokenize sql = .ok (earlier ++ t :: later) ∧
          NewTexts ledger reserved [] earlier texts ∧ NoNewText ledger reserved earlier t e := by
  cases htokens : tokenize sql with
  | error e' =>
    rw [substituteNames_refused htokens]
    simp
  | ok tokens =>
    have hfails : substituteNames sql ledger reserved = .error e ↔
        replacementsAfter ledger reserved (lastMeaning []) tokens = .error e := by
      rw [substituteNames_of_tokens htokens]
      cases replacementsAfter ledger reserved (lastMeaning []) tokens <;> simp [Except.map]
    rw [hfails, replacementsAfter_error_iff]
    simp

/-- Token by token: what a substitution makes of a text, with which error it fails, and where its
replacements lie. -/
theorem substituteNames_tokenwise (sql : String) (ledger : Ledger) (reserved : List String) :
    (∀ out, substituteNames sql ledger reserved = .ok out ↔
      ∃ tokens texts, tokenize sql = .ok tokens ∧ NewTexts ledger reserved [] tokens texts ∧
        out = String.join texts) ∧
    (∀ e, substituteNames sql ledger reserved = .error e ↔
      tokenize sql = .error e ∨
        ∃ earlier t later texts, tokenize sql = .ok (earlier ++ t :: later) ∧
          NewTexts ledger reserved [] earlier texts ∧ NoNewText ledger reserved earlier t e) ∧
    ∀ tokens reps, tokenize sql = .ok tokens → replacementsOf ledger reserved tokens = .ok reps →
      InOrder reps ∧ ∀ r ∈ reps, r.CutsOut sql := by
  refine ⟨fun out => substituteNames_ok_iff, fun e => substituteNames_error_iff, ?_⟩
  intro tokens reps htokens hreps
  obtain ⟨htiles, hchars⟩ := tiles_of_tokenize htokens
  rw [replacementsOf, ← lastMeaning_nil] at hreps
  obtain ⟨texts, -, hplanned⟩ := planned_of_replacementsAfter hreps
  exact ⟨hplanned.inOrder htiles, hplanned.cutsOut [] htiles hchars.symm⟩

end Migration
