import Migration.Memory.Catalog
import Migration.Memory.Store
import Migration.Proofs.Attempts
import Migration.Proofs.Failures
import Migration.Proofs.TokenBoundaries

/-
  What a reference from one module to another becomes.

  A definition is rewritten with the renamings known at that time: those of the plan,
  and the names of the modules up to the one at hand. A name that is not known takes a
  name that does not depend on the policy (`unrecordedName`). This file

  1. proves that a text is the rendering of one name only (`renderPg_inj`), so that the
     text of a reference tells the name that it was given;
  2. compares the name given with the one that the ledger has at the end
     (`nameFor_final_iff`): no renaming is lost on the way, and all are of one policy;
  3. concludes for whole runs when a reference to a module of the run becomes the name
     of that module (`migrate_references_iff`), and that a reference to a module listed
     later may not (`forward_reference_is_lost`). -/

namespace Migration

open Naming (Ledger Key NamingPolicy canonicalize)

/-! ## Rendered names -/

theorem renderPg_ok {name text : String} (h : renderPg name = .ok text) :
    isBareName name = true ∧ text = name ∨ text = enclosed '"' '"' name := by
  unfold renderPg at h
  split at h
  · rename_i hbare
    obtain ⟨-, -, hname⟩ := Outcome.bind_ok h
    exact .inl ⟨hbare, (Except.ok.inj hname).symm⟩
  · exact .inr (quotePg_ok h)

theorem ne_enclosed_of_isBareName {name other : String} (h : isBareName name = true) :
    name ≠ enclosed '"' '"' other := by
  intro heq
  obtain ⟨c, more, hchars, hc, -⟩ := bareName_cases h
  rw [heq, toList_enclosed, List.cons.injEq] at hchars
  obtain rfl := hchars.1
  rcases hc with hc | hc
  · exact absurd hc (by decide)
  · exact absurd hc (by decide)

theorem renderPg_inj {name name' text : String} (h : renderPg name = .ok text)
    (h' : renderPg name' = .ok text) : name = name' := by
  rcases renderPg_ok h with ⟨hbare, rfl⟩ | rfl
  · rcases renderPg_ok h' with ⟨-, heq⟩ | heq
    · exact heq
    · exact absurd heq (ne_enclosed_of_isBareName hbare)
  · rcases renderPg_ok h' with ⟨hbare, heq⟩ | heq
    · exact absurd heq.symm (ne_enclosed_of_isBareName hbare)
    · have hchars := congrArg (fun s : String => s.toList ++ []) heq
      exact (enclosed_append_inj (by simp) (by simp) hchars).1

/-! ## Names that the ledger does not have -/

/-- The name of a module in place of a name without a renaming: a reserved name that is the same in
any mix of ASCII cases, else the canonical form. The policy has no part in it. -/
def unrecordedName (reserved : List String) (raw : String) : Outcome String :=
  match reserved.find? (Text.sameIgnoringAsciiCase · raw) with
  | some name => .ok name
  | none => (canonicalize raw).map (·.name)

/-- The ledger has a renaming for a name that differs from `raw` at most in case. -/
def Knows (ledger : Ledger) (raw : String) : Prop := ∃ r, RecordedFor ledger raw r

theorem knows_iff {ledger : Ledger} {raw : String} :
    Knows ledger raw ↔
      ∃ key, ledger.Holds key ∧ Text.lowercase key.2.2 = Text.lowercase raw := by
  constructor
  · rintro ⟨r, hr, hsame⟩
    exact ⟨r.key, List.mem_map_of_mem hr, hsame⟩
  · rintro ⟨key, hholds, hsame⟩
    obtain ⟨r, hr, rfl⟩ := List.mem_map.mp hholds
    exact ⟨r, hr, hsame⟩

theorem newName_of_nameFor {ledger : Ledger} {reserved : List String} {raw name : String}
    {r : Naming.Renaming} (hr : RecordedFor ledger raw r) (h : NameFor ledger reserved raw name) :
    r.newName = name := by
  cases h with
  | recorded known agree => exact agree r hr
  | reserved unknown listed first same => exact absurd hr (unknown r)
  | canonical unknown unreserved fits => exact absurd hr (unknown r)

theorem unrecordedName_of_nameFor {ledger : Ledger} {reserved : List String} {raw name : String}
    (hunknown : ¬ Knows ledger raw) (h : NameFor ledger reserved raw name) :
    unrecordedName reserved raw = .ok name := by
  have hnone : recordedName ledger raw = .ok none :=
    recordedName_none_iff.mpr fun r hr => hunknown ⟨r, hr⟩
  have hname := targetName_of_nameFor h
  rw [targetName_unrecorded reserved hnone] at hname
  exact hname

section Final

variable {policy : NamingPolicy} {ledger final : Ledger} {reserved : List String}
variable {raw given name : String}

/-- Let a later ledger have one name for a name. The name given before is that one exactly where
there was a renaming already, or where it is the name given without one. -/
theorem nameFor_final_iff (hledger : ledger.Follows policy) (hfinal : final.Follows policy)
    (hkept : ∀ key, ledger.Holds key → final.Holds key)
    (hagree : ∀ s, RecordedFor final raw s → s.newName = name)
    (h : NameFor ledger reserved raw given) :
    given = name ↔ Knows ledger raw ∨ unrecordedName reserved raw = .ok name := by
  by_cases hknown : Knows ledger raw
  · refine iff_of_true ?_ (.inl hknown)
    obtain ⟨r, hr, hsame⟩ := hknown
    have hgiven : r.newName = given := newName_of_nameFor ⟨hr, hsame⟩ h
    -- the later ledger has a renaming of the same key, which is of the same policy
    obtain ⟨s, hs, -, hkey⟩ := Ledger.find?_of_holds (hkept r.key (List.mem_map_of_mem hr))
    have hold : s.oldName = r.oldName := congrArg (fun key : Key => key.2.2) hkey
    have hnames : policy.Names r.key s.newName := hkey ▸ (hfinal s hs).names
    rw [← hgiven, ← hagree s ⟨hs, by rw [hold, hsame]⟩]
    exact (hledger r hr).names.unique hnames
  · rw [unrecordedName_of_nameFor hknown h, or_iff_right hknown, Except.ok.injEq]

end Final

/-! ## References -/

theorem NewTexts.getElem? {ledger : Ledger} {reserved : List String} {before tokens : List Token}
    {texts : List String} (h : NewTexts ledger reserved before tokens texts) {i : Nat} {t : Token}
    (ht : tokens[i]? = some t) :
    ∃ earlier text, texts[i]? = some text ∧ NewText ledger reserved earlier t text := by
  induction h generalizing i with
  | nil => cases ht
  | @cons before ts t' text texts head tail ih =>
    cases i with
    | zero =>
      cases ht
      exact ⟨before, text, rfl, head⟩
    | succ i => exact ih ht

theorem NewTexts.newText_at {ledger : Ledger} {reserved : List String} {before tokens : List Token}
    {texts : List String} (h : NewTexts ledger reserved before tokens texts) {i : Nat} {t : Token}
    {text : String} (ht : tokens[i]? = some t) (htext : texts[i]? = some text) :
    ∃ earlier, NewText ledger reserved earlier t text := by
  obtain ⟨earlier, text', htext', hnew⟩ := h.getElem? ht
  obtain rfl := Option.some.inj (htext.symm.trans htext')
  exact ⟨earlier, hnew⟩

theorem NewText.of_identifier {ledger : Ledger} {reserved : List String} {before : List Token}
    {t : Token} {text : String} (h : NewText ledger reserved before t text)
    (hname : t.isIdentifier = true) :
    ∃ given, NameFor ledger reserved t.identifierName given ∧ renderPg given = .ok text := by
  cases h with
  | @name given text identifier found written => exact ⟨given, found, written⟩
  | aliased literal column written =>
    rw [not_isIdentifier_of_literal literal] at hname
    cases hname
  | kept notName notAlias =>
    rw [notName] at hname
    cases hname

/-- One of the modules has the name, in some mix of cases, and the policy has a name for it. -/
def AmongModules (m : RunSettings) (attempts : List Plan.Attempt) (raw : String) : Prop :=
  ∃ a ∈ attempts, Text.lowercase a.module.name = Text.lowercase raw ∧
    ∃ name, m.policy.Names a.module.key name

/-- The token is the name of a module of the run, in some mix of cases. The ledger at the end has
this name for the module, and no other for the token. -/
structure RefersTo (attempts : Plan.Attempts) (t : Token) (name : String) : Prop where
  identifier : t.isIdentifier = true
  listed : ∃ y ∈ attempts.list, Text.lowercase y.module.name = Text.lowercase t.identifierName ∧
    attempts.ledger.Says y.module.key name
  agree : ∀ s, RecordedFor attempts.ledger t.identifierName s → s.newName = name

namespace Plan

variable {m : RunSettings} {reserved : List String} {l last : Ledger}

theorem Attempted.knows_iff {attempts : List Attempt} (h : Attempted m reserved l attempts last)
    (hl : l.Follows m.policy) (raw : String) :
    Knows last raw ↔ Knows l raw ∨ AmongModules m attempts raw := by
  simp only [Migration.knows_iff, (h.holds hl).2]
  constructor
  · rintro ⟨key, hkey | ⟨a, ha, rfl, hname⟩, hsame⟩
    · exact .inl ⟨key, hkey, hsame⟩
    · exact .inr ⟨a, ha, hsame, hname⟩
  · rintro (⟨key, hkey, hsame⟩ | ⟨a, ha, hsame, hname⟩)
    · exact ⟨key, .inl hkey, hsame⟩
    · exact ⟨a.module.key, .inr ⟨a, ha, rfl, hname⟩, hsame⟩

/-- A module without an error is made by its definition, rewritten with the ledger that has its
name. -/
theorem ModuleDrafted.written {x : Module} {d : Drafted Unit} (h : ModuleDrafted m reserved x l d)
    (hd : d.outcome = .ok ()) :
    ∃ text, d.steps.getLast? = some (.execute text) ∧
      substituteNames x.definition d.ledger reserved = .ok text := by
  cases h with
  | unnamed refused => cases hd
  | unwritable named refused => cases hd
  | unreadable named refused => cases hd
  | @rewritten l' before text named written => exact ⟨text, by simp, written⟩

/-- How an attempt among others is rewritten, and what its references become. -/
theorem Attempted.references {before after : List Attempt} {a : Attempt} {attempts : Attempts}
    (hlist : attempts.list = before ++ a :: after)
    (h : Attempted m reserved l attempts.list attempts.ledger) (hl : l.Follows m.policy)
    (ha : a.outcome = .ok ()) :
    ∃ tokens texts, tokenize a.module.definition = .ok tokens ∧ texts.length = tokens.length ∧
      a.steps.getLast? = some (.execute (String.join texts)) ∧
      ∀ (i : Nat) (t : Token) (name : String), tokens[i]? = some t → RefersTo attempts t name →
        ((∃ text, texts[i]? = some text ∧ renderPg name = .ok text) ↔
          Knows l t.identifierName ∨ AmongModules m (before ++ [a]) t.identifierName ∨
            unrecordedName reserved t.identifierName = .ok name) := by
  rw [hlist] at h
  obtain ⟨mid, hbefore, hrest⟩ := h.split
  cases hrest with
  | @cons _ ledger _ _ _ targetSchema head tail =>
    -- `ledger` is the one with which the module is rewritten
    have hupTo : Attempted m reserved l (before ++ [a]) ledger :=
      hbefore.append (.cons targetSchema head .nil)
    have hfollows := (hupTo.holds hl).1
    have hcases := moduleDraft_cases targetSchema reserved a.module (hbefore.holds hl).1
    rw [head] at hcases
    obtain ⟨out, hlast, hout⟩ := hcases.written ha
    obtain ⟨tokens, texts, htokens, htexts, rfl⟩ := substituteNames_ok_iff.mp hout
    refine ⟨tokens, texts, htokens, length_newTexts htexts, hlast, ?_⟩
    intro i t name ht hrefers
    obtain ⟨earlier, text, htext, hnew⟩ := htexts.getElem? ht
    obtain ⟨given, hgiven, hrendered⟩ := hnew.of_identifier hrefers.identifier
    have hfinal := (tail.holds hfollows).1
    have hkept : ∀ key, ledger.Holds key → attempts.ledger.Holds key :=
      fun key hkey => ((tail.holds hfollows).2 key).mpr (.inl hkey)
    have hiff := nameFor_final_iff hfollows hfinal hkept hrefers.agree hgiven
    rw [hupTo.knows_iff hl, or_assoc] at hiff
    rw [← hiff]
    constructor
    · rintro ⟨text', htext', hname⟩
      rw [htext] at htext'
      cases htext'
      exact renderPg_inj hrendered hname
    · rintro rfl
      exact ⟨text, htext, hrendered⟩

end Plan

/-! ## Whole runs -/

/-- What becomes of the modules of a run and of the references in them. -/
structure ReferencesDecided {σ : Type} (m : RunSettings) (source : Source) (run : Run σ)
    (report : Report) (schemas : List Plan.PlannedSchema) (attempts : Plan.Attempts) : Prop where
  planned : (Plan.ofSource m source).outcome = .ok (schemas, attempts)
  renamings : report.renamings = attempts.ledger.toList
  /-- A module is passed over, or all its operations are sent. -/
  made : ∀ a ∈ attempts.list, Run.PassedOver report.skippedModules a ∨
    a.outcome = .ok () ∧ operations a.steps ⊆ run.sent.toList
  /-- A reference to a module becomes the name of the module exactly where that name was known from
  the tables or from the modules so far, or is the name given without a renaming. -/
  references : ∀ before a after, attempts.list = before ++ a :: after → a.outcome = .ok () →
    ∃ tokens texts, tokenize a.module.definition = .ok tokens ∧ texts.length = tokens.length ∧
      a.steps.getLast? = some (.execute (String.join texts)) ∧
      ∀ (i : Nat) (t : Token) (name : String), tokens[i]? = some t → RefersTo attempts t name →
        ((∃ text, texts[i]? = some text ∧ renderPg name = .ok text) ↔
          Knows (Plan.schemasDraft m source .empty).ledger t.identifierName ∨
            AmongModules m (before ++ [a]) t.identifierName ∨
            unrecordedName (schemas.map (·.target)) t.identifierName = .ok name)

/-- In a migration that succeeds, every module is made or passed over. A name in a definition that
refers to a module of the run becomes the target name of that module exactly where a renaming of the
name is known by then, from the tables or from the modules up to this one, or where the name given
without a renaming is the same. -/
theorem migrate_references_iff {σ : Type} {m : RunSettings} {source : Source} {target : Target σ}
    {pace : Pace} {start : DateTime} {initial : σ} {run : Run σ} {report : Report}
    (h : migrate m source target pace start initial = (run, .ok report)) :
    ∃ schemas attempts, ReferencesDecided m source run report schemas attempts := by
  obtain ⟨mid, schemas, attempts, skipped, -, houtcome, htried, -, rfl⟩ := Run.follow_report h
  obtain ⟨steps, planned, hdrafted, -, hattempts⟩ := Plan.ofSource_ok houtcome
  have hchain : Plan.Attempted m (schemas.map (·.target)) planned attempts.list attempts.ledger :=
    hattempts ▸ Plan.attemptAll_attempted _ _
  have hfollows := Plan.follows_of_schemasDraft m source
  refine ⟨schemas, attempts, houtcome, rfl, Run.tryAll_ok htried, ?_⟩
  intro before a after hlist ha
  rw [hdrafted] at hfollows ⊢
  exact hchain.references hlist hfollows ha

/-- A view, and one that reads it. -/
def totalsView : Module := ⟨"dbo", "OrderTotals", "CREATE VIEW OrderTotals AS SELECT 1", .view⟩
def reportView : Module :=
  ⟨"dbo", "OrderReport", "CREATE VIEW OrderReport AS SELECT 1 FROM OrderTotals", .view⟩

/-- A source that lists these modules in order. -/
def modulesOnly (modules : List Module) : Memory.Catalog where
  schemas := [{ name := "dbo", modules }]

/-- Migrations of these modules by which names stay as they are. -/
def keepingNames (modules : List Module) : Run Memory.Store × Outcome Report :=
  migrate { policy := .identity } (modulesOnly modules).source (Memory.target {}) {}
    (DateTime.ofNanos 0) {}

set_option maxRecDepth 100000 in
/-- A migration to which `migrate_references_iff` applies: the view that is read is listed first,
and the reference to it becomes its name. -/
theorem backward_reference_is_kept :
    ∃ run report schemas attempts, keepingNames [totalsView, reportView] = (run, .ok report) ∧
      ReferencesDecided { policy := .identity } (modulesOnly [totalsView, reportView]).source run
        report schemas attempts ∧
      .execute "CREATE VIEW \"OrderReport\" AS SELECT 1 FROM \"OrderTotals\"" ∈
        run.sent.toList := by
  have hrun : (keepingNames [totalsView, reportView]).2.isOk = true ∧
      .execute "CREATE VIEW \"OrderReport\" AS SELECT 1 FROM \"OrderTotals\"" ∈
        (keepingNames [totalsView, reportView]).1.sent.toList := by decide +kernel
  rcases h : keepingNames [totalsView, reportView] with ⟨run, e | report⟩
  · rw [h] at hrun
    cases hrun.1
  · rw [h] at hrun
    obtain ⟨schemas, attempts, hdecided⟩ := migrate_references_iff h
    exact ⟨run, report, schemas, attempts, rfl, hdecided, hrun.2⟩

set_option maxRecDepth 100000 in
/-- The same views in the other order. The ledger has one name for `OrderTotals`, which is the name
under which the view is made, and the view that reads it is made with another. -/
theorem forward_reference_is_lost :
    let migrated := keepingNames [reportView, totalsView]
    migrated.2.toOption.map (fun report => (report.renamings, report.skippedModules)) =
        some ([⟨"dbo", .schema, "dbo", "public", false⟩,
          ⟨"dbo", .view, "OrderReport", "OrderReport", false⟩,
          ⟨"dbo", .view, "OrderTotals", "OrderTotals", false⟩], []) ∧
      renderPg "OrderTotals" = .ok "\"OrderTotals\"" ∧
      (tokenize reportView.definition).map (·.map Token.text) =
        .ok ["CREATE", " ", "VIEW", " ", "OrderReport", " ", "AS", " ", "SELECT", " ", "1", " ",
          "FROM", " ", "OrderTotals"] ∧
      migrated.1.sent.toList =
        [.execute "CREATE SCHEMA IF NOT EXISTS \"public\"",
         .execute "DROP VIEW IF EXISTS \"public\".\"OrderReport\"",
         .execute (String.join ["CREATE", " ", "VIEW", " ", "\"OrderReport\"", " ", "AS", " ",
           "SELECT", " ", "1", " ", "FROM", " ", "order_totals"]),
         .execute "DROP VIEW IF EXISTS \"public\".\"OrderTotals\"",
         .execute "CREATE VIEW \"OrderTotals\" AS SELECT 1"] := by
  decide +kernel

end Migration
