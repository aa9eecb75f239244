import Migration.Memory.Catalog
import Migration.Memory.Store
import Migration.Proofs.ModuleTurns

/-
  Modules that fail before they are made.

  The name of a module is found before anything is sent for it, and its definition is
  rewritten after a view of that name was dropped. This file

  1. says what is sent at a turn whose name or whose definition fails: nothing, or the
     drop of the view alone (`Fate.of_unnamed`, `Fate.of_unreadable`);
  2. concludes for every migration what is sent for each module that was tried and failed
     so, and that its failure is passed over or ends the migration
     (`migrate_unreadable_dropped`); a view can be lost that way
     (`unreadable_view_is_lost`). -/

namespace Migration

/-- The drop of a view, which is sent before its definition is rewritten. -/
def Plan.Turn.drops (m : RunSettings) (t : Plan.Turn) : List Operation :=
  match t.drop m with
  | .ok (some sql) => [.execute sql]
  | _ => []

theorem Plan.Turn.drops_of_ok {m : RunSettings} {t : Plan.Turn} {drop : Option String}
    (h : t.drop m = .ok drop) : t.drops m = drop.toList.map .execute := by
  rw [Plan.Turn.drops, h]
  cases drop <;> rfl

theorem Plan.Turn.drop_of_unnamed {m : RunSettings} {t : Plan.Turn} {e : MigrationError}
    (h : t.name m = .error e) : t.drop m = .error e := by
  rw [Plan.Turn.drop, h]
  rfl

theorem Plan.Turn.drops_of_not_view {m : RunSettings} {t : Plan.Turn}
    (h : t.module.kind ≠ .view) : t.drops m = [] := by
  cases hname : t.name m with
  | error e => rw [Plan.Turn.drops, Plan.Turn.drop_of_unnamed hname]
  | ok name =>
    have hdrop : t.drop m = .ok none := by
      rw [Plan.Turn.drop, hname]
      exact if_neg h
    rw [Plan.Turn.drops, hdrop]

namespace Fate

variable {m : RunSettings} {t : Plan.Turn} {log : List Answered} {failure : Option MigrationError}
  {e : MigrationError}

theorem of_unnamed (h : Fate m t log failure) (hname : t.name m = .error e) :
    log = [] ∧ failure = some e := by
  have hdrop := Plan.Turn.drop_of_unnamed hname
  cases h with
  | unwritten drop =>
    rw [hdrop] at drop
    cases drop
    exact ⟨rfl, rfl⟩
  | undropped drop =>
    rw [hdrop] at drop
    cases drop
  | unreadable dropped text =>
    rw [hdrop] at dropped
    cases dropped
  | refused dropped text =>
    rw [hdrop] at dropped
    cases dropped
  | made dropped text =>
    rw [hdrop] at dropped
    cases dropped

/-- Where the definition cannot be rewritten, the drop of a view is all that is sent. -/
theorem of_unreadable (h : Fate m t log failure) (htext : t.text m = .error e) :
    sentIn log = t.drops m ∧ failure ≠ none := by
  cases h with
  | unwritten drop =>
    rw [Plan.Turn.drops, drop]
    exact ⟨rfl, by simp⟩
  | undropped drop =>
    rw [Plan.Turn.drops_of_ok drop]
    exact ⟨rfl, by simp⟩
  | unreadable dropped text =>
    rw [Plan.Turn.drops_of_ok dropped, sentIn_acceptedLog]
    exact ⟨rfl, by simp⟩
  | refused dropped text =>
    rw [htext] at text
    cases text
  | made dropped text =>
    rw [htext] at text
    cases text

end Fate

/-! ## Whole migrations -/

/-- In every migration nothing is sent for a module that was tried and has no target name, and for
one whose definition cannot be rewritten nothing but its drop, if it is a view. Both fail, and a
failure is passed over and listed in the report, or ends the migration. -/
theorem migrate_unreadable_dropped {σ : Type} (m : RunSettings) (source : Source)
    (target : Target σ) (pace : Pace) (start : DateTime) (initial : σ) :
    let migrated := migrate m source target pace start initial
    ∃ (planned : List Answered) (tried : List Tried),
      target.log initial migrated.1.sent.toList = planned ++ tried.flatMap (·.log) ∧
      Halted (operations (Plan.ofSource m source).steps) planned ∧
      tried.map (·.turn) <+: Plan.turns m source ∧
      (∀ t ∈ tried,
        (∀ e, t.turn.name m = .error e → t.log = [] ∧ t.failure = some e) ∧
        (∀ e, t.turn.text m = .error e → sentIn t.log = t.turn.drops m ∧ t.failure ≠ none) ∧
        (t.turn.module.kind ≠ .view → t.turn.drops m = []) ∧
        (∀ e, t.failure = some e →
          Run.passesOver m e = true ∨ tried.getLast? = some t ∧ migrated.2 = .error e)) ∧
      ∀ report, migrated.2 = .ok report → tried.map (·.turn) = Plan.turns m source ∧
        report.skippedModules = tried.filterMap Tried.skipped? := by
  intro migrated
  obtain ⟨planned, tried, hlog, hfollowed⟩ := migrate_followed m source target pace start
    initial
  refine ⟨planned, tried, hlog, hfollowed.halted, hfollowed.isPrefix, fun t ht => ?_, ?_⟩
  · have hfate := hfollowed.fates t ht
    exact ⟨fun e => hfate.of_unnamed, fun e => hfate.of_unreadable,
      Plan.Turn.drops_of_not_view, fun e => hfollowed.failures ht⟩
  · intro report hreport
    rw [hreport] at hfollowed
    exact hfollowed.reported

/-- A source with a view whose definition is not closed. -/
def openView : Memory.Catalog :=
  { schemas := [{
      name := "dbo"
      modules := [{ schema := "dbo", name := "Greeting", kind := .view,
                    definition := "CREATE VIEW Greeting AS SELECT 'open" }] }] }

set_option maxRecDepth 100000 in
/-- A view whose definition cannot be rewritten: it is passed over, and a view of its name that the
target had is dropped. -/
theorem unreadable_view_is_lost :
    let migrated := migrate {} openView.source (Memory.target {}) {} (DateTime.ofNanos 0) {}
    (Plan.turns {} openView.source).map (Plan.Turn.text {}) =
        [.error (.tokenize 31 "unterminated string literal")] ∧
      migrated.2.map (·.skippedModules) =
        .ok [⟨"dbo", "Greeting", .view,
          "Failed to tokenize SQL at offset 31: unterminated string literal"⟩] ∧
      (Operation.execute "DROP VIEW IF EXISTS \"public\".\"greeting\"", none) ∈
        (Memory.target {}).log {} migrated.1.sent.toList := by
  decide +kernel

end Migration
