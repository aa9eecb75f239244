import Migration.Memory.Catalog
import Migration.Memory.Store
import Migration.Proofs.ModuleTurns
import Migration.Proofs.PlanShape

/-
  What becomes of each module of a source.

  Where a target decides on a statement by its text alone, what becomes of a module is
  decided by its own statements, whatever becomes of the others. This file

  1. lists the modules of a source as they are migrated (`Source.migratedModules`), and
     proves that the turns of a plan are theirs, in order and once each (`Plan.turns_all`);
  2. has the failure of a turn as a function of its statements and of the verdict on them
     (`Plan.Turn.failure`), and proves that it fails so in a run (`Fate.decided`);
  3. concludes that every module is accepted or accounted for as failed, and how a
     migration ends at its modules (`migrate_accounts_for_modules`). -/

namespace Migration

open Naming (Ledger)

/-! ## The modules of a source -/

namespace Source

variable (source : Source)

/-- The modules of a schema of one kind, each with its kind. -/
def modulesOfKind (schema : String) (kind : ModuleKind) : List (ModuleKind × Module) :=
  match source.modules schema kind with
  | .ok modules => modules.map fun x => (kind, x)
  | .error _ => []

def modulesOf (schema : String) : List (ModuleKind × Module) :=
  ModuleKind.all.flatMap fun kind => source.modulesOfKind schema kind

/-- The modules of the schemas that are not passed over, schema by schema. -/
def migratedModules : List (ModuleKind × Module) :=
  match source.schemas with
  | .error _ => []
  | .ok schemas => schemas.flatMap fun s =>
    match source.isSchemaEmpty s.name with
    | .ok false => source.modulesOf s.name
    | _ => []

end Source

namespace Plan

variable {m : RunSettings} {source : Source}

theorem answeredModules_all {reserved : List String} (listings : List (PlannedSchema × ModuleKind))
    (l : Ledger) (h : (attemptAll m source reserved listings l).interruption = none) :
    (answeredModules source listings).map (·.2) =
      listings.flatMap fun l => source.modulesOfKind l.1.source l.2 := by
  induction listings generalizing l with
  | nil => rfl
  | cons listing rest ih =>
    obtain ⟨schema, kind⟩ := listing
    rw [attemptAll] at h
    rw [answeredModules, List.flatMap_cons, Source.modulesOfKind]
    cases hmodules : source.modules schema.source kind with
    | error e =>
      rw [hmodules] at h
      cases h
    | ok modules =>
      rw [hmodules] at h
      rw [List.map_append, List.map_map, ih _ h]
      rfl

theorem interruption_source {reserved : List String} {e : MigrationError}
    (listings : List (PlannedSchema × ModuleKind)) (l : Ledger)
    (h : (attemptAll m source reserved listings l).interruption = some e) :
    ∃ schema kind, source.modules schema kind = .error e := by
  induction listings generalizing l with
  | nil => cases h
  | cons listing rest ih =>
    obtain ⟨schema, kind⟩ := listing
    rw [attemptAll] at h
    cases hmodules : source.modules schema.source kind with
    | error e' =>
      rw [hmodules] at h
      cases h
      exact ⟨_, _, hmodules⟩
    | ok modules =>
      rw [hmodules] at h
      exact ih _ h

theorem SchemasMade.modules {listed : List Schema} {planned : List PlannedSchema}
    {steps : List Step} (h : SchemasMade m source listed planned steps) :
    ((listings planned).flatMap fun l => source.modulesOfKind l.1.source l.2) =
      listed.flatMap fun s =>
        match source.isSchemaEmpty s.name with
        | .ok false => source.modulesOf s.name
        | _ => [] := by
  induction h with
  | nil => rfl
  | passed empty tail ih =>
    rw [List.flatMap_cons, empty, ih]
    rfl
  | @cons schema schemas one planned first rest full head tail ih =>
    have hsource : one.source = schema.name := by
      cases head
      rfl
    rw [List.flatMap_cons, full, ← ih, listings, List.flatMap_cons, List.flatMap_append,
      List.flatMap_map]
    simp only [hsource]
    rfl

theorem PlanMade.modules {schemas : List PlannedSchema} {steps : List Step}
    (h : PlanMade m source schemas steps) :
    ((listings schemas).flatMap fun l => source.modulesOfKind l.1.source l.2) =
      source.migratedModules := by
  cases h with
  | intro answered filled keys => rw [filled.modules, Source.migratedModules, answered]

/-- Where the source fails at no listing, all its modules have their turns. -/
theorem turns_all {schemas : List PlannedSchema} {attempts : Attempts}
    (h : (Plan.ofSource m source).outcome = .ok (schemas, attempts))
    (hall : attempts.interruption = none) :
    (turns m source).map (fun t => (t.kind, t.module)) = source.migratedModules := by
  obtain ⟨steps, planned, hdrafted, -, rfl⟩ := ofSource_ok h
  rw [turns, hdrafted, ← (planMade hdrafted).modules, turnsFrom_map]
  exact answeredModules_all _ _ hall

end Plan

/-! ## Verdicts -/

/-- The target decides on a statement by its text. -/
def Target.JudgesBy {σ : Type} (target : Target σ) (verdict : String → Option MigrationError) :
    Prop :=
  ∀ s sql, (target.respond s (.execute sql)).2 = verdict sql

theorem Target.JudgesBy.answer {σ : Type} {target : Target σ}
    {verdict : String → Option MigrationError} (h : target.JudgesBy verdict) {s : σ}
    {ops : List Operation} {sql : String} {answer : Option MigrationError}
    (hlog : (.execute sql, answer) ∈ target.log s ops) : answer = verdict sql := by
  induction ops generalizing s with
  | nil => exact absurd hlog List.not_mem_nil
  | cons op rest ih =>
    rcases List.mem_cons.mp hlog with heq | hlater
    · cases heq
      exact h s sql
    · exact ih hlater

/-- The first failure of a turn: of its drop, of its definition, or the verdict on one of them. -/
def Plan.Turn.failure (m : RunSettings) (verdict : String → Option MigrationError) (t : Plan.Turn) :
    Option MigrationError :=
  match t.drop m with
  | .error e => some e
  | .ok drop =>
    match drop.bind verdict with
    | some e => some e
    | none =>
      match t.text m with
      | .error e => some e
      | .ok sql => verdict sql

theorem Plan.Turn.drop_isSome {m : RunSettings} {t : Plan.Turn} {drop : Option String}
    (h : t.drop m = .ok drop) : drop.isSome ↔ t.module.kind = .view := by
  obtain ⟨name, -, h⟩ := Outcome.bind_ok h
  split at h
  · rename_i hview
    obtain ⟨sql, -, h⟩ := Outcome.bind_ok h
    obtain rfl := Except.ok.inj h
    simp [hview]
  · rename_i hview
    obtain rfl := Except.ok.inj h
    simp [hview]

/-- What became of a turn is what becomes of it by itself. -/
structure Accounted (m : RunSettings) (verdict : String → Option MigrationError) (t : Tried) :
    Prop where
  /-- Whether it fails is up to its own statements. -/
  decided : t.failure = t.turn.failure m verdict
  /-- Nothing but its own statements is sent. -/
  sent : sentIn t.log <+: (t.turn.statements m).map .execute
  /-- Where it does not fail, its definition is accepted, right after the drop of a view. -/
  accepted : t.failure = none → ∃ drop sql, t.turn.drop m = .ok drop ∧
    (drop.isSome ↔ t.turn.module.kind = .view) ∧ t.turn.text m = .ok sql ∧
    t.log = acceptedLog (drop.toList.map .execute ++ [.execute sql])
  /-- Where it fails, its definition is not accepted. -/
  failed : t.failure ≠ none → ∀ sql, t.turn.text m = .ok sql → (.execute sql, none) ∉ t.log

namespace Fate

variable {m : RunSettings} {verdict : String → Option MigrationError} {t : Plan.Turn}
  {log : List Answered} {failure : Option MigrationError}

theorem bind_of_accepted {drop : Option String} {more : List Answered}
    (hverdict : ∀ sql answer, (.execute sql, answer) ∈
      acceptedLog (drop.toList.map .execute) ++ more → answer = verdict sql) :
    drop.bind verdict = none := by
  cases drop with
  | none => rfl
  | some sql => exact (hverdict sql none List.mem_cons_self).symm

/-- A turn fails as its own statements and the verdict on them have it. -/
theorem decided (h : Fate m t log failure)
    (hverdict : ∀ sql answer, (.execute sql, answer) ∈ log → answer = verdict sql) :
    failure = t.failure m verdict := by
  cases h with
  | unwritten drop => rw [Plan.Turn.failure, drop]
  | @undropped sql e drop =>
    have hrefused : some e = verdict sql := hverdict sql (some e) List.mem_cons_self
    rw [Plan.Turn.failure, drop]
    simp only [Option.bind_some, ← hrefused]
  | @unreadable drop e dropped text =>
    rw [← List.append_nil (acceptedLog _)] at hverdict
    have haccepted := bind_of_accepted hverdict
    rw [Plan.Turn.failure, dropped]
    simp only [haccepted, text]
  | @refused drop sql e dropped text =>
    have haccepted := bind_of_accepted hverdict
    have hrefused : some e = verdict sql :=
      hverdict sql (some e) (List.mem_append_right _ List.mem_cons_self)
    rw [Plan.Turn.failure, dropped]
    simp only [haccepted, text, hrefused]
  | @made drop sql dropped text =>
    rw [acceptedLog_append] at hverdict
    have haccepted := bind_of_accepted hverdict
    have hmade : none = verdict sql :=
      hverdict sql none (List.mem_append_right _ List.mem_cons_self)
    rw [Plan.Turn.failure, dropped]
    simp only [haccepted, text, ← hmade]

theorem not_accepted (h : Fate m t log failure)
    (hverdict : ∀ sql answer, (.execute sql, answer) ∈ log → answer = verdict sql)
    (hfailure : failure ≠ none) {sql : String} (htext : t.text m = .ok sql) :
    (.execute sql, none) ∉ log := by
  cases h with
  | unwritten drop => exact List.not_mem_nil
  | undropped drop => simp
  | unreadable dropped text =>
    rw [htext] at text
    cases text
  | @refused drop sql' e dropped text =>
    obtain rfl : sql' = sql := Except.ok.inj (text.symm.trans htext)
    -- the same text cannot be both refused and accepted
    intro haccepted
    have hrefused := hverdict sql' (some e) (List.mem_append_right _ List.mem_cons_self)
    rw [← hverdict sql' none haccepted] at hrefused
    cases hrefused
  | made dropped text => exact absurd rfl hfailure

theorem accounted (h : Fate m t log failure)
    (hverdict : ∀ sql answer, (.execute sql, answer) ∈ log → answer = verdict sql) :
    Accounted m verdict ⟨t, log, failure⟩ where
  decided := h.decided hverdict
  sent := h.sent_isPrefix
  accepted := by
    intro hnone
    cases h with
    | made dropped text => exact ⟨_, _, dropped, Plan.Turn.drop_isSome dropped, text, rfl⟩
    | unwritten drop => cases hnone
    | undropped drop => cases hnone
    | unreadable dropped text => cases hnone
    | refused dropped text => cases hnone
  failed := fun hfailure sql htext => h.not_accepted hverdict hfailure htext

end Fate

/-! ## Whole migrations -/

/-- Where a target decides on a statement by its text, the turns of the modules are taken in order,
and what becomes of each is up to its own statements: its definition is accepted, right after the
drop of a view, or it fails. The turns, and so all statements that may be sent at them, do not
depend on the target. A migration that succeeds has taken the turn of every module of the
source, and lists those that failed. One that passes over modules is ended at its modules only by a
name with two target names or by the source; one that does not is ended by the first that fails. -/
theorem migrate_accounts_for_modules {σ : Type} (m : RunSettings) (source : Source)
    {target : Target σ} {verdict : String → Option MigrationError} (pace : Pace)
    (start : DateTime) (initial : σ) (hverdict : target.JudgesBy verdict) :
    let migrated := migrate m source target pace start initial
    ∃ (planned : List Answered) (tried : List Tried),
      target.log initial migrated.1.sent.toList = planned ++ tried.flatMap (·.log) ∧
      Halted (operations (Plan.ofSource m source).steps) planned ∧
      tried.map (·.turn) <+: Plan.turns m source ∧
      (∀ t ∈ tried, Accounted m verdict t) ∧
      (∀ report, migrated.2 = .ok report →
        tried.map (fun t => (t.turn.kind, t.turn.module)) = source.migratedModules ∧
        report.skippedModules = tried.filterMap Tried.skipped?) ∧
      (m.skipFailedModules = true → ∀ e, migrated.2 = .error e →
        (∃ entry ∈ planned, entry.2 ≠ none) ∨ (Plan.ofSource m source).outcome = .error e ∨
        e.isAmbiguous = true ∨ ∃ schema kind, source.modules schema kind = .error e) ∧
      (m.skipFailedModules = false →
        (∀ t ∈ tried, ∀ e, t.failure = some e →
          tried.getLast? = some t ∧ migrated.2 = .error e) ∧
        ∀ report, migrated.2 = .ok report → report.skippedModules = []) := by
  intro migrated
  obtain ⟨planned, tried, hlog, hfollowed⟩ := migrate_followed m source target pace start
    initial
  refine ⟨planned, tried, hlog, hfollowed.halted, hfollowed.isPrefix, fun t ht => ?_,
    fun report hreport => ?_, fun hskip e he => ?_, fun hskip => ?_⟩
  · -- what a turn was answered stands in the log, so it is the verdict on the text
    refine (hfollowed.fates t ht).accounted fun sql answer hanswer => ?_
    have hsent := List.mem_append_right planned (List.mem_flatMap.mpr ⟨t, ht, hanswer⟩)
    rw [← hlog] at hsent
    exact hverdict.answer hsent
  · rw [hreport] at hfollowed
    obtain ⟨htaken, hskipped⟩ := hfollowed.reported
    refine ⟨?_, hskipped⟩
    cases hfollowed with
    | finished plan all answered =>
      rw [← Plan.turns_all plan answered, ← htaken, List.map_map]
      rfl
  · rw [he] at hfollowed
    cases hfollowed with
    | refused halted refused => exact .inl refused
    | unplanned plan => exact .inr (.inl plan)
    | ended plan all =>
      have hends := all.error.1
      rw [Run.passesOver, hskip, Bool.true_and] at hends
      exact .inr (.inr (.inl (by simpa using hends)))
    | @interrupted planned tried skipped e plan all interrupted =>
      obtain ⟨schemas, attempts⟩ := planned
      obtain ⟨steps, drafted, -, -, rfl⟩ := Plan.ofSource_ok plan
      exact .inr (.inr (.inr (Plan.interruption_source _ _ interrupted)))
  · have hfailures (t : Tried) (ht : t ∈ tried) (e : MigrationError) (he : t.failure = some e) :
        tried.getLast? = some t ∧ migrated.2 = .error e := by
      refine (hfollowed.failures ht he).resolve_left ?_
      rw [Run.passesOver_of_not_skipping hskip]
      exact Bool.false_ne_true
    refine ⟨hfailures, fun report hreport => ?_⟩
    rw [hreport] at hfollowed hfailures
    rw [hfollowed.reported.2, List.filterMap_eq_nil_iff]
    intro t ht
    cases hfailure : t.failure with
    | none => rw [Tried.skipped?, hfailure]; rfl
    | some e => cases (hfailures t ht e hfailure).2

def Memory.Faults.verdict (f : Memory.Faults) (sql : String) : Option MigrationError :=
  if f.refusesStatement sql then some (.execution sql "syntax error") else none

theorem Memory.judgesBy_target (f : Memory.Faults) : (Memory.target f).JudgesBy f.verdict := by
  intro s sql
  simp only [Memory.target, Memory.Store.respond, Memory.Faults.verdict]
  split <;> rfl

def twoViews : Memory.Catalog :=
  { schemas := [{
      name := "dbo"
      modules := [{ schema := "dbo", name := "Pending", kind := .view,
                    definition := "CREATE VIEW Pending AS SELECT TOP 1 1" },
                  { schema := "dbo", name := "Done", kind := .view,
                    definition := "CREATE VIEW Done AS SELECT 1" }] }] }

/-- Its migration to a target that knows no `TOP`. -/
def twoViewsMigrated : Run Memory.Store × Outcome Report :=
  migrate {} twoViews.source (Memory.target { containing := some "TOP" }) {} (DateTime.ofNanos 0) {}

set_option maxRecDepth 100000 in
/-- A migration to which `migrate_accounts_for_modules` applies: of two views the first is refused
and listed, and the second is made all the same. -/
theorem refused_view_is_listed :
    (Memory.target { containing := some "TOP" }).JudgesBy
        (Memory.Faults.verdict { containing := some "TOP" }) ∧
      ∃ (report : Report) (tried : List Tried), twoViewsMigrated.2 = .ok report ∧
        tried.map (fun t => (t.turn.kind, t.turn.module.name)) =
          [(.view, "Pending"), (.view, "Done")] ∧
        report.skippedModules = tried.filterMap Tried.skipped? ∧
        report.skippedModules.map (·.name) = ["Pending"] ∧
        .execute "CREATE VIEW done AS SELECT 1" ∈ twoViewsMigrated.1.sent.toList := by
  have hjudges := Memory.judgesBy_target { containing := some "TOP" }
  obtain ⟨planned, tried, -, -, -, -, hok, -⟩ := migrate_accounts_for_modules {} twoViews.source {}
    (DateTime.ofNanos 0) {} hjudges
  have hmodules : twoViews.source.migratedModules.map (fun x => (x.1, x.2.name)) =
      [(.view, "Pending"), (.view, "Done")] := by decide +kernel
  have hrun : twoViewsMigrated.2.map (·.skippedModules.map (·.name)) = .ok ["Pending"] ∧
      .execute "CREATE VIEW done AS SELECT 1" ∈ twoViewsMigrated.1.sent.toList := by
    decide +kernel
  refine ⟨hjudges, ?_⟩
  cases houtcome : twoViewsMigrated.2 with
  | error e =>
    rw [houtcome] at hrun
    cases hrun.1
  | ok report =>
    rw [houtcome] at hrun
    obtain ⟨htaken, hskipped⟩ := hok report houtcome
    refine ⟨report, tried, rfl, ?_, hskipped, Except.ok.inj hrun.1, hrun.2⟩
    rw [← hmodules, ← htaken, List.map_map]
    rfl

end Migration
