import Migration.Proofs.AnswerLog
import Migration.Proofs.Attempts

/-
  Modules, one turn after another.

  What is to be done for a module is known from the renamings before it, whatever becomes
  of the modules before it; a target decides how much of it is done. This file

  1. has the turn of a module with the statements that make it (`Plan.Turn`), the turns of
     a plan in order (`Plan.turns`), and the attempts of a plan as those of its turns
     (`ofSource_turns`);
  2. says what can become of a turn (`Fate`), and of all turns until the modules end
     (`TriedAll`), and proves that this is what becomes of them in a run
     (`Run.tryAll_tried`);
  3. cuts the log of a migration into the part of the plan and one part for each module
     that was tried (`migrate_followed`). -/

namespace Migration

open Naming (Ledger)

namespace Plan

/-! ## Turns -/

/-- A module when it is to be migrated. -/
structure Turn where
  targetSchema : String
  reserved : List String
  /-- The kind under which the source lists the module. -/
  kind : ModuleKind
  module : Module
  /-- The renamings before it. -/
  before : Ledger

namespace Turn

variable (m : RunSettings) (t : Turn)

def naming : Drafted String :=
  Draft.rename (m.policy.rename t.module.schema t.module.kind.objectKind t.module.name) t.before

def name : Outcome String := (t.naming m).outcome

/-- The renamings with which the definition is rewritten and the next module is named. -/
def after : Ledger := (t.naming m).ledger

/-- The drop of a view, which comes first. -/
def drop : Outcome (Option String) := do
  let name ← t.name m
  if t.module.kind = .view then
    let sql ← Statement.dropView t.targetSchema name
    return some sql
  else return none

def text : Outcome String := substituteNames t.module.definition (t.after m) t.reserved

/-- The statements of the turn, up to the first that cannot be written. -/
def statements : List String :=
  match t.drop m with
  | .error _ => []
  | .ok drop => drop.toList ++ (t.text m).toOption.toList

def attempt : Attempt :=
  let drafted := moduleDraft m t.targetSchema t.reserved t.module t.before
  ⟨t.module, t.kind, drafted.steps, drafted.outcome⟩

end Turn

/-- A module is planned by its statements, and ends with what keeps one of them from being
written. -/
theorem moduleDraft_turn (m : RunSettings) (t : Turn) :
    moduleDraft m t.targetSchema t.reserved t.module t.before =
      ⟨(t.statements m).map .execute, t.after m,
        do let _ ← t.drop m; let _ ← t.text m; return ()⟩ := by
  have hsteps : (t.naming m).steps = [] := by
    unfold Turn.naming Draft.rename
    split <;> rfl
  rcases hnaming : t.naming m with ⟨steps, after, e | name⟩
  · obtain rfl : steps = [] := by rw [hnaming] at hsteps; exact hsteps
    have hdrop : t.drop m = .error e := by rw [Turn.drop, Turn.name, hnaming]; rfl
    rw [moduleDraft, Draft.bind_of_error hnaming, Turn.statements, hdrop, Turn.after, hnaming]
    rfl
  · obtain rfl : steps = [] := by rw [hnaming] at hsteps; exact hsteps
    have hafter : t.after m = after := by rw [Turn.after, hnaming]
    have htext : t.text m = substituteNames t.module.definition after t.reserved := by
      rw [Turn.text, hafter]
    have hdrop : t.drop m =
        if t.module.kind = .view then do
          let sql ← Statement.dropView t.targetSchema name
          return some sql
        else return none := by
      rw [Turn.drop, Turn.name, hnaming]
      rfl
    -- the definition is rewritten with the ledger that has the name of the module
    have hledger (sql : Ledger → Outcome String) :
        (do let ledger ← Draft.ledger; Draft.execute (sql ledger)) after =
          Draft.execute (sql after) after := rfl
    rw [moduleDraft, Draft.bind_of_ok hnaming, Turn.statements, hafter, hdrop, htext]
    by_cases hview : t.module.kind = .view
    · simp only [if_pos hview]
      cases Statement.dropView t.targetSchema name with
      | error e => rfl
      | ok sql =>
        have hexecute : Draft.execute (.ok sql) after = ⟨[.execute sql], after, .ok ()⟩ := rfl
        simp only [Draft.bind_of_ok hexecute, hledger]
        cases substituteNames t.module.definition after t.reserved <;> rfl
    · simp only [if_neg hview, hledger]
      cases substituteNames t.module.definition after t.reserved <;> rfl

/-- All that a module records it records with its own name, before anything is sent. -/
theorem moduleDraft_ledger (m : RunSettings) (t : Turn) :
    (moduleDraft m t.targetSchema t.reserved t.module t.before).ledger = t.after m := by
  rw [moduleDraft_turn]

theorem Turn.attempt_eq (m : RunSettings) (t : Turn) :
    t.attempt m = ⟨t.module, t.kind, (t.statements m).map .execute,
      do let _ ← t.drop m; let _ ← t.text m; return ()⟩ := by
  rw [Turn.attempt, moduleDraft_turn]

theorem Turn.operations_attempt (m : RunSettings) (t : Turn) :
    operations (t.attempt m).steps = (t.statements m).map .execute := by
  rw [t.attempt_eq m, operations, List.filterMap_map]
  exact congrFun List.filterMap_eq_map (t.statements m)

/-! ## The turns of a plan -/

/-- The turns of modules, each with its target schema and the kind of its listing. -/
def turnsFrom (m : RunSettings) (reserved : List String) :
    List (String × ModuleKind × Module) → Ledger → List Turn
  | [], _ => []
  | (targetSchema, kind, x) :: rest, l =>
    let t : Turn := ⟨targetSchema, reserved, kind, x, l⟩
    t :: turnsFrom m reserved rest (t.after m)

/-- The modules of listings, up to the first listing that the source fails to answer. -/
def answeredModules (source : Source) :
    List (PlannedSchema × ModuleKind) → List (String × ModuleKind × Module)
  | [] => []
  | (schema, kind) :: rest =>
    match source.modules schema.source kind with
    | .error _ => []
    | .ok modules => modules.map (fun x => (schema.target, kind, x)) ++ answeredModules source rest

/-- The turns of all modules of a migration. -/
def turns (m : RunSettings) (source : Source) : List Turn :=
  let drafted := schemasDraft m source .empty
  match drafted.outcome with
  | .error _ => []
  | .ok schemas =>
    turnsFrom m (schemas.map (·.target)) (answeredModules source (listings schemas)) drafted.ledger

section

variable {m : RunSettings} {source : Source} {reserved : List String}

theorem turnsFrom_map (xs : List (String × ModuleKind × Module)) (l : Ledger) :
    (turnsFrom m reserved xs l).map (fun t => (t.kind, t.module)) = xs.map (·.2) := by
  induction xs generalizing l with
  | nil => rfl
  | cons x rest ih => exact congrArg (x.2 :: ·) (ih _)

/-- The attempts at the modules of one listing are those of their turns, and later turns have the
renamings after them. -/
theorem attemptListed_turns (targetSchema : String) (kind : ModuleKind) (modules : List Module)
    (later : List (String × ModuleKind × Module)) (l : Ledger) :
    let listed := attemptListed m targetSchema reserved kind modules l
    (turnsFrom m reserved (modules.map (fun x => (targetSchema, kind, x)) ++ later) l).map
        (Turn.attempt m) =
      listed.1 ++ (turnsFrom m reserved later listed.2).map (Turn.attempt m) := by
  induction modules generalizing l with
  | nil => rfl
  | cons x rest ih =>
    have hafter : (moduleDraft m targetSchema reserved x l).ledger =
        Turn.after m ⟨targetSchema, reserved, kind, x, l⟩ :=
      moduleDraft_ledger m ⟨targetSchema, reserved, kind, x, l⟩
    simp only [List.map_cons, List.cons_append, turnsFrom, attemptListed, hafter, ih]
    rfl

theorem attemptAll_turns (listings : List (PlannedSchema × ModuleKind)) (l : Ledger) :
    (attemptAll m source reserved listings l).list =
      (turnsFrom m reserved (answeredModules source listings) l).map (Turn.attempt m) := by
  induction listings generalizing l with
  | nil => rfl
  | cons listing rest ih =>
    obtain ⟨schema, kind⟩ := listing
    rw [attemptAll, answeredModules]
    cases source.modules schema.source kind with
    | error e => rfl
    | ok modules => rw [attemptListed_turns, ← ih]

theorem ofSource_turns {schemas : List PlannedSchema} {attempts : Attempts}
    (h : (Plan.ofSource m source).outcome = .ok (schemas, attempts)) :
    attempts.list = (turns m source).map (Turn.attempt m) := by
  obtain ⟨steps, planned, hdrafted, -, rfl⟩ := ofSource_ok h
  rw [attemptAll_turns, turns, hdrafted]

end

end Plan

/-! ## What can become of a turn -/

/-- What is sent at a turn, with the answers to it, and the failure of the turn if it fails. -/
inductive Fate (m : RunSettings) (t : Plan.Turn) :
    List Answered → Option MigrationError → Prop where
  /-- The module has no target name, or the drop of a view cannot be written. -/
  | unwritten {e : MigrationError} (drop : t.drop m = .error e) : Fate m t [] (some e)
  /-- The drop of a view is refused. -/
  | undropped {sql : String} {e : MigrationError} (drop : t.drop m = .ok (some sql)) :
      Fate m t [(.execute sql, some e)] (some e)
  /-- The definition cannot be rewritten. -/
  | unreadable {drop : Option String} {e : MigrationError} (dropped : t.drop m = .ok drop)
      (text : t.text m = .error e) :
      Fate m t (acceptedLog (drop.toList.map .execute)) (some e)
  /-- The rewritten definition is refused. -/
  | refused {drop : Option String} {sql : String} {e : MigrationError}
      (dropped : t.drop m = .ok drop) (text : t.text m = .ok sql) :
      Fate m t (acceptedLog (drop.toList.map .execute) ++ [(.execute sql, some e)]) (some e)
  /-- The rewritten definition is accepted. -/
  | made {drop : Option String} {sql : String} (dropped : t.drop m = .ok drop)
      (text : t.text m = .ok sql) :
      Fate m t (acceptedLog (drop.toList.map .execute ++ [.execute sql])) none

theorem Fate.sent_isPrefix {m : RunSettings} {t : Plan.Turn} {log : List Answered}
    {failure : Option MigrationError} (h : Fate m t log failure) :
    sentIn log <+: (t.statements m).map .execute := by
  cases h with
  | unwritten drop => exact List.nil_prefix
  | undropped drop =>
    rw [Plan.Turn.statements, drop]
    exact ⟨_, rfl⟩
  | unreadable dropped text =>
    rw [Plan.Turn.statements, dropped, sentIn_acceptedLog, List.map_append]
    exact List.prefix_append _ _
  | refused dropped text =>
    refine ⟨[], ?_⟩
    rw [Plan.Turn.statements, dropped, text, sentIn_append, sentIn_acceptedLog, List.map_append,
      List.append_nil]
    rfl
  | made dropped text =>
    refine ⟨[], ?_⟩
    rw [Plan.Turn.statements, dropped, text, sentIn_acceptedLog, List.map_append, List.append_nil]
    rfl

/-- A turn that was taken, with what became of it. -/
structure Tried where
  turn : Plan.Turn
  log : List Answered
  failure : Option MigrationError

/-- How the report lists a module that failed and was passed over. -/
def Tried.skipped? (t : Tried) : Option SkippedModule :=
  t.failure.map fun e => ⟨t.turn.module.schema, t.turn.module.name, t.turn.kind, e.message⟩

/-- What becomes of turns one after another, until the first failure that is not passed over. -/
inductive TriedAll (m : RunSettings) :
    List Plan.Turn → List Tried → Outcome (List SkippedModule) → Prop where
  | nil : TriedAll m [] [] (.ok [])
  | made {t : Plan.Turn} {turns : List Plan.Turn} {log : List Answered} {tried : List Tried}
      {outcome : Outcome (List SkippedModule)} (fate : Fate m t log none)
      (later : TriedAll m turns tried outcome) :
      TriedAll m (t :: turns) (⟨t, log, none⟩ :: tried) outcome
  | passed {t : Plan.Turn} {turns : List Plan.Turn} {log : List Answered} {tried : List Tried}
      {outcome : Outcome (List SkippedModule)} {e : MigrationError} (fate : Fate m t log (some e))
      (passes : Run.passesOver m e = true) (later : TriedAll m turns tried outcome) :
      TriedAll m (t :: turns) (⟨t, log, some e⟩ :: tried)
        (outcome.map fun skipped =>
          ⟨t.module.schema, t.module.name, t.kind, e.message⟩ :: skipped)
  | ended {t : Plan.Turn} {turns : List Plan.Turn} {log : List Answered} {e : MigrationError}
      (fate : Fate m t log (some e)) (ends : Run.passesOver m e = false) :
      TriedAll m (t :: turns) [⟨t, log, some e⟩] (.error e)

namespace TriedAll

variable {m : RunSettings} {turns : List Plan.Turn} {tried : List Tried}
  {outcome : Outcome (List SkippedModule)}

theorem isPrefix (h : TriedAll m turns tried outcome) : tried.map (·.turn) <+: turns := by
  induction h with
  | nil => exact List.prefix_rfl
  | made fate later ih => exact (List.prefix_cons_inj _).mpr ih
  | passed fate passes later ih => exact (List.prefix_cons_inj _).mpr ih
  | ended fate ends => exact (List.prefix_cons_inj _).mpr (List.nil_prefix)

theorem fates (h : TriedAll m turns tried outcome) :
    ∀ t ∈ tried, Fate m t.turn t.log t.failure := by
  induction h with
  | nil => exact List.forall_mem_nil _
  | made fate later ih => exact List.forall_mem_cons.mpr ⟨fate, ih⟩
  | passed fate passes later ih => exact List.forall_mem_cons.mpr ⟨fate, ih⟩
  | ended fate ends => exact List.forall_mem_singleton.mpr fate

theorem failures (h : TriedAll m turns tried outcome) {t : Tried} (ht : t ∈ tried)
    {e : MigrationError} (he : t.failure = some e) :
    Run.passesOver m e = true ∨ tried.getLast? = some t ∧ outcome = .error e := by
  induction h with
  | nil => exact absurd ht List.not_mem_nil
  | @made first turns log tried outcome fate later ih =>
    rcases List.mem_cons.mp ht with rfl | ht
    · cases he
    · refine (ih ht).imp_right fun ⟨hlast, houtcome⟩ => ⟨?_, houtcome⟩
      rw [List.getLast?_cons, hlast]
      rfl
  | @passed first turns log tried outcome e' fate passes later ih =>
    rcases List.mem_cons.mp ht with rfl | ht
    · cases he
      exact .inl passes
    · refine (ih ht).imp_right fun ⟨hlast, houtcome⟩ => ⟨?_, ?_⟩
      · rw [List.getLast?_cons, hlast]
        rfl
      · rw [houtcome]
        rfl
  | ended fate ends =>
    obtain rfl := List.mem_singleton.mp ht
    cases he
    exact .inr ⟨rfl, rfl⟩

theorem ok {skipped : List SkippedModule} (h : TriedAll m turns tried (.ok skipped)) :
    tried.map (·.turn) = turns ∧ skipped = tried.filterMap Tried.skipped? := by
  generalize houtcome : (Except.ok skipped : Outcome (List SkippedModule)) = outcome at h
  induction h generalizing skipped with
  | nil =>
    obtain rfl := Except.ok.inj houtcome
    exact ⟨rfl, rfl⟩
  | made fate later ih =>
    obtain ⟨hturns, hskipped⟩ := ih houtcome
    exact ⟨congrArg _ hturns, hskipped⟩
  | @passed t turns log tried outcome e fate passes later ih =>
    cases outcome with
    | error e' => cases houtcome
    | ok later' =>
      obtain rfl := Except.ok.inj houtcome
      obtain ⟨hturns, hskipped⟩ := ih rfl
      exact ⟨congrArg _ hturns, congrArg _ hskipped⟩
  | ended fate ends => cases houtcome

theorem error {e : MigrationError} (h : TriedAll m turns tried (.error e)) :
    Run.passesOver m e = false ∧ ∃ t, tried.getLast? = some t ∧ t.failure = some e := by
  generalize houtcome : (Except.error e : Outcome (List SkippedModule)) = outcome at h
  induction h with
  | nil => cases houtcome
  | made fate later ih =>
    obtain ⟨hends, t, hlast, ht⟩ := ih houtcome
    exact ⟨hends, t, by rw [List.getLast?_cons, hlast]; rfl, ht⟩
  | @passed t turns log tried outcome e' fate passes later ih =>
    cases outcome with
    | ok skipped => cases houtcome
    | error e'' =>
      cases houtcome
      obtain ⟨hends, t, hlast, ht⟩ := ih rfl
      exact ⟨hends, t, by rw [List.getLast?_cons, hlast]; rfl, ht⟩
  | ended fate ends =>
    cases houtcome
    exact ⟨ends, _, rfl, rfl⟩

end TriedAll

/-! ## Runs -/

namespace Run

variable {σ : Type} (m : RunSettings) (target : Target σ) (pace : Pace)

theorem takeAll_executes (r : Run σ) (texts : List String) :
    let taken := r.takeAll target pace (texts.map .execute)
    ∃ log, Logged target r taken.1 log ∧
      (log = acceptedLog (texts.map .execute) ∧ taken.2 = none ∨
        ∃ done sql rest e, texts = done ++ sql :: rest ∧ taken.2 = some e ∧
          log = acceptedLog (done.map .execute) ++ [(.execute sql, some e)]) := by
  induction texts generalizing r with
  | nil => exact ⟨[], .refl r, .inl ⟨rfl, rfl⟩⟩
  | cons sql texts ih =>
    have hsend := @logged_send σ target pace r (.execute sql)
    rw [List.map_cons, takeAll, take]
    simp only [Step.operation?, send] at hsend ⊢
    cases hanswer : (target.respond r.state (.execute sql)).2 with
    | none =>
      rw [hanswer] at hsend
      obtain ⟨log, hlogged, hends⟩ := ih _
      refine ⟨_, hsend.append hlogged, ?_⟩
      -- the induction is on the statements, and the one accepted here comes before all others
      rcases hends with ⟨rfl, hnone⟩ | ⟨done, last, rest, e, rfl, hsome, rfl⟩
      · exact .inl ⟨rfl, hnone⟩
      · exact .inr ⟨sql :: done, last, rest, e, rfl, hsome, rfl⟩
    | some e =>
      rw [hanswer] at hsend
      exact ⟨_, hsend, .inr ⟨[], sql, texts, e, rfl, rfl, rfl⟩⟩

/-- Of the statements of a turn the refused one is the definition or the drop. -/
theorem last_or_first {drop : Option String} {text sql : String} {done rest : List String}
    (h : drop.toList ++ [text] = done ++ sql :: rest) :
    done = drop.toList ∧ sql = text ∨ done = [] ∧ drop = some sql := by
  have hone {done : List String} (h : [text] = done ++ sql :: rest) : done = [] ∧ sql = text := by
    obtain ⟨rfl, hlast⟩ | ⟨-, hnil⟩ := List.append_eq_singleton_iff.mp h.symm
    · exact ⟨rfl, (List.cons.inj hlast).1⟩
    · exact absurd hnil (List.cons_ne_nil _ _)
  cases drop with
  | none => exact .inl (hone h)
  | some first =>
    cases done with
    | nil => exact .inr ⟨rfl, congrArg some (List.cons.inj h).1⟩
    | cons first' done =>
      obtain ⟨rfl, hrest⟩ := List.cons.inj h
      obtain ⟨rfl, rfl⟩ := hone hrest
      exact .inl ⟨rfl, rfl⟩

theorem tryAttempt_fate (r : Run σ) (t : Plan.Turn) :
    ∃ log, Logged target r (r.tryAttempt target pace (t.attempt m)).1 log ∧
      Fate m t log (r.tryAttempt target pace (t.attempt m)).2 := by
  obtain ⟨log, hlogged, hends⟩ := takeAll_executes target pace r (t.statements m)
  rw [t.attempt_eq m]
  refine ⟨log, by rw [tryAttempt_fst]; exact hlogged, ?_⟩
  rw [tryAttempt]
  rcases htaken : r.takeAll target pace ((t.statements m).map .execute) with ⟨after, error⟩
  rw [htaken] at hends
  clear htaken hlogged
  -- how many statements there are depends on which of the two can be written
  cases hdrop : t.drop m with
  | error e =>
    have hstatements : t.statements m = [] := by rw [Plan.Turn.statements, hdrop]
    rw [hstatements] at hends
    obtain ⟨rfl, rfl⟩ | ⟨done, sql, rest, e', hsplit, -⟩ := hends
    · exact .unwritten hdrop
    · exact absurd hsplit (by simp)
  | ok drop =>
    cases htext : t.text m with
    | error e =>
      have hstatements : t.statements m = drop.toList := by
        rw [Plan.Turn.statements, hdrop, htext]
        exact List.append_nil _
      rw [hstatements] at hends
      obtain ⟨rfl, rfl⟩ | ⟨done, sql, rest, e', hsplit, rfl, rfl⟩ := hends
      · exact .unreadable hdrop htext
      · obtain ⟨rfl, rfl⟩ : done = [] ∧ drop = some sql := by
          cases drop <;> cases done <;> simp_all
        exact .undropped hdrop
    | ok text =>
      have hstatements : t.statements m = drop.toList ++ [text] := by
        rw [Plan.Turn.statements, hdrop, htext]
        rfl
      rw [hstatements] at hends
      obtain ⟨rfl, rfl⟩ | ⟨done, sql, rest, e', hsplit, rfl, rfl⟩ := hends
      · rw [List.map_append]
        exact .made hdrop htext
      · obtain ⟨rfl, rfl⟩ | ⟨rfl, rfl⟩ := last_or_first hsplit
        · exact .refused hdrop htext
        · exact .undropped hdrop

theorem tryAll_tried (r : Run σ) (turns : List Plan.Turn) :
    let done := r.tryAll m target pace (turns.map (Plan.Turn.attempt m))
    ∃ tried, Logged target r done.1 (tried.flatMap (·.log)) ∧ TriedAll m turns tried done.2 := by
  induction turns generalizing r with
  | nil => exact ⟨[], .refl r, .nil⟩
  | cons t rest ih =>
    obtain ⟨log, hlogged, hfate⟩ := tryAttempt_fate m target pace r t
    rw [List.map_cons, tryAll]
    rcases htried : r.tryAttempt target pace (t.attempt m) with ⟨after, _ | e⟩
    · rw [htried] at hlogged hfate
      obtain ⟨tried, hlater, hall⟩ := ih after
      exact ⟨⟨t, log, none⟩ :: tried, hlogged.append hlater, .made hfate hall⟩
    · rw [htried] at hlogged hfate
      cases hpasses : passesOver m e with
      | true =>
        obtain ⟨tried, hlater, hall⟩ := ih after
        refine ⟨⟨t, log, some e⟩ :: tried, ?_, ?_⟩
        · simp only [hpasses, if_true]
          exact hlogged.append hlater
        · simp only [hpasses, if_true]
          exact .passed hfate hpasses hall
      | false =>
        refine ⟨[⟨t, log, some e⟩], ?_, ?_⟩
        · simp only [hpasses, List.flatMap_singleton]
          exact hlogged
        · simp only [hpasses]
          exact .ended hfate hpasses

end Run

/-! ## Whole migrations -/

/-- What a migration ends with, the answers to the operations of its plan and the turns that were
taken. -/
inductive Followed (m : RunSettings) (source : Source) :
    Outcome Report → List Answered → List Tried → Prop where
  /-- An operation of the plan is refused. -/
  | refused {planned : List Answered} {e : MigrationError}
      (halted : Halted (operations (Plan.ofSource m source).steps) planned)
      (refused : ∃ entry ∈ planned, entry.2 ≠ none) : Followed m source (.error e) planned []
  /-- The plan ends with an error of its own. -/
  | unplanned {e : MigrationError} (plan : (Plan.ofSource m source).outcome = .error e) :
      Followed m source (.error e) (acceptedLog (operations (Plan.ofSource m source).steps)) []
  /-- A module ends the migration. -/
  | ended {planned : List Plan.PlannedSchema × Plan.Attempts} {tried : List Tried}
      {e : MigrationError} (plan : (Plan.ofSource m source).outcome = .ok planned)
      (all : TriedAll m (Plan.turns m source) tried (.error e)) :
      Followed m source (.error e) (acceptedLog (operations (Plan.ofSource m source).steps)) tried
  /-- The source fails to list modules. -/
  | interrupted {planned : List Plan.PlannedSchema × Plan.Attempts} {tried : List Tried}
      {skipped : List SkippedModule} {e : MigrationError}
      (plan : (Plan.ofSource m source).outcome = .ok planned)
      (all : TriedAll m (Plan.turns m source) tried (.ok skipped))
      (interrupted : planned.2.interruption = some e) :
      Followed m source (.error e) (acceptedLog (operations (Plan.ofSource m source).steps)) tried
  /-- Nothing ends the migration before its report. -/
  | finished {planned : List Plan.PlannedSchema × Plan.Attempts} {tried : List Tried}
      {report : Report} (plan : (Plan.ofSource m source).outcome = .ok planned)
      (all : TriedAll m (Plan.turns m source) tried (.ok report.skippedModules))
      (answered : planned.2.interruption = none) :
      Followed m source (.ok report) (acceptedLog (operations (Plan.ofSource m source).steps)) tried

namespace Followed

variable {m : RunSettings} {source : Source} {outcome : Outcome Report} {planned : List Answered}
  {tried : List Tried}

theorem halted (h : Followed m source outcome planned tried) :
    Halted (operations (Plan.ofSource m source).steps) planned := by
  cases h with
  | refused halted refused => exact halted
  | unplanned plan => exact .finished
  | ended plan all => exact .finished
  | interrupted plan all interrupted => exact .finished
  | finished plan all answered => exact .finished

theorem complete (h : Followed m source outcome planned tried) :
    tried = [] ∨ planned = acceptedLog (operations (Plan.ofSource m source).steps) ∧
      ∃ p, (Plan.ofSource m source).outcome = .ok p := by
  cases h with
  | refused halted refused => exact .inl rfl
  | unplanned plan => exact .inl rfl
  | ended plan all => exact .inr ⟨rfl, _, plan⟩
  | interrupted plan all interrupted => exact .inr ⟨rfl, _, plan⟩
  | finished plan all answered => exact .inr ⟨rfl, _, plan⟩

/-- Turns are taken one after another, if any is, and an error that ends them ends the migration. -/
theorem triedAll (h : Followed m source outcome planned tried) :
    tried = [] ∨ ∃ result, TriedAll m (Plan.turns m source) tried result ∧
      ∀ e, result = .error e → outcome = .error e := by
  cases h with
  | refused halted refused => exact .inl rfl
  | unplanned plan => exact .inl rfl
  | ended plan all => exact .inr ⟨_, all, fun e he => congrArg _ (Except.error.inj he)⟩
  | interrupted plan all interrupted => exact .inr ⟨_, all, fun e he => by cases he⟩
  | finished plan all answered => exact .inr ⟨_, all, fun e he => by cases he⟩

theorem isPrefix (h : Followed m source outcome planned tried) :
    tried.map (·.turn) <+: Plan.turns m source := by
  obtain rfl | ⟨result, hall, -⟩ := h.triedAll
  · exact List.nil_prefix
  · exact hall.isPrefix

theorem fates (h : Followed m source outcome planned tried) :
    ∀ t ∈ tried, Fate m t.turn t.log t.failure := by
  obtain rfl | ⟨result, hall, -⟩ := h.triedAll
  · exact List.forall_mem_nil _
  · exact hall.fates

theorem failures (h : Followed m source outcome planned tried) {t : Tried} (ht : t ∈ tried)
    {e : MigrationError} (he : t.failure = some e) :
    Run.passesOver m e = true ∨ tried.getLast? = some t ∧ outcome = .error e := by
  obtain rfl | ⟨result, hall, herror⟩ := h.triedAll
  · exact absurd ht List.not_mem_nil
  · exact (hall.failures ht he).imp_right (And.imp_right (herror e))

/-- A migration that ends with a report has taken all turns, and lists those that failed. -/
theorem reported {report : Report} (h : Followed m source (.ok report) planned tried) :
    tried.map (·.turn) = Plan.turns m source ∧
      report.skippedModules = tried.filterMap Tried.skipped? := by
  cases h with
  | finished plan all answered => exact all.ok

end Followed

/-- What a migration sent is what its plan sent and what each turn sent that was taken. -/
theorem migrate_followed {σ : Type} (m : RunSettings) (source : Source) (target : Target σ)
    (pace : Pace) (start : DateTime) (initial : σ) :
    let migrated := migrate m source target pace start initial
    ∃ (planned : List Answered) (tried : List Tried),
      target.log initial migrated.1.sent.toList = planned ++ tried.flatMap (·.log) ∧
        Followed m source migrated.2 planned tried := by
  obtain ⟨planned, hplanned, hhalted, hnone⟩ := Run.takeAll_logged target pace
    { state := initial } (Plan.ofSource m source).steps
  -- the answers are those to the operations sent from the initial state
  have hlog {after : Run σ} {log : List Answered}
      (hlogged : Run.Logged target { state := initial } after log) :
      target.log initial after.sent.toList = log := by
    rw [hlogged.sent]
    exact hlogged.answers
  dsimp only
  rw [migrate, Run.follow]
  rcases htaken : Run.takeAll target pace { state := initial } (Plan.ofSource m source).steps with
    ⟨after, _ | e⟩
  · rw [htaken] at hplanned hnone
    obtain rfl := hnone.mp rfl
    rcases hplan : (Plan.ofSource m source).outcome with e | ⟨schemas, attempts⟩
    · exact ⟨_, [], by simpa using hlog hplanned, .unplanned hplan⟩
    · obtain ⟨tried, hturns, hall⟩ := Run.tryAll_tried m target pace after (Plan.turns m source)
      rw [← Plan.ofSource_turns hplan] at hturns hall
      dsimp only
      rcases htried : after.tryAll m target pace attempts.list with ⟨final, e | skipped⟩
      · rw [htried] at hturns hall
        exact ⟨_, tried, hlog (hplanned.append hturns), .ended hplan hall⟩
      · rw [htried] at hturns hall
        dsimp only
        cases hends : attempts.interruption with
        | some e => exact ⟨_, tried, hlog (hplanned.append hturns), .interrupted hplan hall hends⟩
        | none => exact ⟨_, tried, hlog (hplanned.append hturns), .finished hplan hall hends⟩
  · rw [htaken] at hplanned hnone
    refine ⟨planned, [], by simpa using hlog hplanned, .refused hhalted ?_⟩
    by_contra hall
    simp only [not_exists, not_and, not_not] at hall
    exact absurd (hnone.mpr (hhalted.eq_of_accepted hall)) (by simp)

end Migration
