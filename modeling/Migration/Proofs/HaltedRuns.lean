import Migration.Memory.Catalog
import Migration.Memory.Store
import Migration.Proofs.AnswerLog
import Migration.Proofs.Attempts

/-
  Migrations in which no module is passed over.

  Such a migration halts at whatever fails first, so its plan is one list of steps, of
  which a target only decides how many are taken. This file

  1. lists these steps: those of the plan, then those of its modules up to the first that
     fails of itself (`Plan.stepsThroughout`);
  2. proves that a run that passes over no module takes them like any other steps
     (`Run.follow_stepsThroughout`);
  3. concludes that what is sent to a target is the start of what is sent to one that
     accepts everything, up to the first refusal (`migrate_sent_isPrefix`). -/

namespace Migration

/-! ## The steps of a plan as one list -/

namespace Plan

/-- The steps of attempts up to the first that fails of itself. -/
def stepsUntilFailure : List Attempt → List Step
  | [] => []
  | a :: rest =>
    a.steps ++
      match a.outcome with
      | .ok _ => stepsUntilFailure rest
      | .error _ => []

end Plan

/-- The steps of a plan and of its modules, where none of these may fail. -/
def Plan.stepsThroughout (p : Plan) : List Step :=
  p.steps ++
    match p.outcome with
    | .ok (_, attempts) => stepsUntilFailure attempts.list
    | .error _ => []

namespace Run

variable {σ : Type} {m : RunSettings} (target : Target σ) (pace : Pace)

/-- Where no module is passed over, the steps of the modules are taken like any others. -/
theorem tryAll_stepsUntilFailure (hskip : m.skipFailedModules = false) (r : Run σ)
    (attempts : List Plan.Attempt) :
    (r.tryAll m target pace attempts).1 =
        (r.takeAll target pace (Plan.stepsUntilFailure attempts)).1 ∧
      ∀ e, (r.takeAll target pace (Plan.stepsUntilFailure attempts)).2 = some e →
        (r.tryAll m target pace attempts).2 = .error e := by
  induction attempts generalizing r with
  | nil => exact ⟨rfl, fun e h => by cases h⟩
  | cons a rest ih =>
    rw [Plan.stepsUntilFailure, takeAll_append, tryAll, tryAttempt]
    rcases htaken : r.takeAll target pace a.steps with ⟨after, _ | e⟩
    · cases houtcome : a.outcome with
      | ok done => exact ih after
      | error e =>
        simp only [passesOver_of_not_skipping hskip, Bool.false_eq_true, if_false]
        exact ⟨rfl, fun e h => by cases h⟩
    · simp only [passesOver_of_not_skipping hskip, Bool.false_eq_true, if_false]
      exact ⟨trivial, fun e' h => congrArg _ (Option.some.inj h)⟩

theorem follow_stepsThroughout (hskip : m.skipFailedModules = false) (r : Run σ) (start : DateTime)
    (p : Plan) :
    (r.follow m target pace start p).1 = (r.takeAll target pace p.stepsThroughout).1 ∧
      ∀ e, (r.takeAll target pace p.stepsThroughout).2 = some e →
        (r.follow m target pace start p).2 = .error e := by
  rw [Plan.stepsThroughout, takeAll_append, follow]
  rcases htaken : r.takeAll target pace p.steps with ⟨after, _ | e⟩
  · cases houtcome : p.outcome with
    | error e => exact ⟨rfl, fun e h => by cases h⟩
    | ok planned =>
      obtain ⟨schemas, attempts⟩ := planned
      obtain ⟨hrun, herror⟩ :=
        tryAll_stepsUntilFailure target pace hskip after attempts.list
      dsimp only
      rcases htried : after.tryAll m target pace attempts.list with ⟨final, e | skipped⟩
      · rw [htried] at hrun herror
        exact ⟨hrun, fun e' h => congrArg _ (Except.error.inj (herror e' h))⟩
      · rw [htried] at hrun herror
        -- modules that are all passed took all their steps
        refine ⟨?_, fun e h => by cases herror e h⟩
        rw [← hrun]
        cases attempts.interruption <;> rfl
  · exact ⟨rfl, fun e' h => congrArg _ (Option.some.inj h)⟩

end Run

/-! ## Two runs of one migration -/

/-- Where no module is passed over, a migration sends to any target a start of what it sends to one
that accepts everything: all of it if nothing is refused, and otherwise up to the first operation
that is refused, and then the migration fails. -/
theorem migrate_sent_isPrefix {σ τ : Type} {m : RunSettings} (source : Source) (target : Target σ)
    {accepting : Target τ} (pace pace' : Pace) (start start' : DateTime) (initial : σ)
    (initial' : τ) (hskip : m.skipFailedModules = false) (haccepts : accepting.AcceptsAll) :
    let migrated := migrate m source target pace start initial
    let sent := migrated.1.sent.toList
    let whole := (migrate m source accepting pace' start' initial').1.sent.toList
    let log := target.log initial sent
    sent <+: whole ∧
      (∀ entry ∈ log.dropLast, entry.2 = none) ∧
      ((∀ entry ∈ log, entry.2 = none) → sent = whole) ∧
      ((∃ entry ∈ log, entry.2 ≠ none) → ∃ e, migrated.2 = .error e) := by
  intro migrated sent whole log
  let p := Plan.ofSource m source
  obtain ⟨hrun, herror⟩ := Run.follow_stepsThroughout target pace hskip
    { state := initial } start p
  obtain ⟨hwhole, -⟩ := Run.follow_stepsThroughout accepting pace' hskip
    { state := initial' } start' p
  obtain ⟨entries, hlogged, hhalted, hnone⟩ := Run.takeAll_logged target pace
    { state := initial } p.stepsThroughout
  obtain ⟨entries', hlogged', hhalted', -⟩ := Run.takeAll_logged accepting pace'
    { state := initial' } p.stepsThroughout
  rw [← hrun] at hlogged
  rw [← hwhole] at hlogged'
  have hsent : sent = sentIn entries := hlogged.sent
  have hlog : log = entries := (congrArg (target.log initial) hsent).trans hlogged.answers
  -- what accepts everything is sent all operations of the plan
  have hall : whole = operations p.stepsThroughout := by
    have hanswers := hlogged'.answers
    rw [Target.log_of_acceptsAll _ haccepts] at hanswers
    have haccepted : ∀ entry ∈ entries', entry.2 = none := by
      rw [← hanswers]
      exact fun entry => accepted_of_mem_acceptedLog
    have hsent' : whole = sentIn entries' := hlogged'.sent
    rw [hsent', hhalted'.eq_of_accepted haccepted, sentIn_acceptedLog]
  rw [hlog, hsent, hall]
  refine ⟨hhalted.isPrefix, hhalted.accepted_dropLast, fun haccepted => ?_, ?_⟩
  · rw [hhalted.eq_of_accepted haccepted, sentIn_acceptedLog]
  · rintro ⟨entry, hentry, hrefused⟩
    cases herror' : (Run.takeAll target pace { state := initial } p.stepsThroughout).2 with
    | some e => exact ⟨e, herror e herror'⟩
    | none =>
      rw [hnone.mp herror'] at hentry
      exact absurd (accepted_of_mem_acceptedLog hentry) hrefused

theorem Memory.acceptsAll_target : (Memory.target {}).AcceptsAll := by
  intro s op
  cases op with
  | execute sql => rfl
  | begin => rfl
  | insert sql row => rfl
  | commit => rfl

/-- A source with one table of two rows, and a view. -/
def rowsAndView : Memory.Catalog :=
  { schemas := [{
      name := "dbo"
      tables := [{ name := "Orders", columns := [{ name := "Id", type := some .int32 }],
                   rows := [[.int32 1], [.int32 2]] }]
      modules := [{ schema := "dbo", name := "Recent", kind := .view,
                    definition := "CREATE VIEW Recent AS SELECT Id FROM Orders" }] }] }

/-- What is sent when its migration passes over no module. -/
def rowsAndViewSent (f : Memory.Faults) : List Operation :=
  (migrate { skipFailedModules := false } rowsAndView.source (Memory.target f) {}
    (DateTime.ofNanos 0) {}).1.sent.toList

set_option maxRecDepth 100000 in
/-- A migration to which `migrate_sent_isPrefix` applies: the second row is refused, and what
follows it is not sent. -/
theorem second_insert_ends_migration :
    (Memory.target {}).AcceptsAll ∧
      rowsAndViewSent { insert := some 2 } <+: rowsAndViewSent {} ∧
      (rowsAndViewSent { insert := some 2 }).length = 8 ∧ (rowsAndViewSent {}).length = 13 ∧
      ∃ e, (migrate { skipFailedModules := false } rowsAndView.source
        (Memory.target { insert := some 2 }) {} (DateTime.ofNanos 0) {}).2 = .error e := by
  obtain ⟨hstart, -, -, herror⟩ := migrate_sent_isPrefix rowsAndView.source
    (Memory.target { insert := some 2 }) {} {} (DateTime.ofNanos 0) (DateTime.ofNanos 0) {} {}
    (m := { skipFailedModules := false }) rfl Memory.acceptsAll_target
  have hrefused : ∃ entry ∈ (Memory.target { insert := some 2 }).log {}
      (rowsAndViewSent { insert := some 2 }), entry.2 ≠ none := by decide +kernel
  exact ⟨Memory.acceptsAll_target, hstart, by decide +kernel, by decide +kernel,
    herror hrefused⟩

end Migration
