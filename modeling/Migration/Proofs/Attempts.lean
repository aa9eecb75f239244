import Migration.Proofs.Agreement
import Migration.Proofs.Drafting
import Migration.Proofs.StepRun

/-
  The attempts at modules, and runs that come to them.

  A module is attempted with the renamings that the modules before it left, and adds
  its own name before its definition is rewritten. This file

  1. says what comes of one module (`ModuleDrafted`, `moduleDraft_cases`);
  2. has the attempts of a plan as a chain, each link a module with the ledger before
     and after it (`Attempted`, `attemptAll_attempted`), and what the ledger holds at
     each link (`Attempted.holds`);
  3. inverts runs: what a run that passes all modules did with each (`tryAll_ok`), and
     where the error of a run comes from (`follow_report`, `follow_error`). -/

namespace Migration

open Naming (Ledger Key NamingPolicy)

/-! ## One module -/

/-- The key of the name of a module. -/
def Module.key (x : Module) : Key := (x.schema, x.kind.objectKind, x.name)

namespace Plan

variable {m : RunSettings} {source : Source} {reserved : List String} {l l' : Ledger}

/-- The ledger after a module is named: the one before it, with the name of the module. -/
structure Named (m : RunSettings) (x : Module) (l l' : Ledger) : Prop where
  names : ∃ name, m.policy.Names x.key name
  follows : l'.Follows m.policy
  holds : ∀ key, l'.Holds key ↔ l.Holds key ∨ key = x.key

/-- What comes of a module. -/
inductive ModuleDrafted (m : RunSettings) (reserved : List String) (x : Module) (l : Ledger) :
    Drafted Unit → Prop where
  /-- The policy has no name for it. -/
  | unnamed {e : MigrationError} (refused : m.policy.apply x.kind.objectKind x.name = .error e) :
      ModuleDrafted m reserved x l ⟨[], l, .error e⟩
  /-- It is a view whose name cannot be written. -/
  | unwritable {l' : Ledger} {e : MigrationError} (named : Named m x l l')
      (refused : ∃ schema name, Statement.dropView schema name = .error e) :
      ModuleDrafted m reserved x l ⟨[], l', .error e⟩
  /-- Its definition cannot be rewritten. -/
  | unreadable {l' : Ledger} {before : List Step} {e : MigrationError} (named : Named m x l l')
      (refused : substituteNames x.definition l' reserved = .error e) :
      ModuleDrafted m reserved x l ⟨before, l', .error e⟩
  /-- Its definition is rewritten with the ledger that has its name. -/
  | rewritten {l' : Ledger} {before : List Step} {text : String} (named : Named m x l l')
      (written : substituteNames x.definition l' reserved = .ok text) :
      ModuleDrafted m reserved x l ⟨before ++ [.execute text], l', .ok ()⟩

theorem rename_module {x : Module} {target : Naming.TargetName} (hl : l.Follows m.policy)
    (happly : m.policy.apply x.kind.objectKind x.name = .ok target) :
    ∃ l', Named m x l l' ∧
      Draft.rename (m.policy.rename x.schema x.kind.objectKind x.name) l =
        ⟨[], l', .ok target.name⟩ := by
  let r : Naming.Renaming :=
    ⟨x.schema, x.kind.objectKind, x.name, target.name, target.normalized⟩
  have hmakes : m.policy.Makes r := happly
  have hall : ∀ s ∈ [r], m.policy.Makes s := fun s hs => List.mem_singleton.mp hs ▸ hmakes
  obtain ⟨l', hrecord, hfollows, hholds⟩ := hl.recordAll hall
  refine ⟨l', ⟨⟨target.name, hmakes.names⟩, hfollows, fun key => ?_⟩, ?_⟩
  · rw [hholds, List.map_singleton, List.mem_singleton]
    rfl
  · have hrename : (m.policy.rename x.schema x.kind.objectKind x.name : Outcome _) =
        .ok ⟨target.name, [r]⟩ := by
      rw [NamingPolicy.rename, happly]
    simp only [Draft.rename, hrename, hrecord]
    rfl

/-- Once a module is named, what comes of it is up to its definition. -/
theorem moduleDrafted_of_rewriting {x : Module} (named : Named m x l l') (before : List Step) :
    let d := Draft.execute (substituteNames x.definition l' reserved) l'
    ModuleDrafted m reserved x l ⟨before ++ d.steps, d.ledger, d.outcome⟩ := by
  cases hwritten : substituteNames x.definition l' reserved with
  | error e => exact .unreadable named hwritten
  | ok text => exact .rewritten named hwritten

theorem moduleDraft_cases (targetSchema : String) (reserved : List String) (x : Module)
    (hl : l.Follows m.policy) :
    ModuleDrafted m reserved x l (moduleDraft m targetSchema reserved x l) := by
  cases happly : m.policy.apply x.kind.objectKind x.name with
  | error e =>
    have hdraft : moduleDraft m targetSchema reserved x l = ⟨[], l, .error e⟩ := by
      simp only [moduleDraft, bind, Draft.andThen, Draft.rename, NamingPolicy.rename, happly]
    exact hdraft ▸ .unnamed happly
  | ok target =>
    obtain ⟨l', hnamed, hrename⟩ := rename_module hl happly
    by_cases hview : x.kind = .view
    · cases hdrop : Statement.dropView targetSchema target.name with
      | error e =>
        have hdraft : moduleDraft m targetSchema reserved x l = ⟨[], l', .error e⟩ := by
          simp only [moduleDraft, bind, Draft.andThen, hrename, if_pos hview, hdrop, Draft.execute,
            List.nil_append]
        exact hdraft ▸ .unwritable hnamed ⟨_, _, hdrop⟩
      | ok drop =>
        have hdraft : moduleDraft m targetSchema reserved x l =
            Draft.andThen (.take [.execute drop])
              (fun _ => .execute (substituteNames x.definition l' reserved)) l' := by
          simp only [moduleDraft, bind, Draft.andThen, hrename, if_pos hview, hdrop]
          rfl
        exact hdraft ▸ moduleDrafted_of_rewriting hnamed [.execute drop]
    · have hdraft : moduleDraft m targetSchema reserved x l =
          Draft.execute (substituteNames x.definition l' reserved) l' := by
        simp only [moduleDraft, bind, Draft.andThen, hrename, if_neg hview]
        rfl
      exact hdraft ▸ moduleDrafted_of_rewriting hnamed []

/-- The ledger after a module follows the policy, and holds the name of the module if it has one. -/
theorem ModuleDrafted.holds {x : Module} {d : Drafted Unit} (h : ModuleDrafted m reserved x l d)
    (hl : l.Follows m.policy) :
    d.ledger.Follows m.policy ∧ ∀ key, d.ledger.Holds key ↔
      l.Holds key ∨ key = x.key ∧ ∃ name, m.policy.Names key name := by
  have hnamed {l' : Ledger} (named : Named m x l l') :
      l'.Follows m.policy ∧ ∀ key, l'.Holds key ↔
        l.Holds key ∨ key = x.key ∧ ∃ name, m.policy.Names key name := by
    refine ⟨named.follows, fun key => ?_⟩
    rw [named.holds]
    refine or_congr_right ⟨?_, And.left⟩
    rintro rfl
    exact ⟨rfl, named.names⟩
  cases h with
  | unnamed refused =>
    refine ⟨hl, fun key => (or_iff_left ?_).symm⟩
    rintro ⟨rfl, name, normalized, hname⟩
    rw [show m.policy.apply x.key.2.1 x.key.2.2 = _ from refused] at hname
    cases hname
  | unwritable named refused => exact hnamed named
  | unreadable named refused => exact hnamed named
  | rewritten named written => exact hnamed named

/-! ## One module after another -/

/-- Attempts at modules in order, each with the ledger that the one before it left. -/
inductive Attempted (m : RunSettings) (reserved : List String) :
    Ledger → List Attempt → Ledger → Prop where
  | nil {l : Ledger} : Attempted m reserved l [] l
  | cons {l mid last : Ledger} {a : Attempt} {rest : List Attempt} (targetSchema : String)
      (head : moduleDraft m targetSchema reserved a.module l = ⟨a.steps, mid, a.outcome⟩)
      (tail : Attempted m reserved mid rest last) : Attempted m reserved l (a :: rest) last

theorem Attempted.append {first second : List Attempt} {l mid last : Ledger}
    (h : Attempted m reserved l first mid) (h' : Attempted m reserved mid second last) :
    Attempted m reserved l (first ++ second) last := by
  induction h with
  | nil => exact h'
  | cons targetSchema head tail ih => exact .cons targetSchema head (ih h')

theorem Attempted.split {first second : List Attempt} {l last : Ledger}
    (h : Attempted m reserved l (first ++ second) last) :
    ∃ mid, Attempted m reserved l first mid ∧ Attempted m reserved mid second last := by
  induction first generalizing l with
  | nil => exact ⟨l, .nil, h⟩
  | cons a first ih =>
    cases h with
    | cons targetSchema head tail =>
      obtain ⟨mid, hfirst, hsecond⟩ := ih tail
      exact ⟨mid, .cons targetSchema head hfirst, hsecond⟩

theorem attemptListed_attempted (targetSchema : String) (kind : ModuleKind) (modules : List Module)
    (l : Ledger) :
    Attempted m reserved l (attemptListed m targetSchema reserved kind modules l).1
      (attemptListed m targetSchema reserved kind modules l).2 := by
  induction modules generalizing l with
  | nil => exact .nil
  | cons x rest ih => exact .cons targetSchema rfl (ih _)

theorem attemptAll_attempted (listings : List (PlannedSchema × ModuleKind)) (l : Ledger) :
    Attempted m reserved l (attemptAll m source reserved listings l).list
      (attemptAll m source reserved listings l).ledger := by
  induction listings generalizing l with
  | nil => exact .nil
  | cons listing rest ih =>
    rw [attemptAll]
    split
    · exact .nil
    · exact (attemptListed_attempted _ _ _ l).append (ih _)

theorem ofSource_ok {schemas : List PlannedSchema} {attempts : Attempts}
    (h : (Plan.ofSource m source).outcome = .ok (schemas, attempts)) :
    ∃ steps planned, schemasDraft m source .empty = ⟨steps, planned, .ok schemas⟩ ∧
      (Plan.ofSource m source).steps = steps ∧
      attempts = attemptAll m source (schemas.map (·.target)) (listings schemas) planned := by
  rcases hdrafted : schemasDraft m source .empty with ⟨steps, planned, outcome⟩
  simp only [Plan.ofSource, hdrafted] at h ⊢
  cases outcome with
  | error e => cases h
  | ok planned' =>
    cases h
    exact ⟨steps, planned, rfl, rfl, rfl⟩

theorem ofSource_error {e : MigrationError} (h : (Plan.ofSource m source).outcome = .error e) :
    (schemasDraft m source .empty).outcome = .error e := by
  rcases hdrafted : schemasDraft m source .empty with ⟨steps, planned, outcome⟩
  simp only [Plan.ofSource, hdrafted] at h
  cases outcome with
  | error e' =>
    cases h
    rfl
  | ok schemas => cases h

/-- After attempts the ledger follows the policy, and holds the names of the modules that have one
beside what it held before. -/
theorem Attempted.holds {attempts : List Attempt} {l last : Ledger}
    (h : Attempted m reserved l attempts last) (hl : l.Follows m.policy) :
    last.Follows m.policy ∧ ∀ key, last.Holds key ↔ l.Holds key ∨
      ∃ a ∈ attempts, key = a.module.key ∧ ∃ name, m.policy.Names key name := by
  induction h with
  | nil => exact ⟨hl, by simp⟩
  | @cons l mid last a rest targetSchema head tail ih =>
    have hone := (moduleDraft_cases targetSchema reserved a.module hl).holds hl
    rw [head] at hone
    obtain ⟨hfollows, hholds⟩ := ih hone.1
    refine ⟨hfollows, fun key => ?_⟩
    rw [hholds, hone.2, or_assoc, List.exists_mem_cons_iff]

theorem Attempted.drafted {attempts : List Attempt} {l last : Ledger}
    (h : Attempted m reserved l attempts last) (hl : l.Follows m.policy) {a : Attempt}
    (ha : a ∈ attempts) :
    ∃ before after, before.Follows m.policy ∧
      ModuleDrafted m reserved a.module before ⟨a.steps, after, a.outcome⟩ := by
  induction h with
  | nil => exact absurd ha List.not_mem_nil
  | @cons l mid last b rest targetSchema head tail ih =>
    have hcases := moduleDraft_cases targetSchema reserved b.module hl
    rw [head] at hcases
    rcases List.mem_cons.mp ha with rfl | ha
    · exact ⟨l, mid, hl, hcases⟩
    · exact ih (hcases.holds hl).1 ha

end Plan

/-! ## Runs -/

namespace Run

variable {σ : Type} {m : RunSettings} {target : Target σ} {pace : Pace} {r final : Run σ}

/-- The error of a step whose operation the target refuses in some state. -/
def Refuses (target : Target σ) (e : MigrationError) : Prop :=
  ∃ (s : Step) (op : Operation) (state : σ) (cause : MigrationError), s.operation? = some op ∧
    (target.respond state op).2 = some cause ∧ e = s.failure cause

theorem takeAll_refuses {steps : List Step} {e : MigrationError}
    (h : r.takeAll target pace steps = (final, some e)) : Refuses target e := by
  obtain ⟨taken, s, rest, mid, -, -, hlast⟩ := takeAll_some_iff.mp h
  obtain ⟨op, cause, hop, hcause, he, -⟩ := take_some hlast
  exact ⟨s, op, mid.state, cause, hop, hcause, he⟩

theorem passesOver_of_not_skipping (h : m.skipFailedModules = false) (e : MigrationError) :
    passesOver m e = false := by
  rw [passesOver, h, Bool.false_and]

theorem tryAttempt_none {a : Plan.Attempt} (h : r.tryAttempt target pace a = (final, none)) :
    Taken target pace r a.steps final ∧ a.outcome = .ok () := by
  unfold tryAttempt at h
  split at h
  · cases h
  · rename_i after htaken
    split at h
    · cases h
    · rename_i houtcome
      cases h
      exact ⟨takeAll_none_iff.mp htaken, houtcome⟩

theorem tryAttempt_some {a : Plan.Attempt} {e : MigrationError}
    (h : r.tryAttempt target pace a = (final, some e)) :
    Refuses target e ∨ a.outcome = .error e := by
  unfold tryAttempt at h
  split at h
  · rename_i htaken
    cases h
    exact .inl (takeAll_refuses htaken)
  · split at h
    · rename_i houtcome
      cases h
      exact .inr houtcome
    · cases h

theorem tryAttempt_fst (r : Run σ) (a : Plan.Attempt) :
    (r.tryAttempt target pace a).1 = (r.takeAll target pace a.steps).1 := by
  unfold tryAttempt
  rcases r.takeAll target pace a.steps with ⟨after, _ | e⟩
  · cases a.outcome <;> rfl
  · rfl

/-- What holds between a run and itself, from one run to the next and the one after, and around each
attempt, holds around the attempts at all modules. -/
theorem tryAll_relates {R : Run σ → Run σ → Prop} {attempts : List Plan.Attempt}
    (refl : ∀ r, R r r) (trans : ∀ {r mid after}, R r mid → R mid after → R r after)
    (attempt : ∀ a ∈ attempts, ∀ r, R r (r.tryAttempt target pace a).1) (r : Run σ) :
    R r (r.tryAll m target pace attempts).1 := by
  induction attempts generalizing r with
  | nil => exact refl r
  | cons a rest ih =>
    obtain ⟨hattempt, hrest⟩ := List.forall_mem_cons.mp attempt
    have hfirst := hattempt r
    rcases htried : r.tryAttempt target pace a with ⟨after, error⟩
    rw [htried] at hfirst
    -- the run goes on after an attempt that did not fail, and after one that is passed over
    have hgoesOn : R r (after.tryAll m target pace rest).1 := trans hfirst (ih hrest after)
    rw [tryAll, htried]
    cases error with
    | none => exact hgoesOn
    | some e =>
      by_cases hpassed : passesOver m e = true
      · simp only [if_pos hpassed]
        exact hgoesOn
      · simp only [if_neg hpassed]
        exact hfirst

theorem tryAll_preserves {I : Run σ → Prop} {attempts : List Plan.Attempt}
    (step : ∀ a ∈ attempts, ∀ s ∈ a.steps, ∀ r, I r → I (r.take target pace s).1) {r : Run σ}
    (h : I r) : I (r.tryAll m target pace attempts).1 := by
  refine tryAll_relates (R := fun r after => I r → I after) (fun _ h => h)
    (fun h h' hr => h' (h hr)) (fun a ha r hr => ?_) r h
  rw [tryAttempt_fst]
  exact takeAll_preserves (step a ha) hr

theorem tryAll_sent (attempts : List Plan.Attempt) (r : Run σ) :
    ∃ more, (r.tryAll m target pace attempts).1.sent.toList = r.sent.toList ++ more ∧
      ∀ op ∈ more, ∃ a ∈ attempts, op ∈ operations a.steps := by
  let R (r after : Run σ) : Prop := ∃ more, after.sent.toList = r.sent.toList ++ more ∧
    ∀ op ∈ more, ∃ a ∈ attempts, op ∈ operations a.steps
  have htrans {r mid after : Run σ} (hfirst : R r mid) (hsecond : R mid after) : R r after := by
    obtain ⟨first, hfirst, hof⟩ := hfirst
    obtain ⟨second, hsecond, hof'⟩ := hsecond
    refine ⟨first ++ second, by rw [hsecond, hfirst, List.append_assoc], ?_⟩
    exact List.forall_mem_append.mpr ⟨hof, hof'⟩
  refine tryAll_relates (R := R) (fun r => ⟨[], by simp⟩) htrans (fun a ha r => ?_) r
  obtain ⟨more, hmore, hsteps⟩ := @takeAll_sent σ target pace r a.steps
  rw [← tryAttempt_fst] at hmore
  exact ⟨more, hmore, fun op hop => ⟨a, ha, hsteps.subset hop⟩⟩

/-- The module of an attempt is among those that were passed over. -/
def PassedOver (skipped : List SkippedModule) (a : Plan.Attempt) : Prop :=
  ∃ s ∈ skipped, s.schema = a.module.schema ∧ s.name = a.module.name ∧ s.kind = a.kind

/-- Where all modules are passed, each was made by all its operations, or is passed over. -/
theorem tryAll_ok {attempts : List Plan.Attempt} {skipped : List SkippedModule}
    (h : r.tryAll m target pace attempts = (final, .ok skipped)) :
    ∀ a ∈ attempts, PassedOver skipped a ∨
      a.outcome = .ok () ∧ operations a.steps ⊆ final.sent.toList := by
  induction attempts generalizing r skipped with
  | nil => simp
  | cons a rest ih =>
    obtain ⟨more, hmore, -⟩ := @tryAll_sent σ m target pace rest (r.tryAttempt target pace a).1
    rw [tryAll] at h
    split at h
    · -- the attempt succeeds, and what it sent is still there at the end
      rename_i after htried
      rw [htried, h] at hmore
      obtain ⟨htaken, houtcome⟩ := tryAttempt_none htried
      refine List.forall_mem_cons.mpr ⟨.inr ⟨houtcome, fun op hop => ?_⟩, ih h⟩
      rw [hmore, htaken.sent]
      exact List.mem_append_left _ (List.mem_append_right _ hop)
    · rename_i after e htried
      split at h
      · obtain ⟨hfinal, hskipped⟩ := Prod.mk.inj h
        cases hlater : (after.tryAll m target pace rest).2 with
        | error e' =>
          rw [hlater] at hskipped
          cases hskipped
        | ok skipped' =>
          rw [hlater] at hskipped
          obtain rfl := Except.ok.inj hskipped
          refine List.forall_mem_cons.mpr ⟨.inl ⟨_, List.mem_cons_self, rfl, rfl, rfl⟩, ?_⟩
          intro b hb
          refine (ih (Prod.ext hfinal hlater) b hb).imp_left ?_
          rintro ⟨s, hs, hsame⟩
          exact ⟨s, List.mem_cons_of_mem _ hs, hsame⟩
      · cases h

theorem tryAll_error {attempts : List Plan.Attempt} {e : MigrationError}
    (h : r.tryAll m target pace attempts = (final, .error e)) :
    Refuses target e ∨ ∃ a ∈ attempts, a.outcome = .error e := by
  induction attempts generalizing r with
  | nil => cases h
  | cons a rest ih =>
    have hlater {after : Run σ} (h : after.tryAll m target pace rest = (final, .error e)) :
        Refuses target e ∨ ∃ x ∈ a :: rest, x.outcome = .error e :=
      (ih h).imp_right fun ⟨x, hx, hxe⟩ => ⟨x, List.mem_cons_of_mem _ hx, hxe⟩
    rw [tryAll] at h
    split at h
    · exact hlater h
    · rename_i after e' htried
      split at h
      · obtain ⟨hfinal, herror⟩ := Prod.mk.inj h
        refine hlater (Prod.ext hfinal ?_)
        cases hrest : (after.tryAll m target pace rest).2 with
        | error e'' => rw [hrest] at herror; exact herror
        | ok skipped => rw [hrest] at herror; cases herror
      · cases h
        exact (tryAttempt_some htried).imp_right fun houtcome => ⟨a, List.mem_cons_self, houtcome⟩

/-- A run that ends with a report: the steps of its plan are taken, then all modules are passed. -/
theorem follow_report {start : DateTime} {p : Plan} {report : Report}
    (h : r.follow m target pace start p = (final, .ok report)) :
    ∃ mid schemas attempts skipped, Taken target pace r p.steps mid ∧
      p.outcome = .ok (schemas, attempts) ∧
      mid.tryAll m target pace attempts.list = (final, .ok skipped) ∧
      attempts.interruption = none ∧
      report = { startedAt := start, elapsed := final.elapsed,
                 schemas := schemas.map (·.target), tables := schemas.flatMap (·.tables),
                 skippedModules := skipped, renamings := attempts.ledger.toList } := by
  unfold follow at h
  split at h
  · cases h
  · rename_i mid htaken
    split at h
    · cases h
    · rename_i schemas attempts houtcome
      split at h
      · cases h
      · rename_i last skipped htried
        split at h
        · cases h
        · rename_i hgoesOn
          obtain ⟨rfl, hreport⟩ := Prod.mk.inj h
          exact ⟨mid, schemas, attempts, skipped, takeAll_none_iff.mp htaken, houtcome, htried,
            hgoesOn, (Except.ok.inj hreport).symm⟩

theorem follow_preserves {I : Run σ → Prop} {start : DateTime} {p : Plan}
    (step : ∀ s ∈ p.steps, ∀ r, I r → I (r.take target pace s).1)
    (attempt : ∀ schemas attempts, p.outcome = .ok (schemas, attempts) →
      ∀ a ∈ attempts.list, ∀ s ∈ a.steps, ∀ r, I r → I (r.take target pace s).1)
    (h : I r) : I (r.follow m target pace start p).1 := by
  have hplanned : I (r.takeAll target pace p.steps).1 := takeAll_preserves step h
  unfold follow
  split
  · rename_i htaken
    rw [htaken] at hplanned
    exact hplanned
  · rename_i mid htaken
    rw [htaken] at hplanned
    split
    · exact hplanned
    · rename_i schemas attempts houtcome
      have htried : I (mid.tryAll m target pace attempts.list).1 :=
        tryAll_preserves (attempt schemas attempts houtcome) hplanned
      split
      · rename_i hlast
        rw [hlast] at htried
        exact htried
      · rename_i hlast
        rw [hlast] at htried
        split
        · exact htried
        · exact htried

/-- A run that ends with an error has it from the target, from its plan, or from a module. -/
theorem follow_error {start : DateTime} {p : Plan} {e : MigrationError}
    (h : r.follow m target pace start p = (final, .error e)) :
    Refuses target e ∨ p.outcome = .error e ∨
      ∃ schemas attempts, p.outcome = .ok (schemas, attempts) ∧
        (attempts.interruption = some e ∨ ∃ a ∈ attempts.list, a.outcome = .error e) := by
  unfold follow at h
  split at h
  · rename_i htaken
    cases h
    exact .inl (takeAll_refuses htaken)
  · split at h
    · rename_i houtcome
      cases h
      exact .inr (.inl houtcome)
    · rename_i schemas attempts houtcome
      split at h
      · rename_i htried
        cases h
        refine (tryAll_error htried).imp_right fun ha => ?_
        exact .inr ⟨schemas, attempts, houtcome, .inr ha⟩
      · split at h
        · rename_i hinterrupted
          cases h
          exact .inr (.inr ⟨schemas, attempts, houtcome, .inl hinterrupted⟩)
        · cases h

end Run

end Migration
