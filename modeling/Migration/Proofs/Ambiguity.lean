import Migration.Memory.Catalog
import Migration.Memory.Store
import Migration.Proofs.Attempts
import Migration.Proofs.BatchedCopy
import Migration.Proofs.Failures
import Migration.Proofs.Substitution

/-
  Where an ambiguity can come from.

  The error that a name has two target names comes from a ledger that refuses a
  renaming, or from a definition in which a name occurs that the ledger has twice. This
  file

  1. proves that of these a module has only the second (`ModuleDrafted.ambiguous`,
     `ambiguous_substituteNames`);
  2. follows the error of a whole run back to where it came from
     (`ambiguity_of_migrate`);
  3. puts this together with what a ledger makes of the calls of one policy
     (`policy_never_contradicts_itself`). -/

namespace Migration

open Naming (Ledger NamingPolicy Renaming)

/-- The source answers no question with an ambiguity. -/
def Source.Unambiguous (source : Source) : Prop := source.FailsWith fun e => e.isAmbiguous = false

/-! ## Modules -/

namespace Plan

variable {m : RunSettings} {source : Source}

theorem unambiguous_tokenize (sql : String) : Unambiguous (tokenize sql) := by
  have hfrom (pending offset : Nat) (cs : List Char) :
      Unambiguous (tokensFrom pending offset cs) := by
    -- within a token nothing is read; only where one begins can the reading fail
    induction cs generalizing pending offset with
    | nil => cases pending <;> exact failsWith_ok []
    | cons c rest ih =>
      cases pending with
      | succ pending => exact ih pending _
      | zero =>
        rw [tokensFrom]
        split
        · exact failsWith_error rfl
        · rename_i lexeme hscan
          split
          · rename_i e he
            exact failsWith_error (ih _ _ e he)
          · exact failsWith_ok _
  exact hfrom 0 0 sql.toList

/-- The rewriting of a definition is ambiguous where the ledger has two new names for a name in
it. -/
theorem ambiguous_substituteNames {sql : String} {l : Ledger} {reserved : List String}
    {e : MigrationError} (h : substituteNames sql l reserved = .error e)
    (he : e.isAmbiguous = true) :
    ∃ raw first second, Disagrees l raw first second ∧
      e = .ambiguousMapping "" none raw first second := by
  have hrender (name : String) : Unambiguous (renderPg name) := by
    unfold renderPg
    split
    · exact (Statement.unambiguous_validateIdentifier name).bind fun _ => failsWith_ok _
    · exact Statement.unambiguous_quotePg name
  rcases substituteNames_error_iff.mp h with htokens | ⟨_, t, _, _, -, -, hrefused⟩
  · exact (isAmbiguous_false_true (unambiguous_tokenize sql e htokens) he).elim
  · cases hrefused with
    | unnamed identifier missing =>
      cases missing with
      | ambiguous disagree => exact ⟨_, _, _, disagree, rfl⟩
      | tooLong unknown unreserved refused =>
        exact (isAmbiguous_false_true (unambiguous_canonicalize _ e refused) he).elim
    | unwritable identifier found refused =>
      exact (isAmbiguous_false_true (hrender _ e refused) he).elim
    | badAlias literal column refused =>
      exact (isAmbiguous_false_true (Statement.unambiguous_quotePg _ e refused) he).elim

theorem ModuleDrafted.ambiguous {reserved : List String} {x : Module} {l l' : Ledger}
    {steps : List Step} {e : MigrationError}
    (h : ModuleDrafted m reserved x l ⟨steps, l', .error e⟩) (he : e.isAmbiguous = true) :
    substituteNames x.definition l' reserved = .error e := by
  cases h with
  | unnamed refused =>
    exact (isAmbiguous_false_true (unambiguous_apply _ _ e refused) he).elim
  | unwritable named refused =>
    obtain ⟨schema, name, hrefused⟩ := refused
    exact (isAmbiguous_false_true (Statement.unambiguous_dropView schema name e hrefused) he).elim
  | unreadable named refused => exact refused

theorem unambiguous_interruption (hsource : source.Unambiguous) {reserved : List String}
    {listings : List (PlannedSchema × ModuleKind)} {l : Ledger} {e : MigrationError}
    (h : (attemptAll m source reserved listings l).interruption = some e) :
    e.isAmbiguous = false := by
  induction listings generalizing l with
  | nil => cases h
  | cons listing rest ih =>
    rw [attemptAll] at h
    split at h
    · rename_i e' hmodules
      cases h
      exact hsource.modules _ _ e hmodules
    · exact ih h

end Plan

/-! ## Whole runs -/

/-- The target refuses no operation with an ambiguity. -/
def Target.Unambiguous {σ : Type} (target : Target σ) : Prop :=
  ∀ state op e, (target.respond state op).2 = some e → e.isAmbiguous = false

theorem Target.Unambiguous.refuses {σ : Type} {target : Target σ} (h : target.Unambiguous)
    {e : MigrationError} (he : Run.Refuses target e) : e.isAmbiguous = false := by
  obtain ⟨s, op, state, cause, hop, hcause, rfl⟩ := he
  cases s with
  | insert table number sql row => rfl
  | openCursor query => exact h state op cause hcause
  | fetch => exact h state op cause hcause
  | execute sql => exact h state op cause hcause
  | begin => exact h state op cause hcause
  | commit => exact h state op cause hcause
  | report table rows estimated => exact h state op cause hcause

/-- The error says that a ledger has two new names for a name in the definition of a module that
the plan attempts. -/
def AmbiguousDefinition (m : RunSettings) (source : Source) (e : MigrationError) : Prop :=
  ∃ schemas attempts a ledger raw first second,
    (Plan.ofSource m source).outcome = .ok (schemas, attempts) ∧ a ∈ attempts.list ∧
      a.outcome = .error e ∧
      substituteNames a.module.definition ledger (schemas.map (·.target)) = .error e ∧
      Disagrees ledger raw first second ∧ e = .ambiguousMapping "" none raw first second

/-- In a migration an ambiguity comes from the definition of a module. -/
theorem ambiguity_of_migrate {σ : Type} {m : RunSettings} {source : Source} {target : Target σ}
    {pace : Pace} {start : DateTime} {initial : σ} {run : Run σ} {e : MigrationError}
    (hsource : source.Unambiguous) (htarget : target.Unambiguous)
    (h : migrate m source target pace start initial = (run, .error e))
    (he : e.isAmbiguous = true) : AmbiguousDefinition m source e := by
  obtain ⟨hfollows, hdrafted⟩ :=
    Plan.schemasDraft_keeps (fun _ hplain => hplain) hsource .empty (Ledger.follows_empty m.policy)
  rcases Run.follow_error h with hrefused | hplan | ⟨schemas, attempts, houtcome, hattempts⟩
  · exact (isAmbiguous_false_true (htarget.refuses hrefused) he).elim
  · exact (isAmbiguous_false_true (hdrafted e (Plan.ofSource_error hplan)) he).elim
  · obtain ⟨steps, planned, hplanned, -, hattempted⟩ := Plan.ofSource_ok houtcome
    rw [hplanned] at hfollows
    rcases hattempts with hinterrupted | ⟨a, ha, haoutcome⟩
    · rw [hattempted] at hinterrupted
      exact (isAmbiguous_false_true (Plan.unambiguous_interruption hsource hinterrupted) he).elim
    · have hchain :
          Plan.Attempted m (schemas.map (·.target)) planned attempts.list attempts.ledger :=
        hattempted ▸ Plan.attemptAll_attempted _ _
      obtain ⟨before, ledger, -, hmodule⟩ := hchain.drafted hfollows ha
      rw [haoutcome] at hmodule
      have hrefused := hmodule.ambiguous he
      obtain ⟨raw, first, second, hdisagree, rfl⟩ := Plan.ambiguous_substituteNames hrefused he
      exact ⟨schemas, attempts, a, ledger, raw, first, second, houtcome, ha, haoutcome, hrefused,
        hdisagree, rfl⟩

/-! ## Sources and targets in memory -/

theorem Memory.Catalog.unambiguous (c : Memory.Catalog) : c.source.Unambiguous := by
  have hanswer {α : Type} (question : String) (a : α) : Unambiguous (c.answer question a) := by
    unfold Memory.Catalog.answer
    split
    · exact failsWith_error rfl
    · exact failsWith_ok a
  constructor
  all_goals
    intros
    exact hanswer _ _

theorem Memory.target_unambiguous (f : Memory.Faults) : (Memory.target f).Unambiguous := by
  intro state op e h
  rcases respond_cases f state op with ⟨hnone, -⟩ | ⟨statement, message, hsome, -⟩
  · rw [show ((Memory.target f).respond state op).2 = none from hnone] at h
    cases h
  · rw [show ((Memory.target f).respond state op).2 = some _ from hsome] at h
    cases h
    rfl

/-! ## One policy -/

/-- One policy never contradicts itself. The events of any calls of a policy are taken in by an
empty ledger in whatever order, and it has of each key that the calls mention the one name that
their results carry. So a migration is ambiguous only in the definition of a module, where source
and target are not ambiguous themselves. -/
theorem policy_never_contradicts_itself :
    (∀ (policy : NamingPolicy) (calls : List (Naming.Call × List Renaming))
      (events : List Renaming), Naming.CallsOf policy calls → events.Perm (calls.flatMap (·.2)) →
      ∃ ledger, Ledger.empty.recordAll events = (ledger, .ok ()) ∧
        Naming.Records policy calls ledger) ∧
    (∀ (σ : Type) (m : RunSettings) (source : Source) (target : Target σ) (pace : Pace)
      (start : DateTime) (initial : σ) (run : Run σ) (e : MigrationError),
      source.Unambiguous → target.Unambiguous →
      migrate m source target pace start initial = (run, .error e) → e.isAmbiguous = true →
      AmbiguousDefinition m source e) := by
  constructor
  · intro policy calls events hcalls horder
    exact Naming.recordAll_calls hcalls horder
  · intro σ m source target pace start initial run e hsource htarget h he
    exact ambiguity_of_migrate hsource htarget h he

/-- A foreign key into another schema. Its column and the one that it refers to have one name. -/
def orderKey : Constraint where
  schema := "dbo"
  table := "OrderLines"
  name := "FK_Order"
  kind := .foreignKey
  fields := ["OrderId"]
  referencedSchema := some "Sales"
  referencedTable := some "Orders"
  referencedFields := ["OrderId"]

/-- Two calls that mention one column, with their results and events. -/
def orderCalls : List (Naming.Call × List Renaming) :=
  [(.constraint orderKey
      { orderKey with
        schema := "public", table := "order_lines", name := "fk_order", fields := ["order_id"],
        referencedSchema := some "sales", referencedTable := some "orders",
        referencedFields := ["order_id"] },
    [⟨"dbo", .schema, "dbo", "public", false⟩, ⟨"dbo", .table, "OrderLines", "order_lines", true⟩,
     ⟨"dbo", .foreignKey, "FK_Order", "fk_order", false⟩,
     ⟨"dbo", .column, "OrderId", "order_id", true⟩, ⟨"Sales", .schema, "Sales", "sales", false⟩,
     ⟨"Sales", .table, "Orders", "orders", false⟩,
     ⟨"Sales", .column, "OrderId", "order_id", true⟩]),
   (.name "dbo" .column "OrderId" "order_id", [⟨"dbo", .column, "OrderId", "order_id", true⟩])]

/-- A table with a column of its own name in capitals, and a view that reads it. -/
def shoutingColumn : Memory.Catalog where
  schemas := [{
    name := "dbo"
    tables := [{ name := "Orders", columns := [{ name := "ORDERS", type := some .int32 }] }]
    modules := [⟨"dbo", "Totals", "CREATE VIEW Totals AS SELECT 1 FROM Orders", .view⟩] }]

set_option maxRecDepth 100000 in
/-- Calls and a migration to which `policy_never_contradicts_itself` applies. -/
theorem overlapping_calls_agree :
    Naming.CallsOf .canonicalizing orderCalls ∧
      (∃ ledger, Ledger.empty.recordAll (orderCalls.flatMap (·.2)).reverse = (ledger, .ok ()) ∧
        Naming.Records .canonicalizing orderCalls ledger) ∧
      ∃ run e, migrate { policy := .identity } shoutingColumn.source (Memory.target {}) {}
          (DateTime.ofNanos 0) {} = (run, .error e) ∧
        e.isAmbiguous = true ∧
          AmbiguousDefinition { policy := .identity } shoutingColumn.source e := by
  have hcalls : Naming.CallsOf .canonicalizing orderCalls := by
    unfold Naming.CallsOf orderCalls
    rw [List.forall_mem_cons, List.forall_mem_singleton]
    exact ⟨rfl, rfl⟩
  have hfails : (match (migrate { policy := .identity } shoutingColumn.source (Memory.target {}) {}
      (DateTime.ofNanos 0) {}).2 with
      | .error e => e.isAmbiguous
      | .ok _ => false) = true := by
    decide +kernel
  refine ⟨hcalls, ?_, ?_⟩
  · exact policy_never_contradicts_itself.1 _ _ _ hcalls (List.reverse_perm _)
  · rcases h : migrate { policy := .identity } shoutingColumn.source (Memory.target {}) {}
      (DateTime.ofNanos 0) {} with ⟨run, e | report⟩
    · rw [h] at hfails
      exact ⟨run, e, rfl, hfails, policy_never_contradicts_itself.2 _ _ _ _ _ _ _ _ _
        (Memory.Catalog.unambiguous _) (Memory.target_unambiguous _) h hfails⟩
    · rw [h] at hfails
      cases hfails

end Migration
