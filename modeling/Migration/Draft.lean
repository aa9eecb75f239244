import Migration.Naming.Renamed
import Migration.Step

/-
  Drafts: the steps of a part of a migration, as they are found.

  A draft reads the ledger of renamings and adds to it, lists steps, and ends with
  a value or with the error that stops it. Steps and renamings that came before
  the error remain.

  What is proved beside the definitions: the steps of two drafts in a row
  (`steps_andThen`), and that a property of steps holds throughout where it holds
  for the parts (`forall_steps_andThen`, `forall_steps_each`).
-/

namespace Migration

open Naming (Ledger Renames Renamed)

/-- What a draft yields. -/
structure Drafted (α : Type) where
  steps : List Step
  ledger : Ledger
  outcome : Outcome α

/-- A part of a migration, given the renamings before it. -/
def Draft (α : Type) : Type := Ledger → Drafted α

namespace Draft

def give {α : Type} (a : α) : Draft α := fun ledger => ⟨[], ledger, .ok a⟩

/-- One draft after another, unless the first ends with an error. -/
def andThen {α β : Type} (m : Draft α) (f : α → Draft β) : Draft β := fun ledger =>
  let first := m ledger
  match first.outcome with
  | .error e => ⟨first.steps, first.ledger, .error e⟩
  | .ok a =>
    let second := f a first.ledger
    ⟨first.steps ++ second.steps, second.ledger, second.outcome⟩

instance : Monad Draft where
  pure := give
  bind := andThen

/-- What is known without a step, or the error that comes of it. -/
def ofOutcome {α : Type} (o : Outcome α) : Draft α := fun ledger => ⟨[], ledger, o⟩

def take (steps : List Step) : Draft Unit := fun ledger => ⟨steps, ledger, .ok ()⟩

/-- Executes a statement on the target, once its text is made. -/
def execute (sql : Outcome String) : Draft Unit := fun ledger =>
  match sql with
  | .error e => ⟨[], ledger, .error e⟩
  | .ok text => ⟨[.execute text], ledger, .ok ()⟩

/-- Renames, and takes the renamings into the ledger. -/
def rename {α : Type} (m : Renames α) : Draft α := fun ledger =>
  match (m : Outcome (Renamed α)) with
  | .error e => ⟨[], ledger, .error e⟩
  | .ok renamed =>
    let recorded := ledger.recordAll renamed.events
    ⟨[], recorded.1, recorded.2.map fun _ => renamed.value⟩

def ledger : Draft Ledger := fun ledger => ⟨[], ledger, .ok ledger⟩

/-- The draft for each item in turn. -/
def each {α β : Type} (f : α → Draft β) : List α → Draft (List β)
  | [] => give []
  | a :: rest => andThen (f a) fun b => andThen (each f rest) fun bs => give (b :: bs)

/-! ## The steps of a draft -/

theorem steps_andThen {α β : Type} (m : Draft α) (f : α → Draft β) (l : Ledger) :
    (andThen m f l).steps =
      (m l).steps ++
        match (m l).outcome with
        | .ok a => (f a (m l).ledger).steps
        | .error _ => [] := by
  cases h : (m l).outcome <;> simp [andThen, h]

/-- Where all steps of both parts have a property, all steps of the whole have it. -/
theorem forall_steps_andThen {α β : Type} {P : Step → Prop} {m : Draft α} {f : α → Draft β}
    (hm : ∀ l, ∀ s ∈ (m l).steps, P s) (hf : ∀ a l, ∀ s ∈ (f a l).steps, P s) (l : Ledger) :
    ∀ s ∈ (andThen m f l).steps, P s := by
  intro s hs
  rw [steps_andThen, List.mem_append] at hs
  rcases hs with hs | hs
  · exact hm l s hs
  · split at hs
    · exact hf _ _ s hs
    · exact absurd hs List.not_mem_nil

/-- Where all steps for each item have a property, all steps for the list have it. -/
theorem forall_steps_each {α β : Type} {P : Step → Prop} {f : α → Draft β} {items : List α}
    (hf : ∀ a ∈ items, ∀ l, ∀ s ∈ (f a l).steps, P s) (l : Ledger) :
    ∀ s ∈ (each f items l).steps, P s := by
  induction items generalizing l with
  | nil => intro s hs; exact absurd hs List.not_mem_nil
  | cons a rest ih =>
    refine forall_steps_andThen (hf a (by simp)) (fun b => ?_) l
    refine forall_steps_andThen (ih fun x hx => hf x (by simp [hx])) (fun bs l s hs => ?_)
    exact absurd hs List.not_mem_nil

end Draft

end Migration
