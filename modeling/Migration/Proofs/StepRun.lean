import Migration.Run

/-
  Runs as what was done: the steps that were taken, and the one that was refused.

  `takeAll` stops at the first step that the target refuses. `Taken` is a run without
  a refusal, and every run is one of these, followed by a refused step or not
  (`takeAll_none_iff`, `takeAll_some_iff`). So a property of runs is proved for steps
  that are all taken, by induction on `Taken`, and for the one refusal that may come
  after them; what was sent is an instance (`Taken.sent`, `takeAll_sent`).
-/

namespace Migration

/-- The operations that a target takes of those it is asked for one after another. -/
def Target.accepted {σ : Type} (target : Target σ) : σ → List Operation → List Operation
  | _, [] => []
  | s, op :: rest =>
    let answer := target.respond s op
    let later := target.accepted answer.1 rest
    match answer.2 with
    | none => op :: later
    | some _ => later

@[simp] theorem operations_nil : operations [] = [] := rfl

theorem operations_cons (s : Step) (steps : List Step) :
    operations (s :: steps) = s.operation?.toList ++ operations steps := by
  unfold operations
  cases h : s.operation? with
  | none => rw [List.filterMap_cons_none h]; rfl
  | some op => rw [List.filterMap_cons_some h]; rfl

theorem operations_append (first second : List Step) :
    operations (first ++ second) = operations first ++ operations second :=
  List.filterMap_append

namespace Run

variable {σ : Type} {target : Target σ} {pace : Pace}

/-- Steps that are all taken, from one run to another. -/
inductive Taken (target : Target σ) (pace : Pace) : Run σ → List Step → Run σ → Prop where
  | nil {r : Run σ} : Taken target pace r [] r
  | cons {r mid after : Run σ} {s : Step} {steps : List Step}
      (head : r.take target pace s = (mid, none)) (tail : Taken target pace mid steps after) :
      Taken target pace r (s :: steps) after

/-! ## One step -/

theorem take_none {r after : Run σ} {s : Step} (h : r.take target pace s = (after, none)) :
    (∃ op, s.operation? = some op ∧ (target.respond r.state op).2 = none ∧
      after = (r.send target pace op).1) ∨ s.operation? = none ∧ after = r.note pace s := by
  unfold take at h
  cases hop : s.operation? with
  | none =>
    rw [hop] at h
    obtain ⟨rfl, -⟩ := Prod.mk.inj h
    exact .inr ⟨rfl, rfl⟩
  | some op =>
    rw [hop] at h
    obtain ⟨rfl, hnone⟩ := Prod.mk.inj h
    exact .inl ⟨op, rfl, Option.map_eq_none_iff.mp hnone, rfl⟩

theorem take_some {r after : Run σ} {s : Step} {e : MigrationError}
    (h : r.take target pace s = (after, some e)) :
    ∃ op cause, s.operation? = some op ∧ (target.respond r.state op).2 = some cause ∧
      e = s.failure cause ∧ after = (r.send target pace op).1 := by
  unfold take at h
  cases hop : s.operation? with
  | none =>
    rw [hop] at h
    cases h
  | some op =>
    rw [hop] at h
    obtain ⟨rfl, hsome⟩ := Prod.mk.inj h
    obtain ⟨cause, hcause, rfl⟩ := Option.map_eq_some_iff.mp hsome
    exact ⟨op, cause, rfl, hcause, rfl, rfl⟩

/-! ## Runs of steps -/

theorem takeAll_none_iff {r after : Run σ} {steps : List Step} :
    r.takeAll target pace steps = (after, none) ↔ Taken target pace r steps after := by
  constructor
  · intro h
    induction steps generalizing r with
    | nil =>
      cases h
      exact .nil
    | cons s steps ih =>
      rw [takeAll] at h
      split at h
      · rename_i mid hmid
        exact .cons hmid (ih h)
      · cases h
  · intro h
    induction h with
    | nil => rfl
    | cons head tail ih =>
      rw [takeAll, head]
      exact ih

theorem takeAll_some_iff {r after : Run σ} {steps : List Step} {e : MigrationError} :
    r.takeAll target pace steps = (after, some e) ↔
      ∃ taken s rest mid, steps = taken ++ s :: rest ∧ Taken target pace r taken mid ∧
        mid.take target pace s = (after, some e) := by
  constructor
  · intro h
    induction steps generalizing r with
    | nil => cases h
    | cons s steps ih =>
      rw [takeAll] at h
      split at h
      · rename_i mid hmid
        obtain ⟨taken, s', rest, last, rfl, htaken, hlast⟩ := ih h
        exact ⟨s :: taken, s', rest, last, rfl, .cons hmid htaken, hlast⟩
      · rename_i mid e' hmid
        cases h
        exact ⟨[], s, steps, r, rfl, .nil, hmid⟩
  · rintro ⟨taken, s, rest, mid, rfl, htaken, hlast⟩
    rw [takeAll_append, takeAll_none_iff.mpr htaken]
    show mid.takeAll target pace (s :: rest) = (after, some e)
    rw [takeAll, hlast]

/-- However a run ends, the steps up to some point were taken, and at most one more was refused. -/
theorem takeAll_start (r : Run σ) (steps : List Step) :
    ∃ taken mid, taken <+: steps ∧ Taken target pace r taken mid ∧
      ((r.takeAll target pace steps).1 = mid ∨
        ∃ s e, mid.take target pace s = ((r.takeAll target pace steps).1, some e)) := by
  rcases hrun : r.takeAll target pace steps with ⟨after, error⟩
  cases error with
  | none => exact ⟨steps, after, List.prefix_rfl, takeAll_none_iff.mp hrun, .inl rfl⟩
  | some e =>
    obtain ⟨taken, s, rest, mid, rfl, htaken, hlast⟩ := takeAll_some_iff.mp hrun
    exact ⟨taken, mid, List.prefix_append _ _, htaken, .inr ⟨s, e, hlast⟩⟩

theorem takeAll_preserves {I : Run σ → Prop} {steps : List Step}
    (step : ∀ s ∈ steps, ∀ r, I r → I (r.take target pace s).1) {r : Run σ} (h : I r) :
    I (r.takeAll target pace steps).1 := by
  induction steps generalizing r with
  | nil => exact h
  | cons s rest ih =>
    obtain ⟨hfirst, hrest⟩ := List.forall_mem_cons.mp step
    have hafter := hfirst r h
    rw [takeAll]
    split
    · rename_i after htaken
      rw [htaken] at hafter
      exact ih hrest hafter
    · rename_i after e htaken
      rw [htaken] at hafter
      exact hafter

theorem sent_note (r : Run σ) (s : Step) : (r.note pace s).sent = r.sent := by
  cases s <;> rfl

theorem state_note (r : Run σ) (s : Step) : (r.note pace s).state = r.state := by
  cases s <;> rfl

theorem Taken.sent {r after : Run σ} {steps : List Step} (h : Taken target pace r steps after) :
    after.sent.toList = r.sent.toList ++ operations steps := by
  induction h with
  | nil => simp
  | @cons r mid after s steps head tail ih =>
    rw [ih, operations_cons, ← List.append_assoc]
    congr 1
    rcases take_none head with ⟨op, hop, -, rfl⟩ | ⟨hop, rfl⟩
    · rw [hop]
      simp [send]
    · rw [hop, sent_note]
      simp

/-- However a run ends, what was sent begins the operations of its steps. -/
theorem takeAll_sent (r : Run σ) (steps : List Step) :
    ∃ more, (r.takeAll target pace steps).1.sent.toList = r.sent.toList ++ more ∧
      more <+: operations steps := by
  rcases hrun : r.takeAll target pace steps with ⟨after, error⟩
  cases error with
  | none => exact ⟨operations steps, (takeAll_none_iff.mp hrun).sent, List.prefix_rfl⟩
  | some e =>
    obtain ⟨taken, s, rest, mid, rfl, htaken, hlast⟩ := takeAll_some_iff.mp hrun
    obtain ⟨op, -, hop, -, -, rfl⟩ := take_some hlast
    refine ⟨operations taken ++ [op], ?_, ?_⟩
    · rw [← List.append_assoc, ← htaken.sent]
      simp [send]
    · rw [operations_append, operations_cons, hop]
      exact ⟨operations rest, by simp⟩

theorem Taken.accepted {r after : Run σ} {steps : List Step} (h : Taken target pace r steps after)
    (more : List Operation) :
    target.accepted r.state (operations steps ++ more) =
      operations steps ++ target.accepted after.state more := by
  induction h with
  | nil => rfl
  | @cons r mid after s steps head tail ih =>
    rw [operations_cons]
    rcases take_none head with ⟨op, hop, hnone, rfl⟩ | ⟨hop, rfl⟩
    · rw [hop]
      simp only [Option.toList_some, List.cons_append, List.nil_append, Target.accepted, hnone]
      exact congrArg (op :: ·) ih
    · rw [hop]
      rw [state_note] at ih
      exact ih

end Run

end Migration
