import Migration.Proofs.StepRun

/-
  What a target answers to what it is sent.

  A run keeps the operations that it sent, and not the answers. A target answers each
  operation by its state, so the answers are had by sending the operations again. This
  file

  1. has the log of operations, each with its answer (`Target.log`), and says of two runs
     that the second came from the first by such a log (`Run.Logged`);
  2. proves that a run of steps halts at the first refusal: what it logged are operations
     of the steps in order, all accepted but the last (`Halted`, `Run.takeAll_logged`). -/

namespace Migration

/-- An operation that was sent, with the error of the target if it was refused. -/
abbrev Answered := Operation × Option MigrationError

def sentIn (log : List Answered) : List Operation := log.map Prod.fst

/-- The log of operations that are all accepted. -/
def acceptedLog (ops : List Operation) : List Answered := ops.map fun op => (op, none)

@[simp] theorem sentIn_append (first second : List Answered) :
    sentIn (first ++ second) = sentIn first ++ sentIn second := List.map_append

@[simp] theorem sentIn_acceptedLog (ops : List Operation) : sentIn (acceptedLog ops) = ops := by
  simp [sentIn, acceptedLog, Function.comp_def]

theorem accepted_of_mem_acceptedLog {ops : List Operation} {entry : Answered}
    (h : entry ∈ acceptedLog ops) : entry.2 = none := by
  obtain ⟨op, -, rfl⟩ := List.mem_map.mp h
  rfl

theorem acceptedLog_append (first second : List Operation) :
    acceptedLog (first ++ second) = acceptedLog first ++ acceptedLog second := List.map_append

/-! ## Logs -/

namespace Target

variable {σ : Type} (target : Target σ)

/-- The operations with the answers to them, one sent after another. -/
def log : σ → List Operation → List Answered
  | _, [] => []
  | s, op :: rest =>
    let answer := target.respond s op
    (op, answer.2) :: log answer.1 rest

/-- The state that operations lead to. -/
def stateAfter : σ → List Operation → σ
  | s, [] => s
  | s, op :: rest => stateAfter (target.respond s op).1 rest

def AcceptsAll : Prop := ∀ s op, (target.respond s op).2 = none

theorem log_append (s : σ) (first second : List Operation) :
    target.log s (first ++ second) =
      target.log s first ++ target.log (target.stateAfter s first) second := by
  induction first generalizing s with
  | nil => rfl
  | cons op rest ih => exact congrArg (_ :: ·) (ih _)

theorem stateAfter_append (s : σ) (first second : List Operation) :
    target.stateAfter s (first ++ second) =
      target.stateAfter (target.stateAfter s first) second := by
  induction first generalizing s with
  | nil => rfl
  | cons op rest ih => exact ih _

@[simp] theorem sentIn_log (s : σ) (ops : List Operation) : sentIn (target.log s ops) = ops := by
  induction ops generalizing s with
  | nil => rfl
  | cons op rest ih => exact congrArg (op :: ·) (ih _)

theorem log_of_acceptsAll (h : target.AcceptsAll) (s : σ) (ops : List Operation) :
    target.log s ops = acceptedLog ops := by
  induction ops generalizing s with
  | nil => rfl
  | cons op rest ih =>
    rw [log, ih, h]
    rfl

end Target

/-! ## Runs and their logs -/

namespace Run

variable {σ : Type} {target : Target σ} {pace : Pace} {r mid after : Run σ}

/-- The second run came from the first by these operations, which had these answers. -/
structure Logged (target : Target σ) (r after : Run σ) (log : List Answered) : Prop where
  sent : after.sent.toList = r.sent.toList ++ sentIn log
  answers : target.log r.state (sentIn log) = log
  state : target.stateAfter r.state (sentIn log) = after.state

theorem Logged.refl (r : Run σ) : Logged target r r [] := ⟨by simp [sentIn], rfl, rfl⟩

theorem Logged.append {first second : List Answered} (h : Logged target r mid first)
    (h' : Logged target mid after second) : Logged target r after (first ++ second) where
  sent := by rw [h'.sent, h.sent, sentIn_append, List.append_assoc]
  answers := by rw [sentIn_append, Target.log_append, h.answers, h.state, h'.answers]
  state := by rw [sentIn_append, Target.stateAfter_append, h.state, h'.state]

theorem logged_send (r : Run σ) (op : Operation) :
    Logged target r (r.send target pace op).1 [(op, (target.respond r.state op).2)] :=
  ⟨by simp [sentIn, send], rfl, rfl⟩

theorem logged_note (r : Run σ) (s : Step) : Logged target r (r.note pace s) [] := by
  refine ⟨?_, rfl, (state_note r s).symm⟩
  rw [sent_note, sentIn, List.map_nil, List.append_nil]

theorem Taken.logged {steps : List Step} (h : Taken target pace r steps after) :
    Logged target r after (acceptedLog (operations steps)) := by
  induction h with
  | nil => exact .refl _
  | @cons r mid after s steps head tail ih =>
    rw [operations_cons, acceptedLog_append]
    refine Logged.append ?_ ih
    rcases take_none head with ⟨op, hop, hnone, rfl⟩ | ⟨hop, rfl⟩
    · have hsend := @logged_send σ target pace r op
      rw [hnone] at hsend
      rw [hop]
      exact hsend
    · rw [hop]
      exact logged_note r s

end Run

/-! ## Halting at a refusal -/

/-- Of these operations all were sent and accepted, or those up to one that was refused. -/
inductive Halted (ops : List Operation) : List Answered → Prop where
  | finished : Halted ops (acceptedLog ops)
  | refused {done rest : List Operation} {op : Operation} (e : MigrationError)
      (split : ops = done ++ op :: rest) : Halted ops (acceptedLog done ++ [(op, some e)])

namespace Halted

variable {ops : List Operation} {log : List Answered}

theorem isPrefix (h : Halted ops log) : sentIn log <+: ops := by
  cases h with
  | finished => exact ⟨[], by rw [sentIn_acceptedLog, List.append_nil]⟩
  | @refused done rest op e split =>
    rw [split, sentIn_append, sentIn_acceptedLog]
    exact ⟨rest, by simp [sentIn]⟩

theorem accepted_dropLast (h : Halted ops log) : ∀ entry ∈ log.dropLast, entry.2 = none := by
  intro entry hentry
  cases h with
  | finished => exact accepted_of_mem_acceptedLog (List.dropLast_subset _ hentry)
  | refused e split =>
    rw [List.dropLast_concat] at hentry
    exact accepted_of_mem_acceptedLog hentry

theorem eq_of_accepted (h : Halted ops log) (haccepted : ∀ entry ∈ log, entry.2 = none) :
    log = acceptedLog ops := by
  cases h with
  | finished => rfl
  | refused e split =>
    have hlast := haccepted _ (List.mem_append_right _ (List.mem_singleton_self _))
    cases hlast

theorem next {i : Nat} {op : Operation} (h : Halted ops log) (hat : log[i]? = some (op, none)) :
    ops[i]? = some op ∧
      (log = acceptedLog ops ∨
        ∃ op' answer, ops[i + 1]? = some op' ∧ log[i + 1]? = some (op', answer)) := by
  obtain ⟨hi, -⟩ := List.getElem?_eq_some_iff.mp hat
  have hsent {j : Nat} {op : Operation} {answer : Option MigrationError}
      (hat : log[j]? = some (op, answer)) : ops[j]? = some op := by
    obtain ⟨rest, hops⟩ := h.isPrefix
    rw [← hops, sentIn, List.getElem?_append_left, List.getElem?_map, hat]
    · rfl
    · rw [List.length_map]
      exact (List.getElem?_eq_some_iff.mp hat).1
  refine ⟨hsent hat, ?_⟩
  by_cases hlast : i + 1 < log.length
  · exact .inr ⟨_, _, hsent (List.getElem?_eq_getElem hlast), List.getElem?_eq_getElem hlast⟩
  · -- the last operation was accepted, so none was refused
    have hlast : log.getLast? = some (op, none) := by
      rw [List.getLast?_eq_getElem?, show log.length - 1 = i by omega, hat]
    obtain ⟨front, hsplit⟩ := List.getLast?_eq_some_iff.mp hlast
    have haccepted := h.accepted_dropLast
    rw [hsplit, List.dropLast_concat] at haccepted
    refine .inl (h.eq_of_accepted ?_)
    rw [hsplit]
    exact List.forall_mem_append.mpr ⟨haccepted, List.forall_mem_singleton.mpr rfl⟩

end Halted

/-- A run of steps logs their operations up to the first refusal, and has an error exactly where
there was one. -/
theorem Run.takeAll_logged {σ : Type} (target : Target σ) (pace : Pace) (r : Run σ)
    (steps : List Step) :
    ∃ log, Logged target r (r.takeAll target pace steps).1 log ∧ Halted (operations steps) log ∧
      ((r.takeAll target pace steps).2 = none ↔ log = acceptedLog (operations steps)) := by
  rcases hrun : r.takeAll target pace steps with ⟨after, error⟩
  cases error with
  | none => exact ⟨_, (takeAll_none_iff.mp hrun).logged, .finished, by simp⟩
  | some e =>
    obtain ⟨taken, s, rest, mid, rfl, htaken, hlast⟩ := takeAll_some_iff.mp hrun
    obtain ⟨op, cause, hop, hcause, -, rfl⟩ := take_some hlast
    have hsend := @logged_send σ target pace mid op
    rw [hcause] at hsend
    have hsplit : operations (taken ++ s :: rest) = operations taken ++ op :: operations rest := by
      rw [operations_append, operations_cons, hop]
      rfl
    refine ⟨_, htaken.logged.append hsend, .refused cause hsplit, ?_⟩
    refine iff_of_false (by simp) fun heq => ?_
    -- the log has a refusal, and a log of accepted operations has none
    have hmem := heq ▸ List.mem_append_right (acceptedLog (operations taken))
      (List.mem_singleton_self (op, some cause))
    cases accepted_of_mem_acceptedLog hmem

end Migration
