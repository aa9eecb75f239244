import Migration.Draft

/-
  What is known of a draft that ends with a value.

  A draft in several parts ends with a value only where every part does, and then its
  steps are the steps of the parts (`bind_ok`, `each_ok`). Where a property of steps
  holds whatever a draft ends with, `Draft.All` carries it from the parts to the whole;
  for what the steps ask of the target, see `Step.AsksOnly` and `All.forall_operations`.
-/

namespace Migration

open Naming (Ledger Renames)

/-- What the step asks of the target, if anything, is such an operation. -/
def Step.AsksOnly (Q : Operation → Prop) (s : Step) : Prop := ∀ op, s.operation? = some op → Q op

namespace Draft

variable {α β : Type} {l l' : Ledger} {steps : List Step}

/-! ## Values -/

theorem bind_ok {m : Draft α} {f : α → Draft β} {b : β}
    (h : (m >>= f) l = ⟨steps, l', .ok b⟩) :
    ∃ a first mid second, m l = ⟨first, mid, .ok a⟩ ∧ f a mid = ⟨second, l', .ok b⟩ ∧
      steps = first ++ second := by
  change andThen m f l = _ at h
  rcases hm : m l with ⟨first, mid, outcome⟩
  cases outcome with
  | error e =>
    simp only [andThen, hm] at h
    cases h
  | ok a =>
    rcases hf : f a mid with ⟨second, last, result⟩
    simp only [andThen, hm, hf, Drafted.mk.injEq] at h
    obtain ⟨rfl, rfl, rfl⟩ := h
    exact ⟨a, first, mid, second, rfl, hf, rfl⟩

theorem bind_of_ok {m : Draft α} {f : α → Draft β} {a : α} (h : m l = ⟨steps, l', .ok a⟩) :
    (m >>= f) l = ⟨steps ++ (f a l').steps, (f a l').ledger, (f a l').outcome⟩ := by
  change andThen m f l = _
  simp only [andThen, h]

theorem bind_of_error {m : Draft α} {f : α → Draft β} {e : MigrationError}
    (h : m l = ⟨steps, l', .error e⟩) : (m >>= f) l = ⟨steps, l', .error e⟩ := by
  change andThen m f l = _
  simp only [andThen, h]

theorem pure_ok {a b : α} (h : (pure a : Draft α) l = ⟨steps, l', .ok b⟩) :
    steps = [] ∧ l' = l ∧ b = a := by
  change give a l = _ at h
  simp only [give, Drafted.mk.injEq, Except.ok.injEq] at h
  obtain ⟨hsteps, hl, hb⟩ := h
  exact ⟨hsteps.symm, hl.symm, hb.symm⟩

theorem ofOutcome_ok {o : Outcome α} {a : α} (h : ofOutcome o l = ⟨steps, l', .ok a⟩) :
    o = .ok a ∧ steps = [] ∧ l' = l := by
  simp only [ofOutcome, Drafted.mk.injEq] at h
  obtain ⟨hsteps, hl, ho⟩ := h
  exact ⟨ho, hsteps.symm, hl.symm⟩

theorem execute_ok {sql : Outcome String} {u : Unit} (h : execute sql l = ⟨steps, l', .ok u⟩) :
    ∃ text, sql = .ok text ∧ steps = [.execute text] := by
  cases sql with
  | error e => cases h
  | ok text =>
    simp only [execute, Drafted.mk.injEq] at h
    exact ⟨text, rfl, h.1.symm⟩

theorem rename_ok {m : Renames α} {a : α} (h : rename m l = ⟨steps, l', .ok a⟩) :
    steps = [] ∧ ∃ events, (m : Outcome (Naming.Renamed α)) = .ok ⟨a, events⟩ := by
  cases m with
  | error e => cases h
  | ok renamed =>
    rcases hrecorded : l.recordAll renamed.events with ⟨after, outcome⟩
    simp only [rename, hrecorded, Drafted.mk.injEq] at h
    obtain ⟨hsteps, -, hvalue⟩ := h
    refine ⟨hsteps.symm, renamed.events, ?_⟩
    cases outcome with
    | error e => cases hvalue
    | ok u =>
      obtain rfl := Except.ok.inj hvalue
      rfl

/-- What holds of the draft for every item holds of the drafts for all items in turn. -/
theorem each_ok {f : α → Draft β} {R : List α → List β → List Step → Prop} {items : List α}
    {bs : List β} (nil : R [] [] [])
    (cons : ∀ {a b as bs l l' first rest}, a ∈ items → f a l = ⟨first, l', .ok b⟩ →
      R as bs rest → R (a :: as) (b :: bs) (first ++ rest))
    (h : each f items l = ⟨steps, l', .ok bs⟩) : R items bs steps := by
  induction items generalizing l l' steps bs with
  | nil =>
    obtain ⟨rfl, -, rfl⟩ := pure_ok h
    exact nil
  | cons a items ih =>
    obtain ⟨b, first, mid, second, ha, hrest, rfl⟩ := bind_ok h
    obtain ⟨bs', rest, last, third, hitems, hgive, rfl⟩ := bind_ok hrest
    obtain ⟨rfl, -, rfl⟩ := pure_ok hgive
    rw [List.append_nil]
    refine cons List.mem_cons_self ha (ih ?_ hitems)
    exact fun ha' => cons (List.mem_cons_of_mem _ ha')

theorem exists_of_mem_each {f : α → Draft β} {items : List α} {bs : List β}
    (h : each f items l = ⟨steps, l', .ok bs⟩) :
    ∀ b ∈ bs, ∃ a ∈ items, ∃ before steps after, f a before = ⟨steps, after, .ok b⟩ := by
  refine each_ok (R := fun items bs _ =>
    ∀ b ∈ bs, ∃ a ∈ items, ∃ before steps after, f a before = ⟨steps, after, .ok b⟩)
    (fun b hb => absurd hb List.not_mem_nil) ?_ h
  intro a b as bs l l' first rest _ hfirst hrest
  refine List.forall_mem_cons.mpr ⟨⟨a, List.mem_cons_self, l, first, l', hfirst⟩, fun b' hb' => ?_⟩
  obtain ⟨a', ha', hdraft⟩ := hrest b' hb'
  exact ⟨a', List.mem_cons_of_mem _ ha', hdraft⟩

/-! ## Properties of all steps -/

/-- Every step that the draft lists has the property, whatever the draft ends with. -/
def All (P : Step → Prop) (d : Draft α) : Prop := ∀ l, ∀ s ∈ (d l).steps, P s

variable {P : Step → Prop}

theorem All.bind {m : Draft α} {f : α → Draft β} (hm : All P m) (hf : ∀ a, All P (f a)) :
    All P (m >>= f) :=
  forall_steps_andThen hm hf

/-- What follows a draft matters only for the values that the draft ends with. -/
theorem All.bind_ok {m : Draft α} {f : α → Draft β} (hm : All P m)
    (hf : ∀ {l l' steps a}, m l = ⟨steps, l', .ok a⟩ → All P (f a)) : All P (m >>= f) := by
  intro l s hs
  change s ∈ (andThen m f l).steps at hs
  rw [steps_andThen, List.mem_append] at hs
  rcases hs with hs | hs
  · exact hm l s hs
  · split at hs
    · rename_i a ha
      have hvalue : m l = ⟨(m l).steps, (m l).ledger, .ok a⟩ := by rw [← ha]
      exact hf hvalue _ s hs
    · exact absurd hs List.not_mem_nil

theorem All.each {f : α → Draft β} {items : List α} (hf : ∀ a ∈ items, All P (f a)) :
    All P (each f items) :=
  forall_steps_each hf

theorem All.pure (a : α) : All P (pure a : Draft α) :=
  fun _ _ hs => absurd hs List.not_mem_nil

theorem All.ofOutcome (o : Outcome α) : All P (ofOutcome o) :=
  fun _ _ hs => absurd hs List.not_mem_nil

theorem All.ledger : All P Draft.ledger :=
  fun _ _ hs => absurd hs List.not_mem_nil

theorem All.rename (m : Renames α) : All P (rename m) := by
  intro l s hs
  cases m with
  | error e => exact absurd hs List.not_mem_nil
  | ok renamed => exact absurd hs List.not_mem_nil

theorem All.execute {sql : Outcome String} (h : ∀ text, sql = .ok text → P (.execute text)) :
    All P (execute sql) := by
  intro l s hs
  cases sql with
  | error e => exact absurd hs List.not_mem_nil
  | ok text =>
    obtain rfl := List.mem_singleton.mp hs
    exact h text rfl

/-- What holds of every step holds of none only where there is none. -/
theorem All.steps_eq_nil {d : Draft α} (h : All (fun _ => False) d) (l : Ledger) :
    (d l).steps = [] :=
  List.eq_nil_iff_forall_not_mem.mpr (h l)

/-! ## Properties of all operations -/

variable {Q : Operation → Prop}

theorem All.execute_asks {sql : Outcome String} (h : ∀ text, sql = .ok text → Q (.execute text)) :
    All (Step.AsksOnly Q) (Draft.execute sql) := by
  refine All.execute fun text htext op hop => ?_
  cases hop
  exact h text htext

theorem All.forall_operations {d : Draft α} {outcome : Outcome α} (h : All (Step.AsksOnly Q) d)
    (hd : d l = ⟨steps, l', outcome⟩) : ∀ op ∈ operations steps, Q op := by
  intro op hop
  obtain ⟨s, hs, hsop⟩ := List.mem_filterMap.mp hop
  refine h l s ?_ op hsop
  rw [hd]
  exact hs

end Draft

end Migration
