import Mathlib.Data.List.Forall2
import Migration.Cursor
import Migration.Memory.Store
import Migration.Proofs.StepRun

/-
  Which rows a copy leaves on the target, wherever it ends.

  A copy may end at any row that the source cannot yield, at any row of the wrong
  width, and at any operation that the target refuses. This file

  1. says what a target is that holds rows in transactions (`KeepsRows`), that the target
     in memory is one (`memory_keepsRows`), and when stored rows are those of a cursor
     without their NULs (`StoresRows`);
  2. counts what steps do to such a target (`Tally`), and gives the count after each
     whole row in closed form (`Tally.afterRows`): full batches are committed, what is
     left is pending;
  3. proves that one row takes this count to the next, and from it what holds at every
     moment of a copy (`holding_moment`);
  4. composes these to what is true of every copy when it ends (`copyTable_durable`), and
     proves that the commits that it tells of are those that were sent
     (`copyTable_commits`). -/

namespace Migration

open Memory (StoredRow)

/-! ## Targets that hold rows -/

/-- The rows that a target holds: those of its transactions, and those of the open one. -/
structure Held where
  committed : List StoredRow
  pending : List StoredRow

/-- The rows after an operation that the target takes. -/
def Held.after (h : Held) : Operation → Held
  | .insert sql row => { h with pending := h.pending ++ [⟨sql, row⟩] }
  | .commit => ⟨h.committed ++ h.pending, []⟩
  | _ => h

/-- The target holds rows in transactions. An operation that it refuses changes no row, and it does
not speak of single rows when it refuses a transaction. -/
structure KeepsRows {σ : Type} (target : Target σ) (view : σ → Held) : Prop where
  taken : ∀ s op, (target.respond s op).2 = none →
    view (target.respond s op).1 = (view s).after op
  refused : ∀ s op e, (target.respond s op).2 = some e → view (target.respond s op).1 = view s
  told : ∀ s table number message,
    (target.respond s .begin).2 ≠ some (.transfer table number message) ∧
    (target.respond s .commit).2 ≠ some (.transfer table number message)

def heldInMemory (s : Memory.Store) : Held := ⟨s.committed.toList, s.pending.toList⟩

/-- A store takes an operation with all it does to rows, or refuses it without a change to them. -/
theorem respond_cases (f : Memory.Faults) (s : Memory.Store) (op : Operation) :
    ((s.respond f op).2 = none ∧ heldInMemory (s.respond f op).1 = (heldInMemory s).after op) ∨
      ∃ statement message, (s.respond f op).2 = some (.execution statement message) ∧
        heldInMemory (s.respond f op).1 = heldInMemory s := by
  cases op with
  | execute sql =>
    simp only [Memory.Store.respond]
    split
    · exact .inr ⟨_, _, rfl, rfl⟩
    · exact .inl ⟨rfl, rfl⟩
  | begin =>
    simp only [Memory.Store.respond]
    split
    · exact .inr ⟨_, _, rfl, rfl⟩
    · exact .inl ⟨rfl, rfl⟩
  | insert sql row =>
    simp only [Memory.Store.respond]
    split
    · exact .inr ⟨_, _, rfl, rfl⟩
    · exact .inl ⟨rfl, by simp [heldInMemory, Held.after]⟩
  | commit =>
    simp only [Memory.Store.respond]
    split
    · exact .inr ⟨_, _, rfl, rfl⟩
    · exact .inl ⟨rfl, by simp [heldInMemory, Held.after]⟩

theorem memory_keepsRows (f : Memory.Faults) : KeepsRows (Memory.target f) heldInMemory where
  taken s op h := by
    rcases respond_cases f s op with ⟨-, hview⟩ | ⟨statement, message, hsome, -⟩
    · exact hview
    · exact absurd (h.symm.trans hsome) (by simp)
  refused s op e h := by
    rcases respond_cases f s op with ⟨hnone, -⟩ | ⟨statement, message, -, hview⟩
    · exact absurd (hnone.symm.trans h) (by simp)
    · exact hview
  told s table number message := by
    have apart (op : Operation) : (s.respond f op).2 ≠ some (.transfer table number message) := by
      rcases respond_cases f s op with ⟨hnone, -⟩ | ⟨statement, message, hsome, -⟩
      · rw [hnone]
        simp
      · rw [hsome]
        simp
    exact ⟨apart .begin, apart .commit⟩

/-! ## What steps do -/

/-- What was done to a target, and the numbers of rows that were reported. -/
structure Tally where
  committed : List StoredRow
  pending : List StoredRow
  inserts : Nat
  begins : Nat
  commits : Nat
  reported : List Nat

namespace Tally

/-- The count after a step that is taken. -/
def next (t : Tally) : Step → Tally
  | .insert _ _ sql row =>
    { t with pending := t.pending ++ [⟨sql, row⟩], inserts := t.inserts + 1 }
  | .begin => { t with begins := t.begins + 1 }
  | .commit =>
    { t with committed := t.committed ++ t.pending, pending := [], commits := t.commits + 1 }
  | .report _ rows _ => { t with reported := t.reported ++ [rows] }
  | _ => t

def start (base : List StoredRow) : Tally := ⟨base, [], 0, 0, 0, []⟩

/-- The rows of the count, as a target holds them. -/
def held (t : Tally) : Held := ⟨t.committed, t.pending⟩

end Tally

def Operation.isInsert : Operation → Bool
  | .insert _ _ => true
  | _ => false

namespace CopyJob

variable (job : CopyJob)

theorem batch_pos : 0 < job.batch := by
  rw [batch, batchSize]
  omega

/-- A row as the copy stores it. -/
def stored (row : Row) : StoredRow := ⟨job.insert, row.map Cell.scrubbed⟩

def rowBlock (number : Nat) (row : Row) : List Step :=
  .fetch :: .insert job.table number job.insert (row.map Cell.scrubbed) :: job.batchEnd number

theorem mem_batchEnd {copied : Nat} {s : Step} (h : s ∈ job.batchEnd copied) :
    s = .commit ∨ s = .begin ∨ s = .report job.table copied job.estimatedRows := by
  rw [batchEnd] at h
  split at h
  · simpa using h
  · cases h

def rowBlocks : (copied : Nat) → List Row → List Step
  | _, [] => []
  | copied, row :: rows => job.rowBlock (copied + 1) row ++ rowBlocks (copied + 1) rows

theorem rowSteps_cons {row : Row} (hwidth : row.length = job.columns.length) (done : CopyCount)
    (rest : List (Outcome Row)) :
    job.rowSteps done (.ok row :: rest) =
      (job.rowBlock (done.rows + 1) row ++ (job.rowSteps (job.counted done) rest).1,
        (job.rowSteps (job.counted done) rest).2) := by
  rw [rowSteps, if_pos hwidth]
  rfl

/-- The steps of a copy are those of its good rows, and then a commit, or the fetch that ends it. -/
theorem rowSteps_cases (done : CopyCount) (items : List (Outcome Row)) :
    (∃ good last, items = good.map .ok ∧ last.rows = done.rows + good.length ∧
      job.rowSteps done items = (job.rowBlocks done.rows good ++ [.commit], .ok last)) ∨
    ∃ good bad rest message, items = good.map .ok ++ bad :: rest ∧
      job.rowSteps done items = (job.rowBlocks done.rows good ++ [.fetch],
        .error (.transfer job.table (done.rows + good.length + 1) message)) := by
  induction items generalizing done with
  | nil => exact .inl ⟨[], { done with commits := done.commits + 1 }, rfl, rfl, rfl⟩
  | cons item rest ih =>
    cases item with
    | error e => exact .inr ⟨[], .error e, rest, e.message, rfl, rfl⟩
    | ok row =>
      by_cases hwidth : row.length = job.columns.length
      · have hcount (good : List Row) :
            (job.counted done).rows + good.length = done.rows + (row :: good).length := by
          rw [counted_rows, List.length_cons]
          omega
        rcases ih (job.counted done) with
          ⟨good, last, rfl, hlast, hgood⟩ | ⟨good, bad, later, message, rfl, hgood⟩
        · refine .inl ⟨row :: good, last, rfl, hlast.trans (hcount good), ?_⟩
          rw [job.rowSteps_cons hwidth, hgood, rowBlocks, List.append_assoc]
          rfl
        · refine .inr ⟨row :: good, bad, later, message, rfl, ?_⟩
          rw [job.rowSteps_cons hwidth, hgood, hcount, rowBlocks, List.append_assoc]
          rfl
      · obtain ⟨message, hmessage⟩ : ∃ message, job.widthFault (done.rows + 1) row =
            .transfer job.table (done.rows + 1) message := ⟨_, rfl⟩
        refine .inr ⟨[], .ok row, rest, message, rfl, ?_⟩
        rw [rowSteps, if_neg hwidth, hmessage]
        rfl

theorem count_commit_rowBlock (number : Nat) (row : Row) :
    (operations (job.rowBlock number row)).count .commit =
      if number % job.batch = 0 then 1 else 0 := by
  rw [rowBlock, batchEnd]
  split <;> rfl

theorem commits_rowSteps {done last : CopyCount} {items : List (Outcome Row)}
    (h : (job.rowSteps done items).2 = .ok last) :
    last.commits = done.commits + (operations (job.rowSteps done items).1).count .commit := by
  induction items generalizing done with
  | nil =>
    cases h
    rfl
  | cons item rest ih =>
    cases item with
    | error e => cases h
    | ok row =>
      by_cases hwidth : row.length = job.columns.length
      · rw [job.rowSteps_cons hwidth] at h ⊢
        show last.commits = _ + (operations (_ ++ _)).count .commit
        rw [ih h, counted_commits, operations_append, List.count_append, count_commit_rowBlock,
          Nat.add_assoc]
      · rw [rowSteps, if_neg hwidth] at h
        cases h

end CopyJob

theorem rows_ofList_append (good : List Row) (rest : List (Outcome Row)) :
    (CursorRows.ofList (good.map .ok ++ rest)).rows = good ++ (CursorRows.ofList rest).rows := by
  induction good with
  | nil => rfl
  | cons row good ih => rw [List.map_cons, List.cons_append, CursorRows.ofList, ih]; rfl

/-! ## Rows as they are stored -/

/-- A cell and its copy: a text loses its NULs, every other cell is itself. -/
inductive CopiedCell : Cell → Cell → Prop where
  | text {value copied : String} (kept : copied.toList = value.toList.filter (· ≠ '\x00')) :
      CopiedCell (.text value) (.text copied)
  | other {cell : Cell} (isOther : ∀ value, cell ≠ .text value) : CopiedCell cell cell

theorem copied_scrubbed (cell : Cell) : CopiedCell cell cell.scrubbed := by
  by_cases htext : ∃ value, cell = .text value
  · obtain ⟨value, rfl⟩ := htext
    exact .text String.toList_ofList
  · have hsame : cell.scrubbed = cell := by
      cases cell with
      | text value => exact absurd ⟨value, rfl⟩ htext
      | _ => rfl
    rw [hsame]
    exact .other fun value h => htext ⟨value, h⟩

/-- A row as an insert binds it: cell by cell, the first to the first parameter. -/
def CopiedRow (cells row : Row) : Prop := List.Forall₂ CopiedCell cells row

theorem copied_map_scrubbed (cells : Row) : CopiedRow cells (cells.map Cell.scrubbed) := by
  apply List.forall₂_map_right_iff.mpr
  exact List.forall₂_same.mpr fun cell _ => copied_scrubbed cell

/-- Stored rows are those of a cursor, in order, each by the same insert. -/
def StoresRows (insert : String) (rows : List Row) (stored : List StoredRow) : Prop :=
  List.Forall₂ (fun cells s => s.sql = insert ∧ CopiedRow cells s.row) rows stored

theorem storesRows_map (job : CopyJob) (rows : List Row) :
    StoresRows job.insert rows (rows.map job.stored) := by
  apply List.forall₂_map_right_iff.mpr
  exact List.forall₂_same.mpr fun cells _ => ⟨rfl, copied_map_scrubbed cells⟩

/-! ## The count after whole rows -/

theorem succ_div_mod {b : Nat} (hb : 0 < b) (c : Nat) :
    (c % b + 1 < b ∧ (c + 1) / b = c / b ∧ (c + 1) % b = c % b + 1) ∨
      (c % b + 1 = b ∧ (c + 1) / b = c / b + 1 ∧ (c + 1) % b = 0) := by
  have hlt := Nat.mod_lt c hb
  have hsum : c + 1 = b * (c / b) + (c % b + 1) := by
    rw [← Nat.add_assoc, Nat.div_add_mod]
  have hdiv : (c + 1) / b = c / b + (c % b + 1) / b := by
    rw [hsum, Nat.mul_add_div hb]
  have hmod : (c + 1) % b = (c % b + 1) % b := by
    rw [hsum, Nat.mul_add_mod]
  by_cases hroom : c % b + 1 < b
  · left
    rw [hdiv, hmod, Nat.div_eq_of_lt hroom, Nat.mod_eq_of_lt hroom]
    exact ⟨hroom, rfl, rfl⟩
  · right
    have hfull : c % b + 1 = b := by omega
    rw [hdiv, hmod, hfull, Nat.div_self hb, Nat.mod_self]
    exact ⟨rfl, rfl, rfl⟩

/-- The numbers of rows after the first full batches. -/
def batchEnds (b count : Nat) : List Nat := (List.range count).map fun i => (i + 1) * b

theorem batchEnds_succ (b count : Nat) :
    batchEnds b (count + 1) = batchEnds b count ++ [(count + 1) * b] := by
  rw [batchEnds, List.range_succ, List.map_append]
  rfl

section Count

variable (job : CopyJob) (base all : List StoredRow)

/-- The count after `copied` rows of `all`: the rows of full batches are committed, the rows after
them are pending, and each full batch was reported. -/
def Tally.afterRows (copied : Nat) : Tally where
  committed := base ++ all.take (job.batch * (copied / job.batch))
  pending := (all.drop (job.batch * (copied / job.batch))).take (copied % job.batch)
  inserts := copied
  begins := copied / job.batch + 1
  commits := copied / job.batch
  reported := batchEnds job.batch (copied / job.batch)

/-- At a moment of a copy the first `m` rows are committed and the next `p` rows pending, and every
report told of rows that are committed. -/
structure Holding (m p : Nat) (t : Tally) : Prop where
  committed : t.committed = base ++ all.take m
  pending : t.pending = (all.drop m).take p
  inserts : t.inserts = m + p
  within : m + p ≤ all.length
  room : p ≤ job.batch
  reported : ∃ q, t.reported = batchEnds job.batch q ∧ q * job.batch ≤ m

variable {job base all}

theorem holding_start : Holding job base all 0 0 (Tally.start base) where
  committed := by simp [Tally.start]
  pending := by simp [Tally.start]
  inserts := rfl
  within := Nat.zero_le _
  room := Nat.zero_le _
  reported := ⟨0, rfl, by simp⟩

theorem holding_afterRows {copied : Nat} (h : copied ≤ all.length) :
    Holding job base all (job.batch * (copied / job.batch)) (copied % job.batch)
      (Tally.afterRows job base all copied) where
  committed := rfl
  pending := rfl
  inserts := (Nat.div_add_mod copied job.batch).symm
  within := by rwa [Nat.div_add_mod]
  room := Nat.le_of_lt (Nat.mod_lt _ job.batch_pos)
  reported := ⟨copied / job.batch, rfl, Nat.le_of_eq (Nat.mul_comm _ _)⟩

theorem pending_insert {copied : Nat} {x : StoredRow} {more : List StoredRow}
    (h : all.drop copied = x :: more) :
    (all.drop (job.batch * (copied / job.batch))).take (copied % job.batch) ++ [x] =
      (all.drop (job.batch * (copied / job.batch))).take (copied % job.batch + 1) := by
  have hx : all[copied]? = some x := by
    have hhead : (all.drop copied)[0]? = some x := by rw [h]; rfl
    rwa [List.getElem?_drop, Nat.add_zero] at hhead
  rw [List.take_add_one, List.getElem?_drop, Nat.div_add_mod, hx]
  rfl

/-- The count between the insert of the next row and what may end its batch. -/
def Tally.afterInsert (job : CopyJob) (base all : List StoredRow) (copied : Nat) : Tally :=
  { Tally.afterRows job base all copied with
    pending := (all.drop (job.batch * (copied / job.batch))).take (copied % job.batch + 1)
    inserts := copied + 1 }

theorem afterRows_insert {copied : Nat} {row : Row} {more : List StoredRow}
    (h : all.drop copied = job.stored row :: more) :
    (Tally.afterRows job base all copied).next
        (.insert job.table (copied + 1) job.insert (row.map Cell.scrubbed)) =
      Tally.afterInsert job base all copied := by
  rw [Tally.afterInsert, ← pending_insert h]
  rfl

theorem holding_afterInsert {copied : Nat} (h : copied < all.length) :
    Holding job base all (job.batch * (copied / job.batch)) (copied % job.batch + 1)
      (Tally.afterInsert job base all copied) where
  committed := rfl
  pending := rfl
  inserts := by rw [← Nat.add_assoc, Nat.div_add_mod]; rfl
  within := by rwa [← Nat.add_assoc, Nat.div_add_mod]
  room := Nat.mod_lt _ job.batch_pos
  reported := ⟨copied / job.batch, rfl, Nat.le_of_eq (Nat.mul_comm _ _)⟩

theorem afterInsert_within {copied : Nat} (hdiv : (copied + 1) / job.batch = copied / job.batch)
    (hmod : (copied + 1) % job.batch = copied % job.batch + 1) :
    Tally.afterInsert job base all copied = Tally.afterRows job base all (copied + 1) := by
  simp only [Tally.afterInsert, Tally.afterRows, hdiv, hmod]

/-- The count after the commit of a full batch, and after the begin behind it. -/
def Tally.afterCommit (job : CopyJob) (base all : List StoredRow) (copied begins : Nat) :
    Tally where
  committed := base ++ all.take (job.batch * (copied / job.batch))
  pending := []
  inserts := copied
  begins := begins
  commits := copied / job.batch
  reported := batchEnds job.batch (copied / job.batch - 1)

theorem holding_afterCommit {copied : Nat} (begins : Nat) (h : copied ≤ all.length)
    (hmod : copied % job.batch = 0) :
    Holding job base all (job.batch * (copied / job.batch)) 0
      (Tally.afterCommit job base all copied begins) where
  committed := rfl
  pending := by simp [Tally.afterCommit]
  inserts := by
    have hsum := Nat.div_add_mod copied job.batch
    rw [hmod] at hsum
    exact hsum.symm
  within := Nat.le_trans (Nat.mul_div_le copied job.batch) h
  room := Nat.zero_le _
  reported := by
    refine ⟨copied / job.batch - 1, rfl, ?_⟩
    rw [Nat.mul_comm]
    exact Nat.mul_le_mul_left _ (Nat.sub_le _ _)

theorem afterInsert_commit {copied : Nat} (hroom : copied % job.batch + 1 = job.batch)
    (hdiv : (copied + 1) / job.batch = copied / job.batch + 1) :
    (Tally.afterInsert job base all copied).next .commit =
      Tally.afterCommit job base all (copied + 1) (copied / job.batch + 1) := by
  simp only [Tally.next, Tally.afterInsert, Tally.afterRows, Tally.afterCommit, hroom, hdiv,
    Nat.mul_add_one, List.take_add, List.append_assoc, Nat.add_sub_cancel]

theorem afterCommit_begin (copied begins : Nat) :
    (Tally.afterCommit job base all copied begins).next .begin =
      Tally.afterCommit job base all copied (begins + 1) := rfl

theorem afterCommit_report {copied : Nat} (hmod : (copied + 1) % job.batch = 0)
    (hdiv : (copied + 1) / job.batch = copied / job.batch + 1) :
    (Tally.afterCommit job base all (copied + 1) (copied / job.batch + 1 + 1)).next
        (.report job.table (copied + 1) job.estimatedRows) =
      Tally.afterRows job base all (copied + 1) := by
  have hsum : (copied / job.batch + 1) * job.batch = copied + 1 := by
    have hsum := Nat.div_add_mod (copied + 1) job.batch
    rw [hmod, hdiv, Nat.mul_comm] at hsum
    exact hsum
  simp only [Tally.next, Tally.afterCommit, Tally.afterRows, hmod, hdiv, List.take_zero,
    Nat.add_sub_cancel, batchEnds_succ, hsum]

/-! ## Every moment of a copy -/

theorem append_cases {α : Type} {taken first second : List α} (h : taken <+: first ++ second) :
    taken <+: first ∨ ∃ later, taken = first ++ later ∧ later <+: second := by
  rcases List.prefix_or_prefix_of_prefix h (List.prefix_append first second) with h' | ⟨later, rfl⟩
  · exact .inl h'
  · exact .inr ⟨later, rfl, (List.prefix_append_right_inj first).mp h⟩

/-- Where a list with a last item is cut in front of an item, that is the last, or one before. -/
theorem cut_cases {α : Type} {first taken rest : List α} {last s : α}
    (h : first ++ [last] = taken ++ s :: rest) :
    taken = first ∧ s = last ∨ ∃ between, first = taken ++ s :: between := by
  rcases List.eq_nil_or_concat rest with rfl | ⟨between, x, rfl⟩
  · obtain ⟨rfl, hlast⟩ := List.append_inj' h rfl
    exact .inl ⟨rfl, (List.cons.inj hlast).1.symm⟩
  · have hassoc : first ++ [last] = (taken ++ s :: between) ++ [x] := by
      simpa using h
    exact .inr ⟨between, (List.append_inj' hassoc rfl).1⟩

theorem foldl_rowBlock {copied : Nat} {row : Row} {more : List StoredRow}
    (h : all.drop copied = job.stored row :: more) :
    (job.rowBlock (copied + 1) row).foldl Tally.next (Tally.afterRows job base all copied) =
      Tally.afterRows job base all (copied + 1) := by
  have hfetch : (Tally.afterRows job base all copied).next .fetch =
      Tally.afterRows job base all copied := rfl
  rw [CopyJob.rowBlock, List.foldl_cons, List.foldl_cons, hfetch, afterRows_insert h,
    CopyJob.batchEnd]
  rcases succ_div_mod job.batch_pos copied with ⟨-, hdiv, hmod⟩ | ⟨hroom, hdiv, hmod⟩
  · rw [if_neg (by omega), List.foldl_nil, afterInsert_within hdiv hmod]
  · rw [if_pos hmod, List.foldl_cons, List.foldl_cons, List.foldl_cons, List.foldl_nil,
      afterInsert_commit hroom hdiv, afterCommit_begin, afterCommit_report hmod hdiv]

theorem holding_in_rowBlock {copied : Nat} {row : Row} {more : List StoredRow} {taken : List Step}
    (h : all.drop copied = job.stored row :: more)
    (htaken : taken <+: job.rowBlock (copied + 1) row) :
    ∃ m p, job.batch ∣ m ∧
      Holding job base all m p (taken.foldl Tally.next (Tally.afterRows job base all copied)) := by
  have hlt : copied < all.length := by
    have hlength := congrArg List.length h
    rw [List.length_drop, List.length_cons] at hlength
    omega
  have hbefore := @holding_afterRows job base all copied (Nat.le_of_lt hlt)
  have hinsert := @holding_afterInsert job base all copied hlt
  have whole (n : Nat) : job.batch ∣ job.batch * n := Nat.dvd_mul_right job.batch n
  rcases List.prefix_cons_iff.mp htaken with rfl | ⟨taken, rfl, hrow⟩
  · exact ⟨_, _, whole _, hbefore⟩
  rcases List.prefix_cons_iff.mp hrow with rfl | ⟨taken, rfl, hend⟩
  · exact ⟨_, _, whole _, hbefore⟩
  have hfetch : (Tally.afterRows job base all copied).next .fetch =
      Tally.afterRows job base all copied := rfl
  rw [List.foldl_cons, List.foldl_cons, hfetch, afterRows_insert h]
  rw [CopyJob.batchEnd] at hend
  rcases succ_div_mod job.batch_pos copied with ⟨-, -, hmod⟩ | ⟨hroom, hdiv, hmod⟩
  · rw [if_neg (by omega), List.prefix_nil] at hend
    subst hend
    exact ⟨_, _, whole _, hinsert⟩
  · rw [if_pos hmod] at hend
    have hcommit (begins : Nat) := @holding_afterCommit job base all (copied + 1) begins hlt hmod
    -- nothing of the batch's end was taken, or the commit, or the begin too, or all of it
    rcases List.prefix_cons_iff.mp hend with rfl | ⟨taken, rfl, hbegin⟩
    · exact ⟨_, _, whole _, hinsert⟩
    rw [List.foldl_cons, afterInsert_commit hroom hdiv]
    rcases List.prefix_cons_iff.mp hbegin with rfl | ⟨taken, rfl, hreport⟩
    · exact ⟨_, _, whole _, hcommit _⟩
    rw [List.foldl_cons, afterCommit_begin]
    rcases List.prefix_cons_iff.mp hreport with rfl | ⟨taken, rfl, hnil⟩
    · exact ⟨_, _, whole _, hcommit _⟩
    rw [List.prefix_nil] at hnil
    subst hnil
    rw [List.foldl_cons, afterCommit_report hmod hdiv]
    exact ⟨_, _, whole _, holding_afterRows hlt⟩

theorem drop_stored_cons {copied : Nat} {row : Row} {rows : List Row} {more : List StoredRow}
    (h : all.drop copied = (row :: rows).map job.stored ++ more) :
    all.drop copied = job.stored row :: (rows.map job.stored ++ more) ∧
      all.drop (copied + 1) = rows.map job.stored ++ more := by
  have hcons : all.drop copied = job.stored row :: (rows.map job.stored ++ more) := h
  refine ⟨hcons, ?_⟩
  rw [← List.tail_drop, hcons, List.tail_cons]

theorem foldl_rowBlocks {copied : Nat} {rows : List Row} {more : List StoredRow}
    (h : all.drop copied = rows.map job.stored ++ more) :
    (job.rowBlocks copied rows).foldl Tally.next (Tally.afterRows job base all copied) =
      Tally.afterRows job base all (copied + rows.length) := by
  induction rows generalizing copied with
  | nil => rfl
  | cons row rows ih =>
    obtain ⟨hrow, hrows⟩ := drop_stored_cons h
    rw [CopyJob.rowBlocks, List.foldl_append, foldl_rowBlock hrow, ih hrows, List.length_cons,
      Nat.add_right_comm, Nat.add_assoc]

/-- At every moment of the rows full batches are committed and at most one batch is pending. -/
theorem holding_in_rowBlocks {copied : Nat} {rows : List Row} {more : List StoredRow}
    {taken : List Step} (h : all.drop copied = rows.map job.stored ++ more)
    (hcopied : copied ≤ all.length) (htaken : taken <+: job.rowBlocks copied rows) :
    ∃ m p, job.batch ∣ m ∧
      Holding job base all m p (taken.foldl Tally.next (Tally.afterRows job base all copied)) := by
  induction rows generalizing copied taken with
  | nil =>
    rw [CopyJob.rowBlocks, List.prefix_nil] at htaken
    subst htaken
    exact ⟨_, _, Nat.dvd_mul_right _ _, holding_afterRows hcopied⟩
  | cons row rows ih =>
    obtain ⟨hrow, hrows⟩ := drop_stored_cons h
    rcases append_cases htaken with hin | ⟨later, rfl, hlater⟩
    · exact holding_in_rowBlock hrow hin
    · rw [List.foldl_append, foldl_rowBlock hrow]
      refine ih hrows ?_ hlater
      have hlength := congrArg List.length hrow
      rw [List.length_drop, List.length_cons] at hlength
      omega

theorem foldl_before_insert {copied : Nat} {rows : List Row} {more : List StoredRow}
    {taken rest : List Step} {table sql : String} {number : Nat} {row : Row}
    (h : all.drop copied = rows.map job.stored ++ more)
    (hsteps : job.rowBlocks copied rows = taken ++ .insert table number sql row :: rest) :
    ∃ k, number = k + 1 ∧ k < all.length ∧
      taken.foldl Tally.next (Tally.afterRows job base all copied) =
        Tally.afterRows job base all k := by
  induction rows generalizing copied taken with
  | nil =>
    have hlength := congrArg List.length hsteps
    simp [CopyJob.rowBlocks] at hlength
  | cons row' rows ih =>
    obtain ⟨hrow, hrows⟩ := drop_stored_cons h
    rw [CopyJob.rowBlocks] at hsteps
    rcases List.append_eq_append_iff.mp hsteps with ⟨later, rfl, hlater⟩ | ⟨later, hblock, hlater⟩
    · rw [List.foldl_append, foldl_rowBlock hrow]
      exact ih hrows hlater
    cases later with
    | nil =>
      rw [List.append_nil] at hblock
      rw [← hblock, foldl_rowBlock hrow]
      exact @ih (copied + 1) [] hrows hlater.symm
    | cons s later =>
      -- the insert is within the block, where there is only one
      obtain ⟨rfl, -⟩ := List.cons.inj hlater
      rw [CopyJob.rowBlock] at hblock
      cases taken with
      | nil => cases hblock
      | cons _ taken =>
        obtain ⟨rfl, hafter⟩ := List.cons.inj hblock
        cases taken with
        | nil =>
          obtain ⟨hinsert, -⟩ := List.cons.inj hafter
          injection hinsert with _ hnumber _ _
          have hlength := congrArg List.length hrow
          rw [List.length_drop, List.length_cons] at hlength
          exact ⟨copied, hnumber.symm, by omega, rfl⟩
        | cons _ taken =>
          obtain ⟨-, hend⟩ := List.cons.inj hafter
          have hmem : Step.insert table number sql row ∈ job.batchEnd (copied + 1) := by
            rw [hend]
            exact List.mem_append_right _ List.mem_cons_self
          rcases job.mem_batchEnd hmem with h | h | h <;> cases h

theorem holding_lastCommit :
    Holding job base all all.length 0 ((Tally.afterRows job base all all.length).next .commit) where
  committed := by
    have hsplit := Nat.div_add_mod all.length job.batch
    simp only [Tally.next, Tally.afterRows, List.append_assoc]
    rw [← List.take_add, hsplit]
  pending := by simp [Tally.next]
  inserts := rfl
  within := Nat.le_refl _
  room := Nat.zero_le _
  reported := ⟨all.length / job.batch, rfl, Nat.div_mul_le_self _ _⟩

end Count

def CopyJob.steps (job : CopyJob) (items : List (Outcome Row)) : List Step :=
  .openCursor job.query :: .begin :: (job.rowSteps {} items).1

theorem CopyJob.commits_steps (job : CopyJob) {count : CopyCount} {items : List (Outcome Row)}
    (h : (job.rowSteps {} items).2 = .ok count) :
    count.commits = (operations (job.steps items)).count .commit := by
  rw [job.commits_rowSteps h, Nat.zero_add]
  rfl

/-- A step for the rows of a copy: an insert is of a row that the cursor yields and that has a cell
for each column. -/
inductive RowStep (job : CopyJob) (items : List (Outcome Row)) : Step → Prop where
  | fetch : RowStep job items .fetch
  | begin : RowStep job items .begin
  | commit : RowStep job items .commit
  | report (rows : Nat) : RowStep job items (.report job.table rows job.estimatedRows)
  | insert {row : Row} (number : Nat) (yielded : .ok row ∈ items)
      (fits : row.length = job.columns.length) :
      RowStep job items (.insert job.table number job.insert (row.map Cell.scrubbed))

theorem RowStep.cons {job : CopyJob} {items : List (Outcome Row)} {s : Step} (item : Outcome Row)
    (h : RowStep job items s) : RowStep job (item :: items) s := by
  cases h with
  | fetch => exact .fetch
  | begin => exact .begin
  | commit => exact .commit
  | report rows => exact .report rows
  | insert number yielded fits => exact .insert number (List.mem_cons_of_mem _ yielded) fits

theorem CopyJob.forall_rowSteps (job : CopyJob) (done : CopyCount) (items : List (Outcome Row)) :
    ∀ s ∈ (job.rowSteps done items).1, RowStep job items s := by
  induction items generalizing done with
  | nil => exact List.forall_mem_singleton.mpr .commit
  | cons item rest ih =>
    cases item with
    | error e => exact List.forall_mem_singleton.mpr .fetch
    | ok row =>
      rw [CopyJob.rowSteps]
      split
      · rename_i hwidth
        have hend : ∀ s ∈ job.batchEnd (done.rows + 1), RowStep job (.ok row :: rest) s := by
          intro s hs
          rcases job.mem_batchEnd hs with rfl | rfl | rfl
          · exact .commit
          · exact .begin
          · exact .report _
        have hlater := fun s hs => (ih (job.counted done) s hs).cons (.ok row)
        refine List.forall_mem_cons.mpr ⟨.fetch, List.forall_mem_cons.mpr ⟨?_, ?_⟩⟩
        · exact .insert _ List.mem_cons_self hwidth
        · exact List.forall_mem_append.mpr ⟨hend, hlater⟩
      · exact List.forall_mem_singleton.mpr .fetch

theorem execute_not_mem_steps (job : CopyJob) (items : List (Outcome Row)) (sql : String) :
    Step.execute sql ∉ job.steps items := by
  have hrows : Step.execute sql ∉ (job.rowSteps {} items).1 := by
    intro hmem
    cases job.forall_rowSteps {} items _ hmem
  simp [CopyJob.steps, hrows]

/-- Where the rows of a cursor are copied to the end, all were had and have a cell for each
column. -/
theorem CopyJob.rowSteps_ok {job : CopyJob} {done last : CopyCount} {items : List (Outcome Row)}
    (h : (job.rowSteps done items).2 = .ok last) :
    ∃ rows : List Row, items = rows.map .ok ∧
      (∀ row ∈ rows, row.length = job.columns.length) ∧ last.rows = done.rows + rows.length := by
  induction items generalizing done with
  | nil =>
    cases h
    exact ⟨[], rfl, by simp, rfl⟩
  | cons item rest ih =>
    cases item with
    | error e => cases h
    | ok row =>
      rw [CopyJob.rowSteps] at h
      split at h
      · rename_i hwidth
        obtain ⟨rows, rfl, hrows, hlast⟩ := ih h
        refine ⟨row :: rows, rfl, List.forall_mem_cons.mpr ⟨hwidth, hrows⟩, ?_⟩
        rw [hlast, CopyJob.counted_rows, List.length_cons]
        omega
      · cases h

section Moments

variable {job : CopyJob} {base : List StoredRow} {items : List (Outcome Row)}

/-- The rows that a cursor yields, as the copy stores them. -/
def CopyJob.storedRows (job : CopyJob) (items : List (Outcome Row)) : List StoredRow :=
  (CursorRows.ofList items).rows.map job.stored

/-- The steps of a copy: good rows at the start of all, and a last step that is a commit behind the
last row or a fetch that brings none. -/
theorem steps_cases (job : CopyJob) (items : List (Outcome Row)) :
    ∃ good last more, (job.storedRows items).drop 0 = good.map job.stored ++ more ∧
      job.steps items = .openCursor job.query :: .begin :: (job.rowBlocks 0 good ++ [last]) ∧
      (last = .commit ∧ items = good.map .ok ∧ more = [] ∧
          (∃ count, (job.rowSteps {} items).2 = .ok count ∧ count.rows = good.length) ∨
        last = .fetch ∧ ∃ message,
          (job.rowSteps {} items).2 =
            .error (.transfer job.table (good.length + 1) message)) := by
  rcases job.rowSteps_cases {} items with
    ⟨good, count, hitems, hcount, hsteps⟩ | ⟨good, bad, rest, message, hitems, hsteps⟩
  · refine ⟨good, .commit, [], ?_, ?_, .inl ⟨rfl, hitems, rfl, count, ?_, ?_⟩⟩
    · have hrows := rows_ofList_append good []
      rw [List.append_nil, ← hitems] at hrows
      rw [CopyJob.storedRows, hrows]
      simp [CursorRows.ofList]
    · rw [CopyJob.steps, hsteps]
    · rw [hsteps]
    · rw [hcount, Nat.zero_add]
  · refine ⟨good, .fetch, (CursorRows.ofList (bad :: rest)).rows.map job.stored, ?_, ?_,
      .inr ⟨rfl, message, ?_⟩⟩
    · rw [CopyJob.storedRows, hitems, rows_ofList_append, List.map_append, List.drop_zero]
    · rw [CopyJob.steps, hsteps]
    · rw [hsteps, Nat.zero_add]

theorem start_begin (job : CopyJob) (base all : List StoredRow) (query : String) :
    ((Tally.start base).next (.openCursor query)).next .begin = Tally.afterRows job base all 0 := by
  simp [Tally.start, Tally.next, Tally.afterRows, batchEnds]

theorem holding_inside {good : List Row} {more : List StoredRow} {taken : List Step}
    {query : String} (hall : (job.storedRows items).drop 0 = good.map job.stored ++ more)
    (h : taken <+: .openCursor query :: .begin :: job.rowBlocks 0 good) :
    ∃ m p, job.batch ∣ m ∧
      Holding job base (job.storedRows items) m p (taken.foldl Tally.next (Tally.start base)) := by
  rcases List.prefix_cons_iff.mp h with rfl | ⟨taken, rfl, hbegin⟩
  · exact ⟨0, 0, Nat.dvd_zero _, holding_start⟩
  rcases List.prefix_cons_iff.mp hbegin with rfl | ⟨taken, rfl, hrows⟩
  · exact ⟨0, 0, Nat.dvd_zero _, holding_start⟩
  rw [List.foldl_cons, List.foldl_cons, start_begin job base (job.storedRows items)]
  exact holding_in_rowBlocks hall (Nat.zero_le _) hrows

/-- Before any step of a copy full batches are committed; before an insert, all rows in front of it
are inserted. -/
theorem holding_before {taken rest : List Step} {s : Step}
    (hsteps : job.steps items = taken ++ s :: rest) :
    ∃ m p, job.batch ∣ m ∧
      Holding job base (job.storedRows items) m p (taken.foldl Tally.next (Tally.start base)) ∧
      ∀ table number sql row, s = .insert table number sql row →
        number = m + p + 1 ∧ m = job.batch * ((m + p) / job.batch) := by
  obtain ⟨good, last, more, hall, hcopy, hlast⟩ := steps_cases job items
  have hcut := hcopy.symm.trans hsteps
  rw [← List.cons_append, ← List.cons_append] at hcut
  by_cases hinsert : ∃ table number sql row, s = .insert table number sql row
  · obtain ⟨table, number, sql, row, rfl⟩ := hinsert
    rcases cut_cases hcut with ⟨-, rfl⟩ | ⟨between, hfront⟩
    · rcases hlast with ⟨hlast, -⟩ | ⟨hlast, -⟩
      · cases hlast
      · cases hlast
    -- the copy begins with two steps that insert nothing, so the insert is among the rows
    match taken with
    | [] => cases hfront
    | [_] =>
      obtain ⟨-, hbegin⟩ := List.cons.inj hfront
      cases hbegin
    | _ :: _ :: taken =>
      obtain ⟨rfl, hbegin⟩ := List.cons.inj hfront
      obtain ⟨rfl, hblocks⟩ := List.cons.inj hbegin
      obtain ⟨k, rfl, hk, hcount⟩ := @foldl_before_insert job base _ _ _ _ _ _ _ _ _ _ hall hblocks
      rw [List.foldl_cons, List.foldl_cons, start_begin job base (job.storedRows items), hcount]
      refine ⟨_, _, Nat.dvd_mul_right job.batch (k / job.batch),
        holding_afterRows (Nat.le_of_lt hk), ?_⟩
      intro table' number' sql' row' heq
      injection heq with _ hnumber _ _
      rw [Nat.div_add_mod]
      exact ⟨hnumber.symm, rfl⟩
  · have hstart : taken <+: .openCursor job.query :: .begin :: job.rowBlocks 0 good := by
      rcases cut_cases hcut with ⟨rfl, -⟩ | ⟨between, hfront⟩
      · exact List.prefix_rfl
      · exact ⟨s :: between, hfront.symm⟩
    obtain ⟨m, p, hm, hholding⟩ := @holding_inside job base items _ _ _ _ hall hstart
    refine ⟨m, p, hm, hholding, ?_⟩
    rintro table number sql row rfl
    exact absurd ⟨table, number, sql, row, rfl⟩ hinsert

theorem holding_end (job : CopyJob) (base : List StoredRow) (items : List (Outcome Row)) :
    (∃ n, items = (CursorRows.ofList items).rows.map .ok ∧
        n = (CursorRows.ofList items).rows.length ∧
        (∃ count, (job.rowSteps {} items).2 = .ok count ∧ count.rows = n) ∧
        (job.steps items).foldl Tally.next (Tally.start base) =
          (Tally.afterRows job base (job.storedRows items) n).next .commit ∧
        Holding job base (job.storedRows items) n 0
          ((Tally.afterRows job base (job.storedRows items) n).next .commit)) ∨
      ∃ n message, (job.rowSteps {} items).2 = .error (.transfer job.table (n + 1) message) ∧
        n ≤ (job.storedRows items).length ∧
        (job.steps items).foldl Tally.next (Tally.start base) =
          Tally.afterRows job base (job.storedRows items) n := by
  obtain ⟨good, last, more, hall, hcopy, hlast⟩ := steps_cases job items
  have hblocks := @foldl_rowBlocks job base _ _ _ _ hall
  rw [Nat.zero_add] at hblocks
  -- a last commit stores what the rows left pending; a last fetch stores nothing
  rcases hlast with ⟨rfl, hitems, rfl, hok⟩ | ⟨rfl, message, herror⟩
  · left
    have hrows : (CursorRows.ofList items).rows = good := by
      have hrows := rows_ofList_append good []
      rw [List.append_nil, ← hitems] at hrows
      simpa [CursorRows.ofList] using hrows
    have hlength : good.length = (job.storedRows items).length := by
      rw [CopyJob.storedRows, hrows, List.length_map]
    refine ⟨good.length, by rw [hrows, ← hitems], by rw [hrows], hok, ?_, ?_⟩
    · rw [hcopy, List.foldl_cons, List.foldl_cons, start_begin job base (job.storedRows items),
        List.foldl_append, hblocks]
      rfl
    · rw [hlength]
      exact holding_lastCommit
  · right
    refine ⟨good.length, message, herror, ?_, ?_⟩
    · have hlength := congrArg List.length hall
      rw [List.drop_zero, List.length_append, List.length_map] at hlength
      omega
    · rw [hcopy, List.foldl_cons, List.foldl_cons, start_begin job base (job.storedRows items),
        List.foldl_append, hblocks]
      rfl

theorem holding_moment {taken : List Step} (h : taken <+: job.steps items) :
    ∃ m p, Holding job base (job.storedRows items) m p
      (taken.foldl Tally.next (Tally.start base)) := by
  obtain ⟨rest, hrest⟩ := h
  cases rest with
  | nil =>
    rw [List.append_nil] at hrest
    rw [hrest]
    rcases holding_end job base items with ⟨n, -, -, -, hcount, hholding⟩ | ⟨n, -, -, hn, hcount⟩
    · rw [hcount]
      exact ⟨_, _, hholding⟩
    · rw [hcount]
      exact ⟨_, _, holding_afterRows hn⟩
  | cons s rest =>
    obtain ⟨m, p, -, hholding, -⟩ := holding_before hrest.symm
    exact ⟨m, p, hholding⟩

end Moments

/-! ## Runs of a copy -/

section Runs

variable {σ : Type} {target : Target σ} {view : σ → Held} {pace : Pace}

/-- What was sent in a run, what it reported, and which rows the target holds, is what was
counted. -/
structure Counted (view : σ → Held) (r : Run σ) (t : Tally) : Prop where
  held : view r.state = t.held
  inserts : r.sent.toList.countP Operation.isInsert = t.inserts
  begins : r.sent.toList.count .begin = t.begins
  commits : r.sent.toList.count .commit = t.commits
  reported : r.samples.toList.map (·.rows) = t.reported

theorem Tally.next_of_operation {s : Step} {op : Operation} (h : s.operation? = some op)
    (t : Tally) :
    (t.next s).held = t.held.after op ∧
      (t.next s).inserts = t.inserts + [op].countP Operation.isInsert ∧
      (t.next s).begins = t.begins + [op].count .begin ∧
      (t.next s).commits = t.commits + [op].count .commit ∧
      (t.next s).reported = t.reported := by
  cases s with
  | execute sql => cases h; exact ⟨rfl, rfl, rfl, rfl, rfl⟩
  | begin => cases h; exact ⟨rfl, rfl, rfl, rfl, rfl⟩
  | insert table number sql row => cases h; exact ⟨rfl, rfl, rfl, rfl, rfl⟩
  | commit => cases h; exact ⟨rfl, rfl, rfl, rfl, rfl⟩
  | openCursor query => cases h
  | fetch => cases h
  | report table rows estimated => cases h

theorem Counted.next (keeps : KeepsRows target view) {r after : Run σ} {s : Step} {t : Tally}
    (counted : Counted view r t) (h : r.take target pace s = (after, none)) :
    Counted view after (t.next s) := by
  obtain ⟨hheld, hinserts, hbegins, hcommits, hreported⟩ := counted
  rcases Run.take_none h with ⟨op, hop, hnone, rfl⟩ | ⟨hop, rfl⟩
  · obtain ⟨hheld', hinserts', hbegins', hcommits', hreported'⟩ := Tally.next_of_operation hop t
    have hsent : (r.send target pace op).1.sent.toList = r.sent.toList ++ [op] := by
      simp [Run.send]
    refine ⟨?_, ?_, ?_, ?_, ?_⟩
    · have hafter := keeps.taken r.state op hnone
      rw [hheld] at hafter
      exact hafter.trans hheld'.symm
    · rw [hsent, List.countP_append, hinserts, hinserts']
    · rw [hsent, List.count_append, hbegins, hbegins']
    · rw [hsent, List.count_append, hcommits, hcommits']
    · rw [hreported']
      exact hreported
  · cases s with
    | openCursor query => exact ⟨hheld, hinserts, hbegins, hcommits, hreported⟩
    | fetch => exact ⟨hheld, hinserts, hbegins, hcommits, hreported⟩
    | report table rows estimated =>
      exact ⟨hheld, hinserts, hbegins, hcommits, by simp [Run.note, Tally.next, hreported]⟩
    | execute sql => cases hop
    | begin => cases hop
    | insert table number sql row => cases hop
    | commit => cases hop

theorem Counted.foldl (keeps : KeepsRows target view) {r after : Run σ} {steps : List Step}
    {t : Tally} (counted : Counted view r t) (h : Run.Taken target pace r steps after) :
    Counted view after (steps.foldl Tally.next t) := by
  induction h generalizing t with
  | nil => exact counted
  | cons head tail ih => exact ih (counted.next keeps head)

theorem counted_start {initial : σ} (idle : (view initial).pending = []) :
    Counted view { state := initial } (Tally.start (view initial).committed) where
  held := by
    show view initial = ⟨(view initial).committed, []⟩
    rw [← idle]
  inserts := rfl
  begins := rfl
  commits := rfl
  reported := rfl

theorem accepted_of_taken {initial : σ} {after : Run σ} {steps : List Step}
    (h : Run.Taken target pace { state := initial } steps after) :
    target.accepted initial after.sent.toList = after.sent.toList := by
  have hsent : after.sent.toList = operations steps := h.sent
  have haccepted := h.accepted []
  rw [List.append_nil] at haccepted
  rw [hsent]
  exact haccepted.trans (List.append_nil _)

/-- A run that ends with a refusal: the target took what was sent before, and holds the same
rows. -/
theorem accepted_of_refused (keeps : KeepsRows target view) {initial : σ} {mid after : Run σ}
    {steps : List Step} {s : Step} {e : MigrationError}
    (h : Run.Taken target pace { state := initial } steps mid)
    (hlast : mid.take target pace s = (after, some e)) :
    target.accepted initial after.sent.toList = mid.sent.toList ∧
      view after.state = view mid.state ∧ after.samples = mid.samples := by
  obtain ⟨op, cause, -, hcause, -, rfl⟩ := Run.take_some hlast
  have hsent : mid.sent.toList = operations steps := h.sent
  refine ⟨?_, keeps.refused mid.state op cause hcause, rfl⟩
  have haccepted := h.accepted [op]
  rw [Target.accepted, hcause] at haccepted
  rw [Run.send, Array.toList_push, hsent]
  exact haccepted.trans (List.append_nil _)

/-! ## Copies -/

/-- What a copy of `rows` leaves on its target: `m` rows committed and `p` rows pending. -/
structure DurableCopy (job : CopyJob) (rows : List Row) (before after : Held)
    (accepted : List Operation) (outcome : Outcome CopyStats) (m p : Nat) : Prop where
  /-- The first rows of the source are committed, in their order and each once. -/
  committed : after.committed = before.committed ++ (rows.take m).map job.stored
  /-- The next rows are pending. -/
  pending : after.pending = ((rows.drop m).take p).map job.stored
  /-- What is stored of a row is the row itself, cell by cell, but for the NULs of its texts. -/
  copies : ∃ added, after.committed = before.committed ++ added ∧
    StoresRows job.insert (rows.take m) added ∧
    StoresRows job.insert ((rows.drop m).take p) after.pending
  within : m + p ≤ rows.length
  inserts : accepted.countP Operation.isInsert = m + p
  room : p ≤ job.batch
  /-- Full batches are committed, unless the copy came to its end. -/
  whole : job.batch ∣ m ∨ ∃ stats, outcome = .ok stats
  /-- The number in an error is that of the first row that was not inserted. -/
  failed : ∀ table number message, outcome = .error (.transfer table number message) →
    number = m + p + 1 ∧ m = job.batch * ((number - 1) / job.batch)

/-- What a copy that came to its end did. -/
structure FinishedCopy (job : CopyJob) (items : List (Outcome Row)) (sent : List Operation)
    (reported : List Nat) (stats : CopyStats) (m p : Nat) : Prop where
  /-- The source had no row that could not be had. -/
  yielded : items = (CursorRows.ofList items).rows.map .ok
  rows : stats.rows = items.length
  all : m = items.length
  closed : p = 0
  commits : stats.commits = items.length / job.batch + 1
  commitsSent : sent.count .commit = items.length / job.batch + 1
  begins : sent.count .begin = items.length / job.batch + 1
  reported : reported = batchEnds job.batch (items.length / job.batch)

def copyMoment (job : CopyJob) (items : List (Outcome Row)) (target : Target σ) (pace : Pace)
    (initial : σ) (k : Nat) : Run σ :=
  (Run.takeAll target pace { state := initial } ((job.draft (.ok items) .empty).steps.take k)).1

/-- What holds of the count at the end of a copy is true of the rows on its target. -/
theorem durable_of_holding {job : CopyJob} {items : List (Outcome Row)} {before after : Held}
    {accepted : List Operation} {outcome : Outcome CopyStats} {m p : Nat} {t : Tally}
    (h : Holding job before.committed (job.storedRows items) m p t) (held : after = t.held)
    (inserts : accepted.countP Operation.isInsert = t.inserts)
    (whole : job.batch ∣ m ∨ ∃ stats, outcome = .ok stats)
    (failed : ∀ table number message, outcome = .error (.transfer table number message) →
      number = m + p + 1 ∧ m = job.batch * ((number - 1) / job.batch)) :
    DurableCopy job (CursorRows.ofList items).rows before after accepted outcome m p := by
  have hcommitted : after.committed =
      before.committed ++ ((CursorRows.ofList items).rows.take m).map job.stored := by
    rw [held, Tally.held, h.committed, CopyJob.storedRows, List.map_take]
  have hpending : after.pending =
      (((CursorRows.ofList items).rows.drop m).take p).map job.stored := by
    rw [held, Tally.held, h.pending, CopyJob.storedRows, List.map_take, List.map_drop]
  constructor
  case committed => exact hcommitted
  case pending => exact hpending
  case copies =>
    refine ⟨_, hcommitted, storesRows_map job _, ?_⟩
    rw [hpending]
    exact storesRows_map job _
  case within =>
    have hwithin := h.within
    rwa [CopyJob.storedRows, List.length_map] at hwithin
  case inserts => exact inserts.trans h.inserts
  case room => exact h.room
  case whole => exact whole
  case failed => exact failed

/-- At every moment of a copy the reports told of rows that were committed then. -/
theorem reported_at_moment (keeps : KeepsRows target view) (job : CopyJob)
    (items : List (Outcome Row)) (pace : Pace) {initial : σ} (idle : (view initial).pending = [])
    (k : Nat) :
    ∃ q, (copyMoment job items target pace initial k).samples.toList.map (·.rows) =
        batchEnds job.batch q ∧
      (view initial).committed.length + q * job.batch ≤
        (view (copyMoment job items target pace initial k).state).committed.length := by
  obtain ⟨taken, mid, hstart, htaken, hend⟩ :=
    @Run.takeAll_start σ target pace { state := initial } ((job.steps items).take k)
  have hcounted := (counted_start idle).foldl keeps htaken
  obtain ⟨m, p, hholding⟩ := @holding_moment job (view initial).committed items taken
    (hstart.trans (List.take_prefix k _))
  obtain ⟨q, hq, hle⟩ := hholding.reported
  have hsame : (copyMoment job items target pace initial k).samples = mid.samples ∧
      view (copyMoment job items target pace initial k).state = view mid.state := by
    rcases hend with hmid | ⟨s, e, hlast⟩
    · have hmoment : copyMoment job items target pace initial k = mid := hmid
      rw [hmoment]
      exact ⟨rfl, rfl⟩
    · obtain ⟨-, hview, hsamples⟩ := accepted_of_refused keeps htaken hlast
      exact ⟨hsamples, hview⟩
  rw [hsame.1, hsame.2]
  refine ⟨q, hcounted.reported.trans hq, ?_⟩
  have hlength : (job.storedRows items).length = (CursorRows.ofList items).rows.length :=
    List.length_map _
  rw [hcounted.held, Tally.held, hholding.committed, List.length_append, List.length_take]
  have hwithin := hholding.within
  omega

theorem durable_of_taken (keeps : KeepsRows target view) {job : CopyJob}
    {items : List (Outcome Row)}
    {initial : σ} (idle : (view initial).pending = []) {after : Run σ} {outcome : Outcome CopyStats}
    (htaken : Run.Taken target pace { state := initial } (job.steps items) after)
    (houtcome : outcome = (job.rowSteps {} items).2.map fun copied =>
      { rows := copied.rows, commits := copied.commits, batch := job.batch,
        elapsed := after.elapsed - after.copyStart }) :
    ∃ m p, DurableCopy job (CursorRows.ofList items).rows (view initial) (view after.state)
        (target.accepted initial after.sent.toList) outcome m p ∧
      ∀ stats, outcome = .ok stats → FinishedCopy job items after.sent.toList
        (after.samples.toList.map (·.rows)) stats m p := by
  have hcounted := (counted_start idle).foldl keeps htaken
  have haccepted := accepted_of_taken htaken
  rcases holding_end job (view initial).committed items with
    ⟨n, hyielded, hn, ⟨count, hok, hrows⟩, hcount, hholding⟩ | ⟨n, message, herror, hn, hcount⟩
  · have hcommits := job.commits_steps hok
    rw [hok] at houtcome
    rw [hcount] at hcounted
    have hlength : items.length = n := by
      rw [hyielded, List.length_map, hn]
    refine ⟨n, 0, durable_of_holding hholding hcounted.held ?_ (.inr ⟨_, houtcome⟩) ?_, ?_⟩
    · rw [haccepted, hcounted.inserts]
    · intro table number text herror
      rw [houtcome] at herror
      cases herror
    · intro stats hstats
      rw [houtcome] at hstats
      obtain rfl := Except.ok.inj hstats
      have hsent : after.sent.toList = operations (job.steps items) := htaken.sent
      refine ⟨hyielded, hrows.trans hlength.symm, hlength.symm, rfl, ?_, ?_, ?_, ?_⟩
      · show count.commits = _
        rw [hcommits, ← hsent, hcounted.commits, hlength]
        rfl
      · rw [hcounted.commits, hlength]
        rfl
      · rw [hcounted.begins, hlength]
        rfl
      · rw [hcounted.reported, hlength]
        rfl
  · rw [herror] at houtcome
    rw [hcount] at hcounted
    have hholding := @holding_afterRows job (view initial).committed _ _ hn
    refine ⟨_, _, durable_of_holding hholding hcounted.held ?_ (.inl (Nat.dvd_mul_right _ _))
      ?_, ?_⟩
    · rw [haccepted, hcounted.inserts]
    · intro table number text hfailed
      rw [houtcome] at hfailed
      cases hfailed
      rw [Nat.div_add_mod]
      exact ⟨rfl, rfl⟩
    · intro stats hstats
      rw [houtcome] at hstats
      cases hstats

theorem durable_of_refused (keeps : KeepsRows target view) {job : CopyJob}
    {items : List (Outcome Row)} {initial : σ} (idle : (view initial).pending = [])
    {mid after : Run σ} {taken rest : List Step} {s : Step} {e : MigrationError}
    (hsteps : job.steps items = taken ++ s :: rest)
    (htaken : Run.Taken target pace { state := initial } taken mid)
    (hlast : mid.take target pace s = (after, some e)) :
    ∃ m p, DurableCopy job (CursorRows.ofList items).rows (view initial) (view after.state)
        (target.accepted initial after.sent.toList) (.error e) m p := by
  have hcounted := (counted_start idle).foldl keeps htaken
  obtain ⟨haccepted, hview, -⟩ := accepted_of_refused keeps htaken hlast
  obtain ⟨m, p, hm, hholding, hinsert⟩ :=
    @holding_before job (view initial).committed items taken rest s hsteps
  refine ⟨m, p, durable_of_holding hholding (hview.trans hcounted.held) ?_ (.inl hm) ?_⟩
  · rw [haccepted, hcounted.inserts]
  · intro table number message herror
    obtain rfl := Except.error.inj herror
    obtain ⟨op, cause, hop, hcause, hfailure, -⟩ := Run.take_some hlast
    -- only the refusal of an insert speaks of a row
    cases s with
    | insert table' number' sql row =>
      obtain ⟨hnumber, hwhole⟩ := hinsert table' number' sql row rfl
      cases hfailure
      rw [hnumber, Nat.add_sub_cancel]
      exact ⟨rfl, hwhole⟩
    | begin =>
      cases hop
      exact absurd (hfailure ▸ hcause) (keeps.told mid.state table number message).1
    | commit =>
      cases hop
      exact absurd (hfailure ▸ hcause) (keeps.told mid.state table number message).2
    | execute sql =>
      refine absurd ?_ (execute_not_mem_steps job items sql)
      rw [hsteps]
      exact List.mem_append_right _ List.mem_cons_self
    | openCursor query => cases hop
    | fetch => cases hop
    | report table rows estimated => cases hop

/-- Wherever a copy ends, whole batches of the first rows are committed and the rows that were
inserted after them are pending; at every moment its reports told of committed rows only. -/
theorem copyTable_durable (keeps : KeepsRows target view) (job : CopyJob)
    (items : List (Outcome Row)) (pace : Pace) (initial : σ) (idle : (view initial).pending = [])
    (after : Run σ) (outcome : Outcome CopyStats)
    (ends : copyTable job (.ok items) target pace initial = (after, outcome)) :
    (∃ m p, DurableCopy job (CursorRows.ofList items).rows (view initial) (view after.state)
        (target.accepted initial after.sent.toList) outcome m p ∧
      ∀ stats, outcome = .ok stats → FinishedCopy job items after.sent.toList
        (after.samples.toList.map (·.rows)) stats m p) ∧
    ∀ k, ∃ q, (copyMoment job items target pace initial k).samples.toList.map (·.rows) =
        batchEnds job.batch q ∧
      (view initial).committed.length + q * job.batch ≤
        (view (copyMoment job items target pace initial k).state).committed.length := by
  refine ⟨?_, reported_at_moment keeps job items pace idle⟩
  have hdraft : job.draft (.ok items) .empty =
      ⟨job.steps items, .empty, (job.rowSteps {} items).2⟩ := rfl
  simp only [copyTable, hdraft] at ends
  split at ends
  · rename_i last e hrun
    obtain ⟨rfl, rfl⟩ := Prod.mk.inj ends
    obtain ⟨taken, s, rest, mid, hsteps, htaken, hlast⟩ := Run.takeAll_some_iff.mp hrun
    obtain ⟨m, p, hdurable⟩ := durable_of_refused keeps idle hsteps htaken hlast
    exact ⟨m, p, hdurable, fun stats hstats => by cases hstats⟩
  · rename_i last hrun
    obtain ⟨rfl, rfl⟩ := Prod.mk.inj ends
    exact durable_of_taken keeps idle (Run.takeAll_none_iff.mp hrun) rfl

/-- The commits that a finished copy tells of are those that were sent, whatever the target. -/
theorem copyTable_commits {job : CopyJob} {rows : Outcome (List (Outcome Row))} {initial : σ}
    {after : Run σ} {stats : CopyStats}
    (h : copyTable job rows target pace initial = (after, .ok stats)) :
    stats.commits = after.sent.toList.count .commit := by
  rw [copyTable] at h
  cases rows with
  | error e =>
    cases h
  | ok items =>
    split at h
    · cases h
    · rename_i last hrun
      obtain ⟨rfl, hstats⟩ := Prod.mk.inj h
      have hsent : last.sent.toList = operations (job.steps items) :=
        (Run.takeAll_none_iff.mp hrun).sent
      cases hcopied : (job.rowSteps {} items).2 with
      | error e =>
        rw [CopyJob.draft, hcopied] at hstats
        cases hstats
      | ok count =>
        rw [CopyJob.draft, hcopied] at hstats
        obtain rfl := Except.ok.inj hstats
        rw [hsent]
        exact job.commits_steps hcopied

end Runs

/-- A copy in batches of two rows. -/
def pairwiseJob : CopyJob where
  table := "public.t"
  query := "SELECT [a] FROM [t]"
  insert := "INSERT INTO t VALUES ($1)"
  columns := ["a"]
  estimatedRows := 200

/-- A cursor of five rows, the texts of which hold NULs. -/
def fiveRows : List (Outcome Row) :=
  [.ok [.text "a\x00b"], .ok [.null], .ok [.text "\x00c"], .ok [.bool true], .ok [.text "d"]]

/-- Their copy to a target that refuses the fourth insert. -/
def fourthRefused : Run Memory.Store × Outcome CopyStats :=
  copyTable pairwiseJob (.ok fiveRows) (Memory.target { insert := some 4 }) {} {}

/-- One batch is committed and one row is pending, both without NULs. -/
theorem fourth_insert_refused :
    (heldInMemory {}).pending = [] ∧
      DurableCopy pairwiseJob (CursorRows.ofList fiveRows).rows (heldInMemory {})
        (heldInMemory fourthRefused.1.state)
        ((Memory.target { insert := some 4 }).accepted {} fourthRefused.1.sent.toList)
        fourthRefused.2 2 1 ∧
      (heldInMemory fourthRefused.1.state).committed.map (·.row) = [[.text "ab"], [.null]] ∧
      (heldInMemory fourthRefused.1.state).pending.map (·.row) = [[.text "c"]] := by
  have hdurable := copyTable_durable (memory_keepsRows { insert := some 4 }) pairwiseJob fiveRows
    {} {} rfl fourthRefused.1 fourthRefused.2 rfl
  obtain ⟨⟨m, p, hleft, -⟩, -⟩ := hdurable
  have hfailed : fourthRefused.2 = .error (.transfer "public.t" 4
      (MigrationError.execution "INSERT INTO t VALUES ($1)" "duplicate key").message) := rfl
  obtain ⟨hnumber, hm⟩ := hleft.failed _ _ _ hfailed
  have hbatch : pairwiseJob.batch = 2 := rfl
  rw [hbatch] at hm
  obtain rfl : m = 2 := hm
  obtain rfl : p = 1 := by omega
  refine ⟨rfl, hleft, ?_, ?_⟩
  · rw [hleft.committed]
    decide +kernel
  · rw [hleft.pending]
    decide +kernel

end Migration
