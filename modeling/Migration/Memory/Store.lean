import Migration.Run

/-
  A target held in memory: what was executed, and which rows it holds.

  Rows that were inserted are pending until a commit. Single operations can be
  made to fail: the n-th insert, commit or begin, and every statement that
  contains a given text. A refused operation changes nothing but the count of its
  sort.
-/

namespace Migration.Memory

/-- Which operations a target refuses. Numbers count from one. -/
structure Faults where
  insert : Option Nat := none
  commit : Option Nat := none
  begin : Option Nat := none
  /-- Statements with this text in them. -/
  containing : Option String := none
  deriving DecidableEq, Repr

/-- An inserted row, with the statement that inserted it. -/
structure StoredRow where
  sql : String
  row : Row
  deriving DecidableEq, Repr

/-- What a target holds, and how often it was asked. -/
structure Store where
  statements : Array String := #[]
  begins : Nat := 0
  commits : Nat := 0
  inserts : Nat := 0
  committed : Array StoredRow := #[]
  pending : Array StoredRow := #[]
  deriving Repr

def occursIn (part : List Char) : List Char → Bool
  | [] => part.isEmpty
  | c :: rest => part.isPrefixOf (c :: rest) || occursIn part rest

def Faults.refusesStatement (f : Faults) (sql : String) : Bool :=
  match f.containing with
  | some text => occursIn text.toList sql.toList
  | none => false

namespace Store

/-- The store after an operation that it takes or, under the faults, refuses. -/
def respond (f : Faults) (s : Store) : Operation → Store × Option MigrationError
  | .execute sql =>
    if f.refusesStatement sql then (s, some (.execution sql "syntax error"))
    else ({ s with statements := s.statements.push sql }, none)
  | .begin =>
    let counted := { s with begins := s.begins + 1 }
    if f.begin = some counted.begins then (counted, some (.execution "BEGIN" "cannot begin"))
    else (counted, none)
  | .insert sql row =>
    let counted := { s with inserts := s.inserts + 1 }
    if f.insert = some counted.inserts then (counted, some (.execution sql "duplicate key"))
    else ({ counted with pending := counted.pending.push ⟨sql, row⟩ }, none)
  | .commit =>
    let counted := { s with commits := s.commits + 1 }
    if f.commit = some counted.commits then (counted, some (.execution "COMMIT" "cannot commit"))
    else ({ counted with committed := counted.committed ++ counted.pending, pending := #[] }, none)

end Store

def target (f : Faults) : Target Store := ⟨Store.respond f⟩

end Migration.Memory
