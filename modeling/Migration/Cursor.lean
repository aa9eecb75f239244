import Migration.Cell
import Migration.Error

/-
  The rows that a cursor yields.

  A cursor ends with its last row or with the first row that cannot be had. What
  is proved: the two forms in which the rows are kept tell the same
  (`ofList_toList`).
-/

namespace Migration

/-- The rows that a cursor yields, and the error that ends it, if one does. -/
structure CursorRows where
  rows : List Row
  failure : Option MigrationError
  deriving Repr

namespace CursorRows

/-- The rows one by one, the error in the place of a row. -/
def toList (c : CursorRows) : List (Outcome Row) :=
  c.rows.map .ok ++ (c.failure.map .error).toList

/-- The rows up to the first that cannot be had. -/
def ofList : List (Outcome Row) → CursorRows
  | [] => ⟨[], none⟩
  | .error e :: _ => ⟨[], some e⟩
  | .ok row :: rest => ⟨row :: (ofList rest).rows, (ofList rest).failure⟩

/-- The two forms tell the same. -/
theorem ofList_toList (c : CursorRows) : ofList c.toList = c := by
  obtain ⟨rows, failure⟩ := c
  induction rows with
  | nil => cases failure <;> rfl
  | cons row rest ih =>
    have h : (⟨row :: rest, failure⟩ : CursorRows).toList
        = .ok row :: (⟨rest, failure⟩ : CursorRows).toList := rfl
    rw [h, ofList, ih]

end CursorRows

end Migration
