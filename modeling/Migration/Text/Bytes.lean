/-
  Offsets in bytes.

  Positions in a text count the bytes of its UTF-8 form. `byteLength` measures a
  list of characters, and `splitBytes` cuts one where a number of bytes is
  passed.

  What is proved: the bytes counted are those of the text in memory
  (`byteLength_toList`), the two parts of a cut make up the text
  (`splitBytes_append`), and a cut at the length of a beginning finds that
  beginning (`splitBytes_byteLength`).
-/

namespace Migration.Text

/-- The number of bytes of a list of characters in UTF-8. -/
def byteLength : List Char → Nat
  | [] => 0
  | c :: rest => c.utf8Size + byteLength rest

/-- The characters that end within the first `n` bytes, and the others. -/
def splitBytes : Nat → List Char → List Char × List Char
  | _, [] => ([], [])
  | n, c :: rest =>
    if n < c.utf8Size then ([], c :: rest)
    else
      let parts := splitBytes (n - c.utf8Size) rest
      (c :: parts.1, parts.2)

@[simp] theorem byteLength_nil : byteLength [] = 0 := rfl

@[simp] theorem byteLength_cons (c : Char) (rest : List Char) :
    byteLength (c :: rest) = c.utf8Size + byteLength rest := rfl

@[simp] theorem byteLength_append (s t : List Char) :
    byteLength (s ++ t) = byteLength s + byteLength t := by
  induction s with
  | nil => simp
  | cons c rest ih => simp [ih]; omega

theorem utf8ByteSize_ofList (cs : List Char) :
    (String.ofList cs).utf8ByteSize = byteLength cs := by
  induction cs with
  | nil => rfl
  | cons c rest ih =>
    have hsplit : String.ofList (c :: rest) = String.singleton c ++ String.ofList rest := by
      rw [String.singleton_eq_ofList, ← String.ofList_append, List.singleton_append]
    rw [hsplit, String.utf8ByteSize_append, String.utf8ByteSize_singleton, ih, byteLength_cons]

theorem byteLength_toList (s : String) : byteLength s.toList = s.utf8ByteSize := by
  rw [← utf8ByteSize_ofList, String.ofList_toList]

theorem splitBytes_append (n : Nat) (cs : List Char) :
    (splitBytes n cs).1 ++ (splitBytes n cs).2 = cs := by
  induction cs generalizing n with
  | nil => rfl
  | cons c rest ih =>
    simp only [splitBytes]
    split
    · rfl
    · simp [ih]

/-- A cut at the length of a beginning finds that beginning. -/
theorem splitBytes_byteLength (s t : List Char) : splitBytes (byteLength s) (s ++ t) = (s, t) := by
  induction s with
  | nil =>
    cases t with
    | nil => rfl
    | cons c rest => simp [splitBytes, Char.utf8Size_pos]
  | cons c rest ih =>
    have h : ¬ c.utf8Size + byteLength rest < c.utf8Size := by omega
    simp [splitBytes, h, ih]

end Migration.Text
