import Migration.Proofs.Substitution

/-
  A splice as edits in place.

  A splice goes over a text once, from the left, and keeps a cursor that counts the bytes of the
  text as it was, while what it has written grows and shrinks. The plain way to do the same is to
  put the replacements into the text one at a time. From the right this can be done with the ranges
  as they are, since a replacement moves only what stands behind it. This file

  1. says which replacements can be put into a text (`LieIn`), and what becomes of the text if one
     of them is put in (`Replacement.putInto?`);
  2. describes a splice by the pieces that it keeps and those that it replaces (`Spliced`), and
     proves that all replacements that lie in a text are spliced so (`exists_spliced`,
     `Spliced.splice_eq`), where the cursor counts the bytes that are passed;
  3. derives from the pieces that putting in from the right comes to the same
     (`Spliced.put_from_right`), how long the result is (`Spliced.utf8ByteSize_eq`), where a byte
     outside of the ranges is found again (`Spliced.byte`), and that what is spliced apart can be
     joined (`Spliced.append`, `Spliced.shifted`);
  4. composes these (`splice_put_from_right`). -/

namespace Migration

/-! ## Edits in place -/

/-- The range of a replacement begins and ends between characters of the text. -/
structure Replacement.LiesIn (r : Replacement) (sql : String) : Prop where
  start_le : r.start ≤ r.stop
  start_valid : String.Pos.Raw.IsValid sql ⟨r.start⟩
  stop_valid : String.Pos.Raw.IsValid sql ⟨r.stop⟩

instance (r : Replacement) (sql : String) : Decidable (r.LiesIn sql) :=
  decidable_of_iff
    (r.start ≤ r.stop ∧ String.Pos.Raw.IsValid sql ⟨r.start⟩ ∧
      String.Pos.Raw.IsValid sql ⟨r.stop⟩)
    ⟨fun h => ⟨h.1, h.2.1, h.2.2⟩, fun h => ⟨h.start_le, h.start_valid, h.stop_valid⟩⟩

/-- The ranges of replacements lie in the text, and none begins before the one in front of it has
ended. A range may be empty, and two may touch. -/
structure LieIn (reps : List Replacement) (sql : String) : Prop where
  each : ∀ r ∈ reps, r.LiesIn sql
  inOrder : InOrder reps

instance (reps : List Replacement) (sql : String) : Decidable (LieIn reps sql) :=
  decidable_of_iff
    ((∀ r ∈ reps, r.LiesIn sql) ∧ reps.Pairwise fun (r s : Replacement) => r.stop ≤ s.start)
    ⟨fun h => ⟨h.1, h.2⟩, fun h => ⟨h.each, h.inOrder⟩⟩

/-- The text with one replacement put in the place of its range; nothing where the range does not
begin and end between characters. -/
def Replacement.putInto? (r : Replacement) (sql : String) : Option String :=
  if h : r.LiesIn sql then
    some ((sql.sliceTo ⟨_, h.start_valid⟩).copy ++ r.text ++
      (sql.sliceFrom ⟨_, h.stop_valid⟩).copy)
  else none

/-- The replacement as it is for the text without its first `n` bytes. -/
def Replacement.shifted (n : Nat) (r : Replacement) : Replacement :=
  { r with start := r.start - n, stop := r.stop - n }

/-- The bytes by which a text gets longer with a replacement. -/
def Replacement.growth (r : Replacement) : Int :=
  (r.text.utf8ByteSize : Int) - ((r.stop : Int) - r.start)

/-- The bytes by which a text gets longer with all the replacements. -/
def growth : List Replacement → Int
  | [] => 0
  | r :: later => r.growth + growth later

@[simp] theorem growth_nil : growth [] = 0 := rfl

@[simp] theorem growth_cons (r : Replacement) (reps : List Replacement) :
    growth (r :: reps) = r.growth + growth reps := rfl

/-! ## Ranges and joined texts -/

section Joined

variable {s t : String}

theorem isValid_left {n : Nat} (h : String.Pos.Raw.IsValid (s ++ t) ⟨n⟩)
    (hn : n ≤ s.utf8ByteSize) : String.Pos.Raw.IsValid s ⟨n⟩ := by
  rcases String.Pos.Raw.isValid_append.mp h with h | ⟨hle, -⟩
  · exact h
  · have hend : n = s.utf8ByteSize := Nat.le_antisymm hn hle
    exact String.Pos.Raw.isValid_of_eq_rawEndPos (String.Pos.Raw.ext hend)

theorem isValid_right {n : Nat} (h : String.Pos.Raw.IsValid (s ++ t) ⟨n⟩) :
    String.Pos.Raw.IsValid t ⟨n - s.utf8ByteSize⟩ := by
  rcases String.Pos.Raw.isValid_append.mp h with h | ⟨-, h⟩
  · -- a place in the first text becomes the start of the second
    have hle : n ≤ s.utf8ByteSize := h.le_rawEndPos
    rw [Nat.sub_eq_zero_of_le hle]
    exact String.Pos.Raw.isValid_zero
  · exact h

theorem Replacement.LiesIn.left {r : Replacement} (h : r.LiesIn (s ++ t))
    (hstop : r.stop ≤ s.utf8ByteSize) : r.LiesIn s := by
  have hstart : r.start ≤ s.utf8ByteSize := Nat.le_trans h.start_le hstop
  exact ⟨h.start_le, isValid_left h.start_valid hstart, isValid_left h.stop_valid hstop⟩

theorem Replacement.LiesIn.right {r : Replacement} (h : r.LiesIn (s ++ t)) :
    (r.shifted s.utf8ByteSize).LiesIn t :=
  ⟨Nat.sub_le_sub_right h.start_le _, isValid_right h.start_valid, isValid_right h.stop_valid⟩

theorem byte_append_left {i : Nat} (hi : i < s.utf8ByteSize) :
    (s ++ t).toByteArray[i]? = s.toByteArray[i]? := by
  have hshort : i < s.toByteArray.size := hi
  have hlong : i < (s.toByteArray ++ t.toByteArray).size := by
    rw [ByteArray.size_append]
    omega
  rw [String.toByteArray_append, getElem?_pos (s.toByteArray ++ t.toByteArray) i hlong,
    getElem?_pos s.toByteArray i hshort, ByteArray.getElem_append_left hshort]

theorem byte_append_right (s t : String) (i : Nat) :
    (s ++ t).toByteArray[s.utf8ByteSize + i]? = t.toByteArray[i]? := by
  have hsize : (s.toByteArray ++ t.toByteArray).size = s.utf8ByteSize + t.toByteArray.size :=
    ByteArray.size_append
  rw [String.toByteArray_append]
  by_cases hi : i < t.toByteArray.size
  · have hlong : s.utf8ByteSize + i < (s.toByteArray ++ t.toByteArray).size := by omega
    have hbehind : s.toByteArray.size ≤ s.utf8ByteSize + i := Nat.le_add_right _ i
    rw [getElem?_pos (s.toByteArray ++ t.toByteArray) _ hlong, getElem?_pos t.toByteArray i hi,
      ByteArray.getElem_append_right hbehind]
    simp
  · have hlong : ¬ s.utf8ByteSize + i < (s.toByteArray ++ t.toByteArray).size := by omega
    rw [getElem?_neg (s.toByteArray ++ t.toByteArray) _ hlong, getElem?_neg t.toByteArray i hi]

end Joined

theorem Replacement.LiesIn.exists_pieces {r : Replacement} {sql : String} (h : r.LiesIn sql) :
    ∃ kept piece rest, sql = kept ++ piece ++ rest ∧ r.start = kept.utf8ByteSize ∧
      r.stop = r.start + piece.utf8ByteSize := by
  obtain ⟨before, rest, rfl, hstop⟩ := String.Pos.Raw.isValid_iff_exists_append.mp h.stop_valid
  have hstop : r.stop = before.utf8ByteSize := congrArg String.Pos.Raw.byteIdx hstop
  have hstart := isValid_left h.start_valid (hstop ▸ h.start_le)
  obtain ⟨kept, piece, rfl, hkept⟩ := String.Pos.Raw.isValid_iff_exists_append.mp hstart
  have hkept : r.start = kept.utf8ByteSize := congrArg String.Pos.Raw.byteIdx hkept
  refine ⟨kept, piece, rest, rfl, hkept, ?_⟩
  rw [hstop, hkept, String.utf8ByteSize_append]

theorem Replacement.putInto?_pieces {r : Replacement} {kept piece : String} (rest : String)
    (hstart : r.start = kept.utf8ByteSize) (hstop : r.stop = (kept ++ piece).utf8ByteSize) :
    r.putInto? (kept ++ piece ++ rest) = some (kept ++ r.text ++ rest) := by
  have hassoc : kept ++ piece ++ rest = kept ++ (piece ++ rest) := String.append_assoc
  have hlies : r.LiesIn (kept ++ piece ++ rest) := by
    refine ⟨?_, ?_, ?_⟩
    · rw [hstart, hstop, String.utf8ByteSize_append]
      omega
    · exact String.Pos.Raw.isValid_iff_exists_append.mpr
        ⟨kept, piece ++ rest, hassoc, String.Pos.Raw.ext hstart⟩
    · exact String.Pos.Raw.isValid_iff_exists_append.mpr
        ⟨kept ++ piece, rest, rfl, String.Pos.Raw.ext hstop⟩
  -- a place cuts a text in one way only
  have hfront : (⟨⟨r.start⟩, hlies.start_valid⟩ : String.Pos _).Splits kept (piece ++ rest) :=
    ⟨hassoc, String.Pos.Raw.ext hstart⟩
  have hback : (⟨⟨r.stop⟩, hlies.stop_valid⟩ : String.Pos _).Splits (kept ++ piece) rest :=
    ⟨rfl, String.Pos.Raw.ext hstop⟩
  rw [putInto?, dif_pos hlies, (String.Pos.splits _).eq_left hfront,
    (String.Pos.splits _).eq_right hback]

/-! ## The pieces of a splice -/

/-- What a splice makes of the text that begins at the byte `cursor`: each replacement keeps a piece
and takes the place of the next one. -/
inductive Spliced : (cursor : Nat) → String → List Replacement → String → Prop where
  | rest {cursor : Nat} (text : String) : Spliced cursor text [] text
  | replaced {cursor : Nat} {r : Replacement} {later : List Replacement}
      {kept piece rest out : String} (starts : r.start = cursor + kept.utf8ByteSize)
      (stops : r.stop = r.start + piece.utf8ByteSize) (more : Spliced r.stop rest later out) :
      Spliced cursor (kept ++ piece ++ rest) (r :: later) (kept ++ r.text ++ out)

section Pieces

variable {cursor : Nat} {text out : String} {reps : List Replacement}

theorem Spliced.spliceFrom_eq (h : Spliced cursor text reps out) :
    spliceFrom cursor text.toList reps = out.toList := by
  induction h with
  | rest text => rfl
  | @replaced cursor r later kept piece rest out starts stops more ih =>
    have hkept : r.start - cursor = Text.byteLength kept.toList := by
      rw [Text.byteLength_toList]
      omega
    have hpiece : r.stop - r.start = Text.byteLength piece.toList := by
      rw [Text.byteLength_toList]
      omega
    simp only [spliceFrom, hkept, hpiece, String.toList_append, List.append_assoc,
      Text.splitBytes_byteLength, ih]

theorem Spliced.splice_eq (h : Spliced 0 text reps out) : splice text reps = out := by
  rw [splice, h.spliceFrom_eq, String.ofList_toList]

/-- Replacements that lie behind the text that is passed are put into the rest, piece by piece. -/
theorem exists_spliced (passed text : String) (h : LieIn reps (passed ++ text))
    (hbehind : ∀ r ∈ reps, passed.utf8ByteSize ≤ r.start) :
    ∃ out, Spliced passed.utf8ByteSize text reps out := by
  -- with every replacement the text up to the end of its range is passed
  induction reps generalizing passed text with
  | nil => exact ⟨text, .rest text⟩
  | cons r later ih =>
    obtain ⟨hfirst, hlater⟩ := List.forall_mem_cons.mp h.each
    obtain ⟨hapart, hinOrder⟩ := List.pairwise_cons.mp h.inOrder
    have hpassed : passed.utf8ByteSize ≤ r.start := hbehind r List.mem_cons_self
    have hle : r.start ≤ r.stop := hfirst.start_le
    obtain ⟨kept, piece, rest, rfl, hstart, hstop⟩ := hfirst.right.exists_pieces
    simp only [Replacement.shifted] at hstart hstop
    have hend : (passed ++ kept ++ piece).utf8ByteSize = r.stop := by
      simp only [String.utf8ByteSize_append]
      omega
    have hsame : passed ++ (kept ++ piece ++ rest) = passed ++ kept ++ piece ++ rest := by
      simp only [String.append_assoc]
    rw [hsame] at hlater
    obtain ⟨out, hout⟩ := ih (passed ++ kept ++ piece) rest ⟨hlater, hinOrder⟩
      (fun s hs => hend ▸ hapart s hs)
    rw [hend] at hout
    exact ⟨kept ++ r.text ++ out, .replaced (by omega) (by omega) hout⟩

theorem Spliced.cursor_le (h : Spliced cursor text reps out) :
    ∀ r ∈ reps, cursor ≤ r.start ∧ r.start ≤ r.stop := by
  induction h with
  | rest text => simp
  | replaced starts stops more ih =>
    intro s hs
    rcases List.mem_cons.mp hs with rfl | hs
    · omega
    · have hlater := ih s hs
      omega

/-! ## What follows from the pieces -/

/-- Whatever is passed, putting in the replacements from the right comes to the same. The later
ones leave the text up to their ranges, so each finds the pieces that the splice finds. -/
theorem Spliced.put_from_right (h : Spliced cursor text reps out) (passed : String)
    (hpassed : passed.utf8ByteSize = cursor) :
    reps.foldrM Replacement.putInto? (passed ++ text) = some (passed ++ out) := by
  induction h generalizing passed with
  | rest text => rfl
  | @replaced cursor r later kept piece rest out starts stops more ih =>
    have hstart : r.start = (passed ++ kept).utf8ByteSize := by
      rw [String.utf8ByteSize_append]
      omega
    have hstop : r.stop = (passed ++ kept ++ piece).utf8ByteSize := by
      rw [String.utf8ByteSize_append]
      omega
    calc (r :: later).foldrM Replacement.putInto? (passed ++ (kept ++ piece ++ rest))
      _ = (later.foldrM Replacement.putInto? (passed ++ kept ++ piece ++ rest)).bind
            r.putInto? := by
        simp only [List.foldrM_cons, String.append_assoc, Option.bind_eq_bind]
      _ = r.putInto? (passed ++ kept ++ piece ++ out) := by
        rw [ih (passed ++ kept ++ piece) hstop.symm, Option.bind_some]
      _ = some (passed ++ kept ++ r.text ++ out) := Replacement.putInto?_pieces out hstart hstop
      _ = some (passed ++ (kept ++ r.text ++ out)) := by simp only [String.append_assoc]

theorem Spliced.utf8ByteSize_eq (h : Spliced cursor text reps out) :
    (out.utf8ByteSize : Int) = text.utf8ByteSize + growth reps := by
  induction h with
  | rest text => simp
  | replaced starts stops more ih =>
    simp only [String.utf8ByteSize_append, growth_cons, Replacement.growth]
    omega

/-- A byte that is in no range is found again where the replacements in front of it move it. -/
theorem Spliced.byte (h : Spliced cursor text reps out) (p : Nat)
    (houtside : ∀ r ∈ reps, cursor + p < r.start ∨ r.stop ≤ cursor + p) :
    ∃ q : Nat, (q : Int) = p + growth (reps.filter (·.stop ≤ cursor + p)) ∧
      out.toByteArray[q]? = text.toByteArray[p]? := by
  induction h generalizing p with
  | rest text => exact ⟨p, by simp, rfl⟩
  | @replaced cursor r later kept piece rest out starts stops more ih =>
    obtain ⟨hfirst, hlater⟩ := List.forall_mem_cons.mp houtside
    by_cases hp : p < kept.utf8ByteSize
    · -- the byte is kept in front of all replacements
      have hnone : (r :: later).filter (·.stop ≤ cursor + p) = [] := by
        rw [List.filter_eq_nil_iff]
        intro s hs
        rw [decide_eq_true_eq]
        rcases List.mem_cons.mp hs with rfl | hs
        · omega
        · have hle := more.cursor_le s hs
          omega
      refine ⟨p, by simp [hnone], ?_⟩
      rw [String.append_assoc, String.append_assoc, byte_append_left hp, byte_append_left hp]
    · -- the byte is behind the first range
      obtain ⟨p, rfl⟩ : ∃ p', p = kept.utf8ByteSize + (piece.utf8ByteSize + p') :=
        ⟨p - kept.utf8ByteSize - piece.utf8ByteSize, by omega⟩
      have hplace : cursor + (kept.utf8ByteSize + (piece.utf8ByteSize + p)) = r.stop + p := by
        omega
      rw [hplace] at hlater ⊢
      obtain ⟨q, hq, hbyte⟩ := ih p hlater
      refine ⟨kept.utf8ByteSize + (r.text.utf8ByteSize + q), ?_, ?_⟩
      · have hle : r.stop ≤ r.stop + p := Nat.le_add_right _ _
        simp only [List.filter_cons, hle, decide_true, if_true, growth_cons, Replacement.growth]
        omega
      · rw [String.append_assoc, String.append_assoc, byte_append_right, byte_append_right,
          byte_append_right, byte_append_right, hbyte]

theorem Spliced.behind {s : String} (h : Spliced (cursor + s.utf8ByteSize) text reps out) :
    Spliced cursor (s ++ text) reps (s ++ out) := by
  cases h with
  | rest => exact .rest (s ++ text)
  | @replaced _ r later kept piece rest out starts stops more =>
    have hstart : r.start = cursor + (s ++ kept).utf8ByteSize := by
      rw [String.utf8ByteSize_append]
      omega
    have hjoined := Spliced.replaced hstart stops more
    simpa only [String.append_assoc] using hjoined

theorem Spliced.append {left right out' : String} {before after : List Replacement}
    (h : Spliced cursor left before out)
    (h' : Spliced (cursor + left.utf8ByteSize) right after out') :
    Spliced cursor (left ++ right) (before ++ after) (out ++ out') := by
  induction h with
  | rest text => exact h'.behind
  | @replaced cursor r later kept piece rest out starts stops more ih =>
    have hend : cursor + (kept ++ piece ++ rest).utf8ByteSize = r.stop + rest.utf8ByteSize := by
      simp only [String.utf8ByteSize_append]
      omega
    rw [hend] at h'
    have hjoined := Spliced.replaced starts stops (ih h')
    simpa only [String.append_assoc, List.cons_append] using hjoined

/-- A splice reads from its places only how far they are apart. -/
theorem Spliced.shifted {n : Nat} (h : Spliced (n + cursor) text reps out) :
    Spliced cursor text (reps.map (·.shifted n)) out := by
  generalize hplace : n + cursor = place at h
  induction h generalizing cursor with
  | rest text => exact .rest text
  | @replaced place r later kept piece rest out starts stops more ih =>
    apply Spliced.replaced
    · show r.start - n = cursor + kept.utf8ByteSize
      omega
    · show r.stop - n = r.start - n + piece.utf8ByteSize
      omega
    · apply ih
      show n + (r.stop - n) = r.stop
      omega

end Pieces

/-! ## A splice in two halves -/

section Halves

variable {front back sql : String} {reps before after : List Replacement}

theorem LieIn.later (h : LieIn (before ++ after) sql) : LieIn after sql := by
  constructor
  · intro r hr
    exact h.each r (List.mem_append_right before hr)
  · exact (List.pairwise_append.mp h.inOrder).2.1

theorem LieIn.left (h : LieIn (before ++ after) (front ++ back))
    (hbefore : ∀ r ∈ before, r.stop ≤ front.utf8ByteSize) : LieIn before front := by
  constructor
  · intro r hr
    exact (h.each r (List.mem_append_left after hr)).left (hbefore r hr)
  · exact (List.pairwise_append.mp h.inOrder).1

theorem LieIn.shifted (h : LieIn reps (front ++ back)) :
    LieIn (reps.map (·.shifted front.utf8ByteSize)) back := by
  constructor
  · intro s hs
    obtain ⟨r, hr, rfl⟩ := List.mem_map.mp hs
    exact (h.each r hr).right
  · have hinOrder : reps.Pairwise fun r s => r.stop ≤ s.start := h.inOrder
    exact List.pairwise_map.mpr (hinOrder.imp fun hle => Nat.sub_le_sub_right hle _)

theorem splice_append (h : LieIn (before ++ after) (front ++ back))
    (hbefore : ∀ r ∈ before, r.stop ≤ front.utf8ByteSize)
    (hafter : ∀ r ∈ after, front.utf8ByteSize ≤ r.start) :
    splice (front ++ back) (before ++ after) =
      splice front before ++ splice back (after.map (·.shifted front.utf8ByteSize)) := by
  obtain ⟨out, hout⟩ := exists_spliced "" front (h.left hbefore) (fun r _ => Nat.zero_le r.start)
  obtain ⟨out', hout'⟩ := exists_spliced front back h.later hafter
  have hboth : Spliced 0 (front ++ back) (before ++ after) (out ++ out') := by
    apply Spliced.append hout
    rw [String.utf8ByteSize_empty, Nat.zero_add]
    exact hout'
  have hback : Spliced 0 back (after.map (·.shifted front.utf8ByteSize)) out' := by
    apply Spliced.shifted
    rw [Nat.add_zero]
    exact hout'
  rw [hboth.splice_eq, hback.splice_eq, Spliced.splice_eq hout]

end Halves

/-! ## From the right -/

/-- Put in from the right, each where its range was at first, the replacements make of a text what
the splice makes of it. The result has the bytes of the text and those by which the replacements
make it longer, and each byte outside of the ranges stands in it, moved by what is in front. Where
the text is cut with no range across the cut, its two parts can be spliced apart. -/
theorem splice_put_from_right (sql : String) (reps : List Replacement) (h : LieIn reps sql) :
    reps.foldrM Replacement.putInto? sql = some (splice sql reps) ∧
    ((splice sql reps).utf8ByteSize : Int) = sql.utf8ByteSize + growth reps ∧
    (∀ p, (∀ r ∈ reps, p < r.start ∨ r.stop ≤ p) →
      ∃ q : Nat, (q : Int) = p + growth (reps.filter (·.stop ≤ p)) ∧
        (splice sql reps).toByteArray[q]? = sql.toByteArray[p]?) ∧
    ∀ left right before after, sql = left ++ right → reps = before ++ after →
      (∀ r ∈ before, r.stop ≤ left.utf8ByteSize) →
      (∀ r ∈ after, left.utf8ByteSize ≤ r.start) →
      LieIn before left ∧ LieIn (after.map (·.shifted left.utf8ByteSize)) right ∧
        splice sql reps =
          splice left before ++ splice right (after.map (·.shifted left.utf8ByteSize)) := by
  obtain ⟨out, hout⟩ := exists_spliced "" sql h (fun r _ => Nat.zero_le r.start)
  have hsplice : splice sql reps = out := Spliced.splice_eq hout
  refine ⟨?_, ?_, ?_, ?_⟩
  · rw [hsplice]
    exact Spliced.put_from_right hout "" rfl
  · rw [hsplice]
    exact hout.utf8ByteSize_eq
  · intro p houtside
    rw [hsplice]
    have hbyte := Spliced.byte hout p
    simp only [String.utf8ByteSize_empty, Nat.zero_add] at hbyte
    exact hbyte houtside
  · intro left right before after hsql hreps hbefore hafter
    subst hsql hreps
    exact ⟨h.left hbefore, h.later.shifted, splice_append h hbefore hafter⟩

/-- A name gets shorter, an ending is put in where nothing was, and a literal becomes a name of the
same length. -/
def measureReplacements : List Replacement :=
  [⟨0, 9, "größe"⟩, ⟨9, 9, "_cm"⟩, ⟨13, 17, "\"Ø\""⟩]

/-- Ranges that touch, an empty one among them, in a text with characters of more than one byte: a
byte behind them is found one place further on. -/
theorem measure_put_from_right :
    LieIn measureReplacements "[Größe] AS 'Ø'" ∧
      measureReplacements.foldrM Replacement.putInto? "[Größe] AS 'Ø'" =
        some "größe_cm AS \"Ø\"" ∧
      (splice "[Größe] AS 'Ø'" measureReplacements).utf8ByteSize = 18 ∧
      (splice "[Größe] AS 'Ø'" measureReplacements).toByteArray[11]? =
        "[Größe] AS 'Ø'".toByteArray[10]? ∧
      splice "[Größe] AS 'Ø'" measureReplacements =
        splice "[Größe] AS " [⟨0, 9, "größe"⟩, ⟨9, 9, "_cm"⟩] ++
          splice "'Ø'" [⟨0, 4, "\"Ø\""⟩] := by
  have h : LieIn measureReplacements "[Größe] AS 'Ø'" := by decide
  obtain ⟨hright, hsize, hbyte, hcut⟩ := splice_put_from_right _ _ h
  have hsplice : splice "[Größe] AS 'Ø'" measureReplacements = "größe_cm AS \"Ø\"" := by decide
  have htotal : ("[Größe] AS 'Ø'".utf8ByteSize : Int) + growth measureReplacements = 18 := by
    decide
  obtain ⟨q, hq, hsame⟩ := hbyte 10 (by decide)
  have hmoved : ((10 : Nat) : Int) + growth (measureReplacements.filter (·.stop ≤ 10)) =
      (11 : Nat) := by decide
  obtain rfl : q = 11 := Int.ofNat.inj (hq.trans hmoved)
  obtain ⟨-, -, hhalves⟩ := hcut "[Größe] AS " "'Ø'" [⟨0, 9, "größe"⟩, ⟨9, 9, "_cm"⟩]
    [⟨13, 17, "\"Ø\""⟩] (by decide) rfl (by decide) (by decide)
  exact ⟨h, hsplice ▸ hright, Int.ofNat.inj (hsize.trans htotal), hsame, hhalves⟩

end Migration
