import Migration.Cell
import Migration.Proofs.Digits

/-
  Cells read back from their texts.

  The target takes each cell as a text and reads the value from it. This file

  1. defines what a text of each sort writes, without regard to how such texts are made
     (`CellSort.read`);
  2. proves of the parts of a text that they stand between separators that none of them has, so that
     every text is cut into the parts that it was put together from: the groups of an identifier,
     the digits around the point of a decimal, year, month and day, hour, minute, second and
     fraction, and an offset;
  3. concludes that every cell but a floating-point number is read back from its text, and so is
     determined by it (`pgText_determines_cell`). -/

namespace Migration

open Text (readNat readInt readHex readHexBytes padded hexPadded)

/-! ## The readers -/

/-- The date that a text writes: a year, before which a sign may stand, a month and a day. -/
def Date.ofText? (cs : List Char) : Option Date :=
  match cs.splitOn '-' with
  | [year, month, day] => do Date.ofParts? (← readInt year) (← readNat month) (← readNat day)
  | [[], year, month, day] => do
    Date.ofParts? (-(← readNat year)) (← readNat month) (← readNat day)
  | _ => none

/-- The nanoseconds that the digits after the point write. -/
def fractionOfText? : List (List Char) → Option Nat
  | [] => some 0
  | [digits] => do return (← readNat digits) * 10 ^ (9 - digits.length)
  | _ => none

def Time.ofText? (cs : List Char) : Option Time :=
  match cs.splitOn ':' with
  | [hour, minute, seconds] =>
    match seconds.splitOn '.' with
    | second :: fraction => do
      Time.ofParts? (← readNat hour) (← readNat minute) (← readNat second)
        (← fractionOfText? fraction)
    | [] => none
  | _ => none

def DateTime.ofText? (separator : Char) (cs : List Char) : Option DateTime :=
  match cs.splitOn separator with
  | [date, time] => do return ⟨← Date.ofText? date, ← Time.ofText? time⟩
  | _ => none

/-- The seconds that an offset in hours and minutes writes. -/
def offsetOfText? : List Char → Option Int
  | sign :: hoursAndMinutes =>
    match hoursAndMinutes.splitOn ':' with
    | [hours, minutes] => do
      let seconds : Nat := ((← readNat hours) * 60 + (← readNat minutes)) * 60
      if sign = '-' then some (-seconds) else if sign = '+' then some seconds else none
    | _ => none
  | [] => none

def isSign (c : Char) : Bool := c == '+' || c == '-'

def OffsetDateTime.ofText? (cs : List Char) : Option OffsetDateTime :=
  match cs.splitOn 'T' with
  | [date, time] => do
    let wall : DateTime := ⟨← Date.ofText? date, ← Time.ofText? (time.takeWhile (!isSign ·))⟩
    return ⟨wall, ← offsetOfText? (time.dropWhile (!isSign ·))⟩
  | _ => none

/-- The identifier that five groups of digits in base sixteen write. -/
def uuidOfText? (cs : List Char) : Option Uuid :=
  let groups := cs.splitOn '-'
  if groups.map List.length = [8, 4, 4, 4, 12] then
    (readHex groups.flatten).map (BitVec.ofNat 128)
  else none

/-- The number that digits write, its scale the number of those after the point. -/
def Decimal.ofText? (cs : List Char) : Option Decimal :=
  match cs.splitOn '.' with
  | [whole] => do return ⟨← readInt whole, 0⟩
  | [whole, fraction] => do return ⟨← readInt (whole ++ fraction), fraction.length⟩
  | _ => none

def boolOfText? (cs : List Char) : Option Bool :=
  if cs = "true".toList then some true else if cs = "false".toList then some false else none

/-- The integer that a text writes, if `ofInt` keeps it. -/
def sizedOfText? {ι : Type} (ofInt : Int → ι) (toInt : ι → Int) (cs : List Char) : Option ι := do
  let n ← readInt cs
  if toInt (ofInt n) = n then some (ofInt n) else none

/-- The bytes that digits in base sixteen write after a mark. -/
def bytesOfText? : List Char → Option (List UInt8)
  | '\\' :: 'x' :: digits => readHexBytes digits
  | _ => none

/-- The sorts of cells of which the text is exact. -/
inductive CellSort where
  | bool
  | int16
  | int32
  | int64
  | text
  | bytes
  | uuid
  | decimal
  | dateTime
  | dateTimeOffset
  | date
  | time
  deriving DecidableEq, Repr

/-- The sort of a cell that is neither null nor a floating-point number. -/
def Cell.sort? : Cell → Option CellSort
  | .null | .float32 _ | .float64 _ => none
  | .bool _ => some .bool
  | .int16 _ => some .int16
  | .int32 _ => some .int32
  | .int64 _ => some .int64
  | .text _ => some .text
  | .bytes _ => some .bytes
  | .uuid _ => some .uuid
  | .decimal _ => some .decimal
  | .dateTime _ => some .dateTime
  | .dateTimeOffset _ => some .dateTimeOffset
  | .date _ => some .date
  | .time _ => some .time

/-- The cell of a sort that a text writes. -/
def CellSort.read (sort : CellSort) (text : String) : Option Cell :=
  match sort with
  | .bool => (boolOfText? text.toList).map .bool
  | .int16 => (sizedOfText? Int16.ofInt Int16.toInt text.toList).map .int16
  | .int32 => (sizedOfText? Int32.ofInt Int32.toInt text.toList).map .int32
  | .int64 => (sizedOfText? Int64.ofInt Int64.toInt text.toList).map .int64
  | .text => some (.text text)
  | .bytes => (bytesOfText? text.toList).map .bytes
  | .uuid => (uuidOfText? text.toList).map .uuid
  | .decimal => (Decimal.ofText? text.toList).map .decimal
  | .dateTime => (DateTime.ofText? ' ' text.toList).map .dateTime
  | .dateTimeOffset => (OffsetDateTime.ofText? text.toList).map .dateTimeOffset
  | .date => (Date.ofText? text.toList).map .date
  | .time => (Time.ofText? text.toList).map .time

/-! ## Truth values and integers -/

theorem boolOfText?_text (b : Bool) :
    boolOfText? (if b then "true" else "false").toList = some b := by
  cases b <;> rfl

theorem sizedOfText?_toString {ι : Type} {ofInt : Int → ι} {toInt : ι → Int}
    (h : ∀ v, ofInt (toInt v) = v) (v : ι) :
    sizedOfText? ofInt toInt (toString (toInt v)).toList = some v := by
  rw [sizedOfText?, Text.readInt_toString]
  simp only [Option.bind_eq_bind, Option.bind_some, h, if_true]

/-! ## Identifiers -/

def uuidGroups (digits : List Char) : List (List Char) :=
  [digits.take 8, (digits.drop 8).take 4, (digits.drop 12).take 4, (digits.drop 16).take 4,
   digits.drop 20]

theorem uuidText_eq (value : Uuid) :
    uuidText value = ['-'].intercalate (uuidGroups (hexPadded 32 value.toNat)) := by
  simp [uuidText, uuidGroups, List.intercalate]

theorem flatten_uuidGroups (digits : List Char) : (uuidGroups digits).flatten = digits := by
  have hrest (taken more : Nat) :
      (digits.drop taken).take more ++ digits.drop (taken + more) = digits.drop taken := by
    rw [← List.drop_drop, List.take_append_drop]
  simp only [uuidGroups, List.flatten_cons, List.flatten_nil, List.append_nil]
  rw [hrest 16 4, hrest 12 4, hrest 8 4, List.take_append_drop]

theorem length_uuidGroups {digits : List Char} (h : digits.length = 32) :
    (uuidGroups digits).map List.length = [8, 4, 4, 4, 12] := by
  simp [uuidGroups, h]

theorem uuidOfText?_uuidText (value : Uuid) : uuidOfText? (uuidText value) = some value := by
  have hlength : (hexPadded 32 value.toNat).length = 32 :=
    Text.length_hexPadded (by decide) value.isLt
  have hsplit : (uuidText value).splitOn '-' = uuidGroups (hexPadded 32 value.toNat) := by
    rw [uuidText_eq]
    refine List.splitOn_intercalate '-' (fun group hgroup hyphen => ?_) (List.cons_ne_nil _ _)
    have hmem := List.mem_flatten_of_mem hgroup hyphen
    rw [flatten_uuidGroups] at hmem
    exact Text.notMem_hexPadded (by decide) _ _ hmem
  rw [uuidOfText?, hsplit, if_pos (length_uuidGroups hlength), flatten_uuidGroups,
    Text.readHex_hexPadded]
  simp only [Option.map_some, BitVec.ofNat_toNat, BitVec.setWidth_eq]

/-! ## Decimals -/

/-- The digits before the point and those after it are together those of the mantissa. -/
theorem Decimal.ofText?_placePoint {sign : List Char} (hsign : '.' ∉ sign) {n : Nat}
    {mantissa : Int} (hread : ∀ cs, readNat cs = some n → readInt (sign ++ cs) = some mantissa)
    (scale : Nat) :
    Decimal.ofText? (sign ++ Decimal.placePoint scale (Nat.toDigits 10 n)) =
      some ⟨mantissa, scale⟩ := by
  have hplace : Decimal.placePoint scale (Nat.toDigits 10 n) =
      let digits := padded (scale + 1) n
      let whole := digits.take (digits.length - scale)
      if scale = 0 then whole else whole ++ '.' :: digits.drop (digits.length - scale) := rfl
  have hdigits := hread _ (Text.readNat_padded (scale + 1) n)
  have hlength := Text.le_length_padded (scale + 1) n
  have hpoint : '.' ∉ padded (scale + 1) n := Text.notMem_padded (by decide) _ _
  rw [hplace]
  generalize padded (scale + 1) n = digits at hdigits hlength hpoint
  dsimp only
  split
  · rename_i hscale
    have hwhole : '.' ∉ sign ++ digits := fun h => (List.mem_append.mp h).elim hsign hpoint
    rw [hscale, Nat.sub_zero, List.take_length, Decimal.ofText?, List.splitOn_eq_singleton hwhole]
    simp only [hdigits, Option.bind_eq_bind, Option.bind_some]
    rfl
  · have hwhole : '.' ∉ sign ++ digits.take (digits.length - scale) := fun h =>
      (List.mem_append.mp h).elim hsign fun h => hpoint (List.mem_of_mem_take h)
    have hfraction : '.' ∉ digits.drop (digits.length - scale) := fun h =>
      hpoint (List.mem_of_mem_drop h)
    have hscale : (digits.drop (digits.length - scale)).length = scale := by
      rw [List.length_drop]
      omega
    rw [← List.append_assoc, Decimal.ofText?, List.splitOn_append_cons_self_of_not_mem hwhole,
      List.splitOn_eq_singleton hfraction]
    simp only [List.append_assoc, List.take_append_drop, hdigits, hscale, Option.bind_eq_bind,
      Option.bind_some]
    rfl

theorem Decimal.ofText?_text (d : Decimal) : Decimal.ofText? d.text.toList = some d := by
  rw [Decimal.text, String.toList_ofList]
  split
  · rename_i hneg
    have hmantissa : -(d.mantissa.natAbs : Int) = d.mantissa := by omega
    refine @Decimal.ofText?_placePoint ['-'] (by decide) _ _ (fun cs hcs => ?_) d.scale
    rw [← hmantissa]
    exact Text.readInt_neg hcs
  · rename_i hpos
    have hmantissa : (d.mantissa.natAbs : Int) = d.mantissa := by omega
    refine @Decimal.ofText?_placePoint [] (by decide) _ _ (fun cs hcs => ?_) d.scale
    rw [← hmantissa]
    exact Text.readInt_of_readNat hcs

/-! ## Dates and times -/

theorem splitOn_three {sep : Char} {a b c : List Char} (ha : sep ∉ a) (hb : sep ∉ b)
    (hc : sep ∉ c) : (a ++ sep :: b ++ sep :: c).splitOn sep = [a, b, c] := by
  rw [List.append_assoc, List.cons_append, List.splitOn_append_cons_self_of_not_mem ha,
    List.splitOn_append_cons_self_of_not_mem hb, List.splitOn_eq_singleton hc]

theorem hyphen_notMem_padded (width n : Nat) : '-' ∉ padded width n :=
  Text.notMem_padded (by decide) width n

theorem yearText_of_nonneg {year : Int} (h : 0 ≤ year) :
    readInt (yearText year) = some year ∧ '-' ∉ yearText year := by
  have hyear : (year.natAbs : Int) = year := Int.natAbs_of_nonneg h
  have hread := Text.readNat_padded 4 year.natAbs
  have hyphen := hyphen_notMem_padded 4 year.natAbs
  rw [yearText, if_neg (Int.not_lt.mpr h)]
  split
  · rw [Text.readInt_plus hread, hyear]
    exact ⟨rfl, List.not_mem_cons_of_ne_of_not_mem (by decide) hyphen⟩
  · rw [Text.readInt_of_readNat hread, hyear]
    exact ⟨rfl, hyphen⟩

theorem Date.ofText?_text (d : Date) : Date.ofText? d.text = some d := by
  have hparts : Date.ofParts? d.year d.month d.day = some d := dif_pos d.valid
  have hmonth := hyphen_notMem_padded 2 d.month
  have hday := hyphen_notMem_padded 2 d.day
  rw [Date.text]
  rcases Int.lt_or_le d.year 0 with hneg | hnonneg
  · have hyear : -(d.year.natAbs : Int) = d.year := by omega
    have hsplit : ('-' :: padded 4 d.year.natAbs ++ '-' :: padded 2 d.month ++
        '-' :: padded 2 d.day).splitOn '-' =
          [[], padded 4 d.year.natAbs, padded 2 d.month, padded 2 d.day] := by
      rw [← splitOn_three (hyphen_notMem_padded 4 _) hmonth hday]
      exact List.splitOn_append_cons_self_of_not_mem List.not_mem_nil _
    rw [yearText, if_pos hneg, Date.ofText?, hsplit]
    simp only [Text.readNat_padded, Option.bind_eq_bind, Option.bind_some, hyear, hparts]
  · obtain ⟨hyear, hyphen⟩ := yearText_of_nonneg hnonneg
    rw [Date.ofText?, splitOn_three hyphen hmonth hday]
    simp only [hyear, Text.readNat_padded, Option.bind_eq_bind, Option.bind_some, hparts]

theorem isSign_of_isDigit {c : Char} (h : c.isDigit = true) : isSign c = false := by
  refine Bool.eq_false_iff.mpr fun hsign => ?_
  rw [isSign, Bool.or_eq_true, beq_iff_eq, beq_iff_eq] at hsign
  rcases hsign with rfl | rfl <;> cases h

theorem mem_yearText {c : Char} {year : Int} (h : c ∈ yearText year) :
    isSign c = true ∨ c.isDigit = true := by
  rw [yearText] at h
  split at h
  · rcases List.mem_cons.mp h with rfl | h
    · exact .inl rfl
    · exact .inr (Text.isDigit_of_mem_padded h)
  · split at h
    · rcases List.mem_cons.mp h with rfl | h
      · exact .inl rfl
      · exact .inr (Text.isDigit_of_mem_padded h)
    · exact .inr (Text.isDigit_of_mem_padded h)

theorem mem_dateText {c : Char} {d : Date} (h : c ∈ d.text) :
    isSign c = true ∨ c.isDigit = true := by
  rw [Date.text] at h
  simp only [List.mem_append, List.mem_cons] at h
  rcases h with (h | rfl | h) | rfl | h
  · exact mem_yearText h
  · exact .inl rfl
  · exact .inr (Text.isDigit_of_mem_padded h)
  · exact .inl rfl
  · exact .inr (Text.isDigit_of_mem_padded h)

theorem fractionText_cases {nano : Nat} (h : nano < nanosPerSecond) :
    fractionText nano = [] ∧ nano = 0 ∨ ∃ width n, fractionText nano = '.' :: padded width n ∧
      (padded width n).length = width ∧ n * 10 ^ (9 - width) = nano := by
  rw [nanosPerSecond] at h
  rw [fractionText]
  split
  · rename_i hzero
    exact .inl ⟨rfl, hzero⟩
  · right
    split
    · exact ⟨3, nano / 1000000, rfl, Text.length_padded (by decide) (by omega), by omega⟩
    · split
      · exact ⟨6, nano / 1000, rfl, Text.length_padded (by decide) (by omega), by omega⟩
      · exact ⟨9, nano, rfl, Text.length_padded (by decide) (by omega), by omega⟩

theorem mem_fractionText {c : Char} {nano : Nat} (h : nano < nanosPerSecond)
    (hc : c ∈ fractionText nano) : c = '.' ∨ c.isDigit = true := by
  rcases fractionText_cases h with ⟨hnone, -⟩ | ⟨width, n, hsome, -, -⟩
  · rw [hnone] at hc
    cases hc
  · rw [hsome, List.mem_cons] at hc
    exact hc.imp_right Text.isDigit_of_mem_padded

theorem mem_timeText {c : Char} {t : Time} (h : c ∈ t.text) :
    c = ':' ∨ c = '.' ∨ c.isDigit = true := by
  rw [Time.text] at h
  simp only [List.mem_append, List.mem_cons] at h
  rcases h with ((h | rfl | h) | rfl | h) | h
  · exact .inr (.inr (Text.isDigit_of_mem_padded h))
  · exact .inl rfl
  · exact .inr (.inr (Text.isDigit_of_mem_padded h))
  · exact .inl rfl
  · exact .inr (.inr (Text.isDigit_of_mem_padded h))
  · exact .inr (mem_fractionText t.valid.2.2.2 h)

theorem splitOn_seconds (second : Nat) {nano : Nat} (h : nano < nanosPerSecond) :
    ∃ fraction, (padded 2 second ++ fractionText nano).splitOn '.' = padded 2 second :: fraction ∧
      fractionOfText? fraction = some nano := by
  have hpoint (width n : Nat) : '.' ∉ padded width n := Text.notMem_padded (by decide) width n
  rcases fractionText_cases h with ⟨hnone, rfl⟩ | ⟨width, n, hsome, hwidth, hnano⟩
  · rw [hnone, List.append_nil, List.splitOn_eq_singleton (hpoint 2 second)]
    exact ⟨[], rfl, rfl⟩
  · rw [hsome, List.splitOn_append_cons_self_of_not_mem (hpoint 2 second),
      List.splitOn_eq_singleton (hpoint width n)]
    refine ⟨_, rfl, ?_⟩
    rw [fractionOfText?, Text.readNat_padded, hwidth]
    exact congrArg some hnano

theorem Time.ofText?_text (t : Time) : Time.ofText? t.text = some t := by
  have hparts : Time.ofParts? t.hour t.minute t.second t.nano = some t := dif_pos t.valid
  have hcolon (width n : Nat) : ':' ∉ padded width n := Text.notMem_padded (by decide) width n
  have hseconds : ':' ∉ padded 2 t.second ++ fractionText t.nano := by
    intro h
    rcases List.mem_append.mp h with h | h
    · exact hcolon 2 _ h
    · exact absurd (mem_fractionText t.valid.2.2.2 h) (by decide)
  obtain ⟨fraction, hsplit, hfraction⟩ := splitOn_seconds t.second t.valid.2.2.2
  have htext : t.text = padded 2 t.hour ++ ':' :: padded 2 t.minute ++
      ':' :: (padded 2 t.second ++ fractionText t.nano) := by
    rw [Time.text, List.append_assoc, List.cons_append]
  rw [Time.ofText?, htext, splitOn_three (hcolon 2 _) (hcolon 2 _) hseconds]
  simp only [hsplit, Text.readNat_padded, hfraction, Option.bind_eq_bind, Option.bind_some, hparts]

theorem DateTime.ofText?_text (t : DateTime) : DateTime.ofText? ' ' (t.text ' ') = some t := by
  have hdate : ' ' ∉ t.date.text := fun h => absurd (mem_dateText h) (by decide)
  have htime : ' ' ∉ t.time.text := fun h => absurd (mem_timeText h) (by decide)
  rw [DateTime.text, DateTime.ofText?, List.splitOn_append_cons_self_of_not_mem hdate,
    List.splitOn_eq_singleton htime]
  simp only [Date.ofText?_text, Time.ofText?_text, Option.bind_eq_bind, Option.bind_some]
  rfl

/-! ## Offsets -/

theorem offsetText_eq (offset : Int) : ∃ minutes, minutes = (offset.natAbs + 30) / 60 ∧
    offsetText offset = (if offset < 0 then '-' else '+') ::
      (padded 2 (minutes / 60) ++ ':' :: padded 2 (minutes % 60)) := ⟨_, rfl, rfl⟩

theorem offsetOfText?_offsetText {offset : Int} (h : offset % 60 = 0) :
    offsetOfText? (offsetText offset) = some offset := by
  have hcolon (n : Nat) : ':' ∉ padded 2 n := Text.notMem_padded (by decide) 2 n
  obtain ⟨minutes, hminutes, htext⟩ := offsetText_eq offset
  have hseconds : minutes * 60 = offset.natAbs := by omega
  rw [htext, offsetOfText?, List.splitOn_append_cons_self_of_not_mem (hcolon _),
    List.splitOn_eq_singleton (hcolon _)]
  simp only [Text.readNat_padded, Option.bind_eq_bind, Option.bind_some, Nat.div_add_mod', hseconds]
  by_cases hneg : offset < 0
  · rw [if_pos hneg, if_pos rfl]
    congr 1
    omega
  · rw [if_neg hneg, if_neg (by decide), if_pos rfl]
    congr 1
    omega

/-- An offset begins with a sign, so that what is before it ends there. -/
theorem span_offsetText {cs : List Char} (hcs : ∀ c ∈ cs, isSign c = false) (offset : Int) :
    (cs ++ offsetText offset).takeWhile (!isSign ·) = cs ∧
      (cs ++ offsetText offset).dropWhile (!isSign ·) = offsetText offset := by
  obtain ⟨minutes, -, htext⟩ := offsetText_eq offset
  have hsign : isSign (if offset < 0 then '-' else '+') = true := by
    split <;> rfl
  have hplain : ∀ c ∈ cs, (!isSign c) = true := fun c hc => by rw [hcs c hc]; rfl
  rw [List.takeWhile_append_of_pos hplain, List.dropWhile_append_of_pos hplain, htext,
    List.takeWhile_cons_of_neg (by simp [hsign]), List.dropWhile_cons_of_neg (by simp [hsign]),
    List.append_nil]
  exact ⟨rfl, rfl⟩

theorem OffsetDateTime.ofText?_text {t : OffsetDateTime} (h : t.offset % 60 = 0) :
    OffsetDateTime.ofText? (t.wall.text 'T' ++ offsetText t.offset) = some t := by
  have hdate : 'T' ∉ t.wall.date.text := fun hmem => absurd (mem_dateText hmem) (by decide)
  have htime : 'T' ∉ t.wall.time.text ++ offsetText t.offset := by
    obtain ⟨minutes, -, htext⟩ := offsetText_eq t.offset
    rw [htext, List.mem_append, List.mem_cons, List.mem_append, List.mem_cons]
    rintro (hmem | hmem | hmem | hmem | hmem)
    · exact absurd (mem_timeText hmem) (by decide)
    · split at hmem <;> cases hmem
    · exact Text.notMem_padded (by decide) 2 _ hmem
    · cases hmem
    · exact Text.notMem_padded (by decide) 2 _ hmem
  have hplain : ∀ c ∈ t.wall.time.text, isSign c = false := by
    intro c hc
    rcases mem_timeText hc with rfl | rfl | hdigit
    · rfl
    · rfl
    · exact isSign_of_isDigit hdigit
  obtain ⟨htake, hdrop⟩ := span_offsetText hplain t.offset
  rw [DateTime.text, List.append_assoc, List.cons_append, OffsetDateTime.ofText?,
    List.splitOn_append_cons_self_of_not_mem hdate, List.splitOn_eq_singleton htime]
  simp only [htake, hdrop, Date.ofText?_text, Time.ofText?_text, offsetOfText?_offsetText h,
    Option.bind_eq_bind, Option.bind_some]
  rfl

/-! ## Cells -/

/-- Whether the offset of the cell, if it has one, is of whole minutes. -/
def Cell.HasWholeMinutes : Cell → Prop
  | .dateTimeOffset t => t.offset % 60 = 0
  | _ => True

section Read

variable {α : Type} {reader : List Char → Option α} {value : α}

theorem read_some (make : α → Cell) {text : String} (h : reader text.toList = some value) :
    ((some text).bind fun t => (reader t.toList).map make) = some (make value) := by
  rw [Option.bind_some, h]
  rfl

theorem read_ofList (make : α → Cell) {cs : List Char} (h : reader cs = some value) :
    ((some (String.ofList cs)).bind fun t => (reader t.toList).map make) = some (make value) :=
  read_some make (by rw [String.toList_ofList, h])

end Read

/-- The text of a cell has all of it. -/
theorem read_pgText {sort : CellSort} {c : Cell} (hsort : c.sort? = some sort)
    (hminutes : c.HasWholeMinutes) : c.pgText.bind sort.read = some c := by
  cases c <;> cases hsort
  case bool v => exact read_some .bool (boolOfText?_text v)
  case int16 v => exact read_some .int16 (sizedOfText?_toString (fun _ => Int16.ofInt_toInt _) v)
  case int32 v => exact read_some .int32 (sizedOfText?_toString (fun _ => Int32.ofInt_toInt _) v)
  case int64 v => exact read_some .int64 (sizedOfText?_toString (fun _ => Int64.ofInt_toInt _) v)
  case text v => rfl
  case bytes v => exact read_ofList .bytes (Text.readHexBytes_hexBytes v)
  case uuid v => exact read_ofList .uuid (uuidOfText?_uuidText v)
  case decimal v => exact read_some .decimal (Decimal.ofText?_text v)
  case dateTime v => exact read_ofList .dateTime (DateTime.ofText?_text v)
  case dateTimeOffset v => exact read_ofList .dateTimeOffset (OffsetDateTime.ofText?_text hminutes)
  case date v => exact read_ofList .date (Date.ofText?_text v)
  case time v => exact read_ofList .time (Time.ofText?_text v)

theorem pgText_eq_none_iff (c : Cell) : c.pgText = none ↔ c = .null := by
  cases c <;> simp [Cell.pgText]

/-- Every cell but null has a text, and of each sort but the floating-point numbers a cell is read
back from its text, so that no other cell of that sort has the same. Of offsets this is said for
those of whole minutes, to which the text rounds. -/
theorem pgText_determines_cell :
    (∀ c : Cell, c.pgText = none ↔ c = .null) ∧
    ∀ (sort : CellSort) (c : Cell), c.sort? = some sort → c.HasWholeMinutes →
      (∃ text, c.pgText = some text ∧ sort.read text = some c) ∧
      ∀ d : Cell, d.sort? = some sort → d.HasWholeMinutes → c.pgText = d.pgText → c = d := by
  refine ⟨pgText_eq_none_iff, fun sort c hsort hminutes => ⟨?_, fun d hd hdMinutes hsame => ?_⟩⟩
  · exact Option.bind_eq_some_iff.mp (read_pgText hsort hminutes)
  · have hread := read_pgText hsort hminutes
    rw [hsame, read_pgText hd hdMinutes] at hread
    exact (Option.some.inj hread).symm

/-- A moment before the year zero, half an hour behind universal time. -/
def earlyMoment : Cell :=
  .dateTimeOffset
    ⟨⟨⟨-44, 3, 15, by decide⟩, ⟨9, 5, 0, 120000000, by decide⟩⟩, -1800⟩

/-- The moment is read back from its text, the sign of the year and that of the offset with it. -/
theorem earlyMoment_read_back :
    earlyMoment.sort? = some .dateTimeOffset ∧ earlyMoment.HasWholeMinutes ∧
      earlyMoment.pgText = some "-0044-03-15T09:05:00.120-00:30" ∧
      CellSort.read .dateTimeOffset "-0044-03-15T09:05:00.120-00:30" = some earlyMoment := by
  have htext : earlyMoment.pgText = some "-0044-03-15T09:05:00.120-00:30" := by decide
  obtain ⟨⟨text, hsome, hread⟩, -⟩ :=
    pgText_determines_cell.2 .dateTimeOffset earlyMoment rfl rfl
  obtain rfl := Option.some.inj (htext.symm.trans hsome)
  exact ⟨rfl, rfl, htext, hread⟩

-- the seconds of an offset are lost
example : offsetText 3629 = offsetText 3600 := by decide

end Migration
