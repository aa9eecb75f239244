import Migration.Total

/-
  Dates and times of day.

  Dates are those of the Gregorian calendar carried back before its start, with a
  year zero. They are counted in days from the first of January of the year one.
  A time of day has nanoseconds.

  What is proved beside the definitions: a count of days gives a date that the
  calendar has (`placeInMonths_spec`, `placeInEra_lt`), so `Date.ofDays` needs no
  case for bad dates.
-/

namespace Migration

/-! ## Dates -/

def isLeapYear (year : Int) : Bool := year % 4 == 0 && (year % 100 != 0 || year % 400 == 0)

def monthLengths (leap : Bool) : List Nat :=
  [31, if leap then 29 else 28, 31, 30, 31, 30, 31, 31, 30, 31, 30, 31]

/-- The length of a month, counted from one; zero for a month that is none. -/
def daysInMonth (year : Int) (month : Nat) : Nat :=
  if month = 0 then 0 else (monthLengths (isLeapYear year))[month - 1]?.getD 0

structure Date where
  year : Int
  month : Nat
  day : Nat
  valid : 1 ≤ month ∧ month ≤ 12 ∧ 1 ≤ day ∧ day ≤ daysInMonth year month
  deriving DecidableEq, Repr

/-- The month and the day within it, counted from one, of the day `n` of consecutive months of
which the first has the number `month`. -/
def placeInMonths : (month : Nat) → (lengths : List Nat) → (n : Nat) → Nat × Nat
  | month, [], n => (month, n + 1)
  | month, length :: rest, n =>
    if n < length then (month, n + 1) else placeInMonths (month + 1) rest (n - length)

theorem placeInMonths_spec (month : Nat) {n : Nat} {lengths : List Nat}
    (h : n < total lengths) :
    ∃ i, i < lengths.length ∧ (placeInMonths month lengths n).1 = month + i ∧
      1 ≤ (placeInMonths month lengths n).2 ∧
      (placeInMonths month lengths n).2 ≤ lengths[i]?.getD 0 := by
  induction lengths generalizing month n with
  | nil => simp at h
  | cons length rest ih =>
    simp only [placeInMonths]
    split
    · exact ⟨0, by simp, by simp, by simp, by simp; omega⟩
    · rename_i hlt
      rw [total_cons] at h
      obtain ⟨i, hi, h1, h2, h3⟩ := ih (month + 1) (n := n - length) (by omega)
      exact ⟨i + 1, by simp [hi], by rw [h1]; omega, h2, by simpa using h3⟩

/-- The year of a period of 400 years, counted from zero, and the day of that year, of the day
`n` of the period. -/
def placeInEra (n : Nat) : Nat × Nat :=
  let century := min 3 (n / 36524)
  let inCentury := n - century * 36524
  let cycle := inCentury / 1461
  let inCycle := inCentury - cycle * 1461
  let year := min 3 (inCycle / 365)
  (century * 100 + cycle * 4 + year, inCycle - year * 365)

/-- The year of a count of days, and the day of that year counted from zero. -/
def placeInYears (days : Int) : Int × Nat :=
  let place := placeInEra (days % 146097).toNat
  (days / 146097 * 400 + place.1 + 1, place.2)

theorem placeInEra_lt (era : Int) {n : Nat} (h : n < 146097) :
    (placeInEra n).2 < total (monthLengths (isLeapYear (era * 400 + (placeInEra n).1 + 1))) := by
  have hsum (b : Bool) : total (monthLengths b) = 365 + b.toNat := by cases b <;> rfl
  rw [hsum]
  simp only [placeInEra]
  generalize hcentury : min 3 (n / 36524) = century
  generalize hin : n - century * 36524 = inCentury
  generalize hcycle : inCentury / 1461 = cycle
  generalize hinc : inCentury - cycle * 1461 = inCycle
  generalize hyear : min 3 (inCycle / 365) = year
  have hc : inCentury < 36524 ∨ (century = 3 ∧ inCentury < 36525) := by omega
  by_cases hlast : inCycle - year * 365 = 365
  · have hy : year = 3 := by omega
    have hleap : isLeapYear (era * 400 + ((century * 100 + cycle * 4 + year : Nat) : Int) + 1)
        = true := by
      simp only [isLeapYear, Bool.and_eq_true, beq_iff_eq, bne_iff_ne, Bool.or_eq_true]
      refine ⟨by omega, ?_⟩
      by_cases hq : cycle = 24
      · right; omega
      · left; omega
    rw [hleap]; simp; omega
  · have : inCycle - year * 365 < 365 := by omega
    omega

namespace Date

/-- The date with these parts, if the calendar has it. -/
def ofParts? (year : Int) (month day : Nat) : Option Date :=
  if h : 1 ≤ month ∧ month ≤ 12 ∧ 1 ≤ day ∧ day ≤ daysInMonth year month then
    some ⟨year, month, day, h⟩
  else none

/-- The days from the first of January of the year one to the date. -/
def toDays (d : Date) : Int :=
  let before := d.year - 1
  before * 365 + before / 4 - before / 100 + before / 400
    + total ((monthLengths (isLeapYear d.year)).take (d.month - 1)) + d.day - 1

/-- The date so many days from the first of January of the year one. -/
def ofDays (days : Int) : Date :=
  let years := placeInYears days
  let place := placeInMonths 1 (monthLengths (isLeapYear years.1)) years.2
  { year := years.1
    month := place.1
    day := place.2
    valid := by
      have hlt : (days % 146097).toNat < 146097 := by omega
      obtain ⟨i, hi, h1, h2, h3⟩ := placeInMonths_spec 1
        (placeInEra_lt (days / 146097) hlt)
      have hlen : (monthLengths (isLeapYear years.1)).length = 12 := by
        cases isLeapYear years.1 <;> rfl
      have h1' : place.1 = 1 + i := h1
      have hi' : i < 12 := by rw [← hlen]; exact hi
      refine ⟨by omega, by omega, h2, ?_⟩
      rw [h1']
      unfold daysInMonth
      rw [if_neg (by omega), Nat.add_sub_cancel_left]
      exact h3 }

end Date

/-! ## Times -/

def nanosPerSecond : Nat := 1000000000

def nanosPerDay : Nat := 86400 * nanosPerSecond

structure Time where
  hour : Nat
  minute : Nat
  second : Nat
  nano : Nat
  valid : hour < 24 ∧ minute < 60 ∧ second < 60 ∧ nano < nanosPerSecond
  deriving DecidableEq, Repr

namespace Time

/-- The time with these parts, if there is one. -/
def ofParts? (hour minute second nano : Nat) : Option Time :=
  if h : hour < 24 ∧ minute < 60 ∧ second < 60 ∧ nano < nanosPerSecond then
    some ⟨hour, minute, second, nano, h⟩
  else none

def toNanos (t : Time) : Nat :=
  ((t.hour * 60 + t.minute) * 60 + t.second) * nanosPerSecond + t.nano

/-- The time so many nanoseconds after midnight, whole days left out. -/
def ofNanos (n : Nat) : Time :=
  let seconds := n / nanosPerSecond
  { hour := seconds / 3600 % 24
    minute := seconds / 60 % 60
    second := seconds % 60
    nano := n % nanosPerSecond
    valid := ⟨Nat.mod_lt _ (by decide), Nat.mod_lt _ (by decide), Nat.mod_lt _ (by decide),
      Nat.mod_lt _ (by decide)⟩ }

end Time

structure DateTime where
  date : Date
  time : Time
  deriving DecidableEq, Repr

namespace DateTime

def toNanos (t : DateTime) : Int := t.date.toDays * nanosPerDay + t.time.toNanos

/-- The date and time so many nanoseconds after the start of the year one. -/
def ofNanos (n : Int) : DateTime :=
  ⟨Date.ofDays (n / nanosPerDay), Time.ofNanos (n % nanosPerDay).toNat⟩

/-- The date and time so many seconds later. -/
def addSeconds (t : DateTime) (seconds : Int) : DateTime :=
  ofNanos (t.toNanos + seconds * nanosPerSecond)

end DateTime

/-- A date and time at a place, with the seconds that the place is ahead of universal time. -/
structure OffsetDateTime where
  wall : DateTime
  offset : Int
  deriving DecidableEq, Repr

def OffsetDateTime.utc (t : OffsetDateTime) : DateTime := t.wall.addSeconds (-t.offset)

end Migration
