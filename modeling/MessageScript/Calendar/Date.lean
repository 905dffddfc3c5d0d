import MessageScript.Text.Reading

/-!
# Dates

A date is a day number counted from 1970-01-01 in the Gregorian calendar, extended both ways over
the years -262143 to 262142.  `CivilDate` is its year, month and day.

Day numbers and civil dates are converted by counting years from the first of March, so that the
leap day is the last of its year; 400 years have 146097 days.  A date is written `yyyy-MM-dd` and
read so or as `yyyyMMdd`.

Calendar and range are those that `chrono` documents for `NaiveDate`: the proleptic Gregorian
calendar with a year 0, from -262143-01-01 to 262142-12-31.
-/

namespace MessageScript.Calendar

open Text

/-- A year, a month from 1 to 12 and a day of the month. -/
structure CivilDate where
  year : Int
  month : Nat
  day : Nat
  deriving DecidableEq, Repr

namespace CivilDate

/-- Whether a year has a leap day. -/
def isLeapYear (year : Int) : Bool :=
  year % 4 == 0 && (year % 100 != 0 || year % 400 == 0)

/-- The days of a month. -/
def daysInMonth (year : Int) (month : Nat) : Nat :=
  if month = 2 then (if isLeapYear year then 29 else 28)
  else if month = 4 ∨ month = 6 ∨ month = 9 ∨ month = 11 then 30
  else 31

/-- Whether the calendar has this day. -/
def Valid (c : CivilDate) : Prop :=
  1 ≤ c.month ∧ c.month ≤ 12 ∧ 1 ≤ c.day ∧ c.day ≤ daysInMonth c.year c.month

instance (c : CivilDate) : Decidable c.Valid :=
  inferInstanceAs (Decidable (_ ∧ _ ∧ _ ∧ _))

/-- The days from 0000-03-01 to 1970-01-01. -/
def epochShift : Int := 719468

/-- The days of the months that end before a month, counted from March as month 0. -/
def daysBeforeMonth (monthFromMarch : Int) : Int := (153 * monthFromMarch + 2) / 5

/-- The days of the years that end before a year of the 400-year cycle. -/
def daysBeforeYear (yearOfCycle : Int) : Int :=
  365 * yearOfCycle + yearOfCycle / 4 - yearOfCycle / 100

/-- The day number of a civil date, counted from 1970-01-01. -/
def dayNumber (c : CivilDate) : Int :=
  let year := if c.month ≤ 2 then c.year - 1 else c.year
  let monthFromMarch : Int := if c.month ≤ 2 then c.month + 9 else c.month - 3
  year / 400 * 146097 + daysBeforeYear (year % 400) + daysBeforeMonth monthFromMarch + (c.day - 1) -
    epochShift

/-- The civil date of a day number. -/
def ofDayNumber (n : Int) : CivilDate :=
  let shifted := n + epochShift
  let dayOfCycle := shifted % 146097
  let yearOfCycle :=
    (dayOfCycle - dayOfCycle / 1460 + dayOfCycle / 36524 - dayOfCycle / 146096) / 365
  let dayOfYear := dayOfCycle - daysBeforeYear yearOfCycle
  let monthFromMarch := (5 * dayOfYear + 2) / 153
  let day := dayOfYear - daysBeforeMonth monthFromMarch + 1
  let month := if monthFromMarch < 10 then monthFromMarch + 3 else monthFromMarch - 9
  let year := shifted / 146097 * 400 + yearOfCycle
  ⟨if month ≤ 2 then year + 1 else year, month.toNat, day.toNat⟩

/-- A year in at least four places, the sign being one of them. -/
def yearText (year : Int) : List Char :=
  if year < 0 then '-' :: paddedDigits 3 year.natAbs else paddedDigits 4 year.natAbs

/-- A civil date as `yyyy-MM-dd`. -/
def text (c : CivilDate) : List Char :=
  yearText c.year ++ '-' :: paddedDigits 2 c.month ++ '-' :: paddedDigits 2 c.day

end CivilDate

/-- A date between -262143-01-01 and 262142-12-31. -/
structure Date where
  dayNumber : Int
  first_le : -96465292 ≤ dayNumber
  le_last : dayNumber ≤ 95026236
  deriving DecidableEq, Repr

namespace Date

/-- The date with a day number, if it is in range. -/
def ofDayNumber? (n : Int) : Option Date :=
  if h : -96465292 ≤ n ∧ n ≤ 95026236 then some ⟨n, h.1, h.2⟩ else none

/-- The date of a year, a month and a day, if the calendar has it. -/
def ofCivil? (c : CivilDate) : Option Date :=
  if c.Valid then ofDayNumber? c.dayNumber else none

/-- The year, month and day of a date. -/
def civil (d : Date) : CivilDate := CivilDate.ofDayNumber d.dayNumber

/-- A date as `yyyy-MM-dd`. -/
def text (d : Date) : List Char := d.civil.text

/-- Reads `yyyy-MM-dd` or `yyyyMMdd` off the front of a text, and tells whether it was without
dashes. -/
def read (cs : List Char) : Option ((Date × Bool) × List Char) := do
  let (year, cs) ← fixedDigits 4 cs
  let compact := (eat '-' cs).isNone
  let (month, cs) ← fixedDigits 2 ((eat '-' cs).getD cs)
  let cs ← if compact then some cs else eat '-' cs
  let (day, cs) ← fixedDigits 2 cs
  let date ← ofCivil? ⟨year, month, day⟩
  return ((date, compact), cs)

/-- The date that a text is. -/
def parse? (cs : List Char) : Option Date :=
  match read cs with
  | some ((date, _), []) => some date
  | _ => none

/-! ## Lemmas -/

@[ext] theorem ext {a b : Date} (h : a.dayNumber = b.dayNumber) : a = b := by
  cases a; cases b; cases h; rfl

theorem ofDayNumber?_eq_some_iff {n : Int} {d : Date} :
    ofDayNumber? n = some d ↔ d.dayNumber = n := by
  unfold ofDayNumber?
  constructor
  · intro h
    split at h
    · cases h; rfl
    · simp at h
  · rintro rfl
    exact dif_pos ⟨d.first_le, d.le_last⟩

/-- The range of dates ends with the first and the last day of whole years. -/
theorem dayNumber_bounds :
    CivilDate.dayNumber ⟨-262143, 1, 1⟩ = -96465292 ∧
      CivilDate.dayNumber ⟨262142, 12, 31⟩ = 95026236 := by
  decide

end Date

end MessageScript.Calendar
