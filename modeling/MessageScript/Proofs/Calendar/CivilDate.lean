import Mathlib.Tactic.IntervalCases
import MessageScript.Calendar.Date

/-!
# Day numbers and civil dates

Day numbers and the dates of the calendar answer each other, over all years.

    c.Valid → ofDayNumber c.dayNumber = c                              (ofDayNumber_dayNumber)
    (ofDayNumber n).Valid ∧ (ofDayNumber n).dayNumber = n        (valid_and_dayNumber_ofDayNumber)

Both go through the 400-year cycle: each of its days has one place (`CycleDay`) in a century, in a
group of four years, in a year that begins in March, and in a month.
-/

namespace MessageScript.Calendar.CivilDate

/-! ## Days of the cycle -/

/-- A day of the 400-year cycle: its century, its group of four years there, its year in the group,
and the day of the year.  The 366th day ends the last year of a group, but not of a century, unless
it is the last one. -/
structure CycleDay where
  century : Int
  group : Int
  year : Int
  day : Int
  century_bounds : 0 ≤ century ∧ century ≤ 3
  group_bounds : 0 ≤ group ∧ group ≤ 24
  year_bounds : 0 ≤ year ∧ year ≤ 3
  day_bounds : 0 ≤ day ∧ day ≤ 365
  leap_of_last : day = 365 → year = 3 ∧ (group ≠ 24 ∨ century = 3)

namespace CycleDay

/-- The year of the cycle. -/
def yearOfCycle (p : CycleDay) : Int := 100 * p.century + 4 * p.group + p.year

/-- The day of the cycle. -/
def number (p : CycleDay) : Int := 36524 * p.century + 1461 * p.group + 365 * p.year + p.day

theorem daysBeforeYear_add_day (p : CycleDay) :
    daysBeforeYear p.yearOfCycle + p.day = p.number := by
  have hgroup := p.group_bounds
  have hyear := p.year_bounds
  have hfour : p.yearOfCycle / 4 = 25 * p.century + p.group := by
    unfold yearOfCycle
    omega
  have hhundred : p.yearOfCycle / 100 = p.century := by
    unfold yearOfCycle
    omega
  unfold daysBeforeYear number
  rw [hfour, hhundred]
  unfold yearOfCycle
  omega

theorem yearOfCycle_bounds (p : CycleDay) : 0 ≤ p.yearOfCycle ∧ p.yearOfCycle ≤ 399 := by
  have hcentury := p.century_bounds
  have hgroup := p.group_bounds
  have hyear := p.year_bounds
  unfold yearOfCycle
  omega

/-- The days of a century stand before the next one, but for the last day of the cycle. -/
theorem number_bounds (p : CycleDay) : 36524 * p.century ≤ p.number ∧
    (p.number < 36524 * (p.century + 1) ∨ p.number = 146096 ∧ p.century = 3) := by
  have hgroup := p.group_bounds
  have hyear := p.year_bounds
  have hday := p.day_bounds
  unfold number
  refine ⟨by omega, ?_⟩
  by_cases hlast : p.day = 365
  · have := p.leap_of_last hlast
    omega
  · omega

theorem number_lt (p : CycleDay) : 0 ≤ p.number ∧ p.number < 146097 := by
  have hcentury := p.century_bounds
  have hnumber := p.number_bounds
  omega

/-- The year of a day of the cycle is computed from its number. -/
theorem yearOfCycle_eq (p : CycleDay) :
    (p.number - p.number / 1460 + p.number / 36524 - p.number / 146096) / 365 = p.yearOfCycle := by
  have hcentury := p.century_bounds
  have hgroup := p.group_bounds
  have hyear := p.year_bounds
  have hday := p.day_bounds
  obtain ⟨hlow, hhigh⟩ := p.number_bounds
  have hcenturies : p.number / 36524 - p.number / 146096 = p.century := by
    rcases hhigh with hhigh | ⟨hlast, hthree⟩
    · have hdiv : p.number / 36524 = p.century :=
        (Int.ediv_eq_iff_of_pos (by decide)).2 (by omega)
      have hzero : p.number / 146096 = 0 := Int.ediv_eq_zero_of_lt (by omega) (by omega)
      omega
    · rw [hlast, hthree]
      decide
  -- what groups of 1460 days leave over is one day more than a year, or less than that
  generalize hsurplus : 24 * p.century + p.group + 365 * p.year + p.day = surplus
  have hgroups : p.number / 1460 = 25 * p.century + p.group + surplus / 1460 := by
    have hsum : p.number = surplus + 1460 * (25 * p.century + p.group) := by
      unfold number
      omega
    rw [hsum, Int.add_mul_ediv_left _ _ (by decide)]
    omega
  have hone : surplus / 1460 = 0 ∧ p.day < 365 ∨ surplus / 1460 = 1 ∧ 0 < p.day := by
    by_cases hsmall : surplus < 1460
    · left
      refine ⟨Int.ediv_eq_zero_of_lt (by omega) hsmall, ?_⟩
      rcases Int.lt_or_le p.day 365 with hlt | hge
      · exact hlt
      · have := p.leap_of_last (by omega)
        omega
    · right
      exact ⟨(Int.ediv_eq_iff_of_pos (by decide)).2 (by omega), by omega⟩
  refine (Int.ediv_eq_iff_of_pos (by decide)).2 ?_
  unfold yearOfCycle
  have hnumber : p.number = 36524 * p.century + 1461 * p.group + 365 * p.year + p.day := rfl
  omega

/-- Every day of the cycle has its place. -/
theorem exists_number_eq {n : Int} (h0 : 0 ≤ n) (h1 : n < 146097) :
    ∃ p : CycleDay, p.number = n := by
  -- the last day of the cycle counts with the fourth century, that of a group with its fourth year
  generalize hc : (n - n / 146096) / 36524 = c
  have hcentury : 0 ≤ c ∧ c ≤ 3 := by omega
  have hbehind : 0 ≤ n - 36524 * c ∧ n - 36524 * c ≤ 36524 ∧ (n - 36524 * c = 36524 → c = 3) := by
    omega
  clear hc
  generalize hg : (n - 36524 * c) / 1461 = g
  have hgroup : 0 ≤ g ∧ g ≤ 24 := by omega
  have hrest : 0 ≤ n - 36524 * c - 1461 * g ∧ n - 36524 * c - 1461 * g ≤ 1460 ∧
      (n - 36524 * c - 1461 * g = 1460 → g = 24 → c = 3) := by omega
  clear hg hbehind
  generalize hr : n - 36524 * c - 1461 * g = r at hrest
  generalize hy : (r - r / 1460) / 365 = y
  have hyear : 0 ≤ y ∧ y ≤ 3 := by omega
  have hday : 0 ≤ r - 365 * y ∧ r - 365 * y ≤ 365 ∧
      (r - 365 * y = 365 → y = 3 ∧ (g ≠ 24 ∨ c = 3)) := by omega
  refine ⟨⟨c, g, y, r - 365 * y, hcentury, hgroup, hyear, ⟨hday.1, hday.2.1⟩, hday.2.2⟩, ?_⟩
  simp only [number]
  omega

end CycleDay

/-! ## Years and months from March -/

theorem isLeapYear_iff {year : Int} :
    isLeapYear year = true ↔ year % 4 = 0 ∧ (year % 100 ≠ 0 ∨ year % 400 = 0) := by
  simp only [isLeapYear, Bool.and_eq_true, Bool.or_eq_true, beq_iff_eq, bne_iff_ne]

/-- The year, begun in March, that a date is in. -/
def marchYear (c : CivilDate) : Int := if c.month ≤ 2 then c.year - 1 else c.year

/-- A month counted from March as month 0. -/
def fromMarch (month : Nat) : Int := if month ≤ 2 then month + 9 else month - 3

/-- The day of the year, begun in March and with day 0, that a date is. -/
def marchDay (c : CivilDate) : Int := daysBeforeMonth (fromMarch c.month) + (c.day - 1)

/-- The date of a year begun in March, a month of it and a day. -/
def ofMarch (year month day : Int) : CivilDate :=
  let civilMonth := if month < 10 then month + 3 else month - 9
  ⟨if civilMonth ≤ 2 then year + 1 else year, civilMonth.toNat, day.toNat⟩

variable {c : CivilDate} {year month day : Int}

theorem dayNumber_eq (c : CivilDate) : c.dayNumber =
    c.marchYear / 400 * 146097 + (daysBeforeYear (c.marchYear % 400) + c.marchDay) - epochShift := by
  have hunfold : c.dayNumber = c.marchYear / 400 * 146097 + daysBeforeYear (c.marchYear % 400) +
      daysBeforeMonth (fromMarch c.month) + (c.day - 1) - epochShift := rfl
  rw [hunfold, marchDay]
  omega

theorem ofMarch_march (h : c.Valid) : ofMarch c.marchYear (fromMarch c.month) c.day = c := by
  obtain ⟨hfirst, hlast, -, -⟩ := h
  obtain ⟨year, month, day⟩ := c
  simp only at hfirst hlast
  unfold ofMarch marchYear fromMarch
  simp only [CivilDate.mk.injEq]
  refine ⟨?_, ?_, by omega⟩ <;> split <;> omega

theorem marchYear_ofMarch (hmonth : 0 ≤ month ∧ month ≤ 11) :
    (ofMarch year month day).marchYear = year := by
  unfold ofMarch marchYear
  simp only
  split <;> split <;> omega

theorem fromMarch_ofMarch (hmonth : 0 ≤ month ∧ month ≤ 11) :
    fromMarch (ofMarch year month day).month = month := by
  unfold ofMarch fromMarch
  simp only
  split <;> omega

/-- The month that a day of the year is in. -/
theorem month_eq_iff : (5 * day + 2) / 153 = month ↔
    daysBeforeMonth month ≤ day ∧ day < daysBeforeMonth (month + 1) := by
  unfold daysBeforeMonth
  omega

/-- A month that is not February has its days before the next one begins. -/
theorem daysInMonth_eq {month : Nat} (hfirst : 1 ≤ month) (hlast : month ≤ 12)
    (hfebruary : month ≠ 2) (year : Int) : (daysInMonth year month : Int) =
      daysBeforeMonth (fromMarch month + 1) - daysBeforeMonth (fromMarch month) := by
  interval_cases month
  case «2» => exact absurd rfl hfebruary
  all_goals rfl

theorem daysInFebruary_eq (year : Int) :
    daysInMonth year 2 = if isLeapYear year then 29 else 28 := rfl

/-- The day of a date is in its month, and at most the 366th of a year that ends with a leap day. -/
theorem marchDay_bounds (h : c.Valid) : daysBeforeMonth (fromMarch c.month) ≤ c.marchDay ∧
    c.marchDay < daysBeforeMonth (fromMarch c.month + 1) ∧ 0 ≤ c.marchDay ∧ c.marchDay ≤ 365 ∧
    (c.marchDay = 365 → c.month = 2 ∧ isLeapYear c.year = true) := by
  obtain ⟨hfirst, hlast, hone, hday⟩ := h
  by_cases hfebruary : c.month = 2
  · rw [hfebruary, daysInFebruary_eq] at hday
    have hmonth : daysBeforeMonth (fromMarch 2) = 337 := rfl
    have hnext : daysBeforeMonth (fromMarch 2 + 1) = 367 := rfl
    unfold marchDay
    rw [hfebruary, hmonth, hnext]
    split at hday
    · next hleap => exact ⟨by omega, by omega, by omega, by omega, fun _ => ⟨rfl, hleap⟩⟩
    · exact ⟨by omega, by omega, by omega, by omega, fun _ => by omega⟩
  · have hlength := daysInMonth_eq hfirst hlast hfebruary c.year
    have hstart : 0 ≤ daysBeforeMonth (fromMarch c.month) ∧
        daysBeforeMonth (fromMarch c.month + 1) ≤ 337 := by
      unfold daysBeforeMonth fromMarch
      split <;> omega
    unfold marchDay
    exact ⟨by omega, by omega, by omega, by omega, fun _ => by omega⟩

/-! ## There and back -/

/-- A date of the calendar has its place in the cycle. -/
theorem exists_cycleDay (h : c.Valid) :
    ∃ p : CycleDay, p.yearOfCycle = c.marchYear % 400 ∧ p.day = c.marchDay ∧
      c.dayNumber + epochShift = c.marchYear / 400 * 146097 + p.number := by
  obtain ⟨-, -, hlow, hhigh, hlast⟩ := marchDay_bounds h
  generalize hy : c.marchYear % 400 = y
  have hleap : c.marchDay = 365 → y % 4 = 3 ∧ (y % 100 / 4 ≠ 24 ∨ y / 100 = 3) := by
    intro hday
    obtain ⟨hfebruary, hyear⟩ := hlast hday
    rw [isLeapYear_iff] at hyear
    unfold marchYear at hy
    rw [if_pos (by omega)] at hy
    omega
  obtain ⟨p, hyear, hday⟩ : ∃ p : CycleDay, p.yearOfCycle = y ∧ p.day = c.marchDay := by
    refine ⟨⟨y / 100, y % 100 / 4, y % 4, c.marchDay, by omega, by omega, by omega, ⟨hlow, hhigh⟩,
      hleap⟩, ?_, rfl⟩
    simp only [CycleDay.yearOfCycle]
    omega
  refine ⟨p, hyear, hday, ?_⟩
  rw [dayNumber_eq, ← p.daysBeforeYear_add_day, hyear, hday, hy]
  omega

/-- A date of the calendar has its day number in the cycle that its year is in. -/
theorem dayNumber_bounds (h : c.Valid) : c.marchYear / 400 * 146097 ≤ c.dayNumber + epochShift ∧
    c.dayNumber + epochShift < (c.marchYear / 400 + 1) * 146097 := by
  obtain ⟨p, -, -, hplace⟩ := exists_cycleDay h
  have hbounds := p.number_lt
  omega

/-- The date of a day number is found from the day's place in the cycle. -/
theorem ofDayNumber_eq {p : CycleDay} {n era : Int}
    (h : n + epochShift = era * 146097 + p.number) :
    ofDayNumber n = ofMarch (era * 400 + p.yearOfCycle) ((5 * p.day + 2) / 153)
      (p.day - daysBeforeMonth ((5 * p.day + 2) / 153) + 1) := by
  have hbounds := p.number_lt
  have hmod : (n + epochShift) % 146097 = p.number := by omega
  have hdiv : (n + epochShift) / 146097 = era := by omega
  have hday : p.number - daysBeforeYear p.yearOfCycle = p.day := by
    have := p.daysBeforeYear_add_day
    omega
  unfold ofDayNumber
  simp only [hmod, hdiv, p.yearOfCycle_eq, hday]
  rfl

/-- **A date of the calendar is the date of its day number.** -/
theorem ofDayNumber_dayNumber (h : c.Valid) : ofDayNumber c.dayNumber = c := by
  obtain ⟨p, hyear, hday, hplace⟩ := exists_cycleDay h
  obtain ⟨hlow, hhigh, -⟩ := marchDay_bounds h
  have hmonth : (5 * c.marchDay + 2) / 153 = fromMarch c.month := month_eq_iff.2 ⟨hlow, hhigh⟩
  have hmarch : c.marchYear / 400 * 400 + c.marchYear % 400 = c.marchYear := by omega
  have hcivil : c.marchDay - daysBeforeMonth (fromMarch c.month) + 1 = c.day := by
    unfold marchDay
    omega
  rw [ofDayNumber_eq hplace, hyear, hday, hmonth, hmarch, hcivil]
  exact ofMarch_march h

/-- A day of a month is a date of the calendar; in February the last one has to be a leap day. -/
theorem valid_ofMarch (hmonth : 0 ≤ month ∧ month ≤ 11) (hfirst : 1 ≤ day)
    (hlast : daysBeforeMonth month + day ≤ daysBeforeMonth (month + 1))
    (hfebruary : month = 11 → day ≤ 28 ∨ day = 29 ∧ isLeapYear (year + 1) = true) :
    (ofMarch year month day).Valid := by
  have hday : (ofMarch year month day).day = day.toNat := rfl
  have hfrom : fromMarch (ofMarch year month day).month = month := fromMarch_ofMarch hmonth
  by_cases hlastMonth : month = 11
  · subst hlastMonth
    have hcivil : (ofMarch year 11 day).month = 2 := rfl
    have hyear : (ofMarch year 11 day).year = year + 1 := rfl
    refine ⟨by omega, by omega, by omega, ?_⟩
    rw [hcivil, hyear, hday, daysInFebruary_eq]
    rcases hfebruary rfl with hshort | ⟨hlong, hleap⟩
    · split <;> omega
    · rw [if_pos hleap]
      omega
  · have hcivil : 1 ≤ (ofMarch year month day).month ∧ (ofMarch year month day).month ≤ 12 ∧
        (ofMarch year month day).month ≠ 2 := by
      unfold ofMarch
      simp only
      split <;> omega
    have hlength := daysInMonth_eq hcivil.1 hcivil.2.1 hcivil.2.2 (ofMarch year month day).year
    rw [hfrom] at hlength
    exact ⟨hcivil.1, hcivil.2.1, by omega, by omega⟩

/-- **A day number has a date of the calendar, whose day number it is.** -/
theorem valid_and_dayNumber_ofDayNumber (n : Int) :
    (ofDayNumber n).Valid ∧ (ofDayNumber n).dayNumber = n := by
  obtain ⟨p, hp⟩ := CycleDay.exists_number_eq (n := (n + epochShift) % 146097) (by omega) (by omega)
  have hplace : n + epochShift = (n + epochShift) / 146097 * 146097 + p.number := by omega
  rw [ofDayNumber_eq hplace]
  generalize (n + epochShift) / 146097 = era at *
  obtain ⟨hlow, hhigh⟩ := month_eq_iff.1 (Eq.refl ((5 * p.day + 2) / 153))
  have hday := p.day_bounds
  have hmonth : 0 ≤ (5 * p.day + 2) / 153 ∧ (5 * p.day + 2) / 153 ≤ 11 := by omega
  generalize (5 * p.day + 2) / 153 = month at *
  constructor
  · refine valid_ofMarch hmonth (by omega) (by omega) ?_
    rintro rfl
    have hstart : daysBeforeMonth 11 = 337 := rfl
    rcases Int.lt_or_le p.day 365 with hshort | hlong
    · left
      omega
    · right
      have hyear := p.year_bounds
      have hgroup := p.group_bounds
      have hlast := p.leap_of_last (by omega)
      refine ⟨by omega, isLeapYear_iff.2 ?_⟩
      unfold CycleDay.yearOfCycle
      omega
  · have hyears := p.yearOfCycle_bounds
    have hmarchDay : (ofMarch (era * 400 + p.yearOfCycle) month
        (p.day - daysBeforeMonth month + 1)).marchDay = p.day := by
      unfold marchDay
      rw [fromMarch_ofMarch hmonth]
      simp only [ofMarch]
      omega
    have hera : (era * 400 + p.yearOfCycle) / 400 = era := by omega
    have hyear : (era * 400 + p.yearOfCycle) % 400 = p.yearOfCycle := by omega
    rw [dayNumber_eq, marchYear_ofMarch hmonth, hmarchDay, hera, hyear, p.daysBeforeYear_add_day]
    omega

end MessageScript.Calendar.CivilDate
