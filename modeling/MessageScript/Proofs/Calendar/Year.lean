import MessageScript.Proofs.Calendar.DateTime

/-!
# Years of four digits

Day numbers order dates as their years do, so a year is told from the day number.  Readers take a
year in four digits and writers write every year, so a date, alone or with a time of day, is read
back from its own text exactly if four digits write its year.

    c.Valid → (c.year < year ↔ c.dayNumber < dayNumber ⟨year, 1, 1⟩)                (year_lt_iff)
    Date.parse? d.text = some d ↔ d.civil.FourDigits                       (Date.parse?_text_iff)
    parseBy? clock v.text = some v ↔ d.civil.FourDigits              (DateTime.parseBy?_text_iff)
-/

namespace MessageScript.Calendar

open Text

/-! ## Day numbers of years -/

namespace CivilDate

variable {c : CivilDate} {a b : Int}

/-- The days of the years, begun in March, from year 0 to before a year. -/
def daysBeforeMarchYear (year : Int) : Int := 365 * year + year / 4 - year / 100 + year / 400

theorem dayNumber_eq_days (c : CivilDate) :
    c.dayNumber + epochShift = daysBeforeMarchYear c.marchYear + c.marchDay := by
  rw [dayNumber_eq]
  unfold daysBeforeMarchYear daysBeforeYear
  omega

/-- A year has 365 days or more. -/
theorem daysBeforeMarchYear_add_le (h : a ≤ b) :
    daysBeforeMarchYear a + 365 * (b - a) ≤ daysBeforeMarchYear b := by
  unfold daysBeforeMarchYear
  omega

/-- January and February come behind the ten months of a year that begins in March. -/
theorem month_le_two_iff (hc : c.Valid) : c.month ≤ 2 ↔ 306 ≤ c.marchDay := by
  obtain ⟨hlow, hhigh, -⟩ := marchDay_bounds hc
  obtain ⟨hfirst, hlast, -, -⟩ := hc
  unfold daysBeforeMonth fromMarch at hlow hhigh
  by_cases hmonth : c.month ≤ 2
  · rw [if_pos hmonth] at hlow hhigh
    omega
  · rw [if_neg hmonth] at hlow hhigh
    omega

theorem dayNumber_first_eq (year : Int) : dayNumber ⟨year, 1, 1⟩ + epochShift =
    daysBeforeMarchYear (year - 1) + 306 := by
  have hyear : marchYear ⟨year, 1, 1⟩ = year - 1 := rfl
  have hmonth : daysBeforeMonth (fromMarch 1) = 306 := rfl
  have hday : marchDay ⟨year, 1, 1⟩ = 306 := by
    rw [marchDay, hmonth]
    rfl
  rw [dayNumber_eq_days, hyear, hday]

/-- **A date is before the first day of a year exactly if its year is before that year.** -/
theorem year_lt_iff (hc : c.Valid) (year : Int) :
    c.year < year ↔ c.dayNumber < dayNumber ⟨year, 1, 1⟩ := by
  have hdays := dayNumber_eq_days c
  have hfirst := dayNumber_first_eq year
  have hmonth := month_le_two_iff hc
  obtain ⟨-, -, hlow, hhigh, -⟩ := marchDay_bounds hc
  -- counted from March, the two years are the same or at least 365 days apart
  have hbefore : c.marchYear ≤ year - 1 →
      daysBeforeMarchYear c.marchYear + 365 * (year - 1 - c.marchYear) ≤
        daysBeforeMarchYear (year - 1) := daysBeforeMarchYear_add_le
  have hbehind : year - 1 ≤ c.marchYear →
      daysBeforeMarchYear (year - 1) + 365 * (c.marchYear - (year - 1)) ≤
        daysBeforeMarchYear c.marchYear := daysBeforeMarchYear_add_le
  have hyear : c.marchYear = if c.month ≤ 2 then c.year - 1 else c.year := rfl
  by_cases hwinter : c.month ≤ 2
  · rw [if_pos hwinter] at hyear
    omega
  · rw [if_neg hwinter] at hyear
    omega

theorem fourDigits_iff (hc : c.Valid) :
    c.FourDigits ↔ -719_528 ≤ c.dayNumber ∧ c.dayNumber < 2_932_897 := by
  have hfirst := year_lt_iff hc 0
  have hlast := year_lt_iff hc 10_000
  have hzero : dayNumber ⟨0, 1, 1⟩ = -719_528 := rfl
  have htenThousand : dayNumber ⟨10_000, 1, 1⟩ = 2_932_897 := rfl
  unfold FourDigits
  omega

/-- What starts with a date is no time of day. -/
theorem parseTime?_text (c : CivilDate) (rest : List Char) :
    TimeOfDay.parse? (c.text ++ rest) = none := by
  unfold text yearText
  split
  · have hsign : ∀ cs, fixedDigits 2 ('-' :: cs) = none := fun cs =>
      fixedDigits_eq_none (by decide) (noDigitHead_cons (by decide))
    unfold TimeOfDay.parse? TimeOfDay.readExtended
    simp only [List.cons_append, hsign, Option.bind_eq_bind, Option.bind_none]
  · have hlength := le_length_paddedDigits 4 c.year.natAbs
    rw [List.append_assoc, List.append_assoc]
    exact TimeOfDay.parse?_eq_none_of_allDigits (allDigits_paddedDigits 4 c.year.natAbs)
      (by omega) _

end CivilDate

variable {d : Date} {v : DateTime} {clock : LocalClock}

theorem Date.fourDigits_iff :
    d.civil.FourDigits ↔ -719_528 ≤ d.dayNumber ∧ d.dayNumber < 2_932_897 := by
  obtain ⟨hvalid, hnumber⟩ := CivilDate.valid_and_dayNumber_ofDayNumber d.dayNumber
  rw [CivilDate.fourDigits_iff d.valid_civil, Date.civil, hnumber]

/-! ## Texts -/

/-- **A date is read back from its own text exactly if its year has four digits.** -/
theorem Date.parse?_text_iff : Date.parse? d.text = some d ↔ d.civil.FourDigits := by
  constructor
  · intro h
    unfold Date.parse? at h
    split at h
    · next hread =>
      cases h
      exact Date.fourDigits_of_read hread
    · cases h
  · exact Date.parse?_text

/-- A text behind a date leaves the local date as it is. -/
theorem DateTime.localDate?_of_ofDateAnd? {compact : Bool} {cs : List Char}
    (h : ofDateAnd? d compact cs clock = some v) : v.localDate? = some d := by
  unfold ofDateAnd? at h
  split at h
  · exact (ofLocal?_eq_some_iff.1 h).1
  · split at h
    · obtain ⟨⟨t, behind⟩, -, h⟩ := Option.bind_eq_some_iff.1 h
      obtain ⟨zone, -, h⟩ := Option.bind_eq_some_iff.1 h
      exact (ofLocal?_eq_some_iff.1 h).1
    · cases h

/-- A date is not read off more digits than a year has, up to a mark that may stand behind it. -/
theorem ofDateAnd?_of_long_year {compact : Bool} {run rest behind : List Char}
    (hrun : AllDigits run) (hlength : 4 < run.length)
    (h : Date.read (run ++ '-' :: rest) = some ((d, compact), behind)) (clock : LocalClock) :
    DateTime.ofDateAnd? d compact behind clock = none := by
  have hdash : '-'.isDigit = false := rfl
  unfold Date.read at h
  simp only [Option.bind_eq_bind] at h
  obtain ⟨⟨year, behindYear⟩, hyear, h⟩ := Option.bind_eq_some_iff.1 h
  obtain ⟨taken, left, rfl, htaken, rfl⟩ := exists_of_fixedDigits hdash hyear
  have hleft : left ≠ [] := by
    rintro rfl
    rw [List.append_nil] at hlength
    omega
  have hdigits := (allDigits_append.1 hrun).2
  simp only [eat_digits hdash hdigits hleft, Option.isNone_none, Option.getD_none, if_true,
    Option.bind_some] at h
  obtain ⟨⟨month, behindMonth⟩, hmonth, h⟩ := Option.bind_eq_some_iff.1 h
  obtain ⟨months, left, rfl, -, rfl⟩ := exists_of_fixedDigits hdash hmonth
  obtain ⟨⟨day, behindDay⟩, hday, h⟩ := Option.bind_eq_some_iff.1 h
  obtain ⟨days, left, rfl, -, rfl⟩ := exists_of_fixedDigits hdash hday
  obtain ⟨date, hdate, heq⟩ := Option.bind_eq_some_iff.1 h
  cases heq
  have hrest := (allDigits_append.1 (allDigits_append.1 hdigits).2).2
  -- what is left begins with a digit or a dash, and neither stands in front of a time of day
  have hmark : ∀ c more, c.isDigit = true ∨ c = '-' →
      DateTime.ofDateAnd? d true (c :: more) clock = none := by
    intro c more hc
    refine if_neg ?_
    rintro (rfl | rfl | rfl) <;> exact absurd hc (by decide)
  cases left with
  | nil => exact hmark '-' rest (.inr rfl)
  | cons c left => exact hmark c (left ++ '-' :: rest) (.inl (hrest c List.mem_cons_self))

/-- A text that begins with a date is read only if its year has four digits. -/
theorem CivilDate.fourDigits_of_parseBy? {c : CivilDate} {rest : List Char}
    (h : DateTime.parseBy? clock (c.text ++ rest) = some v) : c.FourDigits := by
  unfold DateTime.parseBy? at h
  rw [c.parseTime?_text] at h
  obtain ⟨⟨⟨d, compact⟩, behind⟩, hread, h⟩ := Option.bind_eq_some_iff.1 h
  unfold text yearText at hread
  split at hread
  · have hsign : ∀ cs, fixedDigits 4 ('-' :: cs) = none := fun cs =>
      fixedDigits_eq_none (by decide) (noDigitHead_cons (by decide))
    unfold Date.read at hread
    simp only [List.cons_append, hsign, Option.bind_eq_bind, Option.bind_none] at hread
    cases hread
  · next hsign =>
    refine ⟨Int.not_lt.1 hsign, ?_⟩
    by_contra hlong
    have hlength : 4 < (paddedDigits 4 c.year.natAbs).length := by
      have hdigits := mt (length_digits_le_iff (n := c.year.natAbs) (w := 4) (by decide)).1 (by
        have hpower : powerOfTen 4 = 10_000 := rfl
        omega)
      rw [paddedDigits, zeroFill, List.length_append]
      omega
    simp only [List.append_assoc, List.cons_append] at hread
    have hnone := ofDateAnd?_of_long_year (allDigits_paddedDigits 4 _) hlength hread clock
    cases hnone.symm.trans h

/-- **A date with a time of day is read back from its own text exactly if its year has four
digits**, where the text says all of the time of day and of the offset. -/
theorem DateTime.parseBy?_text_iff (hd : v.localDate? = some d) (ht : v.localTime.OnTick)
    (ho : v.offset.seconds % 60 = 0) : parseBy? clock v.text = some v ↔ d.civil.FourDigits := by
  constructor
  · intro h
    have htime : TimeOfDay.parse? v.text = none := by
      unfold DateTime.text
      rw [List.append_assoc]
      exact CivilDate.parseTime?_text _ _
    unfold parseBy? at h
    rw [htime] at h
    obtain ⟨⟨⟨date, compact⟩, rest⟩, hread, h⟩ := Option.bind_eq_some_iff.1 h
    have hdate := localDate?_of_ofDateAnd? h
    rw [hd] at hdate
    cases hdate
    exact Date.fourDigits_of_read hread
  · intro hyear
    rw [parse_text hd hyear ht, Offset.cut_eq_self_iff.2 ho]
    exact ofLocal?_eq_some_iff.2 ⟨hd, rfl, rfl⟩

end MessageScript.Calendar
