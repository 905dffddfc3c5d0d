import MessageScript.Proofs.Calendar.Year

/-!
# Days in order

Day numbers count the days of the calendar one after the other: dates compare by year, month and
day (`Before`) as their day numbers do, and the day after a date (`next`) has the next number.

    a.Valid → b.Valid → (a.dayNumber < b.dayNumber ↔ a.Before b)                (dayNumber_lt_iff)
    c.Valid → c.next.dayNumber = c.dayNumber + 1                                  (dayNumber_next)
-/

namespace MessageScript.Calendar

namespace CivilDate

/-- Whether a date comes before another: by year, then by month, then by day. -/
def Before (a b : CivilDate) : Prop :=
  a.year < b.year ∨ a.year = b.year ∧ (a.month < b.month ∨ a.month = b.month ∧ a.day < b.day)

instance (a b : CivilDate) : Decidable (a.Before b) :=
  inferInstanceAs (Decidable (_ ∨ _ ∧ (_ ∨ _ ∧ _)))

/-- The day after a date. -/
def next (c : CivilDate) : CivilDate :=
  if c.day < daysInMonth c.year c.month then ⟨c.year, c.month, c.day + 1⟩
  else if c.month < 12 then ⟨c.year, c.month + 1, 1⟩
  else ⟨c.year + 1, 1, 1⟩

variable {a b c : CivilDate}

/-! ## The order of dates -/

theorem before_trichotomy (a b : CivilDate) : a.Before b ∨ a = b ∨ b.Before a := by
  obtain ⟨ya, ma, da⟩ := a
  obtain ⟨yb, mb, db⟩ := b
  unfold Before
  simp only [CivilDate.mk.injEq]
  omega

/-- January and February end before March begins, with a leap day or without. -/
theorem daysBeforeMarchYear_add_lt (hc : c.Valid) :
    daysBeforeMarchYear (c.year - 1) + c.marchDay < daysBeforeMarchYear c.year := by
  obtain ⟨-, -, -, hhigh, hlast⟩ := marchDay_bounds hc
  have hleap : c.marchDay = 365 → c.year % 4 = 0 ∧ (c.year % 100 ≠ 0 ∨ c.year % 400 = 0) :=
    fun h => isLeapYear_iff.1 (hlast h).2
  unfold daysBeforeMarchYear
  omega

/-- In one year begun in March, the days of a month come before those of a later one. -/
theorem marchDay_lt_of_month (ha : a.Valid) (hb : b.Valid)
    (hmonth : fromMarch a.month < fromMarch b.month) : a.marchDay < b.marchDay := by
  obtain ⟨-, hend, -⟩ := marchDay_bounds ha
  obtain ⟨hbegin, -⟩ := marchDay_bounds hb
  have hmonths : daysBeforeMonth (fromMarch a.month + 1) ≤ daysBeforeMonth (fromMarch b.month) := by
    unfold daysBeforeMonth
    omega
  omega

theorem dayNumber_lt_of_month (ha : a.Valid) (hb : b.Valid) (hyear : a.year = b.year)
    (hmonth : a.month < b.month) : a.dayNumber < b.dayNumber := by
  have hdays := dayNumber_eq_days a
  have hdays' := dayNumber_eq_days b
  unfold marchYear at hdays hdays'
  by_cases hwinter : a.month ≤ 2 ∧ 2 < b.month
  · have hend := daysBeforeMarchYear_add_lt ha
    obtain ⟨-, -, hbegin, -⟩ := marchDay_bounds hb
    rw [if_pos hwinter.1] at hdays
    rw [if_neg (by omega), ← hyear] at hdays'
    omega
  · -- both months are in one year begun in March
    have hday : a.marchDay < b.marchDay := by
      apply marchDay_lt_of_month ha hb
      unfold fromMarch
      split <;> split <;> omega
    have hsame : (if a.month ≤ 2 then a.year - 1 else a.year) =
        if b.month ≤ 2 then b.year - 1 else b.year := by
      split <;> split <;> omega
    rw [hsame] at hdays
    omega

theorem dayNumber_lt_of_day (hyear : a.year = b.year) (hmonth : a.month = b.month)
    (hday : a.day < b.day) : a.dayNumber < b.dayNumber := by
  have hdays := dayNumber_eq_days a
  have hdays' := dayNumber_eq_days b
  unfold marchYear marchDay at hdays hdays'
  rw [hyear, hmonth] at hdays
  omega

theorem dayNumber_lt_of_before (ha : a.Valid) (hb : b.Valid) (h : a.Before b) :
    a.dayNumber < b.dayNumber := by
  obtain hyear | ⟨hyear, hmonth | ⟨hmonth, hday⟩⟩ := h
  · have hbefore := (year_lt_iff ha b.year).1 hyear
    have hbehind := mt (year_lt_iff hb b.year).2 (Int.lt_irrefl _)
    omega
  · exact dayNumber_lt_of_month ha hb hyear hmonth
  · exact dayNumber_lt_of_day hyear hmonth hday

/-- **Day numbers are in the order of the calendar.** -/
theorem dayNumber_lt_iff (ha : a.Valid) (hb : b.Valid) :
    a.dayNumber < b.dayNumber ↔ a.Before b := by
  refine ⟨fun h => ?_, dayNumber_lt_of_before ha hb⟩
  obtain hbefore | rfl | hbehind := before_trichotomy a b
  · exact hbefore
  · exact absurd h (Int.lt_irrefl _)
  · exact absurd h (Int.not_lt.2 (dayNumber_lt_of_before hb ha hbehind).le)

/-! ## The next day -/

theorem daysInMonth_pos (year : Int) (month : Nat) : 1 ≤ daysInMonth year month := by
  unfold daysInMonth
  split
  · split <;> decide
  · split <;> decide

theorem valid_next (hc : c.Valid) : c.next.Valid := by
  obtain ⟨hfirst, hlast, hone, -⟩ := hc
  unfold next
  split
  · next hday => exact ⟨hfirst, hlast, Nat.le_succ_of_le hone, hday⟩
  · split
    · next hmonth => exact ⟨Nat.le_succ_of_le hfirst, hmonth, Nat.le_refl 1, daysInMonth_pos _ _⟩
    · exact ⟨Nat.le_refl 1, (by decide : 1 ≤ 12), Nat.le_refl 1, daysInMonth_pos _ _⟩

theorem before_next (hc : c.Valid) : c.Before c.next := by
  obtain ⟨-, hlast, -, -⟩ := hc
  unfold next Before
  split
  · simp
  · split <;> simp

/-- No day of the calendar is between a day and the next. -/
theorem not_before_next (hc : c.Valid) (hb : b.Valid) (h : c.Before b) : ¬ b.Before c.next := by
  obtain ⟨-, hlast, -, hday⟩ := hc
  obtain ⟨hfirst', hlast', hone', hday'⟩ := hb
  intro hnext
  -- a later day of the same month would be behind its end
  have hmonth : b.year = c.year → b.month = c.month → b.day ≤ daysInMonth c.year c.month := by
    intro hyear hmonth
    rw [← hyear, ← hmonth]
    exact hday'
  unfold Before at h hnext
  unfold next at hnext
  split at hnext
  · simp only at hnext
    omega
  · split at hnext <;> simp only at hnext <;> omega

/-- **The next day has the next number.** -/
theorem dayNumber_next (hc : c.Valid) : c.next.dayNumber = c.dayNumber + 1 := by
  have hnext := valid_next hc
  have hlt := (dayNumber_lt_iff hc hnext).2 (before_next hc)
  -- the day with the next number is no later than the next day, and no day is between
  obtain ⟨hvalid, hnumber⟩ := valid_and_dayNumber_ofDayNumber (c.dayNumber + 1)
  generalize ofDayNumber (c.dayNumber + 1) = b at hvalid hnumber
  have hbefore : c.Before b := (dayNumber_lt_iff hc hvalid).1 (by omega)
  have hnot := mt (dayNumber_lt_iff hvalid hnext).1 (not_before_next hc hvalid hbefore)
  omega

end CivilDate

namespace Date

variable {d e : Date}

theorem dayNumber_civil (d : Date) : d.civil.dayNumber = d.dayNumber :=
  (CivilDate.valid_and_dayNumber_ofDayNumber d.dayNumber).2

theorem dayNumber_lt_iff : d.dayNumber < e.dayNumber ↔ d.civil.Before e.civil := by
  rw [← CivilDate.dayNumber_lt_iff d.valid_civil e.valid_civil, dayNumber_civil, dayNumber_civil]

theorem dayNumber_of_next (h : e.civil = d.civil.next) : e.dayNumber = d.dayNumber + 1 := by
  rw [← dayNumber_civil e, h, CivilDate.dayNumber_next d.valid_civil, dayNumber_civil]

end Date

end MessageScript.Calendar
