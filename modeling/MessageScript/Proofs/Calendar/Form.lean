import MessageScript.Calendar.DateTime
import MessageScript.Proofs.Calendar.CivilDate
import MessageScript.Proofs.Calendar.Fraction

/-!
# Forms of dates, times of day and offsets

The texts that stand for a date, a time of day and an offset: with dashes and colons or without,
with seconds or without, with a fraction of any length, with a sign or `Z`.  The readers take each
of them off the front of a text, and what is written is one of them.

    DateForm c compact cs → Date.read (cs ++ rest) = some ((d, compact), rest)     (DateForm.read)
    TimeForm t false cs → readExtended (cs ++ rest) = some (t, rest)       (TimeForm.readExtended)
    TimeForm t true cs → readCompact (cs ++ rest) = some (t, rest)          (TimeForm.readCompact)
    readExtended cs = some (t, rest) → t.OnTick                 (TimeOfDay.onTick_of_readExtended)
    ZoneForm o cs → Offset.read cs = some (o, [])                                  (ZoneForm.read)
-/

namespace MessageScript.Calendar

open Text

variable {rest cs : List Char}

/-! ## Dates -/

/-- The texts of a date: `yyyy-MM-dd`, or compact as `yyyyMMdd`. -/
inductive DateForm (c : CivilDate) : Bool → List Char → Prop
  | dashed : DateForm c false (paddedDigits 4 c.year.natAbs ++
      '-' :: (paddedDigits 2 c.month ++ '-' :: paddedDigits 2 c.day))
  | compact : DateForm c true
      (paddedDigits 4 c.year.natAbs ++ (paddedDigits 2 c.month ++ paddedDigits 2 c.day))

/-- The years that four digits write. -/
def CivilDate.FourDigits (c : CivilDate) : Prop := 0 ≤ c.year ∧ c.year ≤ 9999

section Date

variable {c : CivilDate} {d : Date} {compact : Bool}

theorem CivilDate.read_year (hyear : c.FourDigits) (rest : List Char) :
    fixedDigits 4 (paddedDigits 4 c.year.natAbs ++ rest) = some (c.year.natAbs, rest) := by
  refine fixedDigits_paddedDigits (by decide) ?_ rest
  have hpower : powerOfTen 4 = 10_000 := rfl
  unfold CivilDate.FourDigits at hyear
  omega

theorem CivilDate.read_month (hc : c.Valid) (rest : List Char) :
    fixedDigits 2 (paddedDigits 2 c.month ++ rest) = some (c.month, rest) :=
  fixedDigits_paddedDigits (by decide) (Nat.lt_of_le_of_lt hc.2.1 (by decide)) rest

theorem CivilDate.read_day (hc : c.Valid) (rest : List Char) :
    fixedDigits 2 (paddedDigits 2 c.day ++ rest) = some (c.day, rest) := by
  have hlength : daysInMonth c.year c.month ≤ 31 := by
    unfold daysInMonth
    split
    · split <;> omega
    · split <;> omega
  have hday : c.day ≤ 31 := Nat.le_trans hc.2.2.2 hlength
  exact fixedDigits_paddedDigits (by decide) (Nat.lt_of_le_of_lt hday (by decide)) rest

/-- A date is read off the front of a text. -/
theorem DateForm.read (h : DateForm c compact cs) (hyear : c.FourDigits) (hc : c.Valid)
    (hd : Date.ofCivil? c = some d) (rest : List Char) :
    Date.read (cs ++ rest) = some ((d, compact), rest) := by
  have hyearNat : (c.year.natAbs : Int) = c.year := Int.natAbs_of_nonneg hyear.1
  have hcivil : (⟨(c.year.natAbs : Nat), c.month, c.day⟩ : CivilDate) = c := by rw [hyearNat]
  unfold Date.read
  cases h with
  | dashed =>
    simp only [List.append_assoc, List.cons_append, Option.bind_eq_bind, Option.bind_some,
      CivilDate.read_year hyear, eat_self, Option.isNone_some, Option.getD_some,
      CivilDate.read_month hc, Bool.false_eq_true, if_false, CivilDate.read_day hc, hcivil, hd]
    rfl
  | compact =>
    have hdash : eat '-' (paddedDigits 2 c.month ++ (paddedDigits 2 c.day ++ rest)) = none :=
      eat_digits (by decide) (allDigits_paddedDigits 2 c.month) (paddedDigits_ne_nil 2 c.month) _
    simp only [List.append_assoc, Option.bind_eq_bind, Option.bind_some,
      CivilDate.read_year hyear, hdash, Option.isNone_none, Option.getD_none,
      CivilDate.read_month hc, if_true, CivilDate.read_day hc, hcivil, hd]
    rfl

theorem CivilDate.text_form (hyear : c.FourDigits) : DateForm c false c.text := by
  unfold CivilDate.text CivilDate.yearText
  rw [if_neg (Int.not_lt.2 hyear.1), List.append_assoc, List.cons_append]
  exact .dashed

theorem Date.civil_of_ofCivil? (h : Date.ofCivil? c = some d) : c.Valid ∧ d.civil = c := by
  unfold Date.ofCivil? at h
  split at h
  · next hc =>
    refine ⟨hc, ?_⟩
    rw [Date.civil, Date.ofDayNumber?_eq_some_iff.1 h, CivilDate.ofDayNumber_dayNumber hc]
  · cases h

theorem Date.valid_civil (d : Date) : d.civil.Valid :=
  (CivilDate.valid_and_dayNumber_ofDayNumber d.dayNumber).1

theorem Date.ofCivil?_civil (d : Date) : Date.ofCivil? d.civil = some d := by
  obtain ⟨hvalid, hnumber⟩ := CivilDate.valid_and_dayNumber_ofDayNumber d.dayNumber
  rw [Date.ofCivil?, Date.civil, if_pos hvalid, hnumber]
  exact Date.ofDayNumber?_eq_some_iff.2 rfl

/-- What is read as a date has a year of four digits. -/
theorem Date.fourDigits_of_read (h : Date.read cs = some ((d, compact), rest)) :
    d.civil.FourDigits := by
  unfold Date.read at h
  simp only [Option.bind_eq_bind] at h
  obtain ⟨⟨year, behindYear⟩, hyear, h⟩ := Option.bind_eq_some_iff.1 h
  obtain ⟨⟨month, behindMonth⟩, -, h⟩ := Option.bind_eq_some_iff.1 h
  -- with dashes or without, the date is made of the four digits in front
  have hcivil : ∃ c : CivilDate, c.year = year ∧ Date.ofCivil? c = some d := by
    split at h <;>
    · obtain ⟨behindDash, -, h⟩ := Option.bind_eq_some_iff.1 h
      obtain ⟨⟨day, behindDay⟩, -, h⟩ := Option.bind_eq_some_iff.1 h
      obtain ⟨date, hdate, heq⟩ := Option.bind_eq_some_iff.1 h
      cases heq
      exact ⟨_, rfl, hdate⟩
  obtain ⟨c, hc, hdate⟩ := hcivil
  have hlt : year < 10_000 := fixedDigits_lt hyear
  rw [(Date.civil_of_ofCivil? hdate).2]
  unfold CivilDate.FourDigits
  omega

end Date

/-! ## Times of day -/

/-- The mark between hours, minutes and seconds; compact texts have none. -/
def clockMark (compact : Bool) : List Char := if compact then [] else [':']

@[simp] theorem clockMark_false_append (cs : List Char) : clockMark false ++ cs = ':' :: cs := rfl

@[simp] theorem clockMark_true_append (cs : List Char) : clockMark true ++ cs = cs := rfl

/-- The texts of a time of day: `HH:mm:ss` with a fraction, and `HH:mm` where a minute begins;
compact without the colons. -/
inductive TimeForm (t : TimeOfDay) (compact : Bool) : List Char → Prop
  | minutes (hs : t.second = 0) (hn : t.nanos = 0) : TimeForm t compact
      (paddedDigits 2 t.hour ++ (clockMark compact ++ paddedDigits 2 t.minute))
  | seconds {f : List Char} (hf : FractionForm t.nanos f) : TimeForm t compact
      (paddedDigits 2 t.hour ++ (clockMark compact ++ (paddedDigits 2 t.minute ++
        (clockMark compact ++ (paddedDigits 2 t.second ++ f)))))

/-- Whether a text behind a time of day does not go on with it. -/
def EndsTime (rest : List Char) : Prop :=
  ∀ c, rest.head? = some c → c.isDigit = false ∧ c ≠ '.' ∧ c ≠ ':'

theorem endsTime_nil : EndsTime [] := by
  intro c h
  cases h

theorem EndsTime.endsFraction (h : EndsTime rest) : EndsFraction rest :=
  fun c hc => ⟨(h c hc).1, (h c hc).2.1⟩

theorem EndsTime.eat_colon (h : EndsTime rest) : eat ':' rest = none := by
  cases rest with
  | nil => rfl
  | cons c rest => exact eat_of_ne (h c rfl).2.2 rest

/-- Whether a time of day is in whole ticks, and not in a leap second. -/
structure TimeOfDay.OnTick (t : TimeOfDay) : Prop where
  lt_second : t.nanos < 1_000_000_000
  whole_ticks : t.nanos % 100 = 0

section Time

variable {t : TimeOfDay} {compact : Bool}

theorem TimeOfDay.read_hour (t : TimeOfDay) (rest : List Char) :
    fixedDigits 2 (paddedDigits 2 t.hour ++ rest) = some (t.hour, rest) :=
  fixedDigits_paddedDigits (by decide) (Nat.lt_trans t.hour_lt (by decide)) rest

theorem TimeOfDay.read_minute (t : TimeOfDay) (rest : List Char) :
    fixedDigits 2 (paddedDigits 2 t.minute ++ rest) = some (t.minute, rest) :=
  fixedDigits_paddedDigits (by decide) (Nat.lt_trans t.minute_lt (by decide)) rest

theorem TimeOfDay.read_second (t : TimeOfDay) (rest : List Char) :
    fixedDigits 2 (paddedDigits 2 t.second ++ rest) = some (t.second, rest) :=
  fixedDigits_paddedDigits (by decide) (Nat.lt_trans t.second_lt (by decide)) rest

theorem TimeOfDay.ofParts?_eq_some (h : t.nanos < 1_000_000_000) :
    TimeOfDay.ofParts? t.hour t.minute t.second t.nanos = some t := by
  unfold TimeOfDay.ofParts? TimeOfDay.ofSeconds?
  rw [if_pos ⟨t.hour_lt, t.minute_lt, t.second_lt⟩, dif_pos]
  · exact congrArg some (TimeOfDay.ext t.seconds_eq.symm rfl)
  · rw [← t.seconds_eq]
    exact ⟨t.seconds_lt, t.nanos_lt, fun hleap => by omega⟩

theorem TimeOfDay.ofParts?_minutes (hs : t.second = 0) (hn : t.nanos = 0) :
    TimeOfDay.ofParts? t.hour t.minute 0 0 = some t := by
  have hparts := TimeOfDay.ofParts?_eq_some (t := t) (by omega)
  rw [hs, hn] at hparts
  exact hparts

/-- A time of day is read off the front of a text. -/
theorem TimeForm.readExtended (h : TimeForm t false cs) (hrest : EndsTime rest) :
    TimeOfDay.readExtended (cs ++ rest) = some (t, rest) := by
  unfold TimeOfDay.readExtended
  cases h with
  | minutes hs hn =>
    simp only [List.append_assoc, clockMark_false_append, List.cons_append, t.read_hour,
      t.read_minute, eat_self, hrest.eat_colon, TimeOfDay.ofParts?_minutes hs hn,
      Option.bind_eq_bind, Option.bind_some]
    rfl
  | seconds hf =>
    simp only [List.append_assoc, clockMark_false_append, t.read_hour, t.read_minute,
      t.read_second, eat_self, hf.read hrest.endsFraction, TimeOfDay.ofParts?_eq_some hf.lt_second,
      List.cons_append, Option.bind_eq_bind, Option.bind_some]
    rfl

theorem TimeForm.readCompact (h : TimeForm t true cs) (hrest : EndsTime rest) :
    TimeOfDay.readCompact (cs ++ rest) = some (t, rest) := by
  unfold TimeOfDay.readCompact
  cases h with
  | minutes hs hn =>
    have hseconds : fixedDigits 2 rest = none :=
      fixedDigits_eq_none (by decide) hrest.endsFraction.noDigitHead
    simp only [List.append_assoc, clockMark_true_append, t.read_hour, t.read_minute, hseconds,
      TimeOfDay.ofParts?_minutes hs hn, Option.bind_eq_bind, Option.bind_some]
    rfl
  | seconds hf =>
    simp only [List.append_assoc, clockMark_true_append, t.read_hour, t.read_minute, t.read_second,
      hf.read hrest.endsFraction, TimeOfDay.ofParts?_eq_some hf.lt_second, Option.bind_eq_bind,
      Option.bind_some]
    rfl

/-- A time of day with colons is not taken for a compact one. -/
theorem TimeForm.readCompact_eq_none (h : TimeForm t false cs) (rest : List Char) :
    TimeOfDay.readCompact (cs ++ rest) = none := by
  have hcolon : ∀ behind, fixedDigits 2 (':' :: behind) = none := fun behind =>
    fixedDigits_eq_none (by decide) (noDigitHead_cons (by decide))
  unfold TimeOfDay.readCompact
  cases h <;>
  · simp only [List.append_assoc, clockMark_false_append, List.cons_append, t.read_hour, hcolon,
      Option.bind_eq_bind, Option.bind_some, Option.bind_none]

theorem TimeOfDay.text_form (h : t.OnTick) : TimeForm t false t.text := by
  have hfraction := fractionText_form t.nanos
  have hnanos : t.nanos % 1_000_000_000 / tickNanos * tickNanos = t.nanos := by
    have hlt := h.lt_second
    have hticks := h.whole_ticks
    unfold tickNanos
    omega
  rw [hnanos] at hfraction
  have hform : TimeForm t false _ := .seconds hfraction
  unfold TimeOfDay.text
  rw [List.append_assoc, List.append_assoc]
  exact hform

theorem TimeOfDay.nanos_of_ofParts? {hour minute second nanos : Nat}
    (h : TimeOfDay.ofParts? hour minute second nanos = some t) : t.nanos = nanos := by
  unfold TimeOfDay.ofParts? TimeOfDay.ofSeconds? at h
  split at h
  · split at h
    · cases h
      rfl
    · cases h
  · cases h

-- behind the minutes both readers go on with a fraction, or with nothing
theorem TimeOfDay.onTick_of_fraction {hour minute second : Nat}
    (h : (do
      let (nanos, cs) ← optionalFraction cs
      return (← TimeOfDay.ofParts? hour minute second nanos, cs)) = some (t, rest)) :
    t.OnTick := by
  obtain ⟨⟨nanos, behindFraction⟩, hfraction, h⟩ := Option.bind_eq_some_iff.1 h
  obtain ⟨time, htime, heq⟩ := Option.bind_eq_some_iff.1 h
  cases heq
  obtain ⟨f, -, hf⟩ := form_of_optionalFraction hfraction
  have hnanos : t.nanos = nanos := TimeOfDay.nanos_of_ofParts? htime
  rw [← hnanos] at hf
  exact ⟨hf.lt_second, hf.whole_ticks⟩

theorem TimeOfDay.onTick_of_minutes {hour minute : Nat}
    (h : (do return (← TimeOfDay.ofParts? hour minute 0 0, cs)) = some (t, rest)) : t.OnTick := by
  obtain ⟨time, htime, heq⟩ := Option.bind_eq_some_iff.1 h
  cases heq
  have hnanos := TimeOfDay.nanos_of_ofParts? htime
  exact ⟨by omega, by omega⟩

theorem TimeOfDay.onTick_of_readExtended (h : TimeOfDay.readExtended cs = some (t, rest)) :
    t.OnTick := by
  unfold TimeOfDay.readExtended at h
  obtain ⟨⟨hour, behindHour⟩, -, h⟩ := Option.bind_eq_some_iff.1 h
  obtain ⟨behindColon, -, h⟩ := Option.bind_eq_some_iff.1 h
  obtain ⟨⟨minute, behindMinute⟩, -, h⟩ := Option.bind_eq_some_iff.1 h
  dsimp only at h
  split at h
  · exact TimeOfDay.onTick_of_minutes h
  · obtain ⟨⟨second, behindSecond⟩, -, h⟩ := Option.bind_eq_some_iff.1 h
    exact TimeOfDay.onTick_of_fraction h

theorem TimeOfDay.onTick_of_readCompact (h : TimeOfDay.readCompact cs = some (t, rest)) :
    t.OnTick := by
  unfold TimeOfDay.readCompact at h
  obtain ⟨⟨hour, behindHour⟩, -, h⟩ := Option.bind_eq_some_iff.1 h
  obtain ⟨⟨minute, behindMinute⟩, -, h⟩ := Option.bind_eq_some_iff.1 h
  dsimp only at h
  split at h
  · exact TimeOfDay.onTick_of_minutes h
  · exact TimeOfDay.onTick_of_fraction h

end Time

/-! ## Offsets -/

/-- The signs of an offset; either will do for zero. -/
def Offset.HasSign (o : Offset) (sign : Char) : Prop :=
  sign = '+' ∧ 0 ≤ o.seconds ∨ sign = '-' ∧ o.seconds ≤ 0

/-- The texts of an offset in whole minutes: `±HH:mm` or `±HHmm`, `±HH` if it is in whole hours,
and `Z` if it is zero. -/
inductive ZoneForm (o : Offset) : List Char → Prop
  | universal {c : Char} (hc : c = 'Z' ∨ c = 'z') (ho : o.seconds = 0) : ZoneForm o [c]
  | minutes {sign : Char} (compact : Bool) (hsign : o.HasSign sign) (ho : o.seconds % 60 = 0) :
      ZoneForm o (sign :: (paddedDigits 2 (o.seconds.natAbs / 60 / 60) ++
        (clockMark compact ++ paddedDigits 2 (o.seconds.natAbs / 60 % 60))))
  | hours {sign : Char} (hsign : o.HasSign sign) (ho : o.seconds % 3600 = 0) :
      ZoneForm o (sign :: paddedDigits 2 (o.seconds.natAbs / 60 / 60))

/-- An offset without its seconds. -/
def Offset.cut (o : Offset) : Offset :=
  ⟨if o.seconds < 0 then -(o.seconds.natAbs / 60 * 60 : Nat)
    else (o.seconds.natAbs / 60 * 60 : Nat),
    by have := o.gt; omega, by have := o.lt; omega⟩

section Zone

variable {o : Offset} {sign : Char}

theorem Offset.readClock_minutes (hour minute : Nat) (hh : hour ≤ 23) (hm : minute ≤ 59)
    (compact : Bool) : Offset.readClock (paddedDigits 2 hour ++
      (clockMark compact ++ paddedDigits 2 minute)) = some (hour * 3600 + minute * 60, []) := by
  have hhour : ∀ rest, fixedDigits 2 (paddedDigits 2 hour ++ rest) = some (hour, rest) :=
    fixedDigits_paddedDigits (by decide) (Nat.lt_of_le_of_lt hh (by decide))
  have hminute : fixedDigits 2 (paddedDigits 2 minute) = some (minute, []) :=
    fixedDigits_paddedDigits_nil (by decide) (Nat.lt_of_le_of_lt hm (by decide))
  unfold Offset.readClock
  cases compact with
  | false =>
    simp only [clockMark_false_append, hhour, eat_self, Option.isSome_some, Option.getD_some,
      true_or, if_true, hminute, hh, hm, and_self, Option.bind_eq_bind, Option.bind_some]
    rfl
  | true =>
    have hcolon : eat ':' (paddedDigits 2 minute) = none := by
      have heat := eat_digits (c := ':') (by decide) (allDigits_paddedDigits 2 minute)
        (paddedDigits_ne_nil 2 minute) []
      rw [List.append_nil] at heat
      exact heat
    have hhead : (paddedDigits 2 minute).head?.map Char.isDigit = some true := by
      have hne := paddedDigits_ne_nil 2 minute
      rw [List.head?_eq_some_head hne, Option.map_some,
        allDigits_paddedDigits 2 minute _ (List.head_mem hne)]
    simp only [clockMark_true_append, hhour, hcolon, Option.isSome_none, Option.getD_none, hhead,
      or_true, if_true, hminute, hh, hm, and_self, Option.bind_eq_bind, Option.bind_some]
    rfl

theorem Offset.readClock_hours (hour : Nat) (hh : hour ≤ 23) :
    Offset.readClock (paddedDigits 2 hour) = some (hour * 3600, []) := by
  have hhour : fixedDigits 2 (paddedDigits 2 hour) = some (hour, []) :=
    fixedDigits_paddedDigits_nil (by decide) (Nat.lt_of_le_of_lt hh (by decide))
  unfold Offset.readClock
  simp only [hhour, eat_nil, Option.isSome_none, Option.getD_none, List.head?_nil, Option.map_none,
    reduceCtorEq, Bool.false_eq_true, or_self, if_false, Option.bind_eq_bind, Option.bind_some, hh,
    Nat.zero_le, and_self, if_true, Nat.zero_mul, Nat.add_zero]
  rfl

/-- The sign says which way the seconds count. -/
theorem Offset.HasSign.read (hsign : o.HasSign sign)
    (hclock : Offset.readClock cs = some (o.seconds.natAbs, rest)) :
    Offset.read (sign :: cs) = some (o, rest) := by
  have hseconds : Offset.ofSeconds?
      (if sign = '-' then -(o.seconds.natAbs : Int) else o.seconds.natAbs) = some o := by
    rw [Offset.ofSeconds?_eq_some_iff]
    obtain ⟨rfl, hnonneg⟩ | ⟨rfl, hnonpos⟩ := hsign
    · rw [if_neg (by decide)]
      omega
    · rw [if_pos rfl]
      omega
  have hsigns : (sign = '+' ∨ sign = '-') ∧ ¬ (sign = 'Z' ∨ sign = 'z') := by
    obtain ⟨rfl, -⟩ | ⟨rfl, -⟩ := hsign <;> decide
  rw [Offset.read, if_neg hsigns.2, if_pos hsigns.1, hclock]
  simp only [Option.bind_eq_bind, Option.bind_some, hseconds]
  rfl

theorem ZoneForm.read (h : ZoneForm o cs) : Offset.read cs = some (o, []) := by
  have hgt := o.gt
  have hlt := o.lt
  cases h with
  | universal hc ho =>
    have hzero : Offset.zero = o := Offset.ext ho.symm
    rw [Offset.read, if_pos hc, hzero]
  | minutes compact hsign ho =>
    have hparts : o.seconds.natAbs / 60 / 60 * 3600 + o.seconds.natAbs / 60 % 60 * 60 =
        o.seconds.natAbs := by omega
    have hclock := Offset.readClock_minutes (o.seconds.natAbs / 60 / 60)
      (o.seconds.natAbs / 60 % 60) (by omega) (by omega) compact
    rw [hparts] at hclock
    exact hsign.read hclock
  | hours hsign ho =>
    have hparts : o.seconds.natAbs / 60 / 60 * 3600 = o.seconds.natAbs := by omega
    have hclock := Offset.readClock_hours (o.seconds.natAbs / 60 / 60) (by omega)
    rw [hparts] at hclock
    exact hsign.read hclock

/-- No text of an offset goes on with a time of day. -/
theorem ZoneForm.endsTime (h : ZoneForm o cs) : EndsTime cs := by
  have hsigned : ∀ {sign : Char} (behind : List Char), o.HasSign sign →
      EndsTime (sign :: behind) := by
    rintro sign behind (⟨rfl, -⟩ | ⟨rfl, -⟩) c hc <;> cases hc <;> decide
  cases h with
  | universal hc ho =>
    rintro d hd
    cases hd
    obtain rfl | rfl := hc <;> decide
  | minutes compact hsign ho => exact hsigned _ hsign
  | hours hsign ho => exact hsigned _ hsign

theorem ZoneForm.endsTime_append {gap : List Char} (h : ZoneForm o cs)
    (hgap : gap = [] ∨ gap = [' ']) : EndsTime (gap ++ cs) := by
  obtain rfl | rfl := hgap
  · exact h.endsTime
  · intro c hc
    cases hc
    decide

theorem ZoneForm.exists_cons (h : ZoneForm o cs) : ∃ c behind, cs = c :: behind ∧ c ≠ ' ' := by
  cases h with
  | universal hc ho => exact ⟨_, _, rfl, by rintro rfl; simp at hc⟩
  | minutes compact hsign ho => exact ⟨_, _, rfl, by rintro rfl; simp [Offset.HasSign] at hsign⟩
  | hours hsign ho => exact ⟨_, _, rfl, by rintro rfl; simp [Offset.HasSign] at hsign⟩

theorem Offset.cut_eq_self_iff : o.cut = o ↔ o.seconds % 60 = 0 := by
  rw [Offset.ext_iff]
  unfold Offset.cut
  simp only
  omega

/-- What is written of an offset is a text of its whole minutes. -/
theorem Offset.text_form (o : Offset) : ZoneForm o.cut o.text := by
  have habs : o.cut.seconds.natAbs = o.seconds.natAbs / 60 * 60 := by
    unfold Offset.cut
    simp only
    omega
  have hsign : o.cut.HasSign (if o.seconds < 0 then '-' else '+') := by
    unfold Offset.HasSign Offset.cut
    simp only
    split
    · exact .inr ⟨rfl, by omega⟩
    · exact .inl ⟨rfl, by omega⟩
  have hform : ZoneForm o.cut _ := .minutes false hsign (by omega)
  rw [habs, Nat.mul_div_cancel _ (by decide)] at hform
  exact hform

end Zone

end MessageScript.Calendar
