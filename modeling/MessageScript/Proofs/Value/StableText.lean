import MessageScript.Proofs.Calendar.DateTime
import MessageScript.Proofs.Calendar.Duration
import MessageScript.Proofs.Calendar.Year
import MessageScript.Value.Basic

/-!
# Texts that are read and written again

The text of a time of day, a duration or a date with a time drops what is below a tick, the longer
second and the seconds of an offset.  Read and written again it is the same text, with one
exception: the sign is that of the value before anything was dropped, and so may stand in front of a
zero, which has no sign when it is written again (`WritesMinusZero`).

    TimeOfDay.parse? t.text = some u → u.text = t.text              (TimeOfDay.text_of_parse?_text)
    Duration.parse? d.text = some e → (e.text = d.text ↔ ¬ d.WritesMinusZero)
                                                                        (Duration.text_eq_text_iff)
    DateTime.parseBy? clock v.text = some w → (w.text = v.text ↔ ¬ v.offset.WritesMinusZero)
                                                                        (DateTime.text_eq_text_iff)
-/

namespace MessageScript

open Text

namespace Calendar

variable {cs : List Char} {clock : LocalClock}

/-- A text begins with a sign or not. -/
theorem sign_append_eq_iff {p q : Prop} [Decidable p] [Decidable q] {sign : Char} :
    (if p then [sign] else []) ++ cs = (if q then [sign] else []) ++ cs ↔ (p ↔ q) := by
  rw [List.append_left_inj]
  by_cases hp : p <;> by_cases hq : q <;> simp [hp, hq]

/-! ## Times of day -/

theorem fractionText_congr {m n : Nat}
    (h : m % 1_000_000_000 / tickNanos = n % 1_000_000_000 / tickNanos) :
    fractionText m = fractionText n := by
  unfold fractionText
  rw [h]

namespace TimeOfDay

/-- A time of day in whole ticks, and not in a longer second. -/
def cut (t : TimeOfDay) : TimeOfDay :=
  ⟨t.seconds, t.nanos % 1_000_000_000 / tickNanos * tickNanos, t.seconds_lt, by
    have hticks := Nat.div_mul_le_self (t.nanos % 1_000_000_000) tickNanos
    omega⟩

variable {t u : TimeOfDay}

theorem onTick_cut (t : TimeOfDay) : t.cut.OnTick := by
  unfold cut tickNanos
  exact ⟨by dsimp only; omega, by dsimp only; omega⟩

theorem text_cut (t : TimeOfDay) : t.cut.text = t.text := by
  have hfraction : fractionText t.cut.nanos = fractionText t.nanos := by
    apply fractionText_congr
    unfold cut tickNanos
    dsimp only
    omega
  unfold text
  rw [hfraction]
  rfl

/-- What is written of a time of day is read as the time in whole ticks. -/
theorem parse?_text_eq (t : TimeOfDay) : parse? t.text = some t.cut := by
  rw [← text_cut]
  exact parse?_text (onTick_cut t)

theorem text_of_parse?_text (h : parse? t.text = some u) : u.text = t.text := by
  rw [parse?_text_eq, Option.some.injEq] at h
  rw [← h, text_cut]

end TimeOfDay

/-! ## Durations -/

namespace Duration

/-- Whether a duration is less than a tick backwards, which is written as zero behind a sign. -/
def WritesMinusZero (d : Duration) : Prop := -tickNanos < d.nanos ∧ d.nanos < 0

variable {d e : Duration}

theorem clockText_cut (n : Nat) : clockText (n - n % tickNanos) = clockText n := by
  have hseconds : (n - n % tickNanos) / 1_000_000_000 = n / 1_000_000_000 := by
    unfold tickNanos
    omega
  have hfraction : fractionText ((n - n % tickNanos) % 1_000_000_000) =
      fractionText (n % 1_000_000_000) := by
    apply fractionText_congr
    unfold tickNanos
    omega
  unfold clockText
  simp only [hseconds, hfraction]

/-- The text of a duration is read as the duration in whole ticks. -/
theorem nanos_of_parse?_text (h : parse? d.text = some e) :
    e.nanos.natAbs = d.nanos.natAbs - d.nanos.natAbs % tickNanos ∧
      (e.nanos < 0 ↔ d.nanos ≤ -tickNanos) := by
  rw [parse?_text] at h
  split at h
  · have hnanos := ofNanos?_eq_some_iff.1 h
    unfold tickNanos at hnanos ⊢
    by_cases hneg : d.nanos < 0
    · rw [decide_eq_true hneg, if_pos rfl] at hnanos
      omega
    · rw [decide_eq_false hneg, if_neg Bool.false_ne_true] at hnanos
      omega
  · cases h

/-- **A duration's text is the same when it is read and written again, unless it is a sign in front
of a zero.** -/
theorem text_eq_text_iff (h : parse? d.text = some e) : e.text = d.text ↔ ¬ d.WritesMinusZero := by
  obtain ⟨hlength, hsign⟩ := nanos_of_parse?_text h
  rw [text_eq e, text_eq d, hlength, clockText_cut, sign_append_eq_iff, hsign]
  unfold WritesMinusZero tickNanos
  omega

end Duration

/-! ## Offsets -/

namespace Offset

/-- Whether an offset is less than a minute westward, which is written as zero behind a sign. -/
def WritesMinusZero (o : Offset) : Prop := -60 < o.seconds ∧ o.seconds < 0

theorem text_cut_iff {o : Offset} : o.cut.text = o.text ↔ ¬ o.WritesMinusZero := by
  have hminutes : o.cut.seconds.natAbs / 60 = o.seconds.natAbs / 60 := by
    unfold cut
    dsimp only
    omega
  have hsign : o.cut.seconds < 0 ↔ o.seconds ≤ -60 := by
    unfold cut
    dsimp only
    omega
  unfold text WritesMinusZero
  simp only [hminutes, hsign, List.cons_append, List.cons.injEq, and_true]
  split <;> split <;> simp <;> omega

end Offset

/-! ## Dates with a time of day -/

namespace DateTime

variable {v w : DateTime} {d : Date}

/-- What is written of a date with a time is a text of it in whole ticks and minutes. -/
theorem text_form_cut (hd : v.localDate? = some d) (hyear : d.civil.FourDigits) :
    DateTimeForm d.civil v.localTime.cut v.offset.cut v.text := by
  have hcivil : CivilDate.ofDayNumber v.localDay = d.civil := by
    rw [Date.civil, Date.ofDayNumber?_eq_some_iff.1 hd]
  have hform := DateTimeForm.mk (CivilDate.text_form hyear) (.inr (.inr rfl))
    (TimeOfDay.text_form v.localTime.onTick_cut) (fun h => by cases h) (.inr rfl) v.offset.text_form
  unfold text
  rw [hcivil, List.append_assoc, List.cons_append, ← TimeOfDay.text_cut]
  exact hform

/-- The text of a date with a time is read as that local date and time in whole ticks, at the offset
in whole minutes. -/
theorem exists_of_parseBy?_text (h : parseBy? clock v.text = some w) :
    w.localDay = v.localDay ∧ w.localTime = v.localTime.cut ∧ w.offset = v.offset.cut := by
  have hyear : (CivilDate.ofDayNumber v.localDay).FourDigits := by
    unfold text at h
    rw [List.append_assoc] at h
    exact CivilDate.fourDigits_of_parseBy? h
  obtain ⟨hvalid, hnumber⟩ := CivilDate.valid_and_dayNumber_ofDayNumber v.localDay
  obtain ⟨d, hd, hcivil⟩ := hyear.exists_date hvalid
  have hday : d.dayNumber = v.localDay := by
    rw [← hnumber, ← hcivil]
    exact (CivilDate.valid_and_dayNumber_ofDayNumber d.dayNumber).2.symm
  rw [← hcivil] at hyear hvalid
  have hform := text_form_cut (v := v) (Date.ofDayNumber?_eq_some_iff.2 hday) hyear
  rw [hform.parse hyear hvalid (Date.ofCivil?_civil d) clock] at h
  obtain ⟨hdate, htime, hoffset⟩ := ofLocal?_eq_some_iff.1 h
  exact ⟨(Date.ofDayNumber?_eq_some_iff.1 hdate).symm.trans hday, htime, hoffset⟩

/-- **The text of a date with a time is the same when it is read and written again, unless the
offset is a sign in front of a zero.** -/
theorem text_eq_text_iff (h : parseBy? clock v.text = some w) :
    w.text = v.text ↔ ¬ v.offset.WritesMinusZero := by
  obtain ⟨hday, htime, hoffset⟩ := exists_of_parseBy?_text h
  unfold text
  rw [hday, htime, hoffset, TimeOfDay.text_cut, List.append_right_inj, List.cons.injEq,
    ← Offset.text_cut_iff]
  exact and_iff_right rfl

end DateTime

end Calendar

namespace Value

open Calendar

/-- Whether a value is written with a sign in front of a zero. -/
def WritesMinusZero : Value → Prop
  | duration d => d.WritesMinusZero
  | dateTime t => t.offset.WritesMinusZero
  | _ => False

variable {v w : Value} {clock : LocalClock}

theorem parseBy?_toText_time (clock : LocalClock) (t : TimeOfDay) :
    parseBy? clock .time (time t).toText = (TimeOfDay.parse? t.text).map time := by
  rw [parseBy?, parse?, toText, String.toList_ofList]
  intro h
  cases h

theorem parseBy?_toText_duration (clock : LocalClock) (d : Duration) :
    parseBy? clock .duration (duration d).toText = (Duration.parse? d.text).map duration := by
  rw [parseBy?, parse?, toText, String.toList_ofList]
  intro h
  cases h

theorem parseBy?_toText_dateTime (clock : LocalClock) (t : DateTime) :
    parseBy? clock .dateTime (dateTime t).toText =
      (DateTime.parseBy? clock t.text).map dateTime := by
  rw [parseBy?, toText, String.toList_ofList]

/-- **The text of a time of day, a duration or a date with a time is the same when it is read and
written again, unless it has a sign in front of a zero**: that of a duration of less than a tick
backwards, or of an offset of less than a minute westward. -/
theorem text_stable_iff (hk : v.kind = .time ∨ v.kind = .duration ∨ v.kind = .dateTime)
    (h : parseBy? clock v.kind v.toText = some w) :
    w.toText = v.toText ↔ ¬ v.WritesMinusZero := by
  cases v with
  | time t =>
    rw [kind, parseBy?_toText_time] at h
    obtain ⟨u, hu, rfl⟩ := Option.map_eq_some_iff.1 h
    rw [toText, toText, TimeOfDay.text_of_parse?_text hu]
    exact iff_of_true rfl id
  | duration d =>
    rw [kind, parseBy?_toText_duration] at h
    obtain ⟨e, he, rfl⟩ := Option.map_eq_some_iff.1 h
    rw [toText, toText, String.ofList_inj]
    exact Duration.text_eq_text_iff he
  | dateTime t =>
    rw [kind, parseBy?_toText_dateTime] at h
    obtain ⟨u, hu, rfl⟩ := Option.map_eq_some_iff.1 h
    rw [toText, toText, String.ofList_inj]
    exact DateTime.text_eq_text_iff hu
  | _ => simp [kind] at hk

/-- Half a second into a longer second, and half a tick. -/
def longerSecond : TimeOfDay := ⟨86_399, 1_500_000_050, by decide, by decide⟩

theorem text_stable_longerSecond : (time longerSecond).toText = "23:59:59.5" ∧
    ∃ u, parseBy? Defaults.standard.clock .time "23:59:59.5" = some (time u) ∧ u ≠ longerSecond ∧
      (time u).toText = "23:59:59.5" := by
  have htext : (time longerSecond).toText = "23:59:59.5" := by decide +kernel
  have hread : parseBy? Defaults.standard.clock .time "23:59:59.5" =
      some (time ⟨86_399, 500_000_000, by decide, by decide⟩) := by decide +kernel
  have hstable := text_stable_iff (v := time longerSecond) (.inl rfl) (by rw [htext]; exact hread)
  rw [htext] at hstable
  exact ⟨htext, _, hread, by decide, hstable.2 id⟩

/-- Half a tick backwards. -/
def halfTickAgo : Duration := ⟨-50, by decide⟩

/-- The epoch, half a minute westward. -/
def epochHalfMinuteWest : DateTime :=
  ⟨0, 0, halfMinuteWest.offset, by decide, by decide, TimeOfDay.midnight.nanos_lt⟩

/-- A sign in front of a zero is lost when the text is read and written again. -/
theorem text_unstable_halfTickAgo :
    (duration halfTickAgo).toText = "-00:00:00" ∧
    parse .duration "-00:00:00" Defaults.standard = .ok (duration ⟨0, by decide⟩) ∧
    (duration ⟨0, by decide⟩).toText = "00:00:00" ∧
    (dateTime epochHalfMinuteWest).toText = "1969-12-31 23:59:30 -00:00" ∧
    ∃ u, parse .dateTime "1969-12-31 23:59:30 -00:00" Defaults.standard = .ok (dateTime u) ∧
      (dateTime u).toText = "1969-12-31 23:59:30 +00:00" := by
  refine ⟨by decide +kernel, parse_eq_ok_iff.2 (by decide +kernel), by decide +kernel,
    by decide +kernel, ⟨-30, 0, Offset.zero, by decide, by decide, TimeOfDay.midnight.nanos_lt⟩,
    parse_eq_ok_iff.2 (by decide +kernel), by decide +kernel⟩

end Value

end MessageScript
