import MessageScript.Proofs.Calendar.Form
import MessageScript.Value.Basic

/-!
# Texts of a date with a time of day

A text that says a date, a time of day and an offset (`DateTimeForm`) is that local date and time at
that offset, whatever local clock there is; and what is written is one of these texts, with the
offset cut to whole minutes.  A text that lacks the offset (`LacksOffset`) has it from the local
clock, and its value is read back from its own text exactly if that is in whole minutes.

    DateTimeForm c t o cs → parseBy? clock cs = ofLocal? d t o                  (DateTimeForm.parse)
    LacksOffset clock.today cs d t → parseBy? clock cs = ofLocal? d t (clock.offsetAt d t)
                                                                              (LacksOffset.parse)
    parseBy? clock cs = some v →
      (∃ d t, LacksOffset clock.today cs d t) ∨ ∀ other, …                 (lacksOffset_or_forall)
    parse? v.text defaults = some v ↔ defaults.offset.seconds % 60 = 0     (completed_readable_iff)
-/

namespace MessageScript.Calendar

open Text

variable {c : CivilDate} {d today : Date} {t : TimeOfDay} {o : Offset} {v : DateTime}
  {clock : LocalClock} {cs ts rest : List Char} {compact : Bool}

/-! ## Instants and local dates -/

/-- The day numbers of years of four digits are far from the ends of the range. -/
theorem CivilDate.FourDigits.dayNumber_bounds (hyear : c.FourDigits) (hc : c.Valid) :
    -900_000 < c.dayNumber ∧ c.dayNumber < 3_000_000 := by
  have hbounds := CivilDate.dayNumber_bounds hc
  have hmarch : -1 ≤ c.marchYear ∧ c.marchYear ≤ 9999 := by
    unfold CivilDate.FourDigits at hyear
    unfold CivilDate.marchYear
    split <;> omega
  unfold CivilDate.epochShift at hbounds
  omega

theorem CivilDate.FourDigits.exists_date (hyear : c.FourDigits) (hc : c.Valid) :
    ∃ d, Date.ofCivil? c = some d ∧ d.civil = c := by
  have hbounds := hyear.dayNumber_bounds hc
  have hd : Date.ofCivil? c = some ⟨c.dayNumber, by omega, by omega⟩ := by
    rw [Date.ofCivil?, if_pos hc]
    exact Date.ofDayNumber?_eq_some_iff.2 rfl
  exact ⟨_, hd, (Date.civil_of_ofCivil? hd).2⟩

theorem Date.dayNumber_bounds_of_fourDigits (hyear : d.civil.FourDigits) :
    -900_000 < d.dayNumber ∧ d.dayNumber < 3_000_000 := by
  obtain ⟨hvalid, hnumber⟩ := CivilDate.valid_and_dayNumber_ofDayNumber d.dayNumber
  have hbounds := hyear.dayNumber_bounds hvalid
  rw [Date.civil, hnumber] at hbounds
  exact hbounds

namespace DateTime

/-- An instant is the one that a clock with its offset shows so, and no other is. -/
theorem ofLocal?_eq_some_iff : ofLocal? d t o = some v ↔
    v.localDate? = some d ∧ v.localTime = t ∧ v.offset = o := by
  unfold localDate?
  rw [Date.ofDayNumber?_eq_some_iff]
  constructor
  · intro h
    obtain ⟨hday, htime, hoffset⟩ := localTime_of_ofLocal? h
    exact ⟨hday.symm, htime, hoffset⟩
  · rintro ⟨hday, rfl, rfl⟩
    have hseconds : d.dayNumber * 86400 + v.localTime.seconds - v.offset.seconds =
        v.epochSeconds := by
      rw [hday]
      simp only [localDay, localTime, localSeconds]
      omega
    unfold ofLocal?
    simp only [hseconds]
    exact dif_pos ⟨v.first_le, v.lt_last⟩

theorem exists_ofLocal? (hyear : d.civil.FourDigits) (t : TimeOfDay) (o : Offset) :
    ∃ v, ofLocal? d t o = some v := by
  have hbounds := Date.dayNumber_bounds_of_fourDigits hyear
  have hseconds := t.seconds_lt
  have hgt := o.gt
  have hlt := o.lt
  unfold ofLocal?
  exact ⟨_, dif_pos ⟨by omega, by omega⟩⟩

end DateTime

/-! ## Texts with an offset -/

/-- The texts of a local date and time at an offset.  Only behind a date without dashes may the time
of day lack its colons. -/
inductive DateTimeForm (c : CivilDate) (t : TimeOfDay) (o : Offset) : List Char → Prop
  | mk {compactDate compactTime : Bool} {ds ts zs gap : List Char} {separator : Char}
      (hd : DateForm c compactDate ds)
      (hseparator : separator = 'T' ∨ separator = 't' ∨ separator = ' ')
      (ht : TimeForm t compactTime ts) (hcompact : compactTime = true → compactDate = true)
      (hgap : gap = [] ∨ gap = [' ']) (hz : ZoneForm o zs) :
      DateTimeForm c t o (ds ++ separator :: (ts ++ (gap ++ zs)))

/-- Digits on end are no hour. -/
theorem TimeOfDay.parse?_eq_none_of_allDigits {run : List Char} (hrun : AllDigits run)
    (hlength : 2 < run.length) (rest : List Char) : TimeOfDay.parse? (run ++ rest) = none := by
  have hhour : fixedDigits 2 (run ++ rest) = some (ofDigits (run.take 2), run.drop 2 ++ rest) := by
    refine fixedDigits_eq_some_iff.2 ⟨run.take 2, ?_, ?_, ?_, rfl⟩
    · rw [← List.append_assoc, List.take_append_drop]
    · rw [List.length_take]
      omega
    · exact fun c hc => hrun c (List.mem_of_mem_take hc)
  have hcolon : eat ':' (run.drop 2 ++ rest) = none := by
    refine eat_digits (by decide) (fun c hc => hrun c (List.mem_of_mem_drop hc)) ?_ rest
    rw [ne_eq, List.drop_eq_nil_iff]
    omega
  unfold TimeOfDay.parse? TimeOfDay.readExtended
  simp only [hhour, hcolon, Option.bind_eq_bind, Option.bind_some, Option.bind_none]

namespace DateTime

/-- A text that starts with a date is no time of day. -/
theorem parseBy?_of_read (h : Date.read cs = some ((d, compact), rest)) (clock : LocalClock) :
    parseBy? clock cs = ofDateAnd? d compact rest clock := by
  have htime : TimeOfDay.parse? cs = none := by
    have hread := h
    unfold Date.read at hread
    obtain ⟨⟨year, behindYear⟩, hyear, -⟩ := Option.bind_eq_some_iff.1 hread
    obtain ⟨run, rfl, hlength, hrun, -⟩ := fixedDigits_eq_some_iff.1 hyear
    exact TimeOfDay.parse?_eq_none_of_allDigits hrun (by omega) behindYear
  unfold parseBy?
  simp only [htime, h, Option.bind_eq_bind, Option.bind_some]

theorem readTime_append {compactTime : Bool} (ht : TimeForm t compactTime ts)
    (hcompact : compactTime = true → compact = true) (hrest : EndsTime rest) :
    readTime compact (ts ++ rest) = some (t, rest) := by
  unfold readTime
  cases compactTime with
  | true => rw [hcompact rfl, if_pos rfl, ht.readCompact hrest]
  | false =>
    -- behind a compact date the compact reader is tried first, and stops at the colon
    rw [ht.readExtended hrest, ht.readCompact_eq_none rest]
    split <;> rfl

theorem zone?_append {gap zs : List Char} (hgap : gap = [] ∨ gap = [' ']) (hz : ZoneForm o zs) :
    zone? (gap ++ zs) = some (some o) := by
  obtain ⟨z, behind, rfl, hz'⟩ := hz.exists_cons
  unfold zone?
  obtain rfl | rfl := hgap
  · simp only [List.nil_append, if_neg hz', hz.read]
  · simp only [List.cons_append, List.nil_append, if_true, hz.read]

end DateTime

/-- Every text of a local date and time at an offset is that instant, to every local clock. -/
theorem DateTimeForm.parse (h : DateTimeForm c t o cs) (hyear : c.FourDigits) (hc : c.Valid)
    (hd : Date.ofCivil? c = some d) (clock : LocalClock) :
    DateTime.parseBy? clock cs = DateTime.ofLocal? d t o := by
  cases h with
  | mk hdate hseparator ht hcompact hgap hz =>
    have hends : EndsTime _ := hz.endsTime_append hgap
    rw [DateTime.parseBy?_of_read (hdate.read hyear hc hd _)]
    simp only [DateTime.ofDateAnd?, if_pos hseparator, DateTime.readTime_append ht hcompact hends,
      DateTime.zone?_append hgap hz, Option.bind_eq_bind, Option.bind_some]
    rfl

theorem DateTime.text_form (hd : v.localDate? = some d) (hyear : d.civil.FourDigits)
    (ht : v.localTime.OnTick) : DateTimeForm d.civil v.localTime v.offset.cut v.text := by
  have hcivil : CivilDate.ofDayNumber v.localDay = d.civil := by
    rw [Date.civil, Date.ofDayNumber?_eq_some_iff.1 hd]
  have hform := DateTimeForm.mk (CivilDate.text_form hyear) (.inr (.inr rfl))
    (TimeOfDay.text_form ht) (fun h => by cases h) (.inr rfl) v.offset.text_form
  unfold DateTime.text
  rw [hcivil, List.append_assoc, List.cons_append]
  exact hform

/-- The own text is read as the local date and time, at the offset cut to whole minutes. -/
theorem DateTime.parse_text (hd : v.localDate? = some d) (hyear : d.civil.FourDigits)
    (ht : v.localTime.OnTick) (clock : LocalClock) :
    parseBy? clock v.text = ofLocal? d v.localTime v.offset.cut :=
  (DateTime.text_form hd hyear ht).parse hyear d.valid_civil (Date.ofCivil?_civil d) clock

theorem Date.parse?_text (hyear : d.civil.FourDigits) : Date.parse? d.text = some d := by
  have hread := (CivilDate.text_form hyear).read hyear d.valid_civil (Date.ofCivil?_civil d) []
  rw [List.append_nil] at hread
  unfold Date.parse? Date.text
  rw [hread]

theorem TimeOfDay.parse?_text (ht : t.OnTick) : TimeOfDay.parse? t.text = some t := by
  have hread := (TimeOfDay.text_form ht).readExtended endsTime_nil
  rw [List.append_nil] at hread
  unfold TimeOfDay.parse?
  rw [hread]

/-- **All texts of a date, a time of day and an offset are one instant**, to every local clock: the
one with that local date and time at that offset.  What is written of it is one of these texts, and
date and time are read back from their own texts too. -/
theorem DateTime.forms_agree (hc : c.Valid) (hyear : c.FourDigits) (ht : t.OnTick)
    (ho : o.seconds % 60 = 0) : ∃ d v, Date.ofCivil? c = some d ∧ d.civil = c ∧
      (∀ w : DateTime, w.localDate? = some d ∧ w.localTime = t ∧ w.offset = o ↔ w = v) ∧
      (∀ cs, DateTimeForm c t o cs → ∀ clock, parseBy? clock cs = some v) ∧
      DateTimeForm c t o v.text ∧ (∀ clock, parseBy? clock v.text = some v) ∧
      Date.parse? d.text = some d ∧ TimeOfDay.parse? t.text = some t := by
  obtain ⟨d, hd, rfl⟩ := hyear.exists_date hc
  obtain ⟨v, hv⟩ := DateTime.exists_ofLocal? hyear t o
  have hread : ∀ cs, DateTimeForm d.civil t o cs → ∀ clock, parseBy? clock cs = some v := by
    intro cs hcs clock
    rw [hcs.parse hyear hc hd clock, hv]
  have htext : DateTimeForm d.civil t o v.text := by
    obtain ⟨hdate, htime, hoffset⟩ := ofLocal?_eq_some_iff.1 hv
    rw [← htime] at ht
    have hform := DateTime.text_form hdate hyear ht
    rw [htime, hoffset, Offset.cut_eq_self_iff.2 ho] at hform
    exact hform
  refine ⟨d, v, hd, rfl, ?_, hread, htext, hread _ htext, Date.parse?_text hyear,
    TimeOfDay.parse?_text ht⟩
  intro w
  rw [← ofLocal?_eq_some_iff, hv]
  constructor
  · intro h
    exact (Option.some.inj h).symm
  · rintro rfl
    rfl

/-- The middle of the second 19:22:44. -/
def eveningTime : TimeOfDay := ⟨69764, 500_000_000, by decide, by decide⟩

/-- An hour and a half behind universal time. -/
def westOfGreenwich : Offset := ⟨-5400, by decide, by decide⟩

theorem DateTime.forms_agree_leapDay : ∃ v : DateTime,
    parse? "20200229t192244.50 -0130".toList Defaults.standard = some v ∧
    v.localDate? = Date.ofCivil? ⟨2020, 2, 29⟩ ∧ v.localTime = eveningTime ∧
    v.offset = westOfGreenwich ∧ parse? v.text Defaults.standard = some v := by
  obtain ⟨d, v, hd, -, hlocal, hread, -, htext, -⟩ := DateTime.forms_agree (c := ⟨2020, 2, 29⟩)
    (t := eveningTime) (o := westOfGreenwich) (by decide) ⟨by decide, by decide⟩
    ⟨by decide, by decide⟩ (by decide)
  have hfraction : FractionForm eveningTime.nanos ['.', '5', '0'] :=
    .pointed (List.all_eq_true.1 rfl) (by decide) (by decide) (by decide)
  have htime : TimeForm eveningTime true _ := .seconds hfraction
  have hzone : ZoneForm westOfGreenwich _ := .minutes true (.inr ⟨rfl, by decide⟩) (by decide)
  obtain ⟨cs, hform, rfl⟩ : ∃ cs, DateTimeForm ⟨2020, 2, 29⟩ eveningTime westOfGreenwich cs ∧
      cs = "20200229t192244.50 -0130".toList :=
    ⟨_, .mk .compact (.inr (.inl rfl)) htime (fun _ => rfl) (.inr rfl) hzone, by decide +kernel⟩
  obtain ⟨hdate, htime, hoffset⟩ := (hlocal v).2 rfl
  exact ⟨v, hread _ hform Defaults.standard.clock, by rw [hdate, hd], htime, hoffset, htext _⟩

/-! ## Texts without an offset -/

/-- The texts that lack an offset, with the date and the time of day that they say: a time of day,
which is today's, a date, which is its midnight, or both. -/
inductive LacksOffset (today : Date) : List Char → Date → TimeOfDay → Prop
  | time {cs : List Char} {t : TimeOfDay} (ht : TimeOfDay.parse? cs = some t) :
      LacksOffset today cs today t
  | date {cs : List Char} {d : Date} {compact : Bool}
      (hd : Date.read cs = some ((d, compact), [])) : LacksOffset today cs d TimeOfDay.midnight
  | both {cs ts : List Char} {d : Date} {t : TimeOfDay} {compact : Bool} {separator : Char}
      (hd : Date.read cs = some ((d, compact), separator :: ts))
      (hseparator : separator = 'T' ∨ separator = 't' ∨ separator = ' ')
      (ht : DateTime.readTime compact ts = some (t, [])) : LacksOffset today cs d t

/-- What a text lacks comes from the local clock. -/
theorem LacksOffset.parse (clock : LocalClock) (h : LacksOffset clock.today cs d t) :
    DateTime.parseBy? clock cs = DateTime.ofLocal? d t (clock.offsetAt d t) := by
  cases h with
  | time ht =>
    unfold DateTime.parseBy?
    rw [ht]
    rfl
  | date hd =>
    rw [DateTime.parseBy?_of_read hd]
    rfl
  | both hd hseparator ht =>
    rw [DateTime.parseBy?_of_read hd]
    simp only [DateTime.ofDateAnd?, if_pos hseparator, ht, Option.bind_eq_bind, Option.bind_some]
    rfl

theorem LacksOffset.fourDigits (h : LacksOffset today cs d t) (htoday : today.civil.FourDigits) :
    d.civil.FourDigits := by
  cases h with
  | time ht => exact htoday
  | date hd => exact Date.fourDigits_of_read hd
  | both hd hseparator ht => exact Date.fourDigits_of_read hd

theorem DateTime.onTick_of_readTime (h : readTime compact cs = some (t, rest)) : t.OnTick := by
  unfold readTime at h
  split at h
  · split at h
    · next hcompact =>
      rw [h] at hcompact
      exact TimeOfDay.onTick_of_readCompact hcompact
    · exact TimeOfDay.onTick_of_readExtended h
  · exact TimeOfDay.onTick_of_readExtended h

theorem LacksOffset.onTick (h : LacksOffset today cs d t) : t.OnTick := by
  cases h with
  | time ht =>
    unfold TimeOfDay.parse? at ht
    split at ht
    · next hread =>
      cases ht
      exact TimeOfDay.onTick_of_readExtended hread
    · cases ht
  | date hd => exact ⟨by decide, by decide⟩
  | both hd hseparator ht => exact DateTime.onTick_of_readTime ht

theorem DateTime.exists_of_zone?_cons {b : Char} {zone : Option Offset}
    (h : zone? (b :: rest) = some zone) : ∃ o, zone = some o := by
  simp only [zone?] at h
  split at h
  · cases h
    exact ⟨_, rfl⟩
  · cases h

/-- A text that is read lacks an offset, or is the same instant to every local clock. -/
theorem DateTime.lacksOffset_or_forall (h : parseBy? clock cs = some v) :
    (∃ d t, LacksOffset clock.today cs d t) ∨ ∀ other, parseBy? other cs = some v := by
  unfold parseBy? at h
  split at h
  · next t ht => exact .inl ⟨_, t, .time ht⟩
  · next htime =>
    obtain ⟨⟨⟨d, compact⟩, rest⟩, hd, h⟩ := Option.bind_eq_some_iff.1 h
    cases rest with
    | nil => exact .inl ⟨d, _, .date hd⟩
    | cons separator ts =>
      simp only [ofDateAnd?] at h
      split at h
      · next hseparator =>
        obtain ⟨⟨t, behind⟩, ht, h⟩ := Option.bind_eq_some_iff.1 h
        obtain ⟨zone, hzone, h⟩ := Option.bind_eq_some_iff.1 h
        -- what is left behind the time of day can only be an offset
        cases behind with
        | nil => exact .inl ⟨d, t, .both hd hseparator ht⟩
        | cons b behind =>
          right
          intro other
          obtain ⟨o, rfl⟩ := exists_of_zone?_cons hzone
          unfold parseBy?
          simp only [htime, hd, ofDateAnd?, if_pos hseparator, ht, hzone, Option.bind_eq_bind,
            Option.bind_some]
          exact h
      · cases h

/-- **A value completed from an offset is read back from its own text exactly if that offset is in
whole minutes.**  Else its own text is read as the same local date and time, but at the offset
without its seconds.  Texts that do not lack an offset are the same instant to every local clock. -/
theorem DateTime.completed_readable_iff {defaults : Defaults}
    (htoday : defaults.date.civil.FourDigits) (h : parse? cs defaults = some v) :
    ((∃ d t, LacksOffset defaults.date cs d t) ∨ ∀ clock, parseBy? clock cs = some v) ∧
    ∀ d t, LacksOffset defaults.date cs d t →
      (∃ w, parse? v.text defaults = some w ∧ w.localDate? = v.localDate? ∧
        w.localTime = v.localTime ∧ w.offset = v.offset.cut) ∧
      (parse? v.text defaults = some v ↔ defaults.offset.seconds % 60 = 0) ∧
      (Value.parse .dateTime (Value.dateTime v).toText defaults = .ok (.dateTime v) ↔
        defaults.offset.seconds % 60 = 0) := by
  refine ⟨lacksOffset_or_forall h, fun d t hcs => ?_⟩
  have hv : ofLocal? d t defaults.offset = some v := by
    rw [← h]
    exact (LacksOffset.parse defaults.clock hcs).symm
  obtain ⟨hdate, htime, hoffset⟩ := ofLocal?_eq_some_iff.1 hv
  have hyear := hcs.fourDigits htoday
  have htick : v.localTime.OnTick := by
    rw [htime]
    exact hcs.onTick
  obtain ⟨w, hw⟩ := DateTime.exists_ofLocal? hyear v.localTime v.offset.cut
  have hread : parse? v.text defaults = some w := by
    rw [← hw]
    exact DateTime.parse_text hdate hyear htick defaults.clock
  obtain ⟨hwdate, hwtime, hwoffset⟩ := ofLocal?_eq_some_iff.1 hw
  -- both are instants of one local date and time, so only the offsets can differ
  have hsame : parse? v.text defaults = some v ↔ defaults.offset.seconds % 60 = 0 := by
    rw [hread, ← hw, ofLocal?_eq_some_iff, eq_comm (a := v.offset), Offset.cut_eq_self_iff, hoffset]
    exact ⟨fun hparts => hparts.2.2, fun hminutes => ⟨hdate, rfl, hminutes⟩⟩
  refine ⟨⟨w, hread, by rw [hwdate, hdate], hwtime, hwoffset⟩, hsame, ?_⟩
  rw [Value.parse_eq_ok_iff, ← hsame]
  simp only [Value.parse?, Value.toText, String.toList_ofList, Option.map_eq_some_iff,
    Value.dateTime.injEq, exists_eq_right]

/-- The leap day of 2020, and an hour and a half behind universal time. -/
def leapDayWest : Defaults := ⟨westOfGreenwich, ⟨18321, by decide, by decide⟩⟩

/-- The evening of that day. -/
def eveningWest : DateTime :=
  ⟨1_583_009_564, 500_000_000, westOfGreenwich, by decide, by decide, by decide⟩

theorem DateTime.completed_readable_evening :
    parse? "19:22:44.5".toList leapDayWest = some eveningWest ∧
    parse? eveningWest.text leapDayWest = some eveningWest := by
  have hread : parse? "19:22:44.5".toList leapDayWest = some eveningWest := by decide +kernel
  have htime : TimeOfDay.parse? "19:22:44.5".toList = some eveningTime := by decide +kernel
  obtain ⟨-, hcompleted⟩ := completed_readable_iff ⟨by decide, by decide⟩ hread
  obtain ⟨-, hsame, -⟩ := hcompleted _ _ (.time htime)
  exact ⟨hread, hsame.2 (by decide)⟩

/-- An offset of half a minute. -/
def halfMinuteWest : Defaults := ⟨⟨-30, by decide, by decide⟩, Defaults.standard.date⟩

/-- The midnight that a day begins with at an offset of half a minute. -/
def midnightHalfMinuteWest : DateTime :=
  ⟨1_610_582_430, 0, halfMinuteWest.offset, by decide, by decide, TimeOfDay.midnight.nanos_lt⟩

/-- At an offset of half a minute a date is read, but its own text is that of universal time. -/
theorem DateTime.completed_unreadable_halfMinute :
    LacksOffset halfMinuteWest.date "2021-01-14".toList ⟨18641, by decide, by decide⟩
      TimeOfDay.midnight ∧
    parse? "2021-01-14".toList halfMinuteWest = some midnightHalfMinuteWest ∧
    String.ofList midnightHalfMinuteWest.text = "2021-01-14 00:00:00 -00:00" ∧
    parse? midnightHalfMinuteWest.text halfMinuteWest ≠ some midnightHalfMinuteWest := by
  have hd : Date.read "2021-01-14".toList =
      some ((⟨18641, by decide, by decide⟩, false), []) := by decide +kernel
  refine ⟨.date hd, ?_, ?_, ?_⟩ <;> decide +kernel

end MessageScript.Calendar
