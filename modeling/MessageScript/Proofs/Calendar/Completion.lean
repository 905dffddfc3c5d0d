import MessageScript.Proofs.Calendar.DateTime

/-!
# What defaults complete

A text that is read as a date with a time of day is a time of day alone, or says a local date and
time, with an offset or without one (`DatedForm`); nothing else is read.  Defaults give what the
text leaves out and change nothing of what it says.

    parseBy? clock cs = some v →
      (∃ t, TimeOfDay.parse? cs = some t) ∨ ∃ d t zone, DatedForm d t zone cs   (DatedForm.of_parse)
    DatedForm d t zone cs → parseBy? clock cs = ofParts? d t zone clock            (DatedForm.parse)
    two defaults read the same of what a text says, and complete the rest  (defaults_only_complete)
-/

namespace MessageScript.Calendar

open Text

variable {d : Date} {t : TimeOfDay} {o : Offset} {zone : Option Offset} {v : DateTime}
  {clock : LocalClock} {cs rest : List Char} {compact : Bool}

/-! ## Forms of what is read -/

/-- What is read as a date is a text of it. -/
theorem DateForm.of_read (h : Date.read cs = some ((d, compact), rest)) :
    ∃ ds, cs = ds ++ rest ∧ DateForm d.civil compact ds := by
  unfold Date.read at h
  simp only [Option.bind_eq_bind] at h
  obtain ⟨⟨year, behindYear⟩, hyear, h⟩ := Option.bind_eq_some_iff.1 h
  obtain ⟨⟨month, behindMonth⟩, hmonth, h⟩ := Option.bind_eq_some_iff.1 h
  have hcs := eq_append_of_fixedDigits (by decide) hyear
  have hmonth := eq_append_of_fixedDigits (by decide) hmonth
  cases hdash : eat '-' behindYear with
  | none =>
    simp only [hdash, Option.isNone_none, if_true, Option.getD_none, Option.bind_some] at h hmonth
    obtain ⟨⟨day, behindDay⟩, hday, h⟩ := Option.bind_eq_some_iff.1 h
    obtain ⟨date, hdate, heq⟩ := Option.bind_eq_some_iff.1 h
    cases heq
    refine ⟨_, ?_, .compact⟩
    rw [(Date.civil_of_ofCivil? hdate).2, hcs, hmonth, eq_append_of_fixedDigits (by decide) hday]
    simp only [Int.natAbs_natCast, List.append_assoc]
  | some behindDash =>
    simp only [hdash, Option.isNone_some, Bool.false_eq_true, if_false,
      Option.getD_some] at h hmonth
    obtain ⟨behindSecond, hsecond, h⟩ := Option.bind_eq_some_iff.1 h
    obtain ⟨⟨day, behindDay⟩, hday, h⟩ := Option.bind_eq_some_iff.1 h
    obtain ⟨date, hdate, heq⟩ := Option.bind_eq_some_iff.1 h
    cases heq
    refine ⟨_, ?_, .dashed⟩
    rw [(Date.civil_of_ofCivil? hdate).2, hcs, eat_eq_some_iff.1 hdash, hmonth,
      eat_eq_some_iff.1 hsecond, eq_append_of_fixedDigits (by decide) hday]
    simp only [Int.natAbs_natCast, List.append_assoc, List.cons_append]

/-- A time of day has the parts that it is made of. -/
theorem TimeOfDay.parts_of_ofParts? {hour minute second nanos : Nat}
    (h : TimeOfDay.ofParts? hour minute second nanos = some t) :
    t.hour = hour ∧ t.minute = minute ∧ t.second = second := by
  have hseconds : hour < 24 ∧ minute < 60 ∧ second < 60 ∧
      t.seconds = hour * 3600 + minute * 60 + second := by
    unfold TimeOfDay.ofParts? TimeOfDay.ofSeconds? at h
    split at h
    · next hparts =>
      split at h
      · cases h
        exact ⟨hparts.1, hparts.2.1, hparts.2.2, rfl⟩
      · cases h
    · cases h
  unfold TimeOfDay.hour TimeOfDay.minute TimeOfDay.second
  omega

-- behind the minutes both readers go on with seconds and a fraction, or with nothing
theorem TimeForm.of_seconds {hour minute second : Nat} (compact : Bool)
    (h : (do
      let (nanos, cs) ← optionalFraction cs
      return (← TimeOfDay.ofParts? hour minute second nanos, cs)) = some (t, rest)) :
    ∃ f, cs = f ++ rest ∧ TimeForm t compact (paddedDigits 2 hour ++ (clockMark compact ++
      (paddedDigits 2 minute ++ (clockMark compact ++ (paddedDigits 2 second ++ f))))) := by
  obtain ⟨⟨nanos, behindFraction⟩, hfraction, h⟩ := Option.bind_eq_some_iff.1 h
  obtain ⟨time, htime, heq⟩ := Option.bind_eq_some_iff.1 h
  cases heq
  obtain ⟨f, rfl, hf⟩ := form_of_optionalFraction hfraction
  obtain ⟨rfl, rfl, rfl⟩ := TimeOfDay.parts_of_ofParts? htime
  rw [← TimeOfDay.nanos_of_ofParts? htime] at hf
  exact ⟨f, rfl, .seconds hf⟩

theorem TimeForm.of_minutes {hour minute : Nat} (compact : Bool)
    (h : (do return (← TimeOfDay.ofParts? hour minute 0 0, cs)) = some (t, rest)) :
    cs = rest ∧ TimeForm t compact
      (paddedDigits 2 hour ++ (clockMark compact ++ paddedDigits 2 minute)) := by
  obtain ⟨time, htime, heq⟩ := Option.bind_eq_some_iff.1 h
  cases heq
  obtain ⟨rfl, rfl, hsecond⟩ := TimeOfDay.parts_of_ofParts? htime
  exact ⟨rfl, .minutes hsecond (TimeOfDay.nanos_of_ofParts? htime)⟩

/-- What is read as a time of day with colons is a text of it. -/
theorem TimeForm.of_readExtended (h : TimeOfDay.readExtended cs = some (t, rest)) :
    ∃ ts, cs = ts ++ rest ∧ TimeForm t false ts := by
  unfold TimeOfDay.readExtended at h
  obtain ⟨⟨hour, behindHour⟩, hhour, h⟩ := Option.bind_eq_some_iff.1 h
  obtain ⟨behindColon, hcolon, h⟩ := Option.bind_eq_some_iff.1 h
  obtain ⟨⟨minute, behindMinute⟩, hminute, h⟩ := Option.bind_eq_some_iff.1 h
  rw [eq_append_of_fixedDigits (by decide) hhour, eat_eq_some_iff.1 hcolon,
    eq_append_of_fixedDigits (by decide) hminute]
  dsimp only at h
  split at h
  · obtain ⟨rfl, hform⟩ := TimeForm.of_minutes false h
    exact ⟨_, by simp, hform⟩
  · next behind hsecondColon =>
    obtain ⟨⟨second, behindSecond⟩, hsecond, h⟩ := Option.bind_eq_some_iff.1 h
    obtain ⟨f, rfl, hform⟩ := TimeForm.of_seconds false h
    rw [eat_eq_some_iff.1 hsecondColon, eq_append_of_fixedDigits (by decide) hsecond]
    exact ⟨_, by simp, hform⟩

/-- What is read as a time of day without colons is a text of it. -/
theorem TimeForm.of_readCompact (h : TimeOfDay.readCompact cs = some (t, rest)) :
    ∃ ts, cs = ts ++ rest ∧ TimeForm t true ts := by
  unfold TimeOfDay.readCompact at h
  obtain ⟨⟨hour, behindHour⟩, hhour, h⟩ := Option.bind_eq_some_iff.1 h
  obtain ⟨⟨minute, behindMinute⟩, hminute, h⟩ := Option.bind_eq_some_iff.1 h
  rw [eq_append_of_fixedDigits (by decide) hhour, eq_append_of_fixedDigits (by decide) hminute]
  dsimp only at h
  split at h
  · obtain ⟨rfl, hform⟩ := TimeForm.of_minutes true h
    exact ⟨_, by simp, hform⟩
  · next second behindSecond hsecond =>
    obtain ⟨f, rfl, hform⟩ := TimeForm.of_seconds true h
    rw [eq_append_of_fixedDigits (by decide) hsecond]
    exact ⟨_, by simp, hform⟩

/-- Behind a date a time of day lacks its colons only if the date lacks its dashes. -/
theorem TimeForm.of_readTime (h : DateTime.readTime compact cs = some (t, rest)) :
    ∃ compactTime ts, cs = ts ++ rest ∧ TimeForm t compactTime ts ∧
      (compactTime = true → compact = true) := by
  unfold DateTime.readTime at h
  split at h
  · next hcompact =>
    split at h
    · next hread =>
      rw [h] at hread
      obtain ⟨ts, hts, hform⟩ := TimeForm.of_readCompact hread
      exact ⟨true, ts, hts, hform, fun _ => hcompact⟩
    · obtain ⟨ts, hts, hform⟩ := TimeForm.of_readExtended h
      exact ⟨false, ts, hts, hform, nofun⟩
  · obtain ⟨ts, hts, hform⟩ := TimeForm.of_readExtended h
    exact ⟨false, ts, hts, hform, nofun⟩

/-- The clock of an offset is hours, and minutes with or without a colon in front. -/
theorem Offset.parts_of_readClock {seconds : Nat} (h : readClock cs = some (seconds, [])) :
    ∃ hours minutes, seconds = hours * 3600 + minutes * 60 ∧ minutes ≤ 59 ∧
      (minutes = 0 ∧ cs = paddedDigits 2 hours ∨
        ∃ compact, cs = paddedDigits 2 hours ++ (clockMark compact ++ paddedDigits 2 minutes)) := by
  unfold readClock at h
  obtain ⟨⟨hours, behindHours⟩, hhours, h⟩ := Option.bind_eq_some_iff.1 h
  have hcs := eq_append_of_fixedDigits (by decide) hhours
  refine ⟨hours, ?_⟩
  dsimp only at h
  split at h
  · obtain ⟨⟨minutes, behindMinutes⟩, hminutes, h⟩ := Option.bind_eq_some_iff.1 h
    split at h
    · next hrange =>
      cases h
      have hbehind := eq_append_of_fixedDigits (by decide) hminutes
      rw [List.append_nil] at hbehind
      refine ⟨minutes, rfl, hrange.2, .inr ⟨(eat ':' behindHours).isNone, ?_⟩⟩
      cases hcolon : eat ':' behindHours with
      | none =>
        rw [hcolon] at hbehind
        rw [hcs, show behindHours = _ from hbehind]
        rfl
      | some behindColon =>
        rw [hcolon] at hbehind
        rw [hcs, eat_eq_some_iff.1 hcolon, show behindColon = _ from hbehind]
        rfl
    · cases h
  · next hnone =>
    have hcolon : eat ':' behindHours = none :=
      Option.not_isSome_iff_eq_none.1 fun h => hnone (.inl h)
    obtain ⟨⟨minutes, behindMinutes⟩, hminutes, h⟩ := Option.bind_eq_some_iff.1 h
    cases hminutes
    rw [hcolon, Option.getD_none] at h
    split at h
    · cases h
      rw [List.append_nil] at hcs
      exact ⟨0, rfl, Nat.zero_le _, .inl ⟨rfl, hcs⟩⟩
    · cases h

theorem ZoneForm.of_readClock {sign : Char} {seconds : Nat}
    (h : Offset.readClock cs = some (seconds, [])) (hsign : sign = '+' ∨ sign = '-')
    (ho : o.seconds = if sign = '-' then -(seconds : Int) else seconds) :
    ZoneForm o (sign :: cs) := by
  have hsigned : o.HasSign sign := by
    obtain rfl | rfl := hsign
    · rw [if_neg (by decide)] at ho
      exact .inl ⟨rfl, by omega⟩
    · rw [if_pos rfl] at ho
      exact .inr ⟨rfl, by omega⟩
  have habs : o.seconds.natAbs = seconds := by
    rw [ho]
    split <;> omega
  obtain ⟨hours, minutes, hseconds, hminutes, hcs⟩ := Offset.parts_of_readClock h
  have hparts : o.seconds.natAbs / 60 / 60 = hours ∧ o.seconds.natAbs / 60 % 60 = minutes := by
    omega
  obtain ⟨rfl, rfl⟩ | ⟨compact, rfl⟩ := hcs
  · rw [← hparts.1]
    exact .hours hsigned (by omega)
  · rw [← hparts.1, ← hparts.2]
    exact .minutes compact hsigned (by omega)

/-- What is read as an offset is a text of it. -/
theorem ZoneForm.of_read (h : Offset.read cs = some (o, [])) : ZoneForm o cs := by
  unfold Offset.read at h
  split at h
  · cases h
  · next c cs =>
    split at h
    · next hc =>
      cases h
      exact .universal hc rfl
    · split at h
      · next hsign =>
        obtain ⟨⟨seconds, behind⟩, hclock, h⟩ := Option.bind_eq_some_iff.1 h
        obtain ⟨offset, hoffset, heq⟩ := Option.bind_eq_some_iff.1 h
        cases heq
        exact .of_readClock hclock hsign (Offset.ofSeconds?_eq_some_iff.1 hoffset)
      · cases h

/-- Behind a time of day there is nothing, or an offset with or without a space in front. -/
theorem ZoneForm.of_zone? (h : DateTime.zone? cs = some zone) :
    zone = none ∧ cs = [] ∨
      ∃ o gap zs, zone = some o ∧ cs = gap ++ zs ∧ (gap = [] ∨ gap = [' ']) ∧ ZoneForm o zs := by
  cases cs with
  | nil =>
    cases h
    exact .inl ⟨rfl, rfl⟩
  | cons c cs =>
    simp only [DateTime.zone?] at h
    split at h
    · next hread =>
      cases h
      right
      split at hread
      · next hspace => exact ⟨_, [' '], cs, rfl, by rw [hspace]; rfl, .inr rfl, .of_read hread⟩
      · exact ⟨_, [], c :: cs, rfl, rfl, .inl rfl, .of_read hread⟩
    · cases h

/-! ## Texts with a date -/

/-- The texts that say a local date and time, with an offset or without one.  A date alone says its
midnight. -/
inductive DatedForm (d : Date) : TimeOfDay → Option Offset → List Char → Prop
  | date {compact : Bool} {ds : List Char} (hyear : d.civil.FourDigits)
      (hd : DateForm d.civil compact ds) : DatedForm d TimeOfDay.midnight none ds
  | both {compactDate compactTime : Bool} {ds ts : List Char} {separator : Char} {t : TimeOfDay}
      (hyear : d.civil.FourDigits) (hd : DateForm d.civil compactDate ds)
      (hseparator : separator = 'T' ∨ separator = 't' ∨ separator = ' ')
      (ht : TimeForm t compactTime ts) (hcompact : compactTime = true → compactDate = true) :
      DatedForm d t none (ds ++ separator :: ts)
  | zoned {t : TimeOfDay} {o : Offset} {cs : List Char} (hyear : d.civil.FourDigits)
      (h : DateTimeForm d.civil t o cs) : DatedForm d t (some o) cs

theorem DatedForm.fourDigits (h : DatedForm d t zone cs) : d.civil.FourDigits := by
  cases h with
  | date hyear hd => exact hyear
  | both hyear hd hseparator ht hcompact => exact hyear
  | zoned hyear h => exact hyear

/-- Only an offset that the text leaves out is asked of the local clock. -/
theorem DatedForm.parse (h : DatedForm d t zone cs) (clock : LocalClock) :
    DateTime.parseBy? clock cs = DateTime.ofParts? d t zone clock := by
  have hcivil := Date.ofCivil?_civil d
  cases h with
  | date hyear hd =>
    have hread := hd.read hyear d.valid_civil hcivil []
    rw [List.append_nil] at hread
    exact (LacksOffset.date hread).parse clock
  | both hyear hd hseparator ht hcompact =>
    have htime := DateTime.readTime_append ht hcompact endsTime_nil
    rw [List.append_nil] at htime
    exact (LacksOffset.both (hd.read hyear d.valid_civil hcivil _) hseparator htime).parse clock
  | zoned hyear h => exact h.parse hyear d.valid_civil hcivil clock

/-- **A text that is read is a time of day, or says a date.** -/
theorem DatedForm.of_parse (h : DateTime.parseBy? clock cs = some v) :
    (∃ t, TimeOfDay.parse? cs = some t) ∨ ∃ d t zone, DatedForm d t zone cs := by
  unfold DateTime.parseBy? at h
  split at h
  · next t ht => exact .inl ⟨t, ht⟩
  · obtain ⟨⟨⟨d, compact⟩, rest⟩, hread, hbehind⟩ := Option.bind_eq_some_iff.1 h
    have hyear := Date.fourDigits_of_read hread
    obtain ⟨ds, hcs, hd⟩ := DateForm.of_read hread
    right
    cases rest with
    | nil =>
      rw [hcs, List.append_nil]
      exact ⟨d, _, _, .date hyear hd⟩
    | cons separator rest =>
      simp only [DateTime.ofDateAnd?] at hbehind
      split at hbehind
      · next hseparator =>
        obtain ⟨⟨t, behind⟩, htime, hbehind⟩ := Option.bind_eq_some_iff.1 hbehind
        obtain ⟨zone, hzone, -⟩ := Option.bind_eq_some_iff.1 hbehind
        obtain ⟨compactTime, ts, rfl, ht, hcompact⟩ := TimeForm.of_readTime htime
        rw [hcs]
        obtain ⟨rfl, rfl⟩ | ⟨o, gap, zs, rfl, rfl, hgap, hz⟩ := ZoneForm.of_zone? hzone
        · rw [List.append_nil]
          exact ⟨d, t, none, .both hyear hd hseparator ht hcompact⟩
        · exact ⟨d, t, some o, .zoned hyear (.mk hd hseparator ht hcompact hgap hz)⟩
      · cases hbehind

/-! ## Two readings of one text -/

/-- Whether an instant is the one at which a clock with this offset shows this date and time. -/
def DateTime.Shows (v : DateTime) (d : Date) (t : TimeOfDay) (o : Offset) : Prop :=
  v.localDate? = some d ∧ v.localTime = t ∧ v.offset = o

theorem DatedForm.exists_parse (h : DatedForm d t zone cs) (defaults : Defaults) :
    ∃ v, DateTime.parse? cs defaults = some v ∧ v.Shows d t (zone.getD defaults.offset) := by
  obtain ⟨v, hv⟩ := DateTime.exists_ofLocal? h.fourDigits t (zone.getD defaults.offset)
  exact ⟨v, (h.parse defaults.clock).trans hv, DateTime.ofLocal?_eq_some_iff.1 hv⟩

theorem TimeOfDay.shows_of_parse (ht : TimeOfDay.parse? cs = some t) {defaults : Defaults}
    (h : DateTime.parse? cs defaults = some v) : v.Shows defaults.date t defaults.offset := by
  have hv := (LacksOffset.time ht).parse defaults.clock
  exact DateTime.ofLocal?_eq_some_iff.1 (hv.symm.trans h)

/-- A text that is no time of day says its date, so all defaults read it if some do. -/
theorem DateTime.isSome_parse?_of_not_time (ht : TimeOfDay.parse? cs = none) (a b : Defaults)
    (h : (DateTime.parse? cs a).isSome) : (DateTime.parse? cs b).isSome := by
  obtain ⟨v, hv⟩ := Option.isSome_iff_exists.1 h
  obtain ⟨t, htime⟩ | ⟨d, t, zone, hform⟩ := DatedForm.of_parse hv
  · rw [ht] at htime
    cases htime
  · obtain ⟨w, hw, -⟩ := hform.exists_parse b
    exact Option.isSome_iff_exists.2 ⟨w, hw⟩

end MessageScript.Calendar

namespace MessageScript.Value

open Calendar

theorem isSome_parse?_dateTime {s : String} {defaults : Defaults} :
    (parse? .dateTime s defaults).isSome = (DateTime.parse? s.toList defaults).isSome := by
  rw [parse?, Option.isSome_map]

theorem parse?_dateTime_eq_some_iff {s : String} {defaults : Defaults} {v : DateTime} :
    parse? .dateTime s defaults = some (.dateTime v) ↔
      DateTime.parse? s.toList defaults = some v := by
  simp only [parse?, Option.map_eq_some_iff, Value.dateTime.injEq, exists_eq_right]

/-- **Defaults give what a text leaves out, and nothing else.**  Of two defaults, both read a text
that is no time of day or neither does; a text that says its offset is one instant to both; one that
says a date is that local date and time to both, at the offset of each; and a time of day alone is
that time of day on the date and at the offset of each.  No other text is read, and other kinds do
not ask the defaults. -/
theorem defaults_only_complete (s : String) (a b : Defaults) :
    (∀ k, k ≠ .dateTime → parse? k s a = parse? k s b) ∧
    (TimeOfDay.parse? s.toList = none →
      ((parse? .dateTime s a).isSome ↔ (parse? .dateTime s b).isSome)) ∧
    (∀ v, parse? .dateTime s a = some v →
      (∃ t, TimeOfDay.parse? s.toList = some t) ∨ ∃ d t zone, DatedForm d t zone s.toList) ∧
    (∀ d t o, DatedForm d t (some o) s.toList → ∃ v,
      parse? .dateTime s a = some (.dateTime v) ∧ parse? .dateTime s b = some (.dateTime v) ∧
      v.Shows d t o) ∧
    (∀ d t, DatedForm d t none s.toList → ∃ v w,
      parse? .dateTime s a = some (.dateTime v) ∧ parse? .dateTime s b = some (.dateTime w) ∧
      v.Shows d t a.offset ∧ w.Shows d t b.offset) ∧
    ∀ t v w, TimeOfDay.parse? s.toList = some t → parse? .dateTime s a = some (.dateTime v) →
      parse? .dateTime s b = some (.dateTime w) →
      v.Shows a.date t a.offset ∧ w.Shows b.date t b.offset := by
  simp only [parse?_dateTime_eq_some_iff, isSome_parse?_dateTime]
  refine ⟨fun k hk => ?_, fun ht => ?_, fun v hv => ?_, fun d t o h => ?_, fun d t h => ?_, ?_⟩
  · cases k with
    | dateTime => exact absurd rfl hk
    | _ => rfl
  · exact ⟨DateTime.isSome_parse?_of_not_time ht a b, DateTime.isSome_parse?_of_not_time ht b a⟩
  · obtain ⟨t, ht, -⟩ := Option.map_eq_some_iff.1 hv
    exact DatedForm.of_parse ht
  · -- the offset of the text is asked of neither
    obtain ⟨v, hv, hshows⟩ := h.exists_parse a
    refine ⟨v, hv, ?_, hshows⟩
    rw [← hv]
    exact (h.parse b.clock).trans (h.parse a.clock).symm
  · obtain ⟨v, hv, hshows⟩ := h.exists_parse a
    obtain ⟨w, hw, hshows'⟩ := h.exists_parse b
    exact ⟨v, w, hv, hw, hshows, hshows'⟩
  · intro t v w ht hv hw
    exact ⟨TimeOfDay.shows_of_parse ht hv, TimeOfDay.shows_of_parse ht hw⟩

theorem defaults_only_complete_leapDay : ∃ v w : DateTime,
    parse? .dateTime "20200229t192244.50" leapDayWest = some (.dateTime v) ∧
    parse? .dateTime "20200229t192244.50" Defaults.standard = some (.dateTime w) ∧
    v.localDate? = w.localDate? ∧ v.localTime = w.localTime ∧
    v.offset = westOfGreenwich ∧ w.offset = Offset.zero := by
  have hfraction : FractionForm eveningTime.nanos ['.', '5', '0'] :=
    .pointed (List.all_eq_true.1 rfl) (by decide) (by decide) (by decide)
  have htime : TimeForm eveningTime true _ := .seconds hfraction
  obtain ⟨cs, hform, hcs⟩ : ∃ cs, DatedForm leapDayWest.date eveningTime none cs ∧
      cs = "20200229t192244.50".toList :=
    ⟨_, .both ⟨by decide, by decide⟩ .compact (.inr (.inl rfl)) htime (fun _ => rfl),
      by decide +kernel⟩
  rw [hcs] at hform
  obtain ⟨-, -, -, -, hlocal, -⟩ :=
    defaults_only_complete "20200229t192244.50" leapDayWest Defaults.standard
  obtain ⟨v, w, hv, hw, ⟨hdate, htime, hoffset⟩, hdate', htime', hoffset'⟩ := hlocal _ _ hform
  exact ⟨v, w, hv, hw, by rw [hdate, hdate'], by rw [htime, htime'], hoffset, hoffset'⟩

end MessageScript.Value
