import MessageScript.Proofs.Calendar.Year
import MessageScript.Proofs.Stored.Value
import MessageScript.Value.Coercion

/-!
# Dates made of seconds since the epoch

An integer of 64 bits stands for the moment so many seconds after the epoch, and for its date in
universal time.  These moments fill the whole range of dates, whose years have up to six digits and
a sign, and their texts are read back in the years of four digits only.

    ofEpochSeconds? n = some t ↔ t.epochSeconds = n ∧ t.nanos = 0 ∧ t.offset = Offset.zero
                                                                     (ofEpochSeconds?_eq_some_iff)
    (integer _ n).coerce? .date defaults = some v →
      (Value.parse v.kind v.toText other = .ok v ↔ WithinFourDigitYears n.val)
                                                                              (epoch_readable_iff)
-/

namespace MessageScript

open Calendar

namespace Calendar

/-- The seconds from the begin of the year 0000 to the end of the year 9999 in universal time. -/
def WithinFourDigitYears (seconds : Int) : Prop :=
  -62_167_219_200 ≤ seconds ∧ seconds < 253_402_300_800

instance (seconds : Int) : Decidable (WithinFourDigitYears seconds) :=
  inferInstanceAs (Decidable (_ ∧ _))

namespace DateTime

variable {t : DateTime} {d : Date} {n : Int}

theorem ofEpochSeconds?_eq_some_iff : ofEpochSeconds? n = some t ↔
    t.epochSeconds = n ∧ t.nanos = 0 ∧ t.offset = Offset.zero := by
  unfold ofEpochSeconds? ofEpoch?
  constructor
  · intro h
    split at h
    · cases h
      exact ⟨rfl, rfl, rfl⟩
    · cases h
  · rintro ⟨rfl, hnanos, hoffset⟩
    rw [dif_pos ⟨t.first_le, t.lt_last, by decide, by omega⟩]
    exact congrArg some (DateTime.ext rfl hnanos.symm hoffset.symm)

theorem localDay_of_zero (ho : t.offset = Offset.zero) : t.localDay = t.epochSeconds / 86400 := by
  have hzero : Offset.zero.seconds = 0 := rfl
  rw [localDay, localSeconds, ho, hzero, Int.add_zero]

/-- In universal time every moment has a date. -/
theorem exists_localDate? (ho : t.offset = Offset.zero) :
    ∃ d, t.localDate? = some d ∧ d.dayNumber = t.epochSeconds / 86400 := by
  have hfirst := t.first_le
  have hlast := t.lt_last
  refine ⟨⟨t.epochSeconds / 86400, by omega, by omega⟩, ?_, rfl⟩
  rw [localDate?, localDay_of_zero ho]
  exact Date.ofDayNumber?_eq_some_iff.2 rfl

theorem onTick_of_nanos (hn : t.nanos = 0) : t.localTime.OnTick := by
  have hnanos : t.localTime.nanos = 0 := hn
  exact ⟨by omega, by omega⟩

end DateTime

theorem Date.fourDigits_iff_seconds {d : Date} {n : Int} (hd : d.dayNumber = n / 86400) :
    d.civil.FourDigits ↔ WithinFourDigitYears n := by
  rw [Date.fourDigits_iff, hd]
  unfold WithinFourDigitYears
  omega

end Calendar

namespace Value

variable {signed : Bool} {n : StoredInt ⟨signed, .w64⟩} {k : Kind} {v : Value} {d : Date}
  {t : DateTime} {defaults : Defaults}

theorem parse?_toText_date :
    parse? .date (date d).toText defaults = some (date d) ↔ Date.parse? d.text = some d := by
  simp only [parse?, toText, String.toList_ofList, Option.map_eq_some_iff, date.injEq,
    exists_eq_right]

theorem parse?_toText_dateTime : parse? .dateTime (dateTime t).toText defaults = some (dateTime t) ↔
    DateTime.parseBy? defaults.clock t.text = some t := by
  simp only [parse?, toText, String.toList_ofList, Option.map_eq_some_iff, dateTime.injEq,
    exists_eq_right, DateTime.parse?]

theorem coerce?_epoch_dateTime (h : (integer _ n).coerce? .dateTime defaults = some v) :
    ∃ t, v = dateTime t ∧ t.epochSeconds = n.val ∧ t.nanos = 0 ∧ t.offset = Offset.zero := by
  obtain ⟨t, ht, rfl⟩ := Option.map_eq_some_iff.1 h
  exact ⟨t, rfl, DateTime.ofEpochSeconds?_eq_some_iff.1 ht⟩

theorem coerce?_epoch_date (h : (integer _ n).coerce? .date defaults = some v) :
    ∃ d, v = date d ∧ d.dayNumber = n.val / 86400 := by
  obtain ⟨d, hd, rfl⟩ := Option.map_eq_some_iff.1 h
  obtain ⟨t, ht, hdate⟩ := Option.bind_eq_some_iff.1 hd
  obtain ⟨hseconds, -, hoffset⟩ := DateTime.ofEpochSeconds?_eq_some_iff.1 ht
  refine ⟨d, rfl, ?_⟩
  rw [Date.ofDayNumber?_eq_some_iff.1 hdate, DateTime.localDay_of_zero hoffset, hseconds]

/-- What seconds since the epoch are made into is read back in the years of four digits. -/
theorem parse?_toText_epoch (hk : k = .date ∨ k = .dateTime)
    (h : (integer _ n).coerce? k defaults = some v) (other : Defaults) :
    parse? v.kind v.toText other = some v ↔ WithinFourDigitYears n.val := by
  obtain rfl | rfl := hk
  · obtain ⟨d, rfl, hday⟩ := coerce?_epoch_date h
    rw [← Date.fourDigits_iff_seconds hday]
    exact parse?_toText_date.trans Date.parse?_text_iff
  · obtain ⟨t, rfl, hseconds, hnanos, hoffset⟩ := coerce?_epoch_dateTime h
    obtain ⟨d, hd, hday⟩ := DateTime.exists_localDate? hoffset
    rw [hseconds] at hday
    have hminutes : t.offset.seconds % 60 = 0 := by
      rw [hoffset]
      rfl
    rw [← Date.fourDigits_iff_seconds hday]
    exact parse?_toText_dateTime.trans
      (DateTime.parseBy?_text_iff hd (DateTime.onTick_of_nanos hnanos) hminutes)

/-- **A date made of seconds since the epoch, with or without a time of day, survives as its text
exactly if its year has four digits.**  So does its stored form, which is its kind and its text. -/
theorem epoch_readable_iff (hk : k = .date ∨ k = .dateTime)
    (h : (integer _ n).coerce? k defaults = some v) (other : Defaults) (kept : Bool) :
    (parse v.kind v.toText other = .ok v ↔ WithinFourDigitYears n.val) ∧
    (Stored.readValue kept (Stored.ofValue v) = .ok v ↔ WithinFourDigitYears n.val) := by
  rw [parse_eq_ok_iff, Stored.readValue_ofValue_iff]
  exact ⟨parse?_toText_epoch hk h other, parse?_toText_epoch hk h Defaults.standard⟩

/-- The last second of the year 9999. -/
def lastReadableSecond : StoredInt ⟨true, .w64⟩ := ⟨253_402_300_799, by decide⟩

theorem epoch_readable_lastDay :
    (integer _ lastReadableSecond).coerce? .date Defaults.standard =
      some (date ⟨2_932_896, by decide, by decide⟩) ∧
    parse .date (date ⟨2_932_896, by decide, by decide⟩).toText Defaults.standard =
      .ok (date ⟨2_932_896, by decide, by decide⟩) := by
  have hcoerce : (integer _ lastReadableSecond).coerce? .date Defaults.standard =
      some (date ⟨2_932_896, by decide, by decide⟩) := by decide +kernel
  exact ⟨hcoerce, (epoch_readable_iff (.inl rfl) hcoerce Defaults.standard true).1.2 (by decide)⟩

/-- The second after it. -/
def firstUnreadableSecond : StoredInt ⟨true, .w64⟩ := ⟨253_402_300_800, by decide⟩

/-- The first day of the year 10000 has a text that is not read. -/
theorem epoch_unreadable_nextDay :
    (integer _ firstUnreadableSecond).coerce? .date Defaults.standard =
      some (date ⟨2_932_897, by decide, by decide⟩) ∧
    (date ⟨2_932_897, by decide, by decide⟩).toText = "10000-01-01" ∧
    parse .date "10000-01-01" Defaults.standard ≠ .ok (date ⟨2_932_897, by decide, by decide⟩) ∧
    Stored.readValue true (Stored.ofValue (date ⟨2_932_897, by decide, by decide⟩)) ≠
      .ok (date ⟨2_932_897, by decide, by decide⟩) := by
  have htext : (date ⟨2_932_897, by decide, by decide⟩).toText = "10000-01-01" := by decide +kernel
  have hread : parse? .date "10000-01-01" Defaults.standard = none := by decide +kernel
  refine ⟨by decide +kernel, htext, ?_, ?_⟩
  · rw [ne_eq, parse_eq_ok_iff, hread]
    exact nofun
  · rw [ne_eq, Stored.readValue_ofValue_iff, htext]
    exact fun h => nomatch hread.symm.trans h

end Value

end MessageScript
