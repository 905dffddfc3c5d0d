import MessageScript.Proofs.Calendar.DayOrder
import MessageScript.Proofs.Integer.Bytes
import MessageScript.Proofs.Value.Epoch

/-!
# Dates and instants as seconds since the epoch

A date stands for the seconds from the epoch to its midnight in universal time, and so many seconds
stand for an instant and for the date it is in.  These views are inverse to each other; the one of a
date goes up by the seconds of a day from each date to the next.

    (date d).coerceBy? clock (.integer i64) = some (integer _ d.midnightSeconds)
                                                                     (coerceBy?_date_integer)
    (integer _ d.midnightSeconds).coerceBy? clock .date = some (date d)
                                                                (coerceBy?_midnightSeconds_date)
    all views by seconds                                                   (epoch_views_inverse)
-/

namespace MessageScript

open Calendar

namespace Calendar

/-- The seconds from the epoch to the midnight that a date begins with in universal time. -/
def Date.midnightSeconds (d : Date) : StoredInt ⟨true, .w64⟩ :=
  ⟨d.dayNumber * 86400, Bytes.holds_signed_iff.2 (by
    have hfirst := d.first_le
    have hlast := d.le_last
    have hpatterns : Width.w64.patterns = 0x1_0000_0000_0000_0000 := rfl
    omega)⟩

variable {d e : Date}

theorem Date.midnightSeconds_lt_iff :
    d.midnightSeconds.val < e.midnightSeconds.val ↔ d.civil.Before e.civil := by
  rw [← Date.dayNumber_lt_iff]
  unfold Date.midnightSeconds
  dsimp only
  omega

theorem Date.midnightSeconds_of_next (h : e.civil = d.civil.next) :
    e.midnightSeconds.val = d.midnightSeconds.val + 86400 := by
  have hnext := Date.dayNumber_of_next h
  unfold Date.midnightSeconds
  dsimp only
  omega

namespace DateTime

theorem ofEpochSeconds?_midnight (d : Date) :
    ofEpochSeconds? d.midnightSeconds.val = some (midnight d) :=
  ofEpochSeconds?_eq_some_iff.2 ⟨rfl, rfl, rfl⟩

theorem localDate?_midnight (d : Date) : (midnight d).localDate? = some d := by
  obtain ⟨e, he, hday⟩ := exists_localDate? (t := midnight d) rfl
  have hseconds : (midnight d).epochSeconds = d.dayNumber * 86400 := rfl
  rw [he]
  refine congrArg some (Date.ext ?_)
  omega

/-- Seconds that take the sign bit are far behind the last date. -/
theorem ofEpochSeconds?_eq_none {n : Int} (h : 0x7FFF_FFFF_FFFF_FFFF < n) :
    ofEpochSeconds? n = none := by
  cases hread : ofEpochSeconds? n with
  | none => rfl
  | some t =>
    have hseconds := (ofEpochSeconds?_eq_some_iff.1 hread).1
    have hlast := t.lt_last
    omega

end DateTime

end Calendar

namespace Value

variable {signed : Bool} {n : StoredInt ⟨true, .w64⟩} {v : Value} (clock : LocalClock)

/-! ## Dates -/

theorem coerceBy?_date_integer (d : Date) :
    (date d).coerceBy? clock (.integer ⟨true, .w64⟩) = some (integer _ d.midnightSeconds) :=
  congrArg (Option.map (integer _)) (StoredInt.ofInt?_val d.midnightSeconds)

theorem coerceBy?_midnight_date (d : Date) :
    (dateTime (DateTime.midnight d)).coerceBy? clock .date = some (date d) :=
  congrArg (Option.map date) (DateTime.localDate?_midnight d)

/-! ## Seconds -/

theorem coerceBy?_epoch_dateTime (n : StoredInt ⟨signed, .w64⟩) :
    (integer _ n).coerceBy? clock .dateTime = (DateTime.ofEpochSeconds? n.val).map dateTime := rfl

theorem coerceBy?_epoch_date (n : StoredInt ⟨signed, .w64⟩) :
    (integer _ n).coerceBy? clock .date =
      ((DateTime.ofEpochSeconds? n.val).bind DateTime.localDate?).map date := rfl

theorem coerceBy?_midnightSeconds_date (d : Date) :
    (integer _ d.midnightSeconds).coerceBy? clock .date = some (date d) := by
  rw [coerceBy?_epoch_date, DateTime.ofEpochSeconds?_midnight, Option.bind_some,
    DateTime.localDate?_midnight, Option.map_some]

/-- Seconds that are an instant are the seconds of that instant, and have its date. -/
theorem coerceBy?_of_epoch_dateTime (h : (integer _ n).coerceBy? clock .dateTime = some v) :
    v.coerceBy? clock (.integer ⟨true, .w64⟩) = some (integer _ n) ∧
    ∃ d, (integer _ n).coerceBy? clock .date = some (date d) ∧ d.dayNumber = n.val / 86400 := by
  rw [coerceBy?_epoch_dateTime] at h
  obtain ⟨t, ht, rfl⟩ := Option.map_eq_some_iff.1 h
  obtain ⟨hseconds, -, hoffset⟩ := DateTime.ofEpochSeconds?_eq_some_iff.1 ht
  obtain ⟨d, hd, hday⟩ := DateTime.exists_localDate? hoffset
  rw [hseconds] at hday
  refine ⟨?_, d, ?_, hday⟩
  · have hstored : StoredInt.ofInt? ⟨true, .w64⟩ t.epochSeconds = some n := by
      rw [hseconds]
      exact StoredInt.ofInt?_val n
    exact congrArg (Option.map (integer _)) hstored
  · rw [coerceBy?_epoch_date, ht, Option.bind_some, hd, Option.map_some]

/-- Seconds without a sign stand for what they do with one. -/
theorem coerceBy?_epoch_congr {m : StoredInt ⟨signed, .w64⟩} (h : m.val = n.val) {k : Kind}
    (hk : k = .dateTime ∨ k = .date) :
    (integer _ m).coerceBy? clock k = (integer _ n).coerceBy? clock k := by
  obtain rfl | rfl := hk
  · rw [coerceBy?_epoch_dateTime, coerceBy?_epoch_dateTime, h]
  · rw [coerceBy?_epoch_date, coerceBy?_epoch_date, h]

theorem coerceBy?_epoch_eq_none {m : StoredInt ⟨signed, .w64⟩}
    (h : 0x7FFF_FFFF_FFFF_FFFF < m.val) {k : Kind} (hk : k = .dateTime ∨ k = .date) :
    (integer _ m).coerceBy? clock k = none := by
  obtain rfl | rfl := hk
  · rw [coerceBy?_epoch_dateTime, DateTime.ofEpochSeconds?_eq_none h, Option.map_none]
  · rw [coerceBy?_epoch_date, DateTime.ofEpochSeconds?_eq_none h, Option.bind_none, Option.map_none]

/-! ## All views -/

/-- **The views by seconds since the epoch are inverse to each other.**  A date is had back from its
seconds and from its instant; the seconds are in the order of the calendar, a day apart from one
date to the next; seconds that are an instant are had back from it, and their date is that of the
days they fill, counted from 1970-01-01; and without a sign they are the same as with one, if they
can have one, and nothing if they cannot. -/
theorem epoch_views_inverse :
    (∀ d, (date d).coerceBy? clock (.integer ⟨true, .w64⟩) = some (integer _ d.midnightSeconds) ∧
      (integer _ d.midnightSeconds).coerceBy? clock .date = some (date d) ∧
      ∃ t, (date d).coerceBy? clock .dateTime = some (dateTime t) ∧
        (dateTime t).coerceBy? clock .date = some (date d)) ∧
    (∀ d e : Date, (d.midnightSeconds.val < e.midnightSeconds.val ↔ d.civil.Before e.civil) ∧
      (e.civil = d.civil.next → e.midnightSeconds.val = d.midnightSeconds.val + 86400)) ∧
    (∀ n v, (integer ⟨true, .w64⟩ n).coerceBy? clock .dateTime = some v →
      v.coerceBy? clock (.integer ⟨true, .w64⟩) = some (integer _ n) ∧
      ∃ d, (integer _ n).coerceBy? clock .date = some (date d) ∧ d.dayNumber = n.val / 86400) ∧
    CivilDate.ofDayNumber 0 = ⟨1970, 1, 1⟩ ∧
    ∀ (m : StoredInt ⟨false, .w64⟩) (k : Kind), k = .dateTime ∨ k = .date →
      (∀ n : StoredInt ⟨true, .w64⟩, m.val = n.val →
        (integer _ m).coerceBy? clock k = (integer _ n).coerceBy? clock k) ∧
      (0x7FFF_FFFF_FFFF_FFFF < m.val → (integer _ m).coerceBy? clock k = none) := by
  refine ⟨?_, ?_, ?_, rfl, ?_⟩
  · intro d
    exact ⟨coerceBy?_date_integer clock d, coerceBy?_midnightSeconds_date clock d,
      DateTime.midnight d, rfl, coerceBy?_midnight_date clock d⟩
  · exact fun d e => ⟨Date.midnightSeconds_lt_iff, Date.midnightSeconds_of_next⟩
  · exact fun n v h => coerceBy?_of_epoch_dateTime clock h
  · exact fun m k hk => ⟨fun n h => coerceBy?_epoch_congr clock h hk,
      fun h => coerceBy?_epoch_eq_none clock h hk⟩

/-- Noon of the last day before the epoch, in seconds. -/
def noonBeforeEpoch : StoredInt ⟨true, .w64⟩ := ⟨-43_200, by decide⟩

/-- The seconds before the epoch are in the day before it. -/
theorem epoch_views_noonBeforeEpoch : ∃ v d,
    (integer _ noonBeforeEpoch).coerceBy? Defaults.standard.clock .dateTime = some v ∧
    v.coerceBy? Defaults.standard.clock (.integer ⟨true, .w64⟩) =
      some (integer _ noonBeforeEpoch) ∧
    (integer _ noonBeforeEpoch).coerceBy? Defaults.standard.clock .date = some (date d) ∧
    d.civil = ⟨1969, 12, 31⟩ := by
  obtain ⟨t, ht⟩ : ∃ t, DateTime.ofEpochSeconds? (-43_200) = some t := ⟨_, rfl⟩
  have hinstant : (integer _ noonBeforeEpoch).coerceBy? Defaults.standard.clock .dateTime =
      some (dateTime t) := congrArg (Option.map dateTime) ht
  obtain ⟨-, -, hseconds, -⟩ := epoch_views_inverse Defaults.standard.clock
  obtain ⟨hback, d, hd, hday⟩ := hseconds noonBeforeEpoch _ hinstant
  refine ⟨_, d, hinstant, hback, hd, ?_⟩
  rw [Date.civil, hday]
  rfl

end Value

end MessageScript
