import MessageScript.Calendar.Date
import MessageScript.Calendar.TimeOfDay

/-!
# Dates with a time of day

A `DateTime` is an instant, in seconds since 1970-01-01 in universal time and nanoseconds, with the
offset of the local time it is shown in.  It is written `yyyy-MM-dd HH:mm:ss` with a fraction and an
offset `±HH:mm`.  Reading takes that form, the forms with a `T` and without dashes, colons or
seconds, a date alone and a time alone; what the text leaves out comes from a `LocalClock`, which
may show one offset and one date at all times (`Defaults`).

As `chrono` documents for `DateTime` and `FixedOffset`, an instant is counted in universal time
within the range of dates, the offset is less than a day and only says how the instant is shown, and
an instant out of range is not made.
-/

namespace MessageScript.Calendar

open Text

/-- The distance of local time from universal time, eastward, less than a day. -/
structure Offset where
  seconds : Int
  gt : -86400 < seconds
  lt : seconds < 86400
  deriving DecidableEq, Repr

namespace Offset

/-- The offset of universal time. -/
def zero : Offset := ⟨0, by decide, by decide⟩

/-- The offset of so many seconds, if it is less than a day. -/
def ofSeconds? (seconds : Int) : Option Offset :=
  if h : -86400 < seconds ∧ seconds < 86400 then some ⟨seconds, h.1, h.2⟩ else none

/-- An offset as `±HH:mm`; the seconds are dropped. -/
def text (o : Offset) : List Char :=
  let minutes := o.seconds.natAbs / 60
  (if o.seconds < 0 then '-' else '+') :: paddedDigits 2 (minutes / 60) ++
    ':' :: paddedDigits 2 (minutes % 60)

/-- Reads the hours of an offset, and minutes behind them with or without a colon. -/
def readClock (cs : List Char) : Option (Nat × List Char) := do
  let (hours, cs) ← fixedDigits 2 cs
  let colon := eat ':' cs
  let rest := colon.getD cs
  let (minutes, cs) ←
    if colon.isSome ∨ (rest.head?.map Char.isDigit) = some true then fixedDigits 2 rest
    else some (0, rest)
  if hours ≤ 23 ∧ minutes ≤ 59 then return (hours * 3600 + minutes * 60, cs) else none

/-- Reads an offset off the front of a text: `Z`, `±HH:mm`, `±HHmm` or `±HH`. -/
def read : List Char → Option (Offset × List Char)
  | [] => none
  | c :: cs =>
    if c = 'Z' ∨ c = 'z' then some (zero, cs)
    else if c = '+' ∨ c = '-' then do
      let (seconds, cs) ← readClock cs
      let o ← ofSeconds? (if c = '-' then -(seconds : Int) else seconds)
      return (o, cs)
    else none

/-! ## Lemmas -/

@[ext] theorem ext {a b : Offset} (h : a.seconds = b.seconds) : a = b := by
  cases a; cases b; cases h; rfl

theorem ofSeconds?_eq_some_iff {n : Int} {o : Offset} : ofSeconds? n = some o ↔ o.seconds = n := by
  unfold ofSeconds?
  constructor
  · intro h
    split at h
    · cases h; rfl
    · simp at h
  · rintro rfl
    exact dif_pos ⟨o.gt, o.lt⟩

end Offset

/-- What a text without an offset, or without a date, is completed from: the offset that local time
has at a date and a time of day, and the date of today. -/
structure LocalClock where
  offsetAt : Date → TimeOfDay → Offset
  today : Date

/-- An offset and a date to complete all texts from. -/
structure Defaults where
  offset : Offset
  date : Date
  deriving DecidableEq, Repr

/-- The clock that shows one offset and one date. -/
def Defaults.clock (d : Defaults) : LocalClock := ⟨fun _ _ => d.offset, d.date⟩

/-- Universal time on 2000-01-01. -/
def Defaults.standard : Defaults := ⟨Offset.zero, ⟨10957, by decide, by decide⟩⟩

/-- An instant within the range of dates, with the offset it is shown in. -/
structure DateTime where
  epochSeconds : Int
  nanos : Nat
  offset : Offset
  first_le : -96465292 * 86400 ≤ epochSeconds
  lt_last : epochSeconds < 95026237 * 86400
  nanos_lt : nanos < 2_000_000_000
  deriving Repr

namespace DateTime

@[ext] theorem ext {a b : DateTime} (hs : a.epochSeconds = b.epochSeconds) (hn : a.nanos = b.nanos)
    (ho : a.offset = b.offset) : a = b := by
  cases a; cases b; cases hs; cases hn; cases ho; rfl

instance : DecidableEq DateTime := fun a b =>
  decidable_of_iff (a.epochSeconds = b.epochSeconds ∧ a.nanos = b.nanos ∧ a.offset = b.offset)
    ⟨fun h => ext h.1 h.2.1 h.2.2, fun h => h ▸ ⟨rfl, rfl, rfl⟩⟩

/-- The instant so many seconds and nanoseconds after the epoch.  A second longer than usual ends a
minute. -/
def ofEpoch? (seconds : Int) (nanos : Nat) (offset : Offset) : Option DateTime :=
  if h : -96465292 * 86400 ≤ seconds ∧ seconds < 95026237 * 86400 ∧ nanos < 2_000_000_000 ∧
      (1_000_000_000 ≤ nanos → seconds % 60 = 59) then
    some ⟨seconds, nanos, offset, h.1, h.2.1, h.2.2.1⟩
  else none

/-- The instant at which a clock with this offset shows a date and a time of day. -/
def ofLocal? (date : Date) (time : TimeOfDay) (offset : Offset) : Option DateTime :=
  let seconds := date.dayNumber * 86400 + time.seconds - offset.seconds
  if h : -96465292 * 86400 ≤ seconds ∧ seconds < 95026237 * 86400 then
    some ⟨seconds, time.nanos, offset, h.1, h.2, time.nanos_lt⟩
  else none

/-- Midnight in universal time. -/
def midnight (date : Date) : DateTime :=
  ⟨date.dayNumber * 86400, 0, Offset.zero, by have := date.first_le; omega,
    by have := date.le_last; omega, TimeOfDay.midnight.nanos_lt⟩

/-- The seconds since the epoch that a clock with the offset counts. -/
def localSeconds (t : DateTime) : Int := t.epochSeconds + t.offset.seconds

/-- The day number of the local date. -/
def localDay (t : DateTime) : Int := t.localSeconds / 86400

/-- The local date.  An instant within a day of the ends of the range may have none. -/
def localDate? (t : DateTime) : Option Date := Date.ofDayNumber? t.localDay

/-- The local time of day. -/
def localTime (t : DateTime) : TimeOfDay :=
  ⟨(t.localSeconds % 86400).toNat, t.nanos, by omega, t.nanos_lt⟩

/-- The local date and time, and the offset.  Where an instant within a day of the ends of the range
has no local date, rendering fails; what is written here is the date by which the calendar would go
on. -/
def text (t : DateTime) : List Char :=
  (CivilDate.ofDayNumber t.localDay).text ++ ' ' :: t.localTime.text ++ ' ' :: t.offset.text

/-- Reads the time of day behind a date.  Behind a date without dashes it may lack its colons, and
that is tried first. -/
def readTime (compact : Bool) (cs : List Char) : Option (TimeOfDay × List Char) :=
  if compact then
    match TimeOfDay.readCompact cs with
    | some result => some result
    | none => TimeOfDay.readExtended cs
  else TimeOfDay.readExtended cs

/-- The offset that the end of a text is, or none if it is empty; one space may stand in front. -/
def zone? (cs : List Char) : Option (Option Offset) :=
  match cs with
  | [] => some none
  | c :: rest =>
    match Offset.read (if c = ' ' then rest else cs) with
    | some (offset, []) => some (some offset)
    | _ => none

/-- The instant of a date and a time of day, at an offset or else at that of local time. -/
def ofParts? (date : Date) (time : TimeOfDay) (zone : Option Offset) (clock : LocalClock) :
    Option DateTime :=
  ofLocal? date time (zone.getD (clock.offsetAt date time))

/-- The instant that a date and a text behind it are. -/
def ofDateAnd? (date : Date) (compact : Bool) (cs : List Char) (clock : LocalClock) :
    Option DateTime :=
  match cs with
  | [] => ofParts? date TimeOfDay.midnight none clock
  | c :: cs =>
    if c = 'T' ∨ c = 't' ∨ c = ' ' then do
      let (time, cs) ← readTime compact cs
      let zone ← zone? cs
      ofParts? date time zone clock
    else none

/-- The instant that a text is to a local clock. -/
def parseBy? (clock : LocalClock) (cs : List Char) : Option DateTime :=
  match TimeOfDay.parse? cs with
  | some time => ofParts? clock.today time none clock
  | none => do
    let ((date, compact), cs) ← Date.read cs
    ofDateAnd? date compact cs clock

/-- The instant that a text is, completed from an offset and a date. -/
def parse? (cs : List Char) (defaults : Defaults) : Option DateTime := parseBy? defaults.clock cs

/-! ## Lemmas -/

/-- The clock that shows a date and a time shows that time. -/
theorem localTime_of_ofLocal? {date : Date} {time : TimeOfDay} {offset : Offset} {t : DateTime}
    (h : ofLocal? date time offset = some t) :
    t.localDay = date.dayNumber ∧ t.localTime = time ∧ t.offset = offset := by
  unfold ofLocal? at h
  simp only at h
  split at h
  · cases h
    have := time.seconds_lt
    refine ⟨?_, ?_, rfl⟩
    · simp only [localDay, localSeconds]
      omega
    · apply TimeOfDay.ext
      · simp only [localTime, localSeconds]
        omega
      · rfl
  · simp at h

end DateTime

end MessageScript.Calendar
