import MessageScript.Calendar.Fraction

/-!
# Times of day

A time of day is the seconds since midnight and the nanoseconds since the second began; during a
leap second the nanoseconds go on past a full second.  It is written `HH:mm:ss` with up to seven
digits of a fraction behind a point.  It is read so, seconds and fraction being optional; without
colons where it follows a date that is written without dashes.

Leap seconds are those that `chrono` documents for `NaiveTime`: nanoseconds from 10^9 up, below
2 * 10^9, made only in the last second of a minute.
-/

namespace MessageScript.Calendar

open Text

/-- A time of day. -/
structure TimeOfDay where
  seconds : Nat
  nanos : Nat
  seconds_lt : seconds < 86400
  nanos_lt : nanos < 2_000_000_000
  deriving DecidableEq, Repr

namespace TimeOfDay

/-- Midnight. -/
def midnight : TimeOfDay := ⟨0, 0, by decide, by decide⟩

/-- The time with these seconds and nanoseconds.  A second longer than usual ends a minute. -/
def ofSeconds? (seconds nanos : Nat) : Option TimeOfDay :=
  if h : seconds < 86400 ∧ nanos < 2_000_000_000 ∧ (1_000_000_000 ≤ nanos → seconds % 60 = 59) then
    some ⟨seconds, nanos, h.1, h.2.1⟩
  else none

/-- The time with these hours, minutes, seconds and nanoseconds. -/
def ofParts? (hour minute second nanos : Nat) : Option TimeOfDay :=
  if hour < 24 ∧ minute < 60 ∧ second < 60 then
    ofSeconds? (hour * 3600 + minute * 60 + second) nanos
  else none

/-- The hour of the day. -/
def hour (t : TimeOfDay) : Nat := t.seconds / 3600

/-- The minute of the hour. -/
def minute (t : TimeOfDay) : Nat := t.seconds / 60 % 60

/-- The second of the minute. -/
def second (t : TimeOfDay) : Nat := t.seconds % 60

/-- A time as `HH:mm:ss` and a fraction. -/
def text (t : TimeOfDay) : List Char :=
  paddedDigits 2 t.hour ++ ':' :: paddedDigits 2 t.minute ++
    ':' :: paddedDigits 2 t.second ++ fractionText t.nanos

/-- Reads `HH:mm`, `HH:mm:ss` or `HH:mm:ss` and a fraction off the front of a text. -/
def readExtended (cs : List Char) : Option (TimeOfDay × List Char) := do
  let (hour, cs) ← fixedDigits 2 cs
  let cs ← eat ':' cs
  let (minute, cs) ← fixedDigits 2 cs
  match eat ':' cs with
  | none => return (← ofParts? hour minute 0 0, cs)
  | some cs =>
    let (second, cs) ← fixedDigits 2 cs
    let (nanos, cs) ← optionalFraction cs
    return (← ofParts? hour minute second nanos, cs)

/-- Reads `HHmm`, `HHmmss` or `HHmmss` and a fraction off the front of a text. -/
def readCompact (cs : List Char) : Option (TimeOfDay × List Char) := do
  let (hour, cs) ← fixedDigits 2 cs
  let (minute, cs) ← fixedDigits 2 cs
  match fixedDigits 2 cs with
  | none => return (← ofParts? hour minute 0 0, cs)
  | some (second, cs) =>
    let (nanos, cs) ← optionalFraction cs
    return (← ofParts? hour minute second nanos, cs)

/-- The time that a text is. -/
def parse? (cs : List Char) : Option TimeOfDay :=
  match readExtended cs with
  | some (time, []) => some time
  | _ => none

/-! ## Lemmas -/

@[ext] theorem ext {a b : TimeOfDay} (hs : a.seconds = b.seconds) (hn : a.nanos = b.nanos) :
    a = b := by
  cases a; cases b; cases hs; cases hn; rfl

/-- Hour, minute and second make up the seconds since midnight. -/
theorem seconds_eq (t : TimeOfDay) :
    t.seconds = t.hour * 3600 + t.minute * 60 + t.second := by
  unfold hour minute second
  omega

theorem hour_lt (t : TimeOfDay) : t.hour < 24 := by
  have := t.seconds_lt
  unfold hour
  omega

theorem minute_lt (t : TimeOfDay) : t.minute < 60 := Nat.mod_lt _ (by decide)

theorem second_lt (t : TimeOfDay) : t.second < 60 := Nat.mod_lt _ (by decide)

end TimeOfDay

end MessageScript.Calendar
