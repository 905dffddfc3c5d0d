import MessageScript.Calendar.Fraction

/-!
# Durations

A duration is a signed count of nanoseconds, at most 2^63 - 1 milliseconds long.  It is written in
colon form, `[-][d.]HH:mm:ss[.f]`, and read so or in unit form: counts with the units `d`, `h`, `m`,
`s`, `ms`, `us` and `ns`, each at most once and in any order, and a fraction only on `s`.  Reading
drops what is below 100 nanoseconds.

The range is the one that `chrono` documents for `TimeDelta`; a count out of range is not made.
-/

namespace MessageScript.Calendar

open Text

/-- A signed length of time. -/
structure Duration where
  nanos : Int
  le_limit : nanos.natAbs ≤ 0x7FFF_FFFF_FFFF_FFFF * 1_000_000
  deriving DecidableEq, Repr

/-- A unit of time. -/
inductive TimeUnit where
  | day
  | hour
  | minute
  | second
  | millisecond
  | microsecond
  | nanosecond
  deriving DecidableEq, Repr

namespace TimeUnit

/-- The units, from the longest. -/
def all : List TimeUnit := [day, hour, minute, second, millisecond, microsecond, nanosecond]

/-- The mark behind a count of the unit. -/
def mark : TimeUnit → List Char
  | day => ['d']
  | hour => ['h']
  | minute => ['m']
  | second => ['s']
  | millisecond => ['m', 's']
  | microsecond => ['u', 's']
  | nanosecond => ['n', 's']

/-- The nanoseconds in one unit. -/
def nanos : TimeUnit → Nat
  | day => 86_400_000_000_000
  | hour => 3_600_000_000_000
  | minute => 60_000_000_000
  | second => 1_000_000_000
  | millisecond => 1_000_000
  | microsecond => 1_000
  | nanosecond => 1

/-- The unit that a mark names, in capital or small letters. -/
def ofMark? (word : List Char) : Option TimeUnit :=
  all.find? fun u => u.mark == word.map Char.toLower

end TimeUnit

namespace Duration

/-- The duration of so many nanoseconds, if it is not too long. -/
def ofNanos? (nanos : Int) : Option Duration :=
  if h : nanos.natAbs ≤ 0x7FFF_FFFF_FFFF_FFFF * 1_000_000 then some ⟨nanos, h⟩ else none

/-- The duration of a sign and a length, cut to whole ticks. -/
def ofLength? (negative : Bool) (length : Nat) : Option Duration :=
  let ticked : Int := (length - length % tickNanos : Nat)
  ofNanos? (if negative then -ticked else ticked)

/-- The whole seconds, toward zero. -/
def wholeSeconds (d : Duration) : Int := d.nanos.tdiv 1_000_000_000

/-- The nanoseconds past the whole seconds, of the duration's sign. -/
def subsecondNanos (d : Duration) : Int := d.nanos.tmod 1_000_000_000

/-! ## Writing -/

/-- A duration in colon form. -/
def text (d : Duration) : List Char :=
  let seconds := d.nanos.natAbs / 1_000_000_000
  let days := seconds / 86400
  (if d.nanos < 0 then ['-'] else []) ++
    (if days = 0 then [] else digits days ++ ['.']) ++
    paddedDigits 2 (seconds / 3600 % 24) ++ ':' :: paddedDigits 2 (seconds / 60 % 60) ++
    ':' :: paddedDigits 2 (seconds % 60) ++ fractionText (d.nanos.natAbs % 1_000_000_000)

/-! ## Reading -/

/-- The minus sign in front of a text, and the text behind it. -/
def splitMinus : List Char → Bool × List Char
  | '-' :: rest => (true, rest)
  | rest => (false, rest)

/-- Reads the days, if there are any, and the hours of the colon form. -/
def readDaysHours (cs : List Char) : Option ((Nat × Nat) × List Char) := do
  let (lead, cs) ← digitRun 10 cs
  match eat '.' cs with
  | none => return ((0, ofDigits lead), cs)
  | some cs =>
    let (hours, cs) ← digitRun 2 cs
    return ((ofDigits lead, ofDigits hours), cs)

/-- The length that a text in colon form, behind its sign, denotes. -/
def colonLength? (cs : List Char) : Option Nat := do
  let ((days, hours), cs) ← readDaysHours cs
  let cs ← if hours ≤ 23 then eat ':' cs else none
  let (minutes, cs) ← fixedDigits 2 cs
  let cs ← if minutes ≤ 59 then eat ':' cs else none
  let (seconds, cs) ← fixedDigits 2 cs
  let (nanos, cs) ← if seconds ≤ 59 then optionalFraction cs else none
  if cs = [] then
    return (days * 86400 + hours * 3600 + minutes * 60 + seconds) * 1_000_000_000 + nanos
  else none

/-- Reads a count with its unit off the front of a text: the unit and the length. -/
def readPart (cs : List Char) : Option ((TimeUnit × Nat) × List Char) := do
  let (count, cs) ← digitRun 19 cs
  let pointed := (eat '.' cs).isSome
  let (nanos, cs) ← optionalFraction cs
  let cs := skipSpaces cs
  let unit ← TimeUnit.ofMark? (cs.takeWhile Char.isAlpha)
  if pointed ∧ unit ≠ .second then none
  else return ((unit, ofDigits count * unit.nanos + nanos), cs.dropWhile Char.isAlpha)

theorem length_lt_of_readPart {cs rest : List Char} {part : TimeUnit × Nat}
    (h : readPart cs = some (part, rest)) : rest.length < cs.length := by
  unfold readPart at h
  simp only [Option.bind_eq_bind, Option.bind_eq_some_iff, Prod.exists] at h
  obtain ⟨count, afterCount, hcount, nanos, afterFraction, hfraction, unit, -, h⟩ := h
  have h1 := length_lt_of_digitRun hcount
  have h2 := length_le_of_optionalFraction hfraction
  split at h
  · simp at h
  · simp only [pure, Option.some.injEq, Prod.mk.injEq] at h
    rw [← h.2]
    have h3 := length_dropWhile_le Char.isAlpha (skipSpaces afterFraction)
    have h4 := length_skipSpaces_le afterFraction
    omega

/-- The length that a text in unit form, behind its sign, denotes; the units in `seen` do not occur
again, and no blanks are left at the end. -/
def unitLength? (seen : List TimeUnit) (cs : List Char) : Option Nat :=
  match _h : readPart cs with
  | none => none
  | some ((unit, length), rest) =>
    if unit ∈ seen then none
    else if rest = [] then some length
    else if skipSpaces rest = [] then none
    else (unitLength? (unit :: seen) (skipSpaces rest)).map (length + ·)
  termination_by cs.length
  decreasing_by
    have h1 := length_lt_of_readPart _h
    have h2 := length_skipSpaces_le rest
    omega

/-- The duration that a text is, in colon form if it has a colon and else in unit form. -/
def parse? (cs : List Char) : Option Duration :=
  let (negative, length) := splitMinus cs
  (if cs.contains ':' then colonLength? length else unitLength? [] length).bind
    (ofLength? negative)

/-! ## Lemmas -/

@[ext] theorem ext {a b : Duration} (h : a.nanos = b.nanos) : a = b := by
  cases a; cases b; cases h; rfl

theorem ofNanos?_eq_some_iff {n : Int} {d : Duration} : ofNanos? n = some d ↔ d.nanos = n := by
  unfold ofNanos?
  constructor
  · intro h
    split at h
    · cases h; rfl
    · simp at h
  · rintro rfl
    exact dif_pos d.le_limit

end Duration

end MessageScript.Calendar
