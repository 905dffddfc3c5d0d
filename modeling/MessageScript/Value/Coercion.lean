import MessageScript.Floating.Bytes
import MessageScript.Value.Basic

/-!
# Values as other kinds

A value may stand for a value of another kind: a number for a number in range, seconds since the
epoch for a date, a text for whatever it reads as, bytes for the number they store.  `coerce?` gives
the value of the other kind, if there is one.

The views `integer?` and `double?` are what the numeric kinds share.  Texts and bytes are read as
the target asks: a text by the target's grammar, bytes at the target's width.
-/

namespace MessageScript

open Calendar

namespace Calendar

/-- The instant so many seconds after the epoch, in universal time. -/
def DateTime.ofEpochSeconds? (seconds : Int) : Option DateTime :=
  ofEpoch? seconds 0 Offset.zero

/-- The ticks in a second, as a double. -/
def ticksPerSecond : Floating .double := Floating.ofNat .double 10_000_000

/-- The instant nearest to so many seconds after the epoch, in whole ticks. -/
def DateTime.ofEpochDouble? (seconds : Floating .double) : Option DateTime :=
  let floor := seconds.floor
  let ticks := ((seconds.sub floor).mul ticksPerSecond).round
  floor.truncated?.bind fun whole =>
    if ticksPerSecond.le ticks then ofEpoch? (whole + 1) 0 Offset.zero
    else ticks.truncated?.bind fun n => ofEpoch? whole (n.toNat * tickNanos) Offset.zero

/-- Whole seconds and nanoseconds as a double, each rounded and then their sum. -/
def secondsDouble (whole nanos : Int) : Floating .double :=
  (Floating.ofInt .double whole).add
    ((Floating.ofInt .double nanos).div (Floating.ofNat .double 1_000_000_000))

end Calendar

namespace Value

/-! ## Numeric views -/

/-- The integer that a value stands for: a count of seconds for dates and durations, and a number
without its fraction. -/
def integer? : Value → Option Int
  | boolean b => some (if b then 1 else 0)
  | integer _ n => some n.val
  | size n => some n.bytes
  | float _ x => x.truncated?
  | dateTime t => some t.epochSeconds
  | date d => some (DateTime.midnight d).epochSeconds
  | duration d => some d.wholeSeconds
  | text _ | binary _ | time _ | address _ | ipv4 _ | ipv6 _ => none

/-- The double that a value stands for: seconds with a fraction for dates and durations. -/
def double? : Value → Option (Floating .double)
  | boolean b => some (Floating.ofNat .double (if b then 1 else 0))
  | integer _ n => some (Floating.ofInt .double n.val)
  | size n => some (Floating.ofNat .double n.bytes)
  | float .single x => some (x.convert .double)
  | float .double x => some x
  | dateTime t => some (secondsDouble t.epochSeconds t.nanos)
  | date d => some (secondsDouble (DateTime.midnight d).epochSeconds 0)
  | duration d => some (secondsDouble d.wholeSeconds d.subsecondNanos)
  | text _ | binary _ | time _ | address _ | ipv4 _ | ipv6 _ => none

/-! ## One kind at a time -/

/-- The value as a truth value: numbers are true unless they are zero. -/
def toBool? : Value → Option Bool
  | boolean b => some b
  | text s => parseBool? s.toList
  | float _ x => if x.isNaN then none else some !x.isZero
  | integer _ n => some (n.val != 0)
  | size n => some (n.bytes != 0)
  | _ => none

/-- The value as an integer of a type. -/
def toInteger? (t : IntegerType) : Value → Option (StoredInt t)
  | text s => StoredInt.parse? t s.toList
  | binary bytes => (Bytes.decode bytes t).bind (StoredInt.ofInt? t)
  | v => v.integer?.bind (StoredInt.ofInt? t)

/-- The value as a double. -/
def toDouble? : Value → Option (Floating .double)
  | text s => Floating.parse? .double s.toList
  | binary bytes => Floating.ofBytes? .double bytes
  | v => v.double?

/-- The value as a single; a finite number that overflows is none. -/
def toSingle? : Value → Option (Floating .single)
  | text s => Floating.parse? .single s.toList
  | binary bytes => Floating.ofBytes? .single bytes
  | float .single x => some x
  | v => v.double?.bind fun x =>
    let narrow := x.convert .single
    if narrow.isFinite || !x.isFinite then some narrow else none

/-- The value as a number of a format. -/
def toFloat? : (f : FloatFormat) → Value → Option (Floating f)
  | .single => toSingle?
  | .double => toDouble?

/-- The value as text: bytes are decoded as UTF-8, anything else is written. -/
def toString? : Value → Option String
  | binary bytes => String.fromUTF8? ⟨bytes.toArray⟩
  | v => some v.toText

/-- The value as bytes: a number as it is stored, an address in network order. -/
def toBytes? : Value → Option (List UInt8)
  | integer t n => some (Bytes.encode t.width n.val)
  | size n => some (Bytes.encode .w64 n.bytes)
  | float _ x => some x.toBytes
  | text s => parseBytes? s.toList
  | binary bytes => some bytes
  | address a => some a.octets
  | ipv4 a => some a.octets
  | ipv6 a => some a.octets
  | boolean _ | dateTime _ | date _ | time _ | duration _ => none

/-- The value as a date with a time: integers of the widest types and doubles are seconds since the
epoch, and a date is its midnight in universal time. -/
def toDateTime? (defaults : Defaults) : Value → Option DateTime
  | dateTime t => some t
  | date d => some (DateTime.midnight d)
  | text s => DateTime.parse? s.toList defaults
  | integer ⟨_, .w64⟩ n => DateTime.ofEpochSeconds? n.val
  | float .double x => DateTime.ofEpochDouble? x
  | _ => none

/-- The value as a date: a date with a time has its local one. -/
def toDate? (v : Value) : Option Date :=
  match v with
  | date d => some d
  | dateTime t => t.localDate?
  | text s => Date.parse? s.toList
  | v => (v.toDateTime? Defaults.standard).bind DateTime.localDate?

/-- The value as a time of day. -/
def toTime? : Value → Option TimeOfDay
  | time t => some t
  | dateTime t => some t.localTime
  | text s => TimeOfDay.parse? s.toList
  | _ => none

/-- The value as a duration. -/
def toDuration? : Value → Option Duration
  | duration d => some d
  | text s => Duration.parse? s.toList
  | _ => none

/-- The value as an address of either family. -/
def toAddress? : Value → Option Address
  | address a => some a
  | ipv4 a => some (.v4 a)
  | ipv6 a => some (.v6 a)
  | text s => Address.parse? s.toList
  | _ => none

/-- The value as an IPv4 address. -/
def toIPv4? : Value → Option IPv4
  | ipv4 a | address (.v4 a) => some a
  | text s => IPv4.parse? s.toList
  | _ => none

/-- The value as an IPv6 address. -/
def toIPv6? : Value → Option IPv6
  | ipv6 a | address (.v6 a) => some a
  | text s => IPv6.parse? s.toList
  | _ => none

/-- The value as a byte size: integers and seconds since the epoch, if they are not negative. -/
def toSize? (v : Value) : Option ByteSize :=
  match v with
  | size n => some n
  | text s => ByteSize.parse? s
  | integer .. | dateTime _ | date _ => v.integer?.bind ByteSize.ofInt?
  | _ => none

/-! ## Any kind -/

/-- The value as a value of a kind. -/
def coerce? (v : Value) (k : Kind) (defaults : Defaults) : Option Value :=
  match k with
  | .boolean => v.toBool?.map boolean
  | .integer t => (v.toInteger? t).map (integer t)
  | .float f => (v.toFloat? f).map (float f)
  | .text => v.toString?.map text
  | .binary => v.toBytes?.map binary
  | .dateTime => (v.toDateTime? defaults).map dateTime
  | .date => v.toDate?.map date
  | .time => v.toTime?.map time
  | .duration => v.toDuration?.map duration
  | .address => v.toAddress?.map address
  | .ipv4 => v.toIPv4?.map ipv4
  | .ipv6 => v.toIPv6?.map ipv6
  | .size => v.toSize?.map size

/-- The value as a date with a time to a local clock, from which texts are completed. -/
def toDateTimeBy? (clock : LocalClock) : Value → Option DateTime
  | text s => DateTime.parseBy? clock s.toList
  | v => v.toDateTime? Defaults.standard

/-- The value as a value of a kind to a local clock.  Only a date with a time asks the clock. -/
def coerceBy? (clock : LocalClock) (v : Value) (k : Kind) : Option Value :=
  match k with
  | .dateTime => (v.toDateTimeBy? clock).map dateTime
  | k => v.coerce? k Defaults.standard

/-! ## Lemmas -/

/-- A coerced value is of the kind asked for. -/
theorem kind_of_coerce? {v w : Value} {k : Kind} {defaults : Defaults}
    (h : v.coerce? k defaults = some w) : w.kind = k := by
  cases k <;> simp only [coerce?, Option.map_eq_some_iff] at h
  all_goals obtain ⟨x, -, rfl⟩ := h; rfl

theorem toDateTimeBy?_clock (v : Value) (defaults : Defaults) :
    v.toDateTimeBy? defaults.clock = v.toDateTime? defaults := by
  cases v with
  | integer t n =>
    obtain ⟨signed, width⟩ := t
    cases width <;> rfl
  | float f x => cases f <;> rfl
  | _ => rfl

/-- To a clock that shows one offset and one date, texts are completed from these. -/
theorem coerceBy?_clock (v : Value) (k : Kind) (defaults : Defaults) :
    v.coerceBy? defaults.clock k = v.coerce? k defaults := by
  cases k with
  | dateTime => exact congrArg (Option.map dateTime) (v.toDateTimeBy?_clock defaults)
  | _ => rfl

end Value

end MessageScript
