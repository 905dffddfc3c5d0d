import MessageScript.Address
import MessageScript.Calendar.DateTime
import MessageScript.Calendar.Duration
import MessageScript.Size.ByteSize
import MessageScript.Value.Kind
import MessageScript.Value.Scalar

/-!
# Values

A value is a scalar of one of the kinds.  Each has a text, which its kind's grammar reads.  Values
are equal if they are of one kind and hold the same: floating-point numbers the same pattern, dates
with a time the same instant and the same offset.

    Value.parse? k s d = some v  →  v.kind = k        (kind_of_parse?)
-/

namespace MessageScript

open Calendar

/-- A scalar. -/
inductive Value where
  | boolean (b : Bool)
  | integer (type : IntegerType) (n : StoredInt type)
  | float (format : FloatFormat) (x : Floating format)
  | text (s : String)
  | binary (bytes : List UInt8)
  | dateTime (t : DateTime)
  | date (d : Date)
  | time (t : TimeOfDay)
  | duration (d : Duration)
  | address (a : Address)
  | ipv4 (a : IPv4)
  | ipv6 (a : IPv6)
  | size (n : ByteSize)
  deriving DecidableEq, Repr

namespace Value

/-- The kind of a value. -/
def kind : Value → Kind
  | boolean _ => .boolean
  | integer t _ => .integer t
  | float f _ => .float f
  | text _ => .text
  | binary _ => .binary
  | dateTime _ => .dateTime
  | date _ => .date
  | time _ => .time
  | duration _ => .duration
  | address _ => .address
  | ipv4 _ => .ipv4
  | ipv6 _ => .ipv6
  | size _ => .size

/-! ## Reading -/

/-- The value of a kind that a text denotes. -/
def parse? (k : Kind) (s : String) (defaults : Defaults) : Option Value :=
  let cs := s.toList
  match k with
  | .boolean => (parseBool? cs).map boolean
  | .integer t => (StoredInt.parse? t cs).map (integer t)
  | .float f => (Floating.parse? f cs).map (float f)
  | .text => some (text s)
  | .binary => (parseBytes? cs).map binary
  | .dateTime => (DateTime.parse? cs defaults).map dateTime
  | .date => (Date.parse? cs).map date
  | .time => (TimeOfDay.parse? cs).map time
  | .duration => (Duration.parse? cs).map duration
  | .address => (Address.parse? cs).map address
  | .ipv4 => (IPv4.parse? cs).map ipv4
  | .ipv6 => (IPv6.parse? cs).map ipv6
  | .size => (ByteSize.parse? s).map size

/-- The value of a kind that a text denotes, or the error that it denotes none. -/
def parse (k : Kind) (s : String) (defaults : Defaults) : Except Error Value :=
  match parse? k s defaults with
  | some v => .ok v
  | none => .error (Error.format k.name s)

/-- The value of a kind that a text denotes to a local clock.  Only a date with a time of day is
completed from the clock. -/
def parseBy? (clock : LocalClock) (k : Kind) (s : String) : Option Value :=
  match k with
  | .dateTime => (DateTime.parseBy? clock s.toList).map dateTime
  | k => parse? k s Defaults.standard

/-! ## Writing -/

/-- The text of a value. -/
def toText : Value → String
  | boolean b => boolText b
  | integer _ n => String.ofList (Text.signedDigits n.val)
  | float _ x => String.ofList x.text
  | text s => s
  | binary bytes => String.ofList (bytesText bytes)
  | dateTime t => String.ofList t.text
  | date d => String.ofList d.text
  | time t => String.ofList t.text
  | duration d => String.ofList d.text
  | address a => String.ofList a.text
  | ipv4 a => String.ofList a.text
  | ipv6 a => String.ofList a.text
  | size n => n.toText

/-- A value with its kind, on one line. -/
def inspect (v : Value) : String :=
  match v with
  | text s => "Text(" ++ Text.quoted s ++ ")"
  | _ => v.kind.name ++ "(" ++ v.toText ++ ")"

/-- The characters of a text value. -/
def string? : Value → Option String
  | text s => some s
  | _ => none

/-- The bytes of a binary value. -/
def bytes? : Value → Option (List UInt8)
  | binary bytes => some bytes
  | _ => none

/-! ## Lemmas -/

/-- What is read as a kind is of that kind. -/
theorem kind_of_parse? {k : Kind} {s : String} {defaults : Defaults} {v : Value}
    (h : parse? k s defaults = some v) : v.kind = k := by
  cases k <;> simp only [parse?, Option.map_eq_some_iff, Option.some.injEq] at h
  case text => subst h; rfl
  all_goals obtain ⟨x, -, rfl⟩ := h; rfl

/-- To a clock that shows one offset and one date, texts are completed from these. -/
theorem parseBy?_clock (k : Kind) (s : String) (defaults : Defaults) :
    parseBy? defaults.clock k s = parse? k s defaults := by
  cases k <;> rfl

/-- The two ways of reading accept the same texts. -/
theorem parse_eq_ok_iff {k : Kind} {s : String} {defaults : Defaults} {v : Value} :
    parse k s defaults = .ok v ↔ parse? k s defaults = some v := by
  unfold parse
  cases parse? k s defaults with
  | none =>
    constructor
    · intro h
      cases h
    · intro h
      cases h
  | some w =>
    constructor
    · intro h
      cases h
      rfl
    · intro h
      cases h
      rfl

end Value

end MessageScript
