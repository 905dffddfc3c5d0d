import MessageScript.Error
import MessageScript.Floating.Basic
import MessageScript.Integer.Width

/-!
# Kinds of values

The twenty-one kinds of scalars and their names.  Names are read without regard to letter case.
-/

namespace MessageScript

/-- A kind of value. -/
inductive Kind where
  | boolean
  | integer (type : IntegerType)
  | float (format : FloatFormat)
  | text
  | binary
  | dateTime
  | date
  | time
  | duration
  | address
  | ipv4
  | ipv6
  | size
  deriving DecidableEq, Repr

namespace Kind

/-- The integer kinds of one signedness, from the narrowest. -/
def integers (signed : Bool) : List Kind := Width.all.map fun w => integer ⟨signed, w⟩

/-- All kinds, in their order. -/
def all : List Kind :=
  [boolean] ++ integers true ++ integers false ++
    [float .single, float .double, text, binary, dateTime, date, time, duration, address, ipv4, ipv6,
      size]

/-- The name of a kind. -/
def name : Kind → String
  | boolean => "Boolean"
  | integer t => (if t.signed then "Int" else "UInt") ++ toString t.width.bits
  | float .single => "Float32"
  | float .double => "Float64"
  | text => "Text"
  | binary => "Binary"
  | dateTime => "DateTime"
  | date => "Date"
  | time => "Time"
  | duration => "Duration"
  | address => "IPAddress"
  | ipv4 => "IPv4Address"
  | ipv6 => "IPv6Address"
  | size => "Size"

/-- The kind with exactly this name. -/
def ofName? (name : String) : Option Kind := all.find? fun k => k.name == name

/-- The kind with this name, in capital or small letters. -/
def parse (text : String) : Except Error Kind :=
  match all.find? fun k => k.name.toList.map Char.toLower == text.toList.map Char.toLower with
  | some k => .ok k
  | none => .error (Error.format "ValueKind" text)

/-- Whether the values are stored integers. -/
def isInteger : Kind → Bool
  | integer _ => true
  | _ => false

/-- Whether the values are stored integers with a sign. -/
def isSigned : Kind → Bool
  | integer t => t.signed
  | _ => false

/-- Whether the values are floating-point numbers. -/
def isFloat : Kind → Bool
  | float _ => true
  | _ => false

/-- Whether the values are dates, times or durations. -/
def isTemporal : Kind → Bool
  | dateTime | date | time | duration => true
  | _ => false

/-- Whether the values are addresses. -/
def isAddress : Kind → Bool
  | address | ipv4 | ipv6 => true
  | _ => false

/-- The width of the stored integers of a kind. -/
def width? : Kind → Option Width
  | integer t => some t.width
  | _ => none

/-! ## Lemmas -/

theorem mem_all (k : Kind) : k ∈ all := by
  rcases k with _ | ⟨⟨s, w⟩⟩ | f | _ | _ | _ | _ | _ | _ | _ | _ | _ | _
  case integer => cases s <;> cases w <;> decide
  case float => cases f <;> decide
  all_goals decide

end Kind

end MessageScript
