import MessageScript.Size.Scaled
import MessageScript.Text.Blank

/-!
# Byte sizes

A byte size is a count below 2^64.  Its text is a decimal numeral, optionally with a unit behind
it: `42K`, `1.5 Mi`.  The numeral times the bytes in the unit is rounded to the nearest count, ties
up; a quantity above zero is at least one byte.  Fraction digits past the eighteenth do not count.
-/

namespace MessageScript

/-- A byte count below 2^64. -/
structure ByteSize where
  bytes : Nat
  bytes_lt : bytes < 0x1_0000_0000_0000_0000
  deriving DecidableEq, Repr

namespace ByteSize

instance : Inhabited ByteSize := ⟨⟨0, by decide⟩⟩

/-- The size of a count, if it is in range. -/
def ofNat? (n : Nat) : Option ByteSize := if h : n < 0x1_0000_0000_0000_0000 then some ⟨n, h⟩ else none

/-- The size of an integer, if it is in range. -/
def ofInt? (n : Int) : Option ByteSize := if 0 ≤ n then ofNat? n.toNat else none

/-- The greater of two sizes. -/
def max (a b : ByteSize) : ByteSize := if a.bytes ≤ b.bytes then b else a

/-- The number of fraction digits that count. -/
def fractionDigits : Nat := 18

/-- Whether a character can stand in a numeral. -/
def isNumeralChar (c : Char) : Bool := c.isDigit || c == '.' || c == '+' || c == '-'

/-- The bytes in the unit that a mark names; no mark names the byte. -/
def unitFactor? (mark : List Char) : Option Nat :=
  if mark = [] then some 1 else (Magnitude.ofSuffix? mark).map (·.factor)

/-- The count nearest to the numeral `whole.fraction` times `factor`, ties up; at least one if the
numeral is not zero. -/
def scaledCount (whole fraction : List Char) (factor : Nat) : Nat :=
  let kept := fraction.take fractionDigits
  let count :=
    Text.ofDigits whole * factor + roundHalfUp (Text.ofDigits kept * factor) (Text.powerOfTen kept.length)
  if count = 0 ∧ (whole ++ fraction).any (· != '0') then 1 else count

/-- The size that a numeral in a unit denotes. -/
def ofNumeral? (numeral : List Char) (factor : Nat) : Option ByteSize :=
  let (negative, unsigned) := Floating.splitSign numeral
  let (whole, fraction) := DecimalPattern.splitPoint unsigned
  let fraction := fraction.getD []
  if whole ++ fraction = [] ∨ !(whole ++ fraction).all Char.isDigit then none
  else if negative ∧ (whole ++ fraction).any (· != '0') then none
  else ofNat? (scaledCount whole fraction factor)

/-- The size that a text denotes. -/
def parse? (text : String) : Option ByteSize :=
  let cs := Text.trim text.toList
  let numeral := cs.takeWhile isNumeralChar
  let mark := Text.trimStart (cs.dropWhile isNumeralChar)
  (unitFactor? mark).bind (ofNumeral? numeral)

/-- The size that a text denotes, or the error that it denotes none. -/
def parse (text : String) : Except Error ByteSize :=
  match parse? text with
  | some size => .ok size
  | none => .error (Error.format "Size" text)

/-- The count in bytes, in digits. -/
def toText (size : ByteSize) : String := String.ofList (Text.digits size.bytes)

/-- The size in a named unit. -/
def inUnit (size : ByteSize) (m : Magnitude) (pattern : Option String) : Except Error String :=
  Size.inUnit size.bytes m pattern

/-- The size in the unit that suits it. -/
def scaled (size : ByteSize) (precision : Nat) (l : Ladder) : String :=
  Size.scaled size.bytes precision l

/-! ## Lemmas -/

@[ext] theorem ext {a b : ByteSize} (h : a.bytes = b.bytes) : a = b := by
  cases a; cases b; cases h; rfl

theorem ofNat?_eq_some_iff {n : Nat} {size : ByteSize} : ofNat? n = some size ↔ size.bytes = n := by
  unfold ofNat?
  constructor
  · intro h
    split at h
    · cases h; rfl
    · simp at h
  · rintro rfl
    exact dif_pos size.bytes_lt

end ByteSize

end MessageScript
