/-!
# Binary floating-point numbers

The two binary formats of IEEE 754, by sign and magnitude pattern.  A magnitude pattern orders as
the magnitude it stands for; those above the pattern of infinity stand for no number.  A finite
pattern stands for `significand * 2 ^ exponent` (`parts`).

    ofBits (toBits x) = x                  (ofBits_toBits)
-/

namespace MessageScript

/-- The single and the double format. -/
inductive FloatFormat where
  | single
  | double
  deriving DecidableEq, Repr

namespace FloatFormat

/-- The bits of the stored fraction. -/
def fractionBits : FloatFormat → Nat
  | single => 23
  | double => 52

/-- The bit in front of the stored fraction, which is not stored itself. -/
def leadingBit : FloatFormat → Nat
  | single => 0x80_0000
  | double => 0x10_0000_0000_0000

/-- The bit of the sign, in front of the magnitude. -/
def signBit : FloatFormat → Nat
  | single => 0x8000_0000
  | double => 0x8000_0000_0000_0000

/-- The bytes of a pattern. -/
def bytes : FloatFormat → Nat
  | single => 4
  | double => 8

/-- The exponent of the least positive number. -/
def minExponent : FloatFormat → Int
  | single => -149
  | double => -1074

/-- The magnitude pattern of infinity: all bits of the exponent, none of the fraction. -/
def infinityPattern : FloatFormat → Nat
  | single => 0x7F80_0000
  | double => 0x7FF0_0000_0000_0000

/-! ## Lemmas -/

theorem leadingBit_eq (f : FloatFormat) : f.leadingBit = 1 <<< f.fractionBits := by
  cases f <;> rfl

theorem leadingBit_pos (f : FloatFormat) : 0 < f.leadingBit := by
  cases f <;> decide

theorem signBit_pos (f : FloatFormat) : 0 < f.signBit := by
  cases f <;> decide

theorem infinityPattern_lt (f : FloatFormat) : f.infinityPattern < f.signBit := by
  cases f <;> decide

end FloatFormat

/-- A number of a binary format, or an infinity, or not a number. -/
structure Floating (f : FloatFormat) where
  negative : Bool
  magnitude : Nat
  magnitude_lt : magnitude < f.signBit
  deriving DecidableEq, Repr

/-- What a magnitude pattern stands for. -/
inductive FloatParts where
  | notANumber
  | infinite
  | finite (significand : Nat) (exponent : Int)
  deriving DecidableEq, Repr

namespace Floating

variable {f : FloatFormat}

/-- The number with this sign and the low bits of this magnitude pattern. -/
def ofMagnitude (f : FloatFormat) (negative : Bool) (magnitude : Nat) : Floating f :=
  ⟨negative, magnitude % f.signBit, Nat.mod_lt _ f.signBit_pos⟩

/-- The pattern as one number, the sign bit in front. -/
def toBits (x : Floating f) : Nat :=
  (if x.negative then f.signBit else 0) + x.magnitude

/-- The number with this pattern. -/
def ofBits (f : FloatFormat) (bits : Nat) : Floating f :=
  ofMagnitude f (bits / f.signBit % 2 == 1) bits

/-- Zero of either sign. -/
def zero (f : FloatFormat) (negative : Bool) : Floating f :=
  ⟨negative, 0, f.signBit_pos⟩

/-- Infinity of either sign. -/
def infinity (f : FloatFormat) (negative : Bool) : Floating f :=
  ⟨negative, f.infinityPattern, f.infinityPattern_lt⟩

/-- Not a number, as an operation without a result gives it. -/
def notANumber (f : FloatFormat) : Floating f :=
  ofMagnitude f false (f.infinityPattern + f.leadingBit / 2)

/-- What the magnitude stands for. -/
def parts (x : Floating f) : FloatParts :=
  let stored := x.magnitude / f.leadingBit
  let fraction := x.magnitude % f.leadingBit
  if f.infinityPattern < x.magnitude then .notANumber
  else if x.magnitude = f.infinityPattern then .infinite
  else if stored = 0 then .finite fraction f.minExponent
  else .finite (f.leadingBit + fraction) (f.minExponent + (stored - 1 : Nat))

/-- Whether the pattern stands for no number. -/
def isNaN (x : Floating f) : Bool := decide (f.infinityPattern < x.magnitude)

/-- Whether the number is an infinity. -/
def isInfinite (x : Floating f) : Bool := x.magnitude == f.infinityPattern

/-- Whether the number is neither an infinity nor no number. -/
def isFinite (x : Floating f) : Bool := decide (x.magnitude < f.infinityPattern)

/-- Whether the number is zero of either sign. -/
def isZero (x : Floating f) : Bool := x.magnitude == 0

/-- The number with the other sign. -/
def negate (x : Floating f) : Floating f := { x with negative := !x.negative }

/-- The number without its sign. -/
def abs (x : Floating f) : Floating f := { x with negative := false }

/-- The place of a number in the order of the numbers; both zeros have one place. -/
def rank (x : Floating f) : Int := if x.negative then -(x.magnitude : Int) else x.magnitude

/-- Whether one number is at most another; nothing is comparable to what is no number. -/
def le (x y : Floating f) : Bool := !x.isNaN && !y.isNaN && decide (x.rank ≤ y.rank)

/-- Whether one number is less than another. -/
def lt (x y : Floating f) : Bool := !x.isNaN && !y.isNaN && decide (x.rank < y.rank)

/-! ## Lemmas -/

@[ext] theorem ext {x y : Floating f} (hn : x.negative = y.negative)
    (hm : x.magnitude = y.magnitude) : x = y := by
  cases x; cases y; simp_all

theorem toBits_lt (x : Floating f) : x.toBits < 2 * f.signBit := by
  have := x.magnitude_lt
  unfold toBits
  split <;> omega

@[simp] theorem ofBits_toBits (x : Floating f) : ofBits f x.toBits = x := by
  have hm := x.magnitude_lt
  have hpos := f.signBit_pos
  apply ext
  · unfold ofBits ofMagnitude toBits
    cases hn : x.negative with
    | false => simp [Nat.div_eq_of_lt hm]
    | true => simp [Nat.add_div_left, hpos, Nat.div_eq_of_lt hm]
  · unfold ofBits ofMagnitude toBits
    cases x.negative with
    | false => simp [Nat.mod_eq_of_lt hm]
    | true => simp [Nat.mod_eq_of_lt hm]

end Floating

end MessageScript
