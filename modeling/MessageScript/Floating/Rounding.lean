import MessageScript.Floating.Basic
import MessageScript.Text.Decimal

/-!
# Rounding a quotient

An exact quotient of natural numbers is rounded to the nearest whole number, or to the nearest
number of a binary format; a tie goes to the even neighbour.  Every operation on floating-point
numbers is an exact quotient rounded once.

The magnitude pattern of a rounded number is `(e - minExponent) * leadingBit + m`, where `e`
is the exponent of its last place and `m` the rounded count of such units: one formula for numbers
with and without a leading bit, and a carry out of `m` moves into the exponent by itself.
-/

namespace MessageScript

/-- The whole number nearest to `num / den`, of two the even one. -/
def roundHalfEven (num den : Nat) : Nat :=
  let quotient := num / den
  let rest := num % den
  if 2 * rest < den then quotient
  else if den < 2 * rest then quotient + 1
  else quotient + quotient % 2

/-- The whole number nearest to `num / den`, of two the greater one. -/
def roundHalfUp (num den : Nat) : Nat :=
  if 2 * (num % den) < den then num / den else num / den + 1

/-- The quotient `num / den` divided by `2 ^ e`, as a quotient of natural numbers. -/
def divTwoPow (num den : Nat) (e : Int) : Nat × Nat :=
  if 0 ≤ e then (num, den <<< e.toNat) else (num <<< (-e).toNat, den)

/-- The exponent of the greatest power of two that is at most `num / den`, for positive numbers. -/
def floorLog2 (num den : Nat) : Int :=
  let k : Int := (num.log2 : Int) - den.log2
  let (n, d) := divTwoPow num den k
  if d ≤ n then k else k - 1

namespace Floating

variable {f : FloatFormat}

/-- The exponent of the last place of the numbers near `num / den`. -/
def lastPlace (f : FloatFormat) (num den : Nat) : Int :=
  max f.minExponent (floorLog2 num den - f.fractionBits)

/-- The number of the format nearest to `num / den` with the given sign, ties to even; a quotient
beyond the greatest number gives infinity. -/
def ofRatio (f : FloatFormat) (negative : Bool) (num den : Nat) : Floating f :=
  if num = 0 then zero f negative
  else
    let e := lastPlace f num den
    let (n, d) := divTwoPow num den e
    let pattern := (e - f.minExponent).toNat * f.leadingBit + roundHalfEven n d
    ⟨negative, min pattern f.infinityPattern,
      Nat.lt_of_le_of_lt (Nat.min_le_right ..) f.infinityPattern_lt⟩

/-- The number nearest to `m * 2 ^ e` with the given sign. -/
def ofScaled (f : FloatFormat) (negative : Bool) (m : Nat) (e : Int) : Floating f :=
  if 0 ≤ e then ofRatio f negative (m <<< e.toNat) 1 else ofRatio f negative m (1 <<< (-e).toNat)

/-- The number nearest to an integer. -/
def ofInt (f : FloatFormat) (n : Int) : Floating f := ofRatio f (decide (n < 0)) n.natAbs 1

/-- The number nearest to a natural number. -/
def ofNat (f : FloatFormat) (n : Nat) : Floating f := ofRatio f false n 1

/-- The number nearest to `d * 10 ^ e` with the given sign.  Exponents that put the number far
outside both formats are not raised to powers. -/
def ofDecimal (f : FloatFormat) (negative : Bool) (d : Nat) (e : Int) : Floating f :=
  let top : Int := (Nat.toDigits 10 d).length + e
  if d = 0 ∨ top < -400 then zero f negative
  else if 400 < top then infinity f negative
  else if 0 ≤ e then ofRatio f negative (d * Text.powerOfTen e.toNat) 1
  else ofRatio f negative d (Text.powerOfTen (-e).toNat)

/-- The exact magnitude of a finite number, as a quotient. -/
def ratio (significand : Nat) (exponent : Int) : Nat × Nat :=
  if 0 ≤ exponent then (significand <<< exponent.toNat, 1)
  else (significand, 1 <<< (-exponent).toNat)

/-! ## Lemmas -/

@[simp] theorem ofRatio_zero (f : FloatFormat) (negative : Bool) (den : Nat) :
    ofRatio f negative 0 den = zero f negative := by
  simp [ofRatio]

@[simp] theorem ofRatio_negative (f : FloatFormat) (negative : Bool) (num den : Nat) :
    (ofRatio f negative num den).negative = negative := by
  unfold ofRatio
  split <;> rfl

theorem isNaN_ofRatio (f : FloatFormat) (negative : Bool) (num den : Nat) :
    (ofRatio f negative num den).isNaN = false := by
  refine decide_eq_false (Nat.not_lt.2 ?_)
  unfold ofRatio
  split
  · exact Nat.zero_le _
  · exact Nat.min_le_right ..

end Floating

end MessageScript
