import MessageScript.Floating.Arithmetic
import MessageScript.Size.DecimalPattern
import MessageScript.Size.Magnitude

/-!
# Byte counts in larger units

A count is written in a unit that is named (`inUnit`), or in the one that suits it (`scaled`): the
greatest unit that the count reaches, or the next if rounding to the asked number of significant
digits fills a whole one.  The quotient of count and unit is a double.
-/

namespace MessageScript.Size

/-- The number of significant digits where none is asked for. -/
def defaultPrecision : Nat := 3

/-- The count divided by the bytes in a unit. -/
def quotient (count factor : Nat) : Floating .double :=
  (Floating.ofNat .double count).div (Floating.ofNat .double factor)

/-! ## A named unit -/

/-- The count in a unit: after the pattern, or else as the shortest decimal. -/
def inUnit (count : Nat) (m : Magnitude) : Option String → Except Error String
  | none => .ok (String.ofList (quotient count m.factor).positional ++ m.suffix)
  | some pattern => do
    let p ← DecimalPattern.parse pattern
    return p.render (quotient count m.factor) ++ m.suffix

/-! ## The unit that suits -/

/-- How many of the bounds `bound`, `bound * 10`, … a number reaches, of at most `left`. -/
def boundsReached (x : Floating .double) : Nat → Floating .double → Nat
  | 0, _ => 0
  | left + 1, bound =>
    if bound.le x then boundsReached x left (bound.mul (Floating.ofNat .double 10)) + 1 else 0

/-- The digits in front of the point.  The 309th power of ten is infinite, so that no number but
infinity reaches as many bounds.  Infinity reaches all of them, and a count without a limit has no
end for it: what stands here for infinity is the limit and no count. -/
def wholeDigits (x : Floating .double) : Nat :=
  boundsReached x 309 (Floating.ofNat .double 10) + 1

/-- A number rounded to significant digits, through a quotient by a power of ten.  The exponent is
meant to be one of 32 bits, so precisions are to be below 2^31.  From 309 on the power may be so
small that the quotient is infinite, and the result too. -/
def roundSignificant (x : Floating .double) (precision : Nat) : Floating .double :=
  let place := Floating.tenPower .double ((wholeDigits x : Int) - precision)
  (x.div place).round.mul place

/-- A number with `precision` significant digits; where that leaves no place behind the point, as a
whole number. -/
def significant (x : Floating .double) (precision : Nat) : List Char :=
  let rounded := roundSignificant x precision
  rounded.withPlaces (precision - wholeDigits rounded)

/-- The greatest step whose unit the count reaches. -/
def reachedStep (count : Nat) (l : Ladder) : Nat :=
  ((List.range Ladder.lastStep).takeWhile fun step => l.factor (step + 1) ≤ count).length

/-- Whether the count, rounded in units of a step, fills a unit of the next. -/
def fillsNext (count precision : Nat) (l : Ladder) (step : Nat) : Bool :=
  (Floating.ofNat .double l.base).le (roundSignificant (quotient count (l.factor step)) precision)

/-- The step whose unit the count is written in: the first from `step` up whose rounded count does
not fill a unit of the next. -/
def settledStep (count precision : Nat) (l : Ladder) (step : Nat) : Nat :=
  if _h : step < Ladder.lastStep then
    if fillsNext count precision l step then settledStep count precision l (step + 1) else step
  else step
  termination_by Ladder.lastStep - step

/-- The count with `precision` significant digits, at least one, in the unit that suits it; counts
in bytes are exact. -/
def scaled (count precision : Nat) (l : Ladder) : String :=
  let precision := max precision 1
  let step := settledStep count precision l (reachedStep count l)
  if step = 0 then String.ofList (Text.digits count)
  else String.ofList (significant (quotient count (l.factor step)) precision) ++ l.suffix step

end MessageScript.Size
