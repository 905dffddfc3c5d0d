import MessageScript.Floating.Rounding

/-!
# Arithmetic on floating-point numbers

Sums, products and quotients are the exact results rounded once, ties to even.  Rounding to whole
numbers is exact: down (`floor`), to the nearest with ties away from zero (`round`), and toward
zero (`truncated?`).  Conversion between the formats rounds once.
-/

namespace MessageScript.Floating

variable {f : FloatFormat}

/-- The sum of two finite numbers; an exact zero is negative only if both are. -/
def addFinite (f : FloatFormat) (n₁ : Bool) (s₁ : Nat) (e₁ : Int) (n₂ : Bool) (s₂ : Nat)
    (e₂ : Int) : Floating f :=
  let e := min e₁ e₂
  let signed (negative : Bool) (s : Nat) (k : Int) : Int :=
    let m : Int := (s <<< (k - e).toNat : Nat)
    if negative then -m else m
  let total := signed n₁ s₁ e₁ + signed n₂ s₂ e₂
  if total = 0 then zero f (n₁ && n₂) else ofScaled f (decide (total < 0)) total.natAbs e

/-- The sum of two numbers. -/
def add (x y : Floating f) : Floating f :=
  match x.parts, y.parts with
  | .notANumber, _ | _, .notANumber => notANumber f
  | .infinite, .infinite => if x.negative == y.negative then x else notANumber f
  | .infinite, _ => x
  | _, .infinite => y
  | .finite s₁ e₁, .finite s₂ e₂ => addFinite f x.negative s₁ e₁ y.negative s₂ e₂

/-- The difference of two numbers. -/
def sub (x y : Floating f) : Floating f := add x y.negate

/-- The product of two numbers. -/
def mul (x y : Floating f) : Floating f :=
  let negative := x.negative != y.negative
  match x.parts, y.parts with
  | .notANumber, _ | _, .notANumber => notANumber f
  | .infinite, .infinite => infinity f negative
  | .infinite, .finite s _ => if s = 0 then notANumber f else infinity f negative
  | .finite s _, .infinite => if s = 0 then notANumber f else infinity f negative
  | .finite s₁ e₁, .finite s₂ e₂ => ofScaled f negative (s₁ * s₂) (e₁ + e₂)

/-- The quotient of two numbers. -/
def div (x y : Floating f) : Floating f :=
  let negative := x.negative != y.negative
  match x.parts, y.parts with
  | .notANumber, _ | _, .notANumber => notANumber f
  | .infinite, .infinite => notANumber f
  | .infinite, .finite .. => infinity f negative
  | .finite .., .infinite => zero f negative
  | .finite s₁ e₁, .finite s₂ e₂ =>
    if s₂ = 0 then (if s₁ = 0 then notANumber f else infinity f negative)
    else if e₂ ≤ e₁ then ofRatio f negative (s₁ <<< (e₁ - e₂).toNat) s₂
    else ofRatio f negative s₁ (s₂ <<< (e₂ - e₁).toNat)

/-- The number with its magnitude replaced by a whole number near it; infinities and what is no
number stay. -/
def toWhole (x : Floating f) (whole : Nat → Nat → Nat) : Floating f :=
  match x.parts with
  | .finite s e => let (n, d) := ratio s e; ofRatio f x.negative (whole n d) 1
  | _ => x

/-- The greatest whole number that is at most this one. -/
def floor (x : Floating f) : Floating f :=
  x.toWhole fun n d => if x.negative then (n + d - 1) / d else n / d

/-- The whole number nearest to this one, of two the one farther from zero. -/
def round (x : Floating f) : Floating f := x.toWhole roundHalfUp

/-- The integer part of a finite number. -/
def truncated? (x : Floating f) : Option Int :=
  match x.parts with
  | .finite s e =>
    let (n, d) := ratio s e
    some (if x.negative then -((n / d : Nat) : Int) else (n / d : Nat))
  | _ => none

/-- The number in another format.  What is no number keeps its sign and the front of its fraction,
and becomes quiet. -/
def convert (g : FloatFormat) (x : Floating f) : Floating g :=
  match x.parts with
  | .finite s e => ofScaled g x.negative s e
  | .infinite => infinity g x.negative
  | .notANumber =>
    let fraction := x.magnitude % f.leadingBit
    let moved := fraction * g.leadingBit / f.leadingBit
    ofMagnitude g x.negative (g.infinityPattern + (moved ||| g.leadingBit / 2))

/-! ## Powers of ten -/

/-- The power of a number by repeated squaring: the factors `base`, `base ^ 2`, `base ^ 4`, … that
the exponent's binary digits select, multiplied from the left and rounded at each step. -/
def squaringPower (product base : Floating f) (n : Nat) : Floating f :=
  let product := if n % 2 = 1 then product.mul base else product
  if _h : n / 2 = 0 then product else squaringPower product (base.mul base) (n / 2)
  termination_by n

/-- A power of ten, rounded at each step; a negative power is the reciprocal of the positive. -/
def tenPower (f : FloatFormat) (n : Int) : Floating f :=
  let power := squaringPower (ofNat f 1) (ofNat f 10) n.natAbs
  if n < 0 then (ofNat f 1).div power else power

end MessageScript.Floating
