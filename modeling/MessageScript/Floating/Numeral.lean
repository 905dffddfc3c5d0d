import MessageScript.Floating.Rounding
import MessageScript.Text.Decimal

/-!
# Numerals of floating-point numbers

Three ways between numbers and decimal text.

* `ofNumeral?` reads a decimal numeral, with an optional point and exponent, and rounds it once.
* `withPlaces` writes a number rounded to a count of places, ties to even.
* `shortest` finds the shortest decimal that reads back as the number: on the first decimal grid,
  from one digit up, that has a point in the interval of values rounding to the number, the point
  nearest to it, of two the greater.  `positional` and `scientific` write that decimal.
-/

namespace MessageScript.Floating

variable {f : FloatFormat}

/-! ## Reading -/

/-- A decimal numeral: a sign, digits in front of the point and behind it, and an exponent. -/
structure Numeral where
  negative : Bool
  whole : List Char
  fraction : List Char
  exponent : Int
  deriving DecidableEq, Repr

namespace Numeral

/-- All digits as one number. -/
def coefficient (x : Numeral) : Nat := Text.ofDigits (x.whole ++ x.fraction)

/-- The exponent of the last digit: the numeral is `coefficient * 10 ^ lastExponent` with its sign. -/
def lastExponent (x : Numeral) : Int := x.exponent - x.fraction.length

end Numeral

/-- The sign in front of a text, if there is one, and the text behind it. -/
def splitSign : List Char → Bool × List Char
  | '-' :: rest => (true, rest)
  | '+' :: rest => (false, rest)
  | rest => (false, rest)

/-- The exponent that a text is: nothing, or a mark, an optional sign and digits. -/
def exponentOf? : List Char → Option Int
  | [] => some 0
  | mark :: rest =>
    let (negative, digits) := splitSign rest
    if (mark = 'e' ∨ mark = 'E') ∧ digits ≠ [] ∧ digits.all Char.isDigit then
      let n : Int := Text.ofDigits digits
      some (if negative then -n else n)
    else none

/-- The numeral that a text is: an optional sign, digits with at most one point among or around
them, and an optional exponent. -/
def numeral? (cs : List Char) : Option Numeral :=
  let (negative, rest) := splitSign cs
  let whole := rest.takeWhile Char.isDigit
  let rest := rest.dropWhile Char.isDigit
  let (fraction, rest) :=
    match rest with
    | '.' :: rest => (rest.takeWhile Char.isDigit, rest.dropWhile Char.isDigit)
    | rest => ([], rest)
  if whole = [] ∧ fraction = [] then none
  else (exponentOf? rest).map fun e => ⟨negative, whole, fraction, e⟩

/-- The number nearest to the numeral that a text is. -/
def ofNumeral? (f : FloatFormat) (cs : List Char) : Option (Floating f) :=
  (numeral? cs).map fun x => ofDecimal f x.negative x.coefficient x.lastExponent

/-! ## A fixed count of places -/

/-- A whole number of units of the last of `places` decimal places, as digits with a point. -/
def pointed (places units : Nat) : List Char :=
  let ds := Text.paddedDigits (places + 1) units
  let whole := ds.take (ds.length - places)
  if places = 0 then whole else whole ++ '.' :: ds.drop (ds.length - places)

/-- The sign of a number, as text. -/
def signText (x : Floating f) : List Char := if x.negative then ['-'] else []

/-- A number rounded to a count of decimal places, ties to even. -/
def withPlaces (places : Nat) (x : Floating f) : List Char :=
  match x.parts with
  | .notANumber => "NaN".toList
  | .infinite => x.signText ++ "inf".toList
  | .finite s e =>
    let (n, d) := ratio s e
    x.signText ++ pointed places (roundHalfEven (n * Text.powerOfTen places) d)

/-! ## The shortest decimal -/

/-- Whether `a.1 / a.2` is less than `b.1 / b.2`. -/
def ratioLt (a b : Nat × Nat) : Bool := decide (a.1 * b.2 < b.1 * a.2)

/-- The decimal `d * 10 ^ e`, as a quotient. -/
def decimalRatio (d : Nat) (e : Int) : Nat × Nat :=
  if 0 ≤ e then (d * Text.powerOfTen e.toNat, 1) else (d, Text.powerOfTen (-e).toNat)

/-- The exponent of the least power of ten above a positive quotient. -/
def decimalTop (num den : Nat) : Int :=
  if den ≤ num then ((Nat.toDigits 10 (num / den)).length : Int)
  else 1 - ((Nat.toDigits 10 ((den - 1) / num)).length : Int)

/-- Whether a decimal rounds to the number `s * 2 ^ e`: it lies between the halves of the gaps to
the neighbours, the ends included if `s` is even.  The gap below a power of two is half as wide. -/
def roundsTo (f : FloatFormat) (s : Nat) (e : Int) (decimal : Nat × Nat) : Bool :=
  let low := ratio (4 * s - (if s = f.leadingBit then 1 else 2)) (e - 2)
  let high := ratio (4 * s + 2) (e - 2)
  if s % 2 = 0 then !ratioLt decimal low && !ratioLt high decimal
  else ratioLt low decimal && ratioLt decimal high

/-- The point of the grid `10 ^ e₁₀` that lies nearest to `s * 2 ^ e` among those that round to it,
of two as near the greater one. -/
def gridPoint? (f : FloatFormat) (s : Nat) (e e₁₀ : Int) : Option Nat :=
  let (n, d) := ratio s e
  let (n, d) := if 0 ≤ e₁₀ then (n, d * Text.powerOfTen e₁₀.toNat)
    else (n * Text.powerOfTen (-e₁₀).toNat, d)
  let below := n / d
  let above := below + 1
  let fits (m : Nat) : Bool := roundsTo f s e (decimalRatio m e₁₀)
  if fits above && (decide (d ≤ 2 * (n % d)) || !fits below) then some above
  else if fits below then some below
  else none

/-- The shortest decimal `d * 10 ^ e₁₀` that rounds to `s * 2 ^ e`.  Seventeen digits are enough for
either format. -/
def shortest (f : FloatFormat) (s : Nat) (e : Int) : Nat × Int :=
  let (n, d) := ratio s e
  let top := decimalTop n d
  let grids := (List.range 17).map fun (k : Nat) => top - (k + 1 : Nat)
  (grids.findSome? fun e₁₀ => (gridPoint? f s e e₁₀).map (·, e₁₀)).getD (0, 0)

/-- The digits of a decimal without the zeros at the end, and the exponent of the last digit. -/
def significantDigits (d : Nat) (e : Int) : List Char × Int :=
  let ds := Text.digits d
  let kept := Text.trimZeros 1 ds
  (kept, e + (ds.length - kept.length : Nat))

/-- A decimal written with a point and without an exponent. -/
def positionalText (ds : List Char) (e : Int) : List Char :=
  let point : Int := ds.length + e
  if 0 ≤ e then ds ++ List.replicate e.toNat '0'
  else if 0 < point then ds.take point.toNat ++ '.' :: ds.drop point.toNat
  else '0' :: '.' :: List.replicate (-point).toNat '0' ++ ds

/-- A decimal written with one digit in front of the point and an exponent. -/
def scientificText (ds : List Char) (e : Int) : List Char :=
  let exponent : Int := ds.length + e - 1
  ds.take 1 ++ (if ds.length ≤ 1 then [] else '.' :: ds.drop 1) ++
    'e' :: Text.signedDigits exponent

/-- A number written with `write`; zeros, infinities and what is no number have fixed texts. -/
def shortestText (write : List Char → Int → List Char) (x : Floating f) : List Char :=
  match x.parts with
  | .notANumber => "NaN".toList
  | .infinite => x.signText ++ "inf".toList
  | .finite s e =>
    if s = 0 then x.signText ++ ['0']
    else
      let (d, e₁₀) := shortest f s e
      let (ds, last) := significantDigits d e₁₀
      x.signText ++ write ds last

/-- The shortest decimal that reads back as the number, without an exponent. -/
def positional (x : Floating f) : List Char := shortestText positionalText x

/-- The shortest decimal that reads back as the number, with an exponent. -/
def scientific (x : Floating f) : List Char := shortestText scientificText x

end MessageScript.Floating
