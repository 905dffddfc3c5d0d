import MessageScript.Error
import MessageScript.Floating.Numeral

/-!
# Decimal patterns

A pattern such as `0.0##` says how a number is written: in front of the point each `0` is a digit
that is always there, behind it each `0` is one and each `#` one that is left out if it would be a
zero at the end.  The number is rounded to as many places as the pattern has behind the point, ties
to even.
-/

namespace MessageScript

/-- How many digits a number is written with. -/
structure DecimalPattern where
  minWhole : Nat
  minFraction : Nat
  maxFraction : Nat
  deriving DecidableEq, Repr

namespace DecimalPattern

/-- The text in front of the first point, and the text behind it if there is a point. -/
def splitPoint (cs : List Char) : List Char × Option (List Char) :=
  match cs.dropWhile (· != '.') with
  | [] => (cs, none)
  | _ :: rest => (cs.takeWhile (· != '.'), some rest)

/-- The pattern that a text spells. -/
def ofText? (cs : List Char) : Option DecimalPattern :=
  let (whole, fraction) := splitPoint cs
  let fraction := fraction.getD []
  let zeros := fraction.takeWhile (· == '0')
  let hashes := (fraction.dropWhile (· == '0')).takeWhile (· == '#')
  if whole = [] ∨ !whole.all (fun c => c == '0' || c == '#') ∨ zeros ++ hashes ≠ fraction then none
  else some {
    minWhole := max (whole.count '0') 1
    minFraction := zeros.length
    maxFraction := zeros.length + hashes.length }

/-- The pattern that a text spells, or the error that it spells none. -/
def parse (text : String) : Except Error DecimalPattern :=
  match ofText? text.toList with
  | some p => .ok p
  | none => .error (Error.format "decimal pattern" text)

/-- A decimal text brought to the pattern: zeros in front of its digits, behind its sign, and no
more zeros at its end than the pattern asks for. -/
def shape (p : DecimalPattern) (cs : List Char) : List Char :=
  let (whole, fraction) := splitPoint cs
  let fraction := Text.trimZeros p.minFraction (fraction.getD [])
  let whole :=
    match whole with
    | '-' :: ds => '-' :: Text.zeroFill p.minWhole ds
    | ds => Text.zeroFill p.minWhole ds
  if fraction = [] then whole else whole ++ '.' :: fraction

/-- A number written after the pattern. -/
def render (p : DecimalPattern) (x : Floating .double) : String :=
  String.ofList (p.shape (x.withPlaces p.maxFraction))

end DecimalPattern

end MessageScript
