import MessageScript.Floating.Arithmetic
import MessageScript.Floating.Numeral

/-!
# The range of JSON numbers

A number is measured by its leading digits, the most that fit into 64 bits, and the power of ten
behind them.  Each of the two is rounded to a double and so is their product; the number is in range
if no infinity comes of it.  Near the greatest double the answer hangs on the spelling: a zero at the
end of a fraction moves both factors, and their product with them.

This is how `serde_json` measures numbers without its feature `float_roundtrip`: as it documents,
the number is then not always the double nearest to the decimal.
-/

namespace MessageScript.Json

/-- The number that digits behind `n` make, as long as it fits into 64 bits, and the digits from the
first that does not fit. -/
def leadingDigits (n : Nat) : List Char → Nat × List Char
  | [] => (n, [])
  | c :: rest =>
    let next := Nat.ofDigitChars 10 [c] n
    if next < 0x1_0000_0000_0000_0000 then leadingDigits next rest else (n, c :: rest)

/-- The leading digits of a numeral as a number, and its exponent.  Whole digits that do not fit only
raise the exponent; the fraction ends at its first digit that does not fit. -/
def leading (x : Floating.Numeral) : Nat × Int :=
  let (n, uncounted) := leadingDigits 0 x.whole
  let (n, unread) := leadingDigits n x.fraction
  (n, x.exponent + uncounted.length - (x.fraction.length - unread.length : Nat))

/-- Whether a numeral is in range.  Zero is, whatever its exponent, and so is what a negative
exponent makes less. -/
def numeralInRange (x : Floating.Numeral) : Bool :=
  let (n, e) := leading x
  n == 0 || decide (e < 0) ||
    ((Floating.ofNat .double n).mul (Floating.ofDecimal .double false 1 e)).isFinite

/-- Whether a number is in range, by its spelling. -/
def numberInRange (spelling : List Char) : Bool := (Floating.numeral? spelling).any numeralInRange

end MessageScript.Json
