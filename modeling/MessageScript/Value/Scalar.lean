import MessageScript.Floating.Arithmetic
import MessageScript.Floating.Numeral
import MessageScript.Integer.Width
import MessageScript.Text.Hex

/-!
# Texts of plain scalars

How truth values, integers, floating-point numbers and bytes are written, and read.

* A truth value is read from the words `true t yes y +` and `false f no n -` in any case.
* An integer is digits, optionally signed.  It is evaluated in 128 bits, whatever its type.
* A floating-point number is a decimal numeral, or one of four words.  It is written as the shortest
  decimal that reads back, with an exponent from 10^15 on and below 10^-5.
* Bytes are pairs of hexadecimal digits behind `0x`, which may be missing when read.
-/

namespace MessageScript

open Text

/-! ## Truth values -/

/-- The words for true. -/
def trueWords : List String := ["true", "t", "yes", "y", "+"]

/-- The words for false. -/
def falseWords : List String := ["false", "f", "no", "n", "-"]

/-- The truth value that a word means. -/
def parseBool? (cs : List Char) : Option Bool :=
  let word := String.ofList (cs.map Char.toLower)
  if word ∈ trueWords then some true else if word ∈ falseWords then some false else none

/-- The text of a truth value. -/
def boolText (b : Bool) : String := if b then "True" else "False"

/-! ## Integers -/

/-- The least integer of 128 bits. -/
def wideMin : Int := -0x8000_0000_0000_0000_0000_0000_0000_0000

/-- The greatest integer of 128 bits. -/
def wideMax : Int := 0x7FFF_FFFF_FFFF_FFFF_FFFF_FFFF_FFFF_FFFF

/-- An integer with one more digit behind it, if 128 bits hold it. -/
def appendDigit? (negative : Bool) (n : Int) (c : Char) : Option Int :=
  let digit : Int := (c.toNat - '0'.toNat : Nat)
  let next := if negative then 10 * n - digit else 10 * n + digit
  if wideMin ≤ next ∧ next ≤ wideMax then some next else none

/-- The integer that an optional sign and digits denote, if 128 bits hold it. -/
def parseInt? (cs : List Char) : Option Int :=
  let (negative, run) := Floating.splitSign cs
  if run ≠ [] ∧ run.all Char.isDigit then run.foldlM (appendDigit? negative) 0 else none

/-- The integer of a type that a text denotes. -/
def StoredInt.parse? (t : IntegerType) (cs : List Char) : Option (StoredInt t) :=
  (parseInt? cs).bind (StoredInt.ofInt? t)

/-! ## Floating-point numbers -/

namespace Floating

variable {f : FloatFormat}

/-- The words for infinities and for what is no number. -/
def ofWord? (f : FloatFormat) (word : String) : Option (Floating f) :=
  if word = "NaN" then some (notANumber f)
  else if word = "Infinity" ∨ word = "+Infinity" then some (infinity f false)
  else if word = "-Infinity" then some (infinity f true)
  else none

/-- The number that a text denotes. -/
def parse? (f : FloatFormat) (cs : List Char) : Option (Floating f) :=
  match ofWord? f (String.ofList cs) with
  | some x => some x
  | none => ofNumeral? f cs

/-- Whether a number is written with an exponent. -/
def isWrittenScientific (x : Floating f) : Bool :=
  let magnitude := (x.convert .double).abs
  !x.isZero && ((ofDecimal .double false 1 15).le magnitude ||
    magnitude.lt (ofDecimal .double false 1 (-5)))

/-- The text of a number. -/
def text (x : Floating f) : List Char :=
  if x.isNaN then "NaN".toList
  else if x.isInfinite then x.signText ++ "Infinity".toList
  else if x.isWrittenScientific then x.scientific
  else x.positional

end Floating

/-! ## Bytes -/

/-- The text behind `0x` or `0X`, or all of it. -/
def withoutHexMark : List Char → List Char
  | '0' :: 'x' :: rest => rest
  | '0' :: 'X' :: rest => rest
  | cs => cs

/-- The bytes that a text denotes. -/
def parseBytes? (cs : List Char) : Option (List UInt8) := ofHexPairs? (withoutHexMark cs)

/-- The text of a sequence of bytes. -/
def bytesText (bs : List UInt8) : List Char := '0' :: 'x' :: upperHex bs

/-! ## Lemmas -/

@[simp] theorem parseBytes?_bytesText (bs : List UInt8) : parseBytes? (bytesText bs) = some bs := by
  simp [parseBytes?, bytesText, withoutHexMark]

end MessageScript
