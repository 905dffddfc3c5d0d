/-!
# Decimal numerals

Numbers as decimal digits, and back.  Digits are the ten ASCII ones.

    ofDigits (digits n) = n                       (ofDigits_digits)
    ofDigits (cs ++ [c]) = 10 * ofDigits cs + …   the value of a numeral, digit by digit
-/

namespace MessageScript.Text

/-- The digits of a number, most significant first; zero is one digit. -/
def digits (n : Nat) : List Char := Nat.toDigits 10 n

/-- The number that a run of digits denotes; no digits denote zero. -/
def ofDigits (cs : List Char) : Nat := Nat.ofDigitChars 10 cs 0

/-- A one with so many zeros behind it. -/
def powerOfTen (zeros : Nat) : Nat := Nat.pow 10 zeros

/-- Zeros in front of a text, up to the given width. -/
def zeroFill (width : Nat) (cs : List Char) : List Char :=
  List.replicate (width - cs.length) '0' ++ cs

/-- A number in at least `width` digits. -/
def paddedDigits (width n : Nat) : List Char := zeroFill width (digits n)

/-- A number with a minus sign in front if it is negative. -/
def signedDigits : Int → List Char
  | .ofNat n => digits n
  | .negSucc n => '-' :: digits (n + 1)

/-- Zeros are cut off the end of a text as long as it has more than `keep` characters. -/
def trimZeros (keep : Nat) (cs : List Char) : List Char :=
  cs.take keep ++ ((cs.drop keep).reverse.dropWhile (· == '0')).reverse

/-! ## Lemmas -/

@[simp] theorem ofDigits_digits (n : Nat) : ofDigits (digits n) = n :=
  Nat.ofDigitChars_toDigits (by decide) (by decide)

/-- The digits of a number are digits. -/
theorem isDigit_of_mem_digits {n : Nat} {c : Char} (h : c ∈ digits n) : c.isDigit = true :=
  Nat.isDigit_of_mem_toDigits (by decide) (by decide) h

theorem digits_ne_nil (n : Nat) : digits n ≠ [] := Nat.toDigits_ne_nil

/-- Zeros in front do not change the value. -/
@[simp] theorem ofDigits_zeroFill (width : Nat) (cs : List Char) :
    ofDigits (zeroFill width cs) = ofDigits cs := by
  unfold zeroFill ofDigits
  generalize width - cs.length = k
  induction k with
  | zero => rfl
  | succ k ih => simpa [List.replicate_succ, Nat.ofDigitChars] using ih

end MessageScript.Text
