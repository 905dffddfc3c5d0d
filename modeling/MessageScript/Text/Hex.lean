/-!
# Hexadecimal digits

Bytes as pairs of digits, high half first, and back.  As `hex` documents for `decode` and
`encode_upper`, digits are read in either case, an odd number of them is refused, and capital
letters are written.

    ofHexPairs? (upperHex bs) = some bs        (ofHexPairs?_upperHex)
-/

namespace MessageScript.Text

/-- The value of a hexadecimal digit. -/
def hexValue? (c : Char) : Option Nat :=
  if c.isDigit then some (c.toNat - '0'.toNat)
  else if 'a' ≤ c ∧ c ≤ 'f' then some (c.toNat - 'a'.toNat + 10)
  else if 'A' ≤ c ∧ c ≤ 'F' then some (c.toNat - 'A'.toNat + 10)
  else none

/-- Whether a character is a hexadecimal digit. -/
def isHexDigit (c : Char) : Bool := (hexValue? c).isSome

/-- The number that a run of hexadecimal digits denotes; other characters count as zero. -/
def ofHexDigits (cs : List Char) : Nat := cs.foldl (fun n c => 16 * n + (hexValue? c).getD 0) 0

/-- The bytes that pairs of digits denote. -/
def ofHexPairs? : List Char → Option (List UInt8)
  | [] => some []
  | [_] => none
  | a :: b :: rest => do
    let high ← hexValue? a
    let low ← hexValue? b
    let bytes ← ofHexPairs? rest
    return UInt8.ofNat (16 * high + low) :: bytes

/-- The digit of a value below 16, as a capital letter from ten on. -/
def upperHexDigit (n : Nat) : Char := (Nat.digitChar n).toUpper

/-- The two digits of a byte. -/
def upperHexPair (b : UInt8) : List Char := [upperHexDigit (b.toNat / 16), upperHexDigit (b.toNat % 16)]

/-- Bytes as pairs of digits. -/
def upperHex (bs : List UInt8) : List Char := bs.flatMap upperHexPair

/-! ## Lemmas -/

theorem hexValue?_upperHexDigit : ∀ {n : Nat}, n < 16 → hexValue? (upperHexDigit n) = some n := by
  decide

@[simp] theorem ofHexPairs?_upperHex (bs : List UInt8) : ofHexPairs? (upperHex bs) = some bs := by
  induction bs with
  | nil => rfl
  | cons b rest ih =>
    have hb : b.toNat < 256 := b.toNat_lt
    have hpair : upperHex (b :: rest) =
        upperHexDigit (b.toNat / 16) :: upperHexDigit (b.toNat % 16) :: upperHex rest := rfl
    rw [hpair, ofHexPairs?, hexValue?_upperHexDigit (by omega), hexValue?_upperHexDigit (by omega),
      ih]
    have hhalves : 16 * (b.toNat / 16) + b.toNat % 16 = b.toNat := by omega
    show some (UInt8.ofNat (16 * (b.toNat / 16) + b.toNat % 16) :: rest) = some (b :: rest)
    rw [hhalves, UInt8.ofNat_toNat]

end MessageScript.Text
