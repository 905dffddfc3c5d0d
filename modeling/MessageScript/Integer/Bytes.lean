import MessageScript.Integer.Width

/-!
# Integers as bytes

Integers are stored most significant byte first, signed ones in two's complement.  Reading takes a
sequence of any length for any width: a shorter one is extended, by its sign or by zeros, and a
longer one is accepted if the bytes in front of the low `width` bytes are such an extension.

    bigEndian bs                 the number a sequence denotes
    decodeUnsigned bs w          that number, if the surplus bytes are zero
    decodeSigned bs w            the two's complement number, if the surplus bytes repeat the sign
    encode w n                   the low bytes of n
-/

namespace MessageScript.Bytes

/-- The number that a sequence of bytes denotes, most significant byte first. -/
def bigEndian (bs : List UInt8) : Nat := bs.foldl (fun n b => 256 * n + b.toNat) 0

/-- The number that a sequence of bytes denotes in two's complement, most significant byte first. -/
def twosComplement (bs : List UInt8) : Int :=
  match bs with
  | [] => 0
  | first :: _ =>
    if first < 0x80 then bigEndian bs else (bigEndian bs : Int) - (Nat.pow 256 bs.length : Nat)

/-- The bytes in front of the low `width` bytes. -/
def surplus (bs : List UInt8) (w : Width) : List UInt8 := bs.take (bs.length - w.bytes)

/-- The low `width` bytes, or all of a shorter sequence. -/
def low (bs : List UInt8) (w : Width) : List UInt8 := bs.drop (bs.length - w.bytes)

/-- The byte that extends a sequence with this first byte without changing its signed value. -/
def signFill (first : UInt8) : UInt8 := if first < 0x80 then 0x00 else 0xFF

/-- The unsigned integer of the width that a nonempty sequence denotes. -/
def decodeUnsigned (bs : List UInt8) (w : Width) : Option Int :=
  if bs.isEmpty || (surplus bs w).any (· != 0) then none else some (bigEndian (low bs w))

/-- The signed integer of the width that a nonempty sequence denotes. -/
def decodeSigned (bs : List UInt8) (w : Width) : Option Int :=
  match low bs w with
  | [] => none
  | first :: _ =>
    if (surplus bs w).any (· != signFill first) then none else some (twosComplement (low bs w))

/-- The integer of a type that a nonempty sequence denotes. -/
def decode (bs : List UInt8) (t : IntegerType) : Option Int :=
  if t.signed then decodeSigned bs t.width else decodeUnsigned bs t.width

/-- The low `count` bytes of a number, most significant first. -/
def lowBytes : Nat → Nat → List UInt8
  | 0, _ => []
  | count + 1, n => lowBytes count (n / 256) ++ [UInt8.ofNat n]

/-- An integer in the bytes of a width; what does not fit is cut off on the left. -/
def encode (w : Width) (n : Int) : List UInt8 := lowBytes w.bytes (n % w.patterns).toNat

/-! ## Lemmas -/

theorem surplus_append_low (bs : List UInt8) (w : Width) : surplus bs w ++ low bs w = bs :=
  List.take_append_drop ..

@[simp] theorem length_lowBytes (count n : Nat) : (lowBytes count n).length = count := by
  induction count generalizing n with
  | zero => rfl
  | succ count ih => simp [lowBytes, ih]

/-- An encoding has the bytes of its width. -/
@[simp] theorem length_encode (w : Width) (n : Int) : (encode w n).length = w.bytes :=
  length_lowBytes ..

end MessageScript.Bytes
