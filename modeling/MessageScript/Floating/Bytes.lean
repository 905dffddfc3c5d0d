import MessageScript.Floating.Basic
import MessageScript.Integer.Bytes

/-!
# Floating-point numbers as bytes

A floating-point number is stored as its pattern, most significant byte first, and read back only
from as many bytes.
-/

namespace MessageScript.Floating

variable {f : FloatFormat}

/-- The bytes of a number's pattern. -/
def toBytes (x : Floating f) : List UInt8 := Bytes.lowBytes f.bytes x.toBits

/-- The number whose pattern the bytes are. -/
def ofBytes? (f : FloatFormat) (bs : List UInt8) : Option (Floating f) :=
  if bs.length = f.bytes then some (ofBits f (Bytes.bigEndian bs)) else none

/-! ## Lemmas -/

@[simp] theorem length_toBytes (x : Floating f) : x.toBytes.length = f.bytes :=
  Bytes.length_lowBytes ..

end MessageScript.Floating
