import MessageScript.Text.Reading

/-!
# IPv4 addresses

Four octets, written in decimal with dots between them.  An octet is read without leading zeros.
-/

namespace MessageScript

/-- An IPv4 address. -/
structure IPv4 where
  octets : List UInt8
  length_eq : octets.length = 4
  deriving DecidableEq, Repr

namespace IPv4

open Text

/-- The address of four octets. -/
def ofOctets? (octets : List UInt8) : Option IPv4 :=
  if h : octets.length = 4 then some ⟨octets, h⟩ else none

/-- Reads an octet off the front of a text. -/
def readOctet (cs : List Char) : Option (UInt8 × List Char) := do
  let (run, rest) ← digitRun 3 cs
  if 255 < ofDigits run ∨ (1 < run.length ∧ run.head? = some '0') then none
  else return (UInt8.ofNat (ofDigits run), rest)

/-- Reads a dot and an octet off the front of a text. -/
def readDotOctet (cs : List Char) : Option (UInt8 × List Char) := (eat '.' cs).bind readOctet

/-- Reads an address off the front of a text. -/
def read (cs : List Char) : Option (IPv4 × List Char) := do
  let (a, cs) ← readOctet cs
  let (b, cs) ← readDotOctet cs
  let (c, cs) ← readDotOctet cs
  let (d, cs) ← readDotOctet cs
  return (⟨[a, b, c, d], rfl⟩, cs)

/-- The address that a text is. -/
def parse? (cs : List Char) : Option IPv4 :=
  match read cs with
  | some (address, []) => some address
  | _ => none

/-- The address in decimal. -/
def text (address : IPv4) : List Char :=
  List.intercalate ['.'] (address.octets.map fun octet => digits octet.toNat)

end IPv4

end MessageScript
