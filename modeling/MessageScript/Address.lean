import MessageScript.Address.IPv6

/-!
# Addresses

An address of either family.
-/

namespace MessageScript

/-- An address of either family. -/
inductive Address where
  | v4 (address : IPv4)
  | v6 (address : IPv6)
  deriving DecidableEq, Repr

namespace Address

/-- The address that a text is; the IPv4 form is tried first, and if the front of the text has it
nothing may follow. -/
def parse? (cs : List Char) : Option Address :=
  match IPv4.read cs with
  | some (address, rest) => if rest = [] then some (v4 address) else none
  | none => (IPv6.parse? cs).map v6

/-- The text of an address. -/
def text : Address → List Char
  | v4 address => address.text
  | v6 address => address.text

/-- The octets of an address, in network order. -/
def octets : Address → List UInt8
  | v4 address => address.octets
  | v6 address => address.octets

end Address

end MessageScript
