import MessageScript.Address.IPv4
import MessageScript.Text.Hex

/-!
# IPv6 addresses

Eight groups of 16 bits, written in hexadecimal with colons between them.  The longest run of two or
more zero groups, of equal ones the first, is written as `::`; an address that maps an IPv4 address
ends in that address.  Reading takes `::` anywhere once, for one zero group or more, and an IPv4
address for the last two groups.
-/

namespace MessageScript

/-- An IPv6 address. -/
structure IPv6 where
  groups : List UInt16
  length_eq : groups.length = 8
  deriving DecidableEq, Repr

namespace IPv6

open Text

/-- The group of two octets. -/
def groupOfOctets (high low : UInt8) : UInt16 := UInt16.ofNat (256 * high.toNat + low.toNat)

/-- The groups of pairs of octets. -/
def groupsOfOctets : List UInt8 → List UInt16
  | high :: low :: rest => groupOfOctets high low :: groupsOfOctets rest
  | _ => []

/-- The address of eight groups. -/
def ofGroups? (groups : List UInt16) : Option IPv6 :=
  if h : groups.length = 8 then some ⟨groups, h⟩ else none

/-- The address of sixteen octets. -/
def ofOctets? (octets : List UInt8) : Option IPv6 :=
  if octets.length = 16 then ofGroups? (groupsOfOctets octets) else none

/-- The octets of an address. -/
def octets (address : IPv6) : List UInt8 :=
  address.groups.flatMap fun g => [UInt8.ofNat (g.toNat / 256), UInt8.ofNat g.toNat]

/-! ## Reading -/

/-- Reads a group of one to four digits off the front of a text. -/
def readGroup (cs : List Char) : Option (UInt16 × List Char) :=
  let run := cs.takeWhile isHexDigit
  if run ≠ [] ∧ run.length ≤ 4 then
    some (UInt16.ofNat (ofHexDigits run), cs.dropWhile isHexDigit)
  else none

/-- Groups read from a text. -/
structure Groups where
  groups : List UInt16
  /-- Whether the last two groups were an IPv4 address. -/
  embedded : Bool
  rest : List Char

/-- Reads as many groups as there are, up to `most`; all but the first have a colon in front.  Where
two more groups fit, an IPv4 address is tried first, and it is the end. -/
def readGroups : Nat → Bool → List Char → Groups
  | 0, _, cs => ⟨[], false, cs⟩
  | left + 1, first, cs =>
    let inner := if first then some cs else eat ':' cs
    match if left = 0 then none else inner.bind IPv4.read with
    | some (address, rest) => ⟨groupsOfOctets address.octets, true, rest⟩
    | none =>
      match inner.bind readGroup with
      | none => ⟨[], false, cs⟩
      | some (group, rest) =>
        let more := readGroups left false rest
        ⟨group :: more.groups, more.embedded, more.rest⟩

/-- Reads an address off the front of a text. -/
def read (cs : List Char) : Option (IPv6 × List Char) :=
  let head := readGroups 8 true cs
  if head.groups.length = 8 then (ofGroups? head.groups).map (·, head.rest)
  else if head.embedded then none
  else do
    let rest ← (eat ':' head.rest).bind (eat ':')
    let tail := readGroups (7 - head.groups.length) true rest
    let zeros := List.replicate (8 - head.groups.length - tail.groups.length) 0
    return (← ofGroups? (head.groups ++ zeros ++ tail.groups), tail.rest)

/-- The address that a text is. -/
def parse? (cs : List Char) : Option IPv6 :=
  match read cs with
  | some (address, []) => some address
  | _ => none

/-! ## Writing -/

/-- The number of zero groups in front. -/
def leadingZeros (groups : List UInt16) : Nat := (groups.takeWhile (· == 0)).length

/-- Where the longest run of zero groups starts, of equal ones the first, and its length. -/
def longestZeros (groups : List UInt16) : Nat × Nat :=
  (List.range groups.length).foldl
    (fun best start =>
      let run := leadingZeros (groups.drop start)
      if best.2 < run then (start, run) else best)
    (0, 0)

/-- Groups in hexadecimal with colons between them. -/
def groupsText (groups : List UInt16) : List Char :=
  List.intercalate [':'] (groups.map fun g => Nat.toDigits 16 g.toNat)

/-- The IPv4 address that an address maps: five zero groups and one of ones stand in front of it. -/
def mapped? (address : IPv6) : Option IPv4 :=
  if address.groups.take 6 = [0, 0, 0, 0, 0, 0xFFFF] then
    IPv4.ofOctets? (address.octets.drop 12)
  else none

/-- The address in hexadecimal. -/
def text (address : IPv6) : List Char :=
  match address.mapped? with
  | some v4 => "::ffff:".toList ++ v4.text
  | none =>
    let (start, length) := longestZeros address.groups
    if length < 2 then groupsText address.groups
    else
      groupsText (address.groups.take start) ++ ':' :: ':' ::
        groupsText (address.groups.drop (start + length))

end IPv6

end MessageScript
