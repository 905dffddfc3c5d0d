import MessageScript.Json.Reader
import MessageScript.Tag
import MessageScript.Value.Basic

/-!
# Stored kinds, values and tags

The JSON form of a kind is its name, of a byte size its count, of a value its kind and text, of a
tag its name and state.  A value or a tag may also be an array of the two.

Reading has two ways to fail.  A text is `malformed` if it is not JSON or not of the form; what it
says is `refused` if a name or a text in it breaks the rules of the library.  A text is read from
the front, and the first fault counts.
-/

namespace MessageScript

/-- Why a stored form is not read. -/
inductive StoredFault where
  | malformed
  | refused (e : Error)
  deriving DecidableEq, Repr

namespace Stored

/-- What is read from a stored form. -/
abbrev Result (α : Type) := Except StoredFault α

/-- What is there, or else the form is malformed. -/
def present {α : Type} : Option α → Result α
  | some a => .ok a
  | none => .error .malformed

/-- What the library accepts, or else what is read is refused. -/
def accepted {α : Type} : Except Error α → Result α
  | .ok a => .ok a
  | .error e => .error (.refused e)

/-- The text of a string. -/
def readString : Json → Result String
  | .string text => present text
  | _ => .error .malformed

/-- A truth value. -/
def readBool : Json → Result Bool
  | .bool b => .ok b
  | _ => .error .malformed

/-- A string. -/
def ofString (s : String) : Json := .string (some s)

/-- An object with its members in order. -/
def ofMembers (members : List (String × Json)) : Json :=
  .object (members.map fun (name, value) => (some name, value))

/-! ## Two members -/

/-- The only member with a name. -/
def onlyMember? (name : String) (members : List (Option String × Json)) : Option Json :=
  match members.filter fun member => member.1 == some name with
  | [member] => some member.2
  | _ => none

/-- The two parts of a form that has two: the members with these names, each once and in any order,
with any others beside them; or the two items of an array. -/
def parts? (first second : String) : Json → Option (Json × Json)
  | .array [a, b] => some (a, b)
  | .object members =>
    let isPart (name : Option String) : Bool := name == some first || name == some second
    if members.all fun member => member.1.isSome && (isPart member.1 || member.2.isWhole) then
      (onlyMember? first members).bind fun a => (onlyMember? second members).map (a, ·)
    else none
  | _ => none

/-! ## Kinds and sizes -/

/-- The kind of a form: its name, or an object with the name and nothing in it.  Nothing is null; in
a kept value it may be an empty object as well. -/
def readKind (kept : Bool) : Json → Result Kind
  | .string (some name) => present (Kind.ofName? name)
  | .object [(some name, .null)] => present (Kind.ofName? name)
  | .object [(some name, .object [])] =>
    if kept then present (Kind.ofName? name) else .error .malformed
  | _ => .error .malformed

/-- The form of a kind. -/
def ofKind (k : Kind) : Json := ofString k.name

/-- The size of a form. -/
def readSize : Json → Result ByteSize
  | .number spelling =>
    if spelling.all Char.isDigit then present (ByteSize.ofNat? (Text.ofDigits spelling))
    else .error .malformed
  | _ => .error .malformed

/-- The form of a size. -/
def ofSize (n : ByteSize) : Json := .number (Text.digits n.bytes)

/-! ## Values -/

/-- The value of a form; `kept` as for kinds.  A text without an offset or a date is completed from
the standard defaults, universal time on 2000-01-01.  They stand for the default configuration,
which completes from the offset and the date of the host. -/
def readValue (kept : Bool) (j : Json) : Result Value := do
  let (kind, text) ← present (parts? "kind" "text" j)
  let kind ← readKind kept kind
  let text ← readString text
  accepted (Value.parse kind text Calendar.Defaults.standard)

/-- The form of a value. -/
def ofValue (v : Value) : Json :=
  ofMembers [("kind", ofKind v.kind), ("text", ofString v.toText)]

/-! ## Tags -/

/-- The tag of a form. -/
def readTag (j : Json) : Result Tag := do
  let (name, state) ← present (parts? "name" "state" j)
  let name ← readString name
  let state ← readBool state
  accepted (Tag.make name state)

/-- The form of a tag. -/
def ofTag (t : Tag) : Json := ofMembers [("name", ofString t.name), ("state", .bool t.state)]

/-- The tag set of a form. -/
def readTags : Json → Result TagSet
  | .array items => do accepted (TagSet.ofList (← items.mapM readTag))
  | _ => .error .malformed

/-- The form of a tag set. -/
def ofTags (s : TagSet) : Json := .array (s.tags.map ofTag)

/-! ## Texts -/

/-- What a text holds: one form and nothing behind it. -/
def readText {α : Type} (read : Json → Result α) (text : String) : Result α := do
  let (j, complete) := Json.read text
  let a ← read j
  if complete then return a else .error .malformed

/-- The text of a form. -/
def writeText (j : Json) : String := String.ofList j.text

end Stored

end MessageScript
