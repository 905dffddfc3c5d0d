import MessageScript.Json.Number
import MessageScript.Text.Decimal

/-!
# JSON values

A JSON value, read or to be written.  A text may stop being JSON somewhere; what was read up to there
is kept, and `broken` stands for the rest, so that a fault in front of that place can be told from
the fault of the text.  A string or a member's name may be spelled with escapes that denote no text;
it is then there without one.

What is written is the compact form of `serde_json`: no blanks, the members in the order given, and
in strings only the quote, the backslash and the controls escaped, these by their letter (`\b`,
`\t`, `\n`, `\f`, `\r`) or as `\u` and four digits with small letters.
-/

namespace MessageScript

/-- A JSON value. -/
inductive Json where
  | null
  | bool (b : Bool)
  /-- A number as it is spelled. -/
  | number (spelling : List Char)
  | string (text : Option String)
  | array (items : List Json)
  | object (members : List (Option String × Json))
  /-- Where a text stops being JSON. -/
  | broken

namespace Json

/-! ## What can be done with a value -/

mutual

/-- Whether a value has no broken part. -/
def isWhole : Json → Bool
  | array items => allWhole items
  | object members => membersWhole members
  | broken => false
  | _ => true

/-- Whether no item has a broken part. -/
def allWhole : List Json → Bool
  | [] => true
  | item :: rest => item.isWhole && allWhole rest

/-- Whether no member has a broken part. -/
def membersWhole : List (Option String × Json) → Bool
  | [] => true
  | (_, value) :: rest => value.isWhole && membersWhole rest

end

mutual

/-- Whether a value can be kept: it has no broken part, its strings and names are texts, its numbers
are in range, and arrays and objects are nested at most `levels` deep. -/
def isKeepable (levels : Nat) : Json → Bool
  | null | bool _ => true
  | number spelling => numberInRange spelling
  | string text => text.isSome
  | array items =>
    match levels with
    | 0 => false
    | levels + 1 => itemsKeepable levels items
  | object members =>
    match levels with
    | 0 => false
    | levels + 1 => membersKeepable levels members
  | broken => false

/-- Whether all items can be kept. -/
def itemsKeepable (levels : Nat) : List Json → Bool
  | [] => true
  | item :: rest => item.isKeepable levels && itemsKeepable levels rest

/-- Whether all members can be kept. -/
def membersKeepable (levels : Nat) : List (Option String × Json) → Bool
  | [] => true
  | (name, value) :: rest => name.isSome && value.isKeepable levels && membersKeepable levels rest

end

/-! ## Writing -/

/-- The name of a control character behind a backslash, if it has one. -/
def controlName? (c : Char) : Option Char :=
  if c = '\x08' then some 'b'
  else if c = '\t' then some 't'
  else if c = '\n' then some 'n'
  else if c = '\x0c' then some 'f'
  else if c = '\r' then some 'r'
  else none

/-- A character of a string: the quote, the backslash and the controls are escaped. -/
def escaped (c : Char) : List Char :=
  if c = '"' ∨ c = '\\' then ['\\', c]
  else if c.toNat < 0x20 then
    match controlName? c with
    | some name => ['\\', name]
    | none => ['\\', 'u'] ++ Text.zeroFill 4 (Nat.toDigits 16 c.toNat)
  else [c]

/-- A string between quotes. -/
def stringText (s : String) : List Char := '"' :: s.toList.flatMap escaped ++ ['"']

mutual

/-- A value without blanks.  Strings that are no texts are written empty, and what is broken is
written as nothing. -/
def text : Json → List Char
  | null => "null".toList
  | bool b => (toString b).toList
  | number spelling => spelling
  | string s => stringText (s.getD "")
  | array items => '[' :: itemsText items ++ [']']
  | object members => '\x7b' :: membersText members ++ ['\x7d']
  | broken => []

/-- Items with commas between them. -/
def itemsText : List Json → List Char
  | [] => []
  | [item] => item.text
  | item :: rest => item.text ++ ',' :: itemsText rest

/-- Members with commas between them. -/
def membersText : List (Option String × Json) → List Char
  | [] => []
  | [(name, value)] => stringText (name.getD "") ++ ':' :: value.text
  | (name, value) :: rest =>
    stringText (name.getD "") ++ ':' :: value.text ++ ',' :: membersText rest

end

end Json

end MessageScript
