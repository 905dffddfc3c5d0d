import MessageScript.Error
import MessageScript.Text.Alphabetic
import MessageScript.Text.Blank
import MessageScript.Text.WordCase

/-!
# Names

Fields, tags, sections and endpoints have names: a letter, then anything but blanks.  A field name
may have one header mark `.` in front and holds no path separator; a tag name may have one tag mark
`@` in front.  Names are compared without regard to letter case, in two ways:

    Name.agree a b      the characters' lowercase forms are the same, one by one
    Name.key a          the lowercase form of the whole name, under which an index files it
-/

namespace MessageScript.Name

/-- The mark in front of a header field's name. -/
def headerMark : Char := '.'

/-- The mark that may stand in front of a tag's name. -/
def tagMark : Char := '@'

/-- The characters that separate the names in a path. -/
def isSeparator (c : Char) : Bool := c == '/' || c == '\\'

/-- A name without the mark, if it has it in front; only one is taken off. -/
def withoutMark (mark : Char) : List Char → List Char
  | [] => []
  | c :: rest => if c = mark then rest else c :: rest

/-! ## Naming rules -/

/-- What is wrong with a name's body: a letter followed by anything but blanks. -/
def bodyFault? : List Char → Option NameFault
  | [] => some .empty
  | c :: rest =>
    if !Text.isAlphabetic c then some .noLeadingLetter
    else if (c :: rest).any Text.isBlank then some .blankInside
    else none

/-- What is wrong with a name that takes no mark. -/
def identifierFault? (name : String) : Option NameFault := bodyFault? name.toList

/-- What is wrong with a field's name. -/
def fieldFault? (name : String) : Option NameFault :=
  let body := withoutMark headerMark name.toList
  if body.isEmpty && !name.toList.isEmpty then some .headerMarkAlone
  else match bodyFault? body with
    | some fault => some fault
    | none => if body.any isSeparator then some .separatorInside else none

/-- What is wrong with a tag's name. -/
def tagFault? (name : String) : Option NameFault :=
  let body := withoutMark tagMark name.toList
  if body.isEmpty && !name.toList.isEmpty then some .tagMarkAlone else bodyFault? body

/-- The name if nothing is wrong with it; the error tells the whole name. -/
def checked (fault? : String → Option NameFault) (name : String) : Except Error String :=
  match fault? name with
  | some fault => .error (Error.invalidName name fault)
  | none => .ok name

/-- A name that takes no mark, if it keeps the rules. -/
def identifier (name : String) : Except Error String := checked identifierFault? name

/-- A field's name, if it keeps the rules. -/
def field (name : String) : Except Error String := checked fieldFault? name

/-- A tag's name, if it keeps the rules; the mark stays on. -/
def tag (name : String) : Except Error String := checked tagFault? name

/-- Whether a field's name has the header mark. -/
def isHeader (name : String) : Bool := name.toList.head? == some headerMark

/-- A field's name with the header mark, put in front if it is not there. -/
def asHeader (name : String) : String :=
  if isHeader name then name else String.ofList (headerMark :: name.toList)

/-- A tag's name without the tag mark. -/
def withoutTagMark (name : String) : String := String.ofList (withoutMark tagMark name.toList)

/-! ## Comparison -/

/-- Whether two names are the same up to the case of each character. -/
def agree (a b : String) : Bool := Text.sameLetters a.toList b.toList

/-- The lowercase form of a name. -/
def key (name : String) : String := String.ofList (Text.lowerText name.toList)

/-! ## Lemmas -/

theorem agree_iff {a b : String} :
    agree a b = true ↔ Text.lowerEach a.toList = Text.lowerEach b.toList :=
  Text.sameLetters_iff

@[simp] theorem agree_refl (a : String) : agree a a = true := agree_iff.2 rfl

theorem agree_comm (a b : String) : agree a b = agree b a := by
  rw [Bool.eq_iff_iff, agree_iff, agree_iff]
  exact eq_comm

theorem agree_trans {a b c : String} (hab : agree a b = true) (hbc : agree b c = true) :
    agree a c = true :=
  agree_iff.2 ((agree_iff.1 hab).trans (agree_iff.1 hbc))

theorem checked_eq_ok_iff {fault? : String → Option NameFault} {name out : String} :
    checked fault? name = .ok out ↔ fault? name = none ∧ out = name := by
  unfold checked
  cases h : fault? name with
  | none => simp [eq_comm]
  | some fault => simp

end MessageScript.Name
