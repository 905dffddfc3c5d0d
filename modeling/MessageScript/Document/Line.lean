import MessageScript.Text.Blank

/-!
# Lines

A text is cut into lines at every `\r\n`, `\r` and `\n`; what follows the last of them is a line only
if it is not empty.  Lines are counted from one.  A byte-order mark in front of the text may be left
out.  `ScanRules` says that, and which lines are comments.
-/

namespace MessageScript

/-- How a text is read as a document. -/
structure ScanRules where
  /-- The marks that start a comment. -/
  commentMarks : List String := ["#", "//"]
  /-- Whether a byte-order mark in front of the text is left out. -/
  dropsByteOrderMark : Bool := true
  /-- The name of the document, for errors. -/
  source : Option String := none
  deriving DecidableEq, Repr

namespace ScanRules

/-- The rules where nothing else is said. -/
def standard : ScanRules := {}

/-- Whether a line, behind its leading blanks, starts with a comment mark. -/
def isComment (rules : ScanRules) (text : String) : Bool :=
  rules.commentMarks.any fun mark =>
    !mark.toList.isEmpty && mark.toList.isPrefixOf (Text.trimStart text.toList)

end ScanRules

/-- A line with its number, without what ends it. -/
structure Line where
  number : Nat
  text : String
  deriving DecidableEq, Repr

namespace Line

/-- The byte-order mark. -/
def byteOrderMark : Char := '\ufeff'

/-- Whether a line holds only blanks. -/
def isBlank (l : Line) : Bool := l.text.toList.all Text.isBlank

/-- The text without one byte-order mark in front. -/
def withoutByteOrderMark : List Char → List Char
  | [] => []
  | c :: rest => if c = byteOrderMark then rest else c :: rest

/-- The texts of the lines. -/
def cut : List Char → List (List Char)
  | [] => []
  | '\r' :: '\n' :: rest => [] :: cut rest
  | c :: rest =>
    if c = '\r' ∨ c = '\n' then [] :: cut rest
    else match cut rest with
      | [] => [[c]]
      | first :: others => (c :: first) :: others

/-- Texts as lines, counted from `number` on. -/
def numberFrom (number : Nat) : List (List Char) → List Line
  | [] => []
  | text :: rest => ⟨number, String.ofList text⟩ :: numberFrom (number + 1) rest

/-- The lines of a text. -/
def scan (text : String) (rules : ScanRules) : List Line :=
  numberFrom 1
    (cut (if rules.dropsByteOrderMark then withoutByteOrderMark text.toList else text.toList))

end Line

end MessageScript
