import MessageScript.Text.CodeRange

/-!
# Blanks

The Unicode property `White_Space`, and cutting blanks off the ends of a text.

    trim cs   has no blank at either end, and differs from cs only by blanks there
-/

namespace MessageScript.Text

/-- The code points with the property `White_Space`. -/
def blankRanges : CodeRanges :=
  [(0x9, 0xD), (0x20, 0x20), (0x85, 0x85), (0xA0, 0xA0), (0x1680, 0x1680), (0x2000, 0x200A),
   (0x2028, 0x2029), (0x202F, 0x202F), (0x205F, 0x205F), (0x3000, 0x3000)]

/-- Whether a character is a blank: a space of any width, a tab or an end of line. -/
def isBlank (c : Char) : Bool := blankRanges.contains c.toNat

/-- The text from its first character that is not a blank. -/
def trimStart (cs : List Char) : List Char := cs.dropWhile isBlank

/-- The text up to its last character that is not a blank. -/
def trimEnd (cs : List Char) : List Char := (cs.reverse.dropWhile isBlank).reverse

/-- The text without the blanks at its two ends. -/
def trim (cs : List Char) : List Char := trimEnd (trimStart cs)

/-! ## Lemmas -/

theorem blankRanges_ascending : blankRanges.Ascending := by
  simp [blankRanges, CodeRanges.Ascending]

end MessageScript.Text
