import MessageScript.Text.Printable

/-!
# Quoted text

A text as error messages show it: between double quotes, on one line, with every character visible.
The quote and the backslash get a backslash, the four common controls are written by name, and any
other character that is not printable, or that would join the one before it, is written as its code
point in braces, in hexadecimal.

    quoted "a\tb"  =  the text  "a\tb"  with its quotes and a written-out tab
-/

namespace MessageScript.Text

/-- The code point of a character in braces, behind a backslash and a `u`. -/
def codePointEscape (c : Char) : List Char :=
  ['\\', 'u', '\x7b'] ++ Nat.toDigits 16 c.toNat ++ ['\x7d']

/-- One character of a quoted text. -/
def quotedChar (c : Char) : List Char :=
  if c = '"' ∨ c = '\\' then ['\\', c]
  else if c = '\n' then ['\\', 'n']
  else if c = '\r' then ['\\', 'r']
  else if c = '\t' then ['\\', 't']
  else if c = '\x00' then ['\\', '0']
  else if isCombining c || !isPrintable c then codePointEscape c
  else [c]

/-- A text between double quotes. -/
def quoted (s : String) : String :=
  String.ofList ('"' :: s.toList.flatMap quotedChar ++ ['"'])

end MessageScript.Text
