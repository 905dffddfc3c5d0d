import MessageScript.Text.Quoted

/-!
# Errors

Why an operation was refused (`Cause`), where in a document that happened (`Location`), and the
two together (`Error`).  `Cause.message` and `Location.text` are the only places that word them.
-/

namespace MessageScript

/-- What is wrong with a name. -/
inductive NameFault where
  | empty
  | noLeadingLetter
  | blankInside
  | headerMarkAlone
  | tagMarkAlone
  | separatorInside
  | duplicateTag
  | unknownTag
  | sameEndpoint
  deriving DecidableEq, Repr

/-- The words for what is wrong with a name. -/
def NameFault.reason : NameFault → String
  | .empty => "name is empty"
  | .noLeadingLetter => "name must start with a letter"
  | .blankInside => "name contains whitespace"
  | .headerMarkAlone => "header name has no body"
  | .tagMarkAlone => "tag name has no body"
  | .separatorInside => "name contains a path separator"
  | .duplicateTag => "duplicate tag name"
  | .unknownTag => "no such tag"
  | .sameEndpoint => "source and destination must differ"

/-- Why an operation was refused. -/
inductive Cause where
  /-- A text is not in the grammar that `target` names, or denotes something out of range. -/
  | format (target input : String)
  /-- An argument does not fit the structure it is used on. -/
  | invalidArgument (message : String)
  /-- A name breaks the naming rules, or clashes with another. -/
  | invalidName (name reason : String)
  /-- A position lies past the end of a sequence. -/
  | indexOutOfBounds (index length : Nat)
  /-- A document is not laid out in sections; lines count from one. -/
  | malformedDocument (line : Nat) (message : String)
  deriving DecidableEq, Repr

namespace Cause

/-- The wording of a cause. -/
def message : Cause → String
  | .format target input => "cannot parse " ++ Text.quoted input ++ " as " ++ target
  | .invalidArgument message => "invalid argument: " ++ message
  | .invalidName name reason => "invalid name " ++ Text.quoted name ++ ": " ++ reason
  | .indexOutOfBounds index length =>
    "index out of bounds: " ++ toString index ++ " (length " ++ toString length ++ ")"
  | .malformedDocument line message =>
    "structure error at line " ++ toString line ++ ": " ++ message

/-- Whether the cause is a text outside a grammar. -/
def isFormat : Cause → Bool
  | .format .. => true
  | _ => false

/-- Whether the cause is a name. -/
def isInvalidName : Cause → Bool
  | .invalidName .. => true
  | _ => false

/-- Whether the cause is an argument. -/
def isInvalidArgument : Cause → Bool
  | .invalidArgument .. => true
  | _ => false

end Cause

/-- Where in a document an error arose: its name, the position, and what encloses it, outermost
first. -/
structure Location where
  source : Option String := none
  line : Option Nat := none
  column : Option Nat := none
  frames : List String := []
  deriving DecidableEq, Repr

namespace Location

/-- The place without anything said about it. -/
def unknown : Location := {}

/-- The place with the document's name. -/
def inSource (l : Location) (source : String) : Location := { l with source := some source }

/-- The place with a line and a column. -/
def atPosition (l : Location) (line column : Nat) : Location :=
  { l with line := some line, column := some column }

/-- The place with one more thing around it, inside those already named. -/
def within (l : Location) (frame : String) : Location := { l with frames := l.frames ++ [frame] }

/-- The document and the position; a position is shown only with its document. -/
def place (l : Location) : String :=
  match l.source, l.line, l.column with
  | some source, some line, some column =>
    "at " ++ source ++ ":" ++ toString line ++ ":" ++ toString column
  | some source, _, _ => "at " ++ source
  | none, _, _ => ""

/-- The wording of a place: the position, then a line for each thing around it. -/
def text (l : Location) : String :=
  l.place ++ (if l.frames.isEmpty then "" else "\n") ++
    String.join (l.frames.map fun frame => "  in " ++ frame ++ "\n")

end Location

/-- A refused operation: why, and where if that is known. -/
structure Error where
  cause : Cause
  location : Option Location := none
  deriving DecidableEq, Repr

namespace Error

/-- The wording of an error; the place is not part of it. -/
def message (e : Error) : String := e.cause.message

/-- The error with the place where it arose. -/
def located (e : Error) (l : Location) : Error := { e with location := some l }

/-- A text that the grammar `target` refuses. -/
def format (target input : String) : Error := { cause := .format target input }

/-- An argument that does not fit. -/
def invalidArgument (message : String) : Error := { cause := .invalidArgument message }

/-- A name with a fault. -/
def invalidName (name : String) (fault : NameFault) : Error :=
  { cause := .invalidName name fault.reason }

/-- A position past the end. -/
def indexOutOfBounds (index length : Nat) : Error := { cause := .indexOutOfBounds index length }

/-- A document with a fault in one of its lines. -/
def malformedDocument (line : Nat) (message : String) : Error :=
  { cause := .malformedDocument line message }

end Error

end MessageScript
