import MessageScript.Document.Line
import MessageScript.Name

/-!
# Sections

A document is a sequence of sections: a header `[Name]` on a line of its own, and the lines up to the
next header.  In front of the first header there are only blank lines and comments.  The first line
that breaks this is an error, and it names the line.
-/

namespace MessageScript

/-- A header and the lines below it. -/
structure Section where
  name : String
  headerLine : Nat
  lines : List Line
  deriving DecidableEq, Repr

/-- What is wrong with a line of a document. -/
inductive LineFault where
  | unterminatedHeader
  | invalidSectionName (cause : Cause)
  | contentBeforeHeader
  deriving DecidableEq, Repr

/-- The words for what is wrong with a line. -/
def LineFault.message : LineFault → String
  | .unterminatedHeader => "unterminated section header"
  | .invalidSectionName cause => "invalid section name: " ++ cause.message
  | .contentBeforeHeader => "content before the first section header"

namespace Line

/-- The error that a line has a fault: it tells the line and, if known, the document. -/
def fault (l : Line) (rules : ScanRules) (f : LineFault) : Error :=
  let place := Location.unknown.atPosition l.number 1
  let place := match rules.source with
    | some source => place.inSource source
    | none => place
  (Error.malformedDocument l.number f.message).located place

/-- The text in front of a closing bracket at the end. -/
def beforeBracket? (cs : List Char) : Option (List Char) :=
  match cs.reverse with
  | ']' :: rest => some rest.reverse
  | _ => none

/-- The name in a header; nothing for a line that does not start with a bracket. -/
def header? (l : Line) (rules : ScanRules) : Except Error (Option String) :=
  match Text.trim l.text.toList with
  | '[' :: rest =>
    match beforeBracket? rest with
    | none => .error (l.fault rules .unterminatedHeader)
    | some body =>
      match Name.identifier (String.ofList (Text.trim body)) with
      | .ok name => .ok (some name)
      | .error e => .error (l.fault rules (.invalidSectionName e.cause))
  | _ => .ok none

end Line

namespace Section

/-- The lines that are neither blank nor comments. -/
def contentLines (s : Section) (rules : ScanRules) : List Line :=
  s.lines.filter fun l => !l.isBlank && !rules.isComment l.text

/-- The sections after one more line; sections, and the lines in them, come last first. -/
def addLine (rules : ScanRules) (sections : List Section) (l : Line) :
    Except Error (List Section) :=
  match l.header? rules with
  | .error e => .error e
  | .ok (some name) => .ok (⟨name, l.number, []⟩ :: sections)
  | .ok none =>
    match sections with
    | s :: earlier => .ok ({ s with lines := l :: s.lines } :: earlier)
    | [] =>
      if l.isBlank || rules.isComment l.text then .ok []
      else .error (l.fault rules .contentBeforeHeader)

/-- The sections that lines make up, or the fault of the first line that breaks the rules. -/
def group (lines : List Line) (rules : ScanRules) : Except Error (List Section) :=
  (lines.foldlM (addLine rules) []).map fun sections =>
    (sections.map fun s => { s with lines := s.lines.reverse }).reverse

end Section

/-- A document: its sections in order. -/
structure Document where
  sections : List Section
  deriving DecidableEq, Repr

namespace Document

/-- The document that a text is. -/
def scan (text : String) (rules : ScanRules) : Except Error Document :=
  (Section.group (Line.scan text rules) rules).map Document.mk

/-- The first section with a name. -/
def section? (d : Document) (name : String) : Option Section :=
  d.sections.find? fun s => Name.agree s.name name

/-- The sections with a name. -/
def sectionsNamed (d : Document) (name : String) : List Section :=
  d.sections.filter fun s => Name.agree s.name name

end Document

end MessageScript
