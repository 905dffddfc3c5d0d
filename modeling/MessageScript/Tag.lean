import MessageScript.Edit
import MessageScript.Name

/-!
# Tags

A tag is a named flag.  A tag set keeps tags in the order they came in, no two of them with names
that agree.  The mark `@` in front of a name is accepted and not kept.
-/

namespace MessageScript

/-- A named flag. -/
structure Tag where
  name : String
  state : Bool
  deriving DecidableEq, Repr

namespace Tag

/-- A tag's name without the mark, if it keeps the rules. -/
def bareName (name : String) : Except Error String := (Name.tag name).map Name.withoutTagMark

/-- The tag with a name and a state, if the name keeps the rules. -/
def make (name : String) (state : Bool) : Except Error Tag :=
  (bareName name).map fun bare => ⟨bare, state⟩

/-- The tag with another state. -/
def setState (t : Tag) (state : Bool) : Tag := { t with state := state }

/-- Gives a tag another name. -/
def rename (t : Tag) (name : String) : Edit Tag Unit :=
  match bareName name with
  | .ok bare => .done () { t with name := bare }
  | .error e => .refused e t

/-- A tag as `@name=state`. -/
def text (t : Tag) : String := "@" ++ t.name ++ "=" ++ toString t.state

/-- A tag with the names of its parts. -/
def inspect (t : Tag) : String :=
  "Tag \x7b name: " ++ Text.quoted t.name ++ ", state: " ++ toString t.state ++ " \x7d"

end Tag

/-- Tags in order, with names that do not agree. -/
structure TagSet where
  tags : List Tag
  deriving DecidableEq, Repr

namespace TagSet

/-- No tags. -/
def empty : TagSet := ⟨[]⟩

/-- Where the tag with a name stands; the name may have the mark. -/
def position? (s : TagSet) (name : String) : Option Nat :=
  s.tags.findIdx? fun t => Name.agree t.name (Name.withoutTagMark name)

/-- Appends a tag, unless there is one with its name. -/
def add (s : TagSet) (t : Tag) : Edit TagSet Unit :=
  match s.position? t.name with
  | some _ => .refused (Error.invalidName t.name .duplicateTag) s
  | none => .done () ⟨s.tags ++ [t]⟩

/-- The set of the given tags, unless two names agree; the later of the first two is in the error. -/
def ofList (tags : List Tag) : Except Error TagSet :=
  tags.foldlM (fun s t => (s.add t).answer.map fun _ => (s.add t).after) empty

/-- Gives the tag with a name a state; a tag that is not there is appended. -/
def set (s : TagSet) (name : String) (state : Bool) : Edit TagSet Unit :=
  match s.position? name with
  | some i => .done () ⟨s.tags.modify i (·.setState state)⟩
  | none =>
    match Tag.make name state with
    | .ok t => .done () ⟨s.tags ++ [t]⟩
    | .error e => .refused e s

/-- The tag with a name. -/
def get? (s : TagSet) (name : String) : Option Tag := (s.position? name).bind (s.tags[·]?)

/-- Whether there is a tag with a name. -/
def contains (s : TagSet) (name : String) : Bool := (s.position? name).isSome

/-- Whether the tag with a name is there and set. -/
def isSet (s : TagSet) (name : String) : Bool := ((s.get? name).map Tag.state).getD false

/-- Takes out the tag with a name. -/
def remove (s : TagSet) (name : String) : Option Tag × TagSet :=
  match s.position? name with
  | some i => (s.tags[i]?, ⟨s.tags.eraseIdx i⟩)
  | none => (none, s)

/-- Gives the tag with a name another one, in its place.  The new name may agree with the old one,
but not with that of another tag. -/
def rename (s : TagSet) (name newName : String) : Edit TagSet Unit :=
  match s.position? name with
  | none => .refused (Error.invalidName name .unknownTag) s
  | some i =>
    match Tag.bareName newName with
    | .error e => .refused e s
    | .ok bare =>
      match s.position? bare with
      | some j =>
        if j = i then .done () ⟨s.tags.modify i fun t => { t with name := bare }⟩
        else .refused (Error.invalidName bare .duplicateTag) s
      | none => .done () ⟨s.tags.modify i fun t => { t with name := bare }⟩

/-- A tag set with the names of its parts. -/
def inspect (s : TagSet) : String :=
  "TagCollection \x7b tags: [" ++ String.intercalate ", " (s.tags.map Tag.inspect) ++ "] \x7d"

end TagSet

end MessageScript
