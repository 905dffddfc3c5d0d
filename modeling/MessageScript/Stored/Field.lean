import MessageScript.Field.Tree
import MessageScript.Stored.Basic

/-!
# Stored fields and field trees

The JSON form of a field has its name, its payload as a member `value` or `fields`, and its tags if
it has any.  The form of a tree is the array of its fields.

The members of a field come in any order.  Name and tags are read where they stand; the payload is
kept and read when all members are there, so a fault in the tags comes before a fault in the
payload.  Of several payloads the first counts, and members with other names do not.  What is kept
may be nested at most so deep that no more than 127 arrays and objects are open at once.
-/

namespace MessageScript.Stored

/-! ## Writing -/

mutual

/-- The form of a field. -/
def ofField : Field → Json
  | ⟨name, payload, tags⟩ =>
    ofMembers ([("name", ofString name), ofPayload payload] ++
      (if tags.tags = [] then [] else [("tags", ofTags tags)]))

/-- The member that holds a payload. -/
def ofPayload : Payload → String × Json
  | .value v => ("value", ofValue v)
  | .tree t => ("fields", ofTree t)

/-- The form of a tree. -/
def ofTree : FieldTree → Json
  | ⟨entries, _⟩ => .array (ofFields entries)

/-- The forms of fields. -/
def ofFields : List Field → List Json
  | [] => []
  | f :: rest => ofField f :: ofFields rest

end

/-! ## Reading -/

/-- How many arrays and objects may be open at once. -/
def nestingLimit : Nat := 127

/-- The members of a field read so far.  A payload is there with what reading it gives. -/
structure FieldParts where
  name : Option String := none
  tags : Option TagSet := none
  payload : Option (Result Payload) := none

namespace FieldParts

/-- The parts with a name, if there was none. -/
def addName (parts : FieldParts) (value : Json) : Result FieldParts :=
  match parts.name with
  | some _ => .error .malformed
  | none => (readString value).map fun name => { parts with name := some name }

/-- The parts with tags, if there were none. -/
def addTags (parts : FieldParts) (value : Json) : Result FieldParts :=
  match parts.tags with
  | some _ => .error .malformed
  | none => (readTags value).map fun tags => { parts with tags := some tags }

/-- The parts with a payload, unless there was one. -/
def addPayload (parts : FieldParts) (payload : Result Payload) : FieldParts :=
  match parts.payload with
  | some _ => parts
  | none => { parts with payload := some payload }

/-- The field that all parts make up. -/
def toField (parts : FieldParts) : Result Field := do
  let name ← present parts.name
  let payload ← (present parts.payload).bind id
  let field ← accepted (Field.make name payload)
  return { field with tags := parts.tags.getD TagSet.empty }

end FieldParts

mutual

/-- The field of a form in which `levels` more arrays and objects may be open. -/
def readFieldAt (levels : Nat) : Json → Result Field
  | .object members => (readParts levels {} members).bind FieldParts.toField
  | _ => .error .malformed

/-- Reads members one after the other. -/
def readParts (levels : Nat) (parts : FieldParts) : List (Option String × Json) → Result FieldParts
  | [] => .ok parts
  | (none, _) :: _ => .error .malformed
  | (some name, value) :: rest =>
    if name = "name" then (parts.addName value).bind fun parts => readParts levels parts rest
    else if name = "tags" then (parts.addTags value).bind fun parts => readParts levels parts rest
    else if value.isKeepable levels then
      if name = "value" then
        readParts levels (parts.addPayload ((readValue true value).map Payload.value)) rest
      else if name = "fields" then
        readParts levels (parts.addPayload ((readFields (levels - 2) value).map
          fun fields => Payload.tree (FieldTree.ofList fields))) rest
      else readParts levels parts rest
    else .error .malformed

/-- The fields of an array, in each of which `levels` more arrays and objects may be open. -/
def readFields (levels : Nat) : Json → Result (List Field)
  | .array items => readItems levels items
  | _ => .error .malformed

/-- The fields of the items of an array. -/
def readItems (levels : Nat) : List Json → Result (List Field)
  | [] => .ok []
  | item :: rest => do
    let field ← readFieldAt levels item
    let fields ← readItems levels rest
    return field :: fields

end

/-- The field of a form. -/
def readField (j : Json) : Result Field := readFieldAt (nestingLimit - 1) j

/-- The tree of a form. -/
def readTree (j : Json) : Result FieldTree :=
  (readFields (nestingLimit - 2) j).map FieldTree.ofList

end MessageScript.Stored
