import MessageScript.Field.Tree
import MessageScript.Path

/-!
# Fields by path

A path leads from a tree to a field: at each of its names to the first field with that name, whose
payload, but for the last, is the tree to go on in.

Writing to a path replaces the payload of the field it leads to; fields that are missing on the way
are made, each with an empty tree, and so is the last.  Nothing is made before every name of the
path has been checked.
-/

namespace MessageScript.FieldTree

/-! ## Lookup -/

/-- The field that names lead to. -/
def follow? : List String → FieldTree → Option Field
  | [], _ => none
  | [leaf], t => t.findFirst? leaf
  | name :: rest, t => ((t.findFirst? name).bind fun f => f.payload.tree?).bind (follow? rest)

/-- The field that a path leads to. -/
def fieldAt? (t : FieldTree) (path : String) : Option Field := follow? (Path.segments path) t

/-- The payload that a path leads to. -/
def payloadAt? (t : FieldTree) (path : String) : Option Payload :=
  (t.fieldAt? path).map Field.payload

/-- The value that a path leads to. -/
def valueAt? (t : FieldTree) (path : String) : Option Value :=
  (t.payloadAt? path).bind Payload.value?

/-- The nested tree that a path leads to. -/
def treeAt? (t : FieldTree) (path : String) : Option FieldTree :=
  (t.payloadAt? path).bind Payload.tree?

/-- The text of the value that a path leads to. -/
def textAt? (t : FieldTree) (path : String) : Option String :=
  (t.valueAt? path).map Value.toText

/-! ## Writing -/

/-- The error that a name on the way of a path has a value. -/
def holdsValue (name path : String) : Error :=
  Error.invalidArgument
    ("path segment " ++ Text.quoted name ++ " of " ++ Text.quoted path ++ " holds a value")

/-- The tree with another payload in the field at a position; the names and so the index stay. -/
def withPayload (t : FieldTree) (i : Nat) (payload : Payload) : FieldTree :=
  { t with entries := t.entries.modify i fun f => { f with payload := payload } }

/-- Writes a payload where names lead; `path` is for the error. -/
def write (path : String) (payload : Payload) : List String → FieldTree → Edit FieldTree Unit
  | [], t => .refused (Error.invalidArgument "empty field path") t
  | [leaf], t =>
    match t.firstPosition? leaf with
    | some i => .done () (t.withPayload i payload)
    | none => t.add leaf payload
  | name :: rest, t =>
    match t.firstPosition? name with
    | some i =>
      match (t.get? i).map Field.payload with
      | some (.tree nested) =>
        (write path payload rest nested).inside fun nested => t.withPayload i (.tree nested)
      | _ => .refused (holdsValue name path) t
    | none =>
      let made := t.add name (.tree empty)
      match made.answer with
      | .error e => .refused e made.after
      | .ok _ =>
        (write path payload rest empty).inside fun nested =>
          made.after.withPayload t.size (.tree nested)

/-- The first fault among the names of a path. -/
def nameFault? : List String → Option Error
  | [] => none
  | name :: rest =>
    match Name.field name with
    | .error e => some e
    | .ok _ => nameFault? rest

/-- Writes a payload at a path. -/
def set (t : FieldTree) (path : String) (payload : Payload) : Edit FieldTree Unit :=
  match nameFault? (Path.segments path) with
  | some e => .refused e t
  | none => write path payload (Path.segments path) t

/-! ## Removal -/

/-- Takes out the field that names lead to. -/
def takeOut : List String → FieldTree → Option Field × FieldTree
  | [], t => (none, t)
  | [leaf], t =>
    match t.firstPosition? leaf with
    | none => (none, t)
    | some i => ((t.removeAt i).answer.toOption, (t.removeAt i).after)
  | name :: rest, t =>
    match t.firstPosition? name with
    | none => (none, t)
    | some i =>
      match (t.get? i).map Field.payload with
      | some (.tree nested) =>
        let taken := takeOut rest nested
        (taken.1, t.withPayload i (.tree taken.2))
      | _ => (none, t)

/-- Takes out the field that a path leads to. -/
def removePath (t : FieldTree) (path : String) : Option Field × FieldTree :=
  takeOut (Path.segments path) t

end MessageScript.FieldTree
