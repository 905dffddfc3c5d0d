import MessageScript.Field.Index
import MessageScript.Tag
import MessageScript.Value.Basic

/-!
# Fields and field trees

A field has a name, tags and a payload: a value, or a tree of fields.  A tree is a sequence of
fields; names may repeat.  Beside the sequence it keeps an index of the names, or none after a field
was handed out for change (`Field/Tree`).

Trees are the same (`same`) if their fields are; the index does not matter.
-/

namespace MessageScript

mutual

/-- A name, a payload and tags. -/
structure Field where
  name : String
  payload : Payload
  tags : TagSet

/-- What a field holds. -/
inductive Payload where
  | value (v : Value)
  | tree (t : FieldTree)

/-- Fields in order, with an index of their names. -/
structure FieldTree where
  entries : List Field
  index : Option NameIndex

end

/-! ## Equality up to the index -/

mutual

/-- Whether two fields have the same name, tags and payload. -/
def Field.same : Field → Field → Bool
  | ⟨name₁, payload₁, tags₁⟩, ⟨name₂, payload₂, tags₂⟩ =>
    name₁ == name₂ && payload₁.same payload₂ && tags₁ == tags₂

/-- Whether two payloads are the same value, or trees with the same fields. -/
def Payload.same : Payload → Payload → Bool
  | .value v₁, .value v₂ => v₁ == v₂
  | .tree t₁, .tree t₂ => t₁.same t₂
  | _, _ => false

/-- Whether two trees have the same fields. -/
def FieldTree.same : FieldTree → FieldTree → Bool
  | ⟨entries₁, _⟩, ⟨entries₂, _⟩ => sameFields entries₁ entries₂

/-- Whether two sequences hold the same fields. -/
def sameFields : List Field → List Field → Bool
  | [], [] => true
  | f₁ :: rest₁, f₂ :: rest₂ => f₁.same f₂ && sameFields rest₁ rest₂
  | _, _ => false

end

namespace Payload

/-- The value, if the payload is one. -/
def value? : Payload → Option Value
  | .value v => some v
  | .tree _ => none

/-- The tree, if the payload is one. -/
def tree? : Payload → Option FieldTree
  | .value _ => none
  | .tree t => some t

/-- Whether the payload is a value. -/
def isValue : Payload → Bool
  | .value _ => true
  | .tree _ => false

/-- The text of a value. -/
def text? (p : Payload) : Option String := p.value?.map Value.toText

end Payload

namespace Field

/-- The field with a name and a payload, if the name keeps the rules. -/
def make (name : String) (payload : Payload) : Except Error Field :=
  (Name.field name).map fun name => ⟨name, payload, TagSet.empty⟩

/-- The field with a name and a payload, and the header mark in front of its name. -/
def makeHeader (name : String) (payload : Payload) : Except Error Field :=
  make (Name.asHeader name) payload

/-- Whether the name has the header mark. -/
def isHeader (f : Field) : Bool := Name.isHeader f.name

/-- Gives a field another name. -/
def rename (f : Field) (name : String) : Edit Field Unit :=
  match Name.field name with
  | .ok name => .done () { f with name := name }
  | .error e => .refused e f

/-- Gives a field another payload, and answers the old one. -/
def setPayload (f : Field) (payload : Payload) : Payload × Field :=
  (f.payload, { f with payload := payload })

/-- The field with its name and its payload, or the size of its tree. -/
def text (f : Field) : String :=
  match f.payload with
  | .value v => f.name ++ " = " ++ v.toText
  | .tree t => f.name ++ " \x7b" ++ toString t.entries.length ++ " fields\x7d"

end Field

/-! ## Fields with the names of their parts -/

mutual

/-- A field with the names of its parts, on one line. -/
def Field.inspect : Field → String
  | ⟨name, payload, tags⟩ =>
    "Field \x7b name: " ++ Text.quoted name ++ ", value: " ++ payload.inspect ++ ", tags: " ++
      tags.inspect ++ " \x7d"

/-- A payload with its sort, on one line. -/
def Payload.inspect : Payload → String
  | .value v => "Value(" ++ v.inspect ++ ")"
  | .tree t => "Fields(" ++ t.inspect ++ ")"

/-- A tree as the list of its fields, on one line. -/
def FieldTree.inspect : FieldTree → String
  | ⟨entries, _⟩ => "[" ++ String.intercalate ", " (inspectFields entries) ++ "]"

/-- The fields of a sequence, each on one line. -/
def inspectFields : List Field → List String
  | [] => []
  | f :: rest => f.inspect :: inspectFields rest

end

end MessageScript
