import MessageScript.Field.Tree

/-!
# Endpoints, commands and messages

An endpoint is a named participant.  A command is a named action, a message goes from one endpoint
to another with a different name; both carry fields and tags.
-/

namespace MessageScript

/-- A participant that sends or receives messages. -/
structure Endpoint where
  name : String
  deriving DecidableEq, Repr

/-- The endpoint with a name, if the name keeps the rules. -/
def Endpoint.make (name : String) : Except Error Endpoint :=
  (Name.identifier name).map Endpoint.mk

/-- A named action with parameters. -/
structure Command where
  name : String
  fields : FieldTree
  tags : TagSet

/-- The command with a name, without fields and tags. -/
def Command.make (name : String) : Except Error Command :=
  (Name.identifier name).map fun name => ⟨name, FieldTree.empty, TagSet.empty⟩

/-- A named message from one endpoint to another. -/
structure Message where
  name : String
  source : Endpoint
  destination : Endpoint
  fields : FieldTree
  tags : TagSet

namespace Message

/-- The error that a route starts and ends at one endpoint, if it does. -/
def routeFault? (source destination : Endpoint) : Option Error :=
  if Name.agree source.name destination.name then
    some (Error.invalidName destination.name .sameEndpoint)
  else none

/-- The message with a name and a route, without fields and tags. -/
def make (name : String) (source destination : Endpoint) : Except Error Message :=
  match Name.identifier name, routeFault? source destination with
  | .error e, _ => .error e
  | .ok _, some e => .error e
  | .ok name, none => .ok ⟨name, source, destination, FieldTree.empty, TagSet.empty⟩

/-- Lets a message start at another endpoint. -/
def setSource (m : Message) (source : Endpoint) : Edit Message Unit :=
  match routeFault? source m.destination with
  | some e => .refused e m
  | none => .done () { m with source := source }

/-- Lets a message end at another endpoint. -/
def setDestination (m : Message) (destination : Endpoint) : Edit Message Unit :=
  match routeFault? m.source destination with
  | some e => .refused e m
  | none => .done () { m with destination := destination }

/-- A message as its name and its route. -/
def text (m : Message) : String := m.name ++ " " ++ m.source.name ++ " -> " ++ m.destination.name

/-- Whether two messages have the same name, route, fields and tags. -/
def same (m₁ m₂ : Message) : Bool :=
  m₁.name == m₂.name && m₁.source == m₂.source && m₁.destination == m₂.destination &&
    m₁.fields.same m₂.fields && m₁.tags == m₂.tags

end Message

end MessageScript
