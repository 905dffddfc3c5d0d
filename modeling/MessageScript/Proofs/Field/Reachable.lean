import MessageScript.Field.Path
import MessageScript.Proofs.Field.Level
import MessageScript.Stored.Field

/-!
# What callers can build

The tags, tag sets, fields and field trees that come about by the operations of the library, in any
order and number, whether they are done or refused: `Reachable`.

A tree starts empty, from fields collected, from a stored form, or as the tree in a field; from
there one operation after the other is performed on it (`FieldTree.Change`).  A field that is handed
out for change can become any field that callers can build, and what has been in its tree can be
built too.
-/

namespace MessageScript

/-! ## Tags -/

mutual

/-- The tags that callers can build. -/
inductive Tag.Reachable : Tag → Prop
  | make {name : String} {state : Bool} {tag : Tag} (h : Tag.make name state = .ok tag) :
      Tag.Reachable tag
  | setState {tag : Tag} (ht : Tag.Reachable tag) (state : Bool) :
      Tag.Reachable (tag.setState state)
  | rename {tag : Tag} (ht : Tag.Reachable tag) (name : String) :
      Tag.Reachable (tag.rename name).after
  | member {s : TagSet} {tag : Tag} (hs : TagSet.Reachable s) (h : tag ∈ s.tags) :
      Tag.Reachable tag
  | stored {j : Json} {tag : Tag} (h : Stored.readTag j = .ok tag) : Tag.Reachable tag

/-- The tag sets that callers can build. -/
inductive TagSet.Reachable : TagSet → Prop
  | empty : TagSet.Reachable .empty
  | ofList {tags : List Tag} {s : TagSet} (ht : ∀ tag ∈ tags, Tag.Reachable tag)
      (h : TagSet.ofList tags = .ok s) : TagSet.Reachable s
  | stored {j : Json} {s : TagSet} (h : Stored.readTags j = .ok s) : TagSet.Reachable s
  | add {s : TagSet} {tag : Tag} (hs : TagSet.Reachable s) (ht : Tag.Reachable tag) :
      TagSet.Reachable (s.add tag).after
  | set {s : TagSet} (hs : TagSet.Reachable s) (name : String) (state : Bool) :
      TagSet.Reachable (s.set name state).after
  | remove {s : TagSet} (hs : TagSet.Reachable s) (name : String) :
      TagSet.Reachable (s.remove name).2
  | rename {s : TagSet} (hs : TagSet.Reachable s) (name newName : String) :
      TagSet.Reachable (s.rename name newName).after

end

/-! ## Fields and trees -/

mutual

/-- The payloads that callers can build. -/
inductive Payload.Reachable : Payload → Prop
  | value (v : Value) : Payload.Reachable (.value v)
  | tree {t : FieldTree} (ht : FieldTree.Reachable t) : Payload.Reachable (.tree t)

/-- The fields that callers can build. -/
inductive Field.Reachable : Field → Prop
  | make {name : String} {p : Payload} {f : Field} (hp : Payload.Reachable p)
      (h : Field.make name p = .ok f) : Field.Reachable f
  | makeHeader {name : String} {p : Payload} {f : Field} (hp : Payload.Reachable p)
      (h : Field.makeHeader name p = .ok f) : Field.Reachable f
  | rename {f : Field} (hf : Field.Reachable f) (name : String) :
      Field.Reachable (f.rename name).after
  | setPayload {f : Field} {p : Payload} (hf : Field.Reachable f) (hp : Payload.Reachable p) :
      Field.Reachable (f.setPayload p).2
  | setTags {f : Field} {tags : TagSet} (hf : Field.Reachable f) (ht : TagSet.Reachable tags) :
      Field.Reachable { f with tags := tags }
  | member {t : FieldTree} {f : Field} (ht : FieldTree.Reachable t) (h : f ∈ t.entries) :
      Field.Reachable f
  | stored {j : Json} {f : Field} (h : Stored.readField j = .ok f) : Field.Reachable f

/-- The field trees that callers can build. -/
inductive FieldTree.Reachable : FieldTree → Prop
  | empty : FieldTree.Reachable .empty
  | ofList {fields : List Field} (hf : ∀ f ∈ fields, Field.Reachable f) :
      FieldTree.Reachable (.ofList fields)
  | stored {j : Json} {t : FieldTree} (h : Stored.readTree j = .ok t) : FieldTree.Reachable t
  | nested {f : Field} {t : FieldTree} (hf : Field.Reachable f) (h : f.payload = .tree t) :
      FieldTree.Reachable t
  | change {t t' : FieldTree} (ht : FieldTree.Reachable t) (h : FieldTree.Change t t') :
      FieldTree.Reachable t'

/-- One operation on a tree: the tree before it and the tree it leaves, done or refused. -/
inductive FieldTree.Change : FieldTree → FieldTree → Prop
  | push {t : FieldTree} {f : Field} (hf : Field.Reachable f) : FieldTree.Change t (t.push f)
  | add {t : FieldTree} {p : Payload} (name : String) (hp : Payload.Reachable p) :
      FieldTree.Change t (t.add name p).after
  | extend {t : FieldTree} {fields : List Field} (hf : ∀ f ∈ fields, Field.Reachable f) :
      FieldTree.Change t (t.extend fields)
  | insert {t : FieldTree} {f : Field} (i : Nat) (hf : Field.Reachable f) :
      FieldTree.Change t (t.insert i f).after
  | removeAt {t : FieldTree} (i : Nat) : FieldTree.Change t (t.removeAt i).after
  | remove {t : FieldTree} (name : String) : FieldTree.Change t (t.remove name).2
  | rename {t : FieldTree} (i : Nat) (name : String) :
      FieldTree.Change t (t.rename i name).after
  | set {t : FieldTree} {p : Payload} (path : String) (hp : Payload.Reachable p) :
      FieldTree.Change t (t.set path p).after
  | removePath {t : FieldTree} (path : String) : FieldTree.Change t (t.removePath path).2
  | editAt {α : Type} {t : FieldTree} {change : Field → α × Field} (i : Nat)
      (hc : ∀ f ∈ t.entries, Field.Reachable (change f).2) :
      FieldTree.Change t (t.editAt i change).2
  | editFirst {α : Type} {t : FieldTree} {change : Field → α × Field} (name : String)
      (hc : ∀ f ∈ t.entries, Field.Reachable (change f).2) :
      FieldTree.Change t (t.editFirst name change).2

end

/-- The levels of a tree that callers can build can be built too. -/
theorem FieldTree.Reachable.level {t s : FieldTree} (ht : t.Reachable) (h : t.Level s) :
    s.Reachable := by
  induction h with
  | here => exact ht
  | inside hf hn _ ih => exact ih (.nested (.member ht hf) hn)

end MessageScript
