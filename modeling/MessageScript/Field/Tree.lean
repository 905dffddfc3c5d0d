import MessageScript.Field.Basic

/-!
# Operations on field trees

Fields are found by position or by name; of several with one name, lookups give the first, the last
or all.  While the tree has its index, a name is looked up by its key; otherwise the fields are
searched for names that agree with the key.

Operations differ in what they do to the index.  Appending adds to it, building it first if need be;
inserting, removing and renaming build it anew; handing out a field for change (`editAt`,
`editFirst`) drops it.
-/

namespace MessageScript.FieldTree

/-- The tree without fields. -/
def empty : FieldTree := ⟨[], some NameIndex.empty⟩

/-- The number of fields, not counting those in nested trees. -/
def size (t : FieldTree) : Nat := t.entries.length

/-! ## The index -/

/-- The tree with its index built anew. -/
def reindexed (t : FieldTree) : FieldTree :=
  { t with index := some (NameIndex.ofNames (t.entries.map Field.name)) }

/-- The tree with an index, built if it has none. -/
def indexed (t : FieldTree) : FieldTree :=
  match t.index with
  | some _ => t
  | none => t.reindexed

/-- The positions of the fields whose names agree with a text, found by going through all. -/
def scan (name : String) (position : Nat) : List Field → List Nat
  | [] => []
  | f :: rest =>
    if Name.agree f.name name then position :: scan name (position + 1) rest
    else scan name (position + 1) rest

/-- The positions of the fields with a name, in order. -/
def positions (t : FieldTree) (name : String) : List Nat :=
  match t.index with
  | some index => index.positions (Name.key name)
  | none => scan (Name.key name) 0 t.entries

/-- The position of the first field with a name. -/
def firstPosition? (t : FieldTree) (name : String) : Option Nat := (t.positions name).head?

/-! ## Lookup -/

/-- The field at a position. -/
def get? (t : FieldTree) (i : Nat) : Option Field := t.entries[i]?

/-- The first field with a name. -/
def findFirst? (t : FieldTree) (name : String) : Option Field :=
  (t.firstPosition? name).bind t.get?

/-- The last field with a name. -/
def findLast? (t : FieldTree) (name : String) : Option Field :=
  (t.positions name).getLast?.bind t.get?

/-- The fields with a name, in order. -/
def findAll (t : FieldTree) (name : String) : List Field := (t.positions name).filterMap t.get?

/-- Whether there is a field with a name. -/
def contains (t : FieldTree) (name : String) : Bool := (t.firstPosition? name).isSome

/-! ## Change -/

/-- Appends a field. -/
def push (t : FieldTree) (f : Field) : FieldTree :=
  let t := t.indexed
  ⟨t.entries ++ [f], t.index.map (·.add f.name t.entries.length)⟩

/-- Appends fields in order. -/
def extend (t : FieldTree) (fields : List Field) : FieldTree := fields.foldl push t

/-- The tree of fields in order. -/
def ofList (fields : List Field) : FieldTree := empty.extend fields

/-- Makes a field and appends it. -/
def add (t : FieldTree) (name : String) (payload : Payload) : Edit FieldTree Unit :=
  match Field.make name payload with
  | .ok f => .done () (t.push f)
  | .error e => .refused e t

/-- Puts a field in front of the one at a position, or behind the last. -/
def insert (t : FieldTree) (i : Nat) (f : Field) : Edit FieldTree Unit :=
  if t.size < i then .refused (Error.indexOutOfBounds i t.size) t
  else .done () (reindexed { t with entries := t.entries.insertIdx i f })

/-- Takes out the field at a position. -/
def removeAt (t : FieldTree) (i : Nat) : Edit FieldTree Field :=
  match t.get? i with
  | none => .refused (Error.indexOutOfBounds i t.size) t
  | some f => .done f (reindexed { t with entries := t.entries.eraseIdx i })

/-- Takes out all fields whose names agree with a name, and answers how many. -/
def remove (t : FieldTree) (name : String) : Nat × FieldTree :=
  let kept := t.entries.filter fun f => !Name.agree f.name name
  let removed := t.size - kept.length
  if removed = 0 then (0, t) else (removed, reindexed { t with entries := kept })

/-- Gives the field at a position another name. -/
def rename (t : FieldTree) (i : Nat) (name : String) : Edit FieldTree Unit :=
  match t.get? i with
  | none => .refused (Error.indexOutOfBounds i t.size) t
  | some f =>
    let renamed := f.rename name
    match renamed.answer with
    | .ok _ => .done () (reindexed { t with entries := t.entries.set i renamed.after })
    | .error e => .refused e { t with entries := t.entries.set i renamed.after }

/-- Hands out the field at a position for change.  There is no telling what becomes of its name, so
the index is dropped; if there is no such field, it is built. -/
def editAt {α : Type} (t : FieldTree) (i : Nat) (change : Field → α × Field) :
    Option α × FieldTree :=
  let t := t.indexed
  match t.get? i with
  | none => (none, t)
  | some f => (some (change f).1, ⟨t.entries.set i (change f).2, none⟩)

/-- Hands out the first field with a name for change. -/
def editFirst {α : Type} (t : FieldTree) (name : String) (change : Field → α × Field) :
    Option α × FieldTree :=
  let t := t.indexed
  match t.firstPosition? name with
  | none => (none, t)
  | some i => t.editAt i change

/-! ## Lemmas -/

@[simp] theorem entries_reindexed (t : FieldTree) : t.reindexed.entries = t.entries := rfl

@[simp] theorem entries_indexed (t : FieldTree) : t.indexed.entries = t.entries := by
  unfold indexed
  split <;> rfl

@[simp] theorem entries_push (t : FieldTree) (f : Field) :
    (t.push f).entries = t.entries ++ [f] := by
  simp [push]

@[simp] theorem entries_extend (t : FieldTree) (fields : List Field) :
    (t.extend fields).entries = t.entries ++ fields := by
  unfold extend
  induction fields generalizing t with
  | nil => simp
  | cons f rest ih => simp [ih]

@[simp] theorem entries_ofList (fields : List Field) : (ofList fields).entries = fields := by
  simp [ofList, empty]

end MessageScript.FieldTree
