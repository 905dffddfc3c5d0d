import MessageScript.Name

/-!
# Name index

Where the names of a sequence stand: for the key of each name, the positions that have it, in
ascending order.

    (ofNames names).positions k     the positions of the names with key k
-/

namespace MessageScript

/-- Positions filed under keys. -/
structure NameIndex where
  slots : List (String × List Nat)
  deriving DecidableEq, Repr

namespace NameIndex

/-- The index of no names. -/
def empty : NameIndex := ⟨[]⟩

/-- The slots with a position added behind the others of its key. -/
def addTo (key : String) (position : Nat) : List (String × List Nat) → List (String × List Nat)
  | [] => [(key, [position])]
  | (k, positions) :: rest =>
    if k = key then (k, positions ++ [position]) :: rest else (k, positions) :: addTo key position rest

/-- The positions filed under a key in slots. -/
def lookIn (key : String) : List (String × List Nat) → List Nat
  | [] => []
  | (k, positions) :: rest => if k = key then positions else lookIn key rest

/-- The index with one more name, at a position behind all others. -/
def add (ix : NameIndex) (name : String) (position : Nat) : NameIndex :=
  ⟨addTo (Name.key name) position ix.slots⟩

/-- The positions filed under a key. -/
def positions (ix : NameIndex) (key : String) : List Nat := lookIn key ix.slots

/-- The index with the names of a sequence that starts at a position. -/
def addAll (ix : NameIndex) (position : Nat) : List String → NameIndex
  | [] => ix
  | name :: rest => (ix.add name position).addAll (position + 1) rest

/-- The index of a sequence of names. -/
def ofNames (names : List String) : NameIndex := empty.addAll 0 names

/-! ## Lemmas -/

theorem lookIn_addTo (key k : String) (position : Nat) (slots : List (String × List Nat)) :
    lookIn k (addTo key position slots) =
      lookIn k slots ++ (if key = k then [position] else []) := by
  induction slots with
  | nil => by_cases h : key = k <;> simp [addTo, lookIn, h]
  | cons slot rest ih =>
    obtain ⟨k', positions⟩ := slot
    by_cases h : k' = key
    · subst h
      by_cases hk : k' = k <;> simp [addTo, lookIn, hk]
    · by_cases hk : k' = k
      · subst hk
        simp [addTo, lookIn, h, Ne.symm h]
      · simp [addTo, lookIn, h, hk, ih]

/-- A name is filed behind the others of its key, and nowhere else. -/
theorem positions_add (ix : NameIndex) (name : String) (position : Nat) (key : String) :
    (ix.add name position).positions key =
      ix.positions key ++ (if Name.key name = key then [position] else []) :=
  lookIn_addTo ..

end NameIndex

end MessageScript
