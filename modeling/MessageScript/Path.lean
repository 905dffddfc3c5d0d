import MessageScript.Name

/-!
# Paths

A path names a field in a tree: the field names from the root, separated by slashes or backslashes.
Separators at the ends are ignored, empty names between separators are kept, and the empty path has
one empty name.  Paths are written with slashes.

    segments "/a\\b//c/"  =  ["a", "b", "", "c"]
-/

namespace MessageScript.Path

/-- Cuts a text at every character that satisfies `p`; the result has one more part than cuts. -/
def cutAt (p : Char → Bool) : List Char → List (List Char)
  | [] => [[]]
  | c :: rest =>
    if p c then [] :: cutAt p rest
    else match cutAt p rest with
      | [] => [[c]]
      | part :: parts => (c :: part) :: parts

/-- The text without the characters at its two ends that satisfy `p`. -/
def stripEnds (p : Char → Bool) (cs : List Char) : List Char :=
  ((cs.dropWhile p).reverse.dropWhile p).reverse

/-- The names in a path, from the root. -/
def segments (path : String) : List String :=
  (cutAt Name.isSeparator (stripEnds Name.isSeparator path.toList)).map String.ofList

/-- One name behind a path. -/
def append (path name : String) : String := path ++ "/" ++ name

/-! ## Lemmas -/

theorem cutAt_ne_nil (p : Char → Bool) (cs : List Char) : cutAt p cs ≠ [] := by
  cases cs with
  | nil => simp [cutAt]
  | cons c rest =>
    rw [cutAt]
    split
    · simp
    · split <;> simp

/-- A path has at least one name, if only an empty one. -/
theorem segments_ne_nil (path : String) : segments path ≠ [] := by
  simp [segments, cutAt_ne_nil]

end MessageScript.Path
