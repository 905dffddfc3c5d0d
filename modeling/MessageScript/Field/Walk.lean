import MessageScript.Field.Basic
import MessageScript.Path

/-!
# Walks through a field tree

A walk visits every field of a tree with its path, a field before those in its tree.  It keeps the
fields that are still to visit, level by level from the innermost; `step` makes one move and `run`
all of them.

A walk ends because each move makes `weight` smaller: it counts the levels, the fields still to
visit, and the fields and levels inside those.
-/

namespace MessageScript

mutual

/-- The moves that a field costs. -/
def Field.weight : Field → Nat
  | ⟨_, payload, _⟩ => 1 + payload.weight

/-- The moves that a payload costs. -/
def Payload.weight : Payload → Nat
  | .value _ => 0
  | .tree t => t.weight

/-- The moves that a level of a tree costs. -/
def FieldTree.weight : FieldTree → Nat
  | ⟨entries, _⟩ => 1 + weightOfFields entries

/-- The moves that a sequence of fields costs. -/
def weightOfFields : List Field → Nat
  | [] => 0
  | f :: rest => f.weight + weightOfFields rest

end

/-- The fields still to visit on one level, and the path of the field that holds the level. -/
structure WalkLevel where
  path : Option String
  fields : List Field

/-- A walk under way: the levels, innermost first, and whether fields with trees are passed over. -/
structure Walk where
  levels : List WalkLevel
  leavesOnly : Bool

namespace Walk

/-- A walk through a tree that has not moved yet. -/
def start (t : FieldTree) (leavesOnly : Bool) : Walk := ⟨[⟨none, t.entries⟩], leavesOnly⟩

/-- The path of a field on a level. -/
def pathOn (level : Option String) (name : String) : String :=
  match level with
  | none => name
  | some path => Path.append path name

/-- The moves that levels cost. -/
def weightOfLevels : List WalkLevel → Nat
  | [] => 0
  | level :: rest => 1 + weightOfFields level.fields + weightOfLevels rest

/-- The moves that a walk has left, at most. -/
def weight (w : Walk) : Nat := weightOfLevels w.levels

/-- One move: leaves a level that has no fields left, or visits a field.  The visited field is
answered unless it is passed over; nothing is answered at the end. -/
def step (w : Walk) : Option (Option (String × Field) × Walk) :=
  match w.levels with
  | [] => none
  | ⟨_, []⟩ :: levels => some (none, { w with levels := levels })
  | ⟨level, f :: rest⟩ :: levels =>
    let path := pathOn level f.name
    match f.payload with
    | .value _ => some (some (path, f), { w with levels := ⟨level, rest⟩ :: levels })
    | .tree t =>
      some (if w.leavesOnly then none else some (path, f),
        { w with levels := ⟨some path, t.entries⟩ :: ⟨level, rest⟩ :: levels })

theorem weight_lt_of_step {w next : Walk} {visited : Option (String × Field)}
    (h : w.step = some (visited, next)) : next.weight < w.weight := by
  obtain ⟨levels, leavesOnly⟩ := w
  unfold step at h
  match levels with
  | [] => simp at h
  | ⟨level, []⟩ :: levels =>
    simp only [Option.some.injEq, Prod.mk.injEq] at h
    rw [← h.2]
    simp [weight, weightOfLevels, weightOfFields]
  | ⟨level, f :: rest⟩ :: levels =>
    obtain ⟨name, payload, tags⟩ := f
    cases payload with
    | value v =>
      simp only [Option.some.injEq, Prod.mk.injEq] at h
      rw [← h.2]
      simp [weight, weightOfLevels, weightOfFields, Field.weight, Payload.weight]
    | tree t =>
      obtain ⟨entries, index⟩ := t
      simp only [Option.some.injEq, Prod.mk.injEq] at h
      rw [← h.2]
      simp only [weight, weightOfLevels, weightOfFields, Field.weight, Payload.weight,
        FieldTree.weight]
      omega

/-- All visits that a walk has left. -/
def run (w : Walk) : List (String × Field) :=
  match _h : w.step with
  | none => []
  | some (visited, next) => visited.toList ++ next.run
  termination_by w.weight
  decreasing_by exact weight_lt_of_step _h

end Walk

namespace FieldTree

/-- Every field with its path, a field before those in its tree. -/
def walk (t : FieldTree) : List (String × Field) := (Walk.start t false).run

/-- Every field that holds a value, with its path. -/
def leaves (t : FieldTree) : List (String × Field) := (Walk.start t true).run

end FieldTree

end MessageScript
