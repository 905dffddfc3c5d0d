import Mathlib.Data.List.Basic
import MessageScript.Field.Walk

/-!
# What a walk visits

The fields of a tree in pre-order, each with the names that lead to it (`FieldTree.visits`), are what
a walk through the tree answers, one after the other, before it ends.

    w.step = some (visited, next) → w.remaining = visited.toList ++ next.remaining
                                                                             (remaining_of_step)
    w.Yields vs ↔ vs = w.remaining                                                 (yields_iff)
-/

namespace MessageScript

/-! ## Fields in pre-order -/

mutual

/-- A field and the fields in it in pre-order, each with the names from the first to it. -/
def Field.visits : Field → List (List String × Field)
  | ⟨name, payload, tags⟩ =>
    ([name], ⟨name, payload, tags⟩) :: payload.visits.map fun v => (name :: v.1, v.2)

/-- The fields in a payload in pre-order, each with the names that lead to it. -/
def Payload.visits : Payload → List (List String × Field)
  | .value _ => []
  | .tree t => t.visits

/-- The fields of a tree at all levels in pre-order, each with the names that lead to it. -/
def FieldTree.visits : FieldTree → List (List String × Field)
  | ⟨entries, _⟩ => visitsOfFields entries

/-- The fields of a sequence, and those in them, in pre-order. -/
def visitsOfFields : List Field → List (List String × Field)
  | [] => []
  | f :: rest => f.visits ++ visitsOfFields rest

end

mutual

/-- The number of fields in a field, itself included. -/
def Field.fieldCount : Field → Nat
  | ⟨_, payload, _⟩ => 1 + payload.fieldCount

/-- The number of fields in a payload. -/
def Payload.fieldCount : Payload → Nat
  | .value _ => 0
  | .tree t => t.fieldCount

/-- The number of fields of a tree, at all levels. -/
def FieldTree.fieldCount : FieldTree → Nat
  | ⟨entries, _⟩ => countOfFields entries

/-- The number of fields in a sequence, at all levels. -/
def countOfFields : List Field → Nat
  | [] => 0
  | f :: rest => f.fieldCount + countOfFields rest

end

mutual

theorem Field.length_visits : ∀ f : Field, f.visits.length = f.fieldCount
  | ⟨name, payload, tags⟩ => by
    rw [Field.visits, Field.fieldCount, List.length_cons, List.length_map,
      Payload.length_visits payload, Nat.add_comm]

theorem Payload.length_visits : ∀ p : Payload, p.visits.length = p.fieldCount
  | .value _ => by rw [Payload.visits, Payload.fieldCount, List.length_nil]
  | .tree t => by rw [Payload.visits, Payload.fieldCount, FieldTree.length_visits t]

theorem FieldTree.length_visits : ∀ t : FieldTree, t.visits.length = t.fieldCount
  | ⟨entries, _⟩ => by
    rw [FieldTree.visits, FieldTree.fieldCount, length_visitsOfFields entries]

theorem length_visitsOfFields :
    ∀ fields : List Field, (visitsOfFields fields).length = countOfFields fields
  | [] => by rw [visitsOfFields, countOfFields, List.length_nil]
  | f :: rest => by
    rw [visitsOfFields, countOfFields, List.length_append, Field.length_visits f,
      length_visitsOfFields rest]

end

theorem FieldTree.visits_eq (t : FieldTree) : t.visits = visitsOfFields t.entries := by
  cases t
  rw [FieldTree.visits]

/-- Names joined with slashes, behind the path of the field that holds the level. -/
def WalkLevel.pathOf (level : Option String) (names : List String) : String :=
  String.intercalate "/" (level.toList ++ names)

theorem WalkLevel.pathOf_nil (path : String) : pathOf (some path) [] = path := rfl

/-- Further in, names are joined to the path of the field that they are in. -/
theorem WalkLevel.pathOf_cons (level : Option String) (name : String) (names : List String) :
    pathOf level (name :: names) = pathOf (some (Walk.pathOn level name)) names := by
  cases level <;> rfl

/-- The visits to fields, with the paths that a level gives them. -/
def WalkLevel.visits (level : WalkLevel) : List (String × Field) :=
  (visitsOfFields level.fields).map fun v => (pathOf level.path v.1, v.2)

theorem WalkLevel.visits_nil (path : Option String) : (WalkLevel.mk path []).visits = [] := by
  rw [visits, visitsOfFields, List.map_nil]

/-- The visits on a level are the first field, the fields in it, and the visits behind it. -/
theorem WalkLevel.visits_cons (path : Option String) (f : Field) (rest : List Field) :
    (WalkLevel.mk path (f :: rest)).visits = (Walk.pathOn path f.name, f) ::
      f.payload.visits.map (fun v => (pathOf (some (Walk.pathOn path f.name)) v.1, v.2)) ++
        (WalkLevel.mk path rest).visits := by
  obtain ⟨name, payload, tags⟩ := f
  simp only [visits, visitsOfFields, Field.visits, List.map_append, List.map_cons, List.map_map,
    Function.comp_def, pathOf_cons, pathOf_nil]

namespace Walk

variable {w next : Walk} {visited : Option (String × Field)} {v : String × Field}
  {vs : List (String × Field)}

/-! ## Moves -/

/-- Whether a visit is answered: fields with trees may be passed over. -/
def isAnswered (leavesOnly : Bool) (v : String × Field) : Bool :=
  !leavesOnly || v.2.payload.isValue

/-- The visits that a walk has left to answer. -/
def remaining (w : Walk) : List (String × Field) :=
  (w.levels.flatMap WalkLevel.visits).filter (isAnswered w.leavesOnly)

theorem remaining_of_step_none (h : w.step = none) : w.remaining = [] := by
  obtain ⟨levels, leavesOnly⟩ := w
  unfold step at h
  match levels with
  | [] => rfl
  | ⟨_, []⟩ :: levels => cases h
  | ⟨path, ⟨name, .value v, tags⟩ :: rest⟩ :: levels => cases h
  | ⟨path, ⟨name, .tree t, tags⟩ :: rest⟩ :: levels => cases h

/-- **One move answers the first of the visits that are left**, if it answers any, and leaves the
others. -/
theorem remaining_of_step (h : w.step = some (visited, next)) :
    w.remaining = visited.toList ++ next.remaining := by
  obtain ⟨levels, leavesOnly⟩ := w
  unfold step at h
  -- the last level is used up, or a value or a tree is ahead on it
  match levels with
  | [] => cases h
  | ⟨path, []⟩ :: levels =>
    cases h
    simp only [remaining, List.flatMap_cons, WalkLevel.visits_nil, List.nil_append,
      Option.toList_none]
  | ⟨path, ⟨name, .value v, tags⟩ :: rest⟩ :: levels =>
    cases h
    have hanswered : ∀ path : String,
        isAnswered leavesOnly (path, ⟨name, .value v, tags⟩) = true :=
      fun _ => Bool.or_true _
    simp only [remaining, List.flatMap_cons, WalkLevel.visits_cons, Payload.visits, List.map_nil,
      List.cons_append, List.nil_append, List.filter_cons_of_pos (hanswered _),
      Option.toList_some]
  | ⟨path, ⟨name, .tree t, tags⟩ :: rest⟩ :: levels =>
    cases h
    have hlevel : ∀ path : Option String, (t.visits.map fun v => (WalkLevel.pathOf path v.1, v.2)) =
        (WalkLevel.mk path t.entries).visits := by
      intro path
      rw [WalkLevel.visits, FieldTree.visits_eq]
    simp only [remaining, List.flatMap_cons, WalkLevel.visits_cons, Payload.visits, hlevel,
      List.cons_append, List.append_assoc]
    cases leavesOnly with
    | true => rw [List.filter_cons_of_neg Bool.false_ne_true]; rfl
    | false => rw [List.filter_cons_of_pos rfl]; rfl

/-- All moves together answer the visits that are left, in order. -/
theorem run_eq_remaining (w : Walk) : w.run = w.remaining := by
  fun_induction run w with
  | case1 w h => exact (remaining_of_step_none h).symm
  | case2 w visited next h ih => rw [remaining_of_step h, ih]

/-! ## Answers -/

/-- The next answer of a walk and the walk behind it, or nothing at its end: it moves until it
answers. -/
def next? (w : Walk) : Option ((String × Field) × Walk) :=
  match _h : w.step with
  | none => none
  | some (some v, next) => some (v, next)
  | some (none, next) => next.next?
  termination_by w.weight
  decreasing_by exact weight_lt_of_step _h

/-- A walk gives these answers one by one, and then it ends. -/
inductive Yields : Walk → List (String × Field) → Prop
  | ended {w : Walk} (h : w.next? = none) : Yields w []
  | visit {w next : Walk} {v : String × Field} {vs : List (String × Field)}
      (h : w.next? = some (v, next)) (hrest : Yields next vs) : Yields w (v :: vs)

theorem remaining_of_next?_none (h : w.next? = none) : w.remaining = [] := by
  fun_induction next? w with
  | case1 w hstep => exact remaining_of_step_none hstep
  | case2 w v next hstep => cases h
  | case3 w next hstep ih => rw [remaining_of_step hstep, ih h]; rfl

theorem remaining_of_next? (h : w.next? = some (v, next)) : w.remaining = v :: next.remaining := by
  fun_induction next? w with
  | case1 w hstep => cases h
  | case2 w v next hstep => cases h; rw [remaining_of_step hstep]; rfl
  | case3 w next hstep ih => rw [remaining_of_step hstep, ih h]; rfl

/-- **A walk ends, and until then it gives the visits that it has left, in order.** -/
theorem yields_iff : w.Yields vs ↔ vs = w.remaining := by
  constructor
  · intro h
    induction h with
    | ended h => exact (remaining_of_next?_none h).symm
    | visit h hrest ih => rw [remaining_of_next? h, ih]
  · rintro rfl
    generalize hvs : w.remaining = vs
    induction vs generalizing w with
    | nil =>
      cases hnext : w.next? with
      | none => exact .ended hnext
      | some answer =>
        obtain ⟨v, next⟩ := answer
        rw [remaining_of_next? hnext] at hvs
        cases hvs
    | cons v vs ih =>
      cases hnext : w.next? with
      | none =>
        rw [remaining_of_next?_none hnext] at hvs
        cases hvs
      | some answer =>
        obtain ⟨v', next⟩ := answer
        rw [remaining_of_next? hnext] at hvs
        cases hvs
        exact .visit hnext (ih rfl)

end Walk

namespace FieldTree

/-- The fields of a tree at all levels in pre-order, each with its path: the names from the root,
joined with slashes. -/
def preorder (t : FieldTree) : List (String × Field) :=
  t.visits.map fun v => (String.intercalate "/" v.1, v.2)

theorem length_preorder (t : FieldTree) : t.preorder.length = t.fieldCount := by
  rw [preorder, List.length_map, length_visits]

theorem remaining_start (t : FieldTree) (leavesOnly : Bool) :
    (Walk.start t leavesOnly).remaining = t.preorder.filter (Walk.isAnswered leavesOnly) := by
  simp only [Walk.remaining, Walk.start, List.flatMap_cons, List.flatMap_nil, List.append_nil,
    WalkLevel.visits, ← visits_eq]
  rfl

theorem remaining_start_false (t : FieldTree) : (Walk.start t false).remaining = t.preorder := by
  rw [remaining_start]
  exact List.filter_eq_self.2 fun _ _ => rfl

/-- **A walk visits every field of a tree once, in pre-order, and ends.**  It gives as many fields as
the tree has at all levels.  A walk that passes over fields with trees gives those of the same visits
whose fields hold a value, in the same order. -/
theorem walk_is_preorder (t : FieldTree) :
    (∀ vs, (Walk.start t false).Yields vs ↔ vs = t.preorder) ∧
    t.walk = t.preorder ∧ t.walk.length = t.fieldCount ∧
    (∀ vs, (Walk.start t true).Yields vs ↔ vs = t.walk.filter fun v => v.2.payload.isValue) ∧
    t.leaves = t.walk.filter fun v => v.2.payload.isValue := by
  have hwalk : t.walk = t.preorder := by
    rw [walk, Walk.run_eq_remaining, remaining_start_false]
  have hleaves : (Walk.start t true).remaining = t.walk.filter fun v => v.2.payload.isValue := by
    rw [remaining_start, hwalk]
    rfl
  refine ⟨fun vs => ?_, hwalk, ?_, fun vs => ?_, ?_⟩
  · rw [Walk.yields_iff, remaining_start_false]
  · rw [hwalk, length_preorder]
  · rw [Walk.yields_iff, hleaves]
  · rw [leaves, Walk.run_eq_remaining, hleaves]

example :
    let inner : FieldTree := ⟨[⟨"X", .value (.boolean true), TagSet.empty⟩], none⟩
    let t : FieldTree := ⟨[⟨"Dup", .tree inner, TagSet.empty⟩, ⟨"Dup", .tree inner, TagSet.empty⟩,
      ⟨"Empty", .tree ⟨[], none⟩, TagSet.empty⟩], none⟩
    t.walk.map Prod.fst = ["Dup", "Dup/X", "Dup", "Dup/X", "Empty"] ∧
      t.leaves.map Prod.fst = ["Dup/X", "Dup/X"] := by
  decide +kernel

end FieldTree

end MessageScript
