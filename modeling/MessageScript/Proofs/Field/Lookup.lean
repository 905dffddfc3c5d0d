import Mathlib.Data.List.Basic
import MessageScript.Field.Path

/-!
# What an index says, and what lookups answer

An index is right for names (`Describes`) if it files under each key the positions of the names that
have it, in ascending order and no others.  A tree is coherent (`Coherent`) if its index, should it
have one, is right for the names of its fields.

In a coherent tree every lookup answers what going through all fields answers; what a lookup takes a
field to match (`picks`) depends on whether there is an index.

    (ofNames names).Describes names                                   (describes_ofNames)
    t.Coherent → t.findFirst? name = t.entries.find? (t.picks name)   (findFirst?_eq_find?)
    … and so for the last field with a name, all of them, and whether there is one
-/

namespace MessageScript

/-! ## Lists -/

/-- The first of the places where `p` holds. -/
theorem head?_findIdxs {α : Type} (p : α → Bool) (l : List α) (start : Nat) :
    (l.findIdxs p start).head? = (l.findIdx? p).map (· + start) := by
  induction l generalizing start with
  | nil => simp
  | cons a rest ih =>
    rw [List.findIdxs_cons, List.findIdx?_cons]
    cases p a with
    | true => simp
    | false =>
      simp only [Bool.false_eq_true, if_false, ih, Option.map_map]
      congr 1
      funext i
      simp only [Function.comp_apply]
      omega

/-- The elements at the places where `p` holds are those that satisfy `p`. -/
theorem filterMap_findIdxs {α : Type} (p : α → Bool) (l before : List α) :
    (l.findIdxs p before.length).filterMap ((before ++ l)[·]?) = l.filter p := by
  induction l generalizing before with
  | nil => simp
  | cons a rest ih =>
    have hrest := ih (before ++ [a])
    rw [List.append_assoc, List.length_append] at hrest
    have ha : (before ++ a :: rest)[before.length]? = some a := by simp
    rw [List.findIdxs_cons, List.filter_cons]
    cases p a with
    | true =>
      simp only [if_true]
      rw [List.filterMap_cons, ha]
      exact congrArg (a :: ·) hrest
    | false => exact hrest

/-- The last of the places where `p` holds, read off. -/
theorem getLast?_findIdxs_bind {α : Type} (p : α → Bool) (l : List α) :
    (l.findIdxs p).getLast?.bind (l[·]?) = (l.filter p).getLast? := by
  have hall := filterMap_findIdxs p l []
  simp only [List.length_nil, List.nil_append] at hall
  rw [← hall]
  cases h : (l.findIdxs p).getLast? with
  | none =>
    rw [List.getLast?_eq_none_iff] at h
    simp [h]
  | some i =>
    obtain ⟨rest, hrest⟩ := List.getLast?_eq_some_iff.1 h
    have hi : i ∈ l.findIdxs p := by
      rw [hrest]
      exact List.mem_append_right _ List.mem_cons_self
    obtain ⟨hlt, -⟩ := List.mem_findIdxs_iff_exists_getElem_pos.1 hi
    rw [hrest, List.filterMap_append]
    simp [hlt]

namespace NameIndex

/-! ## What an index says -/

/-- Whether an index is right for a sequence of names: under each key it files the positions of the
names with that key, in ascending order. -/
def Describes (ix : NameIndex) (names : List String) : Prop :=
  ∀ key, ix.positions key = names.findIdxs fun name => Name.key name == key

theorem describes_empty : empty.Describes [] := fun _ => rfl

/-- Filing one more name behind the others keeps the index right. -/
theorem Describes.add {ix : NameIndex} {names : List String} (h : ix.Describes names)
    (name : String) : (ix.add name names.length).Describes (names ++ [name]) := by
  intro key
  rw [positions_add, h key, List.findIdxs_append, List.findIdxs_singleton, Nat.zero_add]
  simp only [beq_iff_eq]

theorem Describes.addAll {ix : NameIndex} {names : List String} (h : ix.Describes names)
    (more : List String) : (ix.addAll names.length more).Describes (names ++ more) := by
  induction more generalizing ix names with
  | nil =>
    rw [List.append_nil]
    exact h
  | cons name rest ih =>
    have hrest := ih (h.add name)
    rw [List.length_append, List.append_assoc] at hrest
    exact hrest

/-- An index built from names is right for them. -/
theorem describes_ofNames (names : List String) : (ofNames names).Describes names :=
  describes_empty.addAll names

/-- The positions under a key ascend. -/
theorem Describes.pairwise {ix : NameIndex} {names : List String} (h : ix.Describes names)
    (key : String) : (ix.positions key).Pairwise (· < ·) := by
  rw [h key]
  exact List.pairwise_findIdxs

/-- Under a key stand the positions of the names with that key, and nothing else. -/
theorem Describes.mem_positions {ix : NameIndex} {names : List String} (h : ix.Describes names)
    (key : String) (i : Nat) :
    i ∈ ix.positions key ↔ ∃ name, names[i]? = some name ∧ Name.key name = key := by
  rw [h key, List.mem_findIdxs_iff_exists_getElem_pos]
  constructor
  · rintro ⟨hi, hkey⟩
    exact ⟨names[i], List.getElem?_eq_getElem hi, beq_iff_eq.1 hkey⟩
  · rintro ⟨name, hname, hkey⟩
    obtain ⟨hi, rfl⟩ := List.getElem?_eq_some_iff.1 hname
    exact ⟨hi, beq_iff_eq.2 hkey⟩

end NameIndex

namespace FieldTree

/-- The names of the fields of a tree, without those in nested trees. -/
def names (t : FieldTree) : List String := t.entries.map Field.name

/-- Whether the index of a tree, if it has one, is right for the names of its fields. -/
def Coherent (t : FieldTree) : Prop := ∀ ix, t.index = some ix → ix.Describes t.names

/-- Whether a lookup for a name takes a field to match: by their keys if there is an index, and
otherwise if the field's name agrees with the key. -/
def picks (t : FieldTree) (name : String) (f : Field) : Bool :=
  match t.index with
  | some _ => Name.key f.name == Name.key name
  | none => Name.agree f.name (Name.key name)

theorem picks_of_index {t : FieldTree} (h : t.index.isSome = true) (name : String) :
    t.picks name = fun f => Name.key f.name == Name.key name := by
  obtain ⟨ix, hix⟩ := Option.isSome_iff_exists.1 h
  funext f
  rw [picks, hix]

theorem picks_of_no_index {t : FieldTree} (h : t.index = none) (name : String) :
    t.picks name = fun f => Name.agree f.name (Name.key name) := by
  funext f
  rw [picks, h]

/-! ## Lookups -/

theorem scan_eq_findIdxs (name : String) (start : Nat) (fields : List Field) :
    scan name start fields = fields.findIdxs (fun f => Name.agree f.name name) start := by
  induction fields generalizing start with
  | nil => rfl
  | cons f rest ih => rw [scan, List.findIdxs_cons, ih]

/-- The positions of a name are those of the fields that a lookup takes to match. -/
theorem positions_eq_findIdxs {t : FieldTree} (h : t.Coherent) (name : String) :
    t.positions name = t.entries.findIdxs (t.picks name) := by
  cases hix : t.index with
  | some ix =>
    rw [picks_of_index (by rw [hix]; rfl), positions, hix]
    show ix.positions (Name.key name) = _
    rw [h ix hix, names, List.findIdxs_map]
    rfl
  | none =>
    rw [picks_of_no_index hix, positions, hix]
    exact scan_eq_findIdxs _ _ _

theorem firstPosition?_eq_findIdx? {t : FieldTree} (h : t.Coherent) (name : String) :
    t.firstPosition? name = t.entries.findIdx? (t.picks name) := by
  rw [firstPosition?, positions_eq_findIdxs h, head?_findIdxs]
  simp

theorem findFirst?_eq_find? {t : FieldTree} (h : t.Coherent) (name : String) :
    t.findFirst? name = t.entries.find? (t.picks name) := by
  rw [findFirst?, firstPosition?_eq_findIdx? h, List.find?_eq_bind_findIdx?_getElem?]
  rfl

theorem findAll_eq_filter {t : FieldTree} (h : t.Coherent) (name : String) :
    t.findAll name = t.entries.filter (t.picks name) := by
  rw [findAll, positions_eq_findIdxs h]
  exact filterMap_findIdxs (t.picks name) t.entries []

theorem findLast?_eq_getLast? {t : FieldTree} (h : t.Coherent) (name : String) :
    t.findLast? name = (t.entries.filter (t.picks name)).getLast? := by
  rw [findLast?, positions_eq_findIdxs h]
  exact getLast?_findIdxs_bind (t.picks name) t.entries

theorem contains_eq_any {t : FieldTree} (h : t.Coherent) (name : String) :
    t.contains name = t.entries.any (t.picks name) := by
  rw [contains, firstPosition?_eq_findIdx? h, List.findIdx?_isSome]

/-- What a lookup finds is one of the fields. -/
theorem mem_of_findFirst? {t : FieldTree} {name : String} {f : Field}
    (h : t.findFirst? name = some f) : f ∈ t.entries := by
  obtain ⟨i, -, hget⟩ := Option.bind_eq_some_iff.1 h
  exact List.mem_of_getElem? hget

/-- A path of more than one name goes on in the tree of the first field with the first name. -/
theorem follow?_cons {rest : List String} (h : rest ≠ []) (name : String) (t : FieldTree) :
    follow? (name :: rest) t =
      ((t.findFirst? name).bind fun f => f.payload.tree?).bind (follow? rest) := by
  cases rest with
  | nil => exact absurd rfl h
  | cons name' rest => rfl

end FieldTree

end MessageScript
