import MessageScript.Proofs.Field.Level
import MessageScript.Proofs.Field.Lookup

/-!
# Levels and fields by position

Below a tree, a level stands at the positions of the fields that lead to it (`level?`), whatever
their names.  Names lead to a field at an address (`address?`): the positions on the way and the
field's own.

    address? names t = some (place ++ [i]) →
      follow? names t = (level? place t).bind (·.get? i)             (follow?_eq_of_address?)
-/

namespace MessageScript.FieldTree

/-- The level at positions: from each on in the tree of the field there. -/
def level? : List Nat → FieldTree → Option FieldTree
  | [], t => some t
  | i :: rest, t => ((t.get? i).bind fun f => f.payload.tree?).bind (level? rest)

/-- The positions of the fields that names lead through, the last of them the field they lead to. -/
def address? : List String → FieldTree → Option (List Nat)
  | [], _ => none
  | [leaf], t => (t.firstPosition? leaf).map fun i => [i]
  | name :: rest, t => (t.firstPosition? name).bind fun i =>
      (((t.get? i).bind fun f => f.payload.tree?).bind (address? rest)).map (i :: ·)

variable {t nested : FieldTree} {f : Field} {i : Nat} {name : String} {rest : List String}

theorem level?_cons (hf : t.get? i = some f) (hn : f.payload = .tree nested) (a : List Nat) :
    level? (i :: a) t = level? a nested := by
  rw [level?, hf, Option.bind_some, hn]
  rfl

theorem level?_cons_of_get?_none (h : t.get? i = none) (a : List Nat) :
    level? (i :: a) t = none := by
  rw [level?, h]
  rfl

/-- A level further in depends on one field only. -/
theorem level?_cons_congr {t' : FieldTree} (h : t.get? i = t'.get? i) (a : List Nat) :
    level? (i :: a) t = level? (i :: a) t' := by
  rw [level?, level?, h]

theorem level?_empty_cons (i : Nat) (a : List Nat) : level? (i :: a) empty = none :=
  level?_cons_of_get?_none rfl a

theorem address?_singleton (h : t.firstPosition? name = some i) :
    address? [name] t = some [i] := by
  rw [address?, h]
  rfl

theorem address?_cons (hrest : rest ≠ []) (h : t.firstPosition? name = some i)
    (hf : t.get? i = some f) (hn : f.payload = .tree nested) :
    address? (name :: rest) t = (address? rest nested).map (i :: ·) := by
  cases rest with
  | nil => exact absurd rfl hrest
  | cons name' rest =>
    rw [address?, h, Option.bind_some, hf, Option.bind_some, hn]
    · rfl
    · exact List.cons_ne_nil _ _

theorem exists_of_address?_cons {a : List Nat} (hrest : rest ≠ [])
    (h : address? (name :: rest) t = some a) :
    ∃ i f nested b, t.firstPosition? name = some i ∧ t.get? i = some f ∧
      f.payload = .tree nested ∧ address? rest nested = some b ∧ a = i :: b := by
  cases rest with
  | nil => exact absurd rfl hrest
  | cons name' rest =>
    obtain ⟨i, hi, hmap⟩ := Option.bind_eq_some_iff.1 h
    obtain ⟨b, hb, rfl⟩ := Option.map_eq_some_iff.1 hmap
    obtain ⟨nested, hn, hb⟩ := Option.bind_eq_some_iff.1 hb
    obtain ⟨f, hf, hn⟩ := Option.bind_eq_some_iff.1 hn
    exact ⟨i, f, nested, b, hi, hf, Payload.eq_tree_of_tree? hn, hb, rfl⟩

theorem ne_nil_of_address? {names : List String} {a : List Nat} (h : address? names t = some a) :
    a ≠ [] := by
  cases names with
  | nil => cases h
  | cons name rest =>
    by_cases hrest : rest = []
    · subst hrest
      obtain ⟨i, -, rfl⟩ := Option.map_eq_some_iff.1 h
      exact List.cons_ne_nil _ _
    · obtain ⟨i, -, -, b, -, -, -, -, rfl⟩ := exists_of_address?_cons hrest h
      exact List.cons_ne_nil _ _

/-- A single name leads to a field of the tree itself. -/
theorem eq_nil_of_address?_singleton {place : List Nat}
    (h : address? [name] t = some (place ++ [i])) : place = [] ∧ t.firstPosition? name = some i := by
  obtain ⟨j, hj, heq⟩ := Option.map_eq_some_iff.1 h
  have hsplit : [] ++ [j] = place ++ [i] := heq
  obtain ⟨rfl, hji⟩ := List.append_inj' hsplit rfl
  rw [← List.singleton_inj.1 hji]
  exact ⟨rfl, hj⟩

/-- More names lead on from the first field of the way. -/
theorem exists_of_address?_append {place : List Nat} (hrest : rest ≠ [])
    (h : address? (name :: rest) t = some (place ++ [i])) :
    ∃ j f nested way, t.firstPosition? name = some j ∧ t.get? j = some f ∧
      f.payload = .tree nested ∧ address? rest nested = some (way ++ [i]) ∧ place = j :: way := by
  obtain ⟨j, f, nested, b, hj, hf, hn, hb, heq⟩ := exists_of_address?_cons hrest h
  cases place with
  | nil =>
    -- the address inside would have no position
    cases heq
    exact absurd rfl (ne_nil_of_address? hb)
  | cons k way =>
    rw [List.cons_append, List.cons.injEq] at heq
    obtain ⟨rfl, rfl⟩ := heq
    exact ⟨k, f, nested, way, hj, hf, hn, hb, rfl⟩

/-- The field that names lead to stands at their address. -/
theorem follow?_eq_of_address? {names : List String} {place : List Nat}
    (h : address? names t = some (place ++ [i])) :
    follow? names t = (level? place t).bind fun s => s.get? i := by
  induction names generalizing t place with
  | nil => cases h
  | cons name rest ih =>
    by_cases hrest : rest = []
    · subst hrest
      obtain ⟨rfl, hi⟩ := eq_nil_of_address?_singleton h
      show t.findFirst? name = t.get? i
      rw [findFirst?, hi, Option.bind_some]
    · obtain ⟨j, f, nested, way, hj, hf, hn, hway, rfl⟩ := exists_of_address?_append hrest h
      have hfirst : t.findFirst? name = some f := by
        rw [findFirst?, hj, Option.bind_some, hf]
      rw [follow?_cons hrest, hfirst, level?_cons hf hn, ← ih hway, Option.bind_some, hn]
      rfl

end MessageScript.FieldTree
