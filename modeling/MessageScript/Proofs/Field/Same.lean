import Mathlib.Data.List.Forall2
import MessageScript.Proofs.Field.Level

/-!
# Trees that are the same

Trees are the same if they have the same fields, one by one and on every level, whatever their
indexes are.

    t.same t' = true ↔ the fields are pairwise the same                     (FieldTree.same_iff)
    f.same g = true ↔ the names and tags are equal, and the payloads are the same
                                                                             (Field.same_iff)
-/

namespace MessageScript

/-- Whether two fields are the same. -/
def Field.Same (f g : Field) : Prop := f.same g = true

mutual

theorem Field.same_refl : ∀ f : Field, f.same f = true
  | ⟨name, payload, tags⟩ => by
    rw [Field.same, Payload.same_refl payload]
    simp

theorem Payload.same_refl : ∀ p : Payload, p.same p = true
  | .value v => by
    rw [Payload.same]
    simp
  | .tree t => by
    rw [Payload.same]
    exact FieldTree.same_refl t

theorem FieldTree.same_refl : ∀ t : FieldTree, t.same t = true
  | ⟨entries, _⟩ => by
    rw [FieldTree.same]
    exact sameFields_refl entries

theorem sameFields_refl : ∀ fields : List Field, sameFields fields fields = true
  | [] => by rw [sameFields]
  | f :: rest => by
    rw [sameFields, Field.same_refl f, sameFields_refl rest]
    rfl

end

theorem sameFields_iff {l l' : List Field} :
    sameFields l l' = true ↔ List.Forall₂ Field.Same l l' := by
  induction l generalizing l' with
  | nil =>
    cases l' with
    | nil => simp [sameFields]
    | cons g rest' => simp [sameFields]
  | cons f rest ih =>
    cases l' with
    | nil => simp [sameFields]
    | cons g rest' => rw [sameFields, Bool.and_eq_true, ih, List.forall₂_cons, Field.Same]

namespace Field

variable {f g : Field}

theorem same_iff : f.Same g ↔
    f.name = g.name ∧ f.payload.same g.payload = true ∧ f.tags = g.tags := by
  obtain ⟨name, payload, tags⟩ := f
  obtain ⟨name', payload', tags'⟩ := g
  simp [Same, same, and_assoc]

theorem Same.name_eq (h : f.Same g) : f.name = g.name := (same_iff.1 h).1

/-- Fields that are the same hold trees that are the same, or values. -/
theorem Same.rel_tree? (h : f.Same g) :
    Option.Rel (fun t t' => FieldTree.same t t' = true) f.payload.tree? g.payload.tree? := by
  have hpayload := (same_iff.1 h).2.1
  cases hf : f.payload with
  | value v =>
    cases hg : g.payload with
    | value v' => exact .none
    | tree nested' => simp [hf, hg, Payload.same] at hpayload
  | tree nested =>
    cases hg : g.payload with
    | value v' => simp [hf, hg, Payload.same] at hpayload
    | tree nested' =>
      rw [hf, hg, Payload.same] at hpayload
      exact .some hpayload

end Field

namespace FieldTree

variable {t t' : FieldTree}

theorem same_eq (t t' : FieldTree) : t.same t' = sameFields t.entries t'.entries := by
  obtain ⟨entries, index⟩ := t
  obtain ⟨entries', index'⟩ := t'
  rw [same]

theorem same_iff : t.same t' = true ↔ List.Forall₂ Field.Same t.entries t'.entries := by
  rw [same_eq, sameFields_iff]

/-- The fields decide; the index does not matter. -/
theorem same_of_entries_eq (h : t.entries = t'.entries) : t.same t' = true := by
  rw [same_eq, h]
  exact sameFields_refl t'.entries

end FieldTree

end MessageScript
