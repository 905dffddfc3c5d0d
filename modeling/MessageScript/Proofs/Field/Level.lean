import MessageScript.Field.Basic

/-!
# Levels of a field tree

The levels of a tree are the tree itself and the trees that its fields hold, at any depth.  What
holds on every level of a tree (`Everywhere`) holds of the tree and on every level of the payloads
of its fields:

    t.Everywhere P ↔ P t ∧ ∀ f ∈ t.entries, f.payload.Everywhere P       (everywhere_iff)
-/

namespace MessageScript

/-- The trees on the levels of a tree: itself, and those that its fields hold at any depth. -/
inductive FieldTree.Level : FieldTree → FieldTree → Prop
  | here (t : FieldTree) : Level t t
  | inside {t nested s : FieldTree} {f : Field} (hf : f ∈ t.entries)
      (hn : f.payload = .tree nested) (h : Level nested s) : Level t s

/-- Whether `P` holds on every level of a tree. -/
def FieldTree.Everywhere (P : FieldTree → Prop) (t : FieldTree) : Prop := ∀ s, t.Level s → P s

/-- Whether `P` holds on every level of the tree that a payload is, if it is one. -/
def Payload.Everywhere (P : FieldTree → Prop) (p : Payload) : Prop :=
  ∀ t, p = .tree t → t.Everywhere P

namespace Payload

variable {P : FieldTree → Prop}

theorem everywhere_value (v : Value) : (value v).Everywhere P := by
  intro t h
  cases h

theorem everywhere_tree {t : FieldTree} : (tree t).Everywhere P ↔ t.Everywhere P := by
  constructor
  · intro h
    exact h t rfl
  · intro h t' ht
    cases ht
    exact h

end Payload

theorem Payload.eq_tree_of_tree? {p : Payload} {t : FieldTree} (h : p.tree? = some t) :
    p = .tree t := by
  cases p with
  | value v => cases h
  | tree t' => rw [Option.some.inj h]

namespace FieldTree

/-- A tree is its fields and its index. -/
theorem mk_eta (t : FieldTree) : FieldTree.mk t.entries t.index = t := by
  cases t
  rfl

variable {P Q : FieldTree → Prop} {t : FieldTree}

theorem everywhere_iff :
    t.Everywhere P ↔ P t ∧ ∀ f ∈ t.entries, f.payload.Everywhere P := by
  constructor
  · intro h
    refine ⟨h t (.here t), ?_⟩
    intro f hf nested hn s hs
    exact h s (.inside hf hn hs)
  · rintro ⟨ht, hfields⟩ s hs
    cases hs with
    | here => exact ht
    | inside hf hn h => exact hfields _ hf _ hn s h

/-- A tree whose fields hold values has one level. -/
theorem everywhere_of_values (hvalues : ∀ f ∈ t.entries, f.payload.isValue = true) (h : P t) :
    t.Everywhere P := by
  refine everywhere_iff.2 ⟨h, ?_⟩
  intro f hf nested hn
  have hvalue := hvalues f hf
  rw [hn] at hvalue
  cases hvalue

theorem Everywhere.here (h : t.Everywhere P) : P t := h t (.here t)

theorem Everywhere.payload (h : t.Everywhere P) {f : Field} (hf : f ∈ t.entries) :
    f.payload.Everywhere P := (everywhere_iff.1 h).2 f hf

theorem Level.trans {t s u : FieldTree} (hts : t.Level s) (hsu : s.Level u) : t.Level u := by
  induction hts with
  | here => exact hsu
  | inside hf hn _ ih => exact .inside hf hn (ih hsu)

/-- What holds on every level of a tree holds on every level of each of its levels. -/
theorem Everywhere.level (h : t.Everywhere P) {s : FieldTree} (hs : t.Level s) : s.Everywhere P :=
  fun u hu => h u (hs.trans hu)

theorem Everywhere.mono (h : t.Everywhere P) (himp : ∀ s, P s → Q s) : t.Everywhere Q :=
  fun s hs => himp s (h s hs)

end FieldTree

end MessageScript
