import MessageScript.Proofs.Field.Level
import MessageScript.Proofs.Stored.Field

/-!
# Invariants of field trees

What holds on every level of every tree that callers can build.  A property `P` of one level and a
property `Q` of one field are invariant (`LevelInvariant`) if `P` holds whenever an index is built
or dropped and outlasts appending and new payloads, and if `Q` holds of every field made and
outlasts new names, payloads and tags.

Each operation keeps an invariant on all levels, whether it is done or refused; so it holds after
any number of them.

    LevelInvariant P Q → t.Reachable → t.Everywhere (LevelHolds P Q)      (holds_of_reachable)
-/

namespace MessageScript

open FieldTree

/-- What makes a property of levels and one of fields invariant. -/
structure LevelInvariant (P : FieldTree → Prop) (Q : Field → Prop) : Prop where
  reindexed : ∀ t : FieldTree, P t.reindexed
  dropped : ∀ fields : List Field, P ⟨fields, none⟩
  push : ∀ (t : FieldTree) (f : Field), P t → P (t.push f)
  withPayload : ∀ (t : FieldTree) (i : Nat) (p : Payload), P t → P (t.withPayload i p)
  make : ∀ name p f, Field.make name p = .ok f → Q f
  rename : ∀ (f : Field) (name : String), Q f → Q (f.rename name).after
  setPayload : ∀ (f : Field) (p : Payload), Q f → Q { f with payload := p }
  setTags : ∀ (f : Field) (tags : TagSet), Q f → tags.Reachable → Q { f with tags := tags }

/-- Whether a level satisfies `P` and its fields satisfy `Q`. -/
def LevelHolds (P : FieldTree → Prop) (Q : Field → Prop) (t : FieldTree) : Prop :=
  P t ∧ ∀ f ∈ t.entries, Q f

/-- Whether a field satisfies `Q`, and what it holds does on every level. -/
def FieldHolds (P : FieldTree → Prop) (Q : Field → Prop) (f : Field) : Prop :=
  Q f ∧ f.payload.Everywhere (LevelHolds P Q)

variable {P : FieldTree → Prop} {Q : Field → Prop}

theorem everywhere_levelHolds_iff {t : FieldTree} :
    t.Everywhere (LevelHolds P Q) ↔ P t ∧ ∀ f ∈ t.entries, FieldHolds P Q f := by
  rw [everywhere_iff]
  constructor
  · rintro ⟨⟨ht, hq⟩, hfields⟩
    exact ⟨ht, fun f hf => ⟨hq f hf, hfields f hf⟩⟩
  · rintro ⟨ht, hfields⟩
    exact ⟨⟨ht, fun f hf => (hfields f hf).1⟩, fun f hf => (hfields f hf).2⟩

theorem mem_withPayload {t : FieldTree} {i : Nat} {p : Payload} {f : Field}
    (h : f ∈ (t.withPayload i p).entries) :
    f ∈ t.entries ∨ ∃ g ∈ t.entries, f = { g with payload := p } := by
  obtain ⟨k, hk⟩ := List.mem_iff_getElem?.1 h
  rw [withPayload, List.getElem?_modify] at hk
  obtain ⟨g, hg, rfl⟩ := Option.map_eq_some_iff.1 hk
  have hmem : g ∈ t.entries := List.mem_of_getElem? hg
  split
  · exact .inr ⟨g, hmem, rfl⟩
  · exact .inl hmem

@[simp] theorem payload_rename (f : Field) (name : String) :
    (f.rename name).after.payload = f.payload := by
  unfold Field.rename
  split <;> rfl

/-- A field whose new name is refused stays as it is. -/
theorem after_rename_of_refused {f : Field} {name : String} {e : Error}
    (h : (f.rename name).answer = .error e) : (f.rename name).after = f := by
  unfold Field.rename at h ⊢
  split at h
  · cases h
  · rfl

/-- A field that is put in its own place leaves the tree as it was. -/
theorem FieldTree.mk_set_self {t : FieldTree} {i : Nat} {f : Field} (h : t.get? i = some f) :
    FieldTree.mk (t.entries.set i f) t.index = t := by
  obtain ⟨hi, hget⟩ := List.getElem?_eq_some_iff.1 h
  rw [← hget, List.set_getElem_self hi, mk_eta]

/-- The fields after one of them is put in the place of another. -/
theorem fieldHolds_of_mem_set {t : FieldTree} {f : Field} (ht : t.Everywhere (LevelHolds P Q))
    (hf : FieldHolds P Q f) (i : Nat) : ∀ g ∈ t.entries.set i f, FieldHolds P Q g := by
  intro g hg
  rcases List.mem_or_eq_of_mem_set hg with hg | rfl
  · exact (everywhere_levelHolds_iff.1 ht).2 g hg
  · exact hf

namespace LevelInvariant

variable (h : LevelInvariant P Q) {t : FieldTree} {f : Field} {p : Payload}

include h

/-! ## Operations on one level -/

theorem holds_empty : FieldTree.empty.Everywhere (LevelHolds P Q) := by
  refine everywhere_levelHolds_iff.2 ⟨h.reindexed ⟨[], none⟩, ?_⟩
  intro f hf
  cases hf

theorem holds_reindexed (hf : ∀ f ∈ t.entries, FieldHolds P Q f) :
    t.reindexed.Everywhere (LevelHolds P Q) :=
  everywhere_levelHolds_iff.2 ⟨h.reindexed t, hf⟩

theorem holds_dropped {fields : List Field} (hf : ∀ f ∈ fields, FieldHolds P Q f) :
    (FieldTree.mk fields none).Everywhere (LevelHolds P Q) :=
  everywhere_levelHolds_iff.2 ⟨h.dropped fields, hf⟩

theorem holds_indexed (ht : t.Everywhere (LevelHolds P Q)) :
    t.indexed.Everywhere (LevelHolds P Q) := by
  unfold indexed
  split
  · exact ht
  · exact h.holds_reindexed (everywhere_levelHolds_iff.1 ht).2

theorem holds_push (ht : t.Everywhere (LevelHolds P Q)) (hf : FieldHolds P Q f) :
    (t.push f).Everywhere (LevelHolds P Q) := by
  obtain ⟨hP, hfields⟩ := everywhere_levelHolds_iff.1 ht
  refine everywhere_levelHolds_iff.2 ⟨h.push t f hP, ?_⟩
  intro g hg
  rw [entries_push] at hg
  rcases List.mem_append.1 hg with hg | hg
  · exact hfields g hg
  · rw [List.mem_singleton.1 hg]
    exact hf

theorem holds_extend {fields : List Field} (ht : t.Everywhere (LevelHolds P Q))
    (hf : ∀ f ∈ fields, FieldHolds P Q f) : (t.extend fields).Everywhere (LevelHolds P Q) := by
  induction fields generalizing t with
  | nil => exact ht
  | cons f rest ih =>
    have hfirst := h.holds_push ht (hf f List.mem_cons_self)
    exact ih hfirst fun g hg => hf g (List.mem_cons_of_mem _ hg)

theorem holds_ofList {fields : List Field} (hf : ∀ f ∈ fields, FieldHolds P Q f) :
    (ofList fields).Everywhere (LevelHolds P Q) :=
  h.holds_extend h.holds_empty hf

theorem fieldHolds_make {name : String} (hp : p.Everywhere (LevelHolds P Q))
    (hm : Field.make name p = .ok f) : FieldHolds P Q f := by
  refine ⟨h.make name p f hm, ?_⟩
  obtain ⟨checked, -, rfl⟩ := exists_of_map_eq_ok hm
  exact hp

theorem fieldHolds_rename (hf : FieldHolds P Q f) (name : String) :
    FieldHolds P Q (f.rename name).after := by
  refine ⟨h.rename f name hf.1, ?_⟩
  rw [payload_rename]
  exact hf.2

theorem fieldHolds_setPayload (hf : FieldHolds P Q f) (hp : p.Everywhere (LevelHolds P Q)) :
    FieldHolds P Q { f with payload := p } :=
  ⟨h.setPayload f p hf.1, hp⟩

theorem holds_add (ht : t.Everywhere (LevelHolds P Q)) (hp : p.Everywhere (LevelHolds P Q))
    (name : String) : (t.add name p).after.Everywhere (LevelHolds P Q) := by
  unfold FieldTree.add
  split
  · next f hf => exact h.holds_push ht (h.fieldHolds_make hp hf)
  · exact ht

theorem holds_insert (ht : t.Everywhere (LevelHolds P Q)) (hf : FieldHolds P Q f) (i : Nat) :
    (t.insert i f).after.Everywhere (LevelHolds P Q) := by
  unfold FieldTree.insert
  split
  · exact ht
  · next hi =>
    refine h.holds_reindexed ?_
    intro g hg
    rcases (List.mem_insertIdx (Nat.not_lt.1 hi)).1 hg with rfl | hg
    · exact hf
    · exact (everywhere_levelHolds_iff.1 ht).2 g hg

theorem holds_removeAt (ht : t.Everywhere (LevelHolds P Q)) (i : Nat) :
    (t.removeAt i).after.Everywhere (LevelHolds P Q) := by
  unfold removeAt
  split
  · exact ht
  · exact h.holds_reindexed fun g hg =>
      (everywhere_levelHolds_iff.1 ht).2 g (List.mem_of_mem_eraseIdx hg)

theorem holds_remove (ht : t.Everywhere (LevelHolds P Q)) (name : String) :
    (t.remove name).2.Everywhere (LevelHolds P Q) := by
  unfold FieldTree.remove
  simp only
  split
  · exact ht
  · exact h.holds_reindexed fun g hg =>
      (everywhere_levelHolds_iff.1 ht).2 g (List.mem_filter.1 hg).1

theorem holds_rename (ht : t.Everywhere (LevelHolds P Q)) (i : Nat) (name : String) :
    (t.rename i name).after.Everywhere (LevelHolds P Q) := by
  unfold FieldTree.rename
  split
  · exact ht
  · next f hf =>
    have hfield := (everywhere_levelHolds_iff.1 ht).2 f (List.mem_of_getElem? hf)
    simp only
    split
    · exact h.holds_reindexed (fieldHolds_of_mem_set ht (h.fieldHolds_rename hfield name) i)
    · next e he =>
      -- a refused name puts the field back as it was
      rw [Edit.after_refused, after_rename_of_refused he, mk_set_self hf]
      exact ht

theorem holds_editAt {α : Type} {change : Field → α × Field}
    (ht : t.Everywhere (LevelHolds P Q)) (i : Nat)
    (hc : ∀ f ∈ t.entries, FieldHolds P Q (change f).2) :
    (t.editAt i change).2.Everywhere (LevelHolds P Q) := by
  have hindexed := h.holds_indexed ht
  unfold editAt
  simp only
  split
  · exact hindexed
  · next f hf =>
    refine h.holds_dropped (fieldHolds_of_mem_set hindexed (hc f ?_) i)
    rw [← entries_indexed t]
    exact List.mem_of_getElem? hf

theorem holds_editFirst {α : Type} {change : Field → α × Field}
    (ht : t.Everywhere (LevelHolds P Q)) (name : String)
    (hc : ∀ f ∈ t.entries, FieldHolds P Q (change f).2) :
    (t.editFirst name change).2.Everywhere (LevelHolds P Q) := by
  have hindexed := h.holds_indexed ht
  unfold editFirst
  simp only
  split
  · exact hindexed
  · refine h.holds_editAt hindexed _ ?_
    rw [entries_indexed]
    exact hc

/-! ## Operations along a path -/

theorem holds_withPayload (ht : t.Everywhere (LevelHolds P Q))
    (hp : p.Everywhere (LevelHolds P Q)) (i : Nat) :
    (t.withPayload i p).Everywhere (LevelHolds P Q) := by
  obtain ⟨hP, hfields⟩ := everywhere_levelHolds_iff.1 ht
  refine everywhere_levelHolds_iff.2 ⟨h.withPayload t i p hP, ?_⟩
  intro f hf
  rcases mem_withPayload hf with hf | ⟨g, hg, rfl⟩
  · exact hfields f hf
  · exact h.fieldHolds_setPayload (hfields g hg) hp

theorem holds_write (hp : p.Everywhere (LevelHolds P Q)) (path : String) (names : List String)
    (ht : t.Everywhere (LevelHolds P Q)) :
    (write path p names t).after.Everywhere (LevelHolds P Q) := by
  fun_induction write path p names t with
  | case1 t => exact ht
  | case2 leaf t i hi => exact h.holds_withPayload ht hp i
  | case3 leaf t hi => exact h.holds_add ht hp leaf
  | case4 name rest t hrest i hi nested hn ih =>
    obtain ⟨f, hf, hpayload⟩ := Option.map_eq_some_iff.1 hn
    have hfield := (everywhere_levelHolds_iff.1 ht).2 f (List.mem_of_getElem? hf)
    have hnested := hfield.2 nested hpayload
    exact h.holds_withPayload ht (Payload.everywhere_tree.2 (ih hnested)) i
  | case5 name rest t hrest i hi hn => exact ht
  | case6 name rest t hrest hi made e he =>
    exact h.holds_add ht (Payload.everywhere_tree.2 h.holds_empty) name
  | case7 name rest t hrest hi made a ha ih =>
    have hmade := h.holds_add ht (Payload.everywhere_tree.2 h.holds_empty) name
    exact h.holds_withPayload hmade (Payload.everywhere_tree.2 (ih h.holds_empty)) t.size

theorem holds_set (ht : t.Everywhere (LevelHolds P Q)) (hp : p.Everywhere (LevelHolds P Q))
    (path : String) : (t.set path p).after.Everywhere (LevelHolds P Q) := by
  unfold FieldTree.set
  split
  · exact ht
  · exact h.holds_write hp path (Path.segments path) ht

theorem holds_takeOut (ht : t.Everywhere (LevelHolds P Q)) (names : List String) :
    (takeOut names t).2.Everywhere (LevelHolds P Q) := by
  fun_induction takeOut names t with
  | case1 t => exact ht
  | case2 leaf t hi => exact ht
  | case3 leaf t i hi => exact h.holds_removeAt ht i
  | case4 name rest t hrest hi => exact ht
  | case5 name rest t hrest i hi nested hn taken ih =>
    obtain ⟨f, hf, hpayload⟩ := Option.map_eq_some_iff.1 hn
    have hfield := (everywhere_levelHolds_iff.1 ht).2 f (List.mem_of_getElem? hf)
    have hnested := hfield.2 nested hpayload
    exact h.holds_withPayload ht (Payload.everywhere_tree.2 (ih hnested)) i
  | case6 name rest t hrest i hi hn => exact ht

theorem holds_removePath (ht : t.Everywhere (LevelHolds P Q)) (path : String) :
    (t.removePath path).2.Everywhere (LevelHolds P Q) :=
  h.holds_takeOut ht (Path.segments path)

/-! ## Whole runs -/

theorem fieldHolds_setTags {tags : TagSet} (hf : FieldHolds P Q f) (ht : tags.Reachable) :
    FieldHolds P Q { f with tags := tags } :=
  ⟨h.setTags f tags hf.1 ht, hf.2⟩

theorem madeByReading : Stored.MadeByReading (FieldHolds P Q) := by
  intro name payload f tags hp hm ht
  have hpayload : payload.Everywhere (LevelHolds P Q) := by
    cases hp with
    | value v => exact Payload.everywhere_value v
    | tree hf => exact Payload.everywhere_tree.2 (h.holds_ofList hf)
  exact h.fieldHolds_setTags (h.fieldHolds_make hpayload hm) ht

theorem holds_readTree {j : Json} (hj : Stored.readTree j = .ok t) :
    t.Everywhere (LevelHolds P Q) := by
  obtain ⟨fields, rfl, hf⟩ := Stored.exists_fields_of_readTree h.madeByReading hj
  exact h.holds_ofList hf

omit h

mutual

/-- What a payload that callers can build holds satisfies an invariant. -/
theorem holds_of_payload (h : LevelInvariant P Q) :
    ∀ {p : Payload}, p.Reachable → p.Everywhere (LevelHolds P Q)
  | _, .value v => Payload.everywhere_value v
  | _, .tree ht => Payload.everywhere_tree.2 (holds_of_reachable h ht)

/-- A field that callers can build satisfies an invariant. -/
theorem holds_of_field (h : LevelInvariant P Q) : ∀ {f : Field}, f.Reachable → FieldHolds P Q f
  | _, .make hp hm | _, .makeHeader hp hm => h.fieldHolds_make (holds_of_payload h hp) hm
  | _, .rename hf name => h.fieldHolds_rename (holds_of_field h hf) name
  | _, .setPayload hf hp => h.fieldHolds_setPayload (holds_of_field h hf) (holds_of_payload h hp)
  | _, .setTags hf ht => h.fieldHolds_setTags (holds_of_field h hf) ht
  | _, .member ht hf => (everywhere_levelHolds_iff.1 (holds_of_reachable h ht)).2 _ hf
  | _, .stored hj => Stored.readField_satisfies h.madeByReading hj

/-- **An invariant holds on every level of every tree that callers can build.** -/
theorem holds_of_reachable (h : LevelInvariant P Q) :
    ∀ {t : FieldTree}, t.Reachable → t.Everywhere (LevelHolds P Q)
  | _, .empty => h.holds_empty
  | _, .ofList hf => h.holds_ofList fun f hm => holds_of_field h (hf f hm)
  | _, .stored hj => h.holds_readTree hj
  | _, .nested hf hp => (holds_of_field h hf).2 _ hp
  | _, .change ht hc => holds_of_change h (holds_of_reachable h ht) hc

/-- One operation keeps an invariant. -/
theorem holds_of_change (h : LevelInvariant P Q) :
    ∀ {t t' : FieldTree}, t.Everywhere (LevelHolds P Q) → FieldTree.Change t t' →
      t'.Everywhere (LevelHolds P Q)
  | _, _, ht, .push hf => h.holds_push ht (holds_of_field h hf)
  | _, _, ht, .add name hp => h.holds_add ht (holds_of_payload h hp) name
  | _, _, ht, .extend hf => h.holds_extend ht fun f hm => holds_of_field h (hf f hm)
  | _, _, ht, .insert i hf => h.holds_insert ht (holds_of_field h hf) i
  | _, _, ht, .removeAt i => h.holds_removeAt ht i
  | _, _, ht, .remove name => h.holds_remove ht name
  | _, _, ht, .rename i name => h.holds_rename ht i name
  | _, _, ht, .set path hp => h.holds_set ht (holds_of_payload h hp) path
  | _, _, ht, .removePath path => h.holds_removePath ht path
  | _, _, ht, .editAt i hf => h.holds_editAt ht i fun f hm => holds_of_field h (hf f hm)
  | _, _, ht, .editFirst name hf => h.holds_editFirst ht name fun f hm => holds_of_field h (hf f hm)

end

end LevelInvariant

end MessageScript
