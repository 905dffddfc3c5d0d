import MessageScript.Proofs.Field.Coherence

/-!
# The place a name is written to

A level is indexed (`Indexed`) if it has its index and the index is right.  Writing under a name
takes place at the first field with its key; where there is none, a field is appended first
(`PlaceFor`).  What other keys find stays the same, and the level keeps its fields, at most one more
behind them (`Grows`).

    PlaceFor name p t t₁ i → (t₁.withPayload i q).findFirst? name' = t.findFirst? name'
      for a name' with another key                                   (PlaceFor.findFirst?_of_ne)
-/

namespace MessageScript.FieldTree

variable {t t₁ : FieldTree} {i j : Nat} {name name' : String} {p q : Payload}

/-! ## New payloads on a level -/

theorem scan_eq_of_names {l l' : List Field} (h : l.map Field.name = l'.map Field.name)
    (name : String) (start : Nat) : scan name start l = scan name start l' := by
  rw [scan_eq_findIdxs, scan_eq_findIdxs]
  have hmap : ∀ l : List Field, l.findIdxs (fun f => Name.agree f.name name) start =
      (l.map Field.name).findIdxs (fun n => Name.agree n name) start := by
    intro l
    rw [List.findIdxs_map]
    rfl
  rw [hmap l, hmap l', h]

theorem positions_withPayload (t : FieldTree) (i : Nat) (p : Payload) (name : String) :
    (t.withPayload i p).positions name = t.positions name := by
  have hindex : (t.withPayload i p).index = t.index := rfl
  unfold positions
  rw [hindex]
  cases t.index with
  | some ix => rfl
  | none => exact scan_eq_of_names (names_withPayload t i p) _ _

theorem firstPosition?_withPayload (t : FieldTree) (i : Nat) (p : Payload) (name : String) :
    (t.withPayload i p).firstPosition? name = t.firstPosition? name := by
  unfold firstPosition?
  rw [positions_withPayload]

theorem get?_withPayload_self {f : Field} (h : t.get? i = some f) (p : Payload) :
    (t.withPayload i p).get? i = some { f with payload := p } := by
  rw [get?] at h
  rw [get?, withPayload, List.getElem?_modify_eq, h]
  rfl

theorem get?_withPayload_ne (h : i ≠ j) (p : Payload) : (t.withPayload i p).get? j = t.get? j := by
  rw [get?, withPayload]
  exact List.getElem?_modify_ne _ _ h

theorem entries_withPayload {f : Field} (h : t.get? i = some f) (p : Payload) :
    (t.withPayload i p).entries = t.entries.set i { f with payload := p } := by
  rw [get?] at h
  rw [withPayload, List.modify_eq_set_getElem?, h]
  rfl

/-- A payload that is put where it was leaves the tree as it was. -/
theorem withPayload_self {f : Field} (h : t.get? i = some f) :
    t.withPayload i f.payload = t := by
  obtain ⟨name, payload, tags⟩ := f
  rw [← mk_eta (t.withPayload i payload), entries_withPayload h]
  exact mk_set_self h

theorem withPayload_withPayload (t : FieldTree) (i : Nat) (p q : Payload) :
    (t.withPayload i p).withPayload i q = t.withPayload i q := by
  unfold withPayload
  rw [List.modify_modify_eq]
  rfl

theorem size_withPayload (t : FieldTree) (i : Nat) (p : Payload) :
    (t.withPayload i p).size = t.size := by
  rw [size, size, withPayload]
  exact List.length_modify ..

theorem modify_append_singleton {α : Type} (l : List α) (a : α) (g : α → α) :
    (l ++ [a]).modify l.length g = l ++ [g a] := by
  induction l with
  | nil => rfl
  | cons b rest ih => rw [List.cons_append, List.length_cons, List.modify_succ_cons, ih]; rfl

/-- A field that is appended and written into is the field with what was written, appended. -/
theorem withPayload_push (t : FieldTree) (f : Field) (p : Payload) :
    (t.push f).withPayload t.size p = t.push { f with payload := p } := by
  have hentries : (t.push f).entries.modify t.size (fun g => { g with payload := p }) =
      (t.push { f with payload := p }).entries := by
    rw [entries_push, entries_push]
    exact modify_append_singleton t.entries f _
  rw [withPayload, hentries]
  rfl

/-! ## Levels with an index -/

/-- Whether a level has its index, and the index is right. -/
structure Indexed (t : FieldTree) : Prop where
  present : t.index.isSome = true
  coherent : t.Coherent

/-- Where callers have left an index it is right. -/
theorem Reachable.everywhere_indexed (ht : t.Reachable)
    (hindex : t.Everywhere fun s => s.index.isSome = true) : t.Everywhere Indexed :=
  fun s hs => ⟨hindex s hs, coherent_of_reachable ht s hs⟩

theorem indexed_empty : empty.Indexed := ⟨rfl, coherent_reindexed ⟨[], none⟩⟩

namespace Indexed

variable (ht : t.Indexed)

include ht

theorem push (f : Field) : (t.push f).Indexed := by
  refine ⟨?_, ht.coherent.push f⟩
  have hindexed : t.indexed = t := by
    unfold FieldTree.indexed
    split
    · rfl
    · next h =>
      have hpresent := ht.present
      rw [h] at hpresent
      cases hpresent
  rw [FieldTree.push, Option.isSome_map, hindexed]
  exact ht.present

theorem withPayload (i : Nat) (p : Payload) : (t.withPayload i p).Indexed :=
  ⟨ht.present, ht.coherent.withPayload i p⟩

theorem firstPosition?_eq (name : String) :
    t.firstPosition? name = t.entries.findIdx? fun f => Name.key f.name == Name.key name := by
  rw [firstPosition?_eq_findIdx? ht.coherent, picks_of_index ht.present]

/-- Lookups go by the key of the name. -/
theorem firstPosition?_congr (h : Name.key name = Name.key name') :
    t.firstPosition? name = t.firstPosition? name' := by
  rw [ht.firstPosition?_eq, ht.firstPosition?_eq, h]

theorem exists_of_firstPosition? (h : t.firstPosition? name = some i) :
    ∃ f, t.get? i = some f ∧ Name.key f.name = Name.key name := by
  rw [ht.firstPosition?_eq, List.findIdx?_eq_some_iff_getElem] at h
  obtain ⟨hi, hkey, -⟩ := h
  exact ⟨t.entries[i], List.getElem?_eq_getElem hi, beq_iff_eq.1 hkey⟩

/-- An appended field is found by its key unless another stands before it. -/
theorem firstPosition?_push (f : Field) (name : String) : (t.push f).firstPosition? name =
    (t.firstPosition? name).or (if Name.key f.name = Name.key name then some t.size else none) := by
  rw [(ht.push f).firstPosition?_eq, ht.firstPosition?_eq, entries_push, List.findIdx?_append,
    List.findIdx?_singleton, size]
  by_cases hkey : Name.key f.name = Name.key name
  · simp [hkey]
  · simp [hkey]

end Indexed

/-! ## Levels that grow -/

/-- Whether a level keeps its fields' positions, names and tags, and has at most one more. -/
structure Grows (t t' : FieldTree) : Prop where
  at_most_one : t'.size ≤ t.size + 1
  keeps : ∀ i f, t.get? i = some f → ∃ f', t'.get? i = some f' ∧ f'.name = f.name ∧ f'.tags = f.tags

theorem Grows.refl (t : FieldTree) : t.Grows t :=
  ⟨Nat.le_succ _, fun _ f hf => ⟨f, hf, rfl, rfl⟩⟩

theorem get?_push_of_ne (t : FieldTree) (f : Field) (h : j ≠ t.size) :
    (t.push f).get? j = t.get? j := by
  rw [get?, get?, entries_push]
  rcases Nat.lt_or_ge j t.size with hlt | hge
  · exact List.getElem?_append_left hlt
  · have hsize : t.size = t.entries.length := rfl
    rw [List.getElem?_eq_none (by rw [List.length_append, List.length_singleton]; omega),
      List.getElem?_eq_none hge]

theorem get?_size (t : FieldTree) : t.get? t.size = none := List.getElem?_eq_none (Nat.le_refl _)

theorem grows_push (t : FieldTree) (f : Field) : t.Grows (t.push f) := by
  constructor
  · rw [size, entries_push, List.length_append]
    exact Nat.le_refl _
  · intro j g hg
    refine ⟨g, ?_, rfl, rfl⟩
    rw [get?_push_of_ne t f, hg]
    rintro rfl
    rw [get?_size] at hg
    cases hg

theorem Grows.withPayload (h : t.Grows t₁) (i : Nat) (p : Payload) :
    t.Grows (t₁.withPayload i p) := by
  constructor
  · rw [size_withPayload]
    exact h.at_most_one
  · intro j f hf
    obtain ⟨f', hf', hname, htags⟩ := h.keeps j f hf
    by_cases hij : i = j
    · subst hij
      exact ⟨_, get?_withPayload_self hf' p, hname, htags⟩
    · exact ⟨f', by rw [get?_withPayload_ne hij, hf'], hname, htags⟩

/-! ## The place for a name -/

/-- The level `t₁` is `t` with a field to write a payload under a name into, at `i`: the first one
with the key, or one with the payload that is appended. -/
inductive PlaceFor (name : String) (p : Payload) : FieldTree → FieldTree → Nat → Prop
  | found {t : FieldTree} {i : Nat} (h : t.firstPosition? name = some i) : PlaceFor name p t t i
  | made {t : FieldTree} (h : t.firstPosition? name = none) (hname : Name.fieldFault? name = none) :
    PlaceFor name p t (t.push ⟨name, p, TagSet.empty⟩) t.size

namespace PlaceFor

theorem grows (h : PlaceFor name p t t₁ i) : t.Grows t₁ := by
  cases h with
  | found _ => exact .refl t
  | made _ _ => exact grows_push t _

theorem get?_of_ne (h : PlaceFor name p t t₁ i) (hij : i ≠ j) : t₁.get? j = t.get? j := by
  cases h with
  | found _ => rfl
  | made _ _ => exact get?_push_of_ne t _ hij.symm

/-- What is written does not matter to the place. -/
theorem exists_other (h : PlaceFor name p t t₁ i) (q : Payload) :
    ∃ t₂, PlaceFor name q t t₂ i ∧ ∀ r, t₂.withPayload i r = t₁.withPayload i r := by
  cases h with
  | found hi => exact ⟨t, .found hi, fun _ => rfl⟩
  | made hi hname =>
    refine ⟨_, .made hi hname, ?_⟩
    intro r
    rw [withPayload_push, withPayload_push]

section Indexed

variable (ht : t.Indexed) (h : PlaceFor name p t t₁ i)

include ht h

theorem indexed : t₁.Indexed := by
  cases h with
  | found _ => exact ht
  | made _ _ => exact ht.push _

/-- The name, and every other with its key, leads to the place. -/
theorem firstPosition?_eq (hkey : Name.key name' = Name.key name) :
    t₁.firstPosition? name' = some i := by
  rw [(h.indexed ht).firstPosition?_congr hkey]
  cases h with
  | found hi => exact hi
  | made hi _ =>
    rw [ht.firstPosition?_push, hi, if_pos rfl]
    rfl

theorem exists_field : ∃ f, t₁.get? i = some f ∧ Name.key f.name = Name.key name :=
  (h.indexed ht).exists_of_firstPosition? (h.firstPosition?_eq ht rfl)

/-- A name with another key leads past the place. -/
theorem findFirst?_of_ne (hkey : Name.key name' ≠ Name.key name) :
    (t₁.withPayload i q).findFirst? name' = t.findFirst? name' := by
  have hfirst : t₁.firstPosition? name' = t.firstPosition? name' := by
    cases h with
    | found _ => rfl
    | made _ _ => rw [ht.firstPosition?_push, if_neg (Ne.symm hkey), Option.or_none]
  rw [findFirst?, findFirst?, firstPosition?_withPayload, hfirst]
  cases hj : t.firstPosition? name' with
  | none => rfl
  | some j =>
    -- the field at the place has the one key, the field at `j` the other
    have hij : i ≠ j := by
      rintro rfl
      obtain ⟨f, hf, hfkey⟩ := h.exists_field ht
      obtain ⟨g, hg, hgkey⟩ := (h.indexed ht).exists_of_firstPosition? (hfirst.trans hj)
      rw [hf] at hg
      cases hg
      exact hkey (hgkey.symm.trans hfkey)
    show (t₁.withPayload i q).get? j = t.get? j
    rw [get?_withPayload_ne hij, h.get?_of_ne hij]

/-- What is written is found by the name. -/
theorem findFirst?_self {f : Field} (hf : t₁.get? i = some f)
    (hkey : Name.key name' = Name.key name) :
    (t₁.withPayload i q).findFirst? name' = some { f with payload := q } := by
  rw [findFirst?, firstPosition?_withPayload, h.firstPosition?_eq ht hkey]
  exact get?_withPayload_self hf q

end Indexed

end PlaceFor

end MessageScript.FieldTree
