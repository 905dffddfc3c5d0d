import MessageScript.Proofs.Field.Coherence
import MessageScript.Proofs.Field.Same
import MessageScript.Proofs.Name

/-!
# Lookups with and without an index

A search without an index asks whether a field's name agrees with the key of the name searched for;
an index compares two keys.  That is the same for fields in whose names no capital sigma ends a
word, and then no lookup tells whether there is an index.  A field such as `ΑΣ` is found by its
index only.

    the lookups in each level of `t` answer the same in any tree that is the same, indexed or not ↔
      no capital sigma ends a word in a name on any level of `t`            (sameLookups_iff)
-/

namespace MessageScript

/-! ## Fields that are the same, one by one -/

section Forall₂

variable {α : Type} {R : α → α → Prop} {l l' : List α}

theorem rel_head? (h : List.Forall₂ R l l') : Option.Rel R l.head? l'.head? := by
  cases h with
  | nil => exact .none
  | cons h _ => exact .some h

theorem rel_getLast? (h : List.Forall₂ R l l') : Option.Rel R l.getLast? l'.getLast? := by
  rw [List.getLast?_eq_head?_reverse, List.getLast?_eq_head?_reverse]
  exact rel_head? (List.rel_reverse h)

theorem isSome_eq_of_rel {a a' : Option α} (h : Option.Rel R a a') : a.isSome = a'.isSome := by
  cases h with
  | none => rfl
  | some _ => rfl

/-- What is looked up further in answers that are related is related. -/
theorem rel_bind {β : Type} {S : β → β → Prop} {a a' : Option α} {f f' : α → Option β}
    (h : Option.Rel R a a')
    (hf : ∀ x x', a = some x → a' = some x' → R x x' → Option.Rel S (f x) (f' x')) :
    Option.Rel S (a.bind f) (a'.bind f') := by
  cases h with
  | none => exact .none
  | some hr => exact hf _ _ rfl rfl hr

end Forall₂

namespace FieldTree

variable {t t' : FieldTree}

/-- Whether the lookups in two trees answer the same. -/
structure SameLookups (t t' : FieldTree) : Prop where
  first : ∀ name, Option.Rel Field.Same (t.findFirst? name) (t'.findFirst? name)
  last : ∀ name, Option.Rel Field.Same (t.findLast? name) (t'.findLast? name)
  all : ∀ name, List.Forall₂ Field.Same (t.findAll name) (t'.findAll name)
  contains : ∀ name, t.contains name = t'.contains name
  path : ∀ path, Option.Rel Field.Same (t.fieldAt? path) (t'.fieldAt? path)

/-- Whether no capital sigma ends a word in the names of a level. -/
def NoFinalCapital (t : FieldTree) : Prop :=
  ∀ f ∈ t.entries, Name.hasFinalCapital f.name = false

/-- Then a lookup compares keys, with an index or without. -/
theorem picks_eq_of_noFinalCapital (ht : t.NoFinalCapital) {f : Field} (hf : f ∈ t.entries)
    (name : String) : t.picks name f = (Name.key f.name == Name.key name) := by
  cases hix : t.index with
  | some ix => rw [picks_of_index (by rw [hix]; rfl)]
  | none =>
    rw [picks_of_no_index hix, Bool.eq_iff_iff, beq_iff_eq]
    exact Name.agree_key_iff_key_eq (ht f hf)

theorem findAll_eq_of_noFinalCapital (hc : t.Coherent) (ht : t.NoFinalCapital) (name : String) :
    t.findAll name = t.entries.filter fun f => Name.key f.name == Name.key name := by
  rw [findAll_eq_filter hc]
  apply List.filter_congr
  intro f hf
  exact picks_eq_of_noFinalCapital ht hf name

theorem findFirst?_eq_head?_findAll (hc : t.Coherent) (name : String) :
    t.findFirst? name = (t.findAll name).head? := by
  rw [findFirst?_eq_find? hc, findAll_eq_filter hc, List.head?_filter]

theorem findLast?_eq_getLast?_findAll (hc : t.Coherent) (name : String) :
    t.findLast? name = (t.findAll name).getLast? := by
  rw [findLast?_eq_getLast? hc, findAll_eq_filter hc]

theorem contains_eq_isSome_findFirst? (hc : t.Coherent) (name : String) :
    t.contains name = (t.findFirst? name).isSome := by
  rw [contains_eq_any hc, findFirst?_eq_find? hc, List.isSome_find?]

theorem map_name_eq_of_same {l l' : List Field} (h : List.Forall₂ Field.Same l l') :
    l.map Field.name = l'.map Field.name := by
  induction h with
  | nil => rfl
  | cons hf _ ih => rw [List.map_cons, List.map_cons, hf.name_eq, ih]

theorem names_eq_of_same (h : t.same t' = true) : t.names = t'.names :=
  map_name_eq_of_same (same_iff.1 h)

theorem noFinalCapital_iff_names :
    t.NoFinalCapital ↔ ∀ name ∈ t.names, Name.hasFinalCapital name = false := by
  rw [names, List.forall_mem_map]
  rfl

theorem NoFinalCapital.of_same (ht : t.NoFinalCapital) (h : t.same t' = true) :
    t'.NoFinalCapital := by
  rw [noFinalCapital_iff_names] at ht ⊢
  rw [← names_eq_of_same h]
  exact ht

/-! ## One name -/

theorem findAll_same (hc : t.Coherent) (hc' : t'.Coherent) (ht : t.NoFinalCapital)
    (h : t.same t' = true) (name : String) :
    List.Forall₂ Field.Same (t.findAll name) (t'.findAll name) := by
  rw [findAll_eq_of_noFinalCapital hc ht, findAll_eq_of_noFinalCapital hc' (ht.of_same h)]
  refine List.rel_filter ?_ (same_iff.1 h)
  intro f g hfg
  show _ = true ↔ _ = true
  rw [hfg.name_eq]

theorem findFirst?_same (hc : t.Coherent) (hc' : t'.Coherent) (ht : t.NoFinalCapital)
    (h : t.same t' = true) (name : String) :
    Option.Rel Field.Same (t.findFirst? name) (t'.findFirst? name) := by
  rw [findFirst?_eq_head?_findAll hc, findFirst?_eq_head?_findAll hc']
  exact rel_head? (findAll_same hc hc' ht h name)

/-! ## Paths -/

/-- Names lead to the same field: on each level the first field with the name is the same. -/
theorem follow?_same (names : List String) (hc : t.Everywhere Coherent)
    (hc' : t'.Everywhere Coherent) (ht : t.Everywhere NoFinalCapital) (h : t.same t' = true) :
    Option.Rel Field.Same (follow? names t) (follow? names t') := by
  -- level by level: the first fields found are the same, so the trees in them are
  induction names generalizing t t' with
  | nil => exact .none
  | cons name rest ih =>
    have hfirst := findFirst?_same hc.here hc'.here ht.here h name
    by_cases hrest : rest = []
    · subst hrest
      exact hfirst
    rw [follow?_cons hrest, follow?_cons hrest, Option.bind_assoc, Option.bind_assoc]
    refine rel_bind hfirst ?_
    intro f f' hf hf' hsame
    refine rel_bind hsame.rel_tree? ?_
    intro nested nested' hn hn' hnested
    have hpayload := Payload.eq_tree_of_tree? hn
    have hpayload' := Payload.eq_tree_of_tree? hn'
    exact ih (hc.payload (mem_of_findFirst? hf) nested hpayload)
      (hc'.payload (mem_of_findFirst? hf') nested' hpayload')
      (ht.payload (mem_of_findFirst? hf) nested hpayload) hnested

theorem sameLookups_of_same (hc : t.Everywhere Coherent) (hc' : t'.Everywhere Coherent)
    (ht : t.Everywhere NoFinalCapital) (h : t.same t' = true) : SameLookups t t' where
  first := findFirst?_same hc.here hc'.here ht.here h
  last name := by
    rw [findLast?_eq_getLast?_findAll hc.here, findLast?_eq_getLast?_findAll hc'.here]
    exact rel_getLast? (findAll_same hc.here hc'.here ht.here h name)
  all := findAll_same hc.here hc'.here ht.here h
  contains name := by
    rw [contains_eq_isSome_findFirst? hc.here, contains_eq_isSome_findFirst? hc'.here]
    exact isSome_eq_of_rel (findFirst?_same hc.here hc'.here ht.here h name)
  path path := follow?_same (Path.segments path) hc hc' ht h

/-! ## Trees that were handed out -/

/-- A field that is handed out and not changed is as it was. -/
@[simp] theorem entries_editAt_unchanged (t : FieldTree) (i : Nat) :
    (t.editAt i fun f => ((), f)).2.entries = t.entries := by
  unfold editAt
  simp only
  split
  · exact entries_indexed t
  · next f hf =>
    obtain ⟨hi, hget⟩ := List.getElem?_eq_some_iff.1 hf
    rw [← hget]
    simp

theorem index_editAt_of_lt {i : Nat} (h : i < t.size) :
    (t.editAt i fun f => ((), f)).2.index = none := by
  unfold editAt
  have hget : t.indexed.get? i = some t.entries[i] := by
    rw [get?, entries_indexed]
    exact List.getElem?_eq_getElem h
  simp only [hget]

theorem isSome_index_editAt_size (t : FieldTree) :
    (t.editAt t.size fun f => ((), f)).2.index.isSome = true := by
  unfold editAt
  have hget : t.indexed.get? t.size = none := by
    rw [get?, entries_indexed]
    exact List.getElem?_eq_none (Nat.le_refl _)
  simp only [hget]
  exact isSome_index_indexed t

theorem Reachable.editAt_unchanged (ht : t.Reachable) (i : Nat) :
    (t.editAt i fun f => ((), f)).2.Reachable :=
  .change ht (.editAt i fun _ hf => .member ht hf)

theorem same_editAt_unchanged (t : FieldTree) (i : Nat) :
    t.same (t.editAt i fun f => ((), f)).2 = true :=
  same_of_entries_eq (entries_editAt_unchanged t i).symm

theorem mem_findAll_self_of_index (hc : t.Coherent) (hix : t.index.isSome = true) {f : Field}
    (hf : f ∈ t.entries) : f ∈ t.findAll f.name := by
  rw [findAll_eq_filter hc, picks_of_index hix]
  exact List.mem_filter.2 ⟨hf, beq_self_eq_true _⟩

/-- Without an index a field is found by its own name unless a capital sigma ends a word there. -/
theorem mem_findAll_self_of_no_index (hc : t.Coherent) (hix : t.index = none) {f : Field}
    (hf : f ∈ t.entries) : f ∈ t.findAll f.name ↔ Name.hasFinalCapital f.name = false := by
  rw [findAll_eq_filter hc, picks_of_no_index hix, List.mem_filter, Name.agree_key_self_iff]
  constructor
  · intro h
    exact h.2
  · intro h
    exact ⟨hf, h⟩

/-- If no lookup tells a level from those that are the same, no capital sigma ends a word in its
names: with its index built and dropped it finds the same fields by their names. -/
theorem noFinalCapital_of_sameLookups (ht : t.Reachable)
    (h : ∀ s : FieldTree, s.Reachable → t.same s = true → SameLookups t s) : t.NoFinalCapital := by
  have hnames : ∀ i name, (t.findAll name).map Field.name =
      ((t.editAt i fun f => ((), f)).2.findAll name).map Field.name := by
    intro i name
    apply map_name_eq_of_same
    exact (h _ (ht.editAt_unchanged i) (same_editAt_unchanged t i)).all name
  intro f hf
  obtain ⟨i, hi, -⟩ := List.mem_iff_getElem.1 hf
  -- an edit behind the last field builds the index, one of a field drops it
  have hbuilt := (coherent_of_reachable (ht.editAt_unchanged t.size)).here
  have hdropped := (coherent_of_reachable (ht.editAt_unchanged i)).here
  have hfound : f ∈ (t.editAt t.size fun f => ((), f)).2.findAll f.name := by
    apply mem_findAll_self_of_index hbuilt (isSome_index_editAt_size t)
    rw [entries_editAt_unchanged]
    exact hf
  have hname : f.name ∈ ((t.editAt i fun f => ((), f)).2.findAll f.name).map Field.name := by
    rw [← hnames i, hnames t.size]
    exact List.mem_map_of_mem hfound
  obtain ⟨g, hg, hgname⟩ := List.mem_map.1 hname
  rw [findAll_eq_filter hdropped, picks_of_no_index (index_editAt_of_lt hi), List.mem_filter,
    hgname, Name.agree_key_self_iff] at hg
  exact hg.2

/-- **Lookups do not tell whether there is an index just if no capital sigma ends a word.**  For a
tree that callers can build, the lookups on its levels answer the same in all trees that are the
same if and only if no name on a level has such a sigma; and after a field was handed out and not
changed, a field is found by its own name if and only if that name has none. -/
theorem sameLookups_iff (ht : t.Reachable) :
    ((t.Everywhere fun s => ∀ s' : FieldTree, s'.Reachable → s.same s' = true → SameLookups s s') ↔
      t.Everywhere NoFinalCapital) ∧
    ∀ i < t.size, ∀ f ∈ t.entries, f ∈ (t.editAt i fun g => ((), g)).2.findAll f.name ↔
      Name.hasFinalCapital f.name = false := by
  refine ⟨⟨?_, ?_⟩, ?_⟩
  · intro h s hs
    exact noFinalCapital_of_sameLookups (ht.level hs) (h s hs)
  · intro h s hs s' hs' hsame
    exact sameLookups_of_same ((coherent_of_reachable ht).level hs) (coherent_of_reachable hs')
      (h.level hs) hsame
  · intro i hi f hf
    have hc := (coherent_of_reachable (ht.editAt_unchanged i)).here
    apply mem_findAll_self_of_no_index hc (index_editAt_of_lt hi)
    rw [entries_editAt_unchanged]
    exact hf

/-- A tree of one field, in whose name a capital sigma ends a word. -/
def sigmaEnded : FieldTree := (empty.add "ΑΣ" (.value (.text "1"))).after

theorem reachable_sigmaEnded : sigmaEnded.Reachable :=
  .change .empty (.add "ΑΣ" (.value (.text "1")))

/-- Handed out and not changed, the field is not found any more. -/
theorem lookups_differ_sigmaEnded : ∃ s : FieldTree, sigmaEnded.Reachable ∧ s.Reachable ∧
    s = (sigmaEnded.editAt 0 fun f => ((), f)).2 ∧ sigmaEnded.same s = true ∧
    sigmaEnded.contains "ΑΣ" = true ∧ s.contains "ΑΣ" = false ∧
    (sigmaEnded.fieldAt? "ΑΣ").isSome = true ∧ (s.fieldAt? "ΑΣ").isSome = false := by
  refine ⟨_, reachable_sigmaEnded, reachable_sigmaEnded.editAt_unchanged 0, rfl,
    same_editAt_unchanged sigmaEnded 0, ?_⟩
  decide +kernel

/-- A tree of one field, in whose name a capital sigma begins a word and a final one ends it. -/
def sigmaBegun : FieldTree := (empty.add "Σας" (.value (.text "1"))).after

theorem reachable_sigmaBegun : sigmaBegun.Reachable :=
  .change .empty (.add "Σας" (.value (.text "1")))

/-- The lookups do not tell that the field was handed out, and it is found by its own name. -/
theorem sameLookups_sigmaBegun : sigmaBegun.Reachable ∧
    SameLookups sigmaBegun (sigmaBegun.editAt 0 fun f => ((), f)).2 ∧
    ∀ f ∈ sigmaBegun.entries, f ∈ (sigmaBegun.editAt 0 fun f => ((), f)).2.findAll f.name := by
  have hnames : ∀ f ∈ sigmaBegun.entries, Name.hasFinalCapital f.name = false := by
    decide +kernel
  have hlevels : sigmaBegun.Everywhere NoFinalCapital :=
    everywhere_of_values (by decide +kernel) hnames
  obtain ⟨hiff, hown⟩ := sameLookups_iff reachable_sigmaBegun
  refine ⟨reachable_sigmaBegun, ?_, ?_⟩
  · exact hiff.2 hlevels sigmaBegun (.here _) _ (reachable_sigmaBegun.editAt_unchanged 0)
      (same_editAt_unchanged sigmaBegun 0)
  · intro f hf
    exact (hown 0 (by decide +kernel) f hf).2 (hnames f hf)

end FieldTree

end MessageScript
