import MessageScript.Proofs.Field.Address
import MessageScript.Proofs.Field.Place

/-!
# Writing along a path

A write that is done goes down a path, level by level (`Written`): at each name but the last it goes
on in the tree of the first field with the key, or in that of a field that is appended, and at the
last it replaces the payload.  Between trees with an index on every level writing is like storing in
a map by the keys of the path.

    (t.set p v).answer = .ok () →
      what `p` leads to is `v`, what a path leads to that neither goes on from `p` nor stops on its
      way is as before, the way is made of trees, the fields keep their places, and writing again
      is like writing once                                                          (set_laws)
-/

namespace MessageScript.FieldTree

/-- The tree `t'` is `t` with a payload written where names lead. -/
inductive Written (v : Payload) : List String → FieldTree → FieldTree → Prop
  | leaf {leaf : String} {t t₁ : FieldTree} {i : Nat} (h : PlaceFor leaf v t t₁ i) :
    Written v [leaf] t (t₁.withPayload i v)
  | inner {name : String} {rest : List String} {t t₁ nested nested' : FieldTree} {i : Nat}
      {f : Field} (hrest : rest ≠ []) (h : PlaceFor name (.tree empty) t t₁ i)
      (hf : t₁.get? i = some f) (hn : f.payload = .tree nested)
      (hw : Written v rest nested nested') :
    Written v (name :: rest) t (t₁.withPayload i (.tree nested'))

variable {t t' : FieldTree} {p v w : Payload} {names : List String} {path : String} {name : String}
  {i : Nat}

/-! ## The program writes this way -/

theorem make_eq_ok_iff {f : Field} : Field.make name p = .ok f ↔
    Name.fieldFault? name = none ∧ f = ⟨name, p, TagSet.empty⟩ := by
  unfold Field.make Name.field
  cases hcheck : Name.checked Name.fieldFault? name with
  | error e =>
    constructor
    · intro h
      cases h
    · rintro ⟨hfault, -⟩
      rw [Name.checked_eq_ok_iff.2 ⟨hfault, rfl⟩] at hcheck
      cases hcheck
  | ok checked =>
    obtain ⟨hfault, rfl⟩ := Name.checked_eq_ok_iff.1 hcheck
    constructor
    · intro h
      cases h
      exact ⟨hfault, rfl⟩
    · rintro ⟨-, rfl⟩
      rfl

theorem add_eq_done (h : Name.fieldFault? name = none) (t : FieldTree) (p : Payload) :
    t.add name p = .done () (t.push ⟨name, p, TagSet.empty⟩) := by
  rw [add, make_eq_ok_iff.2 ⟨h, rfl⟩]

/-- A field that is added has a name without fault, and stands behind the others. -/
theorem after_add_of_ok {a : Unit} (h : (t.add name p).answer = .ok a) :
    Name.fieldFault? name = none ∧ (t.add name p).after = t.push ⟨name, p, TagSet.empty⟩ := by
  rw [add] at h ⊢
  cases hmake : Field.make name p with
  | error e =>
    rw [hmake] at h
    cases h
  | ok f =>
    obtain ⟨hfault, rfl⟩ := make_eq_ok_iff.1 hmake
    exact ⟨hfault, rfl⟩

theorem get?_push_size (t : FieldTree) (f : Field) : (t.push f).get? t.size = some f := by
  rw [get?, entries_push]
  exact List.getElem?_concat_length

theorem written_of_write {a : Unit} (h : (write path v names t).answer = .ok a) :
    Written v names t (write path v names t).after := by
  fun_induction write path v names t with
  | case1 t => cases h
  | case2 leaf t i hi => exact .leaf (.found hi)
  | case3 leaf t hi =>
    obtain ⟨hname, hafter⟩ := after_add_of_ok h
    have hwritten := Written.leaf (PlaceFor.made (p := v) hi hname)
    rw [withPayload_push] at hwritten
    rw [hafter]
    exact hwritten
  | case4 name rest t hrest i hi nested hn ih =>
    obtain ⟨f, hf, hpayload⟩ := Option.map_eq_some_iff.1 hn
    exact .inner hrest (.found hi) hf hpayload (ih h)
  | case5 name rest t hrest i hi hn => cases h
  | case6 name rest t hrest hi made e he => cases h
  | case7 name rest t hrest hi made b hb ih =>
    -- the way goes on in the empty tree of the field just appended
    obtain ⟨hname, hafter⟩ := after_add_of_ok hb
    have hplace := PlaceFor.made (p := .tree empty) hi hname
    have hwritten := Written.inner hrest hplace (get?_push_size _ _) rfl (ih h)
    rw [← hafter] at hwritten
    exact hwritten

theorem write_eq_of_written (h : Written v names t t') (path : String) :
    write path v names t = .done () t' := by
  induction h with
  | leaf h =>
    cases h with
    | found hi => rw [write, hi]
    | made hi hname =>
      rw [write, hi]
      simp only
      rw [add_eq_done hname, withPayload_push]
  | inner hrest h hf hn hw ih =>
    cases h with
    | found hi =>
      rw [write, hi]
      · simp only [hf, Option.map_some, hn]
        rw [ih]
        rfl
      · exact hrest
    | made hi hname =>
      rw [get?_push_size] at hf
      cases hf
      cases hn
      rw [write, hi]
      · simp only
        rw [add_eq_done hname]
        simp only [Edit.answer_done, Edit.after_done]
        rw [ih]
        rfl
      · exact hrest

theorem written_of_set {a : Unit} (h : (t.set path v).answer = .ok a) :
    nameFault? (Path.segments path) = none ∧
      Written v (Path.segments path) t (t.set path v).after := by
  unfold set at h ⊢
  cases hfault : nameFault? (Path.segments path) with
  | some e =>
    rw [hfault] at h
    cases h
  | none =>
    rw [hfault] at h
    exact ⟨rfl, written_of_write h⟩

theorem set_eq_of_written (hfault : nameFault? (Path.segments path) = none)
    (h : Written v (Path.segments path) t t') : t.set path v = .done () t' := by
  rw [set, hfault]
  exact write_eq_of_written h path

/-! ## What is found afterwards -/

theorem follow?_empty (names : List String) : follow? names empty = none := by
  cases names with
  | nil => rfl
  | cons name rest =>
    cases rest with
    | nil => rfl
    | cons name' rest => rfl

/-- What names lead to depends on what the first of them finds. -/
theorem follow?_cons_congr (h : t.findFirst? name = t'.findFirst? name) (rest : List String) :
    follow? (name :: rest) t = follow? (name :: rest) t' := by
  by_cases hrest : rest = []
  · subst hrest
    exact h
  · rw [follow?_cons hrest, follow?_cons hrest, h]

section Names

variable {t₁ nested : FieldTree} {name' : String} {rest : List String} {f : Field}

theorem follow?_cons_of_tree (hrest : rest ≠ []) (h : t.findFirst? name = some f)
    (hn : f.payload = .tree nested) : follow? (name :: rest) t = follow? rest nested := by
  rw [follow?_cons hrest, h, Option.bind_some, hn]
  rfl

/-- Through the place for a name, names lead on as they did before there was one. -/
theorem PlaceFor.follow?_eq (h : PlaceFor name (.tree empty) t t₁ i) (ht : t.Indexed)
    (hf : t₁.get? i = some f) (hn : f.payload = .tree nested)
    (hkey : Name.key name' = Name.key name) (hrest : rest ≠ []) :
    follow? (name' :: rest) t = follow? rest nested := by
  cases h with
  | found hi =>
    apply follow?_cons_of_tree hrest _ hn
    rw [findFirst?, ht.firstPosition?_congr hkey, hi, Option.bind_some, hf]
  | made hi hname =>
    rw [get?_push_size] at hf
    cases hf
    cases hn
    rw [follow?_empty, follow?_cons hrest, findFirst?, ht.firstPosition?_congr hkey, hi]
    rfl

theorem PlaceFor.everywhere_indexed (h : PlaceFor name p t t₁ i) (ht : t.Everywhere Indexed)
    (hp : p.Everywhere Indexed) : t₁.Everywhere Indexed := by
  refine everywhere_iff.2 ⟨h.indexed ht.here, ?_⟩
  cases h with
  | found _ => exact (everywhere_iff.1 ht).2
  | made _ _ =>
    intro g hg
    rw [entries_push, List.mem_append, List.mem_singleton] at hg
    rcases hg with hg | rfl
    · exact ht.payload hg
    · exact hp

theorem everywhere_indexed_empty : empty.Everywhere Indexed := by
  refine everywhere_of_values ?_ indexed_empty
  intro f hf
  cases hf

/-- The tree that the way goes on in has an index on every level. -/
theorem PlaceFor.nested_indexed (h : PlaceFor name (.tree empty) t t₁ i)
    (ht : t.Everywhere Indexed) (hf : t₁.get? i = some f) (hn : f.payload = .tree nested) :
    nested.Everywhere Indexed :=
  (h.everywhere_indexed ht (Payload.everywhere_tree.2 everywhere_indexed_empty)).payload
    (List.mem_of_getElem? hf) nested hn

end Names

namespace Written

/-- The names, and all with their keys, lead to what was written. -/
theorem follow?_self (h : Written v names t t') (ht : t.Everywhere Indexed) {names' : List String}
    (hkeys : names'.map Name.key = names.map Name.key) :
    ∃ f, follow? names' t' = some f ∧ f.payload = v := by
  induction h generalizing names' with
  | leaf h =>
    obtain ⟨name', rfl, hname'⟩ := List.map_eq_singleton_iff.1 hkeys
    obtain ⟨f, hf, -⟩ := h.exists_field ht.here
    exact ⟨_, h.findFirst?_self ht.here hf hname', rfl⟩
  | inner hrest h hf hn hw ih =>
    rw [List.map_cons, List.map_eq_cons_iff] at hkeys
    obtain ⟨name', rest', rfl, hkey, hkeys⟩ := hkeys
    have hrest' : rest' ≠ [] := by
      rintro rfl
      exact hrest (List.map_eq_nil_iff.1 hkeys.symm)
    obtain ⟨g, hg, hpayload⟩ := ih (h.nested_indexed ht hf hn) hkeys
    refine ⟨g, ?_, hpayload⟩
    rw [follow?_cons_of_tree hrest' (h.findFirst?_self ht.here hf hkey) rfl, hg]

/-- Names that neither go on from those written to nor stop on their way lead where they did. -/
theorem follow?_frame (h : Written v names t t') (ht : t.Everywhere Indexed) {names' : List String}
    (hon : ¬ names.map Name.key <+: names'.map Name.key)
    (hstop : ¬ names'.map Name.key <+: names.map Name.key) :
    follow? names' t' = follow? names' t := by
  induction h generalizing names' with
  | leaf h =>
    cases names' with
    | nil => exact absurd List.nil_prefix hstop
    | cons name' rest' =>
      apply follow?_cons_congr
      apply h.findFirst?_of_ne ht.here
      intro hkey
      rw [List.map_cons, List.map_cons, hkey] at hon
      exact hon ((List.prefix_cons_inj _).2 List.nil_prefix)
  | @inner name rest t t₁ nested nested' i f hrest h hf hn hw ih =>
    cases names' with
    | nil => exact absurd List.nil_prefix hstop
    | cons name' rest' =>
      -- either the names part here, at two fields, or both go on in the same tree
      by_cases hkey : Name.key name' = Name.key name
      · rw [List.map_cons, List.map_cons, hkey, List.prefix_cons_inj] at hon hstop
        have hrest' : rest' ≠ [] := by
          rintro rfl
          exact hstop List.nil_prefix
        rw [follow?_cons_of_tree hrest' (h.findFirst?_self ht.here hf hkey) rfl,
          h.follow?_eq ht.here hf hn hkey hrest']
        exact ih (h.nested_indexed ht hf hn) hon hstop
      · exact follow?_cons_congr (h.findFirst?_of_ne ht.here hkey) rest'

/-- Names that stop on the way lead to a field with a tree. -/
theorem follow?_on_way (h : Written v names t t') (ht : t.Everywhere Indexed)
    {names' : List String} (hne : names' ≠ [])
    (hstop : names'.map Name.key <+: names.map Name.key)
    (hproper : names'.map Name.key ≠ names.map Name.key) :
    ∃ f s, follow? names' t' = some f ∧ f.payload = .tree s := by
  induction h generalizing names' with
  | leaf h =>
    cases names' with
    | nil => exact absurd rfl hne
    | cons name' rest' =>
      rw [List.map_cons, List.map_cons, List.cons_prefix_cons] at hstop
      obtain ⟨hkey, hstop⟩ := hstop
      rw [List.map_cons, List.map_cons, hkey, List.prefix_nil.1 hstop] at hproper
      exact absurd rfl hproper
  | @inner name rest t t₁ nested nested' i f hrest h hf hn hw ih =>
    cases names' with
    | nil => exact absurd rfl hne
    | cons name' rest' =>
      rw [List.map_cons, List.map_cons, List.cons_prefix_cons] at hstop
      obtain ⟨hkey, hstop⟩ := hstop
      have hfirst := h.findFirst?_self (q := .tree nested') ht.here hf hkey
      by_cases hrest' : rest' = []
      · subst hrest'
        exact ⟨_, nested', hfirst, rfl⟩
      · rw [List.map_cons, List.map_cons, hkey] at hproper
        rw [follow?_cons_of_tree hrest' hfirst rfl]
        apply ih (h.nested_indexed ht hf hn) hrest' hstop
        intro heq
        exact hproper (congrArg _ heq)

/-! ## What becomes of the levels -/

end Written

/-- Whether the level at positions grows from one tree to another: one that was there before keeps
its fields, and a new one starts empty. -/
structure GrowsAt (a : List Nat) (t t' : FieldTree) : Prop where
  old : ∀ s, level? a t = some s → ∃ s', level? a t' = some s' ∧ s.Grows s'
  new : ∀ s', level? a t = none → level? a t' = some s' → empty.Grows s'

theorem GrowsAt.of_level?_eq {a : List Nat} (h : level? a t' = level? a t) : GrowsAt a t t' := by
  constructor
  · intro s hs
    exact ⟨s, by rw [h, hs], .refl s⟩
  · intro s' hnone hs'
    rw [h, hnone] at hs'
    cases hs'

theorem GrowsAt.here (h : t.Grows t') : GrowsAt [] t t' := by
  constructor
  · intro s hs
    cases hs
    exact ⟨t', rfl, h⟩
  · intro s' hnone
    cases hnone

/-- What a new field's tree becomes is new on every level. -/
theorem GrowsAt.inside_new {nested' : FieldTree} {a : List Nat} (h : GrowsAt a empty nested')
    (hnone : t.get? i = none) (hlevel : level? (i :: a) t' = level? a nested') :
    GrowsAt (i :: a) t t' := by
  constructor
  · intro s hs
    rw [level?_cons_of_get?_none hnone] at hs
    cases hs
  · intro s' _ hs'
    rw [hlevel] at hs'
    cases a with
    | nil =>
      obtain ⟨s'', hs'', hgrows⟩ := h.old empty rfl
      rw [hs''] at hs'
      cases hs'
      exact hgrows
    | cons j a => exact h.new s' (level?_empty_cons j a) hs'

/-- The levels of the tree in a field at the place for a name. -/
theorem PlaceFor.growsAt_inside {t₁ nested nested' : FieldTree} {f : Field} {a : List Nat}
    (h : PlaceFor name (.tree empty) t t₁ i) (hf : t₁.get? i = some f)
    (hn : f.payload = .tree nested) (hgrows : GrowsAt a nested nested') :
    GrowsAt (i :: a) t (t₁.withPayload i (.tree nested')) := by
  have hlevel : level? (i :: a) (t₁.withPayload i (.tree nested')) = level? a nested' :=
    level?_cons (get?_withPayload_self hf _) rfl a
  cases h with
  | found hi =>
    have hold : level? (i :: a) t = level? a nested := level?_cons hf hn a
    constructor
    · intro s hs
      rw [hold] at hs
      rw [hlevel]
      exact hgrows.old s hs
    · intro s' hnone hs'
      rw [hold] at hnone
      rw [hlevel] at hs'
      exact hgrows.new s' hnone hs'
  | made hi hname =>
    rw [get?_push_size] at hf
    cases hf
    cases hn
    exact hgrows.inside_new (get?_size t) hlevel

/-- The levels of fields beside the place for a name stay. -/
theorem PlaceFor.growsAt_beside {t₁ : FieldTree} {j : Nat} (h : PlaceFor name p t t₁ i)
    (hij : i ≠ j) (q : Payload) (a : List Nat) : GrowsAt (j :: a) t (t₁.withPayload i q) := by
  apply GrowsAt.of_level?_eq
  apply level?_cons_congr
  rw [get?_withPayload_ne hij, h.get?_of_ne hij]

namespace Written

/-- A level grows unless it is in the field that is written to. -/
theorem growsAt (h : Written v names t t') (ht : t.Everywhere Indexed) :
    ∃ leaf, address? names t' = some leaf ∧ ∀ a, ¬ leaf <+: a → GrowsAt a t t' := by
  induction h with
  | @leaf name t t₁ i h =>
    have hi := h.firstPosition?_eq ht.here rfl
    rw [← firstPosition?_withPayload t₁ i v] at hi
    refine ⟨[i], address?_singleton hi, ?_⟩
    intro a ha
    cases a with
    | nil => exact .here (h.grows.withPayload i v)
    | cons j a =>
      apply h.growsAt_beside
      rintro rfl
      exact ha ((List.prefix_cons_inj _).2 List.nil_prefix)
  | @inner name rest t t₁ nested nested' i f hrest h hf hn hw ih =>
    obtain ⟨leaf, hleaf, hgrows⟩ := ih (h.nested_indexed ht hf hn)
    have hi := h.firstPosition?_eq ht.here rfl
    rw [← firstPosition?_withPayload t₁ i (.tree nested')] at hi
    refine ⟨i :: leaf, ?_, ?_⟩
    · rw [address?_cons hrest hi (get?_withPayload_self hf _) rfl, hleaf]
      rfl
    · intro a ha
      cases a with
      | nil => exact .here (h.grows.withPayload i _)
      | cons j a =>
        by_cases hij : i = j
        · subst hij
          rw [List.prefix_cons_inj] at ha
          exact h.growsAt_inside hf hn (hgrows a ha)
        · exact h.growsAt_beside hij _ a

/-! ## Writing again -/

/-- Where one payload was written another can be, before and after, and the tree is the same. -/
theorem again (h : Written v names t t') (ht : t.Everywhere Indexed) (w : Payload) :
    ∃ t'', Written w names t t'' ∧ Written w names t' t'' := by
  -- a place that was made the first time is found the second time, at the same position
  induction h with
  | @leaf name t t₁ i h =>
    obtain ⟨t₂, hplace, hsame⟩ := h.exists_other w
    have hi := h.firstPosition?_eq ht.here rfl
    rw [← firstPosition?_withPayload t₁ i v] at hi
    refine ⟨t₁.withPayload i w, ?_, ?_⟩
    · rw [← hsame w]
      exact .leaf hplace
    · have hwritten := Written.leaf (PlaceFor.found (p := w) hi)
      rw [withPayload_withPayload] at hwritten
      exact hwritten
  | @inner name rest t t₁ nested nested' i f hrest h hf hn hw ih =>
    obtain ⟨nested'', hbefore, hafter⟩ := ih (h.nested_indexed ht hf hn)
    have hi := h.firstPosition?_eq ht.here rfl
    rw [← firstPosition?_withPayload t₁ i (.tree nested')] at hi
    refine ⟨t₁.withPayload i (.tree nested''), .inner hrest h hf hn hbefore, ?_⟩
    have hwritten := Written.inner hrest (.found hi) (get?_withPayload_self hf _) rfl hafter
    rw [withPayload_withPayload] at hwritten
    exact hwritten

/-- Levels with a right index stay so, and what is written may bring others of that sort. -/
theorem everywhere_indexed (h : Written v names t t') (ht : t.Everywhere Indexed)
    (hv : v.Everywhere Indexed) : t'.Everywhere Indexed := by
  induction h with
  | leaf h =>
    have ht₁ := h.everywhere_indexed ht hv
    refine everywhere_iff.2 ⟨ht₁.here.withPayload _ v, ?_⟩
    intro g hg
    rcases mem_withPayload hg with hg | ⟨g', -, rfl⟩
    · exact ht₁.payload hg
    · exact hv
  | inner hrest h hf hn hw ih =>
    have ht₁ := h.everywhere_indexed ht (Payload.everywhere_tree.2 everywhere_indexed_empty)
    refine everywhere_iff.2 ⟨ht₁.here.withPayload _ _, ?_⟩
    intro g hg
    rcases mem_withPayload hg with hg | ⟨g', -, rfl⟩
    · exact ht₁.payload hg
    · exact Payload.everywhere_tree.2 (ih (h.nested_indexed ht hf hn))

end Written

/-! ## Paths -/

theorem everywhere_indexed_set {a : Unit} (ht : t.Everywhere Indexed) (hv : v.Everywhere Indexed)
    (h : (t.set path v).answer = .ok a) : (t.set path v).after.Everywhere Indexed :=
  (written_of_set h).2.everywhere_indexed ht hv

/-- The keys of the names in a path. -/
def pathKeys (path : String) : List String := (Path.segments path).map Name.key

/-- **Writing at a path is storing in a map by the path's keys.**  If a payload is written at a
path, in a tree with a right index on every level, then every path with the same keys leads to it;
what other paths lead to is as before, unless one goes on from the other; the way there is made of
trees; each level, but those in the field written to, keeps its fields and has at most one more; and
a second payload written there leaves what it leaves alone. -/
theorem set_laws (ht : t.Everywhere Indexed) (h : (t.set path v).answer = .ok ()) :
    (∀ q, pathKeys q = pathKeys path → (t.set path v).after.payloadAt? q = some v) ∧
    (∀ q, ¬ pathKeys path <+: pathKeys q → ¬ pathKeys q <+: pathKeys path →
      (t.set path v).after.payloadAt? q = t.payloadAt? q) ∧
    (∀ q, pathKeys q <+: pathKeys path → pathKeys q ≠ pathKeys path →
      ∃ s, (t.set path v).after.treeAt? q = some s) ∧
    (∃ leaf, address? (Path.segments path) (t.set path v).after = some leaf ∧
      ∀ a, ¬ leaf <+: a → GrowsAt a t (t.set path v).after) ∧
    ∀ w, (t.set path w).answer = .ok () ∧ (t.set path v).after.set path w = t.set path w := by
  obtain ⟨hfault, hw⟩ := written_of_set h
  refine ⟨?_, ?_, ?_, hw.growsAt ht, ?_⟩
  · intro q hkeys
    obtain ⟨f, hf, hpayload⟩ := hw.follow?_self ht hkeys
    rw [payloadAt?, fieldAt?, hf, Option.map_some, hpayload]
  · intro q hon hstop
    rw [payloadAt?, payloadAt?, fieldAt?, fieldAt?, hw.follow?_frame ht hon hstop]
  · intro q hstop hproper
    obtain ⟨f, s, hf, hpayload⟩ := hw.follow?_on_way ht (Path.segments_ne_nil q) hstop hproper
    refine ⟨s, ?_⟩
    rw [treeAt?, payloadAt?, fieldAt?, hf, Option.map_some, hpayload]
    rfl
  · intro w
    obtain ⟨t'', hbefore, hafter⟩ := hw.again ht w
    rw [set_eq_of_written hfault hbefore, set_eq_of_written hfault hafter]
    exact ⟨rfl, rfl⟩

/-- A tree of one field at a path of two names. -/
def planted : FieldTree := (empty.set "A/b" (.value (.text "1"))).after

theorem indexed_planted : planted.Everywhere Indexed := by
  have hdone : (empty.set "A/b" (.value (.text "1"))).answer = .ok () := by decide +kernel
  exact everywhere_indexed_set everywhere_indexed_empty (Payload.everywhere_value _) hdone

/-- A field written beside it is found by another spelling of its path, and the first one stays. -/
theorem set_laws_planted : planted.Everywhere Indexed ∧
    (planted.set "a/C" (.value (.text "2"))).answer = .ok () ∧
    (planted.set "a/C" (.value (.text "2"))).after.payloadAt? "\\A\\c\\" =
      some (.value (.text "2")) ∧
    (planted.set "a/C" (.value (.text "2"))).after.payloadAt? "A/B" = planted.payloadAt? "A/B" ∧
    planted.textAt? "A/B" = some "1" := by
  have hdone : (planted.set "a/C" (.value (.text "2"))).answer = .ok () := by decide +kernel
  obtain ⟨hself, hframe, -⟩ := set_laws indexed_planted hdone
  refine ⟨indexed_planted, hdone, ?_, ?_, ?_⟩
  · exact hself "\\A\\c\\" (by decide +kernel)
  · exact hframe "A/B" (by decide +kernel) (by decide +kernel)
  · decide +kernel

end MessageScript.FieldTree
