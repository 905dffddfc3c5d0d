import Mathlib.Data.List.Basic
import MessageScript.Proofs.Naming
import MessageScript.Proofs.Refusal
import MessageScript.Proofs.Stored.Value

/-!
# Tag sets are maps

The names in a tag set keep the rules, without the mark, and no two of them agree (`WellNamed`).  So
a name, with the mark or without it, means one tag at most, and a tag set is a map from names to
states that keeps its tags in the order they came in.

    s.Reachable → s.WellNamed                                           (Reachable.wellNamed)
    s.WellNamed → (s.position? name = some i ↔
      ∃ t, s.tags[i]? = some t ∧ t.isNamed name = true)                 (position?_eq_some_iff)
    s.Reachable → the laws of a map for set, get, add, rename, remove               (map_laws)
-/

namespace MessageScript

/-! ## Names of tags -/

namespace Tag

variable {t u : Tag} {name other bare : String} {state : Bool}

/-- Whether a name, with the mark or without it, means a tag. -/
def isNamed (t : Tag) (name : String) : Bool := Name.agree t.name (Name.withoutTagMark name)

theorem agree_of_isNamed (ht : t.isNamed name = true) (hu : u.isNamed name = true) :
    Name.agree t.name u.name = true := by
  apply Name.agree_trans ht
  rw [Name.agree_comm]
  exact hu

/-- Names that agree mean the same tags. -/
theorem isNamed_congr
    (h : Name.agree (Name.withoutTagMark other) (Name.withoutTagMark name) = true) :
    t.isNamed other = t.isNamed name := by
  rw [Bool.eq_iff_iff]
  constructor
  · intro ht
    exact Name.agree_trans ht h
  · intro ht
    rw [Name.agree_comm] at h
    exact Name.agree_trans ht h

theorem isNamed_of_isBody (h : Name.IsBody name.toList) :
    t.isNamed name = Name.agree t.name name := by
  rw [isNamed, Name.withoutTagMark_of_isBody h]

theorem isNamed_withoutTagMark (h : Name.tagFault? name = none) :
    t.isNamed (Name.withoutTagMark name) = t.isNamed name :=
  isNamed_of_isBody (Name.isBody_withoutTagMark h)

theorem bareName_eq_ok_iff :
    bareName name = .ok bare ↔ Name.tagFault? name = none ∧ bare = Name.withoutTagMark name := by
  unfold bareName Name.tag
  constructor
  · intro h
    obtain ⟨checked, hchecked, rfl⟩ := exists_of_map_eq_ok h
    obtain ⟨hfault, rfl⟩ := Name.checked_eq_ok_iff.1 hchecked
    exact ⟨hfault, rfl⟩
  · rintro ⟨hfault, rfl⟩
    rw [Name.checked_eq_ok_iff.2 ⟨hfault, rfl⟩]
    rfl

theorem bareName_of_tagFault? (h : Name.tagFault? name = none) :
    bareName name = .ok (Name.withoutTagMark name) :=
  bareName_eq_ok_iff.2 ⟨h, rfl⟩

theorem make_eq_ok_iff : Tag.make name state = .ok t ↔
    Name.tagFault? name = none ∧ t = ⟨Name.withoutTagMark name, state⟩ := by
  constructor
  · intro h
    obtain ⟨bare, hbare, rfl⟩ := exists_of_map_eq_ok h
    obtain ⟨hfault, rfl⟩ := bareName_eq_ok_iff.1 hbare
    exact ⟨hfault, rfl⟩
  · rintro ⟨hfault, rfl⟩
    rw [make, bareName_of_tagFault? hfault]
    rfl

theorem isBody_of_make (h : Tag.make name state = .ok t) : Name.IsBody t.name.toList := by
  obtain ⟨hfault, rfl⟩ := make_eq_ok_iff.1 h
  exact Name.isBody_withoutTagMark hfault

theorem isBody_rename (h : Name.IsBody t.name.toList) (name : String) :
    Name.IsBody (t.rename name).after.name.toList := by
  unfold rename
  split
  · next bare hbare =>
    obtain ⟨hfault, rfl⟩ := bareName_eq_ok_iff.1 hbare
    exact Name.isBody_withoutTagMark hfault
  · exact h

end Tag

/-! ## The invariant of tag sets -/

/-- Whether no two names in a sequence of tags agree. -/
def Tag.Distinct (tags : List Tag) : Prop :=
  tags.Pairwise fun t u => Name.agree t.name u.name = false

/-- Whether the names in a tag set keep the rules, without the mark, and no two of them agree. -/
structure TagSet.WellNamed (s : TagSet) : Prop where
  bodies : ∀ t ∈ s.tags, Name.IsBody t.name.toList
  distinct : Tag.Distinct s.tags

theorem modify_eq_set {α : Type} {l : List α} {i : Nat} {a : α} (h : l[i]? = some a) (g : α → α) :
    l.modify i g = l.set i (g a) := by
  rw [List.modify_eq_set_getElem?, h]
  rfl

namespace TagSet

variable {s s' : TagSet} {t u : Tag} {tags : List Tag} {i j : Nat} {name newName : String}
  {state : Bool}

theorem wellNamed_empty : empty.WellNamed := by
  constructor
  · intro t ht
    cases ht
  · exact .nil

theorem position?_eq_none_iff :
    s.position? name = none ↔ ∀ t ∈ s.tags, t.isNamed name = false :=
  List.findIdx?_eq_none_iff

namespace WellNamed

variable (hs : s.WellNamed)

include hs

/-- Tags with names that agree stand at one position. -/
theorem eq_of_agree (hi : s.tags[i]? = some t) (hj : s.tags[j]? = some u)
    (h : Name.agree t.name u.name = true) : i = j := by
  obtain ⟨hilt, rfl⟩ := List.getElem?_eq_some_iff.1 hi
  obtain ⟨hjlt, rfl⟩ := List.getElem?_eq_some_iff.1 hj
  have hdistinct := List.pairwise_iff_getElem.1 hs.distinct
  rcases Nat.lt_trichotomy i j with hlt | heq | hlt
  · rw [hdistinct i j hilt hjlt hlt] at h
    cases h
  · exact heq
  · rw [Name.agree_comm, hdistinct j i hjlt hilt hlt] at h
    cases h

/-- The tag that a name means stands at the position found for the name. -/
theorem position?_eq_some_iff : s.position? name = some i ↔
    ∃ t, s.tags[i]? = some t ∧ t.isNamed name = true := by
  have hfound : ∀ {j}, s.position? name = some j →
      ∃ t, s.tags[j]? = some t ∧ t.isNamed name = true := by
    intro j hj
    obtain ⟨hlt, hnamed, -⟩ := List.findIdx?_eq_some_iff_getElem.1 hj
    exact ⟨s.tags[j], List.getElem?_eq_getElem hlt, hnamed⟩
  constructor
  · exact hfound
  · rintro ⟨t, ht, hnamed⟩
    cases hpos : s.position? name with
    | none =>
      have hnot := position?_eq_none_iff.1 hpos t (List.mem_of_getElem? ht)
      rw [hnamed] at hnot
      cases hnot
    | some j =>
      obtain ⟨u, hu, hnamed'⟩ := hfound hpos
      exact congrArg some (hs.eq_of_agree hu ht (Tag.agree_of_isNamed hnamed' hnamed))

theorem get?_eq (hi : s.tags[i]? = some t) (hnamed : t.isNamed name = true) :
    s.get? name = some t := by
  rw [get?, hs.position?_eq_some_iff.2 ⟨t, hi, hnamed⟩, Option.bind_some, hi]

/-! ## What changes keep -/

theorem append (hbody : Name.IsBody t.name.toList)
    (hnew : ∀ u ∈ s.tags, Name.agree u.name t.name = false) : WellNamed ⟨s.tags ++ [t]⟩ := by
  constructor
  · intro u hu
    rcases List.mem_append.1 hu with hu | hu
    · exact hs.bodies u hu
    · rw [List.mem_singleton.1 hu]
      exact hbody
  · refine List.pairwise_append.2 ⟨hs.distinct, List.pairwise_singleton _ _, ?_⟩
    intro u hu v hv
    rw [List.mem_singleton.1 hv]
    exact hnew u hu

theorem set (hbody : Name.IsBody u.name.toList)
    (hother : ∀ j v, s.tags[j]? = some v → Name.agree v.name u.name = true → j = i) :
    WellNamed ⟨s.tags.set i u⟩ := by
  constructor
  · intro v hv
    rcases List.mem_or_eq_of_mem_set hv with hv | rfl
    · exact hs.bodies v hv
    · exact hbody
  · have hapart : ∀ j (hj : j < s.tags.length), j ≠ i →
        Name.agree s.tags[j].name u.name = false := by
      intro j hj hne
      rw [← Bool.not_eq_true]
      intro h
      exact hne (hother j _ (List.getElem?_eq_getElem hj) h)
    refine List.pairwise_iff_getElem.2 ?_
    intro j k hj hk hjk
    rw [List.length_set] at hj hk
    rw [List.getElem_set, List.getElem_set]
    -- the tag that was put in stands first, second, or is neither of the two
    by_cases hij : i = j
    · rw [if_pos hij, if_neg (by omega), Name.agree_comm]
      exact hapart k hk (by omega)
    · by_cases hik : i = k
      · rw [if_neg hij, if_pos hik]
        exact hapart j hj (Ne.symm hij)
      · rw [if_neg hij, if_neg hik]
        exact List.pairwise_iff_getElem.1 hs.distinct j k hj hk hjk

theorem eraseIdx (i : Nat) : WellNamed ⟨s.tags.eraseIdx i⟩ :=
  ⟨fun t ht => hs.bodies t (List.mem_of_mem_eraseIdx ht),
    hs.distinct.sublist (List.eraseIdx_sublist ..)⟩

end WellNamed

/-! ## What the operations do -/

theorem position?_name_eq_none_iff (hbody : Name.IsBody t.name.toList) :
    s.position? t.name = none ↔ ∀ u ∈ s.tags, Name.agree u.name t.name = false := by
  simp only [position?_eq_none_iff, Tag.isNamed_of_isBody hbody]

theorem add_eq_done (h : s.position? t.name = none) : s.add t = .done () ⟨s.tags ++ [t]⟩ := by
  rw [add, h]

theorem add_eq_refused (h : s.position? t.name ≠ none) :
    s.add t = .refused (Error.invalidName t.name .duplicateTag) s := by
  obtain ⟨i, hi⟩ := Option.ne_none_iff_exists'.1 h
  rw [add, hi]

theorem set_of_absent (h : s.position? name = none) (hfault : Name.tagFault? name = none) :
    s.set name state = .done () ⟨s.tags ++ [⟨Name.withoutTagMark name, state⟩]⟩ := by
  rw [set, h, Tag.make_eq_ok_iff.2 ⟨hfault, rfl⟩]

theorem set_of_present (h : s.position? name = some i) (ht : s.tags[i]? = some t) :
    s.set name state = .done () ⟨s.tags.set i ⟨t.name, state⟩⟩ := by
  rw [set, h]
  simp only
  rw [modify_eq_set ht]
  rfl

/-- Setting by a name that means no tag and breaks the rules leaves the set alone. -/
theorem after_set_of_fault (h : s.position? name = none) (hfault : Name.tagFault? name ≠ none) :
    (s.set name state).after = s := by
  rw [set, h]
  simp only
  split
  · next t ht => exact absurd (Tag.make_eq_ok_iff.1 ht).1 hfault
  · rfl

theorem rename_eq_done (hs : s.WellNamed) (hi : s.position? name = some i)
    (ht : s.tags[i]? = some t) (hfault : Name.tagFault? newName = none)
    (hother : ∀ j u, s.tags[j]? = some u → u.isNamed newName = true → j = i) :
    s.rename name newName =
      .done () ⟨s.tags.set i ⟨Name.withoutTagMark newName, t.state⟩⟩ := by
  rw [rename, hi, Tag.bareName_of_tagFault? hfault]
  simp only
  have hmodify := modify_eq_set ht fun u => { u with name := Name.withoutTagMark newName }
  cases hj : s.position? (Name.withoutTagMark newName) with
  | none =>
    simp only
    rw [hmodify]
  | some j =>
    obtain ⟨u, hu, hnamed⟩ := hs.position?_eq_some_iff.1 hj
    rw [Tag.isNamed_withoutTagMark hfault] at hnamed
    simp only
    rw [if_pos (hother j u hu hnamed), hmodify]

/-- A renaming that is done is one of a tag that is there, by a name that keeps the rules and means
no other tag. -/
theorem exists_of_rename_ok (hs : s.WellNamed) (h : (s.rename name newName).answer = .ok ()) :
    ∃ i t, s.position? name = some i ∧ s.tags[i]? = some t ∧ Name.tagFault? newName = none ∧
      ∀ j u, s.tags[j]? = some u → u.isNamed newName = true → j = i := by
  unfold rename at h
  split at h
  · cases h
  · next i hi =>
    obtain ⟨t, ht, -⟩ := hs.position?_eq_some_iff.1 hi
    split at h
    · cases h
    · next bare hbare =>
      obtain ⟨hfault, rfl⟩ := Tag.bareName_eq_ok_iff.1 hbare
      refine ⟨i, t, hi, ht, hfault, ?_⟩
      intro j u hu hnamed
      rw [← Tag.isNamed_withoutTagMark hfault] at hnamed
      rw [hs.position?_eq_some_iff.2 ⟨u, hu, hnamed⟩] at h
      simp only at h
      split at h
      · assumption
      · cases h

/-! ## What runs keep -/

namespace WellNamed

variable (hs : s.WellNamed)

include hs

theorem add (hbody : Name.IsBody t.name.toList) : (s.add t).after.WellNamed := by
  by_cases hpos : s.position? t.name = none
  · rw [add_eq_done hpos]
    exact hs.append hbody ((position?_name_eq_none_iff hbody).1 hpos)
  · rw [add_eq_refused hpos]
    exact hs

theorem setState (name : String) (state : Bool) : (s.set name state).after.WellNamed := by
  cases hpos : s.position? name with
  | some i =>
    obtain ⟨t, ht, -⟩ := hs.position?_eq_some_iff.1 hpos
    rw [set_of_present hpos ht]
    refine hs.set (hs.bodies t (List.mem_of_getElem? ht)) ?_
    intro j u hu hagree
    exact hs.eq_of_agree hu ht hagree
  | none =>
    by_cases hfault : Name.tagFault? name = none
    · rw [set_of_absent hpos hfault]
      have hbody := Name.isBody_withoutTagMark hfault
      exact hs.append hbody (position?_eq_none_iff.1 hpos)
    · rw [after_set_of_fault hpos hfault]
      exact hs

theorem remove (name : String) : (s.remove name).2.WellNamed := by
  unfold TagSet.remove
  split
  · next i _ => exact hs.eraseIdx i
  · exact hs

theorem rename (name newName : String) : (s.rename name newName).after.WellNamed := by
  cases hanswer : (s.rename name newName).answer with
  | error e =>
    rw [atomic_rename s name newName e hanswer]
    exact hs
  | ok _ =>
    obtain ⟨i, t, hi, ht, hfault, hother⟩ := exists_of_rename_ok hs hanswer
    rw [rename_eq_done hs hi ht hfault hother]
    refine hs.set (Name.isBody_withoutTagMark hfault) ?_
    intro j u hu hagree
    exact hother j u hu hagree

end WellNamed

/-- Tags are collected in order just if no two of their names agree. -/
theorem collect_eq_ok_iff (hs : s.WellNamed) (hbodies : ∀ t ∈ tags, Name.IsBody t.name.toList) :
    tags.foldlM (fun s t => (s.add t).answer.map fun _ => (s.add t).after) s = .ok s' ↔
      s' = ⟨s.tags ++ tags⟩ ∧ Tag.Distinct (s.tags ++ tags) := by
  induction tags generalizing s with
  | nil =>
    rw [List.append_nil, and_iff_left hs.distinct]
    constructor
    · intro h
      cases h
      rfl
    · rintro rfl
      rfl
  | cons t rest ih =>
    have hbody := hbodies t List.mem_cons_self
    have hrest := fun u hu => hbodies u (List.mem_cons_of_mem t hu)
    rw [List.foldlM_cons]
    by_cases hpos : s.position? t.name = none
    · have hadded : WellNamed ⟨s.tags ++ [t]⟩ :=
        hs.append hbody ((position?_name_eq_none_iff hbody).1 hpos)
      rw [add_eq_done hpos]
      refine (ih hadded hrest).trans ?_
      rw [List.append_assoc, List.singleton_append]
    · rw [add_eq_refused hpos]
      refine iff_of_false nofun ?_
      rintro ⟨-, hdistinct⟩
      refine hpos ((position?_name_eq_none_iff hbody).2 ?_)
      intro u hu
      exact (List.pairwise_append.1 hdistinct).2.2 u hu t List.mem_cons_self

theorem ofList_eq_ok_iff (hbodies : ∀ t ∈ tags, Name.IsBody t.name.toList) :
    ofList tags = .ok s ↔ s = ⟨tags⟩ ∧ Tag.Distinct tags :=
  collect_eq_ok_iff wellNamed_empty hbodies

theorem wellNamed_of_ofList (hbodies : ∀ t ∈ tags, Name.IsBody t.name.toList)
    (h : ofList tags = .ok s) : s.WellNamed := by
  obtain ⟨rfl, hdistinct⟩ := (ofList_eq_ok_iff hbodies).1 h
  exact ⟨hbodies, hdistinct⟩

end TagSet

/-! ## Stored tags -/

namespace Stored

theorem isBody_of_readTag {j : Json} {t : Tag} (h : readTag j = .ok t) :
    Name.IsBody t.name.toList := by
  obtain ⟨parts, -, h⟩ := exists_of_bind_eq_ok h
  obtain ⟨name, -, h⟩ := exists_of_bind_eq_ok h
  obtain ⟨state, -, h⟩ := exists_of_bind_eq_ok h
  exact Tag.isBody_of_make (accepted_eq_ok_iff.1 h)

theorem forall_of_mapM_eq_ok {ε α β : Type} {read : α → Except ε β} {P : β → Prop}
    (hread : ∀ a b, read a = .ok b → P b) {l : List α} {bs : List β} (h : l.mapM read = .ok bs) :
    ∀ b ∈ bs, P b := by
  induction l generalizing bs with
  | nil =>
    cases h
    intro b hb
    cases hb
  | cons a rest ih =>
    rw [List.mapM_cons] at h
    obtain ⟨first, hfirst, h⟩ := exists_of_bind_eq_ok h
    obtain ⟨others, hothers, h⟩ := exists_of_bind_eq_ok h
    cases h
    intro b hb
    rcases List.mem_cons.1 hb with rfl | hb
    · exact hread a b hfirst
    · exact ih hothers b hb

theorem wellNamed_of_readTags {j : Json} {s : TagSet} (h : readTags j = .ok s) : s.WellNamed := by
  unfold readTags at h
  split at h
  · next items =>
    obtain ⟨tags, htags, h⟩ := exists_of_bind_eq_ok h
    have hbodies := forall_of_mapM_eq_ok (fun _ _ => isBody_of_readTag) htags
    exact TagSet.wellNamed_of_ofList hbodies (accepted_eq_ok_iff.1 h)
  · cases h

end Stored

mutual

/-- A tag that callers can build has a name that keeps the rules, without the mark. -/
theorem Tag.Reachable.isBody : ∀ {t : Tag}, t.Reachable → Name.IsBody t.name.toList
  | _, .make h => Tag.isBody_of_make h
  | _, .setState ht _ => ht.isBody
  | _, .rename ht name => Tag.isBody_rename ht.isBody name
  | _, .member hs ht => hs.wellNamed.bodies _ ht
  | _, .stored h => Stored.isBody_of_readTag h

/-- **In a tag set that callers can build the names keep the rules, and no two agree.** -/
theorem TagSet.Reachable.wellNamed : ∀ {s : TagSet}, s.Reachable → s.WellNamed
  | _, .empty => TagSet.wellNamed_empty
  | _, .ofList ht h => TagSet.wellNamed_of_ofList (fun t hm => (ht t hm).isBody) h
  | _, .stored h => Stored.wellNamed_of_readTags h
  | _, .add hs ht => hs.wellNamed.add ht.isBody
  | _, .set hs name state => hs.wellNamed.setState name state
  | _, .remove hs name => hs.wellNamed.remove name
  | _, .rename hs name newName => hs.wellNamed.rename name newName

end

/-! ## The laws -/

theorem eraseP_eq_filter {α : Type} {p : α → Bool} {l : List α}
    (h : l.Pairwise fun a b => p a = true → p b = false) :
    l.eraseP p = l.filter fun a => !p a := by
  induction l with
  | nil => rfl
  | cons a rest ih =>
    obtain ⟨ha, hrest⟩ := List.pairwise_cons.1 h
    rw [List.eraseP_cons, List.filter_cons]
    cases hp : p a with
    | true =>
      -- none of the others satisfies `p`, so all of them are kept
      refine (List.filter_eq_self.2 ?_).symm
      intro b hb
      rw [ha b hb hp]
      rfl
    | false =>
      rw [ih hrest]
      rfl

namespace TagSet

variable {s : TagSet} {t : Tag} {i : Nat} {name newName : String}

theorem contains_iff : s.contains name = true ↔ ∃ t ∈ s.tags, t.isNamed name = true := by
  rw [contains, Option.isSome_iff_ne_none, ne_eq, position?_eq_none_iff]
  simp only [not_forall, Bool.not_eq_false, exists_prop]

theorem contains_eq_false_iff : s.contains name = false ↔ s.position? name = none := by
  rw [contains, Option.isSome_eq_false_iff, Option.isNone_iff_eq_none]

/-- A tag is refused just if its name agrees with one that is there; else it comes last. -/
theorem add_law (hbody : Name.IsBody t.name.toList) :
    ((∃ e, (s.add t).answer = .error e) ↔ ∃ u ∈ s.tags, Name.agree u.name t.name = true) ∧
    ((s.add t).answer = .ok () → (s.add t).after.tags = s.tags ++ [t]) := by
  have hagree : (∃ u ∈ s.tags, Name.agree u.name t.name = true) ↔ s.contains t.name = true := by
    rw [contains_iff]
    simp only [Tag.isNamed_of_isBody hbody]
  rw [hagree]
  cases hcontains : s.contains t.name with
  | false =>
    rw [add_eq_done (contains_eq_false_iff.1 hcontains)]
    exact ⟨iff_of_false nofun nofun, fun _ => rfl⟩
  | true =>
    have hpos : s.position? t.name ≠ none := Option.isSome_iff_ne_none.1 hcontains
    rw [add_eq_refused hpos]
    exact ⟨iff_of_true ⟨_, rfl⟩ rfl, nofun⟩

namespace WellNamed

variable (hs : s.WellNamed)

include hs

/-- Changing the tag at a position is changing the tag that a name means. -/
theorem set_eq_map (hi : s.tags[i]? = some t) (hnamed : t.isNamed name = true) (g : Tag → Tag) :
    s.tags.set i (g t) = s.tags.map fun u => if u.isNamed name then g u else u := by
  apply List.ext_getElem?
  intro k
  rw [List.getElem?_set, List.getElem?_map]
  by_cases hik : i = k
  · subst hik
    obtain ⟨hlt, -⟩ := List.getElem?_eq_some_iff.1 hi
    rw [if_pos rfl, if_pos hlt, hi, Option.map_some, if_pos hnamed]
  · rw [if_neg hik]
    cases hk : s.tags[k]? with
    | none => rfl
    | some u =>
      rw [Option.map_some, if_neg]
      intro hu
      exact hik (hs.eq_of_agree hi hk (Tag.agree_of_isNamed hnamed hu))

/-- Setting a tag, by a name that keeps the rules, is storing in a map. -/
theorem set_law (hfault : Name.tagFault? name = none) (state : Bool) :
    (s.set name state).answer = .ok () ∧
    (s.set name state).after.tags =
      (s.tags.map fun t => if t.isNamed name then t.setState state else t) ++
        if s.contains name then [] else [⟨Name.withoutTagMark name, state⟩] := by
  cases hpos : s.position? name with
  | none =>
    have hsame : (s.tags.map fun t => if t.isNamed name then t.setState state else t) = s.tags := by
      refine (List.map_congr_left ?_).trans (List.map_id s.tags)
      intro t ht
      rw [position?_eq_none_iff.1 hpos t ht]
      rfl
    rw [set_of_absent hpos hfault, contains_eq_false_iff.2 hpos, hsame]
    exact ⟨rfl, rfl⟩
  | some i =>
    obtain ⟨t, ht, hnamed⟩ := hs.position?_eq_some_iff.1 hpos
    have hcontains := contains_iff.2 ⟨t, List.mem_of_getElem? ht, hnamed⟩
    rw [set_of_present hpos ht, hcontains, if_pos rfl, List.append_nil]
    exact ⟨rfl, hs.set_eq_map ht hnamed fun u => u.setState state⟩

theorem length_set (hfault : Name.tagFault? name = none) (state : Bool) :
    (s.set name state).after.tags.length =
      s.tags.length + if s.contains name then 0 else 1 := by
  rw [(hs.set_law hfault state).2, List.length_append, List.length_map]
  cases s.contains name with
  | false => rfl
  | true => rfl

/-- What was set is found by every name that agrees. -/
theorem get?_set (hfault : Name.tagFault? name = none) (state : Bool) {other : String}
    (hother : Name.agree (Name.withoutTagMark other) (Name.withoutTagMark name) = true) :
    ((s.set name state).after.get? other).map Tag.state = some state := by
  have hafter := hs.setState name state
  cases hpos : s.position? name with
  | none =>
    rw [set_of_absent hpos hfault] at hafter ⊢
    have hlast : (s.tags ++ [⟨Name.withoutTagMark name, state⟩])[s.tags.length]? =
        some ⟨Name.withoutTagMark name, state⟩ := List.getElem?_concat_length
    rw [hafter.get?_eq hlast]
    · rfl
    · rw [Tag.isNamed_congr hother]
      exact Name.agree_refl _
  | some i =>
    obtain ⟨t, ht, hnamed⟩ := hs.position?_eq_some_iff.1 hpos
    obtain ⟨hlt, -⟩ := List.getElem?_eq_some_iff.1 ht
    rw [set_of_present hpos ht] at hafter ⊢
    have hset : (s.tags.set i ⟨t.name, state⟩)[i]? = some ⟨t.name, state⟩ :=
      List.getElem?_set_self hlt
    rw [hafter.get?_eq hset]
    · rfl
    · rw [Tag.isNamed_congr hother]
      exact hnamed

/-- A renaming is done just if the tag is there and the new name keeps the rules and means no other
one; it keeps the tag's place and state. -/
theorem rename_law (name newName : String) :
    ((s.rename name newName).answer = .ok () ↔ s.contains name = true ∧
      Name.tagFault? newName = none ∧
      ∀ t ∈ s.tags, t.isNamed newName = true → t.isNamed name = true) ∧
    ((s.rename name newName).answer = .ok () → (s.rename name newName).after.tags =
      s.tags.map fun t =>
        if t.isNamed name then ⟨Name.withoutTagMark newName, t.state⟩ else t) := by
  refine ⟨⟨?_, ?_⟩, ?_⟩
  · intro h
    obtain ⟨i, t, hi, ht, hfault, hother⟩ := exists_of_rename_ok hs h
    obtain ⟨t', ht', hnamed⟩ := hs.position?_eq_some_iff.1 hi
    rw [ht] at ht'
    cases ht'
    refine ⟨contains_iff.2 ⟨t, List.mem_of_getElem? ht, hnamed⟩, hfault, ?_⟩
    intro u hu hnew
    obtain ⟨j, hj⟩ := List.mem_iff_getElem?.1 hu
    rw [hother j u hj hnew, ht] at hj
    cases hj
    exact hnamed
  · rintro ⟨hcontains, hfault, hother⟩
    obtain ⟨t, ht, hnamed⟩ := contains_iff.1 hcontains
    obtain ⟨i, hi⟩ := List.mem_iff_getElem?.1 ht
    have hpos := hs.position?_eq_some_iff.2 ⟨t, hi, hnamed⟩
    rw [rename_eq_done hs hpos hi hfault]
    · rfl
    · intro j u hj hnew
      have hu := hother u (List.mem_of_getElem? hj) hnew
      exact hs.eq_of_agree hj hi (Tag.agree_of_isNamed hu hnamed)
  · intro h
    obtain ⟨i, t, hi, ht, hfault, hother⟩ := exists_of_rename_ok hs h
    obtain ⟨t', ht', hnamed⟩ := hs.position?_eq_some_iff.1 hi
    rw [ht] at ht'
    cases ht'
    rw [rename_eq_done hs hi ht hfault hother]
    exact hs.set_eq_map ht hnamed fun u => ⟨Name.withoutTagMark newName, u.state⟩

/-- Removal takes out the tag that a name means and leaves the others in their order. -/
theorem remove_law (name : String) : (s.remove name).1 = s.get? name ∧
    (s.remove name).2.tags = s.tags.filter fun t => !t.isNamed name := by
  have hunique : s.tags.Pairwise fun t u => t.isNamed name = true → u.isNamed name = false := by
    refine hs.distinct.imp ?_
    intro t u hdistinct ht
    rw [← Bool.not_eq_true]
    intro hu
    rw [Tag.agree_of_isNamed ht hu] at hdistinct
    cases hdistinct
  rw [← eraseP_eq_filter hunique, List.eraseP_eq_eraseIdx, TagSet.remove, get?]
  have hpos : s.tags.findIdx? (fun t => t.isNamed name) = s.position? name := rfl
  rw [hpos]
  cases s.position? name with
  | none => exact ⟨rfl, rfl⟩
  | some i => exact ⟨rfl, rfl⟩

end WellNamed

/-- At most one tag is taken out. -/
theorem length_remove (name : String) :
    s.tags.length ≤ (s.remove name).2.tags.length + 1 := by
  unfold TagSet.remove
  split
  · rw [List.length_eraseIdx]
    split <;> omega
  · exact Nat.le_succ _

/-- Tags are refused together just if two of their names agree. -/
theorem ofList_law {tags : List Tag} (hbodies : ∀ t ∈ tags, Name.IsBody t.name.toList) :
    ((∃ e, ofList tags = .error e) ↔ ¬ Tag.Distinct tags) ∧
    ∀ s, ofList tags = .ok s → s.tags = tags := by
  refine ⟨?_, ?_⟩
  · cases h : ofList tags with
    | error e =>
      refine iff_of_true ⟨e, rfl⟩ ?_
      intro hdistinct
      rw [(ofList_eq_ok_iff hbodies).2 ⟨rfl, hdistinct⟩] at h
      cases h
    | ok s =>
      have hdistinct := ((ofList_eq_ok_iff hbodies).1 h).2
      exact iff_of_false nofun (not_not_intro hdistinct)
  · intro s h
    obtain ⟨rfl, -⟩ := (ofList_eq_ok_iff hbodies).1 h
    rfl

/-- **A tag set that callers can build is a map in order, from names to states.**  No two names in
it agree and none has the mark.  Setting changes the tag that the name means or appends one, and
every name that agrees finds it; adding is refused just for a name that agrees with one; a renaming
must not end at another tag's name, and keeps place and state; removal takes out one tag at most.
Tags are refused together just if two of their names agree. -/
theorem map_laws (hs : s.Reachable) :
    (Tag.Distinct s.tags ∧ ∀ t ∈ s.tags, t.name.toList.head? ≠ some Name.tagMark) ∧
    (∀ name, s.contains name = true ↔ ∃ t ∈ s.tags, t.isNamed name = true) ∧
    (∀ name state, Name.tagFault? name = none →
      (s.set name state).answer = .ok () ∧
      (∀ other, Name.agree (Name.withoutTagMark other) (Name.withoutTagMark name) = true →
        ((s.set name state).after.get? other).map Tag.state = some state) ∧
      (s.set name state).after.tags =
        (s.tags.map fun t => if t.isNamed name then t.setState state else t) ++
          (if s.contains name then [] else [⟨Name.withoutTagMark name, state⟩]) ∧
      (s.set name state).after.tags.length = s.tags.length + if s.contains name then 0 else 1) ∧
    (∀ t : Tag, t.Reachable →
      ((∃ e, (s.add t).answer = .error e) ↔ ∃ u ∈ s.tags, Name.agree u.name t.name = true) ∧
      ((s.add t).answer = .ok () → (s.add t).after.tags = s.tags ++ [t])) ∧
    (∀ name newName,
      ((s.rename name newName).answer = .ok () ↔ s.contains name = true ∧
        Name.tagFault? newName = none ∧
        ∀ t ∈ s.tags, t.isNamed newName = true → t.isNamed name = true) ∧
      ((s.rename name newName).answer = .ok () → (s.rename name newName).after.tags =
        s.tags.map fun t =>
          if t.isNamed name then ⟨Name.withoutTagMark newName, t.state⟩ else t)) ∧
    (∀ name, (s.remove name).1 = s.get? name ∧
      (s.remove name).2.tags = (s.tags.filter fun t => !t.isNamed name) ∧
      s.tags.length ≤ (s.remove name).2.tags.length + 1) ∧
    ∀ tags : List Tag, (∀ t ∈ tags, t.Reachable) →
      ((∃ e, ofList tags = .error e) ↔ ¬ Tag.Distinct tags) ∧
      ∀ s', ofList tags = .ok s' → s'.tags = tags := by
  have hwell := hs.wellNamed
  have hmark : ∀ t ∈ s.tags, t.name.toList.head? ≠ some Name.tagMark := fun t ht =>
    (hwell.bodies t ht).head?_ne Name.isAlphabetic_tagMark
  refine ⟨⟨hwell.distinct, hmark⟩, fun _ => contains_iff, ?_, ?_, hwell.rename_law, ?_, ?_⟩
  · intro name state hfault
    obtain ⟨hanswer, hafter⟩ := hwell.set_law hfault state
    refine ⟨hanswer, ?_, hafter, hwell.length_set hfault state⟩
    intro other hother
    exact hwell.get?_set hfault state hother
  · intro t ht
    exact add_law ht.isBody
  · intro name
    obtain ⟨hanswer, hafter⟩ := hwell.remove_law name
    exact ⟨hanswer, hafter, length_remove name⟩
  · intro tags htags
    exact ofList_law fun t ht => (htags t ht).isBody

/-- Two tags, set and renamed by names in several spellings. -/
def twoSpelled : TagSet :=
  ((((empty.set "Slow" true).after.set "@Ärger" false).after.rename "SLOW" "@slow").after.set
    "ÄRGER" true).after

theorem reachable_twoSpelled : twoSpelled.Reachable :=
  .set (.rename (.set (.set .empty "Slow" true) "@Ärger" false) "SLOW" "@slow") "ÄRGER" true

theorem map_laws_twoSpelled :
    twoSpelled.tags = [⟨"slow", true⟩, ⟨"Ärger", true⟩] ∧
    ((twoSpelled.set "@SLOW" false).after.get? "sLow").map Tag.state = some false ∧
    (twoSpelled.rename "@ärger" "Ärger").answer = .ok () ∧
    (twoSpelled.rename "Ärger" "SLOW").answer ≠ .ok () := by
  obtain ⟨-, -, hset, -, hrename, -⟩ := map_laws reachable_twoSpelled
  have htags : twoSpelled.tags = [⟨"slow", true⟩, ⟨"Ärger", true⟩] := by decide +kernel
  refine ⟨htags, ?_, ?_, ?_⟩
  · exact (hset "@SLOW" false (by decide +kernel)).2.1 "sLow" (by decide +kernel)
  · exact (hrename "@ärger" "Ärger").1.2 (by decide +kernel)
  · rw [ne_eq, (hrename "Ärger" "SLOW").1]
    decide +kernel

end TagSet

end MessageScript
