import MessageScript.Proofs.Field.Write
import MessageScript.Proofs.Tag

/-!
# Names in field trees

A field gets its name and its tags where they are checked: when it is made, by its constructors, by
writing along a path or by reading a stored form, when it is given another name, and when its tags
are changed.  New payloads have no part in it.  So in all trees that callers can build the names of
fields keep the rules, and their tag sets are maps.

    t.Reachable → t.Everywhere fun s => ∀ f ∈ s.entries, f.WellNamed      (wellNamed_of_reachable)
-/

namespace MessageScript

/-- Whether the name of a field and those of its tags keep the rules. -/
structure Field.WellNamed (f : Field) : Prop where
  name : Name.fieldFault? f.name = none
  tags : f.tags.WellNamed

namespace Field

variable {f : Field} {name : String} {p : Payload}

theorem wellNamed_make (h : Field.make name p = .ok f) : f.WellNamed := by
  obtain ⟨hfault, rfl⟩ := FieldTree.make_eq_ok_iff.1 h
  exact ⟨hfault, TagSet.wellNamed_empty⟩

/-- Callers can build a field of any name that keeps the rules. -/
theorem reachable_of_fault (hname : Name.fieldFault? name = none) (hp : p.Reachable) :
    Field.Reachable ⟨name, p, .empty⟩ :=
  .make hp (FieldTree.make_eq_ok_iff.2 ⟨hname, rfl⟩)

/-- A new name is one that keeps the rules, or the old one stays. -/
theorem WellNamed.rename (hf : f.WellNamed) (name : String) : (f.rename name).after.WellNamed := by
  unfold Field.rename Name.field
  split
  · next checked hchecked =>
    obtain ⟨hfault, rfl⟩ := Name.checked_eq_ok_iff.1 hchecked
    exact ⟨hfault, hf.tags⟩
  · exact hf

end Field

theorem levelInvariant_wellNamed : LevelInvariant (fun _ => True) Field.WellNamed where
  reindexed _ := trivial
  dropped _ := trivial
  push _ _ _ := trivial
  withPayload _ _ _ _ := trivial
  make _ _ _ h := Field.wellNamed_make h
  rename _ name h := h.rename name
  setPayload _ _ h := ⟨h.name, h.tags⟩
  setTags _ _ h ht := ⟨h.name, ht.wellNamed⟩

namespace FieldTree

variable {t : FieldTree}

/-- On every level of a tree that callers can build, fields and tags have names that keep the
rules. -/
theorem wellNamed_of_reachable (ht : t.Reachable) :
    t.Everywhere fun s => ∀ f ∈ s.entries, f.WellNamed :=
  (levelInvariant_wellNamed.holds_of_reachable ht).mono fun _ hs => hs.2

/-- **Names keep the rules after every run.**  On every level, the name of a field, without one
header mark if it has it, is a letter and what follows it, with no blank, slash or backslash; and
the names of its tags keep the rules for tags and no two of them agree. -/
theorem names_right_of_reachable (ht : t.Reachable) : t.Everywhere fun s => ∀ f ∈ s.entries,
    (∃ c rest, Name.withoutMark Name.headerMark f.name.toList = c :: rest ∧
      Text.isAlphabetic c = true ∧
      ∀ d ∈ c :: rest, Text.isBlank d = false ∧ d ≠ '/' ∧ d ≠ '\\') ∧
    (∀ tag ∈ f.tags.tags, Name.tagFault? tag.name = none) ∧
    f.tags.tags.Pairwise fun a b => Name.agree a.name b.name = false := by
  intro s hs f hf
  have hwell := wellNamed_of_reachable ht s hs f hf
  obtain ⟨⟨⟨c, rest, hbody, halpha⟩, hblank⟩, hseparator⟩ :=
    Name.fieldFault?_eq_none_iff.1 hwell.name
  rw [hbody] at hblank hseparator
  refine ⟨⟨c, rest, hbody, halpha, ?_⟩, ?_, hwell.tags.distinct⟩
  · intro d hd
    refine ⟨hblank d hd, ?_, ?_⟩
    · rintro rfl
      cases hseparator _ hd
    · rintro rfl
      cases hseparator _ hd
  · intro tag htag
    exact Name.tagFault?_of_isBody (hwell.tags.bodies tag htag)

/-- A tree after a run: a header field is written into a new one, the new one gets a tag under two
spellings of its name, and a renaming is refused. -/
def taggedOrder : FieldTree :=
  let written := (empty.set "Order/.Id" (.value (.text "7"))).after
  let tagged := written.editAt 0 fun f =>
    ((), { f with tags := ((f.tags.set "@Slow" true).after.set "SLOW" false).after })
  (tagged.2.rename 0 "no/good").after

theorem reachable_taggedOrder : taggedOrder.Reachable := by
  have hwritten := FieldTree.Reachable.empty.change (.set "Order/.Id" (.value (.text "7")))
  refine .change (.change hwritten (.editAt 0 ?_)) (.rename 0 "no/good")
  intro f hf
  have htags : f.tags = .empty := by
    revert f
    decide +kernel
  rw [htags]
  exact .setTags (.member hwritten hf) (.set (.set .empty "@Slow" true) "SLOW" false)

theorem names_right_taggedOrder : taggedOrder.Reachable ∧ taggedOrder.names = ["Order"] ∧
    (∀ f ∈ taggedOrder.entries, f.tags.tags = [⟨"Slow", false⟩] ∧
      ∀ tag ∈ f.tags.tags, Name.tagFault? tag.name = none) ∧
    ∃ nested, taggedOrder.Level nested ∧ nested.names = [".Id"] ∧ ∀ f ∈ nested.entries,
      ∃ c rest, Name.withoutMark Name.headerMark f.name.toList = c :: rest ∧
        Text.isAlphabetic c = true := by
  have hright := names_right_of_reachable reachable_taggedOrder
  have htags : ∀ f ∈ taggedOrder.entries, f.tags.tags = [⟨"Slow", false⟩] := by decide +kernel
  refine ⟨reachable_taggedOrder, by decide +kernel, ?_, ?_⟩
  · intro f hf
    exact ⟨htags f hf, (hright.here f hf).2.1⟩
  · obtain ⟨f, hf, hnested⟩ : ∃ f ∈ taggedOrder.entries,
        f.payload.tree?.map names = some [".Id"] := by decide +kernel
    obtain ⟨nested, htree, hnames⟩ := Option.map_eq_some_iff.1 hnested
    have hlevel := Level.inside hf (Payload.eq_tree_of_tree? htree) (.here nested)
    refine ⟨nested, hlevel, hnames, ?_⟩
    intro g hg
    obtain ⟨⟨c, rest, hbody, halpha, -⟩, -⟩ := hright nested hlevel g hg
    exact ⟨c, rest, hbody, halpha⟩

end FieldTree

end MessageScript
