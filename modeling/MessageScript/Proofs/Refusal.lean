import MessageScript.Proofs.Field.Write
import MessageScript.Record

/-!
# Refused operations

An operation that is refused leaves behind exactly what it was performed on (`Edit.Atomic`): a tree
on every level with every index, a tag set, a field, a tag, a message.

For writing along a path this is so because what is made on the way is made in a new tree, in which
nothing stands in the way any more, and because no name is made that has not been checked before:

    nameFault? names = none → ∃ t', write path v names empty = .done () t'     (write_empty_eq_done)
    nameFault? names = none → (write path v names t).Atomic t                         (atomic_write)
-/

namespace MessageScript

/-- Whether an operation leaves behind what it was performed on if it is refused. -/
def Edit.Atomic {σ α : Type} (edit : Edit σ α) (before : σ) : Prop :=
  ∀ e, edit.answer = .error e → edit.after = before

namespace Edit

variable {σ τ α : Type}

theorem atomic_done (a : α) (after before : σ) : (done a after).Atomic before := by
  intro e h
  cases h

theorem atomic_refused (e : Error) (before : σ) : (refused e before : Edit σ α).Atomic before :=
  fun _ _ => rfl

/-- What is refused inside leaves what contains it as it was. -/
theorem Atomic.inside {edit : Edit σ α} {before : σ} (h : edit.Atomic before) (place : σ → τ) :
    (edit.inside place).Atomic (place before) :=
  fun e he => congrArg place (h e he)

end Edit

/-! ## Names of fields and tags -/

theorem Field.atomic_rename (f : Field) (name : String) : (f.rename name).Atomic f :=
  fun _ h => after_rename_of_refused h

theorem Tag.atomic_rename (tag : Tag) (name : String) : (tag.rename name).Atomic tag := by
  unfold Tag.rename
  split
  · exact Edit.atomic_done _ _ _
  · exact Edit.atomic_refused _ _

/-! ## Tag sets -/

namespace TagSet

theorem atomic_add (s : TagSet) (tag : Tag) : (s.add tag).Atomic s := by
  unfold add
  split
  · exact Edit.atomic_refused _ _
  · exact Edit.atomic_done _ _ _

theorem atomic_set (s : TagSet) (name : String) (state : Bool) : (s.set name state).Atomic s := by
  unfold set
  split
  · exact Edit.atomic_done _ _ _
  · split
    · exact Edit.atomic_done _ _ _
    · exact Edit.atomic_refused _ _

theorem atomic_rename (s : TagSet) (name newName : String) : (s.rename name newName).Atomic s := by
  unfold rename
  split
  · exact Edit.atomic_refused _ _
  · split
    · exact Edit.atomic_refused _ _
    · split
      · split
        · exact Edit.atomic_done _ _ _
        · exact Edit.atomic_refused _ _
      · exact Edit.atomic_done _ _ _

end TagSet

/-! ## Messages -/

namespace Message

theorem atomic_setSource (m : Message) (source : Endpoint) : (m.setSource source).Atomic m := by
  unfold setSource
  split
  · exact Edit.atomic_refused _ _
  · exact Edit.atomic_done _ _ _

theorem atomic_setDestination (m : Message) (destination : Endpoint) :
    (m.setDestination destination).Atomic m := by
  unfold setDestination
  split
  · exact Edit.atomic_refused _ _
  · exact Edit.atomic_done _ _ _

end Message

/-! ## Fields by position -/

namespace FieldTree

variable {t : FieldTree} {v : Payload} {name path : String} {names : List String}

theorem atomic_add (t : FieldTree) (name : String) (p : Payload) : (t.add name p).Atomic t := by
  unfold add
  split
  · exact Edit.atomic_done _ _ _
  · exact Edit.atomic_refused _ _

theorem atomic_insert (t : FieldTree) (i : Nat) (f : Field) : (t.insert i f).Atomic t := by
  unfold insert
  split
  · exact Edit.atomic_refused _ _
  · exact Edit.atomic_done _ _ _

theorem atomic_removeAt (t : FieldTree) (i : Nat) : (t.removeAt i).Atomic t := by
  unfold removeAt
  split
  · exact Edit.atomic_refused _ _
  · exact Edit.atomic_done _ _ _

theorem atomic_rename (t : FieldTree) (i : Nat) (name : String) : (t.rename i name).Atomic t := by
  unfold rename
  split
  · exact Edit.atomic_refused _ _
  · next f hf =>
    simp only
    split
    · exact Edit.atomic_done _ _ _
    · next e he =>
      rw [after_rename_of_refused he, mk_set_self hf]
      exact Edit.atomic_refused _ _

/-! ## Fields by path -/

theorem nameFault?_cons_eq_none : nameFault? (name :: names) = none ↔
    Name.fieldFault? name = none ∧ nameFault? names = none := by
  rw [nameFault?, Name.field]
  cases hcheck : Name.checked Name.fieldFault? name with
  | error e =>
    constructor
    · intro h
      cases h
    · rintro ⟨hfault, -⟩
      rw [Name.checked_eq_ok_iff.2 ⟨hfault, rfl⟩] at hcheck
      cases hcheck
  | ok checked => rw [and_iff_right (Name.checked_eq_ok_iff.1 hcheck).1]

/-- In an empty tree nothing stands in the way of names that keep the rules. -/
theorem write_empty_eq_done (path : String) (v : Payload) (hne : names ≠ [])
    (hfault : nameFault? names = none) : ∃ t', write path v names empty = .done () t' := by
  induction names with
  | nil => exact absurd rfl hne
  | cons name rest ih =>
    obtain ⟨hname, hrest⟩ := nameFault?_cons_eq_none.1 hfault
    have hmissing : empty.firstPosition? name = none := rfl
    by_cases hlast : rest = []
    · subst hlast
      refine ⟨empty.push ⟨name, v, TagSet.empty⟩, ?_⟩
      rw [write, hmissing]
      exact add_eq_done hname _ _
    · obtain ⟨t', ht'⟩ := ih hlast hrest
      refine ⟨(empty.push ⟨name, .tree empty, TagSet.empty⟩).withPayload 0 (.tree t'), ?_⟩
      rw [write, hmissing]
      · simp only
        rw [add_eq_done hname]
        simp only [Edit.answer_done, Edit.after_done]
        rw [ht']
        rfl
      · exact hlast

theorem atomic_write (path : String) (v : Payload) (t : FieldTree)
    (hfault : nameFault? names = none) : (write path v names t).Atomic t := by
  fun_induction write path v names t with
  | case1 t => exact Edit.atomic_refused _ _
  | case2 leaf t i hi => exact Edit.atomic_done _ _ _
  | case3 leaf t hi => exact atomic_add t leaf v
  | case4 name rest t hrest i hi nested hn ih =>
    obtain ⟨f, hf, hpayload⟩ := Option.map_eq_some_iff.1 hn
    have hinside := (ih (nameFault?_cons_eq_none.1 hfault).2).inside fun nested =>
      t.withPayload i (.tree nested)
    rw [← hpayload, withPayload_self hf] at hinside
    exact hinside
  | case5 name rest t hrest i hi hn => exact Edit.atomic_refused _ _
  | case6 name rest t hrest hi made e he =>
    rw [atomic_add t name _ e he]
    exact Edit.atomic_refused _ _
  | case7 name rest t hrest hi made a ha ih =>
    -- from the first field that is made on, everything is new and the writing is done
    obtain ⟨t', ht'⟩ := write_empty_eq_done path v hrest
      (nameFault?_cons_eq_none.1 hfault).2
    rw [ht']
    exact Edit.atomic_done _ _ _

theorem atomic_set (t : FieldTree) (path : String) (v : Payload) : (t.set path v).Atomic t := by
  unfold set
  split
  · exact Edit.atomic_refused _ _
  · next hfault => exact atomic_write path v t hfault

end FieldTree

/-! ## All of them -/

/-- **A refused operation leaves what it was performed on as it was**, on every level and with every
index: adding, inserting, taking out, renaming and writing in a tree, renaming a field or a tag,
adding, setting and renaming in a tag set, and letting a message start or end elsewhere. -/
theorem refused_leaves_as_before :
    (∀ (t : FieldTree) (name : String) (p : Payload), (t.add name p).Atomic t) ∧
    (∀ (t : FieldTree) (i : Nat) (f : Field), (t.insert i f).Atomic t) ∧
    (∀ (t : FieldTree) (i : Nat), (t.removeAt i).Atomic t) ∧
    (∀ (t : FieldTree) (i : Nat) (name : String), (t.rename i name).Atomic t) ∧
    (∀ (t : FieldTree) (path : String) (p : Payload), (t.set path p).Atomic t) ∧
    (∀ (f : Field) (name : String), (f.rename name).Atomic f) ∧
    (∀ (tag : Tag) (name : String), (tag.rename name).Atomic tag) ∧
    (∀ (s : TagSet) (tag : Tag), (s.add tag).Atomic s) ∧
    (∀ (s : TagSet) (name : String) (state : Bool), (s.set name state).Atomic s) ∧
    (∀ (s : TagSet) (name newName : String), (s.rename name newName).Atomic s) ∧
    (∀ (m : Message) (source : Endpoint), (m.setSource source).Atomic m) ∧
    ∀ (m : Message) (destination : Endpoint), (m.setDestination destination).Atomic m :=
  ⟨FieldTree.atomic_add, FieldTree.atomic_insert, FieldTree.atomic_removeAt,
    FieldTree.atomic_rename, FieldTree.atomic_set, Field.atomic_rename, Tag.atomic_rename,
    TagSet.atomic_add, TagSet.atomic_set, TagSet.atomic_rename, Message.atomic_setSource,
    Message.atomic_setDestination⟩

/-- The tree of `FieldTree.planted` after its field was handed out: its index is gone. -/
def FieldTree.handedOut : FieldTree := (planted.editAt 0 fun f => ((), f)).2

/-- A path through a value is refused behind a level without index, and nothing is left of it. -/
theorem refused_leaves_handedOut : FieldTree.handedOut.index = none ∧
    (FieldTree.handedOut.set "a/B/c" (.value (.text "2"))).answer =
      .error (FieldTree.holdsValue "B" "a/B/c") ∧
    (FieldTree.handedOut.set "a/B/c" (.value (.text "2"))).after = FieldTree.handedOut := by
  have hrefused : (FieldTree.handedOut.set "a/B/c" (.value (.text "2"))).answer =
      .error (FieldTree.holdsValue "B" "a/B/c") := by decide +kernel
  obtain ⟨-, -, -, -, hset, -⟩ := refused_leaves_as_before
  exact ⟨rfl, hrefused, hset _ _ _ _ hrefused⟩

end MessageScript
