import MessageScript.Proofs.Field.Invariant
import MessageScript.Proofs.Field.Lookup

/-!
# The index of a tree is right

Operations treat the index in four ways: appending files one more name, inserting, removing and
renaming build it anew, handing out a field drops it, and writing along a path leaves it alone,
since payloads do not matter to it.  In each case it stays right for the names of the level, so in
all trees that callers can build lookups by index answer what a scan by key answers.

    t.Reachable → t.Everywhere Coherent                                   (coherent_of_reachable)
-/

namespace MessageScript.FieldTree

variable {t : FieldTree}

@[simp] theorem names_push (t : FieldTree) (f : Field) :
    (t.push f).names = t.names ++ [f.name] := by
  simp [names]

/-- New payloads leave the names as they are. -/
@[simp] theorem names_withPayload (t : FieldTree) (i : Nat) (p : Payload) :
    (t.withPayload i p).names = t.names := by
  apply List.ext_getElem?
  intro k
  rw [names, names, withPayload, List.getElem?_map, List.getElem?_map, List.getElem?_modify]
  cases t.entries[k]? with
  | none => rfl
  | some f => by_cases hk : i = k <;> simp [hk]

theorem coherent_reindexed (t : FieldTree) : t.reindexed.Coherent := by
  intro ix hix
  cases hix
  exact NameIndex.describes_ofNames t.names

theorem coherent_of_no_index (h : t.index = none) : t.Coherent := by
  intro ix hix
  rw [h] at hix
  cases hix

theorem Coherent.indexed (h : t.Coherent) : t.indexed.Coherent := by
  unfold FieldTree.indexed
  split
  · exact h
  · exact coherent_reindexed t

theorem isSome_index_indexed (t : FieldTree) : t.indexed.index.isSome = true := by
  unfold FieldTree.indexed
  split
  · next h =>
    rw [h]
    rfl
  · rfl

theorem Coherent.push (h : t.Coherent) (f : Field) : (t.push f).Coherent := by
  intro ix hix
  obtain ⟨old, hold, rfl⟩ := Option.map_eq_some_iff.1 hix
  have hnames : t.indexed.names = t.names := by rw [names, entries_indexed, names]
  have hright := (h.indexed old hold).add f.name
  rw [hnames] at hright
  rw [names_push]
  have hlength : t.indexed.entries.length = t.names.length := by simp [names]
  rw [hlength]
  exact hright

theorem Coherent.withPayload (h : t.Coherent) (i : Nat) (p : Payload) :
    (t.withPayload i p).Coherent := by
  intro ix hix
  rw [names_withPayload]
  exact h ix hix

theorem levelInvariant_coherent : LevelInvariant Coherent fun _ => True where
  reindexed := coherent_reindexed
  dropped _ := coherent_of_no_index rfl
  push _ f h := h.push f
  withPayload _ i p h := h.withPayload i p
  make _ _ _ _ := trivial
  rename _ _ _ := trivial
  setPayload _ _ _ := trivial
  setTags _ _ _ _ := trivial

/-- On every level of a tree that callers can build, the index is absent or right. -/
theorem coherent_of_reachable (ht : t.Reachable) : t.Everywhere Coherent :=
  (levelInvariant_coherent.holds_of_reachable ht).mono fun _ hs => hs.1

/-- **The index is right after every run.**  On every level, what an index files under a key are the
positions of the fields whose names have that key, in ascending order; and with an index, lookups
answer what a scan answers that compares keys. -/
theorem index_right_of_reachable (ht : t.Reachable) : t.Everywhere fun s =>
    ∀ ix, s.index = some ix →
      (∀ key, (ix.positions key).Pairwise (· < ·) ∧
        ∀ i, i ∈ ix.positions key ↔ ∃ f, s.entries[i]? = some f ∧ Name.key f.name = key) ∧
      ∀ name,
        s.findFirst? name = s.entries.find? (fun f => Name.key f.name == Name.key name) ∧
        s.findLast? name =
          (s.entries.filter fun f => Name.key f.name == Name.key name).getLast? ∧
        s.findAll name = s.entries.filter (fun f => Name.key f.name == Name.key name) ∧
        s.contains name = s.entries.any (fun f => Name.key f.name == Name.key name) := by
  intro s hs ix hix
  have hc : s.Coherent := coherent_of_reachable ht s hs
  have hix' : s.index.isSome = true := by
    rw [hix]
    rfl
  constructor
  · intro key
    refine ⟨(hc ix hix).pairwise key, ?_⟩
    intro i
    rw [(hc ix hix).mem_positions key i, names, List.getElem?_map]
    constructor
    · rintro ⟨name, hname, hkey⟩
      obtain ⟨f, hf, rfl⟩ := Option.map_eq_some_iff.1 hname
      exact ⟨f, hf, hkey⟩
    · rintro ⟨f, hf, hkey⟩
      exact ⟨f.name, by rw [hf]; rfl, hkey⟩
  · intro name
    rw [← picks_of_index hix' name]
    exact ⟨findFirst?_eq_find? hc name, findLast?_eq_getLast? hc name,
      findAll_eq_filter hc name, contains_eq_any hc name⟩

/-- A tree after a run: a field is written into through its folded name, handed out and renamed,
another is appended, and a renaming is refused. -/
def renamedThenAppended : FieldTree :=
  let written := ((empty.add "ΑΣ" (.tree empty)).after.set "ας/b" (.value (.text "1"))).after
  let renamed := (written.editAt 0 fun f => ((), (f.rename "C").after)).2
  ((renamed.add "c" (.value (.text "2"))).after.rename 7 "d").after

theorem reachable_renamedThenAppended : renamedThenAppended.Reachable := by
  have hadded := FieldTree.Reachable.empty.change (.add "ΑΣ" (.tree .empty))
  have hwritten := hadded.change (.set "ας/b" (.value (.text "1")))
  refine .change (.change (.change hwritten (.editAt 0 ?_)) (.add "c" ?_)) (.rename 7 "d")
  · intro f hf
    exact (Field.Reachable.member hwritten hf).rename "C"
  · exact .value (.text "2")

/-- After the run the index is there and finds both fields, in order. -/
theorem index_right_renamedThenAppended : renamedThenAppended.Reachable ∧
    ∃ ix, renamedThenAppended.index = some ix ∧
      (∀ i, i ∈ ix.positions "c" ↔
        ∃ f, renamedThenAppended.entries[i]? = some f ∧ Name.key f.name = "c") ∧
      (renamedThenAppended.findAll "C").map Field.name = ["C", "c"] := by
  refine ⟨reachable_renamedThenAppended, ?_⟩
  have hright := (index_right_of_reachable reachable_renamedThenAppended).here
  obtain ⟨ix, hix⟩ := Option.isSome_iff_exists.1
    (show renamedThenAppended.index.isSome = true by decide +kernel)
  exact ⟨ix, hix, ((hright ix hix).1 "c").2, by decide +kernel⟩

end MessageScript.FieldTree
