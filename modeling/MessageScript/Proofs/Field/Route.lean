import MessageScript.Proofs.Field.Naming
import MessageScript.Proofs.Field.Walk
import MessageScript.Proofs.Path

/-!
# Paths lead where walks have been

A field stands at the positions that lead to it, under the names on the way (`At`).  The visits of a
walk are the fields at all positions, in ascending order (`placed`), so each visit is one field of
the tree and no other, even if another has its name and payload.

The path of a visit is split into the names on the way, since no name has separators in it.  What a
path leads to is a field that a walk visits, under the same keys; and if no two fields on a level
have one key, each way to spell those names, and names with their keys, leads back to the field.

    (a, path, f) ∈ t.placedWalk → t.At a (segments path) f                (at_of_mem_placedWalk)
    follow? names t = some f → t.At a names' f with the keys of names          (exists_at)
    t.At a names f → address? names t = some a ∧ follow? names t = some f          (At.follow?_eq)
-/

namespace MessageScript

/-! ## Fields at positions -/

/-- The field `f` stands at positions in a tree, one on each level, and names lead to it. -/
inductive FieldTree.At : FieldTree → List Nat → List String → Field → Prop
  | here {t : FieldTree} {i : Nat} {f : Field} (hf : t.get? i = some f) : At t [i] [f.name] f
  | inside {t nested : FieldTree} {i : Nat} {a : List Nat} {names : List String} {f g : Field}
      (hf : t.get? i = some f) (hn : f.payload = .tree nested) (h : At nested a names g) :
      At t (i :: a) (f.name :: names) g

mutual

/-- A field at a position and the fields in it in pre-order, each with the positions and the names
from the first to it. -/
def Field.placed (i : Nat) : Field → List (List Nat × List String × Field)
  | ⟨name, payload, tags⟩ =>
    ([i], [name], ⟨name, payload, tags⟩) ::
      payload.placed.map fun v => (i :: v.1, name :: v.2.1, v.2.2)

/-- The fields in a payload in pre-order, with their positions and names. -/
def Payload.placed : Payload → List (List Nat × List String × Field)
  | .value _ => []
  | .tree t => t.placed

/-- The fields of a tree at all levels in pre-order, with their positions and names. -/
def FieldTree.placed : FieldTree → List (List Nat × List String × Field)
  | ⟨entries, _⟩ => placedFields 0 entries

/-- The fields of a sequence that starts at a position, and those in them, in pre-order. -/
def placedFields (i : Nat) : List Field → List (List Nat × List String × Field)
  | [] => []
  | f :: rest => f.placed i ++ placedFields (i + 1) rest

end

mutual

theorem Field.map_snd_placed (i : Nat) : ∀ f : Field, (f.placed i).map Prod.snd = f.visits
  | ⟨name, payload, tags⟩ => by
    rw [Field.placed, Field.visits, ← Payload.map_snd_placed payload, List.map_cons, List.map_map,
      List.map_map]
    rfl

theorem Payload.map_snd_placed : ∀ p : Payload, p.placed.map Prod.snd = p.visits
  | .value _ => by rw [Payload.placed, Payload.visits, List.map_nil]
  | .tree t => by rw [Payload.placed, Payload.visits, FieldTree.map_snd_placed t]

theorem FieldTree.map_snd_placed : ∀ t : FieldTree, t.placed.map Prod.snd = t.visits
  | ⟨entries, _⟩ => by rw [FieldTree.placed, FieldTree.visits, map_snd_placedFields 0 entries]

theorem map_snd_placedFields (i : Nat) :
    ∀ fields : List Field, (placedFields i fields).map Prod.snd = visitsOfFields fields
  | [] => by rw [placedFields, visitsOfFields, List.map_nil]
  | f :: rest => by
    rw [placedFields, visitsOfFields, List.map_append, Field.map_snd_placed i f,
      map_snd_placedFields (i + 1) rest]

end

mutual

/-- What is placed stands there; the recursion is that of the fields. -/
theorem Field.at_of_mem_placed {i : Nat} : ∀ (f : Field) {v : List Nat × List String × Field}
    {t : FieldTree}, v ∈ f.placed i → t.get? i = some f → t.At v.1 v.2.1 v.2.2
  | ⟨name, payload, tags⟩, v, t, hv, hf => by
    rw [Field.placed] at hv
    rcases List.mem_cons.1 hv with rfl | hv
    · exact .here hf
    · obtain ⟨w, hw, rfl⟩ := List.mem_map.1 hv
      obtain ⟨nested, rfl, hat⟩ := Payload.at_of_mem_placed payload hw
      exact .inside hf rfl hat

theorem Payload.at_of_mem_placed : ∀ (p : Payload) {v : List Nat × List String × Field},
    v ∈ p.placed → ∃ t, p = .tree t ∧ t.At v.1 v.2.1 v.2.2
  | .value _, v, hv => by
    rw [Payload.placed] at hv
    cases hv
  | .tree t, v, hv => by
    rw [Payload.placed] at hv
    exact ⟨t, rfl, FieldTree.at_of_mem_placed t hv⟩

theorem FieldTree.at_of_mem_placed : ∀ (t : FieldTree) {v : List Nat × List String × Field},
    v ∈ t.placed → t.At v.1 v.2.1 v.2.2
  | ⟨entries, index⟩, v, hv => by
    rw [FieldTree.placed] at hv
    refine at_of_mem_placedFields entries hv ?_
    intro k
    rw [Nat.zero_add]
    rfl

theorem at_of_mem_placedFields : ∀ (fields : List Field) {i : Nat}
    {v : List Nat × List String × Field} {t : FieldTree}, v ∈ placedFields i fields →
      (∀ k, t.get? (i + k) = fields[k]?) → t.At v.1 v.2.1 v.2.2
  | [], _, v, _, hv, _ => by
    rw [placedFields] at hv
    cases hv
  | f :: rest, i, v, t, hv, hget => by
    rw [placedFields] at hv
    rcases List.mem_append.1 hv with hv | hv
    · exact Field.at_of_mem_placed f hv (hget 0)
    · refine at_of_mem_placedFields rest hv ?_
      intro k
      rw [Nat.add_right_comm, Nat.add_assoc]
      exact hget (k + 1)

end

theorem mem_placedFields {fields : List Field} {k : Nat} {f : Field} (hf : fields[k]? = some f)
    {i : Nat} {v : List Nat × List String × Field} (hv : v ∈ f.placed (i + k)) :
    v ∈ placedFields i fields := by
  induction fields generalizing i k with
  | nil => cases hf
  | cons g rest ih =>
    rw [placedFields, List.mem_append]
    cases k with
    | zero =>
      cases hf
      exact .inl hv
    | succ k =>
      refine .inr (ih hf ?_)
      rw [Nat.add_assoc, Nat.add_comm 1 k]
      exact hv

namespace FieldTree

variable {t : FieldTree} {a : List Nat} {names : List String} {f : Field}

theorem placed_eq (t : FieldTree) : t.placed = placedFields 0 t.entries := by
  cases t
  rw [placed]

theorem At.mem_placed (h : t.At a names f) : (a, names, f) ∈ t.placed := by
  induction h with
  | @here t i f hf =>
    obtain ⟨name, payload, tags⟩ := f
    rw [placed_eq]
    refine mem_placedFields hf ?_
    rw [Field.placed, Nat.zero_add]
    exact List.mem_cons_self
  | @inside t nested i a names f g hf hn _ ih =>
    obtain ⟨name, payload, tags⟩ := f
    cases hn
    rw [placed_eq]
    refine mem_placedFields hf ?_
    rw [Field.placed, Payload.placed, Nat.zero_add]
    exact List.mem_cons_of_mem _ (List.mem_map_of_mem ih)

/-- The fields placed are those that stand somewhere in the tree. -/
theorem mem_placed_iff : (a, names, f) ∈ t.placed ↔ t.At a names f :=
  ⟨at_of_mem_placed t, At.mem_placed⟩

theorem At.ne_nil (h : t.At a names f) : a ≠ [] ∧ names ≠ [] := by
  cases h with
  | here _ => exact ⟨List.cons_ne_nil _ _, List.cons_ne_nil _ _⟩
  | inside _ _ _ => exact ⟨List.cons_ne_nil _ _, List.cons_ne_nil _ _⟩

end FieldTree

/-! ## Each position once -/

theorem Field.exists_of_mem_placed {f : Field} {i : Nat} {v : List Nat × List String × Field}
    (hv : v ∈ f.placed i) : ∃ a, v.1 = i :: a := by
  obtain ⟨name, payload, tags⟩ := f
  rw [Field.placed] at hv
  rcases List.mem_cons.1 hv with rfl | hv
  · exact ⟨[], rfl⟩
  · obtain ⟨w, -, rfl⟩ := List.mem_map.1 hv
    exact ⟨w.1, rfl⟩

theorem exists_of_mem_placedFields {fields : List Field} {i : Nat}
    {v : List Nat × List String × Field} (hv : v ∈ placedFields i fields) :
    ∃ k a, i ≤ k ∧ v.1 = k :: a := by
  induction fields generalizing i with
  | nil =>
    rw [placedFields] at hv
    cases hv
  | cons f rest ih =>
    rw [placedFields] at hv
    rcases List.mem_append.1 hv with hv | hv
    · obtain ⟨a, ha⟩ := Field.exists_of_mem_placed hv
      exact ⟨i, a, Nat.le_refl i, ha⟩
    · obtain ⟨k, a, hk, ha⟩ := ih hv
      exact ⟨k, a, by omega, ha⟩

/-- Whether visits come in the ascending order of their positions. -/
def Ascending (visits : List (List Nat × List String × Field)) : Prop :=
  visits.Pairwise fun v w => v.1 < w.1

mutual

theorem Field.ascending_placed (i : Nat) : ∀ f : Field, Ascending (f.placed i)
  | ⟨name, payload, tags⟩ => by
    rw [Field.placed]
    refine List.pairwise_cons.2 ⟨?_, ?_⟩
    · intro v hv
      obtain ⟨w, hw, rfl⟩ := List.mem_map.1 hv
      obtain ⟨nested, -, hat⟩ := Payload.at_of_mem_placed payload hw
      obtain ⟨k, a, ha⟩ := List.exists_cons_of_ne_nil hat.ne_nil.1
      show [i] < i :: w.1
      rw [List.cons_lt_cons_self, ha]
      exact List.nil_lt_cons k a
    · refine List.pairwise_map.2 ((Payload.ascending_placed payload).imp ?_)
      intro v w h
      exact List.cons_lt_cons_self.2 h

theorem Payload.ascending_placed : ∀ p : Payload, Ascending p.placed
  | .value _ => by
    rw [Payload.placed]
    exact .nil
  | .tree t => by
    rw [Payload.placed]
    exact FieldTree.ascending_placed t

theorem FieldTree.ascending_placed : ∀ t : FieldTree, Ascending t.placed
  | ⟨entries, _⟩ => by
    rw [FieldTree.placed]
    exact ascending_placedFields 0 entries

theorem ascending_placedFields (i : Nat) :
    ∀ fields : List Field, Ascending (placedFields i fields)
  | [] => by
    rw [placedFields]
    exact .nil
  | f :: rest => by
    rw [placedFields]
    have hfirst := Field.ascending_placed i f
    refine List.pairwise_append.2 ⟨hfirst, ascending_placedFields (i + 1) rest, ?_⟩
    intro v hv w hw
    obtain ⟨a, ha⟩ := Field.exists_of_mem_placed hv
    obtain ⟨k, b, hk, hb⟩ := exists_of_mem_placedFields hw
    rw [ha, hb, List.cons_lt_cons_iff]
    exact .inl hk

end

namespace FieldTree

variable {t : FieldTree} {a : List Nat} {names names' : List String} {f : Field} {path : String}

/-! ## Walks with positions -/

/-- The visits of a walk, each with the positions of its field. -/
def placedWalk (t : FieldTree) : List (List Nat × String × Field) :=
  t.placed.map fun v => (v.1, String.intercalate "/" v.2.1, v.2.2)

theorem map_snd_placedWalk (t : FieldTree) : t.placedWalk.map Prod.snd = t.walk := by
  rw [walk, Walk.run_eq_remaining, remaining_start_false, preorder, ← map_snd_placed, placedWalk,
    List.map_map, List.map_map]
  rfl

/-- Each field is visited once. -/
theorem pairwise_placedWalk (t : FieldTree) : t.placedWalk.Pairwise fun v w => v.1 < w.1 :=
  List.pairwise_map.2 (ascending_placed t)

theorem mem_placedWalk_iff : (a, path, f) ∈ t.placedWalk ↔
    ∃ names, t.At a names f ∧ path = String.intercalate "/" names := by
  constructor
  · intro h
    obtain ⟨⟨b, names, g⟩, hmem, heq⟩ := List.mem_map.1 h
    cases heq
    exact ⟨names, mem_placed_iff.1 hmem, rfl⟩
  · rintro ⟨names, hat, rfl⟩
    exact List.mem_map.2 ⟨(a, names, f), hat.mem_placed, rfl⟩

/-! ## Names on the way -/

theorem isSegment_of_wellNamed (h : f.WellNamed) : Path.IsSegment f.name :=
  ⟨Name.toList_ne_nil_of_fieldFault? h.name, fun _ => Name.isSeparator_of_fieldFault? h.name⟩

theorem At.isSegment (h : t.At a names f)
    (ht : t.Everywhere fun s => ∀ f ∈ s.entries, f.WellNamed) :
    ∀ name ∈ names, Path.IsSegment name := by
  induction h with
  | @here t i f hf =>
    intro name hname
    rw [List.mem_singleton.1 hname]
    exact isSegment_of_wellNamed (ht.here f (List.mem_of_getElem? hf))
  | @inside t nested i a names f g hf hn _ ih =>
    have hmem : f ∈ t.entries := List.mem_of_getElem? hf
    intro name hname
    rcases List.mem_cons.1 hname with rfl | hname
    · exact isSegment_of_wellNamed (ht.here f hmem)
    · exact ih (ht.payload hmem nested hn) name hname

/-- The path of a visit is split into the names that lead to its field. -/
theorem at_of_mem_placedWalk (ht : t.Everywhere fun s => ∀ f ∈ s.entries, f.WellNamed)
    (h : (a, path, f) ∈ t.placedWalk) : t.At a (Path.segments path) f := by
  obtain ⟨names, hat, rfl⟩ := mem_placedWalk_iff.1 h
  rw [Path.segments_of_spells (Path.spells_intercalate hat.ne_nil.2) (hat.isSegment ht)]
  exact hat

/-! ## Lookup -/

/-- What names lead to stands at their address, under names with their keys. -/
theorem exists_at (ht : t.Everywhere Indexed) (h : follow? names t = some f) :
    ∃ a names', address? names t = some a ∧ t.At a names' f ∧
      names'.map Name.key = names.map Name.key := by
  induction names generalizing t with
  | nil => cases h
  | cons name rest ih =>
    by_cases hrest : rest = []
    · subst hrest
      obtain ⟨i, hi, hf⟩ := Option.bind_eq_some_iff.1 h
      obtain ⟨g, hg, hkey⟩ := ht.here.exists_of_firstPosition? hi
      rw [hf] at hg
      cases hg
      exact ⟨[i], [f.name], address?_singleton hi, .here hf, congrArg (fun key => [key]) hkey⟩
    · rw [follow?_cons hrest] at h
      obtain ⟨nested, hnested, hfollow⟩ := Option.bind_eq_some_iff.1 h
      obtain ⟨g, hg, htree⟩ := Option.bind_eq_some_iff.1 hnested
      obtain ⟨i, hi, hget⟩ := Option.bind_eq_some_iff.1 hg
      obtain ⟨g', hg', hkey⟩ := ht.here.exists_of_firstPosition? hi
      rw [hget] at hg'
      cases hg'
      have hn := Payload.eq_tree_of_tree? htree
      obtain ⟨a, names', ha, hat, hkeys⟩ :=
        ih (ht.payload (List.mem_of_getElem? hget) nested hn) hfollow
      refine ⟨i :: a, g.name :: names', ?_, .inside hget hn hat, ?_⟩
      · rw [address?_cons hrest hi hget hn, ha]
        rfl
      · rw [List.map_cons, List.map_cons, hkey, hkeys]

/-- Whether no two fields on a level have names with one key. -/
def DistinctKeys (t : FieldTree) : Prop :=
  t.entries.Pairwise fun f g => Name.key f.name ≠ Name.key g.name

/-- Where keys are not shared, a name leads to the field with its key. -/
theorem Indexed.firstPosition?_of_distinct (ht : t.Indexed) (hd : t.DistinctKeys) {i : Nat}
    {name : String} (hf : t.get? i = some f) (hkey : Name.key name = Name.key f.name) :
    t.firstPosition? name = some i := by
  obtain ⟨hi, hget⟩ := List.getElem?_eq_some_iff.1 hf
  rw [ht.firstPosition?_eq, List.findIdx?_eq_some_iff_getElem]
  refine ⟨hi, ?_, ?_⟩
  · rw [hget, hkey]
    exact beq_self_eq_true _
  · intro j hj hsame
    have hne := List.pairwise_iff_getElem.1 hd j i (by omega) hi hj
    rw [hget, ← hkey] at hne
    exact hne (beq_iff_eq.1 hsame)

/-- Where keys are not shared on any level, names with the keys of those on the way to a field lead
to it. -/
theorem At.follow?_eq (h : t.At a names f) (ht : t.Everywhere Indexed)
    (hd : t.Everywhere DistinctKeys) (hkeys : names'.map Name.key = names.map Name.key) :
    address? names' t = some a ∧ follow? names' t = some f := by
  induction h generalizing names' with
  | @here t i f hf =>
    obtain ⟨name', rfl, hkey⟩ := List.map_eq_singleton_iff.1 hkeys
    have hi := ht.here.firstPosition?_of_distinct hd.here hf hkey
    refine ⟨address?_singleton hi, ?_⟩
    show t.findFirst? name' = some f
    rw [findFirst?, hi, Option.bind_some, hf]
  | @inside t nested i a names f g hf hn hat ih =>
    obtain ⟨name', rest', rfl, hkey, hrest⟩ := List.map_eq_cons_iff.1 hkeys
    have hmem : f ∈ t.entries := List.mem_of_getElem? hf
    obtain ⟨haddress, hfollow⟩ := ih (ht.payload hmem nested hn) (hd.payload hmem nested hn) hrest
    have hi := ht.here.firstPosition?_of_distinct hd.here hf hkey
    have hne : rest' ≠ [] := by
      rintro rfl
      exact hat.ne_nil.2 (List.map_eq_nil_iff.1 hrest.symm)
    refine ⟨?_, ?_⟩
    · rw [address?_cons hne hi hf hn, haddress]
      rfl
    · rw [follow?_cons hne, findFirst?, hi, Option.bind_some, hf, Option.bind_some, hn]
      exact hfollow

/-- **Paths of visits and lookups by path go together**, in a tree that callers can build and that
has its index on every level.  The path of a visit is split into the names that lead to its field.
A field that a path leads to is visited, at its address and under the path's keys.  Where no two
fields on a level share a key, the path of a visit leads to its field, and so does every path that
spells its names, or others with their keys, with any separators between, before and behind them. -/
theorem paths_lead_back (ht : t.Reachable)
    (hindex : t.Everywhere fun s => s.index.isSome = true) :
    (t.placedWalk.map Prod.snd = t.walk ∧ t.placedWalk.Pairwise fun v w => v.1 < w.1) ∧
    (∀ a path f, (a, path, f) ∈ t.placedWalk → t.At a (Path.segments path) f) ∧
    (∀ path f, t.fieldAt? path = some f → ∃ a visited,
      address? (Path.segments path) t = some a ∧ (a, visited, f) ∈ t.placedWalk ∧
        pathKeys visited = pathKeys path) ∧
    (t.Everywhere DistinctKeys → ∀ a path f, (a, path, f) ∈ t.placedWalk →
      (address? (Path.segments path) t = some a ∧ t.fieldAt? path = some f) ∧
      ∀ names other, names.map Name.key = pathKeys path → Path.Spells names other →
        address? (Path.segments other) t = some a ∧ t.fieldAt? other = some f) := by
  have hnamed := wellNamed_of_reachable ht
  have hindexed : t.Everywhere Indexed := fun s hs =>
    ⟨hindex s hs, coherent_of_reachable ht s hs⟩
  refine ⟨⟨map_snd_placedWalk t, pairwise_placedWalk t⟩, ?_, ?_, ?_⟩
  · intro a path f hvisit
    exact at_of_mem_placedWalk hnamed hvisit
  · intro path f hf
    obtain ⟨a, names, haddress, hat, hkeys⟩ := exists_at hindexed hf
    have hvisit := mem_placedWalk_iff.2 ⟨names, hat, rfl⟩
    refine ⟨a, _, haddress, hvisit, ?_⟩
    have hspells := Path.spells_intercalate hat.ne_nil.2
    rw [pathKeys, Path.segments_of_spells hspells (hat.isSegment hnamed), hkeys, pathKeys]
  · intro hdistinct a path f hvisit
    have hat := at_of_mem_placedWalk hnamed hvisit
    refine ⟨hat.follow?_eq hindexed hdistinct rfl, ?_⟩
    intro names other hkeys hspells
    -- the names spelled have the keys of names without separators, so they have none either
    have hsegments : ∀ name ∈ names, Path.IsSegment name := by
      intro name hname
      have hkey : Name.key name ∈ (Path.segments path).map Name.key := by
        rw [← pathKeys, ← hkeys]
        exact List.mem_map_of_mem hname
      obtain ⟨segment, hsegment, hsame⟩ := List.mem_map.1 hkey
      exact (Path.isSegment_congr hsame).1 (hat.isSegment hnamed segment hsegment)
    have hother : Path.segments other = names := Path.segments_of_spells hspells hsegments
    have hlead := hat.follow?_eq hindexed hdistinct hkeys
    rw [← hother] at hlead
    exact hlead

/-- Two fields in a field of a tree. -/
def forkedInner : FieldTree :=
  ofList [⟨"ΑΣ", .value (.text "1"), .empty⟩, ⟨".Id", .value (.text "2"), .empty⟩]

def forked : FieldTree := ofList [⟨"Order", .tree forkedInner, .empty⟩]

theorem everywhere_forked {P : FieldTree → Prop} (h : P forked) (hinner : P forkedInner) :
    forked.Everywhere P := by
  refine everywhere_iff.2 ⟨h, ?_⟩
  intro f hf
  rw [forked, entries_ofList, List.mem_singleton] at hf
  rw [hf]
  refine Payload.everywhere_tree.2 (everywhere_of_values ?_ hinner)
  decide

theorem reachable_forked : forked.Reachable := by
  have hinner : forkedInner.Reachable := by
    refine .ofList ?_
    intro f hf
    rw [List.mem_pair] at hf
    rcases hf with rfl | rfl
    · exact Field.reachable_of_fault (by decide +kernel) (.value _)
    · exact Field.reachable_of_fault (by decide +kernel) (.value _)
  refine .ofList ?_
  intro f hf
  rw [List.mem_singleton.1 hf]
  exact Field.reachable_of_fault (by decide +kernel) (.tree hinner)

/-- A field in a field is found by another spelling of the path that a walk gives it. -/
theorem paths_lead_back_forked : forked.Reachable ∧
    (forked.Everywhere fun s => s.index.isSome = true) ∧ forked.Everywhere DistinctKeys ∧
    forked.walk.map Prod.fst = ["Order", "Order/ΑΣ", "Order/.Id"] ∧
    ∃ f, ([0, 0], "Order/ΑΣ", f) ∈ forked.placedWalk ∧
      forked.At [0, 0] ["Order", "ΑΣ"] f ∧ forked.fieldAt? "\\oRDER/ας/" = some f := by
  have hindex : forked.Everywhere fun s => s.index.isSome = true :=
    everywhere_forked (by decide) (by decide)
  have hdistinct : forked.Everywhere DistinctKeys :=
    everywhere_forked (by unfold DistinctKeys; decide +kernel)
      (by unfold DistinctKeys; decide +kernel)
  obtain ⟨-, hsplit, -, hlead⟩ := paths_lead_back reachable_forked hindex
  let leaf : Field := ⟨"ΑΣ", .value (.text "1"), .empty⟩
  have hinner : forkedInner.At [0] [leaf.name] leaf := .here rfl
  have hat : forked.At [0, 0] ["Order", "ΑΣ"] leaf :=
    At.inside (f := ⟨"Order", .tree forkedInner, .empty⟩) rfl rfl hinner
  have hvisit : ([0, 0], "Order/ΑΣ", leaf) ∈ forked.placedWalk :=
    mem_placedWalk_iff.2 ⟨["Order", "ΑΣ"], hat, by decide⟩
  have hspells : Path.Spells ["oRDER", "ας"] "\\oRDER/ας/" :=
    ⟨['\\'], _, ['/'], rfl, .cons "oRDER" rfl (.last "ας"), List.forall_mem_singleton.2 rfl,
      List.forall_mem_singleton.2 rfl⟩
  refine ⟨reachable_forked, hindex, hdistinct, by decide +kernel, _, hvisit, ?_, ?_⟩
  · exact hsplit _ _ _ hvisit
  · exact ((hlead hdistinct _ _ _ hvisit).2 _ _ (by decide +kernel) hspells).2

end FieldTree

end MessageScript
