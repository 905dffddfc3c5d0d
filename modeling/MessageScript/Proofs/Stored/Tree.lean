import MessageScript.Proofs.Field.Naming
import MessageScript.Proofs.Field.Same
import MessageScript.Proofs.Json.Text

/-!
# Stored trees are read back

Reading checks every name again and reads every value from its text; but names of a tree that
callers can build keep the rules.  So if the values of the tree are what their texts are read as,
the stored form is read as the tree with each index built anew (`rebuilt`), which is the same tree.
How deep arrays and objects may be nested is up to the reader: any limit that the stored form keeps
to will do.

    readTags (ofTags s) = .ok s                                               (readTags_ofTags)
    readTreeWithin limit (ofTree t) = .ok t.rebuilt                      (readTreeWithin_ofTree)
-/

namespace MessageScript

/-! ## Trees with new indexes -/

mutual

/-- A field with each index in it built anew. -/
def Field.rebuilt : Field → Field
  | ⟨name, payload, tags⟩ => ⟨name, payload.rebuilt, tags⟩

/-- A payload with each index in it built anew. -/
def Payload.rebuilt : Payload → Payload
  | .value v => .value v
  | .tree t => .tree t.rebuilt

/-- A tree with the index of each level built anew. -/
def FieldTree.rebuilt : FieldTree → FieldTree
  | ⟨entries, _⟩ => .ofList (rebuiltFields entries)

/-- Fields with each index in them built anew. -/
def rebuiltFields : List Field → List Field
  | [] => []
  | f :: rest => f.rebuilt :: rebuiltFields rest

end

theorem FieldTree.rebuilt_eq (t : FieldTree) : t.rebuilt = .ofList (rebuiltFields t.entries) := by
  cases t
  rw [FieldTree.rebuilt]

mutual

theorem Field.same_rebuilt : ∀ f : Field, f.same f.rebuilt = true
  | ⟨name, payload, tags⟩ => by
    rw [Field.rebuilt, Field.same, Payload.same_rebuilt payload]
    simp

theorem Payload.same_rebuilt : ∀ p : Payload, p.same p.rebuilt = true
  | .value v => by
    rw [Payload.rebuilt]
    exact Payload.same_refl _
  | .tree t => by
    rw [Payload.rebuilt, Payload.same]
    exact FieldTree.same_rebuilt t

theorem FieldTree.same_rebuilt : ∀ t : FieldTree, t.same t.rebuilt = true
  | ⟨entries, index⟩ => by
    rw [FieldTree.rebuilt, FieldTree.same_eq, FieldTree.entries_ofList]
    exact sameFields_rebuilt entries

theorem sameFields_rebuilt : ∀ fields : List Field, sameFields fields (rebuiltFields fields) = true
  | [] => by rw [rebuiltFields, sameFields]
  | f :: rest => by
    rw [rebuiltFields, sameFields, Field.same_rebuilt f, sameFields_rebuilt rest]
    rfl

end

namespace Stored

theorem ofTree_eq (t : FieldTree) : ofTree t = .array (ofFields t.entries) := by
  cases t
  rw [ofTree]

mutual

/-- What is stored does not depend on the indexes. -/
theorem ofField_rebuilt : ∀ f : Field, ofField f.rebuilt = ofField f
  | ⟨name, payload, tags⟩ => by
    rw [Field.rebuilt, ofField, ofField, ofPayload_rebuilt payload]

theorem ofPayload_rebuilt : ∀ p : Payload, ofPayload p.rebuilt = ofPayload p
  | .value _ => by rw [Payload.rebuilt]
  | .tree t => by rw [Payload.rebuilt, ofPayload, ofPayload, ofTree_rebuilt t]

theorem ofTree_rebuilt : ∀ t : FieldTree, ofTree t.rebuilt = ofTree t
  | ⟨entries, _⟩ => by
    rw [FieldTree.rebuilt, ofTree_eq, FieldTree.entries_ofList, ofFields_rebuilt entries, ofTree]

theorem ofFields_rebuilt : ∀ fields : List Field, ofFields (rebuiltFields fields) = ofFields fields
  | [] => by rw [rebuiltFields]
  | f :: rest => by
    rw [rebuiltFields, ofFields, ofFields, ofField_rebuilt f, ofFields_rebuilt rest]

end

/-! ## Stored forms are plain -/

theorem isPlain_ofMembers {members : List (String × Json)}
    (h : ∀ member ∈ members, member.2.IsPlain) : (ofMembers members).IsPlain := .object h

theorem isPlain_ofValue (v : Value) : (ofValue v).IsPlain := by
  refine isPlain_ofMembers ?_
  intro member hm
  rw [List.mem_pair] at hm
  rcases hm with rfl | rfl
  · exact .string _
  · exact .string _

theorem isPlain_ofTags (s : TagSet) : (ofTags s).IsPlain := by
  refine .array ?_
  intro item hi
  obtain ⟨t, -, rfl⟩ := List.mem_map.1 hi
  refine isPlain_ofMembers ?_
  intro member hm
  rw [List.mem_pair] at hm
  rcases hm with rfl | rfl
  · exact .string _
  · exact .bool _

mutual

theorem isPlain_ofField : ∀ f : Field, (ofField f).IsPlain
  | ⟨name, payload, tags⟩ => by
    rw [ofField]
    refine isPlain_ofMembers ?_
    intro member hm
    rcases List.mem_append.1 hm with hm | hm
    · rw [List.mem_pair] at hm
      rcases hm with rfl | rfl
      · exact .string name
      · exact isPlain_ofPayload payload
    · split at hm
      · cases hm
      · rw [List.mem_singleton.1 hm]
        exact isPlain_ofTags tags

theorem isPlain_ofPayload : ∀ p : Payload, (ofPayload p).2.IsPlain
  | .value v => by
    rw [ofPayload]
    exact isPlain_ofValue v
  | .tree t => by
    rw [ofPayload]
    exact isPlain_ofTree t

theorem isPlain_ofTree : ∀ t : FieldTree, (ofTree t).IsPlain
  | ⟨entries, _⟩ => by
    rw [ofTree]
    exact .array (isPlain_ofFields entries)

theorem isPlain_ofFields : ∀ fields : List Field, ∀ item ∈ ofFields fields, item.IsPlain
  | [], item, hi => by
    rw [ofFields] at hi
    cases hi
  | f :: rest, item, hi => by
    rw [ofFields] at hi
    rcases List.mem_cons.1 hi with rfl | hi
    · exact isPlain_ofField f
    · exact isPlain_ofFields rest item hi

end

/-! ## Tags -/

theorem readTag_ofTag {t : Tag} (h : Name.IsBody t.name.toList) : readTag (ofTag t) = .ok t := by
  have hread : readTag (ofTag t) = accepted (Tag.make t.name t.state) := rfl
  have hmake : Tag.make t.name t.state = .ok t := by
    rw [Tag.make_eq_ok_iff, Name.withoutTagMark_of_isBody h]
    exact ⟨Name.tagFault?_of_isBody h, rfl⟩
  rw [hread, hmake]
  rfl

theorem mapM_readTag {tags : List Tag} (h : ∀ t ∈ tags, Name.IsBody t.name.toList) :
    (tags.map ofTag).mapM readTag = .ok tags := by
  induction tags with
  | nil => rfl
  | cons t rest ih =>
    rw [List.map_cons, List.mapM_cons, readTag_ofTag (h t List.mem_cons_self),
      ih fun u hu => h u (List.mem_cons_of_mem _ hu)]
    rfl

theorem readTags_ofTags {s : TagSet} (h : s.WellNamed) : readTags (ofTags s) = .ok s := by
  have hlist : TagSet.ofList s.tags = .ok s :=
    (TagSet.ofList_eq_ok_iff h.bodies).2 ⟨rfl, h.distinct⟩
  rw [ofTags, readTags, mapM_readTag h.bodies]
  show accepted (TagSet.ofList s.tags) = .ok s
  rw [hlist]
  rfl

/-! ## Fields -/

/-- Whether the value that a field holds, if it holds one, is what the value's text is read as. -/
def ReadableValue (f : Field) : Prop := ∀ v, f.payload = .value v →
  Value.parse v.kind v.toText Calendar.Defaults.standard = .ok v

/-- Whether the names in a field keep the rules, and its value is what its text is read as. -/
structure Storable (f : Field) : Prop where
  wellNamed : f.WellNamed
  value : ReadableValue f

theorem nesting_lt_of_mem {member : String × Json} {members : List (String × Json)}
    (h : member ∈ members) : member.2.nesting < (ofMembers members).nesting := by
  rw [ofMembers, Json.nesting, Nat.lt_succ_iff]
  induction members with
  | nil => cases h
  | cons first rest ih =>
    rw [List.map_cons, Json.membersNesting]
    rcases List.mem_cons.1 h with rfl | h
    · exact Nat.le_max_left _ _
    · exact Nat.le_trans (ih h) (Nat.le_max_right _ _)

theorem nesting_ofPayload_lt (name : String) (p : Payload) (tags : TagSet) :
    (ofPayload p).2.nesting < (ofField ⟨name, p, tags⟩).nesting := by
  rw [ofField]
  exact nesting_lt_of_mem (by simp)

/-- What the member that holds a payload is read as, with `levels` more arrays and objects open. -/
def readPayload (levels : Nat) : Payload → Result Payload
  | .value v => (readValue true (ofValue v)).map Payload.value
  | .tree t => (readFields (levels - 2) (ofTree t)).map fun fields =>
      Payload.tree (FieldTree.ofList fields)

/-- A payload that is read is put among the parts. -/
theorem readParts_payload {levels : Nat} {parts : FieldParts} {p : Payload}
    (hparts : parts.payload = none) (hn : (ofPayload p).2.nesting ≤ levels)
    (rest : List (Option String × Json)) :
    readParts levels parts ((some (ofPayload p).1, (ofPayload p).2) :: rest) =
      readParts levels { parts with payload := some (readPayload levels p) } rest := by
  have hkeep := Json.isKeepable_of_nesting (isPlain_ofPayload p) hn
  have hadd : ∀ result, parts.addPayload result = { parts with payload := some result } := by
    intro result
    rw [FieldParts.addPayload, hparts]
  cases p with
  | value v =>
    rw [ofPayload] at hkeep ⊢
    show readParts levels parts ((some "value", ofValue v) :: rest) = _
    rw [readParts, if_neg (by decide), if_neg (by decide), if_pos hkeep, if_pos rfl, hadd,
      readPayload]
  | tree t =>
    rw [ofPayload] at hkeep ⊢
    show readParts levels parts ((some "fields", ofTree t) :: rest) = _
    rw [readParts, if_neg (by decide), if_neg (by decide), if_pos hkeep, if_neg (by decide),
      if_pos rfl, hadd, readPayload]

/-- The member for tags is left out if there are none. -/
theorem readParts_tags (levels : Nat) (parts : FieldParts) {tags : TagSet} (h : tags.WellNamed)
    (hparts : parts.tags = none) : ∃ parts', readParts levels parts
      ((if tags.tags = [] then [] else [("tags", ofTags tags)]).map
        fun member => (some member.1, member.2)) = .ok parts' ∧
      parts'.name = parts.name ∧ parts'.payload = parts.payload ∧
      parts'.tags.getD .empty = tags := by
  by_cases hempty : tags.tags = []
  · rw [if_pos hempty, List.map_nil, readParts]
    refine ⟨parts, rfl, rfl, rfl, ?_⟩
    obtain ⟨list⟩ := tags
    cases hempty
    rw [hparts]
    rfl
  · have hadd : parts.addTags (ofTags tags) = .ok { parts with tags := some tags } := by
      rw [FieldParts.addTags, hparts]
      simp only
      rw [readTags_ofTags h]
      rfl
    rw [if_neg hempty, List.map_singleton]
    show ∃ parts', readParts levels parts [(some "tags", ofTags tags)] = .ok parts' ∧ _
    rw [readParts, if_neg (by decide), if_pos rfl, hadd]
    exact ⟨_, rfl, rfl, rfl, rfl⟩

/-- A field is read as its name and tags, with the payload that is read. -/
theorem readFieldAt_of_readPayload {levels : Nat} {name : String} {p p' : Payload} {tags : TagSet}
    (hfield : Field.WellNamed ⟨name, p, tags⟩) (hn : (ofPayload p).2.nesting ≤ levels)
    (hread : readPayload levels p = .ok p') :
    readFieldAt levels (ofField ⟨name, p, tags⟩) = .ok ⟨name, p', tags⟩ := by
  obtain ⟨parts, hparts, hname, hpayload, htags⟩ :=
    readParts_tags levels ⟨some name, none, some (.ok p')⟩ hfield.tags rfl
  have hform : ofField ⟨name, p, tags⟩ = .object ((some "name", ofString name) ::
      (some (ofPayload p).1, (ofPayload p).2) ::
        (if tags.tags = [] then [] else [("tags", ofTags tags)]).map
          fun member => (some member.1, member.2)) := by
    rw [ofField]
    rfl
  have hmake : Field.make name p' = .ok ⟨name, p', .empty⟩ :=
    FieldTree.make_eq_ok_iff.2 ⟨hfield.name, rfl⟩
  rw [hform, readFieldAt, readParts, if_pos rfl]
  show (readParts levels ⟨some name, none, none⟩ _).bind _ = _
  rw [readParts_payload rfl hn, hread, hparts]
  show parts.toField = _
  rw [FieldParts.toField, hname, hpayload, htags]
  show (accepted (Field.make name p')).bind _ = _
  rw [hmake]
  rfl

mutual

/-- What is stored of a storable field is read as the field; the recursion is that of the writer. -/
theorem readFieldAt_ofField {levels : Nat} : ∀ {f : Field},
    FieldHolds (fun _ => True) Storable f → (ofField f).nesting ≤ levels + 1 →
      readFieldAt levels (ofField f) = .ok f.rebuilt
  | ⟨name, payload, tags⟩, h, hn => by
    have hpayload : (ofPayload payload).2.nesting ≤ levels :=
      Nat.le_of_lt_succ (Nat.lt_of_lt_of_le (nesting_ofPayload_lt name payload tags) hn)
    rw [Field.rebuilt]
    exact readFieldAt_of_readPayload h.1.wellNamed hpayload
      (readPayload_rebuilt h.2 h.1.value hpayload)

theorem readPayload_rebuilt {levels : Nat} : ∀ {p : Payload},
    p.Everywhere (LevelHolds (fun _ => True) Storable) →
    (∀ v, p = .value v → Value.parse v.kind v.toText Calendar.Defaults.standard = .ok v) →
      (ofPayload p).2.nesting ≤ levels → readPayload levels p = .ok p.rebuilt
  | .value v, _, hvalue, _ => by
    rw [readPayload, readValue_ofValue, hvalue v rfl, Payload.rebuilt]
    rfl
  | .tree t, h, _, hn => by
    have hnested : (ofTree t).nesting ≤ levels - 2 + 2 := by
      rw [ofPayload] at hn
      exact Nat.le_trans hn (by omega)
    rw [readPayload, readFields_ofTree (Payload.everywhere_tree.1 h) hnested, Payload.rebuilt,
      FieldTree.rebuilt_eq]
    rfl

theorem readFields_ofTree {levels : Nat} : ∀ {t : FieldTree},
    t.Everywhere (LevelHolds (fun _ => True) Storable) → (ofTree t).nesting ≤ levels + 2 →
      readFields levels (ofTree t) = .ok (rebuiltFields t.entries)
  | ⟨entries, _⟩, h, hn => by
    rw [ofTree, Json.nesting] at hn
    rw [ofTree, readFields]
    exact readItems_ofFields (everywhere_levelHolds_iff.1 h).2 (Nat.le_of_succ_le_succ hn)

theorem readItems_ofFields {levels : Nat} : ∀ {fields : List Field},
    (∀ f ∈ fields, FieldHolds (fun _ => True) Storable f) →
      Json.itemsNesting (ofFields fields) ≤ levels + 1 →
        readItems levels (ofFields fields) = .ok (rebuiltFields fields)
  | [], _, _ => by
    rw [ofFields, readItems, rebuiltFields]
  | f :: rest, h, hn => by
    rw [ofFields, Json.itemsNesting, Nat.max_le] at hn
    rw [ofFields, readItems, readFieldAt_ofField (h f List.mem_cons_self) hn.1,
      readItems_ofFields (fun g hg => h g (List.mem_cons_of_mem _ hg)) hn.2, rebuiltFields]
    rfl

end

/-! ## Trees -/

/-- The tree of a form, for a reader that lets so many arrays and objects be open at once. -/
def readTreeWithin (limit : Nat) (j : Json) : Result FieldTree :=
  (readFields (limit - 2) j).map FieldTree.ofList

theorem readTreeWithin_nestingLimit : readTreeWithin nestingLimit = readTree := rfl

theorem readTreeWithin_ofTree {t : FieldTree} {limit : Nat}
    (h : t.Everywhere (LevelHolds (fun _ => True) Storable)) (hn : (ofTree t).nesting ≤ limit) :
    readTreeWithin limit (ofTree t) = .ok t.rebuilt := by
  rw [readTreeWithin, readFields_ofTree h (by omega), FieldTree.rebuilt_eq]
  rfl

/-- A text written is read as what it was written from. -/
theorem readText_writeText {α : Type} (read : Json → Result α) {j : Json} (h : j.IsPlain) :
    readText read (writeText j) = read j := by
  rw [readText, writeText, Json.read_text h]
  show (read j).bind Except.ok = read j
  cases read j with
  | error e => rfl
  | ok a => rfl

end Stored

namespace FieldTree

open Stored

variable {t : FieldTree}

/-- **A tree that callers can build outlasts being stored**, if each value in it is what its text is
read as.  Its stored text is read as the tree with each index built anew, by every reader that lets
as many arrays and objects be open at once as the text does; the tree read has the same fields and
is stored as the same text. -/
theorem read_back_of_reachable (ht : t.Reachable)
    (hvalues : t.Everywhere fun s => ∀ f ∈ s.entries, ReadableValue f) :
    (∀ limit, (ofTree t).nesting ≤ limit →
      readText (readTreeWithin limit) (writeText (ofTree t)) = .ok t.rebuilt) ∧
    ((ofTree t).nesting ≤ nestingLimit →
      readText readTree (writeText (ofTree t)) = .ok t.rebuilt) ∧
    t.same t.rebuilt = true ∧ writeText (ofTree t.rebuilt) = writeText (ofTree t) := by
  have hstorable : t.Everywhere (LevelHolds (fun _ => True) Storable) := by
    intro s hs
    refine ⟨trivial, ?_⟩
    intro f hf
    exact ⟨wellNamed_of_reachable ht s hs f hf, hvalues s hs f hf⟩
  have hread : ∀ limit, (ofTree t).nesting ≤ limit →
      readText (readTreeWithin limit) (writeText (ofTree t)) = .ok t.rebuilt := by
    intro limit hn
    rw [readText_writeText _ (isPlain_ofTree t), readTreeWithin_ofTree hstorable hn]
  refine ⟨hread, ?_, same_rebuilt t, ?_⟩
  · rw [← readTreeWithin_nestingLimit]
    exact hread nestingLimit
  · rw [ofTree_rebuilt]

/-- A tree with header fields, names that agree, a tag and an empty tree. -/
def assortedInner : FieldTree :=
  ofList [⟨".HC", .value (.text "2h \"x\"\n"), .empty⟩, ⟨"Empty", .tree empty, .empty⟩]

def assorted : FieldTree :=
  ofList [⟨".HB", .tree assortedInner, .empty⟩,
    ⟨"Count", .value (.boolean true), ⟨[⟨"Optional", true⟩]⟩⟩]

theorem reachable_assorted : assorted.Reachable := by
  have htags : TagSet.Reachable ⟨[⟨"Optional", true⟩]⟩ := .set .empty "Optional" true
  have hinner : assortedInner.Reachable := by
    refine .ofList ?_
    intro f hf
    rw [List.mem_pair] at hf
    rcases hf with rfl | rfl
    · exact Field.reachable_of_fault (by decide +kernel) (.value _)
    · exact Field.reachable_of_fault (by decide +kernel) (.tree .empty)
  refine .ofList ?_
  intro f hf
  rw [List.mem_pair] at hf
  rcases hf with rfl | rfl
  · exact Field.reachable_of_fault (by decide +kernel) (.tree hinner)
  · exact .setTags (Field.reachable_of_fault (by decide +kernel) (.value _)) htags

theorem everywhere_assorted {P : FieldTree → Prop} (h : P assorted) (hinner : P assortedInner)
    (hempty : P empty) : assorted.Everywhere P := by
  have hemptyAll : empty.Everywhere P := everywhere_of_values nofun hempty
  have hinnerAll : assortedInner.Everywhere P := by
    refine everywhere_iff.2 ⟨hinner, ?_⟩
    intro f hf
    rw [assortedInner, entries_ofList, List.mem_pair] at hf
    rcases hf with rfl | rfl
    · exact Payload.everywhere_value _
    · exact Payload.everywhere_tree.2 hemptyAll
  refine everywhere_iff.2 ⟨h, ?_⟩
  intro f hf
  rw [assorted, entries_ofList, List.mem_pair] at hf
  rcases hf with rfl | rfl
  · exact Payload.everywhere_tree.2 hinnerAll
  · exact Payload.everywhere_value _

theorem readableValues_assorted :
    assorted.Everywhere fun s => ∀ f ∈ s.entries, ReadableValue f := by
  refine everywhere_assorted ?_ ?_ nofun
  · intro f hf v hv
    rw [assorted, entries_ofList, List.mem_pair] at hf
    rcases hf with rfl | rfl <;> cases hv
    decide +kernel
  · intro f hf v hv
    rw [assortedInner, entries_ofList, List.mem_pair] at hf
    rcases hf with rfl | rfl <;> cases hv
    rfl

/-- The stored tree is within what the reader allows, and is read back. -/
theorem read_back_assorted : assorted.Reachable ∧ (ofTree assorted).nesting = 5 ∧
    ∃ back, readText readTree (writeText (ofTree assorted)) = .ok back ∧
      assorted.same back = true := by
  have hnesting : (ofTree assorted).nesting = 5 := by decide +kernel
  obtain ⟨-, hread, hsame, -⟩ := read_back_of_reachable reachable_assorted readableValues_assorted
  exact ⟨reachable_assorted, hnesting, _, hread (by rw [hnesting]; decide), hsame⟩

end FieldTree

end MessageScript
