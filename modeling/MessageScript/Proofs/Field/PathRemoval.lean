import MessageScript.Proofs.Field.Naming
import MessageScript.Proofs.Field.Same

/-!
# Removal by path

Removing at a path takes out the field that the path leads to, and nothing else: on the way to its
address each field keeps its name and tags, and its tree loses the field; all other fields stay, in
their order (`Without`).  What the path leads to then is the next field of that name, if there is
one.  A field that was appended at a path is taken out again by the path.

    (takeOut names t).1 = follow? names t                                         (takeOut_answer)
    (takeOut names t).1 = some f →
      ∃ a, address? names t = some a ∧ Without f a t (takeOut names t).2      (without_of_takeOut)
-/

namespace MessageScript.FieldTree

variable {t t' nested s : FieldTree} {f g : Field} {v : Payload} {names rest : List String}
  {name : String} {i : Nat} {a place : List Nat}

/-! ## One level -/

theorem after_removeAt (h : t.get? i = some f) :
    (t.removeAt i).after = reindexed { t with entries := t.entries.eraseIdx i } := by
  unfold removeAt
  rw [h]
  rfl

theorem answer_removeAt (t : FieldTree) (i : Nat) : (t.removeAt i).answer.toOption = t.get? i := by
  unfold removeAt
  cases t.get? i <;> rfl

theorem indexed_reindexed (t : FieldTree) : t.reindexed.Indexed := ⟨rfl, coherent_reindexed t⟩

theorem Indexed.findFirst?_eq (ht : t.Indexed) (name : String) :
    t.findFirst? name = t.entries.find? fun f => Name.key f.name == Name.key name := by
  rw [findFirst?_eq_find? ht.coherent, picks_of_index ht.present]

/-- Without the first element that satisfies `p`, the first one is the next behind it. -/
theorem find?_eraseIdx_of_findIdx? {α : Type} {l : List α} {q : α → Bool}
    (h : l.findIdx? q = some i) : (l.eraseIdx i).find? q = (l.drop (i + 1)).find? q := by
  obtain ⟨hi, -, hbefore⟩ := List.findIdx?_eq_some_iff_getElem.1 h
  have hnone : (l.take i).find? q = none := by
    rw [List.find?_eq_none]
    intro b hb
    obtain ⟨j, hj, rfl⟩ := List.mem_iff_getElem.1 hb
    rw [List.length_take] at hj
    rw [List.getElem_take]
    exact hbefore j (by omega)
  rw [List.eraseIdx_eq_take_drop_succ, List.find?_append, hnone, Option.none_or]

/-! ## What is taken out -/

/-- Names lead on in the tree of the field at the position of the first of them. -/
theorem follow?_cons_of_position (hrest : rest ≠ []) (hi : t.firstPosition? name = some i) :
    follow? (name :: rest) t = ((t.get? i).bind fun f => f.payload.tree?).bind (follow? rest) := by
  rw [follow?_cons hrest, findFirst?, hi]
  rfl

theorem tree?_eq_none (h : ∀ nested, (t.get? i).map Field.payload = some (.tree nested) → False) :
    ((t.get? i).bind fun f => f.payload.tree?) = none := by
  cases hf : t.get? i with
  | none => rfl
  | some f =>
    cases hn : f.payload with
    | value v =>
      rw [Option.bind_some, hn]
      rfl
    | tree nested =>
      refine absurd ?_ (h nested)
      rw [hf, Option.map_some, hn]

/-- **What is taken out is what the names lead to**, if they lead to a field at all. -/
theorem takeOut_answer (names : List String) (t : FieldTree) :
    (takeOut names t).1 = follow? names t := by
  fun_induction takeOut names t with
  | case1 t => rfl
  | case2 leaf t hi =>
    rw [follow?, findFirst?, hi]
    rfl
  | case3 leaf t i hi =>
    rw [follow?, findFirst?, hi]
    exact answer_removeAt t i
  | case4 name rest t hrest hi =>
    rw [follow?_cons hrest, findFirst?, hi]
    rfl
  | case5 name rest t hrest i hi nested hn taken ih =>
    obtain ⟨f, hf, hpayload⟩ := Option.map_eq_some_iff.1 hn
    rw [follow?_cons_of_position hrest hi, hf, Option.bind_some, hpayload]
    exact ih
  | case6 name rest t hrest i hi hn =>
    rw [follow?_cons_of_position hrest hi, tree?_eq_none hn]
    rfl

/-- Where nothing is taken out, nothing changes. -/
theorem takeOut_of_none (h : (takeOut names t).1 = none) : (takeOut names t).2 = t := by
  fun_induction takeOut names t with
  | case1 t => rfl
  | case2 leaf t hi => rfl
  | case3 leaf t i hi =>
    have hget : t.get? i = none := (answer_removeAt t i).symm.trans h
    unfold removeAt
    rw [hget]
    rfl
  | case4 name rest t hrest hi => rfl
  | case5 name rest t hrest i hi nested hn taken ih =>
    obtain ⟨f, hf, hpayload⟩ := Option.map_eq_some_iff.1 hn
    have hself := withPayload_self hf
    rw [hpayload] at hself
    rw [ih h, hself]
  | case6 name rest t hrest i hi hn => rfl

/-- The tree `t'` is `t` without the field `f` at an address: at the end of the way the field is
gone from its place, and on the way each field has its tree changed and keeps its name and tags.
The other fields are the same and in the same order. -/
inductive Without (f : Field) : List Nat → FieldTree → FieldTree → Prop
  | here {t t' : FieldTree} {i : Nat} (hf : t.get? i = some f)
      (h : t'.entries = t.entries.eraseIdx i) : Without f [i] t t'
  | inside {t t' nested nested' : FieldTree} {i : Nat} {a : List Nat} {g : Field}
      (hg : t.get? i = some g) (hn : g.payload = .tree nested) (hw : Without f a nested nested')
      (h : t'.entries = t.entries.set i { g with payload := .tree nested' }) :
      Without f (i :: a) t t'

/-- **The field is taken out at the address of the names, and all else stays.** -/
theorem without_of_takeOut (h : (takeOut names t).1 = some f) :
    ∃ a, address? names t = some a ∧ Without f a t (takeOut names t).2 := by
  fun_induction takeOut names t with
  | case1 t => cases h
  | case2 leaf t hi => cases h
  | case3 leaf t i hi =>
    have hget : t.get? i = some f := (answer_removeAt t i).symm.trans h
    refine ⟨[i], address?_singleton hi, .here hget ?_⟩
    rw [after_removeAt hget]
    rfl
  | case4 name rest t hrest hi => cases h
  | case5 name rest t hrest i hi nested hn taken ih =>
    obtain ⟨g, hg, hpayload⟩ := Option.map_eq_some_iff.1 hn
    obtain ⟨a, ha, hw⟩ := ih h
    refine ⟨i :: a, ?_, .inside hg hpayload hw (entries_withPayload hg _)⟩
    rw [address?_cons hrest hi hg hpayload, ha]
    rfl
  | case6 name rest t hrest i hi hn => cases h

theorem Without.exists_level (h : Without f a t t') :
    ∃ place i s, a = place ++ [i] ∧ level? place t = some s ∧ s.get? i = some f := by
  induction h with
  | @here t t' i hf => exact ⟨[], i, t, rfl, rfl, hf⟩
  | @inside t t' nested nested' i a g hg hn hw h ih =>
    obtain ⟨place, j, s, rfl, hs, hf⟩ := ih
    exact ⟨i :: place, j, s, rfl, (level?_cons hg hn place).trans hs, hf⟩

/-! ## What is found afterwards -/

theorem takeOut_cons_of_position (hrest : rest ≠ []) (hi : t.firstPosition? name = some i)
    (hf : t.get? i = some f) (hn : f.payload = .tree nested) : takeOut (name :: rest) t =
      ((takeOut rest nested).1, t.withPayload i (.tree (takeOut rest nested).2)) := by
  cases rest with
  | nil => exact absurd rfl hrest
  | cons name' rest =>
    rw [takeOut, hi]
    · simp only [hf, Option.map_some, hn]
    · exact List.cons_ne_nil _ _

/-- Every level has its index after a field was taken out. -/
theorem everywhere_indexed_takeOut (ht : t.Everywhere Indexed) (names : List String) :
    (takeOut names t).2.Everywhere Indexed := by
  fun_induction takeOut names t with
  | case1 t => exact ht
  | case2 leaf t hi => exact ht
  | case3 leaf t i hi =>
    unfold removeAt
    split
    · exact ht
    · exact everywhere_iff.2 ⟨indexed_reindexed _, fun g hg =>
        ht.payload (List.mem_of_mem_eraseIdx hg)⟩
  | case4 name rest t hrest hi => exact ht
  | case5 name rest t hrest i hi nested hn taken ih =>
    obtain ⟨f, hf, hpayload⟩ := Option.map_eq_some_iff.1 hn
    have hnested := ih (ht.payload (List.mem_of_getElem? hf) nested hpayload)
    refine everywhere_iff.2 ⟨ht.here.withPayload i _, fun g hg => ?_⟩
    obtain hg | ⟨g', -, rfl⟩ := mem_withPayload hg
    · exact ht.payload hg
    · exact Payload.everywhere_tree.2 hnested
  | case6 name rest t hrest i hi hn => exact ht

/-- **The names lead to the next field with the key afterwards**, or to none. -/
theorem follow?_takeOut (ht : t.Everywhere Indexed)
    (ha : address? names t = some (place ++ [i])) (hs : level? place t = some s)
    (hf : s.get? i = some f) : follow? names (takeOut names t).2 =
      (s.entries.drop (i + 1)).find? fun g => Name.key g.name == Name.key f.name := by
  induction names generalizing t place with
  | nil => cases ha
  | cons name rest ih =>
    by_cases hrest : rest = []
    · subst hrest
      obtain ⟨rfl, hi⟩ := eq_nil_of_address?_singleton ha
      obtain rfl : t = s := Option.some.inj hs
      obtain ⟨g, hg, hkey⟩ := ht.here.exists_of_firstPosition? hi
      rw [hf] at hg
      cases hg
      have htaken : (takeOut [name] t).2 =
          reindexed { t with entries := t.entries.eraseIdx i } := by
        rw [takeOut, hi]
        exact after_removeAt hf
      rw [ht.here.firstPosition?_eq] at hi
      rw [htaken, follow?, (indexed_reindexed _).findFirst?_eq, entries_reindexed, hkey]
      exact find?_eraseIdx_of_findIdx? hi
    · obtain ⟨j, g, nested, way, hj, hg, hn, hway, rfl⟩ := exists_of_address?_append hrest ha
      rw [level?_cons hg hn] at hs
      have hfirst : (t.withPayload j (.tree (takeOut rest nested).2)).findFirst? name =
          some { g with payload := .tree (takeOut rest nested).2 } := by
        rw [findFirst?, firstPosition?_withPayload, hj]
        exact get?_withPayload_self hg _
      rw [takeOut_cons_of_position hrest hj hg hn, follow?_cons_of_tree hrest hfirst rfl]
      exact ih (ht.payload (List.mem_of_getElem? hg) nested hn) hway hs

/-! ## Taking out what was written -/

theorem forall₂_set {fields : List Field} (hf : fields[i]? = some f) (h : g.Same f) :
    List.Forall₂ Field.Same (fields.set i g) fields := by
  induction fields generalizing i with
  | nil => cases hf
  | cons b fields ih =>
    cases i with
    | zero =>
      obtain rfl : b = f := Option.some.inj hf
      exact .cons h (sameFields_iff.1 (sameFields_refl fields))
    | succ i => exact .cons (Field.same_refl b) (ih hf)

/-- A tree in a field may be put in place of one that is the same. -/
theorem same_withPayload (hf : t.get? i = some f) (hn : f.payload = .tree nested)
    (hsame : s.same nested = true) : (t.withPayload i (.tree s)).same t = true := by
  rw [same_iff, entries_withPayload hf]
  refine forall₂_set hf (Field.same_iff.2 ⟨rfl, ?_, rfl⟩)
  rw [hn, Payload.same]
  exact hsame

/-- A field appended where names lead is taken out by them, and the tree is as before. -/
theorem Written.takeOut_eq (h : Written v names t t') (ht : t.Everywhere Indexed)
    (habsent : follow? names t = none)
    (hway : ∀ init, init ≠ [] → init <+: names → init ≠ names → (follow? init t).isSome = true) :
    (∃ f, (takeOut names t').1 = some f ∧ f.payload = v) ∧
      (takeOut names t').2.same t = true := by
  induction h with
  | @leaf name t t₁ i h =>
    have hfirst := h.firstPosition?_eq ht.here rfl
    cases h with
    | found hi =>
      -- the field would be there
      obtain ⟨f, hf, -⟩ := ht.here.exists_of_firstPosition? hi
      rw [follow?, findFirst?, hi, Option.bind_some, hf] at habsent
      cases habsent
    | made hi hname =>
      rw [withPayload_push, takeOut, hfirst]
      have hlast := get?_push_size t ⟨name, v, TagSet.empty⟩
      refine ⟨⟨_, (answer_removeAt _ _).trans hlast, rfl⟩, same_of_entries_eq ?_⟩
      show ((push t _).removeAt t.size).after.entries = t.entries
      rw [after_removeAt hlast, entries_reindexed, entries_push, size,
        List.eraseIdx_append_of_length_le (Nat.le_refl _), Nat.sub_self]
      exact List.append_nil _
  | @inner name rest t t₁ nested nested' i f hrest h hf hn hw ih =>
    have hfirst := h.firstPosition?_eq ht.here rfl
    cases h with
    | found hi =>
      have hfound : t.findFirst? name = some f := by
        rw [findFirst?, hi, Option.bind_some, hf]
      have hgoes : ∀ init, init ≠ [] → follow? (name :: init) t = follow? init nested :=
        fun init hinit => follow?_cons_of_tree hinit hfound hn
      rw [hgoes rest hrest] at habsent
      obtain ⟨hanswer, hsame⟩ := ih (ht.payload (List.mem_of_getElem? hf) nested hn) habsent
        fun init hne hprefix hproper => by
          rw [← hgoes init hne]
          exact hway _ (List.cons_ne_nil _ _) ((List.prefix_cons_inj _).2 hprefix)
            fun heq => hproper (List.cons.inj heq).2
      rw [← firstPosition?_withPayload t i (.tree nested')] at hfirst
      rw [takeOut_cons_of_position hrest hfirst (get?_withPayload_self hf _) rfl,
        withPayload_withPayload]
      exact ⟨hanswer, same_withPayload hf hn hsame⟩
    | made hi hname =>
      -- the first name would lead nowhere
      have hsome := hway [name] (List.cons_ne_nil _ _)
        ((List.prefix_cons_inj _).2 List.nil_prefix) fun heq => hrest (List.cons.inj heq).2.symm
      rw [follow?, findFirst?, hi] at hsome
      cases hsome

/-! ## Paths -/

/-- **Removing at a path takes out exactly the field that the path leads to.**  In a tree with an
index on every level, what is answered is what the path led to, and if that was nothing, nothing
changes.  Otherwise the field is gone from its address and all else is in place; the path leads to
the next field of that name behind it.  A field that was appended at the path, its way being there
before, is taken out again and leaves the same tree. -/
theorem removal_exact (ht : t.Reachable) (hindex : t.Everywhere fun s => s.index.isSome = true)
    (path : String) :
    (t.removePath path).1 = t.fieldAt? path ∧
    (t.fieldAt? path = none → (t.removePath path).2 = t) ∧
    (∀ f, t.fieldAt? path = some f → ∃ place i s,
      address? (Path.segments path) t = some (place ++ [i]) ∧ level? place t = some s ∧
      s.get? i = some f ∧ Without f (place ++ [i]) t (t.removePath path).2 ∧
      (t.removePath path).2.fieldAt? path =
        (s.entries.drop (i + 1)).find? fun g => Name.key g.name == Name.key f.name) ∧
    ((t.removePath path).2.Everywhere fun s => s.index.isSome = true) ∧
    ∀ v, (t.set path v).answer = .ok () →
      (∀ init, init ≠ [] → init <+: Path.segments path → init ≠ Path.segments path →
        (follow? init t).isSome = true) →
      t.fieldAt? path = none →
      (∃ f, ((t.set path v).after.removePath path).1 = some f ∧ f.payload = v) ∧
        ((t.set path v).after.removePath path).2.same t = true := by
  have hindexed := ht.everywhere_indexed hindex
  have hanswer := takeOut_answer (Path.segments path) t
  refine ⟨hanswer, fun hnone => takeOut_of_none (hanswer.trans hnone), fun f hf => ?_, ?_, ?_⟩
  · obtain ⟨a, ha, hwithout⟩ := without_of_takeOut (hanswer.trans hf)
    obtain ⟨place, i, s, rfl, hs, hget⟩ := hwithout.exists_level
    exact ⟨place, i, s, ha, hs, hget, hwithout, follow?_takeOut hindexed ha hs hget⟩
  · exact (everywhere_indexed_takeOut hindexed _).mono fun _ hs => hs.present
  · intro v hdone hway habsent
    exact (written_of_set hdone).2.takeOut_eq hindexed habsent hway

/-- Two fields of one name in a field of a tree, and another between them. -/
def orderLines : FieldTree :=
  ofList [⟨"Line", .value (.text "1"), .empty⟩, ⟨"Note", .value (.text "2"), .empty⟩,
    ⟨"LINE", .value (.text "3"), .empty⟩]

def ordered : FieldTree := ofList [⟨"Order", .tree orderLines, .empty⟩]

theorem reachable_ordered : ordered.Reachable := by
  have hlines : orderLines.Reachable := by
    refine .ofList ?_
    intro f hf
    simp only [List.mem_cons, List.not_mem_nil, or_false] at hf
    rcases hf with rfl | rfl | rfl <;>
      exact Field.reachable_of_fault (by decide +kernel) (.value _)
  refine .ofList ?_
  intro f hf
  rw [List.mem_singleton.1 hf]
  exact Field.reachable_of_fault (by decide +kernel) (.tree hlines)

theorem index_ordered : ordered.Everywhere fun s => s.index.isSome = true := by
  refine everywhere_iff.2 ⟨by decide, ?_⟩
  intro f hf
  rw [ordered, entries_ofList, List.mem_singleton] at hf
  rw [hf]
  refine Payload.everywhere_tree.2 (everywhere_of_values ?_ (by decide))
  decide

/-- The first line is taken out, the second is found then, and a price that was added goes again. -/
theorem removal_exact_ordered : ordered.Reachable ∧
    (ordered.Everywhere fun s => s.index.isSome = true) ∧
    (ordered.removePath "order\\line").1 = some ⟨"Line", .value (.text "1"), .empty⟩ ∧
    (ordered.removePath "order\\line").2.fieldAt? "order\\line" =
      some ⟨"LINE", .value (.text "3"), .empty⟩ ∧
    (ordered.set "Order/Price" (.value (.text "4"))).answer = .ok () ∧
    ((ordered.set "Order/Price" (.value (.text "4"))).after.removePath "Order/Price").2.same
      ordered = true := by
  have haddress : address? (Path.segments "order\\line") ordered = some ([0] ++ [0]) := by
    decide +kernel
  have hfound : ordered.fieldAt? "order\\line" = some ⟨"Line", .value (.text "1"), .empty⟩ :=
    follow?_eq_of_address? haddress
  obtain ⟨hanswer, -, hout, -⟩ := removal_exact reachable_ordered index_ordered "order\\line"
  obtain ⟨place, i, s, ha, hs, -, -, hnext⟩ := hout _ hfound
  obtain ⟨rfl, hi⟩ := List.append_inj' (Option.some.inj (ha.symm.trans haddress)) rfl
  obtain rfl : i = 0 := List.singleton_inj.1 hi
  obtain rfl : orderLines = s := Option.some.inj hs
  have hnote : (Name.key "Note" == Name.key "Line") = false := by decide +kernel
  have hline : (Name.key "LINE" == Name.key "Line") = true := by decide +kernel
  have hsecond : (orderLines.entries.drop 1).find? (fun g => Name.key g.name == Name.key "Line") =
      some ⟨"LINE", .value (.text "3"), .empty⟩ := by
    simp only [orderLines, entries_ofList, List.drop_one, List.tail_cons, List.find?_cons, hnote,
      hline]
  have hsegments : Path.segments "Order/Price" = ["Order", "Price"] := by decide +kernel
  have hdone : (ordered.set "Order/Price" (.value (.text "4"))).answer = .ok () := by
    decide +kernel
  have habsent : ordered.fieldAt? "Order/Price" = none :=
    Option.isNone_iff_eq_none.1 (by decide +kernel)
  -- the way is the first of the two names
  have hway : ∀ init, init ≠ [] → init <+: Path.segments "Order/Price" →
      init ≠ Path.segments "Order/Price" → (follow? init ordered).isSome = true := by
    intro init hne hprefix hproper
    rw [hsegments] at hprefix hproper
    obtain hnil | ⟨rest, rfl, hrest⟩ := List.prefix_cons_iff.1 hprefix
    · exact absurd hnil hne
    · obtain rfl | ⟨more, rfl, hmore⟩ := List.prefix_cons_iff.1 hrest
      · decide +kernel
      · rw [List.prefix_nil.1 hmore] at hproper
        exact absurd rfl hproper
  obtain ⟨-, -, -, -, hback⟩ := removal_exact reachable_ordered index_ordered "Order/Price"
  obtain ⟨-, hsame⟩ := hback _ hdone hway habsent
  exact ⟨reachable_ordered, index_ordered, hanswer.trans hfound, hnext.trans hsecond, hdone, hsame⟩

end MessageScript.FieldTree
