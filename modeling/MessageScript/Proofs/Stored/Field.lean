import MessageScript.Proofs.Field.Reachable

/-!
# What reading a stored form makes

Every field that is read from a stored form is made from a name; its payload is a value, or fields
collected that were read before, and its tags are read or none.  So what holds of all fields made in
this way (`MadeByReading`) holds of every field read, and a tree read is such fields collected.

    MadeByReading P → readTree j = .ok t → ∃ fields, t = .ofList fields ∧ ∀ f ∈ fields, P f
-/

namespace MessageScript

/-! ## Results -/

theorem exists_of_map_eq_ok {ε α β : Type} {x : Except ε α} {g : α → β} {b : β}
    (h : x.map g = .ok b) : ∃ a, x = .ok a ∧ g a = b := by
  cases x with
  | error e => cases h
  | ok a => exact ⟨a, rfl, Except.ok.inj h⟩

theorem exists_of_bind_eq_ok {ε α β : Type} {x : Except ε α} {g : α → Except ε β} {b : β}
    (h : x.bind g = .ok b) : ∃ a, x = .ok a ∧ g a = .ok b := by
  cases x with
  | error e => cases h
  | ok a => exact ⟨a, rfl, h⟩

namespace Stored

/-! ## Made by reading -/

/-- The payloads that reading makes, of fields that satisfy `P`. -/
inductive PayloadOf (P : Field → Prop) : Payload → Prop
  | value (v : Value) : PayloadOf P (.value v)
  | tree {fields : List Field} (h : ∀ f ∈ fields, P f) : PayloadOf P (.tree (.ofList fields))

/-- Whether `P` holds of every field that reading makes of fields that satisfy it. -/
def MadeByReading (P : Field → Prop) : Prop :=
  ∀ name payload f tags, PayloadOf P payload → Field.make name payload = .ok f →
    TagSet.Reachable tags → P { f with tags := tags }

/-- What the members of a field read so far say of its tags and its payload. -/
structure FieldParts.Sound (P : Field → Prop) (parts : FieldParts) : Prop where
  tags : ∀ tags, parts.tags = some tags → tags.Reachable
  payload : ∀ p, parts.payload = some (.ok p) → PayloadOf P p

namespace FieldParts.Sound

variable {P : Field → Prop} {parts parts' : FieldParts} {j : Json}

theorem nothing : Sound P {} := by
  constructor
  · intro tags h
    cases h
  · intro p h
    cases h

theorem addName (hs : parts.Sound P) (h : parts.addName j = .ok parts') : parts'.Sound P := by
  unfold FieldParts.addName at h
  split at h
  · cases h
  · obtain ⟨name, -, rfl⟩ := exists_of_map_eq_ok h
    exact ⟨hs.tags, hs.payload⟩

theorem addTags (hs : parts.Sound P) (h : parts.addTags j = .ok parts') : parts'.Sound P := by
  unfold FieldParts.addTags at h
  split at h
  · cases h
  · obtain ⟨tags, ht, rfl⟩ := exists_of_map_eq_ok h
    refine ⟨?_, hs.payload⟩
    intro tags' h'
    cases h'
    exact .stored ht

theorem addPayload (hs : parts.Sound P) {result : Result Payload}
    (hr : ∀ p, result = .ok p → PayloadOf P p) : (parts.addPayload result).Sound P := by
  unfold FieldParts.addPayload
  split
  · exact hs
  · refine ⟨hs.tags, ?_⟩
    intro p hp
    exact hr p (Option.some.inj hp)

/-- The field that sound parts make up satisfies `P`. -/
theorem toField (hP : MadeByReading P) (hs : parts.Sound P) {f : Field}
    (h : parts.toField = .ok f) : P f := by
  obtain ⟨name, -, h⟩ := exists_of_bind_eq_ok h
  obtain ⟨p, hp, h⟩ := exists_of_bind_eq_ok h
  obtain ⟨made, hm, h⟩ := exists_of_bind_eq_ok h
  cases h
  have hpayload : PayloadOf P p := by
    obtain ⟨result, hresult, hp⟩ := exists_of_bind_eq_ok hp
    refine hs.payload p ?_
    cases hparts : parts.payload with
    | none =>
      rw [hparts] at hresult
      cases hresult
    | some result' =>
      rw [hparts] at hresult
      cases hresult
      exact congrArg some hp
  have hmake : Field.make name p = .ok made := by
    cases hname : Field.make name p with
    | error e =>
      rw [hname] at hm
      cases hm
    | ok made' =>
      rw [hname] at hm
      cases hm
      rfl
  refine hP name p made _ hpayload hmake ?_
  cases htags : parts.tags with
  | none => exact .empty
  | some tags => exact hs.tags tags htags

end FieldParts.Sound

/-! ## Reading -/

variable {P : Field → Prop}

mutual

/-- What is made by reading satisfies `P`; the recursion is that of the reader. -/
theorem readFieldAt_satisfies (hP : MadeByReading P) (levels : Nat) :
    ∀ (j : Json) {f : Field}, readFieldAt levels j = .ok f → P f
  | .object members, f, h => by
    rw [readFieldAt] at h
    obtain ⟨parts, hparts, hf⟩ := exists_of_bind_eq_ok h
    exact (readParts_sound hP levels members .nothing hparts).toField hP hf
  | .null, _, h | .bool _, _, h | .number _, _, h | .string _, _, h | .array _, _, h
  | .broken, _, h => by
    simp [readFieldAt] at h

theorem readParts_sound (hP : MadeByReading P) (levels : Nat) :
    ∀ (members : List (Option String × Json)) {parts parts' : FieldParts}, parts.Sound P →
      readParts levels parts members = .ok parts' → parts'.Sound P
  | [], _, _, hs, h => by
    rw [readParts] at h
    cases h
    exact hs
  | (none, _) :: _, _, _, _, h => by simp [readParts] at h
  | (some name, value) :: rest, parts, parts', hs, h => by
    rw [readParts] at h
    split at h
    · obtain ⟨named, hnamed, h⟩ := exists_of_bind_eq_ok h
      exact readParts_sound hP levels rest (hs.addName hnamed) h
    · split at h
      · obtain ⟨tagged, htagged, h⟩ := exists_of_bind_eq_ok h
        exact readParts_sound hP levels rest (hs.addTags htagged) h
      · split at h
        · split at h
          · refine readParts_sound hP levels rest (hs.addPayload ?_) h
            intro p hp
            obtain ⟨v, -, rfl⟩ := exists_of_map_eq_ok hp
            exact .value v
          · split at h
            · refine readParts_sound hP levels rest (hs.addPayload ?_) h
              intro p hp
              obtain ⟨fields, hfields, rfl⟩ := exists_of_map_eq_ok hp
              exact .tree (readFields_satisfies hP (levels - 2) value hfields)
            · exact readParts_sound hP levels rest hs h
        · cases h

theorem readFields_satisfies (hP : MadeByReading P) (levels : Nat) :
    ∀ (j : Json) {fields : List Field}, readFields levels j = .ok fields → ∀ f ∈ fields, P f
  | .array items, _, h => by
    rw [readFields] at h
    exact readItems_satisfies hP levels items h
  | .null, _, h | .bool _, _, h | .number _, _, h | .string _, _, h | .object _, _, h
  | .broken, _, h => by
    simp [readFields] at h

theorem readItems_satisfies (hP : MadeByReading P) (levels : Nat) :
    ∀ (items : List Json) {fields : List Field}, readItems levels items = .ok fields →
      ∀ f ∈ fields, P f
  | [], _, h => by
    rw [readItems] at h
    cases h
    intro f hf
    cases hf
  | item :: rest, _, h => by
    rw [readItems] at h
    obtain ⟨first, hfirst, h⟩ := exists_of_bind_eq_ok h
    obtain ⟨others, hothers, h⟩ := exists_of_bind_eq_ok h
    cases h
    intro f hf
    rcases List.mem_cons.1 hf with rfl | hf
    · exact readFieldAt_satisfies hP levels item hfirst
    · exact readItems_satisfies hP levels rest hothers f hf

end

/-- What holds of all fields made by reading holds of every field read. -/
theorem readField_satisfies (hP : MadeByReading P) {j : Json} {f : Field}
    (h : readField j = .ok f) : P f :=
  readFieldAt_satisfies hP (nestingLimit - 1) j h

/-- A tree that is read is fields collected, all made by reading. -/
theorem exists_fields_of_readTree (hP : MadeByReading P) {j : Json} {t : FieldTree}
    (h : readTree j = .ok t) : ∃ fields, t = .ofList fields ∧ ∀ f ∈ fields, P f := by
  obtain ⟨fields, hfields, rfl⟩ := exists_of_map_eq_ok h
  exact ⟨fields, rfl, readFields_satisfies hP (nestingLimit - 2) j hfields⟩

end Stored

end MessageScript
