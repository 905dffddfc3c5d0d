import MessageScript.Stored.Basic

/-!
# Values read from their stored form

A kind is stored as its name, and names tell kinds apart.  A value is stored as its kind and its
text, so what is read is what its kind's grammar reads in that text.

    Kind.ofName? k.name = some k                                             (Kind.ofName?_name)
    readValue kept (ofValue v) = .ok w ↔
      Value.parse? v.kind v.toText Defaults.standard = some w               (readValue_ofValue_iff)
-/

namespace MessageScript

theorem Kind.ofName?_name_all : ∀ k ∈ Kind.all, Kind.ofName? k.name = some k := by
  decide +kernel

/-- A kind is found by its own name. -/
theorem Kind.ofName?_name (k : Kind) : Kind.ofName? k.name = some k :=
  Kind.ofName?_name_all k (Kind.mem_all k)

namespace Stored

variable {kept : Bool} {v w : Value}

theorem readKind_ofKind (kept : Bool) (k : Kind) : readKind kept (ofKind k) = .ok k := by
  have hread : readKind kept (ofKind k) = present (Kind.ofName? k.name) := rfl
  rw [hread, Kind.ofName?_name]
  rfl

theorem accepted_eq_ok_iff {α : Type} {x : Except Error α} {a : α} :
    accepted x = .ok a ↔ x = .ok a := by
  cases x with
  | error e => exact iff_of_false nofun nofun
  | ok b => rw [accepted, Except.ok.injEq, Except.ok.injEq]

theorem readValue_ofValue (kept : Bool) (v : Value) : readValue kept (ofValue v) =
    accepted (Value.parse v.kind v.toText Calendar.Defaults.standard) := by
  have hread : readValue kept (ofValue v) = (readKind kept (ofKind v.kind)).bind fun k =>
      accepted (Value.parse k v.toText Calendar.Defaults.standard) := rfl
  rw [hread, readKind_ofKind]
  rfl

/-- **Reading a stored value is reading its text.** -/
theorem readValue_ofValue_iff : readValue kept (ofValue v) = .ok w ↔
    Value.parse? v.kind v.toText Calendar.Defaults.standard = some w := by
  rw [readValue_ofValue, accepted_eq_ok_iff, Value.parse_eq_ok_iff]

end Stored

end MessageScript
