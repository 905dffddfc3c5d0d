import MessageScript.Value.Coercion

/-!
# Coercions against reading and against each other

Every value is itself as a value of its own kind, and a text is as a value of a kind what that
kind's grammar reads in it.  So what came out of a coercion is not changed by the same coercion.

    v.coerceBy? clock v.kind = some v                                        (coerceBy?_own_kind)
    (text s).coerceBy? clock k = parseBy? clock k s                              (coerceBy?_text)
-/

namespace MessageScript.Value

open Calendar

variable {v w : Value} {k : Kind} {clock : LocalClock}

/-- A coerced value is of the kind asked for. -/
theorem kind_of_coerceBy? (h : v.coerceBy? clock k = some w) : w.kind = k := by
  cases k with
  | dateTime =>
    obtain ⟨t, -, rfl⟩ := Option.map_eq_some_iff.1 h
    rfl
  | _ => exact @kind_of_coerce? v w _ Defaults.standard h

/-- Every value is itself as a value of its own kind. -/
theorem coerceBy?_own_kind (clock : LocalClock) (v : Value) :
    v.coerceBy? clock v.kind = some v := by
  cases v with
  | integer t n => exact congrArg (Option.map (integer t)) (StoredInt.ofInt?_val n)
  | float f x => cases f <;> rfl
  | _ => rfl

/-- A text becomes what is read in it. -/
theorem coerceBy?_text (clock : LocalClock) (s : String) (k : Kind) :
    (text s).coerceBy? clock k = parseBy? clock k s := by
  cases k with
  | float f => cases f <;> rfl
  | _ => rfl

/-- **Coercions agree with each other and with reading.**  What comes out is of the kind asked for
and is not changed when that kind is asked for again; a value is not changed as a value of its own
kind; and a text is coerced as it is read. -/
theorem coercion_coherent (clock : LocalClock) (v : Value) (k : Kind) :
    (∀ w, v.coerceBy? clock k = some w → w.kind = k ∧ w.coerceBy? clock k = some w) ∧
    v.coerceBy? clock v.kind = some v ∧
    ∀ s, (text s).coerceBy? clock k = parseBy? clock k s := by
  refine ⟨?_, coerceBy?_own_kind clock v, fun s => coerceBy?_text clock s k⟩
  intro w h
  -- Of its own kind, what came out is unchanged, and its own kind is the one asked for.
  have hkind := kind_of_coerceBy? h
  have hown := coerceBy?_own_kind clock w
  rw [hkind] at hown
  exact ⟨hkind, hown⟩

/-- The second before the epoch. -/
def secondBeforeEpoch : DateTime :=
  ⟨-1, 0, Offset.zero, by decide, by decide, TimeOfDay.midnight.nanos_lt⟩

theorem coercion_coherent_beforeEpoch :
    (integer ⟨true, .w64⟩ ⟨-1, by decide⟩).coerceBy? Defaults.standard.clock .dateTime =
      some (dateTime secondBeforeEpoch) ∧
    (dateTime secondBeforeEpoch).coerceBy? Defaults.standard.clock .dateTime =
      some (dateTime secondBeforeEpoch) := by
  have hcoerce :
      (integer ⟨true, .w64⟩ ⟨-1, by decide⟩).coerceBy? Defaults.standard.clock .dateTime =
        some (dateTime secondBeforeEpoch) := by decide
  obtain ⟨hagain, -, -⟩ :=
    coercion_coherent Defaults.standard.clock (integer ⟨true, .w64⟩ ⟨-1, by decide⟩) .dateTime
  exact ⟨hcoerce, (hagain _ hcoerce).2⟩

end MessageScript.Value
