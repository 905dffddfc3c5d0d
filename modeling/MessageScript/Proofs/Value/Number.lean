import MessageScript.Proofs.Integer.Bytes
import MessageScript.Proofs.Integer.Numeral
import MessageScript.Proofs.Size.ByteSize
import MessageScript.Value.Coercion

/-!
# Whole numbers as other kinds

The stored integers and the byte sizes are the values that hold a whole number.  Taken as another
of these kinds such a value keeps its number, if that kind's range has it, and the way there does
not matter: through its text, through a third kind, or through its bytes where both kinds have signs
or neither has.

    v.number? = some (j, n) → v.coerce? k.kind d = k.value? n              (coerce?_number)
-/

namespace MessageScript

open Text

/-! ## Kinds of whole numbers -/

/-- A kind whose values are whole numbers. -/
inductive NumberKind where
  | integer (type : IntegerType)
  | size
  deriving DecidableEq, Repr

namespace NumberKind

/-- The kind of the values. -/
def kind : NumberKind → Kind
  | integer t => .integer t
  | size => .size

/-- The type in which the numbers of a kind are stored. -/
def storage : NumberKind → IntegerType
  | integer t => t
  | size => ⟨false, .w64⟩

/-- Whether a number is in the range of a kind. -/
def Holds (k : NumberKind) (n : Int) : Prop := k.storage.Holds n

instance (k : NumberKind) (n : Int) : Decidable (k.Holds n) :=
  inferInstanceAs (Decidable (k.storage.Holds n))

variable {k : NumberKind} {n : Int}

theorem holds_size_iff : size.Holds n ↔ 0 ≤ n ∧ n < 0x1_0000_0000_0000_0000 :=
  Bytes.holds_unsigned_iff

/-- The value of a kind that holds a number in its range. -/
def value (k : NumberKind) (n : Int) (h : k.Holds n) : Value :=
  match k with
  | integer t => .integer t ⟨n, h⟩
  | size => .size ⟨n.toNat, by have := holds_size_iff.1 h; omega⟩

/-- The value of a kind that holds a number, if it is in range. -/
def value? (k : NumberKind) (n : Int) : Option Value :=
  if h : k.Holds n then some (k.value n h) else none

theorem value?_of_holds (h : k.Holds n) : k.value? n = some (k.value n h) := dif_pos h

theorem value?_of_not_holds (h : ¬ k.Holds n) : k.value? n = none := dif_neg h

theorem value?_integer (t : IntegerType) (n : Int) :
    (integer t).value? n = (StoredInt.ofInt? t n).map (Value.integer t) := by
  by_cases h : (integer t).Holds n
  · have hsome : StoredInt.ofInt? t n = some ⟨n, h⟩ := dif_pos h
    rw [value?_of_holds h, hsome]
    rfl
  · have hnone : StoredInt.ofInt? t n = none := dif_neg h
    rw [value?_of_not_holds h, hnone]
    rfl

theorem value?_size (n : Int) : size.value? n = (ByteSize.ofInt? n).map Value.size := by
  unfold ByteSize.ofInt? ByteSize.ofNat?
  by_cases h : size.Holds n
  · obtain ⟨hlow, hhigh⟩ := holds_size_iff.1 h
    rw [value?_of_holds h, if_pos hlow, dif_pos (by omega)]
    rfl
  · rw [value?_of_not_holds h]
    rw [holds_size_iff] at h
    split
    · rw [dif_neg (by omega)]
      rfl
    · rfl

end NumberKind

namespace Value

variable {v : Value} {j k : NumberKind} {n : Int}

/-- The whole number that a value holds, with its kind. -/
def number? : Value → Option (NumberKind × Int)
  | integer t n => some (.integer t, n.val)
  | size n => some (.size, n.bytes)
  | _ => none

theorem number?_value (h : k.Holds n) : (k.value n h).number? = some (k, n) := by
  cases k with
  | integer t => rfl
  | size =>
    have hcast : ((n.toNat : Nat) : Int) = n :=
      Int.toNat_of_nonneg (NumberKind.holds_size_iff.1 h).1
    exact congrArg (fun m => some (NumberKind.size, m)) hcast

theorem number?_of_value? (h : k.value? n = some v) : v.number? = some (k, n) := by
  unfold NumberKind.value? at h
  split at h
  · next hk =>
    cases h
    exact number?_value hk
  · cases h

/-- A value is determined by its number and its kind. -/
theorem exists_eq_value (h : v.number? = some (k, n)) : ∃ hk : k.Holds n, v = k.value n hk := by
  cases v with
  | integer t m =>
    cases h
    exact ⟨m.holds, rfl⟩
  | size m =>
    cases h
    have hlt := m.bytes_lt
    exact ⟨NumberKind.holds_size_iff.2 (by omega), rfl⟩
  | _ => cases h

/-! ## From one kind to another -/

/-- **A whole number is kept by every kind that has it in its range.** -/
theorem coerce?_number (h : v.number? = some (j, n)) (k : NumberKind) (d : Calendar.Defaults) :
    v.coerce? k.kind d = k.value? n := by
  cases v with
  | integer t m =>
    cases h
    cases k with
    | integer t' => exact (NumberKind.value?_integer t' m.val).symm
    | size => exact (NumberKind.value?_size m.val).symm
  | size m =>
    cases h
    cases k with
    | integer t => exact (NumberKind.value?_integer t m.bytes).symm
    | size =>
      obtain ⟨hm, hvalue⟩ := exists_eq_value (v := size m) (k := .size) rfl
      rw [NumberKind.value?_of_holds hm, ← hvalue]
      rfl
  | _ => cases h

/-! ## Through text -/

theorem coerce?_text_number (h : v.number? = some (j, n)) (d : Calendar.Defaults) :
    v.coerce? .text d = some (text (String.ofList (signedDigits n))) := by
  cases v with
  | integer t m =>
    cases h
    rfl
  | size m =>
    cases h
    rfl
  | _ => cases h

theorem coerce?_signedDigits (k : NumberKind) (n : Int) (d : Calendar.Defaults) :
    (text (String.ofList (signedDigits n))).coerce? k.kind d = k.value? n := by
  cases k with
  | integer t =>
    have hread := StoredInt.parse?_signedDigits t n
    rw [← String.toList_ofList (l := signedDigits n)] at hread
    rw [NumberKind.value?_integer, ← hread]
    rfl
  | size =>
    rw [NumberKind.value?_size, ← ByteSize.parse?_signedDigits]
    rfl

/-! ## Through bytes -/

theorem coerce?_binary_number (h : v.number? = some (j, n)) (d : Calendar.Defaults) :
    v.coerce? .binary d = some (binary (Bytes.encode j.storage.width n)) := by
  cases v with
  | integer t m =>
    cases h
    rfl
  | size m =>
    cases h
    rfl
  | _ => cases h

/-- What was stored at one width is read at every other of the same signedness that has it. -/
theorem coerce?_encode {t t' : IntegerType} (h : t'.Holds n) (hsigned : t.signed = t'.signed)
    (d : Calendar.Defaults) :
    (binary (Bytes.encode t'.width n)).coerce? (.integer t) d =
      (NumberKind.integer t).value? n := by
  obtain ⟨signed, width⟩ := t
  obtain ⟨signed', width'⟩ := t'
  cases hsigned
  have hread : (Bytes.decode (Bytes.encode width' n) ⟨signed, width⟩).bind
      (StoredInt.ofInt? ⟨signed, width⟩) = StoredInt.ofInt? ⟨signed, width⟩ n := by
    rw [Bytes.decode_encode h]
    split
    · rfl
    · next hnot => exact (StoredInt.ofInt?_eq_none_iff.2 hnot).symm
  rw [NumberKind.value?_integer, ← hread]
  rfl

/-! ## Every route -/

/-- **Every way from one kind of whole numbers to another gives the same.**  Straight, through the
text or through a third kind it gives the value with the same number, if that is in range; and so
does the way through the bytes to the stored integers of the same signedness. -/
theorem coercion_routes_agree (h : v.number? = some (j, n)) (d : Calendar.Defaults) :
    (∀ k : NumberKind, v.coerce? k.kind d = k.value? n ∧
      (v.coerce? .text d).bind (fun w => w.coerce? k.kind d) = k.value? n ∧
      ∀ (i : NumberKind) (w : Value), v.coerce? i.kind d = some w →
        w.coerce? k.kind d = v.coerce? k.kind d) ∧
    ∀ t : IntegerType, t.signed = j.storage.signed →
      (v.coerce? .binary d).bind (fun w => w.coerce? (.integer t) d) =
        v.coerce? (.integer t) d := by
  refine ⟨fun k => ⟨coerce?_number h k d, ?_, ?_⟩, ?_⟩
  · rw [coerce?_text_number h]
    exact coerce?_signedDigits k n d
  · intro i w hw
    rw [coerce?_number h] at hw ⊢
    exact coerce?_number (number?_of_value? hw) k d
  · intro t hsigned
    obtain ⟨hj, -⟩ := exists_eq_value h
    rw [coerce?_binary_number h]
    exact (coerce?_encode hj hsigned d).trans (coerce?_number h (.integer t) d).symm

/-- The first count that takes the sign bit: no route makes it a signed integer. -/
theorem coercion_routes_agree_signBit :
    (size ⟨0x8000_0000_0000_0000, by decide⟩).number? = some (.size, 0x8000_0000_0000_0000) ∧
    ((size ⟨0x8000_0000_0000_0000, by decide⟩).coerce? .text .standard).bind
      (fun w => w.coerce? (.integer ⟨true, .w64⟩) .standard) = none ∧
    ((size ⟨0x8000_0000_0000_0000, by decide⟩).coerce? .binary .standard).bind
      (fun w => w.coerce? (.integer ⟨false, .w64⟩) .standard) =
        some (integer ⟨false, .w64⟩ ⟨0x8000_0000_0000_0000, by decide⟩) := by
  have hnumber : (size ⟨0x8000_0000_0000_0000, by decide⟩).number? =
      some (.size, 0x8000_0000_0000_0000) := rfl
  obtain ⟨hnumbers, hbytes⟩ := coercion_routes_agree hnumber .standard
  obtain ⟨-, htext, -⟩ := hnumbers (.integer ⟨true, .w64⟩)
  have hnone : (NumberKind.integer ⟨true, .w64⟩).value? 0x8000_0000_0000_0000 = none :=
    NumberKind.value?_of_not_holds (by decide)
  exact ⟨hnumber, htext.trans hnone, (hbytes ⟨false, .w64⟩ rfl).trans rfl⟩

end Value

end MessageScript
