/-!
# Integer types

The four widths of stored integers, and the eight integer types: signed (two's complement) or
unsigned at each width.
-/

namespace MessageScript

/-- How many bytes an integer takes. -/
inductive Width where
  | w8
  | w16
  | w32
  | w64
  deriving DecidableEq, Repr

namespace Width

/-- All widths, from the narrowest. -/
def all : List Width := [w8, w16, w32, w64]

/-- The number of bytes. -/
def bytes : Width → Nat
  | w8 => 1
  | w16 => 2
  | w32 => 4
  | w64 => 8

/-- The number of bits. -/
def bits (w : Width) : Nat := 8 * w.bytes

/-- The number of patterns that the bits can have: two to the number of bits. -/
def patterns : Width → Nat
  | w8 => 0x100
  | w16 => 0x1_0000
  | w32 => 0x1_0000_0000
  | w64 => 0x1_0000_0000_0000_0000

/-- The least signed integer of the width. -/
def signedMin (w : Width) : Int := -(w.patterns / 2 : Nat)

/-- The greatest signed integer of the width. -/
def signedMax (w : Width) : Int := (w.patterns / 2 : Nat) - 1

/-- The greatest unsigned integer of the width. -/
def unsignedMax (w : Width) : Int := (w.patterns : Int) - 1

end Width

/-- A type of stored integers. -/
structure IntegerType where
  signed : Bool
  width : Width
  deriving DecidableEq, Repr

namespace IntegerType

/-- The least integer of the type. -/
def min (t : IntegerType) : Int := if t.signed then t.width.signedMin else 0

/-- The greatest integer of the type. -/
def max (t : IntegerType) : Int := if t.signed then t.width.signedMax else t.width.unsignedMax

/-- Whether an integer can be stored in the type. -/
def Holds (t : IntegerType) (n : Int) : Prop := t.min ≤ n ∧ n ≤ t.max

instance (t : IntegerType) (n : Int) : Decidable (t.Holds n) :=
  inferInstanceAs (Decidable (t.min ≤ n ∧ n ≤ t.max))

end IntegerType

/-- An integer of a type. -/
structure StoredInt (t : IntegerType) where
  val : Int
  holds : t.Holds val
  deriving DecidableEq, Repr

namespace StoredInt

/-- The integer, if the type holds it. -/
def ofInt? (t : IntegerType) (n : Int) : Option (StoredInt t) :=
  if h : t.Holds n then some ⟨n, h⟩ else none

/-! ## Lemmas -/

@[ext] theorem ext {t : IntegerType} {a b : StoredInt t} (h : a.val = b.val) : a = b := by
  cases a; cases b; cases h; rfl

@[simp] theorem ofInt?_val {t : IntegerType} (n : StoredInt t) : ofInt? t n.val = some n := by
  simp [ofInt?, n.holds]

theorem ofInt?_eq_some_iff {t : IntegerType} {n : Int} {m : StoredInt t} :
    ofInt? t n = some m ↔ m.val = n := by
  constructor
  · intro h
    unfold ofInt? at h
    split at h
    · cases h; rfl
    · simp at h
  · rintro rfl
    exact ofInt?_val m

theorem ofInt?_eq_none_iff {t : IntegerType} {n : Int} : ofInt? t n = none ↔ ¬ t.Holds n := by
  unfold ofInt?
  split <;> simp_all

end StoredInt

end MessageScript
