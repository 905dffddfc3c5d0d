/-!
# Magnitudes of byte counts

Byte counts are written in units a step apart on one of two ladders: powers of 1000 (`K` to `P`) or
powers of 1024 (`Ki` to `Pi`).  Step zero is the byte; the fifth step is the last.
-/

namespace MessageScript

/-- A ladder of units. -/
inductive Ladder where
  | decimal
  | binary
  deriving DecidableEq, Repr

namespace Ladder

/-- The last step. -/
def lastStep : Nat := 5

/-- How many of one unit make the next. -/
def base : Ladder → Nat
  | decimal => 1000
  | binary => 1024

/-- The letters of the steps, from the first. -/
def letters : List Char := ['K', 'M', 'G', 'T', 'P']

/-- The mark behind a number in units of a step; steps past the last have the last one's. -/
def suffix (l : Ladder) (step : Nat) : String :=
  match (if step = 0 then none else letters[min step lastStep - 1]?), l with
  | none, _ => ""
  | some c, decimal => String.ofList [c]
  | some c, binary => String.ofList [c, 'i']

/-- The bytes in one unit of a step. -/
def factor (l : Ladder) : Nat → Nat
  | 0 => 1
  | step + 1 => l.base * l.factor step

/-! ## Lemmas -/

theorem base_pos (l : Ladder) : 0 < l.base := by
  cases l <;> decide

theorem factor_pos (l : Ladder) (step : Nat) : 0 < l.factor step := by
  induction step with
  | zero => exact Nat.one_pos
  | succ step ih => exact Nat.mul_pos l.base_pos ih

end Ladder

/-- A unit other than the byte. -/
structure Magnitude where
  ladder : Ladder
  step : Nat
  deriving DecidableEq, Repr

namespace Magnitude

/-- The units of both ladders, the decimal ones first. -/
def all : List Magnitude :=
  [1, 2, 3, 4, 5].map (Magnitude.mk .decimal) ++ [1, 2, 3, 4, 5].map (Magnitude.mk .binary)

/-- The bytes in one unit. -/
def factor (m : Magnitude) : Nat := m.ladder.factor m.step

/-- The mark behind a number in this unit. -/
def suffix (m : Magnitude) : String := m.ladder.suffix m.step

/-- The unit that a mark names, in capital or small letters. -/
def ofSuffix? (mark : List Char) : Option Magnitude :=
  all.find? fun m => m.suffix.toList.map Char.toLower == mark.map Char.toLower

/-! ## Lemmas -/

theorem factor_pos (m : Magnitude) : 0 < m.factor := m.ladder.factor_pos m.step

end Magnitude

end MessageScript
