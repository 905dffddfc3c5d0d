import MessageScript.Text.Reading

/-!
# Fractions of a second

Fractions have up to seven digits: the last place is 100 nanoseconds, a tick.
-/

namespace MessageScript.Calendar

open Text

/-- The digits that a fraction may have. -/
def fractionDigits : Nat := 7

/-- The nanoseconds in a tick. -/
def tickNanos : Nat := 100

/-- The digits behind a point, as nanoseconds. -/
def fraction (cs : List Char) : Option (Nat × List Char) :=
  (digitRun fractionDigits cs).map fun (run, rest) => (ofDigits run * powerOfTen (9 - run.length), rest)

/-- A point and a fraction, or nothing. -/
def optionalFraction (cs : List Char) : Option (Nat × List Char) :=
  match eat '.' cs with
  | some rest => fraction rest
  | none => some (0, cs)

/-- The fraction of a second as text: nothing if it is zero, or a point and its digits without the
zeros at the end.  What is below a tick is dropped. -/
def fractionText (nanos : Nat) : List Char :=
  let ticks := nanos % 1_000_000_000 / tickNanos
  if ticks = 0 then [] else '.' :: trimZeros 0 (paddedDigits fractionDigits ticks)

/-! ## Lemmas -/

theorem length_lt_of_fraction {n : Nat} {cs rest : List Char} (h : fraction cs = some (n, rest)) :
    rest.length < cs.length := by
  simp only [fraction, Option.map_eq_some_iff, Prod.exists, Prod.mk.injEq] at h
  obtain ⟨run, rest', hrun, -, rfl⟩ := h
  exact length_lt_of_digitRun hrun

theorem length_le_of_optionalFraction {n : Nat} {cs rest : List Char}
    (h : optionalFraction cs = some (n, rest)) : rest.length ≤ cs.length := by
  unfold optionalFraction at h
  split at h
  · next rest' heat =>
    have := length_lt_of_eat heat
    have := length_lt_of_fraction h
    omega
  · cases h
    exact Nat.le_refl _

end MessageScript.Calendar
