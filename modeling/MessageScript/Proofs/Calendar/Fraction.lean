import MessageScript.Calendar.Fraction
import MessageScript.Proofs.Text.Reading

/-!
# Texts of a fraction of a second

A fraction is left out if it is zero, or written with a point and up to seven digits, zeros at the
end or not (`FractionForm`).  These are the texts that are read as fractions, and what is written is
one of them.

    optionalFraction cs = some (n, rest) → ∃ f, cs = f ++ rest ∧ FractionForm n f
                                                                     (form_of_optionalFraction)
    FractionForm n f → EndsFraction rest → optionalFraction (f ++ rest) = some (n, rest)
                                                                       (FractionForm.read)
-/

namespace MessageScript.Calendar

open Text

/-- The texts of so many nanoseconds as a fraction of a second. -/
inductive FractionForm (nanos : Nat) : List Char → Prop
  | left_out (h : nanos = 0) : FractionForm nanos []
  | pointed {run : List Char} (hdigits : AllDigits run) (hne : run ≠ []) (hlength : run.length ≤ 7)
      (hvalue : nanos * powerOfTen run.length = ofDigits run * 1_000_000_000) :
      FractionForm nanos ('.' :: run)

/-- Whether a text behind a fraction does not go on with it. -/
def EndsFraction (rest : List Char) : Prop :=
  ∀ c, rest.head? = some c → c.isDigit = false ∧ c ≠ '.'

theorem endsFraction_nil : EndsFraction [] := by
  intro c h
  cases h

theorem EndsFraction.noDigitHead {rest : List Char} (h : EndsFraction rest) : NoDigitHead rest :=
  fun c hc => (h c hc).1

variable {n : Nat} {cs f rest : List Char}

/-- Seven digits behind a point are whole ticks. -/
theorem powerOfTen_missing {k : Nat} (h : k ≤ 7) :
    powerOfTen (9 - k) = 100 * powerOfTen (7 - k) := by
  have hsplit : 9 - k = 2 + (7 - k) := by omega
  rw [hsplit, powerOfTen_add]
  rfl

theorem powerOfTen_split {k : Nat} (h : k ≤ 9) :
    powerOfTen (9 - k) * powerOfTen k = 1_000_000_000 := by
  have hsplit : 9 - k + k = 9 := by omega
  rw [← powerOfTen_add, hsplit]
  rfl

/-- A numeral behind a point, filled up with zeros, counts nanoseconds. -/
theorem value_eq_iff {k v : Nat} (h : k ≤ 7) :
    n * powerOfTen k = v * 1_000_000_000 ↔ n = v * powerOfTen (9 - k) := by
  rw [← powerOfTen_split (k := k) (by omega), ← Nat.mul_assoc]
  exact Nat.mul_right_cancel_iff (powerOfTen_pos k)

namespace FractionForm

theorem whole_ticks (h : FractionForm n f) : n % 100 = 0 := by
  cases h with
  | left_out h => rw [h]
  | pointed hdigits hne hlength hvalue =>
    rw [(value_eq_iff hlength).1 hvalue, powerOfTen_missing hlength, Nat.mul_left_comm]
    exact Nat.mul_mod_right 100 _

theorem lt_second (h : FractionForm n f) : n < 1_000_000_000 := by
  cases h with
  | left_out h => omega
  | pointed hdigits hne hlength hvalue =>
    have hlt := ofDigits_lt hdigits
    rw [(value_eq_iff hlength).1 hvalue, ← powerOfTen_split (Nat.le_trans hlength (by decide)),
      Nat.mul_comm]
    exact Nat.mul_lt_mul_of_pos_left hlt (powerOfTen_pos _)

/-- A fraction is read up to where it ends. -/
theorem read (h : FractionForm n f) (hrest : EndsFraction rest) :
    optionalFraction (f ++ rest) = some (n, rest) := by
  unfold optionalFraction
  cases h with
  | left_out h =>
    cases rest with
    | nil => rw [h]; rfl
    | cons c rest =>
      rw [List.nil_append, eat_of_ne (hrest c rfl).2, h]
  | pointed hdigits hne hlength hvalue =>
    rw [List.cons_append, eat_self]
    simp only [fraction, fractionDigits]
    rw [digitRun_eq_some_iff.2 ⟨rfl, hdigits, hne, hlength, hrest.noDigitHead⟩, Option.map_some,
      (value_eq_iff hlength).1 hvalue]

end FractionForm

/-- What is read as a fraction is a text of it. -/
theorem form_of_optionalFraction (h : optionalFraction cs = some (n, rest)) :
    ∃ f, cs = f ++ rest ∧ FractionForm n f := by
  unfold optionalFraction at h
  split at h
  · next behind heat =>
    simp only [fraction, fractionDigits, Option.map_eq_some_iff, Prod.exists, Prod.mk.injEq] at h
    obtain ⟨run, rest', hrun, hvalue, rfl⟩ := h
    obtain ⟨rfl, hdigits, hne, hlength, -⟩ := digitRun_eq_some_iff.1 hrun
    refine ⟨'.' :: run, eat_eq_some_iff.1 heat, ?_⟩
    exact .pointed hdigits hne hlength ((value_eq_iff hlength).2 hvalue.symm)
  · cases h
    exact ⟨[], rfl, .left_out rfl⟩

/-- Ticks are written as seven digits without the zeros at the end. -/
theorem pointed_ticks {ticks : Nat} (hlt : ticks < 10_000_000) (h : ticks ≠ 0) :
    FractionForm (ticks * 100) ('.' :: trimZeros 0 (paddedDigits 7 ticks)) := by
  -- the zeros that are cut off count for nothing but powers of ten
  obtain ⟨k, hzeros⟩ := exists_eq_trimZeros_append 0 (paddedDigits 7 ticks)
  generalize trimZeros 0 (paddedDigits 7 ticks) = run at hzeros
  have hdigits := allDigits_paddedDigits 7 ticks
  have hlength := length_paddedDigits (w := 7) (by decide) hlt
  have hvalue := ofDigits_paddedDigits 7 ticks
  rw [hzeros, allDigits_append] at hdigits
  rw [hzeros, List.length_append, List.length_replicate] at hlength
  rw [hzeros, ofDigits_append, ofDigits_zeros, List.length_replicate, Nat.add_zero] at hvalue
  refine .pointed hdigits.1 ?_ (by omega) ?_
  · rintro rfl
    rw [← hvalue] at h
    exact h (Nat.zero_mul _)
  · have hpower : powerOfTen k * powerOfTen run.length = 10_000_000 := by
      rw [← powerOfTen_add, Nat.add_comm, hlength]
      rfl
    rw [← hvalue]
    calc ofDigits run * powerOfTen k * 100 * powerOfTen run.length
        = ofDigits run * (powerOfTen k * powerOfTen run.length) * 100 := by
          simp only [Nat.mul_assoc, Nat.mul_comm 100]
      _ = ofDigits run * 1_000_000_000 := by rw [hpower, Nat.mul_assoc]

/-- The fraction that is written is cut to whole ticks. -/
theorem fractionText_form (n : Nat) :
    FractionForm (n % 1_000_000_000 / tickNanos * tickNanos) (fractionText n) := by
  have hlt : n % 1_000_000_000 / tickNanos < 10_000_000 :=
    Nat.div_lt_of_lt_mul (Nat.mod_lt n (by decide))
  unfold fractionText
  simp only
  split
  · next h => exact .left_out (by rw [h, Nat.zero_mul])
  · next h => exact pointed_ticks hlt h

end MessageScript.Calendar
