import MessageScript.Proofs.Floating.TenPower
import MessageScript.Size.Scaled

/-!
# Counts divided by units

The bytes in a unit of either ladder are a double, a count below 2^64 is near one, and their
quotient is near the exact quotient, on the same side of whole numbers up to 10^5.

    |(quotient count F).value - count / F| ≤ count / F * (5 / 2 ^ 54)               (quotient_error)
    count ≤ 2 ^ 53 → |(quotient count F).value - count / F| ≤ count / F / 2 ^ 53
                                                                             (quotient_error_small)
    z * F ≤ count → z ≤ (quotient count F).value                                       (le_quotient)
    count ≤ z * F → (quotient count F).value ≤ z                                       (quotient_le)
-/

namespace MessageScript.Size

open Floating

variable {count k z n : ℕ} {l : Ladder} {q v t : ℚ}

/-! ## Units -/

theorem factor_eq (l : Ladder) (k : ℕ) : l.factor k = l.base ^ k := by
  induction k with
  | zero => rfl
  | succ k ih => rw [Ladder.factor, ih, pow_succ, Nat.mul_comm]

/-- The bytes in a unit are a number of at most 36 binary digits times a power of two. -/
theorem factor_odd_part (hk : k ≤ 5) :
    ∃ s j : ℕ, s ≤ 125 ^ 5 ∧ l.factor k = s * 2 ^ j := by
  rw [factor_eq]
  cases l with
  | decimal =>
    refine ⟨125 ^ k, 3 * k, Nat.pow_le_pow_right (by decide) hk, ?_⟩
    rw [pow_mul, ← mul_pow]
    rfl
  | binary =>
    refine ⟨1, 10 * k, by decide, ?_⟩
    rw [one_mul, pow_mul]
    rfl

theorem factor_le (hk : k ≤ 5) : l.factor k ≤ 2 ^ 50 := by
  have hall : ∀ k : Fin 6,
      Ladder.factor .decimal k ≤ 2 ^ 50 ∧ Ladder.factor .binary k ≤ 2 ^ 50 := by
    decide
  cases l with
  | decimal => exact (hall ⟨k, by omega⟩).1
  | binary => exact (hall ⟨k, by omega⟩).2

/-- Units are not so great that a count is next to nothing in them. -/
theorem le_exact_quotient (hk : k ≤ 5) (hpos : 0 < count) :
    1 / 2 ^ 50 ≤ (count : ℚ) / l.factor k := by
  have hone : (1 : ℚ) ≤ count := Nat.one_le_cast.2 hpos
  have hmost : ((l.factor k : ℕ) : ℚ) ≤ 2 ^ 50 := by exact_mod_cast factor_le (l := l) hk
  rw [div_le_div_iff₀ (by norm_num) (Nat.cast_pos.2 (l.factor_pos k))]
  linarith

theorem abs_sub_div_mul (x y : ℚ) (ht : 0 < t) : |x - y / t| * t = |x * t - y| := by
  rw [← abs_of_pos ht, ← abs_mul, abs_of_pos ht, sub_mul, div_mul_cancel₀ _ ht.ne']

/-- So many units are a double. -/
theorem mul_factor_exact (hk : k ≤ 5) (hz : z ≤ 10 ^ 5) :
    (Floating.ofNat .double (z * l.factor k)).IsNearest (z * l.factor k : ℕ) ∧
      (Floating.ofNat .double (z * l.factor k)).value = (z * l.factor k : ℕ) := by
  have hle : ((z * l.factor k : ℕ) : ℚ) ≤ 2 ^ 200 := by
    have hproduct := Nat.mul_le_mul hz (factor_le (l := l) hk)
    exact le_trans (by exact_mod_cast hproduct) (by norm_num : (10 : ℚ) ^ 5 * 2 ^ 50 ≤ 2 ^ 200)
  have hnear := isNearest_natCast (lt_two_zpow hle).2
  refine ⟨hnear, ?_⟩
  obtain ⟨s, j, hs, hfactor⟩ := factor_odd_part (l := l) hk
  refine hnear.value_eq (s := z * s) (e := j) ?_ ?_ (le_trans (by decide) (Int.natCast_nonneg j))
  · rw [hfactor, zpow_natCast]
    push_cast
    ring
  · exact (Nat.mul_le_mul hz hs).trans (by decide)

/-! ## Quotients -/

section
variable (hcount : count < 2 ^ 64)
include hcount

theorem isNearest_count : (Floating.ofNat .double count).IsNearest count := by
  refine isNearest_natCast (lt_two_zpow ?_).2
  exact le_trans (by exact_mod_cast hcount.le) (by norm_num : (2 : ℚ) ^ 64 ≤ 2 ^ 200)

theorem count_error : |(Floating.ofNat .double count).value - count| ≤ count / 2 ^ 53 := by
  refine (isNearest_count hcount).relative_error ?_
  obtain rfl | hpos := count.eq_zero_or_pos
  · exact .inl Nat.cast_zero
  · exact .inr (le_trans (by norm_num) (Nat.one_le_cast.2 hpos))

theorem isNearest_quotient (l : Ladder) (hk : k ≤ 5) : (quotient count (l.factor k)).IsNearest
    ((Floating.ofNat .double count).value / l.factor k) := by
  have hcount' : (count : ℚ) ≤ 2 ^ 64 := by exact_mod_cast hcount.le
  have herror := (abs_le.1 (count_error hcount)).2
  have hfactor : (1 : ℚ) ≤ l.factor k := Nat.one_le_cast.2 (l.factor_pos k)
  obtain ⟨hunit, hvalue⟩ := natCast_spec ((factor_le (l := l) hk).trans (by decide))
  have hnonneg := value_nonneg (isNearest_count hcount).negative
  have hnear := isNearest_div (isNearest_count hcount).toUnsigned hunit.toUnsigned
    (by rw [hvalue]; linarith) (by
      rw [hvalue]
      refine (lt_two_zpow ((div_le_self hnonneg hfactor).trans ?_)).2
      linarith)
  rw [hvalue] at hnear
  exact hnear

/-- The nearest number to the exact quotient is not far. -/
theorem rounded_quotient_error (hk : k ≤ 5) : |(quotient count (l.factor k)).value -
    (Floating.ofNat .double count).value / l.factor k| ≤
      (Floating.ofNat .double count).value / l.factor k / 2 ^ 53 := by
  have hfactor : (0 : ℚ) < l.factor k := Nat.cast_pos.2 (l.factor_pos k)
  refine (isNearest_quotient hcount l hk).relative_error ?_
  obtain rfl | hpos := count.eq_zero_or_pos
  · have hzero := (natCast_spec (n := 0) (by decide)).2
    exact .inl (by rw [hzero, Nat.cast_zero, zero_div])
  · have hone : (1 : ℚ) ≤ count := Nat.one_le_cast.2 hpos
    have herror := (abs_le.1 (count_error hcount)).1
    have hmost : ((l.factor k : ℕ) : ℚ) ≤ 2 ^ 50 := by exact_mod_cast factor_le (l := l) hk
    refine .inr ((le_div_iff₀ hfactor).2 ?_)
    linarith

/-- **The quotient is near the exact one.** -/
theorem quotient_error (hk : k ≤ 5) : |(quotient count (l.factor k)).value -
    (count : ℚ) / l.factor k| ≤ (count : ℚ) / l.factor k * (5 / 2 ^ 54) := by
  have hfactor : (0 : ℚ) ≤ 1 / l.factor k := by positivity
  have hrounded := rounded_quotient_error (l := l) hcount hk
  rw [← one_div_mul_eq_div] at hrounded
  have herror := error_of_mul (Nat.cast_nonneg count) (count_error hcount) hfactor hrounded
  rwa [one_div_mul_eq_div] at herror

/-- Counts that are doubles are rounded once. -/
theorem quotient_error_small (hsmall : count ≤ 2 ^ 53) (hk : k ≤ 5) :
    |(quotient count (l.factor k)).value - (count : ℚ) / l.factor k| ≤
      (count : ℚ) / l.factor k / 2 ^ 53 := by
  have hrounded := rounded_quotient_error (l := l) hcount hk
  rwa [(natCast_spec hsmall).2] at hrounded

/-- **A count that reaches a whole number of units has a quotient that reaches the number.** -/
theorem le_quotient (hk : k ≤ 5) (hz : z ≤ 10 ^ 5) (h : z * l.factor k ≤ count) :
    (z : ℚ) ≤ (quotient count (l.factor k)).value := by
  obtain ⟨hnear, hvalue⟩ := mul_factor_exact (l := l) hk hz
  obtain ⟨hznear, hzvalue⟩ := natCast_spec (n := z) (by omega)
  have hfactor : (0 : ℚ) < l.factor k := Nat.cast_pos.2 (l.factor_pos k)
  have hle := hnear.le (isNearest_count hcount) (Nat.cast_le.2 h)
  rw [hvalue, Nat.cast_mul, ← le_div_iff₀ hfactor] at hle
  rw [← hzvalue]
  exact hznear.le (isNearest_quotient hcount l hk) hle

/-- A count that does not pass a whole number of units has a quotient that does not pass it. -/
theorem quotient_le (hk : k ≤ 5) (hz : z ≤ 10 ^ 5) (h : count ≤ z * l.factor k) :
    (quotient count (l.factor k)).value ≤ z := by
  obtain ⟨hnear, hvalue⟩ := mul_factor_exact (l := l) hk hz
  obtain ⟨hznear, hzvalue⟩ := natCast_spec (n := z) (by omega)
  have hfactor : (0 : ℚ) < l.factor k := Nat.cast_pos.2 (l.factor_pos k)
  have hle := (isNearest_count hcount).le hnear (Nat.cast_le.2 h)
  rw [hvalue, Nat.cast_mul, ← div_le_iff₀ hfactor] at hle
  rw [← hzvalue]
  exact (isNearest_quotient hcount l hk).le hznear hle

end

end MessageScript.Size
