import MessageScript.Proofs.Floating.Nearest

/-!
# Values of sums, products and quotients

Each operation on doubles gives the double nearest to the exact result, as long as that is below
2^1023.  Rounding to a whole number is exact.

    x.value / y.value < 2 ^ 1023 → (x.div y).IsNearest (x.value / y.value)           (isNearest_div)
    x.value * y.value < 2 ^ 1023 → (x.mul y).IsNearest (x.value * y.value)           (isNearest_mul)
    x.IsNearest v → v ≤ s * 2 ^ e → … → x.value ≤ s * 2 ^ e                     (IsNearest.le_of_le)
    x.round.value = ⌊x.value + 1 / 2⌋                                                  (value_round)
-/

namespace MessageScript.Floating

variable {f : FloatFormat} {x y : Floating .double} {n s : ℕ} {e : ℤ} {v : ℚ}

theorem isNearest_natCast (h : (n : ℚ) < 2 ^ (1023 : ℤ)) : (ofNat .double n).IsNearest n := by
  have hone : ((n : ℕ) : ℚ) / (1 : ℕ) = n := by rw [Nat.cast_one, div_one]
  have hnear := isNearest_ofRatio (f := .double) Nat.one_pos
    (isFinite_ofRatio Nat.one_pos (hone.trans_lt h) false)
  rw [hone] at hnear
  exact hnear

theorem Unsigned.exists_parts (hx : x.Unsigned) : ∃ s e, x.parts = .finite s e ∧
    FloatFormat.minExponent .double ≤ e ∧ s < 2 * FloatFormat.leadingBit .double ∧
    x.value = s * 2 ^ e := by
  obtain ⟨s, e, hparts, he, hs, -⟩ := Floating.exists_parts hx.finite
  exact ⟨s, e, hparts, he, hs, value_of_parts_nonneg hparts hx.negative⟩

theorem ofScaled_eq (negative : Bool) (s : ℕ) (e : ℤ) :
    ofScaled f negative s e = ofRatio f negative (ratio s e).1 (ratio s e).2 := by
  unfold ofScaled ratio
  split <;> rfl

theorem isNaN_mul {x y : Floating f} (hx : x.isNaN = false) (hy : y.parts = .finite s e)
    (hs : s ≠ 0) : (x.mul y).isNaN = false := by
  unfold mul
  rw [hy]
  cases hparts : x.parts with
  | notANumber => exact absurd hparts (parts_ne_notANumber hx)
  | infinite => exact (congrArg isNaN (if_neg hs)).trans (isNaN_infinity f _)
  | finite s' e' => exact (congrArg isNaN (ofScaled_eq ..)).trans (isNaN_ofRatio ..)

/-- **A product is the nearest double.** -/
theorem isNearest_mul (hx : x.Unsigned) (hy : y.Unsigned)
    (h : x.value * y.value < 2 ^ (1023 : ℤ)) : (x.mul y).IsNearest (x.value * y.value) := by
  obtain ⟨s, e, hparts, -, -, hxvalue⟩ := hx.exists_parts
  obtain ⟨s', e', hparts', -, -, hyvalue⟩ := hy.exists_parts
  have hproduct : ((ratio (s * s') (e + e')).1 : ℚ) / (ratio (s * s') (e + e')).2 =
      x.value * y.value := by
    rw [ratio_eq, hxvalue, hyvalue, zpow_add₀ two_ne_zero, Nat.cast_mul]
    ring
  have hmul : x.mul y = ofRatio .double false (ratio (s * s') (e + e')).1
      (ratio (s * s') (e + e')).2 := by
    unfold mul
    rw [hparts, hparts', hx.negative, hy.negative]
    exact ofScaled_eq _ _ _
  rw [hmul, ← hproduct]
  exact isNearest_ofRatio (ratio_pos _ _)
    (isFinite_ofRatio (ratio_pos _ _) (hproduct.trans_lt h) false)

/-- **A quotient is the nearest double.** -/
theorem isNearest_div (hx : x.Unsigned) (hy : y.Unsigned) (hpos : 0 < y.value)
    (h : x.value / y.value < 2 ^ (1023 : ℤ)) : (x.div y).IsNearest (x.value / y.value) := by
  obtain ⟨s, e, hparts, -, -, hxvalue⟩ := hx.exists_parts
  obtain ⟨s', e', hparts', -, -, hyvalue⟩ := hy.exists_parts
  have hs' : 0 < s' := by
    refine Nat.pos_of_ne_zero ?_
    rintro rfl
    rw [hyvalue, Nat.cast_zero, zero_mul] at hpos
    exact lt_irrefl _ hpos
  obtain ⟨a, b, hb, hdiv, hquotient⟩ : ∃ a b : ℕ, 0 < b ∧ x.div y = ofRatio .double false a b ∧
      (a : ℚ) / b = x.value / y.value := by
    unfold div
    rw [hparts, hparts', hx.negative, hy.negative, hxvalue, hyvalue]
    simp only [if_neg hs'.ne']
    split
    · next hle =>
      refine ⟨_, _, hs', rfl, ?_⟩
      rw [Nat.shiftLeft_eq, Nat.cast_mul, ← two_zpow_of_nonneg (by omega), zpow_sub₀ two_ne_zero]
      field_simp
    · next hlt =>
      refine ⟨_, _, ?_, rfl, ?_⟩
      · rw [Nat.shiftLeft_eq]
        exact Nat.mul_pos hs' (Nat.two_pow_pos _)
      · rw [Nat.shiftLeft_eq, Nat.cast_mul, ← two_zpow_of_nonneg (by omega), zpow_sub₀ two_ne_zero]
        field_simp
  rw [hdiv, ← hquotient]
  exact isNearest_ofRatio hb (isFinite_ofRatio hb (hquotient.trans_lt h) false)

/-- Whole numbers up to twice the leading bit are exact. -/
theorem IsNearest.value_eq_natCast {x : Floating f} (hx : x.IsNearest n)
    (hn : n ≤ 2 * f.leadingBit) : x.value = n := by
  have hleast : f.minExponent ≤ 0 := by cases f <;> decide
  exact hx.value_eq (e := 0) (by rw [zpow_zero, mul_one]) hn hleast

/-- What is at most as great as a double is so when it is rounded. -/
theorem IsNearest.le_of_le (hx : x.IsNearest v) (hle : v ≤ s * 2 ^ e)
    (hs : s ≤ 2 * FloatFormat.leadingBit .double) (he : FloatFormat.minExponent .double ≤ e)
    (hhigh : (s : ℚ) * 2 ^ e < 2 ^ (1023 : ℤ)) : x.value ≤ s * 2 ^ e := by
  have hratio := ratio_eq s e
  have hnear := isNearest_ofRatio (f := .double) (ratio_pos s e)
    (isFinite_ofRatio (ratio_pos s e) (hratio.trans_lt hhigh) false)
  rw [hratio] at hnear
  exact (hx.le hnear hle).trans_eq (hnear.value_eq rfl hs he)

/-- **Rounding to a whole number is exact.** -/
theorem value_round (hx : x.Unsigned) (h : x.value < 2 ^ (1022 : ℤ)) :
    x.round.Unsigned ∧ x.round.value = ⌊x.value + 1 / 2⌋ := by
  obtain ⟨s, e, hparts, he, hs, hvalue⟩ := hx.exists_parts
  have hround : x.round = ofRatio .double false (roundHalfUp (ratio s e).1 (ratio s e).2) 1 := by
    unfold round toWhole
    rw [hparts, hx.negative]
  have hwhole : ⌊x.value + 1 / 2⌋ = (roundHalfUp (ratio s e).1 (ratio s e).2 : ℕ) := by
    rw [← round_div_eq_roundHalfUp _ (ratio_pos s e), ratio_eq, ← hvalue, round_eq]
  have hle := Int.floor_le (x.value + 1 / 2)
  rw [hwhole] at hle
  rw [hround, hwhole]
  generalize roundHalfUp (ratio s e).1 (ratio s e).2 = w at *
  have hle' : (w : ℚ) ≤ x.value + 1 / 2 := by exact_mod_cast hle
  have hlt : (w : ℚ) < 2 ^ (1023 : ℤ) := by
    have hhalf : (1 : ℚ) / 2 < 2 ^ (1022 : ℤ) :=
      one_half_lt_one.trans_le (one_le_zpow₀ one_le_two (by decide))
    rw [show (1023 : ℤ) = 1022 + 1 from rfl, zpow_add_one₀ two_ne_zero, mul_two]
    exact hle'.trans_lt (add_lt_add h hhalf)
  have hnear : (ofNat .double w).IsNearest w := isNearest_natCast hlt
  refine ⟨hnear.toUnsigned, ?_⟩
  rw [Int.cast_natCast]
  obtain hnonneg | hneg := le_or_gt 0 e
  · -- the number is whole already
    have hself : (w : ℚ) = s * 2 ^ e := by
      have hint : x.value = ((s * 2 ^ e.toNat : ℕ) : ℤ) := by
        rw [hvalue, two_zpow_of_nonneg hnonneg]
        push_cast
        rfl
      have hfloor : ⌊x.value + 1 / 2⌋ = ((s * 2 ^ e.toNat : ℕ) : ℤ) := by
        rw [hint, ← round_eq, round_intCast]
      rw [hwhole] at hfloor
      rw [Nat.cast_inj.1 hfloor, ← hvalue, hint]
      rfl
    exact hnear.value_eq hself hs.le he
  · refine hnear.value_eq_natCast ?_
    have hs' : (s : ℚ) < 2 * FloatFormat.leadingBit .double := by exact_mod_cast hs
    have hpower : (2 : ℚ) ^ e ≤ 1 := zpow_le_one_of_nonpos₀ one_le_two hneg.le
    have hlt : x.value ≤ s := by
      rw [hvalue]
      exact mul_le_of_le_one_right (Nat.cast_nonneg s) hpower
    have hlt' : (w : ℚ) < ((2 * FloatFormat.leadingBit .double + 1 : ℕ) : ℚ) := by
      push_cast
      linarith
    exact Nat.lt_succ_iff.1 (Nat.cast_lt.1 hlt')

end MessageScript.Floating
