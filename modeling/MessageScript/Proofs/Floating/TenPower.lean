import MessageScript.Proofs.Floating.Arithmetic

/-!
# Powers of ten as doubles

Up to 10^22 a power of ten is a double, and squaring makes it so.  The reciprocals are not doubles,
and a part in 2^53 off at most.

    x.IsNearest v → v = 0 ∨ 1 / 2 ^ 200 ≤ v → |x.value - v| ≤ v / 2 ^ 53
                                                                        (IsNearest.relative_error)
    n ≤ 22 → (tenPower .double n).value = 10 ^ n                                    (value_tenPower)
    |(tenPower .double e).value - 10 ^ e| ≤ 10 ^ e / 2 ^ 53                         (tenPower_error)
-/

namespace MessageScript.Floating

variable {x y : Floating .double} {n : ℕ} {e : ℤ} {v : ℚ}

/-! ## Relative errors -/

theorem two_mul_leadingBit_double : 2 * (FloatFormat.leadingBit .double : ℚ) = 2 ^ 53 := by
  have h : 2 * FloatFormat.leadingBit .double = 2 ^ 53 := rfl
  exact_mod_cast h

/-- A double is off by at most a part in 2^53. -/
theorem IsNearest.relative_error (hx : x.IsNearest v) (hv : v = 0 ∨ 1 / 2 ^ 200 ≤ v) :
    |x.value - v| ≤ v / 2 ^ 53 := by
  obtain rfl | hv := hv
  · have hzero : x.value = 0 :=
      hx.value_eq (s := 0) (e := 0) (by norm_num) (Nat.zero_le _) (by decide)
    rw [hzero]
    norm_num
  · have hleast : (FloatFormat.leadingBit .double : ℚ) * placeUnit .double 0 ≤ v := by
      refine le_trans ?_ hv
      rw [placeUnit, leadingBit_eq_zpow, ← zpow_add₀ two_ne_zero, one_div, ← zpow_natCast,
        ← zpow_neg]
      exact zpow_le_zpow_right₀ one_le_two (by decide)
    exact (hx.error_le hleast).trans_eq (by rw [two_mul_leadingBit_double])

/-- A quotient by a number near `t`, rounded itself, is near the quotient by `t`. -/
theorem error_of_div {g q t : ℚ} (ht : 0 < t) (hg : |g - t| ≤ t / 2 ^ 53) (hv : 0 ≤ v)
    (hq : |q - v / g| ≤ v / g / 2 ^ 53) : |q - v / t| ≤ v / t * (5 / 2 ^ 54) := by
  have hglow : t * (1 - 1 / 2 ^ 53) ≤ g := by
    have := (abs_le.1 hg).1
    linarith
  have hgpos : 0 < g := lt_of_lt_of_le (mul_pos ht (by norm_num)) hglow
  have hw : 0 ≤ v / t := div_nonneg hv ht.le
  -- in terms of the quotient by `t`
  have hquotient : v / g ≤ v / t * (1 + 9 / 8 / 2 ^ 53) := by
    rw [div_le_iff₀ hgpos]
    calc v = v / t * t := (div_mul_cancel₀ v ht.ne').symm
      _ ≤ v / t * ((1 + 9 / 8 / 2 ^ 53) * (t * (1 - 1 / 2 ^ 53))) := by
          refine mul_le_mul_of_nonneg_left ?_ hw
          nlinarith
      _ ≤ v / t * (1 + 9 / 8 / 2 ^ 53) * g := by
          rw [mul_assoc]
          exact mul_le_mul_of_nonneg_left (mul_le_mul_of_nonneg_left hglow (by norm_num)) hw
  have hdiff : |v / g - v / t| ≤ v / t * (9 / 8 / 2 ^ 53) := by
    have hsplit : v / g - v / t = v / g * ((t - g) / t) := by field_simp
    rw [hsplit, abs_mul, abs_of_nonneg (div_nonneg hv hgpos.le), abs_div, abs_of_pos ht,
    abs_sub_comm]
    have hpart : |g - t| / t ≤ 1 / 2 ^ 53 := by
      rw [div_le_iff₀ ht]
      linarith
    calc v / g * (|g - t| / t) ≤ v / t * (1 + 9 / 8 / 2 ^ 53) * (1 / 2 ^ 53) :=
          mul_le_mul hquotient hpart (by positivity) (by positivity)
      _ ≤ v / t * (9 / 8 / 2 ^ 53) := by
          rw [mul_assoc]
          exact mul_le_mul_of_nonneg_left (by norm_num) hw
  calc |q - v / t| ≤ |q - v / g| + |v / g - v / t| := abs_sub_le _ _ _
    _ ≤ v / t * (1 + 9 / 8 / 2 ^ 53) / 2 ^ 53 + v / t * (9 / 8 / 2 ^ 53) :=
        add_le_add (hq.trans (div_le_div_of_nonneg_right hquotient (by norm_num))) hdiff
    _ ≤ v / t * (5 / 2 ^ 54) := by
        rw [mul_div_assoc, ← mul_add]
        exact mul_le_mul_of_nonneg_left (by norm_num) hw

/-- The product with a number near `t`, rounded itself, is near the product with `t`. -/
theorem error_of_mul {g q t : ℚ} (ht : 0 ≤ t) (hg : |g - t| ≤ t / 2 ^ 53) (hv : 0 ≤ v)
    (hq : |q - v * g| ≤ v * g / 2 ^ 53) : |q - v * t| ≤ v * t * (5 / 2 ^ 54) := by
  have hdiff : |v * g - v * t| ≤ v * t / 2 ^ 53 := by
    rw [← mul_sub, abs_mul, abs_of_nonneg hv, mul_div_assoc]
    exact mul_le_mul_of_nonneg_left hg hv
  have hproduct : v * g ≤ v * t + v * t / 2 ^ 53 := by
    have := (abs_le.1 hdiff).2
    linarith
  have hw : 0 ≤ v * t := mul_nonneg hv ht
  have htriangle := abs_sub_le q (v * g) (v * t)
  linarith

/-! ## Powers of ten -/

theorem IsNearest.value_eq_tenPow (hx : x.IsNearest (10 ^ n)) (hn : n ≤ 22) : x.value = 10 ^ n := by
  have hfive : ∀ n ≤ 22, 5 ^ n ≤ 2 * FloatFormat.leadingBit .double := by decide
  refine hx.value_eq (s := 5 ^ n) (e := n) ?_ (hfive n hn) ?_
  · rw [zpow_natCast, Nat.cast_pow, ← mul_pow]
    norm_num
  · exact le_trans (by decide) (Int.natCast_nonneg n)

theorem tenPow_lt (hn : n ≤ 22) : (10 : ℚ) ^ n < 2 ^ (1023 : ℤ) := by
  calc (10 : ℚ) ^ n ≤ 10 ^ 22 := pow_le_pow_right₀ (by norm_num) hn
    _ < 2 ^ (100 : ℤ) := by norm_num
    _ ≤ 2 ^ (1023 : ℤ) := zpow_le_zpow_right₀ one_le_two (by decide)

/-- Squaring makes the powers that are doubles exactly. -/
theorem tenPower_eq (hn : n ≤ 22) : tenPower .double n = ofNat .double (10 ^ n) := by
  have hall : ∀ n : Fin 23, tenPower .double (n : ℕ) = ofNat .double (10 ^ (n : ℕ)) := by
    decide +kernel
  exact hall ⟨n, Nat.lt_succ_of_le hn⟩

theorem isNearest_tenPow (hn : n ≤ 22) : (ofNat .double (10 ^ n)).IsNearest (10 ^ n) := by
  have hcast : ((10 ^ n : ℕ) : ℚ) = 10 ^ n := by push_cast; rfl
  rw [← hcast]
  exact isNearest_natCast (hcast.trans_lt (tenPow_lt hn))

theorem unsigned_tenPower (hn : n ≤ 22) : (tenPower .double n).Unsigned := by
  rw [tenPower_eq hn]
  exact (isNearest_tenPow hn).toUnsigned

theorem value_tenPower (hn : n ≤ 22) : (tenPower .double n).value = 10 ^ n := by
  rw [tenPower_eq hn]
  exact (isNearest_tenPow hn).value_eq_tenPow hn

/-- A negative power is the nearest to the reciprocal. -/
theorem isNearest_tenPower_neg (hn : n ≤ 22) (hpos : 0 < n) :
    (tenPower .double (-n)).IsNearest (1 / 10 ^ n) := by
  have hone : (ofNat .double 1).IsNearest 1 := by
    have h := isNearest_natCast (n := 1) (by exact_mod_cast tenPow_lt (n := 0) (by decide))
    rwa [Nat.cast_one] at h
  have honevalue : (ofNat .double 1).value = 1 := by
    have h := (isNearest_tenPow (n := 0) (by decide)).value_eq_tenPow (by decide)
    rwa [pow_zero] at h
  have hpower : tenPower .double (-n) = (ofNat .double 1).div (tenPower .double n) := by
    unfold tenPower
    simp only [Int.natAbs_neg, Int.natAbs_natCast]
    rw [if_pos (by omega), if_neg (by omega)]
  have hvalue := value_tenPower hn
  have hten : (0 : ℚ) < 10 ^ n := by positivity
  rw [hpower, ← hvalue, ← honevalue]
  refine isNearest_div hone.toUnsigned (unsigned_tenPower hn) (by rw [hvalue]; exact hten) ?_
  rw [honevalue, hvalue]
  refine lt_of_le_of_lt ?_ (tenPow_lt (n := 0) (by decide))
  rw [pow_zero, div_le_one hten]
  exact one_le_pow₀ (by norm_num)

/-- **The powers of ten from 10^-22 to 10^22 are off by at most a part in 2^53.** -/
theorem tenPower_error (hlow : -22 ≤ e) (hhigh : e ≤ 22) : (tenPower .double e).Unsigned ∧
    |(tenPower .double e).value - 10 ^ e| ≤ 10 ^ e / 2 ^ 53 := by
  obtain hnonneg | hneg := le_or_gt 0 e
  · obtain ⟨n, rfl⟩ := Int.eq_ofNat_of_zero_le hnonneg
    have hn : n ≤ 22 := by omega
    refine ⟨unsigned_tenPower hn, ?_⟩
    rw [value_tenPower hn, zpow_natCast, sub_self, abs_zero]
    positivity
  · obtain ⟨n, hn⟩ := Int.eq_ofNat_of_zero_le (show 0 ≤ -e by omega)
    obtain rfl : e = -n := by omega
    have hnear := isNearest_tenPower_neg (n := n) (by omega) (by omega)
    refine ⟨hnear.toUnsigned, ?_⟩
    rw [zpow_neg, zpow_natCast, ← one_div]
    refine hnear.relative_error (.inr ?_)
    refine one_div_le_one_div_of_le (by positivity) ?_
    calc (10 : ℚ) ^ n ≤ 10 ^ 22 := pow_le_pow_right₀ (by norm_num) (by omega)
      _ ≤ 2 ^ 200 := by norm_num

/-! ## Sizes that are not too great -/

theorem lt_two_zpow (h : v ≤ 2 ^ 200) : v < 2 ^ (1022 : ℤ) ∧ v < 2 ^ (1023 : ℤ) := by
  have hpower : (2 : ℚ) ^ 200 < 2 ^ (1022 : ℤ) := by
    rw [← zpow_natCast]
    exact zpow_lt_zpow_right₀ one_lt_two (by decide)
  exact ⟨h.trans_lt hpower,
    h.trans_lt (hpower.trans (zpow_lt_zpow_right₀ one_lt_two (by decide)))⟩

theorem tenPow_bounds (hlow : -22 ≤ e) (hhigh : e ≤ 22) :
    (1 : ℚ) / 2 ^ 74 ≤ 10 ^ e ∧ (10 : ℚ) ^ e ≤ 2 ^ 74 := by
  constructor
  · calc (1 : ℚ) / 2 ^ 74 ≤ 10 ^ (-22 : ℤ) := by norm_num
      _ ≤ 10 ^ e := zpow_le_zpow_right₀ (by norm_num) hlow
  · calc (10 : ℚ) ^ e ≤ 10 ^ (22 : ℤ) := zpow_le_zpow_right₀ (by norm_num) hhigh
      _ ≤ 2 ^ 74 := by norm_num

theorem value_tenPower_bounds (hlow : -22 ≤ e) (hhigh : e ≤ 22) :
    1 / 2 ^ 75 ≤ (tenPower .double e).value ∧ (tenPower .double e).value ≤ 2 ^ 75 := by
  obtain ⟨hleast, hmost⟩ := tenPow_bounds hlow hhigh
  have herror := abs_le.1 (tenPower_error hlow hhigh).2
  constructor <;> linarith

theorem natCast_spec (hn : n ≤ 2 ^ 53) :
    (ofNat .double n).IsNearest n ∧ (ofNat .double n).value = n := by
  have hle : (n : ℚ) ≤ 2 ^ 53 := by exact_mod_cast hn
  have hnear := isNearest_natCast (lt_two_zpow (hle.trans (by norm_num))).2
  exact ⟨hnear, hnear.value_eq_natCast hn⟩

end MessageScript.Floating
