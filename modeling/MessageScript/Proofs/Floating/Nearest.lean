import MessageScript.Proofs.Floating.Value

/-!
# The number of a format nearest to a quotient

Rounding gives, in units of the last place around a quotient, the nearest whole number, ties to even
(`IsNearest`).  Greater quotients do not have lesser such numbers, a quotient that the format has is
its own, and others are missed by at most one part in twice the leading bit.

    2 ^ floorLog2 a b ≤ a / b ∧ a / b < 2 ^ (floorLog2 a b + 1)                     (floorLog2_spec)
    (ofRatio f false a b).isFinite → (ofRatio f false a b).IsNearest (a / b)     (isNearest_ofRatio)
    x.IsNearest v → y.IsNearest w → v ≤ w → x.value ≤ y.value                         (IsNearest.le)
    x.IsNearest v → v = s * 2 ^ e → … → x.value = v                         (IsNearest.value_eq)
    x.IsNearest v → … → |x.value - v| ≤ v / (2 * leadingBit)              (IsNearest.error_le)
-/

namespace MessageScript

open Floating

variable {a b : ℕ} {e : ℤ} {v w : ℚ}

/-! ## Binary logarithms -/

theorem divTwoPow_eq (a b : ℕ) (e : ℤ) :
    ((divTwoPow a b e).1 : ℚ) / (divTwoPow a b e).2 = (a : ℚ) / b / 2 ^ e := by
  unfold divTwoPow
  split
  · next h =>
    rw [two_zpow_of_nonneg h, Nat.shiftLeft_eq]
    push_cast
    rw [div_div]
  · next h =>
    rw [two_zpow_of_nonpos (by omega), Nat.shiftLeft_eq, div_div_eq_mul_div, div_one]
    push_cast
    rw [div_mul_eq_mul_div]

theorem divTwoPow_pos (hb : 0 < b) (a : ℕ) (e : ℤ) : 0 < (divTwoPow a b e).2 := by
  unfold divTwoPow
  split
  · rw [Nat.shiftLeft_eq]
    exact Nat.mul_pos hb (Nat.two_pow_pos _)
  · exact hb

theorem log2_spec (ha : 0 < a) :
    (2 : ℚ) ^ (a.log2 : ℤ) ≤ a ∧ (a : ℚ) < 2 ^ ((a.log2 : ℤ) + 1) := by
  have hlow : 2 ^ a.log2 ≤ a := Nat.log2_self_le ha.ne'
  have hhigh : a < 2 ^ (a.log2 + 1) := Nat.lt_log2_self
  rw [← Nat.cast_succ, zpow_natCast, zpow_natCast]
  exact ⟨by exact_mod_cast hlow, by exact_mod_cast hhigh⟩

/-- The exponent is that of the greatest power of two that the quotient reaches. -/
theorem floorLog2_spec (ha : 0 < a) (hb : 0 < b) :
    (2 : ℚ) ^ floorLog2 a b ≤ a / b ∧ (a : ℚ) / b < 2 ^ (floorLog2 a b + 1) := by
  have hb' : (0 : ℚ) < b := Nat.cast_pos.2 hb
  obtain ⟨halow, hahigh⟩ := log2_spec ha
  obtain ⟨hblow, hbhigh⟩ := log2_spec hb
  have hdivide := divTwoPow_eq a b ((a.log2 : ℤ) - b.log2)
  have hpos := divTwoPow_pos hb a ((a.log2 : ℤ) - b.log2)
  unfold floorLog2
  simp only
  generalize (a.log2 : ℤ) = i at *
  generalize (b.log2 : ℤ) = j at *
  generalize divTwoPow a b (i - j) = r at *
  have hpos' : (0 : ℚ) < r.2 := Nat.cast_pos.2 hpos
  have hreach : r.2 ≤ r.1 ↔ (2 : ℚ) ^ (i - j) ≤ a / b := by
    rw [← Nat.cast_le (α := ℚ), ← one_le_div hpos', hdivide, one_le_div (zpow_pos two_pos _)]
  have hlow : (2 : ℚ) ^ (i - j - 1) ≤ a / b := by
    rw [sub_sub, zpow_sub₀ two_ne_zero, div_le_div_iff₀ (zpow_pos two_pos _) hb']
    exact mul_le_mul halow hbhigh.le hb'.le (Nat.cast_nonneg a)
  have hhigh : (a : ℚ) / b < 2 ^ (i - j + 1) := by
    rw [sub_add_eq_add_sub, zpow_sub₀ two_ne_zero, div_lt_div_iff₀ hb' (zpow_pos two_pos _)]
    exact mul_lt_mul hahigh hblow (zpow_pos two_pos _) (zpow_pos two_pos _).le
  split
  · next h => exact ⟨hreach.1 h, hhigh⟩
  · next h =>
    rw [sub_add_cancel]
    exact ⟨hlow, not_le.1 (mt hreach.2 h)⟩

namespace Floating

variable {f : FloatFormat} {x y : Floating f}

/-! ## Nearest numbers -/

/-- The unit of the `k`-th last place, counted from the least exponent. -/
def placeUnit (f : FloatFormat) (k : ℕ) : ℚ := 2 ^ (f.minExponent + k)

theorem placeUnit_pos (f : FloatFormat) (k : ℕ) : 0 < placeUnit f k := zpow_pos two_pos _

theorem placeUnit_succ (f : FloatFormat) (k : ℕ) : placeUnit f (k + 1) = 2 * placeUnit f k := by
  rw [placeUnit, placeUnit, Nat.cast_succ, ← add_assoc, zpow_add_one₀ two_ne_zero, mul_comm]

theorem two_mul_placeUnit_le {j k : ℕ} (h : j < k) : 2 * placeUnit f j ≤ placeUnit f k := by
  rw [← placeUnit_succ]
  exact zpow_le_zpow_right₀ one_le_two (by omega)

/-- Whether the `k`-th place is the last one of the numbers around `v`: they have a leading bit, or
it is the least place. -/
structure LastPlaceOf (f : FloatFormat) (v : ℚ) (k : ℕ) : Prop where
  high : v < 2 * f.leadingBit * placeUnit f k
  low : k = 0 ∨ f.leadingBit * placeUnit f k ≤ v

/-- Whether a number is the nearest to `v`, of two the even one: it is the nearest whole number of
units of the last place around `v`. -/
structure IsNearest (x : Floating f) (v : ℚ) : Prop extends x.Unsigned where
  units : ∃ k m : ℕ, LastPlaceOf f v k ∧ NearestEven (v / placeUnit f k) m ∧
    x.value = m * placeUnit f k

theorem LastPlaceOf.le_of_le {j k : ℕ} (hj : LastPlaceOf f v j) (hk : LastPlaceOf f w k)
    (h : v ≤ w) : j ≤ k := by
  by_contra hlt
  have hstep : 2 * placeUnit f k ≤ placeUnit f j := two_mul_placeUnit_le (Nat.not_le.1 hlt)
  have hlead : (0 : ℚ) < f.leadingBit := Nat.cast_pos.2 f.leadingBit_pos
  have hlow := hj.low.resolve_left (by omega)
  have hhigh := hk.high
  have := mul_le_mul_of_nonneg_left hstep hlead.le
  linarith

/-- The greatest whole number of units is twice the leading bit, and the least is the leading bit
unless the place is the least. -/
theorem LastPlaceOf.units_bounds {k m : ℕ} (hk : LastPlaceOf f v k)
    (hm : NearestEven (v / placeUnit f k) m) :
    m ≤ 2 * f.leadingBit ∧ (k = 0 ∨ f.leadingBit ≤ m) := by
  have hpos := placeUnit_pos f k
  constructor
  · have hle : v / placeUnit f k ≤ ((2 * f.leadingBit : ℕ) : ℤ) := by
      push_cast
      exact (div_le_iff₀ hpos).2 hk.high.le
    exact_mod_cast hm.le (.intCast _) hle
  · refine hk.low.imp_right fun hlow => ?_
    have hle : ((f.leadingBit : ℕ) : ℤ) ≤ v / placeUnit f k := by
      push_cast
      exact (le_div_iff₀ hpos).2 hlow
    exact_mod_cast (NearestEven.intCast (f.leadingBit : ℕ)).le hm hle

/-- **A greater quotient does not have a lesser nearest number.** -/
theorem IsNearest.le (hx : x.IsNearest v) (hy : y.IsNearest w) (h : v ≤ w) :
    x.value ≤ y.value := by
  obtain ⟨j, m, hj, hm, hxvalue⟩ := hx.units
  obtain ⟨k, n, hk, hn, hyvalue⟩ := hy.units
  rw [hxvalue, hyvalue]
  obtain hlt | rfl := (hj.le_of_le hk h).lt_or_eq
  · -- a greater place starts where a lesser one ends
    have hstep := two_mul_placeUnit_le (f := f) hlt
    have hmhigh : (m : ℚ) ≤ 2 * f.leadingBit := by exact_mod_cast (hj.units_bounds hm).1
    have hnlow : (f.leadingBit : ℚ) ≤ n := by
      exact_mod_cast (hk.units_bounds hn).2.resolve_left (by omega)
    calc (m : ℚ) * placeUnit f j ≤ 2 * f.leadingBit * placeUnit f j :=
          mul_le_mul_of_nonneg_right hmhigh (placeUnit_pos f j).le
      _ = f.leadingBit * (2 * placeUnit f j) := by ring
      _ ≤ n * placeUnit f k :=
          mul_le_mul hnlow hstep (mul_nonneg two_pos.le (placeUnit_pos f j).le) (Nat.cast_nonneg n)
  · have hmn : (m : ℤ) ≤ n := hm.le hn (div_le_div_of_nonneg_right h (placeUnit_pos f j).le)
    exact mul_le_mul_of_nonneg_right (by exact_mod_cast hmn) (placeUnit_pos f j).le

/-- **A number of the format is nearest to itself.** -/
theorem IsNearest.value_eq {s : ℕ} (hx : x.IsNearest v) (hv : v = s * 2 ^ e)
    (hs : s ≤ 2 * f.leadingBit) (he : f.minExponent ≤ e) : x.value = v := by
  obtain ⟨k, m, hk, hm, hvalue⟩ := hx.units
  have hpos := placeUnit_pos f k
  -- the number is a whole count of units of the last place
  have hwhole : ∃ n : ℤ, v / placeUnit f k = n := by
    obtain hle | hlt := le_or_gt (f.minExponent + k) e
    · refine ⟨s * 2 ^ (e - (f.minExponent + k)).toNat, ?_⟩
      rw [hv, placeUnit, mul_div_assoc, ← zpow_sub₀ two_ne_zero, two_zpow_of_nonneg (by omega)]
      push_cast
      rfl
    · -- then there are as many units as the leading bit
      have hlow := hk.low.resolve_left (by omega)
      have hlead : (0 : ℚ) < f.leadingBit := Nat.cast_pos.2 f.leadingBit_pos
      have hs' : (s : ℚ) ≤ 2 * f.leadingBit := by exact_mod_cast hs
      have hstep : (2 : ℚ) ^ e * 2 ≤ placeUnit f k := by
        rw [← zpow_add_one₀ two_ne_zero]
        exact zpow_le_zpow_right₀ one_le_two (by omega)
      have hhigh : v ≤ f.leadingBit * placeUnit f k := by
        calc v = s * 2 ^ e := hv
          _ ≤ 2 * f.leadingBit * 2 ^ e := mul_le_mul_of_nonneg_right hs' (zpow_pos two_pos e).le
          _ = f.leadingBit * (2 ^ e * 2) := by ring
          _ ≤ f.leadingBit * placeUnit f k := mul_le_mul_of_nonneg_left hstep hlead.le
      refine ⟨(f.leadingBit : ℕ), ?_⟩
      rw [hhigh.antisymm hlow, mul_div_cancel_right₀ _ hpos.ne']
      rfl
  obtain ⟨n, hn⟩ := hwhole
  rw [hn] at hm
  have hmn : (m : ℚ) = n := by exact_mod_cast hm.of_intCast
  rw [hvalue, hmn, ← hn, div_mul_cancel₀ _ hpos.ne']

/-- The nearest number is at most half a unit of the last place off. -/
theorem IsNearest.error_le (hx : x.IsNearest v) (hv : f.leadingBit * placeUnit f 0 ≤ v) :
    |x.value - v| ≤ v / (2 * f.leadingBit) := by
  obtain ⟨k, m, hk, hm, hvalue⟩ := hx.units
  have hpos := placeUnit_pos f k
  have hlead : (0 : ℚ) < f.leadingBit := Nat.cast_pos.2 f.leadingBit_pos
  have hlow : f.leadingBit * placeUnit f k ≤ v := by
    obtain rfl | hlow := hk.low
    · exact hv
    · exact hlow
  have hscale : x.value - v = -(v / placeUnit f k - (m : ℤ)) * placeUnit f k := by
    rw [hvalue, neg_sub, sub_mul, div_mul_cancel₀ _ hpos.ne']
    rfl
  calc |x.value - v| = |v / placeUnit f k - (m : ℤ)| * placeUnit f k := by
        rw [hscale, abs_mul, abs_neg, abs_of_pos hpos]
    _ ≤ 1 / 2 * placeUnit f k := mul_le_mul_of_nonneg_right hm.near hpos.le
    _ ≤ v / (2 * f.leadingBit) := by
        rw [le_div_iff₀ (mul_pos two_pos hlead)]
        linarith

/-! ## Rounding -/

theorem leadingBit_eq_zpow (f : FloatFormat) : (f.leadingBit : ℚ) = 2 ^ (f.fractionBits : ℤ) := by
  rw [f.leadingBit_eq, Nat.shiftLeft_eq, Nat.one_mul, zpow_natCast, Nat.cast_pow, Nat.cast_ofNat]

/-- The place that rounding chooses. -/
theorem exists_lastPlace (ha : 0 < a) (hb : 0 < b) :
    ∃ k : ℕ, lastPlace f a b = f.minExponent + k ∧ LastPlaceOf f (a / b) k := by
  obtain ⟨hlow, hhigh⟩ := floorLog2_spec ha hb
  have hle : f.minExponent ≤ lastPlace f a b := le_max_left _ _
  have hle' : floorLog2 a b - f.fractionBits ≤ lastPlace f a b := le_max_right _ _
  obtain ⟨k, hk⟩ : ∃ k : ℕ, lastPlace f a b = f.minExponent + k :=
    ⟨(lastPlace f a b - f.minExponent).toNat, by omega⟩
  refine ⟨k, hk, hhigh.trans_le ?_, ?_⟩
  · rw [placeUnit, leadingBit_eq_zpow, mul_comm 2, ← zpow_add_one₀ two_ne_zero,
      ← zpow_add₀ two_ne_zero]
    exact zpow_le_zpow_right₀ one_le_two (by omega)
  · obtain heq | heq := max_choice f.minExponent (floorLog2 a b - f.fractionBits)
    · exact .inl (by unfold lastPlace at hk; omega)
    · refine .inr (hlow.trans_eq' ?_)
      rw [placeUnit, leadingBit_eq_zpow, ← zpow_add₀ two_ne_zero]
      congr 1
      unfold lastPlace at hk
      omega

/-- **Rounding a quotient gives the nearest number, if there is a finite one.** -/
theorem isNearest_ofRatio (hb : 0 < b) (hfinite : (ofRatio f false a b).isFinite = true) :
    (ofRatio f false a b).IsNearest (a / b) := by
  refine ⟨⟨ofRatio_negative f false a b, hfinite⟩, ?_⟩
  obtain rfl | ha := a.eq_zero_or_pos
  · have hpos : (0 : ℚ) < 2 * f.leadingBit * placeUnit f 0 :=
      mul_pos (mul_pos two_pos (Nat.cast_pos.2 f.leadingBit_pos)) (placeUnit_pos f 0)
    rw [Nat.cast_zero, zero_div]
    refine ⟨0, 0, ⟨hpos, .inl rfl⟩, ?_, ?_⟩
    · rw [zero_div]
      exact NearestEven.intCast 0
    · rw [ofRatio_zero] at hfinite ⊢
      exact value_of_magnitude rfl hfinite (by rw [Nat.zero_mul]; rfl) (Nat.zero_le _) (.inl rfl)
  · obtain ⟨k, hk, hlast⟩ := exists_lastPlace (f := f) ha hb
    have hm := nearestEven_roundHalfEven (divTwoPow a b (f.minExponent + k)).1
      (divTwoPow_pos hb a (f.minExponent + k))
    rw [divTwoPow_eq] at hm
    refine ⟨k, _, hlast, hm, ?_⟩
    obtain ⟨hhigh, hlow⟩ := hlast.units_bounds hm
    refine value_of_magnitude (ofRatio_negative f false a b) hfinite ?_ hhigh hlow
    -- the pattern is not cut off at infinity
    have hlt : (ofRatio f false a b).magnitude < f.infinityPattern := of_decide_eq_true hfinite
    unfold ofRatio at hlt ⊢
    simp only [if_neg ha.ne', hk, add_sub_cancel_left, Int.toNat_natCast] at hlt ⊢
    omega

/-- Below 2^1023, a double is not infinite. -/
theorem isFinite_ofRatio (hb : 0 < b) (h : (a : ℚ) / b < 2 ^ (1023 : ℤ)) (negative : Bool) :
    (ofRatio .double negative a b).isFinite = true := by
  refine decide_eq_true ?_
  obtain rfl | ha := a.eq_zero_or_pos
  · rw [ofRatio_zero]
    exact (by decide : 0 < FloatFormat.infinityPattern .double)
  · obtain ⟨k, hk, hlast⟩ := exists_lastPlace (f := .double) ha hb
    have hm := nearestEven_roundHalfEven (divTwoPow a b (FloatFormat.minExponent .double + k)).1
      (divTwoPow_pos hb a (FloatFormat.minExponent .double + k))
    rw [divTwoPow_eq] at hm
    obtain ⟨hhigh, -⟩ := hlast.units_bounds hm
    have hplace : k ≤ 2044 := by
      by_contra hgt
      have hlow := (hlast.low.resolve_left (by omega)).trans_lt h
      rw [placeUnit, leadingBit_eq_zpow, ← zpow_add₀ two_ne_zero,
        zpow_lt_zpow_iff_right₀ one_lt_two] at hlow
      have hfraction : FloatFormat.fractionBits .double = 52 := rfl
      have hleast : FloatFormat.minExponent .double = -1074 := rfl
      omega
    unfold ofRatio
    simp only [if_neg ha.ne', hk, add_sub_cancel_left, Int.toNat_natCast]
    have hlead : FloatFormat.leadingBit .double = 4503599627370496 := rfl
    have hinfinity : FloatFormat.infinityPattern .double = 9218868437227405312 := rfl
    rw [hlead] at hhigh ⊢
    rw [hinfinity]
    omega

end Floating

end MessageScript
