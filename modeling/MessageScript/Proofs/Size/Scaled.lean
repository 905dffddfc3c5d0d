import MessageScript.Proofs.Size.Quotient
import MessageScript.Proofs.Size.Significant
import MessageScript.Size.ByteSize

/-!
# Counts in the unit that suits them

The unit is the greatest that a count reaches, or the next if rounding fills it.  Up to thirteen
significant digits, what is written in that unit is the nearest number of so many digits: exactly
for counts that are not too great, and but for a part in 2^50 for the others.  The halves between
such numbers are quotients with a small denominator, so that none lies between a quotient and what
it is rounded to.

    |q - a / b| ≤ … → |m - q| ≤ 1 / 2 → |m - a / b| ≤ 1 / 2                        (nearest_of_near)
    fillsNext count p l k = true ↔ base ≤ units * 10 ^ (d - p)                       (fillsNext_iff)
    units * 10 ^ (d - p) is nearest to count / factor                                (value_nearest)
    settledStep … = step → 10 ^ (p - 1) ≤ units ∧ units * 10 ^ (d - p) < base     (settledStep_spec)
    precision ≤ 13 → size.scaled precision l = … ∧ Significant …                      (scaled_right)
-/

namespace MessageScript.Size

open Floating

variable {count k p d units : ℕ} {l : Ladder} {q v w x : ℚ}

/-! ## Steps -/

/-- The numbers in front that have a property. -/
theorem length_takeWhile_range (p : ℕ → Bool) (n : ℕ) :
    ((List.range n).takeWhile p).length ≤ n ∧
    (∀ i < ((List.range n).takeWhile p).length, p i = true) ∧
    (((List.range n).takeWhile p).length = n ∨ p ((List.range n).takeWhile p).length = false) := by
  have hle : ((List.range n).findIdx fun x => !p x) ≤ (List.range n).length :=
    List.findIdx_le_length
  have hlength : ((List.range n).takeWhile p).length = (List.range n).findIdx fun x => !p x := by
    rw [List.takeWhile_eq_take_findIdx_not, List.length_take, Nat.min_eq_left hle]
  rw [List.length_range] at hle
  rw [hlength]
  refine ⟨hle, fun i hi => ?_, ?_⟩
  · simpa using List.not_of_lt_findIdx hi
  · obtain hlt | heq := hle.lt_or_eq
    · have hindex : ((List.range n).findIdx fun x => !p x) < (List.range n).length := by
        rwa [List.length_range]
      have hfirst := @List.findIdx_getElem ℕ (fun x => !p x) (List.range n) hindex
      exact .inr (by simpa using hfirst)
    · exact .inl heq

/-- The greatest unit that a count reaches. -/
theorem reachedStep_spec (count : ℕ) (l : Ladder) : reachedStep count l ≤ Ladder.lastStep ∧
    (reachedStep count l = 0 ∨ l.factor (reachedStep count l) ≤ count) ∧
    (reachedStep count l = Ladder.lastStep ∨ count < l.factor (reachedStep count l + 1)) := by
  obtain ⟨hle, hreached, hnext⟩ :=
    length_takeWhile_range (fun step => l.factor (step + 1) ≤ count) Ladder.lastStep
  refine ⟨hle, ?_, ?_⟩
  · obtain hzero | hpos := Nat.eq_zero_or_pos (reachedStep count l)
    · exact .inl hzero
    · have hlast := hreached (reachedStep count l - 1) (Nat.sub_lt hpos Nat.one_pos)
      rw [Nat.sub_add_cancel hpos] at hlast
      exact .inr (of_decide_eq_true hlast)
  · exact hnext.imp_right fun h => Nat.not_le.1 (of_decide_eq_false h)

/-- A count is at most so many of the units that it may be written in. -/
theorem count_le (hcount : count < 2 ^ 64) (hk : k ≤ Ladder.lastStep)
    (hreach : reachedStep count l ≤ k) : count ≤ 20_000 * l.factor k ∧
      (k < Ladder.lastStep → count < l.base * l.factor k) := by
  obtain ⟨-, -, hnext⟩ := reachedStep_spec count l
  have hbase : l.base ≤ 1_024 := by cases l <;> decide
  have hmono : ∀ {i j : ℕ}, i ≤ j → l.factor i ≤ l.factor j := by
    intro i j hij
    rw [factor_eq, factor_eq]
    exact Nat.pow_le_pow_right l.base_pos hij
  have hbelow : k < Ladder.lastStep → count < l.base * l.factor k := by
    intro hlt
    have hsucc : reachedStep count l + 1 ≤ k + 1 := by omega
    exact (hnext.resolve_left (by omega)).trans_le (hmono hsucc)
  refine ⟨?_, hbelow⟩
  obtain hlt | rfl := hk.lt_or_eq
  · exact (hbelow hlt).le.trans (Nat.mul_le_mul_right _ (hbase.trans (by decide)))
  · refine hcount.le.trans ?_
    cases l <;> decide

/-! ## One step -/

/-- The quotient of a count and a unit that it may be written in is rounded to significant
digits. -/
theorem exists_rounds_quotient (hcount : count < 2 ^ 64) (hk : k ≤ 5)
    (hle : count ≤ 20_000 * l.factor k) (hp : 1 ≤ p ∧ p ≤ 13) :
    ∃ d q units, Rounds (quotient count (l.factor k)) p d q units := by
  have hnear := isNearest_quotient hcount l hk
  refine exists_rounds hnear.toUnsigned ?_ ?_ hp
  · have herror := abs_le.1 (quotient_error (l := l) hcount hk)
    obtain rfl | hpos := count.eq_zero_or_pos
    · rw [Nat.cast_zero, zero_div, zero_mul, sub_zero, neg_zero] at herror
      exact .inl (herror.2.antisymm herror.1)
    · have hquotient := le_exact_quotient (l := l) hk hpos
      exact .inr (by linarith)
  · have hhigh := quotient_le (z := 20_000) hcount hk (by decide) hle
    refine hhigh.trans_lt ?_
    norm_num

section Step

variable (hcount : count < 2 ^ 64) (hk : k ≤ 5)
  (h : Rounds (quotient count (l.factor k)) p d q units)
include hcount hk h

/-- The whole number of units is near the exact quotient. -/
theorem units_near : |units - (count : ℚ) / l.factor k / 10 ^ ((d : ℤ) - p)| ≤
    1 / 2 + (count : ℚ) / l.factor k / 10 ^ ((d : ℤ) - p) / 2 ^ 50 := by
  have ht := last_pos p d
  have hscaled : |(quotient count (l.factor k)).value / 10 ^ ((d : ℤ) - p) -
      (count : ℚ) / l.factor k / 10 ^ ((d : ℤ) - p)| ≤
        (count : ℚ) / l.factor k / 10 ^ ((d : ℤ) - p) * (5 / 2 ^ 54) := by
    rw [← sub_div, abs_div, abs_of_pos ht, div_mul_eq_mul_div]
    exact div_le_div_of_nonneg_right (quotient_error hcount hk) ht.le
  have hnonneg : (0 : ℚ) ≤ (count : ℚ) / l.factor k / 10 ^ ((d : ℤ) - p) := by positivity
  have hquotient := abs_le.1 h.inUnits.quotient
  have hnearest := abs_le.1 h.inUnits.nearest
  have hscaled := abs_le.1 hscaled
  refine abs_le.2 ⟨?_, ?_⟩ <;> linarith

/-- So is the number that is written. -/
theorem value_near : |units * 10 ^ ((d : ℤ) - p) - (count : ℚ) / l.factor k| ≤
    10 ^ ((d : ℤ) - p) / 2 + (count : ℚ) / l.factor k / 2 ^ 50 := by
  have ht := last_pos p d
  have hnear := mul_le_mul_of_nonneg_right (units_near hcount hk h) ht.le
  rw [abs_sub_div_mul _ _ ht] at hnear
  refine hnear.trans_eq ?_
  rw [add_mul, div_right_comm, div_mul_cancel₀ _ ht.ne']
  ring

/-- A count that reaches the unit has a leading digit. -/
theorem le_units_of_reached (hreach : l.factor k ≤ count) : 10 ^ (p - 1) ≤ units := by
  have hone := le_quotient (z := 1) hcount hk (by decide) (by rwa [Nat.one_mul])
  rw [Nat.cast_one] at hone
  have hlead : (10 : ℚ) ^ (d - 1) ≤ (quotient count (l.factor k)).value := by
    obtain rfl | hlow := h.low
    · rwa [Nat.sub_self, pow_zero]
    · exact hlow
  refine h.le_units ?_
  rw [le_div_iff₀ (last_pos p d)]
  have hpower := h.tenPow_pred_mul_last
  have hpos := last_pos p d
  linarith

end Step

/-- **The next unit is filled exactly if the written number reaches a whole one.** -/
theorem fillsNext_iff (h : Rounds (quotient count (l.factor k)) p d q units) :
    fillsNext count p l k = true ↔ (l.base : ℚ) ≤ units * 10 ^ ((d : ℤ) - p) := by
  have hmem : l.base ∈ InUnits.thresholds := by cases l <;> decide
  have hbase : l.base ≤ 1_024 := by cases l <;> decide
  obtain ⟨hnear, hvalue⟩ := natCast_spec (n := l.base) (by omega)
  have hleast : (1 : ℚ) / 10 ^ 12 ≤ 10 ^ ((d : ℤ) - p) := by
    calc (1 : ℚ) / 10 ^ 12 = 10 ^ (-12 : ℤ) := by norm_num
      _ ≤ 10 ^ ((d : ℤ) - p) := by
          refine zpow_le_zpow_right₀ (by norm_num) ?_
          have := h.precision.2
          have := h.digits.2.1
          omega
  have hsmall : (l.base : ℚ) ≤ 2 ^ 51 * 10 ^ ((d : ℤ) - p) := by
    have hbase' : (l.base : ℚ) ≤ 1_024 := by exact_mod_cast hbase
    linarith
  rw [fillsNext, le_iff_value_le hnear.toUnsigned h.inUnits.product.toUnsigned, hvalue]
  exact h.le_value_iff hmem hsmall

/-- How much a count that fills the next unit when it is rounded lacks of it, in units of the last
digit. -/
theorem lack_le (hcount : count < 2 ^ 64) (hk : k ≤ 5) (hbelow : count < l.base * l.factor k)
    (h : Rounds (quotient count (l.factor k)) p d q units)
    (hfilled : (l.base : ℚ) ≤ units * 10 ^ ((d : ℤ) - p)) :
    (10 : ℚ) ^ (p - 1) * (1 - (count : ℚ) / l.factor k / l.base) ≤ 491 / 1000 := by
  have hp := h.precision
  have hd := h.digits.2
  have hbase : (0 : ℚ) < l.base := Nat.cast_pos.2 l.base_pos
  have hfactor : (0 : ℚ) < l.factor k := Nat.cast_pos.2 (l.factor_pos k)
  have hpower : (10 : ℚ) ^ (p - 1) ≤ 10 ^ 12 := pow_le_pow_right₀ (by norm_num) (by omega)
  have hpos : (0 : ℚ) < 10 ^ (p - 1) := by positivity
  have hquotient : (count : ℚ) / l.factor k < l.base := by
    rw [div_lt_iff₀ hfactor]
    exact_mod_cast hbelow
  have hnonneg : (0 : ℚ) ≤ (count : ℚ) / l.factor k := by positivity
  have hnear := (abs_le.1 (value_near hcount hk h)).2
  have herror := (abs_le.1 (quotient_error (l := l) hcount hk)).2
  have hleading := h.low
  generalize (quotient count (l.factor k)).value = x at *
  generalize (count : ℚ) / l.factor k = w at *
  have hscaled : (10 : ℚ) ^ (p - 1) * (1 - w / l.base) = 10 ^ (p - 1) * (l.base - w) / l.base := by
    field_simp
  rw [hscaled, div_le_iff₀ hbase]
  by_cases hfull : (l.base : ℚ) ≤ x
  · -- then only the rounding of the quotient is missing
    have hlack : l.base - w ≤ l.base * (5 / 2 ^ 54) := by linarith
    have := mul_le_mul hpower hlack (by linarith) (by norm_num)
    linarith
  · have hdigits : (10 : ℚ) ^ (d - 1) ≤ l.base * (1_000 / 1_024) := by
      obtain rfl | hlow := hleading
      · rw [Nat.sub_self, pow_zero]
        cases l <;> norm_num [Ladder.base]
      · have hlt : 10 ^ (d - 1) < l.base := by exact_mod_cast hlow.trans_lt (not_le.1 hfull)
        have hall : ∀ d : Fin 5, 10 ^ (d : ℕ) < l.base → 10 ^ (d : ℕ) * 1_024 ≤ l.base * 1_000 := by
          cases l <;> decide
        have hle := hall ⟨d - 1, by omega⟩ hlt
        have hle' : (10 : ℚ) ^ (d - 1) * 1_024 ≤ l.base * 1_000 := by exact_mod_cast hle
        linarith
    have hlack : l.base - w ≤ 10 ^ ((d : ℤ) - p) / 2 + l.base / 2 ^ 50 := by linarith
    have := mul_le_mul_of_nonneg_left hlack hpos.le
    have := mul_le_mul_of_nonneg_right hpower hbase.le
    rw [← h.tenPow_pred_mul_last] at hdigits
    linarith

/-- A count that fills the next unit when it is rounded is written as one of them. -/
theorem le_units_of_filled (hcount : count < 2 ^ 64) (hk : k < Ladder.lastStep)
    (hbelow : count < l.base * l.factor k)
    (h : Rounds (quotient count (l.factor k)) p d q units)
    (hfilled : (l.base : ℚ) ≤ units * 10 ^ ((d : ℤ) - p)) {d' units' : ℕ} {q' : ℚ}
    (h' : Rounds (quotient count (l.factor (k + 1))) p d' q' units') :
    d' = 1 ∧ 10 ^ (p - 1) ≤ units' := by
  have hk5 : k + 1 ≤ 5 := hk
  -- the count is less than one of the next unit
  have hone := quotient_le (l := l) (k := k + 1) (z := 1) hcount hk5 (by decide)
    (by rw [Nat.one_mul]; exact hbelow.le)
  rw [Nat.cast_one] at hone
  have hd' : d' = 1 := by
    obtain hd' | hlow := h'.low
    · exact hd'
    · by_contra hne
      have hten : (10 : ℚ) ^ 1 ≤ 10 ^ (d' - 1) :=
        pow_le_pow_right₀ (by norm_num) (by have := h'.digits.2.1; omega)
      linarith
  subst hd'
  refine ⟨rfl, h'.le_units ?_⟩
  have hp := h.precision
  have hlack := lack_le hcount (by omega) hbelow h hfilled
  have hnext : (count : ℚ) / l.factor (k + 1) = (count : ℚ) / l.factor k / l.base := by
    rw [Ladder.factor, Nat.cast_mul, div_div, mul_comm]
  have herror := (abs_le.1 (quotient_error (l := l) hcount hk5)).1
  rw [hnext] at herror
  have hunit : (10 : ℚ) ^ (((1 : ℕ) : ℤ) - p) = 1 / 10 ^ (p - 1) := by
    rw [one_div, ← zpow_natCast, ← zpow_neg]
    congr 1
    omega
  have hpower : (10 : ℚ) ^ (p - 1) ≤ 10 ^ 12 := pow_le_pow_right₀ (by norm_num) (by omega)
  have hpos : (0 : ℚ) < 10 ^ (p - 1) := by positivity
  have hnonneg : (0 : ℚ) ≤ (count : ℚ) / l.factor k / l.base := by positivity
  rw [hunit, div_div_eq_mul_div, div_one]
  generalize (quotient count (l.factor (k + 1))).value = x at *
  generalize (count : ℚ) / l.factor k / l.base = w at *
  have hw : w ≤ 2 := by linarith
  have hx := mul_le_mul_of_nonneg_right (show w - w * (5 / 2 ^ 54) ≤ x by linarith) hpos.le
  have hsmall : (10 : ℚ) ^ (p - 1) * w ≤ 10 ^ 12 * 2 :=
    mul_le_mul hpower hw hnonneg (by norm_num)
  linarith

/-! ## The nearest number of the last digit's units -/

/-- The digits in front of the point of the exact quotient. -/
def exactDigits (count factor : ℕ) : ℕ := (Text.digits (count / factor)).length

theorem exactDigits_spec (count : ℕ) {factor : ℕ} (hfactor : 0 < factor) :
    1 ≤ exactDigits count factor ∧ count < 10 ^ exactDigits count factor * factor ∧
    (exactDigits count factor = 1 ∨ 10 ^ (exactDigits count factor - 1) * factor ≤ count) := by
  have hpos : 0 < (Text.digits (count / factor)).length :=
    List.length_pos_iff.2 (Text.digits_ne_nil _)
  refine ⟨hpos, ?_, ?_⟩
  · rw [← Nat.div_lt_iff_lt_mul hfactor]
    exact (Text.length_digits_le_iff hpos).1 le_rfl
  · obtain h | h := (show exactDigits count factor = 1 ∨ 0 < exactDigits count factor - 1 by
      unfold exactDigits; omega)
    · exact .inl h
    · refine .inr ((Nat.le_div_iff_mul_le hfactor).1 (Nat.not_lt.1 fun hlt => ?_))
      have hle := (Text.length_digits_le_iff h).2 hlt
      unfold exactDigits at hle h
      omega

/-- The digits are counted as those of the exact quotient, if that is not rounded up to a power of
ten. -/
theorem digits_cases (hcount : count < 2 ^ 64) (hk : k ≤ 5) (hle : count ≤ 20_000 * l.factor k)
    (h : Rounds (quotient count (l.factor k)) p d q units) :
    d = exactDigits count (l.factor k) ∨ d = exactDigits count (l.factor k) + 1 ∧
      (quotient count (l.factor k)).value = 10 ^ exactDigits count (l.factor k) := by
  obtain ⟨hone, hlt, hleast⟩ := exactDigits_spec count (l.factor_pos k)
  have hfive : exactDigits count (l.factor k) ≤ 5 := by
    obtain h | h := hleast
    · omega
    · by_contra hgt
      have hpower : 10 ^ 5 ≤ 10 ^ (exactDigits count (l.factor k) - 1) :=
        Nat.pow_le_pow_right (by decide) (by omega)
      have := Nat.mul_le_mul_right (l.factor k) hpower
      have := l.factor_pos k
      omega
  have hpower : ∀ {i : ℕ}, i ≤ 5 → 10 ^ i ≤ 10 ^ 5 := fun hi => Nat.pow_le_pow_right (by decide) hi
  have hhigh := quotient_le hcount hk (hpower hfive) hlt.le
  have hlow : exactDigits count (l.factor k) ≤ d := by
    obtain h1 | hreach := hleast
    · exact h1.trans_le h.digits.2.1
    · have hreach' := le_quotient hcount hk (hpower (by omega)) hreach
      push_cast at hreach'
      have := lt_of_tenPow_lt (hreach'.trans_lt h.high)
      omega
  push_cast at hhigh
  obtain h1 | hlead := h.low
  · omega
  · obtain hlt' | heq := (hlead.trans hhigh).lt_or_eq
    · have := lt_of_tenPow_lt hlt'
      omega
    · have hd : d - 1 = exactDigits count (l.factor k) :=
        Nat.pow_right_injective (le_refl 2 |>.trans (by decide : 2 ≤ 10)) (by exact_mod_cast heq)
      exact .inr ⟨by have := h.digits.2.1; omega, hhigh.antisymm (heq ▸ hlead)⟩

/-- The whole number nearest to a number that is near `a / b` is nearest to `a / b`: no half lies
between. -/
theorem nearest_of_near {a b m : ℕ} (hb : 0 < b) (ha : a ≤ 2 ^ 50)
    (hq : |q - (a : ℚ) / b| ≤ (a : ℚ) / b * (15 / 2 ^ 55)) (hm : |(m : ℚ) - q| ≤ 1 / 2) :
    |(m : ℚ) - (a : ℚ) / b| ≤ 1 / 2 := by
  have hb' : (0 : ℚ) < b := Nat.cast_pos.2 hb
  have ha' : (a : ℚ) ≤ 2 ^ 50 := by exact_mod_cast ha
  have htriangle := (abs_sub_le (m : ℚ) q ((a : ℚ) / b)).trans (add_le_add hm hq)
  -- in whole numbers, multiplied by twice the denominator
  have hscaled : |2 * (m * b) - 2 * (a : ℚ)| < b + 1 := by
    have hfactor : 2 * (m * b) - 2 * (a : ℚ) = ((m : ℚ) - a / b) * (2 * b) := by field_simp
    rw [hfactor, abs_mul, abs_of_pos (mul_pos two_pos hb')]
    refine (mul_le_mul_of_nonneg_right htriangle (mul_pos two_pos hb').le).trans_lt ?_
    have hexpand : ((1 : ℚ) / 2 + a / b * (15 / 2 ^ 55)) * (2 * b) = b + a * (15 / 2 ^ 54) := by
      field_simp
    linarith
  obtain ⟨hlow, hhigh⟩ := abs_lt.1 hscaled
  have hlow' : 2 * a < 2 * (m * b) + b + 1 := by
    have : (2 * a : ℚ) < 2 * (m * b) + b + 1 := by linarith
    exact_mod_cast this
  have hhigh' : 2 * (m * b) < 2 * a + b + 1 := by
    have : (2 * (m * b) : ℚ) < 2 * a + b + 1 := by linarith
    exact_mod_cast this
  have hlow : (2 * a : ℚ) ≤ 2 * (m * b) + b := by exact_mod_cast Nat.lt_succ_iff.1 hlow'
  have hhigh : (2 * (m * b) : ℚ) ≤ 2 * a + b := by exact_mod_cast Nat.lt_succ_iff.1 hhigh'
  rw [sub_div' hb'.ne', abs_div, abs_of_pos hb', div_le_iff₀ hb']
  exact abs_le.2 ⟨by linarith, by linarith⟩

/-- The part of ten that has no factor in common with the base of a ladder. -/
def coprimePart : Ladder → ℕ
  | .decimal => 1
  | .binary => 5

/-- The other part of ten, of which the base is a power. -/
theorem exists_root (l : Ladder) (k : ℕ) : ∃ root j : ℕ, 0 < root ∧ coprimePart l * root = 10 ∧
    l.factor k = root ^ j := by
  rw [factor_eq]
  cases l with
  | decimal =>
    refine ⟨10, 3 * k, by decide, by decide, ?_⟩
    rw [pow_mul]
    rfl
  | binary =>
    refine ⟨2, 10 * k, by decide, by decide, ?_⟩
    rw [pow_mul]
    rfl

/-- The exact quotient, in units of the `p`-th digit, as a quotient with a small numerator. -/
theorem exists_small_ratio {D : ℕ} (hsmall : count * coprimePart l ^ (p - D) ≤ 2 ^ 50)
    (hunits : (count : ℚ) / l.factor k / 10 ^ ((D : ℤ) - p) ≤ 2 ^ 50) : ∃ a b : ℕ, 0 < b ∧
      a ≤ 2 ^ 50 ∧ (count : ℚ) / l.factor k / 10 ^ ((D : ℤ) - p) = (a : ℚ) / b := by
  have hfactor := l.factor_pos k
  obtain hle | hlt := le_or_gt p D
  · obtain ⟨t, rfl⟩ := Nat.exists_eq_add_of_le hle
    refine ⟨count, l.factor k * 10 ^ t, by positivity, ?_, ?_⟩
    · rwa [Nat.sub_eq_zero_of_le hle, pow_zero, Nat.mul_one] at hsmall
    · rw [Nat.cast_add, add_sub_cancel_left, zpow_natCast, div_div]
      push_cast
      rfl
  · obtain ⟨t, rfl⟩ := Nat.exists_eq_add_of_le hlt.le
    obtain ⟨root, j, hroot, hten, heq⟩ := exists_root l k
    rw [Nat.add_sub_cancel_left] at hsmall
    have hroot' : (0 : ℚ) < root := Nat.cast_pos.2 hroot
    have hten' : (10 : ℚ) = coprimePart l * root := by exact_mod_cast hten.symm
    have hquotient : (count : ℚ) / l.factor k / 10 ^ ((D : ℤ) - (D + t : ℕ)) =
        count * coprimePart l ^ t * root ^ t / root ^ j := by
      rw [heq, Nat.cast_add, sub_add_cancel_left, zpow_neg, zpow_natCast, hten', mul_pow]
      push_cast
      field_simp
    rw [hquotient] at hunits ⊢
    obtain hle | hlt := le_or_gt t j
    · obtain ⟨i, rfl⟩ := Nat.exists_eq_add_of_le hle
      refine ⟨count * coprimePart l ^ t, root ^ i, Nat.pow_pos hroot, hsmall, ?_⟩
      push_cast
      rw [pow_add]
      field_simp
    · obtain ⟨i, rfl⟩ := Nat.exists_eq_add_of_le hlt.le
      have hwhole : (count : ℚ) * coprimePart l ^ (j + i) * root ^ (j + i) / root ^ j =
          (count * coprimePart l ^ (j + i) * root ^ i : ℕ) := by
        push_cast
        rw [pow_add (root : ℚ)]
        field_simp
      rw [hwhole] at hunits ⊢
      exact ⟨_, 1, Nat.one_pos, by exact_mod_cast hunits, by rw [Nat.cast_one, div_one]⟩

/-- Where the quotient is rounded up to a power of ten, that is what is written. -/
theorem units_of_tenPow (h : Rounds (quotient count (l.factor k)) p d q units) {D : ℕ}
    (hd : d = D + 1) (hvalue : (quotient count (l.factor k)).value = 10 ^ D) :
    (units : ℚ) * 10 ^ ((d : ℤ) - p) = (quotient count (l.factor k)).value := by
  have hp := h.precision
  have hpower : (10 : ℚ) ^ (p - 1) ≤ 10 ^ 12 := pow_le_pow_right₀ (by norm_num) (by omega)
  have hproduct := h.tenPow_pred_mul_last
  rw [show d - 1 = D by omega] at hproduct
  have hquotient : (quotient count (l.factor k)).value / 10 ^ ((d : ℤ) - p) = 10 ^ (p - 1) := by
    rw [hvalue, ← hproduct, mul_div_cancel_right₀ _ (last_pos p d).ne']
  have hq := abs_le.1 h.inUnits.quotient
  have hm := abs_le.1 h.inUnits.nearest
  rw [hquotient] at hq
  have hlow : 10 ^ (p - 1) < units + 1 := by
    have : (10 : ℚ) ^ (p - 1) < units + 1 := by linarith
    exact_mod_cast this
  have hhigh : units < 10 ^ (p - 1) + 1 := by
    have : (units : ℚ) < 10 ^ (p - 1) + 1 := by linarith
    exact_mod_cast this
  have hunits : units = 10 ^ (p - 1) := by omega
  rw [hvalue, ← hproduct, hunits, Nat.cast_pow, Nat.cast_ofNat]

theorem le_of_mul_coprimePart {t n : ℕ} (h : count * coprimePart l ^ t ≤ n) : count ≤ n := by
  have hpos : 0 < coprimePart l := by cases l <;> decide
  exact (Nat.le_mul_of_pos_right _ (Nat.pow_pos hpos)).trans h

section Nearest

variable (hcount : count < 2 ^ 64) (hk : k ≤ 5)
  (h : Rounds (quotient count (l.factor k)) p d q units)
include hcount hk h

/-- Counts that are small enough are rounded to the nearest unit of the last digit. -/
theorem units_nearest (hsmall : count * coprimePart l ^ (p - d) ≤ 2 ^ 50) :
    |(units : ℚ) - (count : ℚ) / l.factor k / 10 ^ ((d : ℤ) - p)| ≤ 1 / 2 := by
  have ht := last_pos p d
  have hfifty : count ≤ 2 ^ 50 := le_of_mul_coprimePart hsmall
  have hscaled : |(quotient count (l.factor k)).value / 10 ^ ((d : ℤ) - p) -
      (count : ℚ) / l.factor k / 10 ^ ((d : ℤ) - p)| ≤
        (count : ℚ) / l.factor k / 10 ^ ((d : ℤ) - p) / 2 ^ 53 := by
    rw [← sub_div, abs_div, abs_of_pos ht, div_right_comm]
    exact div_le_div_of_nonneg_right
      (quotient_error_small hcount (hfifty.trans (by decide)) hk) ht.le
  have hscaled := abs_le.1 hscaled
  obtain ⟨hhigh, hpower⟩ := h.quotient_lt
  have hq := abs_le.1 h.inUnits.quotient
  obtain ⟨a, b, hb, ha, hratio⟩ := exists_small_ratio (k := k) hsmall (by linarith)
  have hnonneg : (0 : ℚ) ≤ (count : ℚ) / l.factor k / 10 ^ ((d : ℤ) - p) := by positivity
  rw [hratio] at hscaled hnonneg ⊢
  exact nearest_of_near hb ha (abs_le.2 ⟨by linarith, by linarith⟩) h.inUnits.nearest

/-- **How far the written number is from the exact quotient**: half a unit of the `p`-th digit of
the quotient, and for great counts a little more. -/
theorem value_nearest (hle : count ≤ 20_000 * l.factor k) :
    |units * 10 ^ ((d : ℤ) - p) - (count : ℚ) / l.factor k| ≤
      10 ^ ((exactDigits count (l.factor k) : ℤ) - p) / 2 + (count : ℚ) / l.factor k / 2 ^ 50 ∧
    (count * coprimePart l ^ (p - exactDigits count (l.factor k)) ≤ 2 ^ 50 →
      |units * 10 ^ ((d : ℤ) - p) - (count : ℚ) / l.factor k| ≤
        10 ^ ((exactDigits count (l.factor k) : ℤ) - p) / 2) := by
  have ht := last_pos p d
  obtain heq | ⟨hd, hvalue⟩ := digits_cases hcount hk hle h
  · rw [← heq]
    refine ⟨value_near hcount hk h, fun hsmall => ?_⟩
    have hnear := mul_le_mul_of_nonneg_right (units_nearest hcount hk h hsmall) ht.le
    rw [abs_sub_div_mul _ _ ht] at hnear
    linarith
  · rw [units_of_tenPow h hd hvalue]
    have hpos := last_pos p (exactDigits count (l.factor k))
    have hnonneg : (0 : ℚ) ≤ (count : ℚ) / l.factor k := by positivity
    constructor
    · have := quotient_error (l := l) hcount hk
      linarith
    · intro hsmall
      have herror := quotient_error_small (l := l) hcount
        ((le_of_mul_coprimePart hsmall).trans (by decide)) hk
      have hbelow : (count : ℚ) / l.factor k ≤ 10 ^ exactDigits count (l.factor k) := by
        rw [div_le_iff₀ (Nat.cast_pos.2 (l.factor_pos k))]
        exact_mod_cast (exactDigits_spec count (l.factor_pos k)).2.1.le
      have hproduct := mul_le_mul_of_nonneg_right h.quotient_lt.2 hpos.le
      rw [tenPow_mul_last] at hproduct
      linarith

end Nearest

/-! ## The step -/

theorem settledStep_of_filled (hk : k < Ladder.lastStep) (h : fillsNext count p l k = true) :
    settledStep count p l k = settledStep count p l (k + 1) := by
  rw [settledStep, dif_pos hk, if_pos h]

theorem settledStep_self (h : k < Ladder.lastStep → fillsNext count p l k = false) :
    settledStep count p l k = k := by
  rw [settledStep]
  split
  · next hk =>
    rw [h hk]
    rfl
  · rfl

/-- **The step that is settled on**: the number there has a leading digit, and except at the last
step it does not fill the next unit. -/
theorem settledStep_spec (hcount : count < 2 ^ 64) (hp : 1 ≤ p ∧ p ≤ 13) :
    reachedStep count l ≤ settledStep count p l (reachedStep count l) ∧
    settledStep count p l (reachedStep count l) ≤ Ladder.lastStep ∧
    ∃ d q units, Rounds (quotient count (l.factor (settledStep count p l (reachedStep count l))))
      p d q units ∧
      (settledStep count p l (reachedStep count l) ≠ 0 → 10 ^ (p - 1) ≤ units) ∧
      (settledStep count p l (reachedStep count l) < Ladder.lastStep →
        (units : ℚ) * 10 ^ ((d : ℤ) - p) < l.base) := by
  obtain ⟨hlast, hreached, -⟩ := reachedStep_spec count l
  have hle : ∀ {k}, k ≤ Ladder.lastStep → reachedStep count l ≤ k → count ≤ 20_000 * l.factor k :=
    fun hk hreach => (count_le hcount hk hreach).1
  obtain ⟨d, q, units, h⟩ := exists_rounds_quotient hcount hlast (hle hlast le_rfl) hp
  generalize hs : reachedStep count l = s at *
  by_cases hfilled : s < Ladder.lastStep ∧ fillsNext count p l s = true
  · -- the count is written as one of the next unit
    obtain ⟨hlt, hfills⟩ := hfilled
    have hbelow := (count_le hcount hlast hs.le).2 hlt
    obtain ⟨d', q', units', h'⟩ := exists_rounds_quotient hcount (k := s + 1) hlt
      (hle hlt (Nat.le_succ s)) hp
    obtain ⟨rfl, hunits⟩ := le_units_of_filled hcount hlt hbelow h ((fillsNext_iff h).1 hfills) h'
    have hten : (units' : ℚ) * 10 ^ (((1 : ℕ) : ℤ) - p) < l.base := by
      refine h'.units_mul_le.trans_lt ?_
      cases l <;> norm_num [Ladder.base]
    have hself : settledStep count p l (s + 1) = s + 1 := by
      refine settledStep_self fun _ => Bool.eq_false_iff.2 fun hfills' => ?_
      exact not_le.2 hten ((fillsNext_iff h').1 hfills')
    rw [settledStep_of_filled hlt hfills, hself]
    exact ⟨Nat.le_succ s, hlt, 1, q', units', h', fun _ => hunits, fun _ => hten⟩
  · have hnot : s < Ladder.lastStep → fillsNext count p l s = false :=
      fun hlt => Bool.eq_false_iff.2 fun hfills => hfilled ⟨hlt, hfills⟩
    rw [settledStep_self hnot]
    refine ⟨le_rfl, hlast, d, q, units, h, fun hne => ?_, fun hlt => ?_⟩
    · exact le_units_of_reached hcount hlast h (hreached.resolve_left hne)
    · refine not_le.1 fun hbase => ?_
      have hfills := (fillsNext_iff h).2 hbase
      rw [hnot hlt] at hfills
      cases hfills

/-! ## The text -/

/-- What a whole number `c` of units `10 ^ e` has to do with a count in units of a step, if it is
the count with so many significant digits: it has as many digits, the first of them in front of the
point; it is as near to the exact quotient as half a unit of the last digit that the quotient has
of them, and for great counts almost as near; except at the last step it does not fill the next
unit. -/
structure Significant (count width : ℕ) (l : Ladder) (step c : ℕ) (e : ℤ) : Prop where
  digits : 10 ^ (width - 1) ≤ c ∧ c < 10 ^ width
  whole : 0 < width + e
  near : |c * 10 ^ e - (count : ℚ) / l.factor step| ≤
    10 ^ ((exactDigits count (l.factor step) : ℤ) - width) / 2 +
      (count : ℚ) / l.factor step / 2 ^ 50
  nearest : count * coprimePart l ^ (width - exactDigits count (l.factor step)) ≤ 2 ^ 50 →
    |c * 10 ^ e - (count : ℚ) / l.factor step| ≤
      10 ^ ((exactDigits count (l.factor step) : ℤ) - width) / 2
  below : step < Ladder.lastStep → c * 10 ^ e < (l.base : ℚ)

/-- **Up to thirteen significant digits, counts are written right**: all loops end, and the text is
the count itself in bytes, or the significant digits of the count in a larger unit. -/
theorem scaled_right (size : ByteSize) (l : Ladder) {precision : ℕ} (hprecision : precision ≤ 13) :
    let width := max precision 1
    let start := reachedStep size.bytes l
    let step := settledStep size.bytes width l start
    step ≤ 5 ∧
    (∀ k, start ≤ k → k ≤ step → CountEnds (quotient size.bytes (l.factor k)) ∧
      CountEnds (roundSignificant (quotient size.bytes (l.factor k)) width)) ∧
    (step = 0 → size.scaled precision l = String.ofList (Text.digits size.bytes) ∧
      size.bytes < l.base) ∧
    (step ≠ 0 → ∃ (c : ℕ) (e : ℤ), Significant size.bytes width l step c e ∧
      size.scaled precision l = String.ofList
        (PlainNumeral.ofUnits false (-e).toNat (c * 10 ^ e.toNat)).text ++ l.suffix step) := by
  intro width start step
  have hp : 1 ≤ width ∧ width ≤ 13 := ⟨le_max_right _ _, max_le hprecision (by decide)⟩
  have hcount : size.bytes < 2 ^ 64 := size.bytes_lt
  obtain ⟨hstart, hlast, d, q, units, h, hlead, hbelow⟩ := settledStep_spec (l := l) hcount hp
  have htext : size.scaled precision l = if step = 0 then String.ofList (Text.digits size.bytes)
      else String.ofList (significant (quotient size.bytes (l.factor step)) width) ++
        l.suffix step := rfl
  refine ⟨hlast, fun k hlow hhigh => ?_, fun hzero => ?_, fun hne => ?_⟩
  · have hk := hhigh.trans hlast
    obtain ⟨d', q', units', h'⟩ :=
      exists_rounds_quotient hcount hk (count_le hcount hk hlow).1 hp
    have hfive := h'.digits.2.2
    exact ⟨countEnds_of_lt h'.unsigned (n := d') (by omega)
        (h'.high.trans_le (pow_le_pow_right₀ (by norm_num) (Nat.le_succ d'))),
      countEnds_of_lt h'.inUnits.product.toUnsigned (by omega) h'.value_lt⟩
  · rw [htext, if_pos hzero]
    refine ⟨rfl, ?_⟩
    have hzero' : settledStep size.bytes width l (reachedStep size.bytes l) = 0 := hzero
    rw [hzero'] at hstart
    exact ((count_le hcount (Nat.zero_le _) hstart).2 (by decide)).trans_eq (Nat.mul_one _)
  · obtain ⟨c, e, hleast, hmost, hwhole, hvalue, hsignificant⟩ := h.significant_text (hlead hne)
    have hle := (count_le hcount hlast hstart).1
    obtain ⟨hnear, hnearest⟩ := value_nearest hcount hlast h hle
    rw [← hvalue] at hnear hnearest hbelow
    rw [htext, if_neg hne, hsignificant]
    exact ⟨c, e, ⟨⟨hleast, hmost⟩, hwhole, hnear, hnearest, hbelow⟩, rfl⟩

/-- Rounding to three digits carries into the next unit. -/
theorem scaled_right_carried :
    (⟨999_950, by decide⟩ : ByteSize).scaled 3 .decimal = "1.00M" ∧
    settledStep 999_950 3 .decimal (reachedStep 999_950 .decimal) = 2 ∧
    ∃ (c : ℕ) (e : ℤ), Significant 999_950 3 .decimal 2 c e := by
  have hstep : settledStep 999_950 3 .decimal (reachedStep 999_950 .decimal) = 2 := by
    decide +kernel
  obtain ⟨-, -, -, htext⟩ :=
    scaled_right ⟨999_950, by decide⟩ .decimal (show 3 ≤ 13 by decide)
  rw [show max 3 1 = 3 from rfl, show (⟨999_950, by decide⟩ : ByteSize).bytes = 999_950 from rfl,
    hstep] at htext
  obtain ⟨c, e, hsignificant, -⟩ := htext (by decide)
  exact ⟨by decide +kernel, hstep, c, e, hsignificant⟩

/-- With fourteen digits a carry into the next unit is missed: at the fourth step there is a
thousand, and one digit too many.  With two digits a great count just below a half is rounded up.
With 310 digits the power of ten is no number of the format, and neither is what is written.  With
309 digits two and a half of the greatest units are rounded to infinity, and the count of the digits
in front of its point has no end. -/
theorem scaled_wrong :
    (⟨999_999_999_999_999, by decide⟩ : ByteSize).scaled 14 .decimal = "1000.00000000000T" ∧
    settledStep 999_999_999_999_999 14 .decimal (reachedStep 999_999_999_999_999 .decimal) = 4 ∧
    (⟨12_499_999_999_999_999, by decide⟩ : ByteSize).scaled 2 .decimal = "13P" ∧
    2 * 12_499_999_999_999_999 < 25 * Ladder.factor .decimal 5 ∧
    (⟨1_500, by decide⟩ : ByteSize).scaled 310 .decimal = "NaNK" ∧
    reachedStep 2_500_000_000_000_000 .decimal = 5 ∧
    ¬ CountEnds (roundSignificant (quotient 2_500_000_000_000_000 (Ladder.factor .decimal 5))
      309) := by
  have hinfinite : roundSignificant (quotient 2_500_000_000_000_000 (Ladder.factor .decimal 5))
      309 = infinity .double false := by
    decide +kernel
  refine ⟨?_, ?_, ?_, ?_, ?_, ?_, fun hends => countEnds_iff.1 hends hinfinite⟩
  all_goals decide +kernel

end MessageScript.Size
