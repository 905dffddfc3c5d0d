import MessageScript.Proofs.Floating.PlainNumeral
import MessageScript.Proofs.Floating.TenPower
import MessageScript.Size.Scaled

/-!
# Significant digits

Rounding to significant digits divides by the unit of the last digit, a power of ten that may be
rounded itself, rounds to a whole number, and multiplies with the unit again.  Up to thirteen digits
the result tells that whole number: on which side of a power of ten it is, and which digits it has.

    CountEnds x ↔ x ≠ infinity .double false                                         (countEnds_iff)
    wholeDigits x = n + 1 for the least n with (bound n).le x = false               (wholeDigits_eq)
    wholeDigits x = d, where 10 ^ (d - 1) ≤ x < 10 ^ d or d = 1                   (wholeDigits_spec)
    |q - x / 10 ^ e| ≤ … ∧ |units - q| ≤ 1 / 2 ∧ rounded is nearest to units * place
                                                                                  (exists_inUnits)
    z ≤ rounded ↔ z ≤ units * 10 ^ e                                          (Rounds.le_value_iff)
    significant x p = … c * 10 ^ e …, 10 ^ (p - 1) ≤ c < 10 ^ p           (Rounds.significant_text)
-/

namespace MessageScript.Size

open Floating

variable {x : Floating .double} {j n m left : ℕ}

/-! ## Counting digits -/

/-- The bounds that the count of digits goes through: ten, a hundred, and so on. -/
def bound (n : ℕ) : Floating .double :=
  (fun b => b.mul (Floating.ofNat .double 10))^[n] (Floating.ofNat .double 10)

/-- Whether the count of the digits in front of the point comes to an end: some bound is not
reached. -/
def CountEnds (x : Floating .double) : Prop := ∃ n, (bound n).le x = false

theorem bound_succ (n : ℕ) : bound (n + 1) = (bound n).mul (Floating.ofNat .double 10) :=
  Function.iterate_succ_apply' _ _ _

theorem isNaN_bound (n : ℕ) : (bound n).isNaN = false := by
  induction n with
  | zero => exact isNaN_ofRatio .double false 10 1
  | succ n ih =>
    have hten : (Floating.ofNat .double 10).parts = .finite (5 * 2 ^ 50) (-49) := by decide +kernel
    rw [bound_succ]
    exact isNaN_mul ih hten (by decide)

/-- Ten to the 309th is beyond the greatest double. -/
theorem bound_eq_infinity : bound 308 = infinity .double false := by decide +kernel

theorem bound_le_of_ne_infinity (h : x ≠ infinity .double false) : (bound 308).le x = false := by
  rw [bound_eq_infinity]
  exact Bool.eq_false_iff.2 (mt infinity_le_iff.1 h)

/-- **The count of digits comes to an end for all numbers but infinity**, which reaches every
bound. -/
theorem countEnds_iff : CountEnds x ↔ x ≠ infinity .double false := by
  constructor
  · rintro ⟨n, hmissed⟩ rfl
    rw [le_infinity (isNaN_bound n)] at hmissed
    cases hmissed
  · exact fun h => ⟨308, bound_le_of_ne_infinity h⟩

/-- The bounds in front of the first that is missed are counted, if as many may be. -/
theorem boundsReached_eq (hreached : ∀ i < m, (bound (j + i)).le x = true)
    (hmissed : (bound (j + m)).le x = false) (hleft : m ≤ left) :
    boundsReached x left (bound j) = m := by
  induction m generalizing j left with
  | zero =>
    cases left with
    | zero => rfl
    | succ left => exact if_neg (Bool.eq_false_iff.1 hmissed)
  | succ m ih =>
    obtain ⟨left, rfl⟩ := Nat.exists_eq_succ_of_ne_zero (show left ≠ 0 by omega)
    have hfirst : (bound j).le x = true := hreached 0 (Nat.succ_pos m)
    have hrest : boundsReached x left (bound (j + 1)) = m := by
      refine ih (fun i hi => ?_) ?_ (by omega)
      · rw [Nat.add_right_comm]
        exact hreached (i + 1) (Nat.succ_lt_succ hi)
      · rwa [Nat.add_right_comm]
    rw [Nat.succ_eq_add_one, boundsReached, if_pos hfirst, ← bound_succ, hrest]

/-- **Where the count ends, it ends at the first bound that is missed**: the limit is not met. -/
theorem wholeDigits_eq (h : CountEnds x) : wholeDigits x = Nat.find h + 1 := by
  have hlimit : Nat.find h ≤ 308 := Nat.find_min' h (bound_le_of_ne_infinity (countEnds_iff.1 h))
  have hreached : ∀ i < Nat.find h, (bound (0 + i)).le x = true := by
    intro i hi
    rw [Nat.zero_add]
    exact eq_true_of_ne_false (Nat.find_min h hi)
  have hmissed : (bound (0 + Nat.find h)).le x = false := by
    rw [Nat.zero_add]
    exact Nat.find_spec h
  exact congrArg (· + 1) (boundsReached_eq hreached hmissed (by omega))

/-- Up to 10^22 the bounds are exact. -/
theorem bound_spec (hn : n < 22) : (bound n).Unsigned ∧ (bound n).value = 10 ^ (n + 1) := by
  have hten := isNearest_tenPow (n := 1) (by decide)
  have htenvalue := hten.value_eq_tenPow (by decide)
  induction n with
  | zero => exact ⟨hten.toUnsigned, htenvalue⟩
  | succ n ih =>
    obtain ⟨hbound, hvalue⟩ := ih (by omega)
    have hproduct : (bound n).value * (Floating.ofNat .double (10 ^ 1)).value =
        10 ^ (n + 1 + 1) := by
      rw [hvalue, htenvalue, pow_one, ← pow_succ]
    have hnear := isNearest_mul hbound hten.toUnsigned
      (hproduct.trans_lt (tenPow_lt (by omega)))
    rw [hproduct] at hnear
    rw [bound_succ]
    exact ⟨hnear.toUnsigned, hnear.value_eq_tenPow (by omega)⟩

theorem bound_le_iff (hx : x.Unsigned) (hn : n < 22) :
    (bound n).le x = true ↔ 10 ^ (n + 1) ≤ x.value := by
  obtain ⟨hbound, hvalue⟩ := bound_spec hn
  rw [le_iff_value_le hbound hx, hvalue]

theorem bound_le_eq_false_iff (hx : x.Unsigned) (hn : n < 22) :
    (bound n).le x = false ↔ x.value < 10 ^ (n + 1) := by
  rw [Bool.eq_false_iff, ne_eq, bound_le_iff hx hn, not_le]

theorem countEnds_of_lt (hx : x.Unsigned) (hn : n < 22) (h : x.value < 10 ^ (n + 1)) :
    CountEnds x :=
  ⟨n, (bound_le_eq_false_iff hx hn).2 h⟩

/-- **The digits in front of the point are counted right.** -/
theorem wholeDigits_spec (hx : x.Unsigned) (hn : n < 22) (h : x.value < 10 ^ (n + 1)) :
    1 ≤ wholeDigits x ∧ wholeDigits x ≤ n + 1 ∧ x.value < 10 ^ wholeDigits x ∧
      (wholeDigits x = 1 ∨ 10 ^ (wholeDigits x - 1) ≤ x.value) := by
  have hends := countEnds_of_lt hx hn h
  have hle : Nat.find hends ≤ n := Nat.find_min' hends ((bound_le_eq_false_iff hx hn).2 h)
  have hmissed := Nat.find_spec hends
  have hreached := fun i (hi : i < Nat.find hends) => Nat.find_min hends hi
  rw [wholeDigits_eq hends]
  generalize Nat.find hends = r at hle hmissed hreached
  rw [bound_le_eq_false_iff hx (by omega)] at hmissed
  refine ⟨by omega, by omega, hmissed, ?_⟩
  cases r with
  | zero => exact .inl rfl
  | succ r =>
    have hlast := hreached r (Nat.lt_succ_self r)
    rw [bound_le_eq_false_iff hx (by omega), not_lt] at hlast
    exact .inr hlast

/-! ## Rounding -/

section Units

variable {q v t : ℚ} {p units z a : ℕ} {e : ℤ} {r : Floating .double}

/-- How a number rounded to significant digits comes about: it is a whole number of units of the
last digit, nearest to a quotient that is near the exact one, times the unit. -/
structure InUnits (x : Floating .double) (e : ℤ) (q : ℚ) (units : ℕ) (r : Floating .double) :
    Prop where
  quotient : |q - x.value / 10 ^ e| ≤ x.value / 10 ^ e * (5 / 2 ^ 54)
  nearest : |(units : ℚ) - q| ≤ 1 / 2
  product : r.IsNearest (units * (tenPower .double e).value)

/-- A number that is divided by a unit, rounded and multiplied with the unit again. -/
theorem exists_roundedQuotient {place : Floating .double} (hx : x.Unsigned)
    (hzero : x.value = 0 ∨ 1 / 2 ^ 100 ≤ x.value) (hhigh : x.value ≤ 2 ^ 74)
    (hplace : place.Unsigned) (ht : 1 / 2 ^ 74 ≤ t ∧ t ≤ 2 ^ 74)
    (herror : |place.value - t| ≤ t / 2 ^ 53) : ∃ (q : ℚ) (units : ℕ),
      |q - x.value / t| ≤ x.value / t * (5 / 2 ^ 54) ∧ |(units : ℚ) - q| ≤ 1 / 2 ∧
      ((x.div place).round.mul place).IsNearest (units * place.value) := by
  have htpos : 0 < t := lt_of_lt_of_le (by norm_num) ht.1
  have hg := abs_le.1 herror
  have hglow : t / 2 ≤ place.value := by linarith
  have hghigh : place.value ≤ 2 * t := by linarith
  have hgpos : 0 < place.value := by linarith
  have hxnonneg := value_nonneg hx.negative
  -- the quotient
  have hquotient : x.value / place.value ≤ 2 ^ 149 := by
    rw [div_le_iff₀ hgpos]
    linarith
  have hdiv := isNearest_div hx hplace hgpos (lt_two_zpow (hquotient.trans (by norm_num))).2
  have hqerror := hdiv.relative_error <| by
    refine hzero.imp (fun h => by rw [h, zero_div]) fun h => ?_
    rw [le_div_iff₀ hgpos]
    linarith
  have hqhigh : (x.div place).value ≤ 2 * (x.value / place.value) := by
    have := (abs_le.1 hqerror).2
    have : 0 ≤ x.value / place.value := div_nonneg hxnonneg hgpos.le
    linarith
  -- the whole number nearest to it
  obtain ⟨hwhole, hvalue⟩ := value_round hdiv.toUnsigned
    (lt_two_zpow (hqhigh.trans (by linarith))).1
  have hqnonneg := value_nonneg hdiv.negative
  obtain ⟨m, hm⟩ := Int.eq_ofNat_of_zero_le
    (Int.floor_nonneg.2 (by linarith : (0 : ℚ) ≤ (x.div place).value + 1 / 2))
  have hmlow := Int.lt_floor_add_one ((x.div place).value + 1 / 2)
  have hmhigh := Int.floor_le ((x.div place).value + 1 / 2)
  rw [hm, Int.cast_natCast] at hmlow hmhigh hvalue
  -- the product
  have hproduct : (m : ℚ) * place.value ≤ 2 ^ 200 := by
    calc (m : ℚ) * place.value ≤ (2 * (x.value / place.value) + 1 / 2) * place.value :=
          mul_le_mul_of_nonneg_right (by linarith) hgpos.le
      _ = 2 * x.value + 1 / 2 * place.value := by
          rw [add_mul, mul_assoc, div_mul_cancel₀ _ hgpos.ne']
      _ ≤ 2 ^ 200 := by linarith
  have hmul := isNearest_mul hwhole hplace (by rw [hvalue]; exact (lt_two_zpow hproduct).2)
  rw [hvalue] at hmul
  exact ⟨(x.div place).value, m, error_of_div htpos herror hxnonneg hqerror,
    abs_le.2 ⟨by linarith, by linarith⟩, hmul⟩

/-- **Rounding to significant digits goes over whole units of the last digit.** -/
theorem exists_inUnits (hx : x.Unsigned) (hzero : x.value = 0 ∨ 1 / 2 ^ 100 ≤ x.value)
    (hhigh : x.value ≤ 2 ^ 74) (he : (wholeDigits x : ℤ) - p = e) (helow : -22 ≤ e)
    (hehigh : e ≤ 22) : ∃ q units, InUnits x e q units (roundSignificant x p) := by
  obtain ⟨hplace, herror⟩ := tenPower_error helow hehigh
  obtain ⟨q, units, hquotient, hnearest, hproduct⟩ := exists_roundedQuotient hx hzero hhigh hplace
    (tenPow_bounds helow hehigh) herror
  refine ⟨q, units, hquotient, hnearest, ?_⟩
  unfold roundSignificant
  rw [he]
  exact hproduct

namespace InUnits

/-- The rounded number is near the whole number of units. -/
theorem error (h : InUnits x e q units r) (helow : -22 ≤ e) (hehigh : e ≤ 22) :
    |r.value - units * 10 ^ e| ≤ units * 10 ^ e * (5 / 2 ^ 54) := by
  obtain ⟨-, herror⟩ := tenPower_error helow hehigh
  obtain ⟨hlow, -⟩ := value_tenPower_bounds helow hehigh
  have ht : (0 : ℚ) < 10 ^ e := zpow_pos (by norm_num) e
  refine error_of_mul ht.le herror (Nat.cast_nonneg units) (h.product.relative_error ?_)
  obtain rfl | hpos := units.eq_zero_or_pos
  · exact .inl (by rw [Nat.cast_zero, zero_mul])
  · have hone : (1 : ℚ) ≤ units := Nat.one_le_cast.2 hpos
    refine .inr (le_trans (by norm_num) (hlow.trans (le_mul_of_one_le_left ?_ hone)))
    exact le_trans (by norm_num) hlow

/-- Units from one up are exact. -/
theorem value_eq (h : InUnits x n q units r) (hn : n ≤ 22) (hunits : units * 10 ^ n ≤ 2 ^ 53) :
    r.value = (units * 10 ^ n : ℕ) := by
  have hproduct := h.product
  rw [value_tenPower hn, ← Nat.cast_ofNat, ← Nat.cast_pow, ← Nat.cast_mul] at hproduct
  exact hproduct.value_eq_natCast hunits

/-- The numbers that rounded ones are compared with: powers of ten and what makes the next unit. -/
def thresholds : List ℕ := [10, 100, 1_000, 10_000, 100_000, 1_024]

/-- Thresholds of at most thirteen digits, written in units of the last digit and multiplied with
the unit, do not become less. -/
theorem le_threshold (hz : z ∈ thresholds) (ha : 0 < a) (hsmall : z * 10 ^ a ≤ 10 ^ 13) :
    (Floating.ofNat .double z).le
      ((Floating.ofNat .double (z * 10 ^ a)).mul (tenPower .double (-a))) = true := by
  have hall : ∀ z ∈ thresholds, ∀ a : Fin 13, (a : ℕ) = 0 ∨ 10 ^ 13 < z * 10 ^ (a : ℕ) ∨
      (Floating.ofNat .double z).le ((Floating.ofNat .double (z * 10 ^ (a : ℕ))).mul
        (tenPower .double (-(a : ℕ)))) = true := by
    decide +kernel
  have hten : ∀ z ∈ thresholds, 10 ≤ z := by decide
  have ha' : a < 13 := by
    have hlt : 10 ^ a < 10 ^ 13 := by
      have := Nat.mul_le_mul_right (10 ^ a) (hten z hz)
      have := Nat.pow_pos (n := a) (show 0 < 10 by decide)
      omega
    exact (Nat.pow_lt_pow_iff_right (by decide)).1 hlt
  obtain h | h | h := hall z hz ⟨a, ha'⟩
  · exact absurd h ha.ne'
  · exact absurd h (Nat.not_lt.2 hsmall)
  · exact h

/-- **The rounded number reaches a threshold exactly if the whole number of units does.** -/
theorem le_value_iff (h : InUnits x e q units r) (hz : z ∈ thresholds) (helow : -22 ≤ e)
    (hehigh : e ≤ 22) (hunits : units ≤ 10 ^ 13) (hvalue : (units : ℚ) * 10 ^ e ≤ 10 ^ 6)
    (hsmall : (z : ℚ) ≤ 2 ^ 51 * 10 ^ e) :
    (z : ℚ) ≤ r.value ↔ (z : ℚ) ≤ units * 10 ^ e := by
  obtain hnonneg | hneg := le_or_gt 0 e
  · obtain ⟨n, rfl⟩ := Int.eq_ofNat_of_zero_le hnonneg
    have hcast : ((units * 10 ^ n : ℕ) : ℚ) = units * 10 ^ (n : ℤ) := by
      rw [zpow_natCast]
      push_cast
      rfl
    have hle : ((units * 10 ^ n : ℕ) : ℚ) ≤ ((2 ^ 53 : ℕ) : ℚ) := by
      rw [hcast]
      exact hvalue.trans (by norm_num)
    rw [h.value_eq (by omega) (Nat.cast_le.1 hle), hcast]
  · obtain ⟨a, ha⟩ := Int.eq_ofNat_of_zero_le (show 0 ≤ -e by omega)
    obtain rfl : e = -a := by omega
    have hten : (0 : ℚ) < 10 ^ a := by positivity
    rw [zpow_neg, zpow_natCast, ← div_eq_mul_inv] at hsmall ⊢
    rw [le_div_iff₀ hten] at hsmall ⊢
    have hcast : ((z * 10 ^ a : ℕ) : ℚ) = z * 10 ^ a := by push_cast; rfl
    rw [← hcast, Nat.cast_le]
    constructor
    · intro hreach
      by_contra hlt
      -- a unit below the threshold, the error does not make up for the unit
      have hstep : (units : ℚ) + 1 ≤ z * 10 ^ a := by
        rw [← hcast]
        exact_mod_cast Nat.not_le.1 hlt
      have herror := (abs_le.1 (h.error helow hehigh)).2
      rw [zpow_neg, zpow_natCast, ← div_eq_mul_inv] at herror
      have hscaled : r.value * 10 ^ a ≤ units + units * (5 / 2 ^ 54) := by
        have := mul_le_mul_of_nonneg_right (sub_le_iff_le_add.1 herror) hten.le
        rwa [add_mul, mul_right_comm, div_mul_cancel₀ _ hten.ne', add_comm] at this
      have hreach' := mul_le_mul_of_nonneg_right hreach hten.le
      linarith
    · intro hreach
      obtain ⟨hplace, -⟩ := tenPower_error helow hehigh
      have hproduct : z * 10 ^ a ≤ 10 ^ 13 := hreach.trans hunits
      have hthirteen : z ≤ 2 ^ 53 ∧ z * 10 ^ a ≤ 2 ^ 53 := by
        have := Nat.le_mul_of_pos_right z (Nat.pow_pos (n := a) (show 0 < 10 by decide))
        omega
      obtain ⟨hznear, hzvalue⟩ := natCast_spec hthirteen.1
      obtain ⟨hsnear, hsvalue⟩ := natCast_spec hthirteen.2
      have hplacenonneg := value_nonneg hplace.negative
      have hunits' : ((z * 10 ^ a : ℕ) : ℚ) ≤ units := Nat.cast_le.2 hreach
      have hle := mul_le_mul_of_nonneg_right hunits' hplacenonneg
      have hstart := isNearest_mul hsnear.toUnsigned hplace <| by
        have hs : ((z * 10 ^ a : ℕ) : ℚ) ≤ 2 ^ 53 := by exact_mod_cast hthirteen.2
        have hp := (value_tenPower_bounds helow hehigh).2
        rw [hsvalue]
        exact (lt_two_zpow ((mul_le_mul hs hp hplacenonneg (by norm_num)).trans (by norm_num))).2
      rw [hsvalue] at hstart
      have htable := (le_iff_value_le hznear.toUnsigned hstart.toUnsigned).1
        (le_threshold hz (by omega) hproduct)
      rw [hzvalue] at htable
      exact htable.trans (hstart.le h.product hle)

end InUnits

/-- Whether a number has so many digits in front of the point, at most five of them, and is rounded
to so many significant digits, at most thirteen. -/
structure Rounds (x : Floating .double) (p d : ℕ) (q : ℚ) (units : ℕ) : Prop where
  unsigned : x.Unsigned
  precision : 1 ≤ p ∧ p ≤ 13
  digits : wholeDigits x = d ∧ 1 ≤ d ∧ d ≤ 5
  high : x.value < 10 ^ d
  low : d = 1 ∨ 10 ^ (d - 1) ≤ x.value
  inUnits : InUnits x ((d : ℤ) - p) q units (roundSignificant x p)

theorem exists_rounds (hx : x.Unsigned) (hzero : x.value = 0 ∨ 1 / 2 ^ 100 ≤ x.value)
    (hhigh : x.value < 10 ^ 5) (hp : 1 ≤ p ∧ p ≤ 13) :
    ∃ d q units, Rounds x p d q units := by
  obtain ⟨hone, hfive, hlt, hlow⟩ := wholeDigits_spec (n := 4) hx (by decide) hhigh
  obtain ⟨q, units, hunits⟩ := exists_inUnits (p := p) hx hzero (by linarith) rfl (by omega)
    (by omega)
  exact ⟨wholeDigits x, q, units, hx, hp, ⟨rfl, hone, hfive⟩, hlt, hlow, hunits⟩

theorem tenPow_mul_last (p d : ℕ) : (10 : ℚ) ^ p * 10 ^ ((d : ℤ) - p) = 10 ^ d := by
  rw [← zpow_natCast, ← zpow_natCast, ← zpow_add₀ (by norm_num), add_sub_cancel]

theorem last_pos (p d : ℕ) : (0 : ℚ) < 10 ^ ((d : ℤ) - p) := zpow_pos (by norm_num) _

theorem lt_of_tenPow_lt {i j : ℕ} (h : (10 : ℚ) ^ i < 10 ^ j) : i < j :=
  (pow_lt_pow_iff_right₀ (by norm_num)).1 h

namespace Rounds

variable {d : ℕ}

/-- The leading digit in units of the last one. -/
theorem tenPow_pred_mul_last (h : Rounds x p d q units) :
    (10 : ℚ) ^ (p - 1) * 10 ^ ((d : ℤ) - p) = 10 ^ (d - 1) := by
  have hp := h.precision.1
  have hd := h.digits.2.1
  rw [← zpow_natCast, ← zpow_natCast, ← zpow_add₀ (by norm_num)]
  congr 1
  omega

/-- The number in units of the last digit. -/
theorem quotient_lt (h : Rounds x p d q units) :
    x.value / 10 ^ ((d : ℤ) - p) < 10 ^ p ∧ (10 : ℚ) ^ p ≤ 10 ^ 13 := by
  refine ⟨?_, pow_le_pow_right₀ (by norm_num) h.precision.2⟩
  rw [div_lt_iff₀ (last_pos p d), tenPow_mul_last]
  exact h.high

theorem units_le (h : Rounds x p d q units) : units ≤ 10 ^ p := by
  obtain ⟨hhigh, hpower⟩ := h.quotient_lt
  have hq := (abs_le.1 h.inUnits.quotient).2
  have hu := (abs_le.1 h.inUnits.nearest).2
  have hlt : (units : ℚ) < ((10 ^ p + 1 : ℕ) : ℚ) := by
    push_cast
    linarith
  exact Nat.lt_succ_iff.1 (Nat.cast_lt.1 hlt)

/-- A number that has the leading digit, or almost, has it when it is rounded. -/
theorem le_units (h : Rounds x p d q units)
    (hlow : (10 : ℚ) ^ (p - 1) - 495 / 1000 ≤ x.value / 10 ^ ((d : ℤ) - p)) :
    10 ^ (p - 1) ≤ units := by
  obtain ⟨hhigh, hpower⟩ := h.quotient_lt
  have hq := (abs_le.1 h.inUnits.quotient).1
  have hu := (abs_le.1 h.inUnits.nearest).1
  have hlt : ((10 ^ (p - 1) : ℕ) : ℚ) < ((units + 1 : ℕ) : ℚ) := by
    push_cast
    linarith
  exact Nat.lt_succ_iff.1 (Nat.cast_lt.1 hlt)

/-- The whole number of units is at most the power of ten above the number. -/
theorem units_mul_le (h : Rounds x p d q units) : (units : ℚ) * 10 ^ ((d : ℤ) - p) ≤ 10 ^ d := by
  rw [← tenPow_mul_last p d]
  exact mul_le_mul_of_nonneg_right (by exact_mod_cast h.units_le) (last_pos p d).le

theorem tenPow_digits_le (h : Rounds x p d q units) : (10 : ℚ) ^ d ≤ 10 ^ 5 :=
  pow_le_pow_right₀ (by norm_num) h.digits.2.2

/-- The rounded number reaches a threshold exactly if the units do. -/
theorem le_value_iff (h : Rounds x p d q units) (hz : z ∈ InUnits.thresholds)
    (hsmall : (z : ℚ) ≤ 2 ^ 51 * 10 ^ ((d : ℤ) - p)) :
    (z : ℚ) ≤ (roundSignificant x p).value ↔ (z : ℚ) ≤ units * 10 ^ ((d : ℤ) - p) := by
  have hp := h.precision
  have hd := h.digits.2
  have hunits : units ≤ 10 ^ 13 := h.units_le.trans (Nat.pow_le_pow_right (by decide) hp.2)
  have hvalue := h.units_mul_le.trans h.tenPow_digits_le
  exact h.inUnits.le_value_iff hz (by omega) (by omega) hunits (by linarith) hsmall

theorem error (h : Rounds x p d q units) :
    |(roundSignificant x p).value - units * 10 ^ ((d : ℤ) - p)| ≤
      units * 10 ^ ((d : ℤ) - p) * (5 / 2 ^ 54) := by
  have hp := h.precision
  have hd := h.digits.2
  exact h.inUnits.error (by omega) (by omega)

theorem value_lt (h : Rounds x p d q units) : (roundSignificant x p).value < 10 ^ (d + 1) := by
  have hunits := h.units_mul_le
  have herror := (abs_le.1 h.error).2
  have hpos : (0 : ℚ) < 10 ^ d := by positivity
  rw [pow_succ]
  linarith

/-- Powers of ten among the numbers that the rounded one is compared with. -/
theorem tenPow_le_value_iff (h : Rounds x p d q units) {k : ℕ} (hk : 0 < k) (hkd : k ≤ d) :
    10 ^ k ≤ (roundSignificant x p).value ↔ 10 ^ k ≤ (units : ℚ) * 10 ^ ((d : ℤ) - p) := by
  have hall : ∀ k : Fin 6, 0 < (k : ℕ) → 10 ^ (k : ℕ) ∈ InUnits.thresholds := by decide
  have hz := hall ⟨k, by have := h.digits.2.2; omega⟩ hk
  have hcast : ((10 ^ k : ℕ) : ℚ) = 10 ^ k := by push_cast; rfl
  have hiff := h.le_value_iff hz ?_
  · rwa [hcast] at hiff
  · rw [hcast]
    calc (10 : ℚ) ^ k ≤ 10 ^ d := pow_le_pow_right₀ (by norm_num) hkd
      _ = 10 ^ p * 10 ^ ((d : ℤ) - p) := (tenPow_mul_last p d).symm
      _ ≤ 2 ^ 51 * 10 ^ ((d : ℤ) - p) :=
          mul_le_mul_of_nonneg_right (h.quotient_lt.2.trans (by norm_num)) (last_pos p d).le

/-- **The rounded number has as many digits in front of the point as the number, or one more if the
rounding carries into a new one.** -/
theorem wholeDigits_rounded (h : Rounds x p d q units) (hlow : 10 ^ (p - 1) ≤ units) :
    wholeDigits (roundSignificant x p) = if units = 10 ^ p then d + 1 else d := by
  have hd := h.digits.2
  obtain ⟨hone, hle, hhigh, hleast⟩ := wholeDigits_spec (n := d) h.inUnits.product.toUnsigned
    (by omega) h.value_lt
  generalize hcount : wholeDigits (roundSignificant x p) = k at *
  have hunits : (10 : ℚ) ^ d ≤ units * 10 ^ ((d : ℤ) - p) ↔ 10 ^ p ≤ units := by
    rw [← tenPow_mul_last p d, mul_le_mul_iff_left₀ (last_pos p d)]
    exact_mod_cast Iff.rfl
  have htop := h.tenPow_le_value_iff (k := d) (by omega) le_rfl
  rw [hunits] at htop
  split
  · next hcarry =>
    have hlt := lt_of_tenPow_lt ((htop.2 hcarry.ge).trans_lt hhigh)
    omega
  · next hcarry =>
    have hnot : ¬ 10 ^ p ≤ units := fun hge => hcarry (h.units_le.antisymm hge)
    refine le_antisymm ?_ ?_
    · obtain rfl | hleast := hleast
      · exact hd.1
      · have hlt := lt_of_tenPow_lt (hleast.trans_lt (not_le.1 (mt htop.1 hnot)))
        omega
    · by_cases hsingle : d = 1
      · omega
      · have hbelow : (10 : ℚ) ^ (d - 1) ≤ units * 10 ^ ((d : ℤ) - p) := by
          have hlow' : (10 : ℚ) ^ (p - 1) ≤ units := by exact_mod_cast hlow
          rw [← h.tenPow_pred_mul_last]
          exact mul_le_mul_of_nonneg_right hlow' (last_pos p d).le
        have hreach := (h.tenPow_le_value_iff (by omega) (by omega)).2 hbelow
        have hlt := lt_of_tenPow_lt (hreach.trans_lt hhigh)
        omega

/-- The rounded number is written in the units that it is near to. -/
theorem withPlaces_rounded (h : Rounds x p d q units) {c : ℕ} {e : ℤ} (hc : c < 10 ^ p)
    (hvalue : (c : ℚ) * 10 ^ e = units * 10 ^ ((d : ℤ) - p)) :
    (roundSignificant x p).withPlaces (-e).toNat =
      (PlainNumeral.ofUnits false (-e).toNat (c * 10 ^ e.toNat)).text := by
  have hten : (0 : ℚ) < 10 ^ (-e).toNat := by positivity
  have hcast : ((c * 10 ^ e.toNat : ℕ) : ℚ) = c * 10 ^ e * 10 ^ (-e).toNat := by
    push_cast
    rw [mul_assoc, ← zpow_natCast, ← zpow_natCast, ← zpow_add₀ (by norm_num)]
    congr 2
    omega
  have hsmall : (c : ℚ) * 10 ^ e * 10 ^ (-e).toNat ≤ 10 ^ 13 := by
    obtain hnonneg | hneg := le_or_gt 0 e
    · rw [show (-e).toNat = 0 by omega, pow_zero, mul_one, hvalue]
      exact (h.units_mul_le.trans h.tenPow_digits_le).trans (by norm_num)
    · rw [← hcast, show e.toNat = 0 by omega, pow_zero, mul_one]
      exact le_trans (by exact_mod_cast hc.le) h.quotient_lt.2
  have hnonneg : (0 : ℚ) ≤ c * 10 ^ e * 10 ^ (-e).toNat := by positivity
  refine withPlaces_of_near h.inUnits.product.toUnsigned ?_
  have herror := h.error
  rw [← hvalue] at herror
  rw [Text.powerOfTen_cast, hcast, ← sub_mul, abs_mul, abs_of_pos hten]
  have hscaled := mul_le_mul_of_nonneg_right herror hten.le
  rw [mul_right_comm] at hscaled
  linarith

/-- **A number is written with the significant digits asked for**, `p` digits `c` in units of the
last of them, which is a place in front of the point or behind it. -/
theorem significant_text (h : Rounds x p d q units) (hlow : 10 ^ (p - 1) ≤ units) :
    ∃ (c : ℕ) (e : ℤ), 10 ^ (p - 1) ≤ c ∧ c < 10 ^ p ∧ 0 < p + e ∧
      (c : ℚ) * 10 ^ e = units * 10 ^ ((d : ℤ) - p) ∧
      significant x p = (PlainNumeral.ofUnits false (-e).toNat (c * 10 ^ e.toNat)).text := by
  have hp := h.precision.1
  have hd := h.digits.2.1
  have hplaces : significant x p = (roundSignificant x p).withPlaces
      (p - if units = 10 ^ p then d + 1 else d) := by
    rw [← h.wholeDigits_rounded hlow]
    rfl
  by_cases hcarry : units = 10 ^ p
  · -- the carry leaves a one and zeros, in units ten times as great
    have hpower : 10 ^ p = 10 ^ (p - 1) * 10 := by rw [← pow_succ]; congr 1; omega
    have hlt : 10 ^ (p - 1) < 10 ^ p := Nat.pow_lt_pow_right (by decide) (by omega)
    have hvalue : ((10 ^ (p - 1) : ℕ) : ℚ) * 10 ^ ((d : ℤ) - p + 1) =
        units * 10 ^ ((d : ℤ) - p) := by
      rw [hcarry, hpower, zpow_add_one₀ (by norm_num)]
      push_cast
      ring
    refine ⟨10 ^ (p - 1), (d : ℤ) - p + 1, le_rfl, hlt, by omega, hvalue, ?_⟩
    rw [← h.withPlaces_rounded hlt hvalue, hplaces, if_pos hcarry]
    congr 1
    omega
  · have hlt : units < 10 ^ p := lt_of_le_of_ne h.units_le hcarry
    refine ⟨units, (d : ℤ) - p, hlow, hlt, by omega, rfl, ?_⟩
    rw [← h.withPlaces_rounded hlt rfl, hplaces, if_neg hcarry]
    congr 1
    omega

end Rounds

end Units

end MessageScript.Size
