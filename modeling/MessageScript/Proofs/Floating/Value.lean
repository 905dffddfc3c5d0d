import Mathlib.Algebra.Order.Field.Power
import Mathlib.Algebra.Order.Round
import Mathlib.Data.Rat.Floor
import Mathlib.Tactic.FieldSimp
import Mathlib.Tactic.Linarith
import Mathlib.Tactic.Positivity
import Mathlib.Tactic.Ring
import MessageScript.Floating.Arithmetic

/-!
# Exact values of floating-point numbers

A finite number has an exact rational value, `s * 2 ^ e` with the sign.  Magnitude patterns order as
these values do.  Rounding a quotient to a whole number gives the nearest, of two the even one or
the greater one.

    0 < den → NearestEven (num / den) (roundHalfEven num den)          (nearestEven_roundHalfEven)
    NearestEven v m → NearestEven v n → m = n                                   (NearestEven.unique)
    round (num / den) = roundHalfUp num den                              (round_div_eq_roundHalfUp)
    x.value < y.value ↔ x.magnitude < y.magnitude                               (value_lt_value_iff)
    x.le y = true ↔ x.value ≤ y.value                                              (le_iff_value_le)
    (infinity f false).le x = true ↔ x = infinity f false                          (infinity_le_iff)
-/

namespace MessageScript

/-! ## Nearest whole numbers -/

section Nearest

variable {a b : ℕ} {v w x y : ℚ} {m n : ℤ}

theorem le_round_iff : m ≤ round x ↔ (m : ℚ) ≤ x + 1 / 2 := by
  rw [round_eq, Int.le_floor]

theorem round_le_round (h : x ≤ y) : round x ≤ round y :=
  le_round_iff.2 (by have := round_le_add_half x; linarith)

theorem round_div_eq_roundHalfUp (a : ℕ) (hb : 0 < b) : round ((a : ℚ) / b) = roundHalfUp a b := by
  have hb' : (0 : ℚ) < b := Nat.cast_pos.2 hb
  have hdiv := Nat.div_add_mod a b
  have hmod := Nat.mod_lt a hb
  unfold roundHalfUp
  generalize a / b = q at hdiv ⊢
  generalize a % b = r at hdiv hmod ⊢
  have hdiv' : (b : ℚ) * q + r = a := by exact_mod_cast hdiv
  have hmod' : (r : ℚ) < b := Nat.cast_lt.2 hmod
  have hr : (0 : ℚ) ≤ r := Nat.cast_nonneg r
  rw [round_eq_iff, Set.mem_Ico, le_div_iff₀ hb', div_lt_iff₀ hb']
  split
  · next hlow =>
    have hlow' : (2 : ℚ) * r < b := by exact_mod_cast hlow
    push_cast
    constructor <;> linarith
  · next hhigh =>
    have hhigh' : (b : ℚ) ≤ 2 * r := by exact_mod_cast Nat.not_lt.1 hhigh
    push_cast
    constructor <;> linarith

/-- Whether `n` is the whole number nearest to `v`, of two the even one. -/
structure NearestEven (v : ℚ) (n : ℤ) : Prop where
  near : |v - n| ≤ 1 / 2
  even : |v - n| = 1 / 2 → Even n

namespace NearestEven

theorem low (h : NearestEven v n) : n - 1 / 2 ≤ v := by
  have := (abs_le.1 h.near).1
  linarith

theorem high (h : NearestEven v n) : v ≤ n + 1 / 2 := by
  have := (abs_le.1 h.near).2
  linarith

theorem of_lt (h : |v - n| < 1 / 2) : NearestEven v n := ⟨h.le, fun heq => absurd heq h.ne⟩

theorem intCast (n : ℤ) : NearestEven n n := .of_lt (by rw [sub_self, abs_zero]; norm_num)

theorem neg (h : NearestEven v n) : NearestEven (-v) (-n) := by
  have habs : |-v - ((-n : ℤ) : ℚ)| = |v - n| := by
    rw [Int.cast_neg, neg_sub_neg, abs_sub_comm]
  exact ⟨habs ▸ h.near, fun heq => (h.even (habs ▸ heq)).neg⟩

/-- Half-way numbers are rounded to even ones. -/
theorem even_of_half (h : NearestEven v n) (hhalf : v = n - 1 / 2 ∨ v = n + 1 / 2) : Even n := by
  refine h.even ?_
  obtain rfl | rfl := hhalf
  · rw [sub_sub_cancel_left, abs_neg, abs_of_pos one_half_pos]
  · rw [add_sub_cancel_left, abs_of_pos one_half_pos]

/-- A greater number does not round to a lesser one. -/
theorem le (hm : NearestEven v m) (hn : NearestEven w n) (h : v ≤ w) : m ≤ n := by
  by_contra hlt
  have hstep : (n : ℚ) + 1 ≤ m := by exact_mod_cast Int.not_le.1 hlt
  have hlow := hm.low
  have hhigh := hn.high
  -- both lie half-way between two whole numbers on end, and those are not both even
  have hm' := hm.even_of_half (.inl (by linarith))
  have hn' := hn.even_of_half (.inr (by linarith))
  have hmn : m = n + 1 := by
    have : (m : ℚ) = n + 1 := by linarith
    exact_mod_cast this
  rw [hmn, Int.even_add_one] at hm'
  exact hm' hn'

/-- **There is one nearest whole number.** -/
theorem unique (hm : NearestEven v m) (hn : NearestEven v n) : m = n :=
  (hm.le hn le_rfl).antisymm (hn.le hm le_rfl)

theorem of_intCast (h : NearestEven (m : ℚ) n) : n = m := h.unique (.intCast m)

end NearestEven

theorem nearestEven_roundHalfEven (a : ℕ) (hb : 0 < b) :
    NearestEven ((a : ℚ) / b) (roundHalfEven a b : ℕ) := by
  have hb' : (0 : ℚ) < b := Nat.cast_pos.2 hb
  have hdiv := Nat.div_add_mod a b
  have hmod := Nat.mod_lt a hb
  unfold roundHalfEven
  generalize a / b = q at hdiv ⊢
  generalize a % b = r at hdiv hmod ⊢
  have hquotient : (a : ℚ) / b = q + r / b := by
    rw [← hdiv]
    push_cast
    field_simp
  have hmod' : (r : ℚ) / b < 1 := (div_lt_one hb').2 (Nat.cast_lt.2 hmod)
  have hr : (0 : ℚ) ≤ r / b := div_nonneg (Nat.cast_nonneg r) hb'.le
  have hhalf : (r : ℚ) / b < 1 / 2 ↔ 2 * r < b := by
    rw [div_lt_div_iff₀ hb' two_pos, one_mul]
    exact_mod_cast (by rw [Nat.mul_comm] : r * 2 < b ↔ 2 * r < b)
  have hhalf' : 1 / 2 < (r : ℚ) / b ↔ b < 2 * r := by
    rw [div_lt_div_iff₀ two_pos hb', one_mul]
    exact_mod_cast (by rw [Nat.mul_comm] : b < r * 2 ↔ b < 2 * r)
  rw [hquotient]
  generalize (r : ℚ) / b = t at hmod' hr hhalf hhalf'
  dsimp only
  split
  · next hlow =>
    refine .of_lt (abs_lt.2 ⟨?_, ?_⟩) <;> push_cast <;> linarith [hhalf.2 hlow]
  · next hlow =>
    split
    · next hhigh =>
      refine .of_lt (abs_lt.2 ⟨?_, ?_⟩) <;> push_cast <;> linarith [hhalf'.2 hhigh]
    · next hhigh =>
      have ht : t = 1 / 2 := by
        have := mt hhalf.1 hlow
        have := mt hhalf'.1 hhigh
        linarith
      obtain heven | hodd := Nat.mod_two_eq_zero_or_one q
      · rw [ht, heven, Nat.add_zero]
        refine ⟨?_, fun _ => (Nat.even_iff.2 heven).natCast⟩
        rw [Int.cast_natCast, add_sub_cancel_left, abs_of_pos one_half_pos]
      · rw [ht, hodd]
        refine ⟨?_, fun _ => (Nat.odd_iff.2 hodd).add_one.natCast⟩
        push_cast
        rw [add_sub_add_left_eq_sub]
        norm_num

end Nearest

namespace Floating

variable {f : FloatFormat} {x y : Floating f} {s : ℕ} {e : ℤ}

/-! ## Powers of two -/

theorem two_zpow_of_nonneg (h : 0 ≤ e) : (2 : ℚ) ^ e = ((2 ^ e.toNat : ℕ) : ℚ) := by
  rw [Nat.cast_pow, Nat.cast_ofNat, ← zpow_natCast, Int.toNat_of_nonneg h]

theorem two_zpow_of_nonpos (h : e ≤ 0) : (2 : ℚ) ^ e = 1 / ((2 ^ (-e).toNat : ℕ) : ℚ) := by
  rw [← two_zpow_of_nonneg (by omega), zpow_neg, one_div, inv_inv]

/-- The quotient that stands for `s * 2 ^ e`. -/
theorem ratio_eq (s : ℕ) (e : ℤ) : ((ratio s e).1 : ℚ) / (ratio s e).2 = s * 2 ^ e := by
  unfold ratio
  split
  · next h =>
    rw [two_zpow_of_nonneg h, Nat.shiftLeft_eq]
    push_cast
    rw [div_one]
  · next h =>
    rw [two_zpow_of_nonpos (by omega), Nat.shiftLeft_eq, Nat.one_mul, mul_one_div]

theorem ratio_pos (s : ℕ) (e : ℤ) : 0 < (ratio s e).2 := by
  unfold ratio
  split
  · exact Nat.one_pos
  · rw [Nat.shiftLeft_eq, Nat.one_mul]
    exact Nat.two_pow_pos _

/-! ## Values -/

/-- The exact value of a finite number; others have none, and zero stands for it. -/
def value (x : Floating f) : ℚ :=
  match x.parts with
  | .finite s e => (if x.negative then -1 else 1) * (s * 2 ^ e)
  | _ => 0

theorem value_of_parts (h : x.parts = .finite s e) :
    x.value = (if x.negative then -1 else 1) * (s * 2 ^ e) := by
  rw [value, h]

theorem value_of_parts_nonneg (h : x.parts = .finite s e) (hx : x.negative = false) :
    x.value = s * 2 ^ e := by
  rw [value_of_parts h, hx, if_neg Bool.false_ne_true, one_mul]

/-- A finite number is a significand and an exponent.  Only at the least exponent the significand
may lack the leading bit. -/
theorem exists_parts (h : x.isFinite = true) : ∃ s e, x.parts = .finite s e ∧ f.minExponent ≤ e ∧
    s < 2 * f.leadingBit ∧ (e = f.minExponent ∨ f.leadingBit ≤ s) ∧
    x.magnitude = (e - f.minExponent).toNat * f.leadingBit + s := by
  have hfinite : x.magnitude < f.infinityPattern := of_decide_eq_true h
  have hpos := f.leadingBit_pos
  have hdiv := Nat.div_add_mod x.magnitude f.leadingBit
  have hmod := Nat.mod_lt x.magnitude hpos
  unfold parts
  simp only [if_neg (Nat.not_lt.2 hfinite.le), if_neg hfinite.ne]
  generalize x.magnitude / f.leadingBit = stored at *
  generalize x.magnitude % f.leadingBit = fraction at *
  split
  · next hzero =>
    refine ⟨fraction, f.minExponent, rfl, le_rfl, by omega, .inl rfl, ?_⟩
    rw [← hdiv, hzero, Int.sub_self]
    simp
  · next hstored =>
    refine ⟨_, _, rfl, by omega, by omega, .inr (Nat.le_add_right _ _), ?_⟩
    obtain ⟨k, rfl⟩ := Nat.exists_eq_succ_of_ne_zero hstored
    have hexponent : (f.minExponent + ((k + 1 - 1 : ℕ) : ℤ) - f.minExponent).toNat = k := by omega
    rw [hexponent, ← hdiv, Nat.mul_succ, Nat.mul_comm, Nat.add_assoc]

/-- The value that a pattern stands for, `m` being a significand, with a leading bit or not, or one
too great by one unit. -/
theorem value_of_magnitude {k m : ℕ} (hx : x.negative = false) (hfinite : x.isFinite = true)
    (hmagnitude : x.magnitude = k * f.leadingBit + m) (hm : m ≤ 2 * f.leadingBit)
    (hk : k = 0 ∨ f.leadingBit ≤ m) : x.value = m * 2 ^ (f.minExponent + k) := by
  obtain ⟨s, e, hparts, he, hs, hlead, hpattern⟩ := exists_parts hfinite
  rw [hmagnitude] at hpattern
  have hpos := f.leadingBit_pos
  rw [value_of_parts_nonneg hparts hx]
  obtain ⟨j, rfl⟩ : ∃ j : ℕ, e = f.minExponent + j := ⟨(e - f.minExponent).toNat, by omega⟩
  have hj : (f.minExponent + (j : ℤ) - f.minExponent).toNat = j := by omega
  have hlead' : j = 0 ∨ f.leadingBit ≤ s := by omega
  rw [hj] at hpattern
  generalize f.leadingBit = l at *
  obtain hlt | rfl := hm.lt_or_eq
  · -- both are quotient and remainder, counted from the leading bit
    have hjk : j = k := by
      obtain hlt' | heq | hgt := lt_trichotomy j k
      · obtain ⟨t, rfl⟩ := Nat.exists_eq_add_of_lt hlt'
        have hexpand : (j + t + 1) * l = j * l + t * l + l := by ring
        omega
      · exact heq
      · obtain ⟨t, rfl⟩ := Nat.exists_eq_add_of_lt hgt
        have hexpand : (k + t + 1) * l = k * l + t * l + l := by ring
        omega
    subst hjk
    rw [show s = m by omega]
  · have hjk : j = k + 1 ∧ s = l := by
      have hsucc : (k + 1) * l = k * l + l := by ring
      obtain hlt' | heq | hgt := lt_trichotomy j (k + 1)
      · obtain ⟨t, ht⟩ := Nat.exists_eq_add_of_lt hlt'
        have hexpand : k * l = j * l + t * l := by rw [← Nat.add_mul]; congr 1; omega
        omega
      · subst heq
        omega
      · obtain ⟨t, rfl⟩ := Nat.exists_eq_add_of_lt hgt
        have hexpand : (k + 1 + t + 1) * l = k * l + t * l + 2 * l := by ring
        have : s = 0 := by omega
        omega
    obtain ⟨rfl, rfl⟩ := hjk
    rw [Nat.cast_succ, ← add_assoc, zpow_add_one₀ two_ne_zero]
    push_cast
    ring

theorem value_nonneg (hx : x.negative = false) : 0 ≤ x.value := by
  unfold value
  split
  · rw [hx, if_neg Bool.false_ne_true, one_mul]
    positivity
  · exact le_rfl

/-- Whether a number is finite and has no minus sign. -/
structure Unsigned (x : Floating f) : Prop where
  negative : x.negative = false
  finite : x.isFinite = true

theorem value_lt_of_magnitude_lt (hx : x.Unsigned) (hy : y.Unsigned)
    (h : x.magnitude < y.magnitude) : x.value < y.value := by
  obtain ⟨s, e, hparts, he, hs, hlead, hpattern⟩ := exists_parts hx.finite
  obtain ⟨s', e', hparts', he', hs', hlead', hpattern'⟩ := exists_parts hy.finite
  rw [value_of_parts_nonneg hparts hx.negative, value_of_parts_nonneg hparts' hy.negative]
  rw [hpattern, hpattern'] at h
  obtain ⟨j, rfl⟩ : ∃ j : ℕ, e = f.minExponent + j := ⟨(e - f.minExponent).toNat, by omega⟩
  obtain ⟨k, rfl⟩ : ∃ k : ℕ, e' = f.minExponent + k := ⟨(e' - f.minExponent).toNat, by omega⟩
  simp only [add_sub_cancel_left, Int.toNat_natCast] at h
  obtain hjk | rfl | hkj := lt_trichotomy j k
  · -- a greater exponent makes up for any significand
    have hstep : (2 : ℚ) ^ (f.minExponent + j) * 2 ≤ 2 ^ (f.minExponent + k) := by
      rw [← zpow_add_one₀ two_ne_zero]
      exact zpow_le_zpow_right₀ one_le_two (by omega)
    have hlead2 : (f.leadingBit : ℚ) ≤ s' := by
      exact_mod_cast (show f.leadingBit ≤ s' by omega)
    have hs2 : (s : ℚ) < 2 * f.leadingBit := by exact_mod_cast hs
    have hpos : (0 : ℚ) < 2 ^ (f.minExponent + j) := zpow_pos two_pos _
    calc (s : ℚ) * 2 ^ (f.minExponent + j)
        < 2 * f.leadingBit * 2 ^ (f.minExponent + j) := mul_lt_mul_of_pos_right hs2 hpos
      _ = f.leadingBit * (2 ^ (f.minExponent + j) * 2) := by ring
      _ ≤ s' * 2 ^ (f.minExponent + k) := mul_le_mul hlead2 hstep (by positivity) (by positivity)
  · have hlt : (s : ℚ) < s' := by exact_mod_cast Nat.lt_of_add_lt_add_left h
    exact mul_lt_mul_of_pos_right hlt (zpow_pos two_pos _)
  · obtain ⟨t, rfl⟩ := Nat.exists_eq_add_of_lt hkj
    have hexpand : (k + t + 1) * f.leadingBit = k * f.leadingBit + t * f.leadingBit +
      f.leadingBit := by ring
    omega

theorem value_lt_value_iff (hx : x.Unsigned) (hy : y.Unsigned) :
    x.value < y.value ↔ x.magnitude < y.magnitude := by
  refine ⟨fun h => ?_, value_lt_of_magnitude_lt hx hy⟩
  by_contra hle
  obtain hlt | heq := (Nat.not_lt.1 hle).lt_or_eq
  · exact lt_asymm h (value_lt_of_magnitude_lt hy hx hlt)
  · rw [ext (hx.negative.trans hy.negative.symm) heq.symm] at h
    exact lt_irrefl _ h

theorem isNaN_eq_false (h : x.isFinite = true) : x.isNaN = false :=
  decide_eq_false (Nat.not_lt.2 (of_decide_eq_true h).le)

/-- The order of the patterns is that of the values. -/
theorem le_iff_value_le (hx : x.Unsigned) (hy : y.Unsigned) :
    x.le y = true ↔ x.value ≤ y.value := by
  rw [← not_lt, value_lt_value_iff hy hx, Nat.not_lt, le, isNaN_eq_false hx.finite,
    isNaN_eq_false hy.finite, rank, rank, hx.negative, hy.negative]
  simp

/-! ## The ends of the order -/

theorem magnitude_le (h : x.isNaN = false) : x.magnitude ≤ f.infinityPattern :=
  Nat.not_lt.1 (of_decide_eq_false h)

theorem parts_ne_notANumber (h : x.isNaN = false) : x.parts ≠ .notANumber := by
  intro hparts
  unfold parts at hparts
  rw [if_neg (Nat.not_lt.2 (magnitude_le h))] at hparts
  split at hparts
  · cases hparts
  · split at hparts <;> cases hparts

theorem isNaN_infinity (f : FloatFormat) (negative : Bool) : (infinity f negative).isNaN = false :=
  decide_eq_false (Nat.lt_irrefl _)

theorem le_infinity (h : x.isNaN = false) : x.le (infinity f false) = true := by
  have hmagnitude := magnitude_le h
  have hrank : x.rank ≤ (infinity f false).rank := by
    change (if x.negative then -(x.magnitude : ℤ) else x.magnitude) ≤ (f.infinityPattern : ℤ)
    split <;> omega
  rw [le, h, isNaN_infinity, decide_eq_true hrank]
  rfl

/-- Only infinity reaches infinity. -/
theorem infinity_le_iff : (infinity f false).le x = true ↔ x = infinity f false := by
  constructor
  · intro h
    simp only [le, Bool.and_eq_true, Bool.not_eq_true', decide_eq_true_eq] at h
    obtain ⟨⟨-, hnan⟩, hrank⟩ := h
    have hmagnitude := magnitude_le hnan
    have hpos : 0 < f.infinityPattern := by cases f <;> decide
    change (f.infinityPattern : ℤ) ≤ if x.negative then -(x.magnitude : ℤ) else x.magnitude at hrank
    split at hrank
    · omega
    · next hsign =>
      exact ext (Bool.eq_false_iff.2 hsign) (hmagnitude.antisymm (Int.ofNat_le.1 hrank))
  · rintro rfl
    exact le_infinity (isNaN_infinity f false)

end Floating

end MessageScript
