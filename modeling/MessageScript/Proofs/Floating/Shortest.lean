import MessageScript.Proofs.Floating.PlainNumeral
import MessageScript.Proofs.Floating.Nearest

/-!
# Shortest decimals

The decimals that round to a number lie between the halves of the gaps around it (`RoundsTo`).  The
shortest lies on the first decimal grid, from one digit up, that has such a point at all; for a
normal double there is one with at most seventeen digits.

    gridPoint? f s e t = some m → RoundsTo f s e (m * 10 ^ t)                      (gridPoint?_spec)
    shortest f s e = (d, top - (i + 1)), and no coarser grid has a point             (shortest_spec)
    x.IsNearest v → x.parts = .finite s e → … → RoundsTo f s e v                (IsNearest.roundsTo)
    RoundsTo .double s e (a * 10 ^ t) → 2 ^ e < 10 ^ t → d * 10 ^ … = a * 10 ^ t
                                                                              (IsShortest.eq_of_fit)
    x.positional = n.text, where n is the shortest decimal of x                  (exists_isShortest)
-/

namespace MessageScript.Floating

open Text

variable {f : FloatFormat} {s n d m i : ℕ} {e t : ℤ} {v w : ℚ}

/-! ## Quotients -/

/-- The number that a quotient stands for. -/
def quotientValue (a : ℕ × ℕ) : ℚ := (a.1 : ℚ) / a.2

theorem ratioLt_iff {a b : ℕ × ℕ} (ha : 0 < a.2) (hb : 0 < b.2) :
    ratioLt a b = true ↔ quotientValue a < quotientValue b := by
  unfold ratioLt quotientValue
  rw [decide_eq_true_iff, div_lt_div_iff₀ (Nat.cast_pos.2 ha) (Nat.cast_pos.2 hb)]
  exact_mod_cast Iff.rfl

theorem quotientValue_ratio (s : ℕ) (e : ℤ) : quotientValue (ratio s e) = s * 2 ^ e := ratio_eq s e

theorem decimalRatio_spec (d : ℕ) (e : ℤ) :
    0 < (decimalRatio d e).2 ∧ quotientValue (decimalRatio d e) = d * 10 ^ e := by
  unfold decimalRatio quotientValue
  split
  · next h =>
    refine ⟨Nat.one_pos, ?_⟩
    rw [Nat.cast_one, div_one, Nat.cast_mul, powerOfTen_cast, ← zpow_natCast,
      Int.toNat_of_nonneg h]
  · next h =>
    refine ⟨powerOfTen_pos _, ?_⟩
    rw [powerOfTen_cast, div_eq_mul_inv, ← zpow_natCast, ← zpow_neg,
      Int.toNat_of_nonneg (by omega), neg_neg]

/-! ## What rounds to a number -/

/-- The half of the gap below `s * 2 ^ e`. -/
def lowEnd (f : FloatFormat) (s : ℕ) (e : ℤ) : ℚ :=
  (4 * s - (if s = f.leadingBit then 1 else 2) : ℕ) * 2 ^ (e - 2)

/-- The half of the gap above `s * 2 ^ e`. -/
def highEnd (s : ℕ) (e : ℤ) : ℚ := (4 * s + 2 : ℕ) * 2 ^ (e - 2)

/-- Whether a number rounds to `s * 2 ^ e`: it lies between the halves of the gaps around that, and
on one of them only if `s` is even. -/
structure RoundsTo (f : FloatFormat) (s : ℕ) (e : ℤ) (v : ℚ) : Prop where
  low : lowEnd f s e ≤ v
  high : v ≤ highEnd s e
  strict : s % 2 ≠ 0 → lowEnd f s e < v ∧ v < highEnd s e

theorem roundsTo_iff {a : ℕ × ℕ} (ha : 0 < a.2) :
    roundsTo f s e a = true ↔ RoundsTo f s e (quotientValue a) := by
  have hlow := ratioLt_iff (a := a)
    (b := ratio (4 * s - (if s = f.leadingBit then 1 else 2)) (e - 2)) ha (ratio_pos _ _)
  have hlow' := ratioLt_iff (b := a)
    (ratio_pos (4 * s - (if s = f.leadingBit then 1 else 2)) (e - 2)) ha
  have hhigh := ratioLt_iff (a := a) ha (ratio_pos (4 * s + 2) (e - 2))
  have hhigh' := ratioLt_iff (b := a) (ratio_pos (4 * s + 2) (e - 2)) ha
  rw [quotientValue_ratio] at hlow hlow' hhigh hhigh'
  unfold roundsTo
  simp only
  split
  · next heven =>
    rw [Bool.and_eq_true, Bool.not_eq_true', Bool.not_eq_true', Bool.eq_false_iff,
      Bool.eq_false_iff, ne_eq, ne_eq, hlow, hhigh', not_lt, not_lt]
    exact ⟨fun h => ⟨h.1, h.2, fun hodd => absurd heven hodd⟩, fun h => ⟨h.low, h.high⟩⟩
  · next hodd =>
    rw [Bool.and_eq_true, hlow', hhigh]
    exact ⟨fun h => ⟨h.1.le, h.2.le, fun _ => h⟩, fun h => h.strict hodd⟩

/-- What lies between numbers that round to it rounds to it. -/
theorem RoundsTo.of_between {u : ℚ} (hv : RoundsTo f s e v) (hu : RoundsTo f s e u) (hvw : v ≤ w)
    (hwu : w ≤ u) : RoundsTo f s e w where
  low := hv.low.trans hvw
  high := hwu.trans hu.high
  strict := fun hodd => ⟨(hv.strict hodd).1.trans_le hvw, hwu.trans_lt (hu.strict hodd).2⟩

theorem scale_quarter (s : ℕ) (e : ℤ) : (s : ℚ) * 2 ^ e = (4 * s : ℕ) * 2 ^ (e - 2) := by
  rw [zpow_sub₀ two_ne_zero]
  push_cast
  field_simp

theorem lowEnd_lt (hs : 0 < s) : lowEnd f s e < s * 2 ^ e := by
  rw [scale_quarter, lowEnd]
  refine mul_lt_mul_of_pos_right (Nat.cast_lt.2 ?_) (zpow_pos two_pos _)
  split <;> omega

theorem lt_highEnd : (s : ℚ) * 2 ^ e < highEnd s e := by
  rw [scale_quarter, highEnd]
  exact mul_lt_mul_of_pos_right (Nat.cast_lt.2 (by omega)) (zpow_pos two_pos _)

theorem RoundsTo.self (hs : 0 < s) : RoundsTo f s e (s * 2 ^ e) :=
  ⟨(lowEnd_lt hs).le, lt_highEnd.le, fun _ => ⟨lowEnd_lt hs, lt_highEnd⟩⟩

/-! ## Grids -/

/-- A number in units of a grid, as a quotient. -/
theorem exists_scaled (s : ℕ) (e t : ℤ) : ∃ n d : ℕ, 0 < d ∧
    (if 0 ≤ t then ((ratio s e).1, (ratio s e).2 * powerOfTen t.toNat)
      else ((ratio s e).1 * powerOfTen (-t).toNat, (ratio s e).2)) = (n, d) ∧
    (n : ℚ) / d = s * 2 ^ e / 10 ^ t := by
  split
  · next h =>
    refine ⟨_, _, Nat.mul_pos (ratio_pos s e) (powerOfTen_pos _), rfl, ?_⟩
    rw [Nat.cast_mul, powerOfTen_cast, ← div_div, ratio_eq, ← zpow_natCast, Int.toNat_of_nonneg h]
  · next h =>
    refine ⟨_, _, ratio_pos s e, rfl, ?_⟩
    rw [Nat.cast_mul, powerOfTen_cast, mul_div_right_comm, ratio_eq, ← zpow_natCast,
      Int.toNat_of_nonneg (by omega), zpow_neg, div_eq_mul_inv]

/-- The point of a grid that is found rounds to the number; if none is found, there is none. -/
theorem gridPoint?_spec (hs : 0 < s) (t : ℤ) :
    (∀ m, gridPoint? f s e t = some m → RoundsTo f s e (m * 10 ^ t)) ∧
    (gridPoint? f s e t = none → ∀ m : ℕ, ¬ RoundsTo f s e (m * 10 ^ t)) := by
  have hfits : ∀ m, roundsTo f s e (decimalRatio m t) = true ↔ RoundsTo f s e (m * 10 ^ t) := by
    intro m
    obtain ⟨hpos, hvalue⟩ := decimalRatio_spec m t
    rw [roundsTo_iff hpos, hvalue]
  obtain ⟨n, d, hd, hscaled, hquotient⟩ := exists_scaled s e t
  have ht : (0 : ℚ) < 10 ^ t := zpow_pos (by norm_num) t
  have hd' : (0 : ℚ) < d := Nat.cast_pos.2 hd
  -- the points next to the number
  have hbelow : ((n / d : ℕ) : ℚ) * 10 ^ t ≤ s * 2 ^ e := by
    rw [← le_div_iff₀ ht, ← hquotient, le_div_iff₀ hd']
    exact_mod_cast Nat.div_mul_le_self n d
  have habove : (s : ℚ) * 2 ^ e < ((n / d + 1 : ℕ) : ℚ) * 10 ^ t := by
    rw [← div_lt_iff₀ ht, ← hquotient, div_lt_iff₀ hd']
    exact_mod_cast Nat.lt_mul_of_div_lt (Nat.lt_succ_self (n / d)) hd
  unfold gridPoint?
  simp only [hscaled]
  constructor
  · intro m hm
    split at hm
    · next hchosen =>
      cases hm
      exact (hfits _).1 (Bool.and_eq_true_iff.1 hchosen).1
    · split at hm
      · next hchosen =>
        cases hm
        exact (hfits _).1 hchosen
      · cases hm
  · intro hnone m hm
    split at hnone
    · cases hnone
    · next hnot =>
      split at hnone
      · cases hnone
      · next hnotbelow =>
        have hnotabove : ¬ roundsTo f s e (decimalRatio (n / d + 1) t) = true := by
          intro hfit
          refine hnot ?_
          rw [hfit, Bool.eq_false_iff.2 hnotbelow, Bool.not_false, Bool.or_true, Bool.and_true]
        obtain hle | hlt := Nat.lt_or_ge (n / d) m
        · refine hnotabove ((hfits _).2 ((RoundsTo.self hs).of_between hm habove.le ?_))
          exact mul_le_mul_of_nonneg_right (Nat.cast_le.2 hle) ht.le
        · refine hnotbelow ((hfits _).2 (hm.of_between (RoundsTo.self hs) ?_ hbelow))
          exact mul_le_mul_of_nonneg_right (Nat.cast_le.2 hlt) ht.le

/-- The least power of ten above a quotient. -/
theorem decimalTop_spec {a b : ℕ} (ha : 0 < a) (hb : 0 < b) :
    (10 : ℚ) ^ (decimalTop a b - 1) ≤ a / b ∧ (a : ℚ) / b < 10 ^ decimalTop a b := by
  have ha' : (0 : ℚ) < a := Nat.cast_pos.2 ha
  have hb' : (0 : ℚ) < b := Nat.cast_pos.2 hb
  unfold decimalTop
  split
  · next hle =>
    obtain ⟨k, hlength, hlow, hhigh⟩ := exists_length_digits (Nat.div_pos hle hb)
    have hlength' : (Nat.toDigits 10 (a / b)).length = k + 1 := hlength
    have hlow' := (Nat.le_div_iff_mul_le hb).1 hlow
    have hhigh' := (Nat.div_lt_iff_lt_mul hb).1 hhigh
    rw [hlength', Nat.cast_succ, add_sub_cancel_right, zpow_natCast, ← Nat.cast_succ, zpow_natCast,
      ← powerOfTen_cast, ← powerOfTen_cast, le_div_iff₀ hb', div_lt_iff₀ hb']
    exact ⟨by exact_mod_cast hlow', by exact_mod_cast hhigh'⟩
  · next hlt =>
    have hle : a ≤ b - 1 := by omega
    obtain ⟨k, hlength, hlow, hhigh⟩ := exists_length_digits (Nat.div_pos hle ha)
    have hlength' : (Nat.toDigits 10 ((b - 1) / a)).length = k + 1 := hlength
    have hlow' := (Nat.le_div_iff_mul_le ha).1 hlow
    have hhigh' := (Nat.div_lt_iff_lt_mul ha).1 hhigh
    have hleast : ((powerOfTen k * a : ℕ) : ℚ) < b := by exact_mod_cast (by omega)
    have hmost : (b : ℚ) ≤ ((powerOfTen (k + 1) * a : ℕ) : ℚ) := by exact_mod_cast (by omega)
    push_cast [powerOfTen_cast] at hleast hmost
    rw [hlength', Nat.cast_succ, show (1 : ℤ) - (k + 1) - 1 = -((k + 1 : ℕ) : ℤ) by push_cast; ring,
      show (1 : ℤ) - (k + 1) = -(k : ℤ) by ring, zpow_neg, zpow_neg, zpow_natCast, zpow_natCast,
      inv_eq_one_div, inv_eq_one_div, div_le_div_iff₀ (by positivity) hb',
      div_lt_div_iff₀ hb' (by positivity)]
    constructor <;> linarith

/-- The first of the numbers below `n` that has a result, or none has. -/
theorem findSome?_range {β : Type} (g : ℕ → Option β) (n : ℕ) :
    (∃ i < n, ∃ b, g i = some b ∧ (List.range n).findSome? g = some b ∧ ∀ j < i, g j = none) ∨
      (List.range n).findSome? g = none ∧ ∀ j < n, g j = none := by
  induction n with
  | zero => exact .inr ⟨rfl, fun j hj => absurd hj (Nat.not_lt_zero j)⟩
  | succ n ih =>
    rw [List.range_succ, List.findSome?_append]
    obtain ⟨i, hi, b, hb, hfind, hnone⟩ | ⟨hfind, hnone⟩ := ih
    · rw [hfind]
      exact .inl ⟨i, Nat.lt_succ_of_lt hi, b, hb, rfl, hnone⟩
    · rw [hfind, Option.none_or]
      cases hb : g n with
      | none =>
        refine .inr ⟨by rw [List.findSome?_singleton, hb], fun j hj => ?_⟩
        obtain hlt | rfl := (Nat.lt_succ_iff.1 hj).lt_or_eq
        · exact hnone j hlt
        · exact hb
      | some b => exact .inl ⟨n, n.lt_succ_self, b, hb, by rw [List.findSome?_singleton, hb], hnone⟩

/-- **The shortest decimal**: it lies on the first grid that has a point that rounds to the number,
if one of seventeen has. -/
theorem shortest_spec (hs : 0 < s) {top : ℤ} (htop : decimalTop (ratio s e).1 (ratio s e).2 = top)
    (hfits : ∃ i < 17, ∃ m : ℕ, RoundsTo f s e (m * 10 ^ (top - (i + 1 : ℕ)))) :
    ∃ i < 17, ∃ d : ℕ, shortest f s e = (d, top - (i + 1 : ℕ)) ∧
      RoundsTo f s e (d * 10 ^ (top - (i + 1 : ℕ))) ∧
      ∀ j < i, ∀ m : ℕ, ¬ RoundsTo f s e (m * 10 ^ (top - (j + 1 : ℕ))) := by
  have hshortest : shortest f s e = ((List.range 17).findSome? fun k =>
      (gridPoint? f s e (top - (k + 1 : ℕ))).map (·, top - (k + 1 : ℕ))).getD (0, 0) := by
    unfold shortest
    simp only [htop, List.findSome?_map]
    rfl
  have hgrid := fun k : ℕ => gridPoint?_spec (f := f) (e := e) hs (top - (k + 1 : ℕ))
  obtain ⟨i, hi, b, hb, hfind, hnone⟩ | ⟨-, hnone⟩ := findSome?_range (fun k =>
      (gridPoint? f s e (top - (k + 1 : ℕ))).map (·, top - (k + 1 : ℕ))) 17
  · obtain ⟨d, hd, rfl⟩ := Option.map_eq_some_iff.1 hb
    rw [hfind] at hshortest
    exact ⟨i, hi, d, hshortest, (hgrid i).1 d hd,
      fun j hj => (hgrid j).2 (Option.map_eq_none_iff.1 (hnone j hj))⟩
  · obtain ⟨i, hi, m, hm⟩ := hfits
    exact absurd hm ((hgrid i).2 (Option.map_eq_none_iff.1 (hnone i hi)) m)

/-! ## Normal numbers -/

theorem leadingBit_even (f : FloatFormat) : f.leadingBit % 2 = 0 := by
  cases f <;> decide

theorem lowEnd_eq (hs : 0 < s) : lowEnd f s e =
    (s - if s = f.leadingBit then 1 / 4 else 1 / 2) * 2 ^ e := by
  rw [lowEnd, Nat.cast_sub (by split <;> omega), zpow_sub₀ two_ne_zero]
  split
  · push_cast
    field_simp
  · push_cast
    field_simp
    ring

theorem highEnd_eq : highEnd s e = (s + 1 / 2) * 2 ^ e := by
  rw [highEnd, zpow_sub₀ two_ne_zero]
  push_cast
  field_simp
  ring

/-- **A grid with seventeen digits of a double has a point that rounds to it**: it is finer than the
gaps around the double are wide. -/
theorem exists_fit (hlead : FloatFormat.leadingBit .double ≤ s)
    (hs : s < 2 * FloatFormat.leadingBit .double) (htop : (10 : ℚ) ^ (t - 1) ≤ s * 2 ^ e) :
    ∃ m : ℕ, RoundsTo .double s e (m * 10 ^ (t - 17)) := by
  have hpos : 0 < s := (by decide : 0 < FloatFormat.leadingBit .double).trans_le hlead
  have hgrid : (0 : ℚ) < 10 ^ (t - 17) := zpow_pos (by norm_num) _
  have hunit : (0 : ℚ) < 2 ^ e := zpow_pos two_pos e
  -- the points below and above
  have hbelow : ((⌊(s : ℚ) * 2 ^ e / 10 ^ (t - 17)⌋₊ : ℕ) : ℚ) * 10 ^ (t - 17) ≤ s * 2 ^ e := by
    rw [← le_div_iff₀ hgrid]
    exact Nat.floor_le (by positivity)
  have habove : (s : ℚ) * 2 ^ e <
      ((⌊(s : ℚ) * 2 ^ e / 10 ^ (t - 17)⌋₊ + 1 : ℕ) : ℚ) * 10 ^ (t - 17) := by
    rw [← div_lt_iff₀ hgrid]
    exact_mod_cast Nat.lt_floor_add_one _
  generalize ⌊(s : ℚ) * 2 ^ e / 10 ^ (t - 17)⌋₊ = b at hbelow habove
  have hpower : (10 : ℚ) ^ (t - 1) = 10 ^ (t - 17) * 10 ^ 16 := by
    rw [← zpow_natCast, ← zpow_add₀ (by norm_num)]
    congr 1
    ring
  rw [hpower] at htop
  have hself := lt_highEnd (s := s) (e := e)
  have hself' := lowEnd_lt (f := .double) (e := e) hpos
  push_cast at habove
  by_contra hnone
  rw [not_exists] at hnone
  -- a point inside the gap would round to the number
  have hlow : (b : ℚ) * 10 ^ (t - 17) ≤ lowEnd .double s e := by
    refine not_lt.1 fun hlt => hnone b ⟨hlt.le, (hbelow.trans hself.le), fun _ => ⟨hlt, ?_⟩⟩
    exact hbelow.trans_lt hself
  have hhigh : highEnd s e ≤ (b + 1) * 10 ^ (t - 17) := by
    refine not_lt.1 fun hlt => hnone (b + 1) ?_
    push_cast
    exact ⟨hself'.le.trans habove.le, hlt.le, fun _ => ⟨hself'.trans habove, hlt⟩⟩
  rw [lowEnd_eq hpos] at hlow
  rw [highEnd_eq] at hhigh
  by_cases hlead' : s = FloatFormat.leadingBit .double
  · rw [if_pos hlead'] at hlow
    have hvalue : (s : ℚ) = 2 ^ 52 := by
      rw [hlead']
      norm_num [FloatFormat.leadingBit]
    rw [hvalue] at htop hlow hhigh
    linarith
  · rw [if_neg hlead'] at hlow
    have hvalue : (s : ℚ) ≤ 2 ^ 53 := by exact_mod_cast hs.le
    have := mul_le_mul_of_nonneg_right hvalue hunit.le
    linarith

theorem exists_parts_normal {x : Floating f} (hx : x.isFinite = true)
    (hparts : x.parts = .finite s e) (hnormal : f.minExponent < e) :
    ∃ k : ℕ, k ≠ 0 ∧ e = f.minExponent + k ∧ f.leadingBit ≤ s ∧ s < 2 * f.leadingBit := by
  obtain ⟨s', e', hparts', he, hhigh, hlead, -⟩ := exists_parts hx
  rw [hparts] at hparts'
  cases hparts'
  exact ⟨(e - f.minExponent).toNat, by omega, by omega, hlead.resolve_left hnormal.ne', hhigh⟩

/-- A significand with a leading bit, or in the least place, tells its place. -/
theorem units_lt {a b i k : ℕ} (ha : a < 2 * f.leadingBit) (hb : k = 0 ∨ f.leadingBit ≤ b)
    (hik : i < k) : (a : ℚ) * placeUnit f i < b * placeUnit f k := by
  have hunit := placeUnit_pos f i
  have hstep := two_mul_placeUnit_le (f := f) hik
  have ha' : (a : ℚ) < 2 * f.leadingBit := by exact_mod_cast ha
  have hb' : (f.leadingBit : ℚ) ≤ b := by exact_mod_cast hb.resolve_left (by omega)
  calc (a : ℚ) * placeUnit f i < 2 * f.leadingBit * placeUnit f i :=
        mul_lt_mul_of_pos_right ha' hunit
    _ = f.leadingBit * (2 * placeUnit f i) := by ring
    _ ≤ b * placeUnit f k := mul_le_mul hb' hstep (by positivity) (Nat.cast_nonneg b)

theorem units_unique {a b i k : ℕ} (ha : a < 2 * f.leadingBit) (hb : b < 2 * f.leadingBit)
    (ha' : i = 0 ∨ f.leadingBit ≤ a) (hb' : k = 0 ∨ f.leadingBit ≤ b)
    (h : (a : ℚ) * placeUnit f i = b * placeUnit f k) : i = k ∧ a = b := by
  obtain hlt | rfl | hgt := lt_trichotomy i k
  · exact absurd h (units_lt ha hb' hlt).ne
  · exact ⟨rfl, by exact_mod_cast mul_right_cancel₀ (placeUnit_pos f i).ne' h⟩
  · exact absurd h (units_lt hb ha' hgt).ne'

/-- A number that a normal one is nearest to rounds to it. -/
theorem IsNearest.roundsTo {x : Floating f} (hx : x.IsNearest v) (hparts : x.parts = .finite s e)
    (hnormal : f.minExponent < e) : RoundsTo f s e v := by
  obtain ⟨j, hj, rfl, hlead, hhigh⟩ := exists_parts_normal hx.finite hparts hnormal
  obtain ⟨k, m, hk, hm, hvalue⟩ := hx.units
  obtain ⟨hmost, hleast⟩ := hk.units_bounds hm
  have hunit := placeUnit_pos f k
  have hs : 0 < s := f.leadingBit_pos.trans_le hlead
  have hlow : (m - 1 / 2) * placeUnit f k ≤ v := (le_div_iff₀ hunit).1 hm.low
  have hhigh' : v ≤ (m + 1 / 2) * placeUnit f k := (div_le_iff₀ hunit).1 hm.high
  have heven : v = (m - 1 / 2) * placeUnit f k ∨ v = (m + 1 / 2) * placeUnit f k → m % 2 = 0 := by
    intro hhalf
    rw [← div_eq_iff hunit.ne', ← div_eq_iff hunit.ne'] at hhalf
    exact Nat.even_iff.1 ((Int.even_coe_nat m).1 (hm.even_of_half hhalf))
  rw [value_of_parts_nonneg hparts hx.negative, ← placeUnit] at hvalue
  obtain hlt | rfl := hmost.lt_or_eq
  · -- the units of the last place are those of the number
    obtain ⟨rfl, rfl⟩ := units_unique hhigh hlt (.inr hlead) hleast hvalue
    refine ⟨?_, by rwa [highEnd_eq, ← placeUnit], fun hodd => ?_⟩
    · rw [lowEnd_eq hs, ← placeUnit]
      split
      · next hleading =>
        have hreach := hk.low.resolve_left hj
        rw [← hleading] at hreach
        linarith
      · exact hlow
    · have hleading : s ≠ f.leadingBit := by
        rintro rfl
        exact hodd (leadingBit_even f)
      rw [lowEnd_eq hs, if_neg hleading, highEnd_eq, ← placeUnit]
      exact ⟨lt_of_le_of_ne hlow fun h => hodd (heven (.inl h.symm)),
        lt_of_le_of_ne hhigh' fun h => hodd (heven (.inr h))⟩
  · -- the rounding carries into the next place
    have hnext : (s : ℚ) * placeUnit f j = f.leadingBit * placeUnit f (k + 1) := by
      rw [hvalue, placeUnit_succ]
      push_cast
      ring
    have hpos := f.leadingBit_pos
    obtain ⟨rfl, rfl⟩ := units_unique hhigh (by omega) (.inr hlead) (.inr le_rfl) hnext
    refine ⟨?_, ?_, fun hodd => absurd (leadingBit_even f) hodd⟩
    · rw [lowEnd_eq hs, if_pos rfl, ← placeUnit, placeUnit_succ]
      push_cast at hlow
      linarith
    · rw [highEnd_eq, ← placeUnit, placeUnit_succ]
      push_cast at hhigh'
      linarith

/-! ## Texts -/

/-- The digits without the zeros at the end are those of a number in units of the last of them. -/
theorem significantDigits_spec (hd : 0 < d) (t : ℤ) : ∃ (c : ℕ) (j : ℤ), 0 < c ∧
    significantDigits d t = (digits c, j) ∧ (c : ℚ) * 10 ^ j = d * 10 ^ t := by
  obtain ⟨k, hk⟩ := exists_eq_trimZeros_append 1 (digits d)
  have hvalue := congrArg ofDigits hk
  have hlength := congrArg List.length hk
  rw [ofDigits_digits, ofDigits_append, ofDigits_zeros, Nat.add_zero,
    List.length_replicate] at hvalue
  rw [List.length_append, List.length_replicate] at hlength
  generalize hc : ofDigits (trimZeros 1 (digits d)) = c at hvalue
  have hpos : 0 < c := by
    refine Nat.pos_of_ne_zero ?_
    rintro rfl
    rw [Nat.zero_mul] at hvalue
    exact hd.ne' hvalue
  have hkept : trimZeros 1 (digits d) = digits c := by
    refine (List.append_left_inj (List.replicate k '0')).1 ?_
    rw [← hk, hvalue, digits_mul_powerOfTen hpos]
  refine ⟨c, t + k, hpos, ?_, ?_⟩
  · unfold significantDigits
    simp only [hlength, Nat.add_sub_cancel_left, hkept]
  · rw [hvalue, Nat.cast_mul, powerOfTen_cast, zpow_add₀ (by norm_num), zpow_natCast]
    ring

theorem value_ofUnits_powers (c : ℕ) (j : ℤ) :
    (PlainNumeral.ofUnits false (-j).toNat (c * powerOfTen j.toNat)).value = c * 10 ^ j := by
  rw [PlainNumeral.value_ofUnits, if_neg Bool.false_ne_true, one_mul, Nat.cast_mul, powerOfTen_cast,
    powerOfTen_cast, mul_div_assoc]
  congr 1
  obtain ⟨k, rfl | rfl⟩ := j.eq_nat_or_neg
  · rw [Int.toNat_natCast, Int.toNat_eq_zero.2 (by omega), pow_zero, div_one, zpow_natCast]
  · rw [neg_neg, Int.toNat_natCast, Int.toNat_eq_zero.2 (by omega), pow_zero, zpow_neg,
      zpow_natCast, one_div]

/-- **The text of a number is a plain numeral that denotes its shortest decimal.** -/
theorem positional_text {x : Floating f} (hx : x.negative = false) (hparts : x.parts = .finite s e)
    (hs : 0 < s) (hshortest : shortest f s e = (d, t)) (hd : 0 < d) : ∃ n : PlainNumeral,
      n.WellFormed ∧ n.negative = false ∧ n.value = d * 10 ^ t ∧ x.positional = n.text := by
  obtain ⟨c, j, hc, hdigits, hvalue⟩ := significantDigits_spec hd t
  refine ⟨PlainNumeral.ofUnits false (-j).toNat (c * powerOfTen j.toNat),
    PlainNumeral.ofUnits_wellFormed _ _ _, rfl, (value_ofUnits_powers c j).trans hvalue, ?_⟩
  rw [PlainNumeral.text_ofUnits, ← positionalText_digits hc]
  unfold positional shortestText
  rw [hparts]
  simp only [if_neg hs.ne', hshortest, hdigits, signText, hx]

/-! ## Doubles -/

/-- What the shortest decimal `d * 10 ^ (top - (i + 1))` of a double `s * 2 ^ e` is: it rounds to
the double, and no coarser grid below the double has a point that does. -/
structure IsShortest (s : ℕ) (e top : ℤ) (i d : ℕ) : Prop where
  index : i < 17
  least : (10 : ℚ) ^ (top - 1) ≤ s * 2 ^ e
  most : (s : ℚ) * 2 ^ e < 10 ^ top
  rounds : RoundsTo .double s e (d * 10 ^ (top - (i + 1 : ℕ)))
  coarsest : ∀ j < i, ∀ m : ℕ, ¬ RoundsTo .double s e (m * 10 ^ (top - (j + 1 : ℕ)))

theorem RoundsTo.near (hs : 0 < s) (hv : RoundsTo f s e v) : |v - s * 2 ^ e| ≤ 2 ^ e / 2 := by
  have hunit : (0 : ℚ) < 2 ^ e := zpow_pos two_pos e
  have hlow := hv.low
  have hhigh := hv.high
  rw [lowEnd_eq hs] at hlow
  rw [highEnd_eq] at hhigh
  refine abs_le.2 ⟨?_, by linarith⟩
  split at hlow <;> linarith

/-- A number on a grid is one on every finer grid. -/
theorem exists_finer (a : ℕ) {t u : ℤ} (h : u ≤ t) : ∃ b : ℕ, (a : ℚ) * 10 ^ t = b * 10 ^ u := by
  refine ⟨a * 10 ^ (t - u).toNat, ?_⟩
  push_cast
  rw [mul_assoc, ← zpow_natCast, ← zpow_add₀ (by norm_num), Int.toNat_of_nonneg (by omega),
    sub_add_cancel]

/-- **A decimal that rounds to the double, on a grid coarser than the gaps, is the shortest**: the
first grid with a point that does is no finer, and has no other such point. -/
theorem IsShortest.eq_of_fit {top : ℤ} (h : IsShortest s e top i d) (hlead : (2 : ℚ) ^ 52 ≤ s)
    {a : ℕ} (hfit : RoundsTo .double s e (a * 10 ^ t)) (hgap : (2 : ℚ) ^ e < 10 ^ t) :
    (d : ℚ) * 10 ^ (top - (i + 1 : ℕ)) = a * 10 ^ t := by
  have hunit : (0 : ℚ) < 2 ^ e := zpow_pos two_pos e
  have hs : 0 < s := by
    have : (0 : ℚ) < s := by linarith
    exact_mod_cast this
  -- the finer of the grid of the decimal and the coarsest that is tried
  obtain ⟨j, hj⟩ : ∃ j : ℕ, min (top - 1) t = top - (j + 1 : ℕ) :=
    ⟨(top - 1 - min (top - 1) t).toNat, by omega⟩
  obtain ⟨b, hb⟩ := exists_finer a (min_le_right (top - 1) t)
  have hij : i ≤ j := by
    refine Nat.not_lt.1 fun hlt => h.coarsest j hlt b ?_
    rwa [← hj, ← hb]
  obtain ⟨d', hd'⟩ := exists_finer d (show min (top - 1) t ≤ top - (i + 1 : ℕ) by omega)
  have hgap' : (2 : ℚ) ^ e < 10 ^ min (top - 1) t := by
    obtain heq | heq := min_choice (top - 1) t
    · have hmost := h.most
      rw [← sub_add_cancel top 1, zpow_add_one₀ (by norm_num)] at hmost
      have := mul_le_mul_of_nonneg_right hlead hunit.le
      rw [heq]
      linarith
    · rwa [heq]
  have hnear := abs_le.1 (h.rounds.near hs)
  have hnear' := abs_le.1 (hfit.near hs)
  rw [hd'] at hnear ⊢
  rw [hb] at hnear' ⊢
  have hgrid : (0 : ℚ) < 10 ^ min (top - 1) t := zpow_pos (by norm_num) _
  generalize (10 : ℚ) ^ min (top - 1) t = g at *
  have hlow : (d' : ℚ) < b + 1 := lt_of_mul_lt_mul_right (a := g) (by linarith) hgrid.le
  have hhigh : (b : ℚ) < d' + 1 := lt_of_mul_lt_mul_right (a := g) (by linarith) hgrid.le
  have hlow' : d' < b + 1 := by exact_mod_cast hlow
  have hhigh' : b < d' + 1 := by exact_mod_cast hhigh
  rw [show d' = b by omega]

/-- **A normal double is written as its shortest decimal**, and there is one. -/
theorem exists_isShortest {x : Floating .double} (hx : x.Unsigned) (hparts : x.parts = .finite s e)
    (hnormal : FloatFormat.minExponent .double < e) :
    ∃ (top : ℤ) (i d : ℕ) (n : PlainNumeral), IsShortest s e top i d ∧ n.WellFormed ∧
      n.negative = false ∧ n.value = d * 10 ^ (top - (i + 1 : ℕ)) ∧ x.positional = n.text := by
  obtain ⟨-, -, -, hlead, hhigh⟩ := exists_parts_normal hx.finite hparts hnormal
  have hs : 0 < s := (FloatFormat.leadingBit_pos .double).trans_le hlead
  have hratio : 0 < (ratio s e).1 := by
    unfold ratio
    split
    · rw [Nat.shiftLeft_eq]
      exact Nat.mul_pos hs (Nat.two_pow_pos _)
    · exact hs
  obtain ⟨hleast, hmost⟩ := decimalTop_spec hratio (ratio_pos s e)
  rw [ratio_eq] at hleast hmost
  generalize htop : decimalTop (ratio s e).1 (ratio s e).2 = top at hleast hmost
  obtain ⟨m, hm⟩ := exists_fit hlead hhigh hleast
  obtain ⟨i, hi, d, hshortest, hrounds, hcoarsest⟩ :=
    shortest_spec hs htop ⟨16, by decide, m, by exact_mod_cast hm⟩
  have hd : 0 < d := by
    refine Nat.pos_of_ne_zero ?_
    rintro rfl
    have hlow := hrounds.low
    have hone : (1 : ℚ) ≤ s := Nat.one_le_cast.2 hs
    have hpos : (0 : ℚ) < lowEnd .double s e := by
      rw [lowEnd_eq hs]
      refine mul_pos ?_ (zpow_pos two_pos e)
      split <;> linarith
    rw [Nat.cast_zero, zero_mul] at hlow
    exact not_le.2 hpos hlow
  obtain ⟨n, hn⟩ := positional_text hx.negative hparts hs hshortest hd
  exact ⟨top, i, d, n, ⟨hi, hleast, hmost, hrounds, hcoarsest⟩, hn⟩

end MessageScript.Floating
