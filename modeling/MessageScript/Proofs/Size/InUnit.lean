import Mathlib.Tactic.IntervalCases
import MessageScript.Proofs.Floating.Shortest
import MessageScript.Proofs.Size.Nearest
import MessageScript.Proofs.Size.Quotient

/-!
# Counts in a named unit

A count that is written in a unit without a pattern is the shortest decimal of a double, and is read
back if the doubles around it lie no farther apart than the bytes.  That is so up to a limit of each
unit (`exactLimit`), 2^53 on the binary ladder, and the count behind the limit is not read back.

    round (cut n.value * m.factor) = size.bytes → parse? (n.text ++ m.suffix) = some size
                                                                              (parse?_numeral_unit)
    0 < count → count < exactLimit m → ∃ s e, QuotientParts m count s e       (exists_quotientParts)
    round (cut decimal * m.factor) = count                             (round_decimal, round_binary)
    (∀ size, size.bytes ≤ n → ReadsBack size m) ↔ n ≤ exactLimit m              (readsBack_upTo_iff)
-/

namespace MessageScript.Size

open Floating Text

variable {m : Magnitude} {count i d s : ℕ} {e top : ℤ} {v : ℚ}

/-! ## Reading what is written -/

/-- A plain numeral in front of a unit, as a written byte size. -/
def unitForm (n : PlainNumeral) (m : Magnitude) : ByteSize.SizeForm where
  before := []
  sign := .absent
  whole := n.whole
  fraction := if n.fraction = [] then none else some n.fraction
  between := []
  mark := m.suffix.toList
  factor := m.factor
  after := []

variable {n : PlainNumeral}

theorem fractionDigits_unitForm (n : PlainNumeral) (m : Magnitude) :
    (unitForm n m).fractionDigits = n.fraction := by
  unfold ByteSize.SizeForm.fractionDigits unitForm
  by_cases h : n.fraction = []
  · simp [h]
  · simp [h]

theorem unitForm_wellFormed (hm : m ∈ Magnitude.all) (hn : n.WellFormed) :
    (unitForm n m).WellFormed where
  before := List.forall_mem_nil _
  digits := by
    rw [fractionDigits_unitForm]
    exact allDigits_append.2 ⟨hn.whole, hn.fraction⟩
  digits_ne_nil := List.append_ne_nil_of_left_ne_nil hn.whole_ne_nil _
  between := List.forall_mem_nil _
  unit := by
    have hall : ∀ m ∈ Magnitude.all,
        (ByteSize.lowered m.suffix.toList, m.factor) ∈ ByteSize.units := by decide
    exact hall m hm
  after := List.forall_mem_nil _

theorem text_unitForm (h : n.negative = false) :
    (unitForm n m).text = n.text ++ m.suffix.toList := by
  unfold ByteSize.SizeForm.text ByteSize.SizeForm.numeral ByteSize.SizeForm.unsigned unitForm
    PlainNumeral.text
  rw [h]
  by_cases hnil : n.fraction = []
  · simp [hnil, ByteSize.NumeralSign.text, ByteSize.pointed]
  · simp [hnil, ByteSize.NumeralSign.text, ByteSize.pointed]

theorem value_unitForm (h : n.negative = false) : (unitForm n m).value = n.value := by
  unfold ByteSize.SizeForm.value ByteSize.SizeForm.magnitude PlainNumeral.value
    PlainNumeral.magnitude
  rw [fractionDigits_unitForm, h]
  simp [unitForm]

/-- **A plain numeral in front of a unit is read as a count if the number that it denotes, cut to
eighteen places, is nearest to that count of bytes.** -/
theorem parse?_numeral_unit (hm : m ∈ Magnitude.all) (hn : n.WellFormed) (h : n.negative = false)
    (size : ByteSize) (hpos : 0 < size.bytes)
    (hround : round (ByteSize.cut n.value * m.factor) = size.bytes) :
    ByteSize.parse? (String.ofList n.text ++ m.suffix) = some size := by
  have hform := unitForm_wellFormed hm hn
  have hvalue := value_unitForm (m := m) h
  have hnonneg : 0 ≤ (unitForm n m).value := by
    rw [hvalue, PlainNumeral.value, h, if_neg Bool.false_ne_true, one_mul]
    exact div_nonneg (Nat.cast_nonneg _) (Nat.cast_nonneg _)
  have hcount : (unitForm n m).cutCount = size.bytes := by
    unfold ByteSize.SizeForm.cutCount ByteSize.countOf
    rw [hvalue, show (unitForm n m).factor = m.factor from rfl, hround, if_neg]
    rintro ⟨-, hzero⟩
    omega
  have htext : (unitForm n m).text = (String.ofList n.text ++ m.suffix).toList := by
    rw [text_unitForm h, String.toList_append, String.toList_ofList]
  have hread := (hform.map_bytes_parse?_iff htext).2 ⟨hnonneg, hcount, size.bytes_lt⟩
  obtain ⟨size', hsize, hbytes⟩ := Option.map_eq_some_iff.1 hread
  rw [hsize, ByteSize.ext hbytes]

/-! ## Quotients below the limit -/

/-- The number of a unit's bytes that are read back from their text: below so many units the doubles
lie no farther apart than the bytes. -/
def exactLimit (m : Magnitude) : ℕ := m.factor * 2 ^ (53 - 10 * m.step)

theorem step_bounds (hm : m ∈ Magnitude.all) : 1 ≤ m.step ∧ m.step ≤ 5 ∧
    m.factor ≤ 2 ^ (10 * m.step) ∧ exactLimit m ≤ 2 ^ 53 := by
  have hall : ∀ m ∈ Magnitude.all, 1 ≤ m.step ∧ m.step ≤ 5 ∧ m.factor ≤ 2 ^ (10 * m.step) ∧
      exactLimit m ≤ 2 ^ 53 := by decide
  exact hall m hm

/-- What the quotient of a count below the limit is: a normal double, with a last place at most as
great as a byte. -/
structure QuotientParts (m : Magnitude) (count s : ℕ) (e : ℤ) : Prop where
  parts : (quotient count m.factor).parts = .finite s e
  normal : FloatFormat.minExponent .double < e
  lastPlace : e ≤ -(10 * m.step : ℤ)
  value : (quotient count m.factor).value = s * 2 ^ e
  lead : (2 : ℚ) ^ 52 ≤ s

section Limit

variable (hm : m ∈ Magnitude.all)
include hm

theorem isNearest_exactQuotient (hcount : count ≤ 2 ^ 53) :
    (quotient count m.factor).IsNearest (count / m.factor) := by
  have hnear := isNearest_quotient (show count < 2 ^ 64 by omega) m.ladder (step_bounds hm).2.1
  rwa [(natCast_spec hcount).2] at hnear

/-- A quotient below a power of two is at most the last double before that. -/
theorem quotient_lt (hcount : count < exactLimit m) :
    (quotient count m.factor).value < 2 ^ (53 - 10 * (m.step : ℤ)) := by
  obtain ⟨hstep, hlast, hfactor, hlimit⟩ := step_bounds hm
  have hF : (0 : ℚ) < m.factor := Nat.cast_pos.2 m.factor_pos
  have htwo : (0 : ℚ) < 2 ^ (10 * m.step) := by positivity
  have hunit : (2 : ℚ) ^ (-(10 * m.step : ℤ)) = 1 / 2 ^ (10 * m.step) := by
    rw [zpow_neg, one_div, ← zpow_natCast]
    push_cast
    rfl
  have hproduct : 2 ^ (53 - 10 * m.step) * 2 ^ (10 * m.step) = 2 ^ 53 := by
    rw [← pow_add]
    congr 1
    omega
  have hscaled : count * 2 ^ (10 * m.step) ≤ (2 ^ 53 - 1) * m.factor := by
    have hnext := Nat.mul_le_mul_right (2 ^ (10 * m.step)) (Nat.succ_le_of_lt hcount)
    rw [exactLimit, Nat.mul_assoc, hproduct, Nat.succ_mul] at hnext
    omega
  have hbefore : (count : ℚ) / m.factor ≤ ((2 ^ 53 - 1 : ℕ) : ℚ) * 2 ^ (-(10 * m.step : ℤ)) := by
    rw [hunit, mul_one_div, div_le_div_iff₀ hF htwo]
    exact_mod_cast hscaled
  have hhigh : ((2 ^ 53 - 1 : ℕ) : ℚ) * 2 ^ (-(10 * m.step : ℤ)) ≤ 2 ^ 200 := by
    refine (mul_le_of_le_one_right (Nat.cast_nonneg _) ?_).trans (by norm_num)
    exact zpow_le_one_of_nonpos₀ one_le_two (by omega)
  have hleast : FloatFormat.minExponent .double ≤ -(10 * m.step : ℤ) := by
    rw [show FloatFormat.minExponent .double = -1074 from rfl]
    omega
  have hle := (isNearest_exactQuotient hm (hcount.le.trans hlimit)).le_of_le hbefore (by decide)
    hleast (lt_two_zpow hhigh).2
  refine hle.trans_lt ?_
  rw [sub_eq_add_neg, zpow_add₀ two_ne_zero]
  exact mul_lt_mul_of_pos_right (by norm_num) (zpow_pos two_pos _)

/-- **Below the limit, the doubles around a quotient lie no farther apart than the bytes.** -/
theorem exists_quotientParts (hpos : 0 < count) (hcount : count < exactLimit m) :
    ∃ s e, QuotientParts m count s e := by
  obtain ⟨hstep, hlast, hfactor, hlimit⟩ := step_bounds hm
  have hnear := isNearest_exactQuotient hm (hcount.le.trans hlimit)
  obtain ⟨s, e, hparts, he, hs, hvalue⟩ := hnear.toUnsigned.exists_parts
  have hs' : (s : ℚ) < 2 ^ 53 := by exact_mod_cast hs
  have hunit : (0 : ℚ) < 2 ^ e := zpow_pos two_pos e
  have hquotient : 1 / 2 ^ 50 ≤ (count : ℚ) / m.factor := le_exact_quotient hlast hpos
  have hlow : 1 / 2 ^ 51 ≤ (quotient count m.factor).value := by
    have herror := (abs_le.1 (hnear.relative_error (.inr (le_trans (by norm_num) hquotient)))).1
    linarith
  have hnormal : FloatFormat.minExponent .double < e := by
    refine lt_of_le_of_ne he fun hleast => ?_
    have hsmall : (2 : ℚ) ^ e ≤ 2 ^ (-200 : ℤ) :=
      zpow_le_zpow_right₀ one_le_two (by rw [← hleast]; decide)
    have hpower : (2 : ℚ) ^ (-200 : ℤ) < 1 / 2 ^ 199 := by norm_num
    have hproduct := mul_lt_mul'' hs' (hsmall.trans_lt hpower) (Nat.cast_nonneg s) hunit.le
    rw [← hvalue] at hproduct
    linarith
  obtain ⟨-, -, -, hlead, -⟩ := exists_parts_normal hnear.finite hparts hnormal
  have hlead' : (2 : ℚ) ^ 52 ≤ s := by exact_mod_cast hlead
  refine ⟨s, e, hparts, hnormal, ?_, hvalue, hlead'⟩
  have hlt := quotient_lt hm hcount
  rw [hvalue] at hlt
  have hpower : (2 : ℚ) ^ ((52 : ℤ) + e) < 2 ^ (53 - 10 * (m.step : ℤ)) := by
    rw [zpow_add₀ two_ne_zero]
    exact (mul_le_mul_of_nonneg_right hlead' hunit.le).trans_lt hlt
  have := (zpow_lt_zpow_iff_right₀ one_lt_two).1 hpower
  omega

end Limit

/-! ## The nearest count -/

/-- Up to eighteen places, nothing is cut off. -/
theorem cut_of_grid {a : ℕ} {t : ℤ} (hv : v = a * 10 ^ t) (ht : -18 ≤ t) : ByteSize.cut v = v := by
  obtain ⟨b, hb⟩ := exists_finer a ht
  have hplaces : (ByteSize.places : ℚ) = 10 ^ 18 := powerOfTen_cast 18
  have hwhole : v * ByteSize.places = (b : ℤ) := by
    rw [hv, hb, hplaces, mul_assoc, ← zpow_natCast, ← zpow_add₀ (by norm_num)]
    norm_num
  exact ByteSize.cut_eq hwhole le_rfl (lt_add_one _)

/-- What is within a quarter of a count is read as that count: the cut takes less than the rest. -/
theorem round_of_near {F : ℕ} (hF : F ≤ 2 ^ 50) (hnear : |v * F - count| ≤ 1 / 4) :
    round (ByteSize.cut v * F) = count := by
  obtain ⟨hlow, hhigh⟩ := abs_le.1 hnear
  have hF' : ((F : ℕ) : ℚ) ≤ 2 ^ 50 := by exact_mod_cast hF
  have hplaces : (ByteSize.places : ℚ) = 10 ^ 18 := powerOfTen_cast 18
  have hcut := mul_le_mul_of_nonneg_right (ByteSize.cut_le v) (Nat.cast_nonneg F)
  have hcut' := mul_le_mul_of_nonneg_right (ByteSize.lt_cut_add v).le (Nat.cast_nonneg F)
  rw [hplaces, add_mul] at hcut'
  rw [round_eq_iff, Set.mem_Ico, Int.cast_natCast]
  constructor <;> linarith

/-- A number on a grid as fine as a power of two is not halfway between two of its parts: the power
of five in the grid is odd. -/
theorem mul_two_pow_ne_half (count : ℕ) {a p : ℕ} {t : ℤ} (hv : v = a * 10 ^ t)
    (ht : -(p : ℤ) ≤ t) : v * 2 ^ p ≠ count + 1 / 2 := by
  intro hhalf
  obtain ⟨b, hb⟩ := exists_finer a ht
  have hten : (10 : ℚ) ^ (-(p : ℤ)) * 2 ^ p * 5 ^ p = 1 := by
    rw [mul_assoc, ← mul_pow, zpow_neg, zpow_natCast]
    norm_num
  have hodd : ((2 * b : ℕ) : ℚ) = ((2 * count + 1) * 5 ^ p : ℕ) := by
    have hscaled : v * 2 ^ p * 5 ^ p = b := by
      rw [hv, hb, mul_assoc, mul_assoc, ← mul_assoc (10 ^ _), hten, mul_one]
    rw [hhalf] at hscaled
    push_cast
    linarith
  have hodd' : 2 * b = (2 * count + 1) * 5 ^ p := by exact_mod_cast hodd
  have hparity : Odd ((2 * count + 1) * 5 ^ p) :=
    (odd_two_mul_add_one count).mul (Odd.pow (by decide))
  exact Nat.not_even_iff_odd.2 hparity (hodd' ▸ even_two_mul b)

/-- Where the doubles lie a byte apart, a number has so many digits in front of the point that
seventeen digits end at the eighteenth place, and at the grid of the bytes. -/
theorem lt_top (hm : m ∈ Magnitude.all) (hlead : (2 : ℚ) ^ 52 ≤ s)
    (hmost : (s : ℚ) * 2 ^ (-(10 * m.step : ℤ)) < 10 ^ top) :
    max (16 - 10 * (m.step : ℤ)) (-2) < top := by
  obtain ⟨hstep, hlast, -⟩ := step_bounds hm
  refine (zpow_lt_zpow_iff_right₀ (by norm_num : (1 : ℚ) < 10)).1 (lt_of_le_of_lt ?_ hmost)
  refine le_trans ?_ (mul_le_mul_of_nonneg_right hlead (zpow_pos two_pos _).le)
  generalize m.step = k at hstep hlast
  interval_cases k <;> norm_num

section Round

variable (hm : m ∈ Magnitude.all) (hcount : count < exactLimit m)
  (h : QuotientParts m count s e) (hshortest : IsShortest s e top i d)
include hm hcount h hshortest

/-- On the decimal ladder the shortest decimal is the exact quotient. -/
theorem round_decimal (hl : m.ladder = .decimal) :
    round (ByteSize.cut (d * 10 ^ (top - (i + 1 : ℕ))) * m.factor) = count := by
  obtain ⟨hstep, hlast, -, hlimit⟩ := step_bounds hm
  have hfactor : (m.factor : ℚ) = 10 ^ (3 * m.step) := by
    rw [Magnitude.factor, hl, factor_eq, pow_mul]
    norm_num [Ladder.base]
  have hnonzero : (m.factor : ℚ) ≠ 0 := Nat.cast_ne_zero.2 m.factor_pos.ne'
  have hquotient : (count : ℚ) / m.factor = count * 10 ^ (-(3 * m.step : ℕ) : ℤ) := by
    rw [hfactor, zpow_neg, zpow_natCast, div_eq_mul_inv]
  have hfit := (isNearest_exactQuotient hm (hcount.le.trans hlimit)).roundsTo h.parts h.normal
  rw [hquotient] at hfit
  have hgap : (2 : ℚ) ^ e < 10 ^ (-(3 * m.step : ℕ) : ℤ) := by
    calc (2 : ℚ) ^ e ≤ 2 ^ (-(10 * m.step : ℕ) : ℤ) :=
          zpow_le_zpow_right₀ one_le_two (by push_cast; exact h.lastPlace)
      _ < 10 ^ (-(3 * m.step : ℕ) : ℤ) := by
          rw [zpow_neg, zpow_neg, zpow_natCast, zpow_natCast, pow_mul, pow_mul]
          exact inv_strictAnti₀ (by positivity)
            (pow_lt_pow_left₀ (by norm_num) (by norm_num) (by omega))
  have hvalue := hshortest.eq_of_fit h.lead hfit hgap
  rw [cut_of_grid hvalue (by omega), hvalue, ← hquotient, div_mul_cancel₀ _ hnonzero]
  exact round_natCast count

/-- On the binary ladder the quotient is a double, and the shortest decimal is less than half a byte
off, or half a byte below. -/
theorem round_binary (hl : m.ladder = .binary) :
    round (ByteSize.cut (d * 10 ^ (top - (i + 1 : ℕ))) * m.factor) = count := by
  obtain ⟨hstep, hlast, -, hlimit⟩ := step_bounds hm
  have hfactor : (m.factor : ℚ) = 2 ^ (10 * m.step) := by
    rw [Magnitude.factor, hl, factor_eq, pow_mul]
    norm_num [Ladder.base]
  have hF : (0 : ℚ) < m.factor := Nat.cast_pos.2 m.factor_pos
  have hexact : (quotient count m.factor).value = count / m.factor := by
    refine (isNearest_exactQuotient hm (hcount.le.trans hlimit)).value_eq (s := count)
      (e := -(10 * m.step : ℕ)) ?_ (hcount.le.trans hlimit) ?_
    · rw [hfactor, zpow_neg, zpow_natCast, div_eq_mul_inv]
    · rw [show FloatFormat.minExponent .double = -1074 from rfl]
      omega
  have hs : (0 : ℚ) < s := lt_of_lt_of_le (by norm_num) h.lead
  have hnear := hshortest.rounds.near (Nat.cast_pos.1 hs)
  rw [← h.value, hexact] at hnear
  -- how far the shortest decimal is off, in bytes
  have hunit : (2 : ℚ) ^ e * m.factor = 2 ^ (e + (10 * m.step : ℕ)) := by
    rw [hfactor, zpow_add₀ two_ne_zero, zpow_natCast]
  have hoff : |(d : ℚ) * 10 ^ (top - (i + 1 : ℕ)) * m.factor - count| ≤
      2 ^ (e + (10 * m.step : ℕ)) / 2 := by
    rw [← hunit, mul_div_right_comm, ← abs_sub_div_mul _ _ hF]
    exact mul_le_mul_of_nonneg_right hnear hF.le
  obtain hfine | rfl := h.lastPlace.lt_or_eq
  · -- the doubles lie half a byte apart, or less
    refine round_of_near (factor_le hlast) (hoff.trans ?_)
    have hhalf : (2 : ℚ) ^ (e + (10 * m.step : ℕ)) ≤ 2 ^ (-1 : ℤ) :=
      zpow_le_zpow_right₀ one_le_two (by push_cast; omega)
    rw [zpow_neg_one] at hhalf
    linarith
  · -- they lie a byte apart, and the decimal has few places
    have htop := lt_top hm h.lead hshortest.most
    obtain ⟨hlow, hhigh⟩ := abs_le.1 hoff
    have hindex := hshortest.index
    have hhalf := mul_two_pow_ne_half count (a := d) (t := top - (i + 1 : ℕ)) (p := 10 * m.step) rfl
      (by push_cast; omega)
    rw [← hfactor] at hhalf
    rw [cut_of_grid rfl (by omega), round_eq_iff, Set.mem_Ico, Int.cast_natCast]
    rw [Nat.cast_mul, Nat.cast_ofNat, neg_add_cancel, zpow_zero] at hlow hhigh
    exact ⟨by linarith, lt_of_le_of_ne (by linarith) hhalf⟩

end Round

/-! ## Counts that are read back -/

/-- The count that a count, written in a unit, is read as. -/
def readBack (count : ℕ) (m : Magnitude) : Option ℕ :=
  (ByteSize.parse? (String.ofList (quotient count m.factor).positional ++ m.suffix)).map
    ByteSize.bytes

/-- Whether a size, written in a unit, is read back. -/
def ReadsBack (size : ByteSize) (m : Magnitude) : Prop :=
  ∃ text, size.inUnit m none = .ok text ∧ ByteSize.parse? text = some size

theorem readsBack_iff (h : count < 0x1_0000_0000_0000_0000) :
    ReadsBack ⟨count, h⟩ m ↔ readBack count m = some count := by
  unfold readBack
  constructor
  · rintro ⟨text, htext, hread⟩
    cases htext
    rw [hread, Option.map_some]
  · intro h
    obtain ⟨size', hread, hbytes⟩ := Option.map_eq_some_iff.1 h
    exact ⟨_, rfl, hread.trans (congrArg some (ByteSize.ext hbytes))⟩

theorem readsBack_of_lt (hm : m ∈ Magnitude.all) {size : ByteSize} (hpos : 0 < size.bytes)
    (hlt : size.bytes < exactLimit m) : ReadsBack size m := by
  obtain ⟨-, -, -, hlimit⟩ := step_bounds hm
  have hnear := isNearest_exactQuotient hm (hlt.le.trans hlimit)
  obtain ⟨s, e, h⟩ := exists_quotientParts hm hpos hlt
  obtain ⟨top, i, d, n, hshortest, hn, hnegative, hvalue, htext⟩ :=
    exists_isShortest hnear.toUnsigned h.parts h.normal
  have hround : round (ByteSize.cut n.value * m.factor) = size.bytes := by
    rw [hvalue]
    cases hl : m.ladder with
    | decimal => exact round_decimal hm hlt h hshortest hl
    | binary => exact round_binary hm hlt h hshortest hl
  refine ⟨_, rfl, ?_⟩
  rw [htext]
  exact parse?_numeral_unit hm hn hnegative size hpos hround

/-- No bytes, and as many as the limit, are read back; one more is not. -/
theorem readBack_limit : ∀ m ∈ Magnitude.all, readBack 0 m = some 0 ∧
    readBack (exactLimit m) m = some (exactLimit m) ∧
    readBack (exactLimit m + 1) m ≠ some (exactLimit m + 1) := by
  decide +kernel

/-- **Sizes are read back up to the limit of the unit that they are written in, and the limit is the
greatest**: every count up to it is read back from the shortest decimal of its quotient, and the
next is not. -/
theorem readsBack_upTo_iff (hm : m ∈ Magnitude.all) (n : ℕ) :
    (∀ size : ByteSize, size.bytes ≤ n → ReadsBack size m) ↔ n ≤ exactLimit m := by
  obtain ⟨hzero, hlimit, hnext⟩ := readBack_limit m hm
  refine ⟨fun hall => Nat.not_lt.1 fun hlt => ?_, fun hle size hsize => ?_⟩
  · obtain ⟨-, -, -, hmost⟩ := step_bounds hm
    have hbytes : exactLimit m + 1 < 0x1_0000_0000_0000_0000 := by omega
    have hread := hall ⟨exactLimit m + 1, hbytes⟩ (Nat.succ_le_of_lt hlt)
    exact hnext ((readsBack_iff hbytes).1 hread)
  · obtain ⟨count, hbytes⟩ := size
    obtain hbelow | rfl := (hsize.trans hle).lt_or_eq
    · obtain rfl | hpos := count.eq_zero_or_pos
      · exact (readsBack_iff hbytes).2 hzero
      · exact readsBack_of_lt hm hpos hbelow
    · exact (readsBack_iff hbytes).2 hlimit

/-- In kibibytes every count of at most 2^53 bytes is read back. -/
theorem readsBack_upTo_iff_kibibytes : exactLimit ⟨.binary, 1⟩ = 9_007_199_254_740_992 ∧
    ∀ size : ByteSize, size.bytes ≤ 9_007_199_254_740_992 → ReadsBack size ⟨.binary, 1⟩ := by
  have hunit : (⟨.binary, 1⟩ : Magnitude) ∈ Magnitude.all := by decide
  exact ⟨by decide, (readsBack_upTo_iff hunit 9_007_199_254_740_992).2 (by decide)⟩

/-- A byte above eight petabytes is written as two and read as two. -/
theorem not_readsBack_petabytes : ∃ size : ByteSize, size.bytes = 8_000_000_000_000_001 ∧
    size.inUnit ⟨.decimal, 5⟩ none = .ok "8.000000000000002P" ∧
    (ByteSize.parse? "8.000000000000002P").map ByteSize.bytes = some 8_000_000_000_000_002 ∧
    ¬ ReadsBack size ⟨.decimal, 5⟩ := by
  have hbytes : 8_000_000_000_000_001 < 0x1_0000_0000_0000_0000 := by decide
  have htext : String.ofList
      (quotient 8_000_000_000_000_001 (Magnitude.factor ⟨.decimal, 5⟩)).positional ++
        Magnitude.suffix ⟨.decimal, 5⟩ = "8.000000000000002P" := by decide +kernel
  have hread : readBack 8_000_000_000_000_001 ⟨.decimal, 5⟩ ≠ some 8_000_000_000_000_001 := by
    decide +kernel
  exact ⟨⟨8_000_000_000_000_001, hbytes⟩, rfl, congrArg Except.ok htext, by decide +kernel,
    (readsBack_iff hbytes).not.2 hread⟩

end MessageScript.Size
