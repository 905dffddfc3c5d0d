import MessageScript.Proofs.Floating.PlainNumeral
import MessageScript.Proofs.Size.Form

/-!
# The count nearest to a written byte size

A numeral denotes a rational number (`SizeForm.value`), and its byte size is the count nearest to
that number times the bytes in its unit, of two the greater, and at least one if it is positive.
Reading cuts the number to eighteen places first.  That loses nothing if twice the unit divides
10^18, as it does for all units but `Mi`, `Gi`, `Ti` and `Pi`; with these the count may be one less.

    2 * factor ∣ places → round (cut v * factor) = round (v * factor)              (round_cut_mul)
    scaledCount f.whole f.fractionDigits f.factor = f.cutCount           (WellFormed.scaledCount_eq)
    f.cutCount ≤ f.exactCount ∧ f.exactCount ≤ f.cutCount + 1          (WellFormed.cutCount_bounds)
    (parse? text).map bytes = some n ↔ ∃ f, … ∧ f.cutCount = n ∧ n < 2^64            (read_nearest)
-/

namespace MessageScript.ByteSize

open Text

variable {v x y : ℚ} {m : ℤ}

/-! ## Eighteen places -/

/-- The parts that the places which count divide a unit into. -/
def places : ℕ := powerOfTen fractionDigits

/-- A number with the places past the eighteenth cut off. -/
def cut (v : ℚ) : ℚ := (⌊v * places⌋ : ℚ) / places

theorem places_pos : (0 : ℚ) < places := Nat.cast_pos.2 (powerOfTen_pos _)

theorem cut_mul_places (v : ℚ) : cut v * places = ⌊v * places⌋ :=
  div_mul_cancel₀ _ places_pos.ne'

theorem cut_mono (h : x ≤ y) : cut x ≤ cut y := by
  have hfloor : ⌊x * places⌋ ≤ ⌊y * places⌋ :=
    Int.floor_mono (mul_le_mul_of_nonneg_right h places_pos.le)
  exact div_le_div_of_nonneg_right (Int.cast_le.2 hfloor) places_pos.le

theorem cut_nonneg (h : 0 ≤ v) : 0 ≤ cut v :=
  div_nonneg (Int.cast_nonneg (Int.floor_nonneg.2 (mul_nonneg h places_pos.le))) places_pos.le

theorem cut_le (v : ℚ) : cut v ≤ v := by
  rw [← mul_le_mul_iff_left₀ places_pos, cut_mul_places]
  exact Int.floor_le _

theorem lt_cut_add (v : ℚ) : v < cut v + 1 / places := by
  rw [← mul_lt_mul_iff_left₀ places_pos, add_mul, cut_mul_places, one_div_mul_cancel places_pos.ne']
  exact Int.lt_floor_add_one _

/-- A number in whole places below another, and less than a place away, is what the cut leaves. -/
theorem cut_eq (hwhole : y * places = m) (hle : y * places ≤ x * places)
    (hlt : x * places < y * places + 1) : cut x = y := by
  rw [hwhole] at hle hlt
  rw [cut, Int.floor_eq_iff.2 ⟨hle, hlt⟩, ← hwhole, mul_div_cancel_right₀ _ places_pos.ne']

/-- A whole number of places that reaches a number reaches it cut, and conversely. -/
theorem le_cut_mul_places_iff : (m : ℚ) ≤ cut v * places ↔ (m : ℚ) ≤ v * places := by
  rw [cut_mul_places, Int.cast_le, Int.le_floor]

/-- **Where twice the unit divides 10^18, the cut does not change the nearest count**: halves of a
count are whole numbers of places. -/
theorem round_cut_mul {factor : ℕ} (h : 2 * factor ∣ places) :
    round (cut v * factor) = round (v * factor) := by
  obtain ⟨e, he⟩ := h
  have hplaces : (places : ℚ) = 2 * factor * e := by exact_mod_cast he
  have hne : e ≠ 0 := by
    rintro rfl
    exact (powerOfTen_pos fractionDigits).ne' he
  have hpos : (0 : ℚ) < 2 * e := mul_pos two_pos (Nat.cast_pos.2 (Nat.pos_of_ne_zero hne))
  refine eq_of_forall_le_iff fun m => ?_
  have hscale : ∀ q : ℚ,
      (m : ℚ) ≤ q * factor + 1 / 2 ↔ (((2 * m - 1) * e : ℤ) : ℚ) ≤ q * places := by
    intro q
    rw [← mul_le_mul_iff_left₀ hpos, hplaces]
    push_cast
    constructor <;> intro h <;> linarith
  rw [le_round_iff, le_round_iff, hscale, hscale, le_cut_mul_places_iff]

/-- A unit of at most 10^18 bytes loses at most one count. -/
theorem round_cut_mul_bounds {factor : ℕ} (h : factor ≤ places) :
    round (cut v * factor) ≤ round (v * factor) ∧
      round (v * factor) ≤ round (cut v * factor) + 1 := by
  have hfactor : (0 : ℚ) ≤ factor := Nat.cast_nonneg factor
  refine ⟨round_le_round (mul_le_mul_of_nonneg_right (cut_le v) hfactor), ?_⟩
  rw [← round_add_one]
  refine round_le_round ?_
  have hlt := mul_le_mul_of_nonneg_right (lt_cut_add v).le hfactor
  have hone : 1 / (places : ℚ) * factor ≤ 1 := by
    rw [one_div_mul_eq_div, div_le_one places_pos]
    exact Nat.cast_le.2 h
  linarith

/-! ## Numerals -/

namespace SizeForm

/-- The number that the numeral denotes, without its sign. -/
def magnitude (f : SizeForm) : ℚ :=
  (ofDigits (f.whole ++ f.fractionDigits) : ℚ) / powerOfTen f.fractionDigits.length

/-- The number that the numeral denotes. -/
def value (f : SizeForm) : ℚ := if f.sign = .minus then -f.magnitude else f.magnitude

variable {f g : SizeForm}

theorem magnitude_nonneg (f : SizeForm) : 0 ≤ f.magnitude :=
  div_nonneg (Nat.cast_nonneg _) (Nat.cast_nonneg _)

theorem magnitude_eq_zero_iff : f.magnitude = 0 ↔ ofDigits (f.whole ++ f.fractionDigits) = 0 := by
  rw [magnitude, div_eq_zero_iff, or_iff_left (powerOfTen_ne_zero _), Nat.cast_eq_zero]

/-- A numeral is below zero if it has a minus sign and does not denote zero. -/
theorem negative_iff : f.Negative ↔ f.value < 0 := by
  have hnonneg := f.magnitude_nonneg
  rw [Negative, ne_eq, ← magnitude_eq_zero_iff, value]
  split
  · next hsign =>
    rw [and_iff_right hsign, neg_lt_zero, lt_iff_le_and_ne, and_iff_right hnonneg]
    exact ⟨Ne.symm, Ne.symm⟩
  · next hsign => exact iff_of_false (fun h => hsign h.1) (not_lt.2 hnonneg)

/-- A numeral that is not below zero denotes its magnitude: minus zero is zero. -/
theorem value_eq_magnitude (h : 0 ≤ f.value) : f.value = f.magnitude := by
  have hnonneg := f.magnitude_nonneg
  unfold value at h ⊢
  split at h
  · next hsign =>
    rw [if_pos hsign]
    linarith
  · next hsign => rw [if_neg hsign]

/-- The digits in front of the point and those behind it. -/
theorem magnitude_eq (f : SizeForm) : f.magnitude =
    ofDigits f.whole + (ofDigits f.fractionDigits : ℚ) / powerOfTen f.fractionDigits.length :=
  ofDigits_append_div f.whole f.fractionDigits

end SizeForm

/-- Behind eighteen places, digits of a fraction are cut off. -/
theorem cut_fraction {run : List Char} (hrun : AllDigits run) (whole : ℕ) :
    cut (whole + (ofDigits run : ℚ) / powerOfTen run.length) =
      whole + (ofDigits (run.take fractionDigits) : ℚ) /
        powerOfTen (run.take fractionDigits).length := by
  -- the digits that are kept, the digits behind them, and what the first lack of eighteen places
  have hsplit := ofDigits_append (run.take fractionDigits) (run.drop fractionDigits)
  have hlength : powerOfTen run.length = powerOfTen (run.take fractionDigits).length *
      powerOfTen (run.drop fractionDigits).length := by
    rw [← powerOfTen_add, ← List.length_append, List.take_append_drop]
  have hplaces : places = powerOfTen (run.take fractionDigits).length *
      powerOfTen (fractionDigits - (run.take fractionDigits).length) := by
    rw [places, ← powerOfTen_add, List.length_take]
    congr 1
    omega
  have hrest : ofDigits (run.drop fractionDigits) *
      powerOfTen (fractionDigits - (run.take fractionDigits).length) <
      powerOfTen (run.drop fractionDigits).length := by
    by_cases hlong : fractionDigits ≤ run.length
    · have hdrop : AllDigits (run.drop fractionDigits) :=
        fun c hc => hrun c (List.mem_of_mem_drop hc)
      have hlt := ofDigits_lt hdrop
      rw [List.length_take, Nat.min_eq_left hlong, Nat.sub_self]
      exact (Nat.mul_one _).trans_lt hlt
    · rw [List.drop_eq_nil_of_le (Nat.not_le.1 hlong).le]
      exact (Nat.zero_mul _).trans_lt (powerOfTen_pos _)
  rw [List.take_append_drop] at hsplit
  rw [hsplit, hlength]
  generalize ofDigits (run.take fractionDigits) = kept
  generalize ofDigits (run.drop fractionDigits) = rest at hrest
  have hk : (0 : ℚ) < powerOfTen (run.take fractionDigits).length :=
    Nat.cast_pos.2 (powerOfTen_pos _)
  have ht : (0 : ℚ) < powerOfTen (run.drop fractionDigits).length :=
    Nat.cast_pos.2 (powerOfTen_pos _)
  generalize powerOfTen (run.take fractionDigits).length = k at hplaces hk
  generalize powerOfTen (run.drop fractionDigits).length = t at hrest ht
  generalize powerOfTen (fractionDigits - (run.take fractionDigits).length) = s at hplaces hrest
  have hplaces' : (places : ℚ) = k * s := by exact_mod_cast hplaces
  have hrest' : (rest : ℚ) * s < t := by exact_mod_cast hrest
  have hscaled : (whole + ((kept * t + rest : ℕ) : ℚ) / ((k * t : ℕ) : ℚ)) * places =
      (whole + (kept : ℚ) / k) * places + rest * s / t := by
    rw [hplaces']
    push_cast
    field_simp
    ring
  refine cut_eq (m := (whole * k + kept) * s) ?_ ?_ ?_
  · rw [hplaces']
    push_cast
    field_simp
  · rw [hscaled]
    exact le_add_of_nonneg_right (by positivity)
  · rw [hscaled]
    exact (add_lt_add_iff_left _).2 ((div_lt_one ht).2 hrest')

/-- The count nearest to a quantity, of two the greater, and at least one for a positive number. -/
def countOf (v quantity : ℚ) : ℤ := if 0 < v ∧ round quantity = 0 then 1 else round quantity

namespace SizeForm

/-- The count nearest to the number in its unit. -/
def exactCount (f : SizeForm) : ℤ := countOf f.value (f.value * f.factor)

/-- The count nearest to the number, cut to eighteen places, in its unit. -/
def cutCount (f : SizeForm) : ℤ := countOf f.value (cut f.value * f.factor)

theorem round_cut_value {f : SizeForm} (hf : f.WellFormed) (h : 0 ≤ f.value) :
    round (cut f.value * f.factor) =
      (ofDigits f.whole * f.factor + roundHalfUp
        (ofDigits (f.fractionDigits.take ByteSize.fractionDigits) * f.factor)
        (powerOfTen (f.fractionDigits.take ByteSize.fractionDigits).length) : ℕ) := by
  rw [value_eq_magnitude h, magnitude_eq, cut_fraction (allDigits_append.1 hf.digits).2, add_mul,
    div_mul_eq_mul_div, ← Nat.cast_mul, ← Nat.cast_mul, round_natCast_add,
    round_div_eq_roundHalfUp _ (powerOfTen_pos _)]
  push_cast
  rfl

/-- **What is computed from the digits is the count nearest to the number that they denote, cut to
eighteen places.** -/
theorem WellFormed.scaledCount_eq {f : SizeForm} (hf : f.WellFormed) (h : 0 ≤ f.value) :
    (scaledCount f.whole f.fractionDigits f.factor : ℤ) = f.cutCount := by
  have hpositive : 0 < f.value ↔ (f.whole ++ f.fractionDigits).any (· != '0') = true := by
    rw [any_ne_zero_iff hf.digits, ne_eq, ← magnitude_eq_zero_iff, ← value_eq_magnitude h,
      lt_iff_le_and_ne, and_iff_right h]
    exact ⟨Ne.symm, Ne.symm⟩
  unfold cutCount countOf scaledCount
  simp only [round_cut_value hf h, hpositive, Nat.cast_eq_zero, and_comm]
  split
  · rfl
  · rfl

/-- The text of a form is read, if the number is not below zero and the count is in range, as that
count. -/
theorem WellFormed.map_bytes_parse?_iff {f : SizeForm} (hf : f.WellFormed) {text : String}
    (htext : f.text = text.toList) {n : ℕ} : (parse? text).map bytes = some n ↔
      0 ≤ f.value ∧ f.cutCount = n ∧ n < 0x1_0000_0000_0000_0000 := by
  rw [hf.parse?_text htext.symm]
  by_cases hnegative : f.Negative
  · rw [if_pos hnegative]
    exact iff_of_false nofun fun h => not_lt.2 h.1 (negative_iff.1 hnegative)
  · have hvalue : 0 ≤ f.value := not_lt.1 fun h => hnegative (negative_iff.2 h)
    rw [if_neg hnegative, and_iff_right hvalue, ← hf.scaledCount_eq hvalue, Nat.cast_inj,
      Option.map_eq_some_iff]
    constructor
    · rintro ⟨size, hsize, rfl⟩
      exact ⟨(ofNat?_eq_some_iff.1 hsize).symm, size.bytes_lt⟩
    · rintro ⟨rfl, hlt⟩
      exact ⟨⟨_, hlt⟩, ofNat?_eq_some_iff.2 rfl, rfl⟩

/-- Up to eighteen digits behind the point, all of them count. -/
theorem WellFormed.cut_value {f : SizeForm} (hf : f.WellFormed) (h : 0 ≤ f.value)
    (hshort : f.fractionDigits.length ≤ 18) : cut f.value = f.value := by
  have htake : f.fractionDigits.take ByteSize.fractionDigits = f.fractionDigits :=
    List.take_of_length_le hshort
  rw [value_eq_magnitude h, magnitude_eq, cut_fraction (allDigits_append.1 hf.digits).2, htake]

/-- Up to eighteen digits behind the point, and in the units that are not large powers of two, the
cut loses nothing. -/
theorem WellFormed.cutCount_eq_exactCount {f : SizeForm} (hf : f.WellFormed) (h : 0 ≤ f.value)
    (hexact : f.fractionDigits.length ≤ 18 ∨ lowered f.mark ∉ ["mi", "gi", "ti", "pi"]) :
    f.cutCount = f.exactCount := by
  have hround : round (cut f.value * f.factor) = round (f.value * f.factor) := by
    obtain hshort | hunit := hexact
    · rw [hf.cut_value h hshort]
    · have hdvd : ∀ u ∈ units, u.1 ∉ ["mi", "gi", "ti", "pi"] → 2 * u.2 ∣ places := by decide
      exact round_cut_mul (hdvd _ hf.unit hunit)
  rw [cutCount, exactCount, countOf, countOf, hround]

/-- The cut loses at most one count. -/
theorem WellFormed.cutCount_bounds {f : SizeForm} (hf : f.WellFormed) (h : 0 ≤ f.value) :
    f.cutCount ≤ f.exactCount ∧ f.exactCount ≤ f.cutCount + 1 := by
  have hall : ∀ u ∈ units, u.2 ≤ places := by decide
  have hfactor : f.factor ≤ places := hall _ hf.unit
  have hnonneg : 0 ≤ round (cut f.value * f.factor) := by
    refine le_round_iff.2 ?_
    have hproduct : 0 ≤ cut f.value * f.factor := mul_nonneg (cut_nonneg h) (Nat.cast_nonneg _)
    rw [Int.cast_zero]
    linarith
  obtain ⟨hlow, hhigh⟩ := round_cut_mul_bounds (v := f.value) hfactor
  unfold cutCount exactCount countOf
  by_cases hpos : 0 < f.value
  · simp only [hpos, true_and]
    split <;> split <;> omega
  · simp only [hpos, false_and, if_false]
    exact ⟨hlow, hhigh⟩

end SizeForm

/-! ## Reading -/

/-- **A text is read exactly if it has the form, its number is not below zero, and the count nearest
to that number, cut to eighteen places, is in range; then it is read as that count.**  The cut
matters only past eighteen digits in `Mi`, `Gi`, `Ti` and `Pi`, and there for one count at most. -/
theorem read_nearest (text : String) :
    (∀ n : ℕ, (parse? text).map bytes = some n ↔
      ∃ f : SizeForm, f.WellFormed ∧ f.text = text.toList ∧
        0 ≤ f.value ∧ f.cutCount = n ∧ n < 0x1_0000_0000_0000_0000) ∧
    ∀ f : SizeForm, f.WellFormed → f.text = text.toList → 0 ≤ f.value →
      (f.fractionDigits.length ≤ 18 ∨ lowered f.mark ∉ ["mi", "gi", "ti", "pi"] →
        f.cutCount = f.exactCount) ∧
      f.cutCount ≤ f.exactCount ∧ f.exactCount ≤ f.cutCount + 1 := by
  refine ⟨fun n => ⟨fun hread => ?_, ?_⟩, fun f hf _ h => ?_⟩
  · obtain ⟨size, hsize, -⟩ := Option.map_eq_some_iff.1 hread
    obtain ⟨f, hf, htext⟩ := exists_sizeForm hsize
    exact ⟨f, hf, htext, (hf.map_bytes_parse?_iff htext).1 hread⟩
  · rintro ⟨f, hf, htext, hcount⟩
    exact (hf.map_bytes_parse?_iff htext).2 hcount
  · exact ⟨hf.cutCount_eq_exactCount h, hf.cutCount_bounds h⟩

/-- A little less than seven thousand bytes and a half. -/
def sevenThousand : SizeForm :=
  ⟨['\n'], .plus, "007".toList, some "0004999999999999999999".toList, [' '], ['K'], 1_000, ['\t']⟩

theorem sevenThousand_wellFormed : sevenThousand.WellFormed where
  before := List.all_eq_true.1 rfl
  digits := List.all_eq_true.1 rfl
  digits_ne_nil := by decide
  between := List.all_eq_true.1 rfl
  unit := by decide
  after := List.all_eq_true.1 rfl

theorem read_nearest_sevenThousand :
    (parse? "\n+007.0004999999999999999999 K\t").map bytes = some 7_000 ∧
    sevenThousand.WellFormed ∧ 0 ≤ sevenThousand.value ∧
    sevenThousand.text = "\n+007.0004999999999999999999 K\t".toList ∧
    sevenThousand.cutCount = sevenThousand.exactCount := by
  have hvalue : 0 ≤ sevenThousand.value := by decide +kernel
  have htext : sevenThousand.text = "\n+007.0004999999999999999999 K\t".toList := by decide +kernel
  obtain ⟨hread, hcut⟩ := read_nearest "\n+007.0004999999999999999999 K\t"
  refine ⟨?_, sevenThousand_wellFormed, hvalue, htext, ?_⟩
  · exact (hread 7_000).2 ⟨_, sevenThousand_wellFormed, htext, hvalue, by decide +kernel, by decide⟩
  · exact (hcut _ sevenThousand_wellFormed htext hvalue).1 (.inr (by decide))

/-- One byte and a half, in mebibytes, with twenty-one digits behind the point. -/
def oneAndAHalf : SizeForm :=
  ⟨[], .absent, ['0'], some "000001430511474609375".toList, [], ['M', 'i'], 1_048_576, []⟩

theorem oneAndAHalf_wellFormed : oneAndAHalf.WellFormed where
  before := List.forall_mem_nil _
  digits := List.all_eq_true.1 rfl
  digits_ne_nil := by decide
  between := List.forall_mem_nil _
  unit := by decide
  after := List.forall_mem_nil _

/-- One byte and a half is read as one byte, though two is nearest. -/
theorem read_oneAndAHalf :
    (parse? "0.000001430511474609375Mi").map bytes = some 1 ∧
    oneAndAHalf.WellFormed ∧ oneAndAHalf.text = "0.000001430511474609375Mi".toList ∧
    oneAndAHalf.value * oneAndAHalf.factor = 3 / 2 ∧ oneAndAHalf.exactCount = 2 :=
  ⟨by decide +kernel, oneAndAHalf_wellFormed, by decide +kernel, by decide +kernel,
    by decide +kernel⟩

end MessageScript.ByteSize
