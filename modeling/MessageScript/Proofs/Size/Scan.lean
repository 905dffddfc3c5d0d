import MessageScript.Proofs.Size.Form
import MessageScript.Proofs.Text.Scan

/-!
# Byte sizes scanned

The scan of a byte size: the text is split behind the last character that can stand in its numeral,
the sign is cut off, and the digits are computed with in words of 128 bits.  Only the first eighteen
digits behind the point are scaled, so that their product with the factor fits.  Where the digits in
front of the point do not fit their word, the count would not fit a size either.

    runSize text.toList = .ofOption (parse? text)                                      (runSize_eq)
-/

namespace MessageScript.ByteSize

open Text

/-! ## Scans -/

/-- The place of the first character that cannot stand in a numeral, the end if there is none. -/
def numeralEnd : List Char → Nat
  | [] => 0
  | c :: cs => if isNumeralChar c then c.utf8Size + numeralEnd cs else 0

/-- The bytes in the unit that a mark names. -/
def markFactor (mark : List Char) : Outcome Nat :=
  if mark = [] then .result 1
  else do
    let unit ← .ofOption (Magnitude.ofSuffix? mark)
    Word.w64.unsigned unit.factor

/-- Whether a numeral has a minus sign, and what is behind its sign. -/
def cutSign (numeral : List Char) : Outcome (Bool × List Char) :=
  if byteAtIs numeral (· == '-') 0 then do
    return (true, ← slice numeral 1 (byteLength numeral))
  else if byteAtIs numeral (· == '+') 0 then do
    return (false, ← slice numeral 1 (byteLength numeral))
  else return (false, numeral)

/-- The number in front of the point. -/
def wholeNumber (whole : List Char) : Outcome Nat :=
  if whole = [] then .result 0 else .ofOption (Word.w128.parse? whole)

/-- The digits behind the point that count, scaled and rounded. -/
def scaledFraction (fraction : List Char) (factor : Nat) : Outcome Nat := do
  let kept ← slice fraction 0 (min (byteLength fraction) fractionDigits)
  if kept = [] then .result 0
  else
    let numerator ← .ofOption (Word.w128.parse? kept)
    let denominator ← Word.w128.unsigned (powerOfTen (byteLength kept))
    let product ← Word.w128.unsigned (numerator * factor)
    let (quotient, remainder) ← divide product denominator
    let double ← Word.w128.unsigned (remainder * 2)
    if denominator ≤ double then Word.w128.unsigned (quotient + 1) else .result quotient

/-- The size of digits in front of a point and behind it. -/
def scanDigits (whole fraction : List Char) (nonzero : Bool) (factor : Nat) :
    Outcome ByteSize := do
  let whole ← wholeNumber whole
  let scaled ← scaledFraction fraction factor
  let product ← .ofOption (Word.w128.unsigned? (whole * factor : Nat))
  let total ← .ofOption (Word.w128.unsigned? (product + scaled : Nat))
  .ofOption (ofNat? (if total = 0 ∧ nonzero then 1 else total))

/-- The size that a numeral in a unit denotes. -/
def scanNumeral (numeral : List Char) (factor : Nat) : Outcome ByteSize := do
  let (negative, unsigned) ← cutSign numeral
  let (whole, fraction) := DecimalPattern.splitPoint unsigned
  let digits := whole ++ fraction.getD []
  let nonzero := !(utf8 digits).all (byteIs (· == '0'))
  if digits = [] ∨ !(utf8 digits).all (byteIs Char.isDigit) then .refusal
  else if negative ∧ nonzero then .refusal
  else scanDigits whole (fraction.getD []) nonzero factor

/-- The size that a text denotes. -/
def runSize (text : List Char) : Outcome ByteSize := do
  let (numeral, mark) ← splitBytes (numeralEnd (trim text)) (trim text)
  let factor ← markFactor (trimStart mark)
  scanNumeral numeral factor

/-! ## Parts -/

variable {cs mark whole fraction run : List Char} {factor n : Nat} {nonzero : Bool}

theorem numeralEnd_eq (cs : List Char) :
    numeralEnd cs = byteLength (cs.takeWhile isNumeralChar) := by
  induction cs with
  | nil => rfl
  | cons c cs ih =>
    unfold numeralEnd
    cases hc : isNumeralChar c with
    | false =>
      rw [if_neg Bool.false_ne_true, List.takeWhile_cons_of_neg (by rw [hc]; decide)]
      rfl
    | true => rw [if_pos rfl, List.takeWhile_cons_of_pos hc, byteLength_cons, ih]

/-- The numeral is split off at the end of a character. -/
theorem splitBytes_numeralEnd (cs : List Char) : splitBytes (numeralEnd cs) cs =
    .result (cs.takeWhile isNumeralChar, cs.dropWhile isNumeralChar) := by
  have hsplit := splitBytes_append (cs.takeWhile isNumeralChar) (cs.dropWhile isNumeralChar)
  rwa [List.takeWhile_append_dropWhile, ← numeralEnd_eq] at hsplit

/-- The greatest factor. -/
theorem unitFactor?_le (h : unitFactor? mark = some factor) : factor ≤ 1_125_899_906_842_624 := by
  have hall : ∀ u ∈ units, u.2 ≤ 1_125_899_906_842_624 := by decide
  exact hall _ (unitFactor?_eq_some_iff.1 h)

theorem unitFactor?_pos (h : unitFactor? mark = some factor) : 0 < factor := by
  have hall : ∀ u ∈ units, 0 < u.2 := by decide
  exact hall _ (unitFactor?_eq_some_iff.1 h)

theorem markFactor_eq (mark : List Char) : markFactor mark = .ofOption (unitFactor? mark) := by
  by_cases hmark : mark = []
  · rw [markFactor, unitFactor?, if_pos hmark, if_pos hmark]
    rfl
  · have hle : ∀ k, unitFactor? mark = some k → k ≤ 1_125_899_906_842_624 := fun k => unitFactor?_le
    rw [unitFactor?, if_neg hmark] at hle
    rw [markFactor, unitFactor?, if_neg hmark, if_neg hmark]
    cases hunit : Magnitude.ofSuffix? mark with
    | none => rfl
    | some unit =>
      rw [hunit] at hle
      exact Word.unsigned_eq (Nat.lt_of_le_of_lt (hle _ rfl) (by decide))

/-- What is behind an ASCII character is cut out. -/
theorem slice_one {c : Char} (hc : c.toNat < 128) (cs : List Char) :
    slice (c :: cs) 1 (byteLength (c :: cs)) = .result cs := by
  have hslice := slice_append [c] cs []
  rwa [List.append_nil, ← byteLength_append, byteLength_cons, utf8Size_eq_one hc] at hslice

theorem cutSign_eq (numeral : List Char) :
    cutSign numeral = .result (Floating.splitSign numeral) := by
  have hhead : ∀ c : Char, c.toNat < 128 →
      byteAtIs numeral (· == c) 0 = numeral.head?.any (· == c) :=
    fun c hc => (standsAt_start numeral).byteAtIs (isAscii_eq hc)
  unfold cutSign
  rw [hhead '-' (by decide), hhead '+' (by decide)]
  cases numeral with
  | nil => rfl
  | cons c cs =>
    rw [List.head?_cons, Option.any_some, Option.any_some]
    by_cases hminus : c = '-'
    · subst hminus
      rw [if_pos (beq_self_eq_true _), slice_one (by decide)]
      rfl
    by_cases hplus : c = '+'
    · subst hplus
      rw [if_neg (by decide), if_pos (beq_self_eq_true _), slice_one (by decide)]
      rfl
    have hsign : Floating.splitSign (c :: cs) = (false, c :: cs) := by
      unfold Floating.splitSign
      split
      · next heq => exact absurd (List.cons.inj heq).1 hminus
      · next heq => exact absurd (List.cons.inj heq).1 hplus
      · rfl
    rw [beq_false_of_ne hminus, beq_false_of_ne hplus, hsign]
    rfl

/-! ## Numbers -/

/-- The first digits are cut out of a run. -/
theorem slice_take (hrun : AllDigits run) (count : Nat) :
    slice run 0 (min (byteLength run) count) = .result (run.take count) := by
  have hkept : AllDigits (run.take count) := fun c hc => hrun c (List.mem_of_mem_take hc)
  have hslice := slice_append [] (run.take count) (run.drop count)
  rwa [List.nil_append, List.take_append_drop, byteLength_digits hkept, List.length_take,
    ← byteLength_digits hrun, min_comm, show byteLength [] + _ = _ from Nat.zero_add _] at hslice

theorem wholeNumber_eq (hwhole : AllDigits whole) :
    wholeNumber whole = .ofOption (Word.w128.unsigned? (ofDigits whole)) := by
  by_cases hnil : whole = []
  · rw [wholeNumber, if_pos hnil, hnil]
    rfl
  · rw [wholeNumber, if_neg hnil, Word.parse?_digits hwhole hnil]

theorem roundHalfUp_zero {den : Nat} (h : 0 < den) : roundHalfUp 0 den = 0 := by
  rw [roundHalfUp, Nat.zero_mod, Nat.zero_div, if_pos h]

/-- Eighteen digits are scaled and rounded without overflow. -/
theorem scaledFraction_eq (hfraction : AllDigits fraction)
    (hfactor : factor ≤ 1_125_899_906_842_624) : scaledFraction fraction factor =
      .result (roundHalfUp (ofDigits (fraction.take fractionDigits) * factor)
        (powerOfTen (fraction.take fractionDigits).length)) := by
  have hkept : AllDigits (fraction.take fractionDigits) :=
    fun c hc => hfraction c (List.mem_of_mem_take hc)
  have hlength : (fraction.take fractionDigits).length ≤ 18 := List.length_take_le _ _
  unfold scaledFraction
  rw [slice_take hfraction, Outcome.result_bind]
  generalize fraction.take fractionDigits = kept at hkept hlength
  by_cases hnil : kept = []
  · rw [if_pos hnil, hnil]
    have hzero : ofDigits [] * factor = 0 := Nat.zero_mul factor
    rw [hzero, roundHalfUp_zero (powerOfTen_pos _)]
  · -- eighteen digits times 2^50 are less than 2^128
    have hword : Word.w128.patterns = 0x1_0000_0000_0000_0000_0000_0000_0000_0000 := rfl
    have hpower : powerOfTen kept.length ≤ powerOfTen 18 :=
      Nat.pow_le_pow_right (by decide) hlength
    have hnumber : ofDigits kept < powerOfTen 18 := (ofDigits_lt hkept).trans_le hpower
    have hplaces : powerOfTen 18 = 1_000_000_000_000_000_000 := rfl
    have hproduct : ofDigits kept * factor ≤ powerOfTen 18 * 1_125_899_906_842_624 :=
      Nat.mul_le_mul hnumber.le hfactor
    have hpos := powerOfTen_pos kept.length
    rw [if_neg hnil, Word.parse?_digits hkept hnil, Word.unsigned?_natCast (by omega),
      Outcome.ofOption_some_bind, byteLength_digits hkept, Word.unsigned_eq (by omega),
      Outcome.result_bind, Word.unsigned_eq (by omega), Outcome.result_bind, divide_eq hpos,
      Outcome.result_bind]
    have hmod := Nat.mod_lt (ofDigits kept * factor) hpos
    have hdiv := Nat.div_le_self (ofDigits kept * factor) (powerOfTen kept.length)
    dsimp only
    rw [Word.unsigned_eq (by omega), Outcome.result_bind]
    unfold roundHalfUp
    by_cases hhalf : powerOfTen kept.length ≤ ofDigits kept * factor % powerOfTen kept.length * 2
    · rw [if_pos hhalf, if_neg (by omega), Word.unsigned_eq (by omega)]
    · rw [if_neg hhalf, if_pos (by omega)]

/-- A count is put together from its parts if it fits a word itself. -/
theorem checked_total (w : Word) (hpos : 0 < factor) (n scaled : Nat)
    (next : Nat → Outcome ByteSize) : (do
      let whole ← .ofOption (w.unsigned? n)
      let scaled ← .result scaled
      let product ← .ofOption (w.unsigned? (whole * factor : Nat))
      let total ← .ofOption (w.unsigned? (product + scaled : Nat))
      next total) = .ofOption (w.unsigned? (n * factor + scaled : Nat)) >>= next := by
  have hwhole : n ≤ n * factor := Nat.le_mul_of_pos_right n hpos
  generalize hproduct : n * factor = product at hwhole
  by_cases hfits : product + scaled < w.patterns
  · rw [Word.unsigned?_natCast (by omega), Outcome.ofOption_some_bind, Outcome.result_bind,
      hproduct, Word.unsigned?_natCast (by omega), Outcome.ofOption_some_bind]
  · rw [Word.unsigned?_eq_none (Nat.not_lt.1 hfits)]
    by_cases hwholeFits : n < w.patterns
    · rw [Word.unsigned?_natCast hwholeFits, Outcome.ofOption_some_bind, Outcome.result_bind,
        hproduct]
      by_cases hproductFits : product < w.patterns
      · rw [Word.unsigned?_natCast hproductFits, Outcome.ofOption_some_bind,
          Word.unsigned?_eq_none (Nat.not_lt.1 hfits)]
      · rw [Word.unsigned?_eq_none (Nat.not_lt.1 hproductFits)]
        rfl
    · rw [Word.unsigned?_eq_none (Nat.not_lt.1 hwholeFits)]
      rfl

/-- Where a word is too small, the count is too great for a size. -/
theorem scanDigits_eq (hwhole : AllDigits whole) (hfraction : AllDigits fraction)
    (hpos : 0 < factor) (hfactor : factor ≤ 1_125_899_906_842_624) :
    scanDigits whole fraction ((whole ++ fraction).any (· != '0')) factor =
      .ofOption (ofNat? (scaledCount whole fraction factor)) := by
  unfold scanDigits scaledCount
  rw [wholeNumber_eq hwhole, scaledFraction_eq hfraction hfactor]
  rw [checked_total Word.w128 hpos]
  dsimp only
  generalize ofDigits whole * factor + roundHalfUp _ _ = total
  by_cases hfits : total < Word.w128.patterns
  · rw [Word.unsigned?_natCast hfits, Outcome.ofOption_some_bind]
  · have hword : Word.w128.patterns = 0x1_0000_0000_0000_0000_0000_0000_0000_0000 := rfl
    have hlarge : ofNat? total = none := dif_neg (by omega)
    rw [Word.unsigned?_eq_none (Nat.not_lt.1 hfits), if_neg fun hzero => hfits (by omega), hlarge]
    rfl

/-- A numeral is read by a machine as by the reader. -/
theorem scanNumeral_eq (numeral : List Char) (hpos : 0 < factor)
    (hfactor : factor ≤ 1_125_899_906_842_624) :
    scanNumeral numeral factor = .ofOption (ofNumeral? numeral factor) := by
  have hzeros : ∀ cs : List Char, (!cs.all (· == '0')) = cs.any (· != '0') :=
    fun _ => List.not_all_eq_any_not
  unfold scanNumeral ofNumeral?
  rw [cutSign_eq, Outcome.result_bind]
  rcases hsign : Floating.splitSign numeral with ⟨negative, unsigned⟩
  rcases hpoint : DecimalPattern.splitPoint unsigned with ⟨whole, fraction⟩
  simp only [hpoint]
  rw [all_byteIs isAscii_isDigit, all_byteIs (isAscii_eq (by decide)), hzeros]
  split
  · rfl
  · next hdigits =>
    rw [not_or, Bool.not_eq_true', Bool.not_eq_false] at hdigits
    obtain ⟨hwhole, hfraction⟩ := allDigits_append.1 (List.all_eq_true.1 hdigits.2)
    split
    · rfl
    · exact scanDigits_eq hwhole hfraction hpos hfactor

/-- **The machine reads a byte size without a fault, as the reader does.** -/
theorem runSize_eq (text : String) : runSize text.toList = .ofOption (parse? text) := by
  unfold runSize parse?
  rw [splitBytes_numeralEnd, Outcome.result_bind]
  dsimp only
  rw [markFactor_eq]
  cases hunit : unitFactor? (trimStart ((trim text.toList).dropWhile isNumeralChar)) with
  | none => rfl
  | some factor =>
    rw [Outcome.ofOption_some_bind, Option.bind_some]
    exact scanNumeral_eq _ (unitFactor?_pos hunit) (unitFactor?_le hunit)

end MessageScript.ByteSize
