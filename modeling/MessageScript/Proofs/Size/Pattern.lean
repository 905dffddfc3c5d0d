import MessageScript.Proofs.Floating.PlainNumeral
import MessageScript.Proofs.Size.Form

/-!
# Decimal patterns as they are written

A pattern is zeros and hash marks, at least one, and optionally a point with zeros and then hash
marks behind it (`PatternForm`); no other text is one.  A number written after a pattern is a plain
numeral with the digits that the pattern allows (`Follows`), and denotes the number rounded to as
many places as the pattern has behind the point, ties to even (`RoundsAt`).

    ofText? cs = some p ↔ ∃ f, f.WellFormed ∧ f.text = cs ∧ f.pattern = p         (ofText?_iff_form)
    p.shape n.text = (p.shaped n).text                                                  (shape_text)
    (p.shaped n).value = n.value                                                      (value_shaped)
    parse text = .ok p → ∃ n, p.render x = n.text ∧ Follows p n ∧ RoundsAt …         (pattern_means)
-/

namespace MessageScript

open Text

namespace DecimalPattern

variable {p : DecimalPattern} {n : PlainNumeral} {cs : List Char}

/-! ## Patterns -/

/-- A pattern as it is written: the characters in front of the point, and if there is a point, how
many zeros and how many hash marks are behind it. -/
structure PatternForm where
  whole : List Char
  fraction : Option (ℕ × ℕ)

namespace PatternForm

/-- The characters behind the point. -/
def fractionText (f : PatternForm) : Option (List Char) :=
  f.fraction.map fun counts => List.replicate counts.1 '0' ++ List.replicate counts.2 '#'

/-- The whole text. -/
def text (f : PatternForm) : List Char := f.whole ++ ByteSize.pointed f.fractionText

/-- Whether there is something in front of the point, and it is zeros and hash marks. -/
structure WellFormed (f : PatternForm) : Prop where
  whole_ne_nil : f.whole ≠ []
  whole : ∀ c ∈ f.whole, c = '0' ∨ c = '#'

/-- What the pattern asks for: at least one digit in front of the point, and a digit for each zero
there, at least a digit behind it for each zero and at most one for each character. -/
def pattern (f : PatternForm) : DecimalPattern where
  minWhole := max (f.whole.count '0') 1
  minFraction := (f.fraction.getD (0, 0)).1
  maxFraction := (f.fraction.getD (0, 0)).1 + (f.fraction.getD (0, 0)).2

variable {f : PatternForm}

theorem WellFormed.splitPoint_text (hf : f.WellFormed) :
    splitPoint f.text = (f.whole, f.fractionText) := by
  refine ByteSize.splitPoint_append (fun hmem => ?_) f.fractionText
  obtain h | h := hf.whole _ hmem <;> cases h

end PatternForm

/-- Zeros and then hash marks are taken apart. -/
theorem takeWhile_zeros_hashes (zeros hashes : ℕ) :
    (List.replicate zeros '0' ++ List.replicate hashes '#').takeWhile (· == '0') =
        List.replicate zeros '0' ∧
      (List.replicate zeros '0' ++ List.replicate hashes '#').dropWhile (· == '0') =
        List.replicate hashes '#' := by
  have hzeros : ∀ c ∈ List.replicate zeros '0', (c == '0') = true :=
    fun c hc => beq_iff_eq.2 (List.eq_of_mem_replicate hc)
  have hhashes : ∀ c, (List.replicate hashes '#').head? = some c → (c == '0') = false := by
    intro c hc
    rw [List.eq_of_mem_replicate (List.mem_of_head? hc)]
    rfl
  exact ⟨takeWhile_append_eq_left hzeros hhashes, dropWhile_append_eq_right hzeros hhashes⟩

theorem takeWhile_hashes (hashes : ℕ) :
    (List.replicate hashes '#').takeWhile (· == '#') = List.replicate hashes '#' :=
  List.takeWhile_eq_self_iff.2 fun _ hc => beq_iff_eq.2 (List.eq_of_mem_replicate hc)

theorem PatternForm.WellFormed.ofText?_text {f : PatternForm} (hf : f.WellFormed) :
    ofText? f.text = some f.pattern := by
  have hwhole : f.whole.all (fun c => c == '0' || c == '#') = true := by
    refine List.all_eq_true.2 fun c hc => ?_
    rw [Bool.or_eq_true, beq_iff_eq, beq_iff_eq]
    exact hf.whole c hc
  have hfraction : f.fractionText.getD [] = List.replicate (f.fraction.getD (0, 0)).1 '0' ++
      List.replicate (f.fraction.getD (0, 0)).2 '#' := by
    unfold fractionText
    cases f.fraction <;> rfl
  obtain ⟨hzeros, hrest⟩ :=
    takeWhile_zeros_hashes (f.fraction.getD (0, 0)).1 (f.fraction.getD (0, 0)).2
  unfold ofText?
  simp only [hf.splitPoint_text, hfraction, hzeros, hrest, takeWhile_hashes, hwhole,
    List.length_replicate]
  rw [if_neg]
  · rfl
  · rintro (hnil | hmark | hne)
    · exact hf.whole_ne_nil hnil
    · cases hmark
    · exact hne rfl

/-- **The texts that are patterns.** -/
theorem ofText?_iff_form :
    ofText? cs = some p ↔ ∃ f : PatternForm, f.WellFormed ∧ f.text = cs ∧ f.pattern = p := by
  constructor
  · intro h
    rcases hsplit : splitPoint cs with ⟨whole, fraction⟩
    unfold ofText? at h
    simp only [hsplit] at h
    split at h
    · cases h
    · next hvalid =>
      rw [not_or, not_or, Bool.not_eq_true', Bool.not_eq_false, not_not] at hvalid
      obtain ⟨hne, hwhole, hfraction⟩ := hvalid
      have hform : (⟨whole, fraction.map fun run => ((run.takeWhile (· == '0')).length,
          ((run.dropWhile (· == '0')).takeWhile (· == '#')).length)⟩ : PatternForm).WellFormed := by
        refine ⟨hne, fun c hc => ?_⟩
        have hc' := List.all_eq_true.1 hwhole c hc
        rwa [Bool.or_eq_true, beq_iff_eq, beq_iff_eq] at hc'
      refine ⟨_, hform, ?_, ?_⟩
      · rw [ByteSize.eq_of_splitPoint hsplit, PatternForm.text, PatternForm.fractionText]
        cases fraction with
        | none => rfl
        | some run =>
          have hrun : List.replicate (run.takeWhile (· == '0')).length '0' ++ List.replicate
              ((run.dropWhile (· == '0')).takeWhile (· == '#')).length '#' = run := by
            rw [← takeWhile_beq, ← takeWhile_beq]
            exact hfraction
          rw [Option.map_some, Option.map_some, hrun]
      · rw [← Option.some.inj h]
        cases fraction <;> rfl
  · rintro ⟨f, hf, rfl, rfl⟩
    exact hf.ofText?_text

/-! ## Shaping -/

/-- A numeral brought to the pattern. -/
def shaped (p : DecimalPattern) (n : PlainNumeral) : PlainNumeral where
  negative := n.negative
  whole := zeroFill p.minWhole n.whole
  fraction := trimZeros p.minFraction n.fraction

theorem shaped_wellFormed (p : DecimalPattern) (hn : n.WellFormed) : (p.shaped n).WellFormed where
  whole := allDigits_append.2 ⟨allDigits_zeros _, hn.whole⟩
  whole_ne_nil := List.append_ne_nil_of_right_ne_nil _ hn.whole_ne_nil
  fraction := by
    obtain ⟨k, hk⟩ := exists_eq_trimZeros_append p.minFraction n.fraction
    have hdigits := hn.fraction
    rw [hk] at hdigits
    exact (allDigits_append.1 hdigits).1

/-- The text of a numeral is split at its point, if it has one. -/
theorem splitPoint_text (hn : n.WellFormed) : splitPoint n.text =
    ((if n.negative then ['-'] else []) ++ n.whole,
      if n.fraction = [] then none else some n.fraction) := by
  have hpoint : '.' ∉ (if n.negative then ['-'] else []) ++ n.whole := by
    intro hmem
    obtain hsign | hwhole := List.mem_append.1 hmem
    · cases hneg : n.negative <;> simp [hneg] at hsign
    · cases hn.whole _ hwhole
  rw [← ByteSize.splitPoint_append hpoint, PlainNumeral.text, ← List.append_assoc]
  by_cases hnil : n.fraction = []
  · rw [if_pos hnil, if_pos hnil]
    rfl
  · rw [if_neg hnil, if_neg hnil]
    rfl

/-- **Shaping the text of a numeral shapes the numeral.** -/
theorem shape_text (p : DecimalPattern) (hn : n.WellFormed) :
    p.shape n.text = (p.shaped n).text := by
  have hfraction : (if n.fraction = [] then none else some n.fraction).getD [] = n.fraction := by
    split
    · next hnil => exact hnil.symm
    · rfl
  -- what tells the two branches of `shape` apart
  have hplain : ∀ ds, n.whole ≠ '-' :: ds := by
    intro ds hds
    cases hn.whole '-' (hds ▸ List.mem_cons_self)
  unfold shape PlainNumeral.text
  rw [← PlainNumeral.text, splitPoint_text hn]
  simp only [hfraction]
  cases hneg : n.negative with
  | true =>
    simp only [shaped, hneg, if_true]
    split
    · rw [List.append_nil]
      rfl
    · rfl
  | false =>
    simp only [shaped, hneg, Bool.false_eq_true, if_false, List.nil_append]
    split
    · rw [List.append_nil]
    · rfl

/-- **Shaping keeps the number that is written.** -/
theorem value_shaped (p : DecimalPattern) (n : PlainNumeral) : (p.shaped n).value = n.value := by
  obtain ⟨k, hk⟩ := exists_eq_trimZeros_append p.minFraction n.fraction
  have hmagnitude : (p.shaped n).magnitude = n.magnitude := by
    rw [PlainNumeral.magnitude, PlainNumeral.magnitude, ofDigits_append_div, ofDigits_append_div,
      hk, ofDigits_append_zeros_div]
    unfold shaped
    rw [ofDigits_zeroFill]
  rw [PlainNumeral.value, PlainNumeral.value, hmagnitude]
  rfl

/-! ## Rendering -/

/-- Whether a numeral has the digits that a pattern asks for: zeros in front only up to the least
count of digits, and behind the point no zero at the end beyond the least count there. -/
structure Follows (p : DecimalPattern) (n : PlainNumeral) : Prop where
  wellFormed : n.WellFormed
  whole_length : p.minWhole ≤ n.whole.length
  whole_bare : p.minWhole < n.whole.length → n.whole.head? ≠ some '0'
  fraction_length : p.minFraction ≤ n.fraction.length ∧ n.fraction.length ≤ p.maxFraction
  fraction_trimmed : p.minFraction < n.fraction.length → n.fraction.getLast? ≠ some '0'

/-- Whether one number is another rounded to a count of decimal places, ties to even. -/
def RoundsAt (places : ℕ) (x y : ℚ) : Prop :=
  ∃ k : ℤ, NearestEven (x * powerOfTen places) k ∧ y = k / powerOfTen places

variable {places units : ℕ} {negative : Bool}

/-- A numeral of so many places that is brought to a pattern of so many places follows it. -/
theorem follows_shaped (hwhole : 0 < p.minWhole) (hfraction : p.minFraction ≤ p.maxFraction) :
    Follows p (p.shaped (.ofUnits negative p.maxFraction units)) where
  wellFormed := shaped_wellFormed p (PlainNumeral.ofUnits_wellFormed _ _ _)
  whole_length := by
    unfold shaped zeroFill
    rw [List.length_append, List.length_replicate]
    omega
  whole_bare := by
    intro h
    unfold shaped zeroFill at h ⊢
    rw [List.length_append, List.length_replicate] at h
    rw [Nat.sub_eq_zero_of_le (by omega), List.replicate_zero, List.nil_append]
    have hlong : 1 < (PlainNumeral.ofUnits negative p.maxFraction units).whole.length := by omega
    exact PlainNumeral.head?_whole_ofUnits hlong
  fraction_length := by
    refine ⟨le_length_trimZeros ?_, (length_trimZeros_le _ _).trans_eq ?_⟩
    · rwa [PlainNumeral.length_fraction_ofUnits]
    · exact PlainNumeral.length_fraction_ofUnits
  fraction_trimmed := getLast?_trimZeros

theorem roundsAt_ofUnits {x : Floating .double}
    (hnear : NearestEven (x.abs.value * powerOfTen places) units) :
    RoundsAt places x.value (PlainNumeral.ofUnits x.negative places units).value := by
  rw [PlainNumeral.value_ofUnits, x.value_eq_abs]
  cases x.negative with
  | false => exact ⟨units, by simpa using hnear, by simp⟩
  | true =>
    refine ⟨-units, by simpa using hnear.neg, ?_⟩
    push_cast
    simp [neg_div]

/-- A pattern that is read asks for a digit in front of the point, and not for more digits behind it
than it allows. -/
theorem bounds_of_ofText? (h : ofText? cs = some p) :
    0 < p.minWhole ∧ p.minFraction ≤ p.maxFraction := by
  obtain ⟨f, -, -, rfl⟩ := ofText?_iff_form.1 h
  exact ⟨Nat.lt_of_lt_of_le Nat.one_pos (Nat.le_max_right _ _), Nat.le_add_right _ _⟩

theorem parse_eq_ok_iff {text : String} : parse text = .ok p ↔ ofText? text.toList = some p := by
  unfold parse
  cases ofText? text.toList with
  | none => exact iff_of_false nofun nofun
  | some q => exact ⟨fun h => congrArg some (Except.ok.inj h), fun h =>
      congrArg Except.ok (Option.some.inj h)⟩

/-- **Patterns mean what they say.**  Exactly the texts of the form are patterns, and every finite
number is written after a pattern with the digits that it asks for, rounded to as many places as it
has behind the point. -/
theorem pattern_means (text : String) :
    (∀ p, parse text = .ok p ↔
      ∃ f : PatternForm, f.WellFormed ∧ f.text = text.toList ∧ f.pattern = p) ∧
    ∀ p, parse text = .ok p → ∀ x : Floating .double, x.isFinite = true →
      ∃ n : PlainNumeral, p.render x = String.ofList n.text ∧ n.negative = x.negative ∧
        Follows p n ∧ RoundsAt p.maxFraction x.value n.value := by
  refine ⟨fun p => parse_eq_ok_iff.trans ofText?_iff_form, fun p hp x hx => ?_⟩
  obtain ⟨hwhole, hfraction⟩ := bounds_of_ofText? (parse_eq_ok_iff.1 hp)
  obtain ⟨units, htext, hnear⟩ := Floating.withPlaces_units hx p.maxFraction
  refine ⟨p.shaped (.ofUnits x.negative p.maxFraction units), ?_, rfl,
    follows_shaped hwhole hfraction, ?_⟩
  · rw [render, htext, shape_text p (PlainNumeral.ofUnits_wellFormed _ _ _)]
  · rw [value_shaped]
    exact roundsAt_ofUnits hnear

/-- The rounding carries into the digits in front of the point, and the zeros behind are cut. -/
theorem pattern_means_carry :
    let x := Floating.ofRatio .double true 99_996 100_000
    parse "00.0##" = .ok ⟨2, 1, 3⟩ ∧ x.isFinite = true ∧
    (⟨2, 1, 3⟩ : DecimalPattern).render x = "-01.0" ∧
    ∃ n : PlainNumeral, (⟨2, 1, 3⟩ : DecimalPattern).render x = String.ofList n.text ∧
      n.negative = x.negative ∧ Follows ⟨2, 1, 3⟩ n ∧ RoundsAt 3 x.value n.value := by
  have hparse : parse "00.0##" = .ok ⟨2, 1, 3⟩ := by decide +kernel
  have hfinite : (Floating.ofRatio .double true 99_996 100_000).isFinite = true := by decide +kernel
  exact ⟨hparse, hfinite, by decide +kernel, (pattern_means "00.0##").2 _ hparse _ hfinite⟩

end DecimalPattern

end MessageScript
