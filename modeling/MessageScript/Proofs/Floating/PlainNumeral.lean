import MessageScript.Floating.Numeral
import MessageScript.Proofs.Floating.Value
import MessageScript.Proofs.Text.Reading

/-!
# Numbers written without an exponent

A plain numeral is a minus sign or none, digits, and a point with digits behind it if there are any.
Numbers are written so from a whole number of units of the last place: those rounded to a count of
places, and the shortest decimals.

    (ofUnits negative places units).value = ± units / 10 ^ places                    (value_ofUnits)
    1 < (ofUnits negative places units).whole.length → it does not start with a zero
                                                                             (head?_whole_ofUnits)
    x.withPlaces places = (ofUnits x.negative places n).text, and n is nearest to |x| * 10 ^ places
                                                                                 (withPlaces_units)
    positionalText (digits d) e = (ofUnits false (-e).toNat (d * 10 ^ e.toNat)).text
                                                                            (positionalText_digits)
-/

namespace MessageScript

open Text

namespace Text

theorem ofDigits_zeros_append (k : ℕ) (cs : List Char) :
    ofDigits (List.replicate k '0' ++ cs) = ofDigits cs := by
  rw [ofDigits_append, ofDigits_zeros, Nat.zero_mul, Nat.zero_add]

theorem powerOfTen_ne_zero (k : ℕ) : ((powerOfTen k : ℕ) : ℚ) ≠ 0 :=
  Nat.cast_ne_zero.2 (powerOfTen_pos k).ne'

theorem powerOfTen_cast (k : ℕ) : ((powerOfTen k : ℕ) : ℚ) = 10 ^ k := by
  have h : powerOfTen k = 10 ^ k := rfl
  exact_mod_cast h

/-- Zeros behind a fraction do not change it. -/
theorem ofDigits_append_zeros_div (cs : List Char) (k : ℕ) :
    (ofDigits (cs ++ List.replicate k '0') : ℚ) /
      powerOfTen (cs ++ List.replicate k '0').length = ofDigits cs / powerOfTen cs.length := by
  rw [ofDigits_append, ofDigits_zeros, List.length_append, List.length_replicate, powerOfTen_add,
    Nat.add_zero, Nat.cast_mul, Nat.cast_mul, mul_div_mul_right _ _ (powerOfTen_ne_zero k)]

/-- The digits in front of the point and those behind it. -/
theorem ofDigits_append_div (whole fraction : List Char) :
    (ofDigits (whole ++ fraction) : ℚ) / powerOfTen fraction.length =
      ofDigits whole + (ofDigits fraction : ℚ) / powerOfTen fraction.length := by
  rw [ofDigits_append]
  push_cast
  rw [add_div, mul_div_cancel_right₀ _ (powerOfTen_ne_zero _)]

end Text

/-- A number written without an exponent: whether it has a minus sign, its digits in front of the
point, and those behind it.  Without digits behind it there is no point. -/
structure PlainNumeral where
  negative : Bool
  whole : List Char
  fraction : List Char
  deriving DecidableEq, Repr

namespace PlainNumeral

/-- How a number is written: the sign, the digits and the point. -/
def text (n : PlainNumeral) : List Char :=
  (if n.negative then ['-'] else []) ++
    (n.whole ++ if n.fraction = [] then [] else '.' :: n.fraction)

/-- Whether the parts are digits, and there are some in front of the point. -/
structure WellFormed (n : PlainNumeral) : Prop where
  whole : AllDigits n.whole
  whole_ne_nil : n.whole ≠ []
  fraction : AllDigits n.fraction

/-- The number that the digits denote, without the sign. -/
def magnitude (n : PlainNumeral) : ℚ :=
  (ofDigits (n.whole ++ n.fraction) : ℚ) / powerOfTen n.fraction.length

/-- The number that is written. -/
def value (n : PlainNumeral) : ℚ := (if n.negative then -1 else 1) * n.magnitude

/-- So many units of the last of `places` decimal places. -/
def ofUnits (negative : Bool) (places units : ℕ) : PlainNumeral :=
  let ds := paddedDigits (places + 1) units
  ⟨negative, ds.take (ds.length - places), ds.drop (ds.length - places)⟩

variable {negative : Bool} {places units : ℕ}

theorem length_fraction_ofUnits : (ofUnits negative places units).fraction.length = places := by
  have hlength := le_length_paddedDigits (places + 1) units
  unfold ofUnits
  rw [List.length_drop]
  omega

theorem length_whole_ofUnits : (ofUnits negative places units).whole.length =
    (paddedDigits (places + 1) units).length - places := by
  unfold ofUnits
  rw [List.length_take]
  omega

theorem whole_append_fraction_ofUnits : (ofUnits negative places units).whole ++
    (ofUnits negative places units).fraction = paddedDigits (places + 1) units :=
  List.take_append_drop _ _

theorem ofUnits_wellFormed (negative : Bool) (places units : ℕ) :
    (ofUnits negative places units).WellFormed where
  whole := fun c hc => allDigits_paddedDigits _ _ c (List.mem_of_mem_take hc)
  whole_ne_nil := by
    have hlength := le_length_paddedDigits (places + 1) units
    refine List.ne_nil_of_length_pos ?_
    rw [length_whole_ofUnits]
    omega
  fraction := fun c hc => allDigits_paddedDigits _ _ c (List.mem_of_mem_drop hc)

theorem magnitude_ofUnits (negative : Bool) (places units : ℕ) :
    (ofUnits negative places units).magnitude = (units : ℚ) / powerOfTen places := by
  rw [magnitude, whole_append_fraction_ofUnits, ofDigits_paddedDigits, length_fraction_ofUnits]

theorem value_ofUnits (negative : Bool) (places units : ℕ) : (ofUnits negative places units).value =
    (if negative then -1 else 1) * ((units : ℚ) / powerOfTen places) := by
  rw [value, magnitude_ofUnits]
  rfl

/-- Several digits in front of the point do not start with a zero. -/
theorem head?_whole_ofUnits (h : 1 < (ofUnits negative places units).whole.length) :
    (ofUnits negative places units).whole.head? ≠ some '0' := by
  rw [length_whole_ofUnits] at h
  have hbare := paddedDigits_of_lt_length (w := places + 1) (n := units) (by omega)
  have hne : units ≠ 0 := by
    rintro rfl
    rw [hbare] at h
    exact absurd h (by simp [digits])
  unfold ofUnits
  rw [hbare, List.head?_take, if_neg (by rw [← hbare]; omega)]
  exact head?_digits hne

theorem text_ofUnits (negative : Bool) (places units : ℕ) : (ofUnits negative places units).text =
    (if negative then ['-'] else []) ++ Floating.pointed places units := by
  have hnil : (ofUnits negative places units).fraction = [] ↔ places = 0 := by
    rw [← List.length_eq_zero_iff, length_fraction_ofUnits]
  unfold text Floating.pointed
  rw [if_congr hnil rfl rfl]
  refine congrArg₂ (· ++ ·) rfl ?_
  split
  · exact List.append_nil _
  · rfl

end PlainNumeral

namespace Floating

variable {f : FloatFormat} {x : Floating f}

/-- **A number rounded to a count of places is written as the nearest whole number of units of the
last place, ties to even.** -/
theorem withPlaces_units (hx : x.isFinite = true) (places : ℕ) :
    ∃ units : ℕ, x.withPlaces places = (PlainNumeral.ofUnits x.negative places units).text ∧
      NearestEven (x.abs.value * powerOfTen places) units := by
  obtain ⟨s, e, hparts, -⟩ := exists_parts hx
  have habs : x.abs.value = s * 2 ^ e := value_of_parts_nonneg (x := x.abs) hparts rfl
  refine ⟨roundHalfEven ((ratio s e).1 * powerOfTen places) (ratio s e).2, ?_, ?_⟩
  · rw [PlainNumeral.text_ofUnits]
    unfold withPlaces
    rw [hparts]
    rfl
  · have hnear := nearestEven_roundHalfEven ((ratio s e).1 * powerOfTen places) (ratio_pos s e)
    rw [Nat.cast_mul, mul_div_right_comm, ratio_eq] at hnear
    rw [habs]
    exact hnear

/-- A number less than half a unit away from a whole number of units is written as these. -/
theorem withPlaces_of_near {places units : ℕ} (hx : x.Unsigned)
    (h : |x.value * powerOfTen places - units| < 1 / 2) :
    x.withPlaces places = (PlainNumeral.ofUnits false places units).text := by
  obtain ⟨m, htext, hm⟩ := withPlaces_units hx.finite places
  have habs : x.abs = x := ext hx.negative.symm rfl
  have hunits : NearestEven (x.value * powerOfTen places) (units : ℕ) :=
    .of_lt (by exact_mod_cast h)
  rw [habs] at hm
  rw [htext, hx.negative, Nat.cast_inj.1 (hm.unique hunits)]

theorem value_eq_abs (x : Floating f) :
    x.value = (if x.negative then -1 else 1) * x.abs.value := by
  have hparts : x.abs.parts = x.parts := rfl
  have hsign : x.abs.negative = false := rfl
  unfold value
  rw [hparts, hsign]
  cases x.parts with
  | finite s e => simp only [if_neg Bool.false_ne_true, one_mul]
  | infinite => exact (mul_zero _).symm
  | notANumber => exact (mul_zero _).symm

/-- A decimal without an exponent is so many units of its last place, or of one if that is in front
of the point. -/
theorem positionalText_digits {d : ℕ} (hd : 0 < d) (e : ℤ) :
    positionalText (digits d) e = pointed (-e).toNat (d * powerOfTen e.toNat) := by
  have hne := List.length_pos_iff.2 (digits_ne_nil d)
  unfold positionalText pointed
  simp only
  split
  · next he =>
    have hplaces : (-e).toNat = 0 := by omega
    rw [hplaces, if_pos rfl, Nat.sub_zero, List.take_length,
      paddedDigits_eq_digits (List.length_pos_iff.2 (digits_ne_nil _)), digits_mul_powerOfTen hd]
  · next he =>
    have hpower : e.toNat = 0 := by omega
    have hplaces : (-e).toNat ≠ 0 := by omega
    rw [hpower, if_neg hplaces, show powerOfTen 0 = 1 from rfl, Nat.mul_one]
    split
    · next hpoint =>
      rw [paddedDigits_eq_digits (w := (-e).toNat + 1) (n := d) (by omega),
        show ((digits d).length + e).toNat = (digits d).length - (-e).toNat by omega]
    · next hpoint =>
      have hpadded : paddedDigits ((-e).toNat + 1) d =
          '0' :: (List.replicate (-((digits d).length + e)).toNat '0' ++ digits d) := by
        rw [paddedDigits, zeroFill, ← List.cons_append, ← List.replicate_succ]
        congr 2
        omega
      have hlength : (paddedDigits ((-e).toNat + 1) d).length - (-e).toNat = 1 := by
        rw [hpadded, List.length_cons, List.length_append, List.length_replicate]
        omega
      rw [hlength, hpadded]
      rfl

end Floating

end MessageScript
