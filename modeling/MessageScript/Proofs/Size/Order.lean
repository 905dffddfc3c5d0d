import MessageScript.Proofs.Size.Nearest

/-!
# Byte sizes in the order of their numbers

In one unit, a greater number is never read as a smaller byte size, and one number is read alike
however it is spelled (`Respelled`).  Every byte size is read back from its text.

    f.value ≤ g.value → f.cutCount ≤ g.cutCount                        (cutCount_mono)
    f.value = g.value → parse? f.text = parse? g.text                  (WellFormed.parse?_congr)
    Respelled f g → f.value = g.value                                  (Respelled.value_eq)
-/

namespace MessageScript.ByteSize

open Text

variable {v w x y : ℚ}

theorem round_le_countOf (v x : ℚ) : round x ≤ countOf v x := by
  unfold countOf
  split
  · next hzero =>
    rw [hzero.2]
    decide
  · exact le_rfl

/-- Of greater numbers, the count is not smaller; that no positive number counts as zero does not
change this. -/
theorem countOf_mono (hnumber : v ≤ w) (hquantity : x ≤ y) : countOf v x ≤ countOf w y := by
  have hround := round_le_round hquantity
  by_cases hzero : 0 < v ∧ round x = 0
  · rw [countOf, if_pos hzero]
    rw [hzero.2] at hround
    unfold countOf
    split
    · exact le_rfl
    · next hpositive =>
      have hne : round y ≠ 0 := fun h => hpositive ⟨hzero.1.trans_le hnumber, h⟩
      omega
  · rw [countOf, if_neg hzero]
    exact hround.trans (round_le_countOf w y)

namespace SizeForm

variable {f g : SizeForm}

theorem cutCount_mono (hfactor : f.factor = g.factor) (h : f.value ≤ g.value) :
    f.cutCount ≤ g.cutCount := by
  unfold cutCount
  rw [hfactor]
  exact countOf_mono h (mul_le_mul_of_nonneg_right (cut_mono h) (Nat.cast_nonneg _))

/-- **A number below one that is read is read too, in the same unit, and as no greater size.** -/
theorem WellFormed.parse?_mono (hf : f.WellFormed) (hg : g.WellFormed)
    (hfactor : f.factor = g.factor) (hnonneg : 0 ≤ f.value) (hle : f.value ≤ g.value)
    {b : ByteSize} (hread : parse? (String.ofList g.text) = some b) :
    ∃ a, parse? (String.ofList f.text) = some a ∧ a.bytes ≤ b.bytes := by
  have hbytes : (parse? (String.ofList g.text)).map bytes = some b.bytes :=
    congrArg (Option.map bytes) hread
  obtain ⟨-, hcount, hlt⟩ := (hg.map_bytes_parse?_iff String.toList_ofList.symm).1 hbytes
  have hscaled := hf.scaledCount_eq hnonneg
  have hbelow : scaledCount f.whole f.fractionDigits f.factor ≤ b.bytes := by
    have hmono := cutCount_mono hfactor hle
    rw [hcount, ← hscaled] at hmono
    exact Int.ofNat_le.1 hmono
  obtain ⟨a, ha, hsize⟩ := Option.map_eq_some_iff.1
    ((hf.map_bytes_parse?_iff String.toList_ofList.symm).2
      ⟨hnonneg, hscaled.symm, hbelow.trans_lt hlt⟩)
  exact ⟨a, ha, hsize.trans_le hbelow⟩

/-- **Two spellings of one number in one unit are read alike.** -/
theorem WellFormed.parse?_congr (hf : f.WellFormed) (hg : g.WellFormed)
    (hfactor : f.factor = g.factor) (hvalue : f.value = g.value) :
    parse? (String.ofList f.text) = parse? (String.ofList g.text) := by
  have hnegative : f.Negative ↔ g.Negative := by rw [negative_iff, negative_iff, hvalue]
  rw [hf.parse?_text String.toList_ofList, hg.parse?_text String.toList_ofList]
  by_cases h : f.Negative
  · rw [if_pos h, if_pos (hnegative.1 h)]
  · have hnonneg : 0 ≤ f.value := not_lt.1 fun hlt => h (negative_iff.2 hlt)
    have hcount : f.cutCount = g.cutCount := by unfold cutCount; rw [hvalue, hfactor]
    rw [← hf.scaledCount_eq hnonneg, ← hg.scaledCount_eq (hvalue ▸ hnonneg)] at hcount
    rw [if_neg h, if_neg (h ∘ hnegative.2), Int.ofNat_inj.1 hcount]

end SizeForm

/-! ## Spellings -/

/-- Whether two forms differ at most in blanks, a plus sign, zeros in front of the numeral, zeros
behind its fraction or a point without any digits behind, and the case of the unit's letters. -/
structure Respelled (f g : SizeForm) : Prop where
  sign : f.sign = .minus ↔ g.sign = .minus
  whole : ∃ j k, List.replicate j '0' ++ f.whole = List.replicate k '0' ++ g.whole
  fraction : ∃ j k,
    f.fractionDigits ++ List.replicate j '0' = g.fractionDigits ++ List.replicate k '0'
  mark : lowered f.mark = lowered g.mark

variable {f g : SizeForm}

theorem Respelled.value_eq (h : Respelled f g) : f.value = g.value := by
  obtain ⟨j, k, hwhole⟩ := h.whole
  obtain ⟨m, n, hfraction⟩ := h.fraction
  have hmagnitude : f.magnitude = g.magnitude := by
    rw [f.magnitude_eq, g.magnitude_eq, ← ofDigits_zeros_append j, hwhole, ofDigits_zeros_append,
      ← ofDigits_append_zeros_div _ m, hfraction, ofDigits_append_zeros_div]
  rw [SizeForm.value, SizeForm.value, hmagnitude]
  exact if_congr h.sign rfl rfl

/-- A mark in small letters tells the bytes in its unit. -/
theorem Respelled.factor_eq (h : Respelled f g) (hf : f.WellFormed) (hg : g.WellFormed) :
    f.factor = g.factor := by
  have hall : ∀ u ∈ units, ∀ t ∈ units, u.1 = t.1 → u.2 = t.2 := by decide
  exact hall _ hf.unit _ hg.unit h.mark

/-! ## Reading -/

/-- **Reading keeps the order of the numbers in one unit, does not depend on how a number is
spelled, and gives every byte size back from its text.** -/
theorem read_monotone :
    (∀ f g : SizeForm, f.WellFormed → g.WellFormed → f.factor = g.factor →
      0 ≤ f.value → f.value ≤ g.value → ∀ b, parse? (String.ofList g.text) = some b →
        ∃ a, parse? (String.ofList f.text) = some a ∧ a.bytes ≤ b.bytes) ∧
    (∀ f g : SizeForm, f.WellFormed → g.WellFormed → f.factor = g.factor → f.value = g.value →
      parse? (String.ofList f.text) = parse? (String.ofList g.text)) ∧
    (∀ f g : SizeForm, f.WellFormed → g.WellFormed → Respelled f g →
      parse? (String.ofList f.text) = parse? (String.ofList g.text)) ∧
    ∀ size : ByteSize, parse? size.toText = some size := by
  refine ⟨fun f g hf hg hfactor hnonneg hle b hread => ?_, fun f g hf hg => hf.parse?_congr hg,
    fun f g hf hg hspelled => ?_, fun size => ?_⟩
  · exact hf.parse?_mono hg hfactor hnonneg hle hread
  · exact hf.parse?_congr hg (hspelled.factor_eq hf hg) hspelled.value_eq
  · exact (parse?_signedDigits size.bytes).trans (ofInt?_bytes size)

/-- Seven kilobytes, written in as few characters as can be. -/
def sevenBare : SizeForm := ⟨[], .absent, ['7'], none, [], ['k'], 1_000, []⟩

/-- Seven kilobytes with zeros, a sign and blanks. -/
def sevenPadded : SizeForm :=
  ⟨[' '], .plus, "007".toList, some ['0', '0'], ['\t'], ['K'], 1_000, ['\n']⟩

theorem sevenBare_wellFormed : sevenBare.WellFormed where
  before := List.forall_mem_nil _
  digits := List.all_eq_true.1 rfl
  digits_ne_nil := by decide
  between := List.forall_mem_nil _
  unit := by decide
  after := List.forall_mem_nil _

theorem sevenPadded_wellFormed : sevenPadded.WellFormed where
  before := List.all_eq_true.1 rfl
  digits := List.all_eq_true.1 rfl
  digits_ne_nil := by decide
  between := List.all_eq_true.1 rfl
  unit := by decide
  after := List.all_eq_true.1 rfl

theorem sevenPadded_respelled : Respelled sevenPadded sevenBare where
  sign := by decide
  whole := ⟨0, 2, rfl⟩
  fraction := ⟨0, 2, rfl⟩
  mark := by decide

theorem read_monotone_seven :
    (∃ a, parse? " +007.00\tK\n" = some a ∧ a.bytes ≤ 7_000) ∧
    parse? " +007.00\tK\n" = parse? "7k" ∧
    parse? (toText ⟨7_000, by decide⟩) = some ⟨7_000, by decide⟩ ∧
    sevenPadded.WellFormed ∧ sevenBare.WellFormed ∧ sevenPadded.factor = sevenBare.factor ∧
    0 ≤ sevenPadded.value ∧ sevenPadded.value = sevenBare.value ∧
    Respelled sevenPadded sevenBare := by
  obtain ⟨hmono, -, hspelled, hown⟩ := read_monotone
  have hpadded : String.ofList sevenPadded.text = " +007.00\tK\n" := by decide +kernel
  have hbare : String.ofList sevenBare.text = "7k" := by decide +kernel
  have hnonneg : 0 ≤ sevenPadded.value := by decide +kernel
  have hvalue : sevenPadded.value = sevenBare.value := by decide +kernel
  rw [← hpadded, ← hbare]
  refine ⟨?_, ?_, hown _, sevenPadded_wellFormed, sevenBare_wellFormed, rfl, hnonneg, hvalue,
    sevenPadded_respelled⟩
  · exact hmono _ _ sevenPadded_wellFormed sevenBare_wellFormed rfl hnonneg hvalue.le
      ⟨7_000, by decide⟩ (by decide +kernel)
  · exact hspelled _ _ sevenPadded_wellFormed sevenBare_wellFormed sevenPadded_respelled

end MessageScript.ByteSize
