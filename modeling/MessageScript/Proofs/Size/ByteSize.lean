import Mathlib.Data.List.TakeWhile
import MessageScript.Proofs.Integer.Numeral
import MessageScript.Size.ByteSize

/-!
# Byte sizes read from numerals

A text of numeral characters only is read as a numeral in bytes.  If it is digits, with or without a
minus sign in front, its size is the number that they denote; below zero there is none.

    parse? (String.ofList (signedDigits n)) = ofInt? n                       (parse?_signedDigits)
-/

namespace MessageScript

open Text

namespace ByteSize

variable {cs run : List Char} {c : Char}

/-! ## Texts of numeral characters -/

theorem isNumeralChar_of_isDigit (h : c.isDigit = true) : isNumeralChar c = true := by
  rw [isNumeralChar, h]
  rfl

theorem toNat_bounds_of_isNumeralChar (h : isNumeralChar c = true) :
    0x2B ≤ c.toNat ∧ c.toNat ≤ 0x39 := by
  simp only [isNumeralChar, Bool.or_eq_true, beq_iff_eq] at h
  obtain ((h | rfl) | rfl) | rfl := h
  · simp only [Char.isDigit, Bool.and_eq_true, decide_eq_true_eq, ge_iff_le,
      UInt32.le_iff_toNat_le] at h
    have hlow : 0x30 ≤ c.toNat := h.1
    have hhigh : c.toNat ≤ 0x39 := h.2
    omega
  all_goals decide

/-- Characters between two blanks of the table are no blanks. -/
theorem isBlank_eq_false {low high : Nat} (hranges : ∀ r ∈ blankRanges, r.2 < low ∨ high < r.1)
    (h : low ≤ c.toNat ∧ c.toNat ≤ high) : isBlank c = false := by
  rw [isBlank, Bool.eq_false_iff, ne_eq, CodeRanges.contains_iff blankRanges_ascending]
  rintro ⟨r, hr, hlow, hhigh⟩
  have hrange := hranges r hr
  omega

theorem isBlank_of_isNumeralChar (h : isNumeralChar c = true) : isBlank c = false :=
  isBlank_eq_false (by decide) (toNat_bounds_of_isNumeralChar h)

theorem dropWhile_isBlank (h : ∀ c ∈ cs, isNumeralChar c = true) : cs.dropWhile isBlank = cs := by
  cases cs with
  | nil => rfl
  | cons c cs =>
    have hc := isBlank_of_isNumeralChar (h c List.mem_cons_self)
    rw [List.dropWhile_cons_of_neg (by rw [hc]; decide)]

theorem trim_eq_self (h : ∀ c ∈ cs, isNumeralChar c = true) : trim cs = cs := by
  rw [trim, trimStart, dropWhile_isBlank h, trimEnd, dropWhile_isBlank, List.reverse_reverse]
  exact fun c hc => h c (List.mem_reverse.1 hc)

/-- Without a mark behind the numeral, the unit is the byte. -/
theorem parse?_numeral (h : ∀ c ∈ cs, isNumeralChar c = true) :
    parse? (String.ofList cs) = ofNumeral? cs 1 := by
  unfold parse?
  simp only [String.toList_ofList, trim_eq_self h]
  rw [List.takeWhile_eq_self_iff.2 h, List.dropWhile_eq_nil_iff.2 h]
  rfl

/-! ## Whole numbers -/

theorem splitPoint_digits (h : AllDigits run) :
    DecimalPattern.splitPoint run = (run, none) := by
  have hpoint : run.dropWhile (· != '.') = [] := by
    rw [List.dropWhile_eq_nil_iff]
    intro c hc
    rw [bne_iff_ne]
    rintro rfl
    cases h _ hc
  rw [DecimalPattern.splitPoint, hpoint]

theorem any_ne_zero_iff (h : AllDigits run) :
    run.any (· != '0') = true ↔ ofDigits run ≠ 0 := by
  rw [ne_eq, ofDigits_eq_zero_iff h]
  simp only [List.any_eq_true, bne_iff_ne, not_forall, exists_prop]

theorem scaledCount_whole (h : AllDigits run) :
    scaledCount run [] 1 = ofDigits run := by
  have hcount : ofDigits run * 1 + roundHalfUp (ofDigits [] * 1) (powerOfTen 0) = ofDigits run :=
    Nat.mul_one _
  unfold scaledCount
  simp only [List.take_nil, List.append_nil, List.length_nil, hcount]
  rw [if_neg]
  rintro ⟨hzero, hany⟩
  exact (any_ne_zero_iff h).1 hany hzero

theorem ofNumeral?_digits (h : AllDigits run) (hne : run ≠ []) :
    ofNumeral? run 1 = ofNat? (ofDigits run) := by
  unfold ofNumeral?
  simp only [Floating.splitSign_digits h, splitPoint_digits h, Option.getD_none, List.append_nil,
    scaledCount_whole h]
  rw [if_neg, if_neg]
  · rintro ⟨hnegative, -⟩
    cases hnegative
  · rintro (hnil | hall)
    · exact hne hnil
    · rw [List.all_eq_true.2 h] at hall
      cases hall

/-- Below zero there is no size. -/
theorem ofNumeral?_minus_digits (h : AllDigits run) (hpos : ofDigits run ≠ 0) :
    ofNumeral? ('-' :: run) 1 = none := by
  unfold ofNumeral?
  simp only [Floating.splitSign_minus, splitPoint_digits h, Option.getD_none, List.append_nil]
  split
  · rfl
  · exact if_pos ⟨trivial, (any_ne_zero_iff h).2 hpos⟩

/-- **A written integer is the size of so many bytes.** -/
theorem parse?_signedDigits (n : Int) :
    parse? (String.ofList (signedDigits n)) = ofInt? n := by
  cases n with
  | ofNat m =>
    have hdigits : AllDigits (digits m) := allDigits_digits m
    have hsize : ofInt? (Int.ofNat m) = ofNat? m := if_pos (Int.natCast_nonneg m)
    rw [signedDigits, parse?_numeral fun c hc => isNumeralChar_of_isDigit (hdigits c hc),
      ofNumeral?_digits hdigits (digits_ne_nil m), ofDigits_digits, hsize]
  | negSucc m =>
    have hdigits : AllDigits (digits (m + 1)) := allDigits_digits (m + 1)
    have hsize : ofInt? (Int.negSucc m) = none := if_neg (Int.not_le.2 (Int.negSucc_lt_zero m))
    have hnumeral : ∀ c ∈ '-' :: digits (m + 1), isNumeralChar c = true :=
      List.forall_mem_cons.2 ⟨rfl, fun c hc => isNumeralChar_of_isDigit (hdigits c hc)⟩
    rw [signedDigits, parse?_numeral hnumeral, ofNumeral?_minus_digits hdigits, hsize]
    rw [ofDigits_digits]
    exact Nat.succ_ne_zero m

theorem ofInt?_bytes (n : ByteSize) : ofInt? n.bytes = some n := by
  rw [ofInt?, if_pos (Int.natCast_nonneg _), Int.toNat_natCast]
  exact ofNat?_eq_some_iff.2 rfl

end ByteSize

end MessageScript
