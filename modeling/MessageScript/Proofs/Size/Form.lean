import Mathlib.Data.List.Basic
import MessageScript.Proofs.Size.ByteSize

/-!
# Byte sizes as they are written

A written byte size is a numeral and, with or without blanks between, the mark of a unit in any
letter case; blanks around it do not count (`SizeForm`).  Texts of this form are read as their
numeral in their unit, and no other text is read.

    f.WellFormed → text.toList = f.text → parse? text = if f.Negative then none else
      ofNat? (scaledCount f.whole f.fractionDigits f.factor)               (WellFormed.parse?_text)
    parse? text = some size → ∃ f, f.WellFormed ∧ f.text = text.toList           (exists_sizeForm)
-/

namespace MessageScript

open Text

namespace Text

variable {cs core before after : List Char}

/-! ## Blanks around a text -/

/-- Whether a text has blanks only. -/
def AllBlank (cs : List Char) : Prop := ∀ c ∈ cs, isBlank c = true

/-- Whether a text is not empty and has no blank at either end. -/
structure Trimmed (core : List Char) : Prop where
  ne_nil : core ≠ []
  first : ∀ c, core.head? = some c → isBlank c = false
  last : ∀ c, core.getLast? = some c → isBlank c = false

theorem trimStart_append (hbefore : AllBlank before)
    (hcs : ∀ c, cs.head? = some c → isBlank c = false) : trimStart (before ++ cs) = cs :=
  dropWhile_append_eq_right hbefore hcs

/-- Blanks around a text are cut off. -/
theorem trim_append (hbefore : AllBlank before) (hcore : Trimmed core) (hafter : AllBlank after) :
    trim (before ++ (core ++ after)) = core := by
  have hstart : trimStart (before ++ (core ++ after)) = core ++ after := by
    refine trimStart_append hbefore fun c hc => hcore.first c ?_
    rwa [List.head?_append_of_ne_nil _ hcore.ne_nil] at hc
  have hend : trimStart (after.reverse ++ core.reverse) = core.reverse := by
    refine trimStart_append (fun c hc => hafter c (List.mem_reverse.1 hc)) fun c hc => ?_
    rw [List.head?_reverse] at hc
    exact hcore.last c hc
  rw [trim, hstart, trimEnd, List.reverse_append]
  exact (congrArg List.reverse hend).trans (List.reverse_reverse core)

theorem exists_trimStart (cs : List Char) :
    ∃ before, AllBlank before ∧ cs = before ++ trimStart cs :=
  ⟨cs.takeWhile isBlank, fun _ hc => List.all_eq_true.1 List.all_takeWhile _ hc,
    List.takeWhile_append_dropWhile.symm⟩

/-- A text is what is left of it when its blanks are cut off, with blanks around. -/
theorem exists_trim (cs : List Char) :
    ∃ before after, AllBlank before ∧ AllBlank after ∧ cs = before ++ (trim cs ++ after) := by
  obtain ⟨before, hbefore, hstart⟩ := exists_trimStart cs
  obtain ⟨after, hafter, hend⟩ := exists_trimStart (trimStart cs).reverse
  refine ⟨before, after.reverse, hbefore, fun c hc => hafter c (List.mem_reverse.1 hc), ?_⟩
  have hback := congrArg List.reverse hend
  rw [List.reverse_reverse, List.reverse_append] at hback
  rw [trim, trimEnd]
  exact hstart.trans (congrArg (before ++ ·) hback)

end Text

namespace ByteSize

/-! ## Units -/

/-- The units by their marks in small letters, and the bytes in each. -/
def units : List (String × Nat) :=
  [("", 1), ("k", 1_000), ("m", 1_000_000), ("g", 1_000_000_000), ("t", 1_000_000_000_000),
   ("p", 1_000_000_000_000_000), ("ki", 1_024), ("mi", 1_048_576), ("gi", 1_073_741_824),
   ("ti", 1_099_511_627_776), ("pi", 1_125_899_906_842_624)]

/-- A mark in small letters. -/
def lowered (mark : List Char) : String := String.ofList (mark.map Char.toLower)

variable {mark cs : List Char} {c : Char} {k : Nat}

theorem lowered_eq_empty_iff : lowered mark = "" ↔ mark = [] := by
  rw [lowered, ← String.ofList_nil, String.ofList_inj, List.map_eq_nil_iff]

/-- **A mark names the unit that the table has for it in small letters.** -/
theorem unitFactor?_eq_some_iff : unitFactor? mark = some k ↔ (lowered mark, k) ∈ units := by
  unfold unitFactor?
  by_cases hmark : mark = []
  · have honly : ∀ u ∈ units, u.1 = "" → u.2 = 1 := by decide
    rw [if_pos hmark, Option.some.injEq, lowered_eq_empty_iff.2 hmark]
    constructor
    · rintro rfl
      decide
    · intro h
      exact (honly _ h rfl).symm
  · rw [if_neg hmark]
    constructor
    · intro h
      obtain ⟨m, hm, rfl⟩ := Option.map_eq_some_iff.1 h
      unfold Magnitude.ofSuffix? at hm
      have hall : ∀ m ∈ Magnitude.all, (lowered m.suffix.toList, m.factor) ∈ units := by decide
      have hunit := hall m (List.mem_of_find?_eq_some hm)
      have hlower := List.find?_some hm
      rw [lowered, beq_iff_eq.1 hlower] at hunit
      exact hunit
    · intro h
      have hall : ∀ u ∈ units, u.1 ≠ "" → (Magnitude.all.find? fun m =>
          m.suffix.toList.map Char.toLower == u.1.toList).map (·.factor) = some u.2 := by
        decide
      have hunit := hall _ h fun hempty => hmark (lowered_eq_empty_iff.1 hempty)
      rw [lowered, String.toList_ofList] at hunit
      exact hunit

/-- A mark is made of letters. -/
theorem isAlpha_of_mem_mark (h : (lowered mark, k) ∈ units) (hc : c ∈ mark) :
    c.isAlpha = true := by
  have hall : ∀ u ∈ units, u.1.toList.all Char.isLower = true := by decide
  have hletters := hall _ h
  rw [lowered, String.toList_ofList, List.all_map, List.all_eq_true] at hletters
  exact isAlpha_of_isLower_toLower (hletters c hc)

theorem isBlank_of_isAlpha (h : c.isAlpha = true) : isBlank c = false :=
  isBlank_eq_false (by decide) (toNat_bounds_of_isAlpha h)

theorem isNumeralChar_of_isAlpha (h : c.isAlpha = true) : isNumeralChar c = false := by
  rw [Bool.eq_false_iff]
  intro hnumeral
  have hletter := toNat_bounds_of_isAlpha h
  have hbounds := toNat_bounds_of_isNumeralChar hnumeral
  omega

theorem isNumeralChar_of_isBlank (h : isBlank c = true) : isNumeralChar c = false := by
  rw [Bool.eq_false_iff]
  intro hnumeral
  rw [isBlank_of_isNumeralChar hnumeral] at h
  cases h

/-! ## Forms -/

/-- The sign in front of a numeral. -/
inductive NumeralSign where
  | absent
  | plus
  | minus
  deriving DecidableEq

/-- How a sign is written. -/
def NumeralSign.text : NumeralSign → List Char
  | absent => []
  | plus => ['+']
  | minus => ['-']

/-- How the digits behind a point are written, if there is a point. -/
def pointed : Option (List Char) → List Char
  | none => []
  | some run => '.' :: run

/-- A text is split at its point. -/
theorem splitPoint_append {whole : List Char} (hwhole : '.' ∉ whole)
    (fraction : Option (List Char)) :
    DecimalPattern.splitPoint (whole ++ pointed fraction) = (whole, fraction) := by
  have hpointless : ∀ c ∈ whole, (c != '.') = true := by
    intro c hc
    rw [bne_iff_ne]
    rintro rfl
    exact hwhole hc
  have hpoint : ∀ c, (pointed fraction).head? = some c → (c != '.') = false := by
    cases fraction with
    | none => exact nofun
    | some run =>
      rintro c ⟨⟩
      rfl
  rw [DecimalPattern.splitPoint, dropWhile_append_eq_right hpointless hpoint,
    takeWhile_append_eq_left hpointless hpoint]
  cases fraction with
  | none => rw [pointed, List.append_nil]
  | some run => rfl

/-- A byte size as it is written: blanks, the numeral, blanks, the mark of its unit, blanks.  The
digits behind the point are missing if there is no point. -/
structure SizeForm where
  before : List Char
  sign : NumeralSign
  whole : List Char
  fraction : Option (List Char)
  between : List Char
  mark : List Char
  factor : Nat
  after : List Char

namespace SizeForm

/-- The digits behind the point. -/
def fractionDigits (f : SizeForm) : List Char := f.fraction.getD []

/-- The digits of the numeral, with the point. -/
def unsigned (f : SizeForm) : List Char := f.whole ++ pointed f.fraction

/-- The numeral. -/
def numeral (f : SizeForm) : List Char := f.sign.text ++ f.unsigned

/-- The whole text. -/
def text (f : SizeForm) : List Char := f.before ++ (f.numeral ++ (f.between ++ (f.mark ++ f.after)))

/-- Whether the parts are what they should be: blanks, digits, at least one, and the mark of a
unit with so many bytes. -/
structure WellFormed (f : SizeForm) : Prop where
  before : AllBlank f.before
  digits : AllDigits (f.whole ++ f.fractionDigits)
  digits_ne_nil : f.whole ++ f.fractionDigits ≠ []
  between : AllBlank f.between
  unit : (lowered f.mark, f.factor) ∈ units
  after : AllBlank f.after

/-- Whether the numeral is below zero. -/
def Negative (f : SizeForm) : Prop :=
  f.sign = .minus ∧ ofDigits (f.whole ++ f.fractionDigits) ≠ 0

instance (f : SizeForm) : Decidable f.Negative := inferInstanceAs (Decidable (_ ∧ _))

variable {f : SizeForm}

theorem WellFormed.unsignedChars (hf : f.WellFormed) :
    ∀ c ∈ f.unsigned, c.isDigit = true ∨ c = '.' := by
  obtain ⟨hwhole, hfraction⟩ := allDigits_append.1 hf.digits
  unfold unsigned
  unfold fractionDigits at hfraction
  refine List.forall_mem_append.2 ⟨fun c hc => .inl (hwhole c hc), ?_⟩
  cases hpoint : f.fraction with
  | none => exact List.forall_mem_nil _
  | some run =>
    rw [hpoint] at hfraction
    exact List.forall_mem_cons.2 ⟨.inr rfl, fun c hc => .inl (hfraction c hc)⟩

theorem WellFormed.numeralChars (hf : f.WellFormed) : ∀ c ∈ f.numeral, isNumeralChar c = true := by
  refine List.forall_mem_append.2 ⟨?_, fun c hc => ?_⟩
  · cases f.sign <;> exact List.all_eq_true.1 rfl
  · obtain hdigit | rfl := hf.unsignedChars c hc
    · exact isNumeralChar_of_isDigit hdigit
    · rfl

theorem WellFormed.numeral_ne_nil (hf : f.WellFormed) : f.numeral ≠ [] := by
  refine List.append_ne_nil_of_right_ne_nil _ fun hnil => hf.digits_ne_nil ?_
  unfold unsigned at hnil
  obtain ⟨hwhole, hfraction⟩ := List.append_eq_nil_iff.1 hnil
  unfold fractionDigits
  rw [hwhole]
  cases hpoint : f.fraction with
  | none => rfl
  | some run =>
    rw [hpoint] at hfraction
    cases hfraction

/-! ## Reading -/

theorem WellFormed.splitSign_numeral (hf : f.WellFormed) :
    Floating.splitSign f.numeral = (decide (f.sign = .minus), f.unsigned) := by
  unfold numeral
  cases f.sign with
  | minus => rfl
  | plus => rfl
  | absent =>
    have hsign : ∀ c, c.isDigit = false → c ≠ '.' → c ∉ f.unsigned := by
      intro c hdigit hpoint hmem
      obtain h | h := hf.unsignedChars c hmem
      · rw [hdigit] at h
        cases h
      · exact hpoint h
    rw [NumeralSign.text, List.nil_append]
    unfold Floating.splitSign
    split
    · next heq => exact absurd (heq ▸ List.mem_cons_self) (hsign '-' rfl (by decide))
    · next heq => exact absurd (heq ▸ List.mem_cons_self) (hsign '+' rfl (by decide))
    · rfl

theorem WellFormed.splitPoint_unsigned (hf : f.WellFormed) :
    DecimalPattern.splitPoint f.unsigned = (f.whole, f.fraction) := by
  refine splitPoint_append (fun hmem => ?_) f.fraction
  cases (allDigits_append.1 hf.digits).1 _ hmem

/-- The numeral of a form is read in its unit, if it is not below zero. -/
theorem WellFormed.ofNumeral?_numeral (hf : f.WellFormed) : ofNumeral? f.numeral f.factor =
    if f.Negative then none else ofNat? (scaledCount f.whole f.fractionDigits f.factor) := by
  have hmalformed : ¬ (f.whole ++ f.fractionDigits = [] ∨
      (!(f.whole ++ f.fractionDigits).all Char.isDigit) = true) := by
    rintro (hnil | hall)
    · exact hf.digits_ne_nil hnil
    · rw [List.all_eq_true.2 hf.digits] at hall
      cases hall
  unfold ofNumeral?
  simp only [hf.splitSign_numeral, hf.splitPoint_unsigned, decide_eq_true_eq]
  rw [← fractionDigits, if_neg hmalformed]
  refine if_congr ?_ rfl rfl
  rw [Negative, any_ne_zero_iff hf.digits]

/-- What is left behind the numeral when the blanks around a form are cut off. -/
def tail (f : SizeForm) : List Char := if f.mark = [] then [] else f.between ++ f.mark

theorem WellFormed.trim_text (hf : f.WellFormed) : trim f.text = f.numeral ++ f.tail := by
  have hfirst : ∀ tail c, (f.numeral ++ tail).head? = some c → isBlank c = false := by
    intro tail c hc
    rw [List.head?_append_of_ne_nil _ hf.numeral_ne_nil] at hc
    exact isBlank_of_isNumeralChar (hf.numeralChars c (List.mem_of_head? hc))
  have hne : ∀ tail, f.numeral ++ tail ≠ [] :=
    fun tail => List.append_ne_nil_of_left_ne_nil hf.numeral_ne_nil tail
  unfold text tail
  by_cases hmark : f.mark = []
  · rw [hmark, if_pos rfl, List.nil_append, List.append_nil]
    refine trim_append hf.before ⟨hf.numeral_ne_nil, ?_, fun c hc => ?_⟩
      (List.forall_mem_append.2 ⟨hf.between, hf.after⟩)
    · rw [← List.append_nil f.numeral]
      exact hfirst []
    · exact isBlank_of_isNumeralChar (hf.numeralChars c (List.mem_of_getLast? hc))
  · rw [if_neg hmark, ← List.append_assoc f.between, ← List.append_assoc f.numeral]
    refine trim_append hf.before ⟨hne _, hfirst _, fun c hc => ?_⟩ hf.after
    rw [List.getLast?_append_of_ne_nil _ (List.append_ne_nil_of_right_ne_nil _ hmark),
      List.getLast?_append_of_ne_nil _ hmark] at hc
    exact isBlank_of_isAlpha (isAlpha_of_mem_mark hf.unit (List.mem_of_getLast? hc))

theorem WellFormed.isNumeralChar_tail (hf : f.WellFormed) {c : Char}
    (hc : f.tail.head? = some c) : isNumeralChar c = false := by
  unfold tail at hc
  split at hc
  · cases hc
  · obtain hbetween | hmark := List.mem_append.1 (List.mem_of_head? hc)
    · exact isNumeralChar_of_isBlank (hf.between c hbetween)
    · exact isNumeralChar_of_isAlpha (isAlpha_of_mem_mark hf.unit hmark)

theorem WellFormed.trimStart_tail (hf : f.WellFormed) : trimStart f.tail = f.mark := by
  unfold tail
  split
  · next hmark =>
    rw [hmark]
    rfl
  · exact trimStart_append hf.between fun c hc =>
      isBlank_of_isAlpha (isAlpha_of_mem_mark hf.unit (List.mem_of_head? hc))

/-- **The text of a form is read as its numeral in its unit.** -/
theorem WellFormed.parse?_text (hf : f.WellFormed) {text : String} (htext : text.toList = f.text) :
    parse? text =
      if f.Negative then none else ofNat? (scaledCount f.whole f.fractionDigits f.factor) := by
  unfold parse?
  simp only [htext, hf.trim_text]
  rw [takeWhile_append_eq_left hf.numeralChars fun c => hf.isNumeralChar_tail,
    dropWhile_append_eq_right hf.numeralChars fun c => hf.isNumeralChar_tail, hf.trimStart_tail,
    unitFactor?_eq_some_iff.2 hf.unit, Option.bind_some, hf.ofNumeral?_numeral]

end SizeForm

/-! ## Texts that are read -/

/-- What is split at a point is the parts with the point between. -/
theorem eq_of_splitPoint {whole : List Char} {fraction : Option (List Char)}
    (h : DecimalPattern.splitPoint cs = (whole, fraction)) :
    cs = whole ++ pointed fraction := by
  unfold DecimalPattern.splitPoint at h
  split at h
  · cases h
    exact (List.append_nil cs).symm
  · next point rest hdrop =>
    cases h
    have hhead := List.head?_dropWhile_not (· != '.') cs
    rw [hdrop] at hhead
    simp only [List.head?_cons, bne_eq_false_iff_eq] at hhead
    rw [pointed, ← hhead, ← hdrop, hhead, List.takeWhile_append_dropWhile]

theorem exists_numeralSign {negative : Bool} {unsigned : List Char}
    (h : Floating.splitSign cs = (negative, unsigned)) :
    ∃ sign : NumeralSign, cs = sign.text ++ unsigned := by
  obtain ⟨rfl, -⟩ | ⟨rfl | rfl, -⟩ := Floating.splitSign_cases h
  · exact ⟨.minus, rfl⟩
  · exact ⟨.plus, rfl⟩
  · exact ⟨.absent, rfl⟩

/-- **A text that is read has the form.** -/
theorem exists_sizeForm {text : String} {size : ByteSize} (h : parse? text = some size) :
    ∃ f : SizeForm, f.WellFormed ∧ f.text = text.toList := by
  unfold parse? at h
  obtain ⟨factor, hunit, hnumeral⟩ := Option.bind_eq_some_iff.1 h
  obtain ⟨before, after, hbefore, hafter, htext⟩ := exists_trim text.toList
  obtain ⟨between, hbetween, hbehind⟩ :=
    exists_trimStart ((trim text.toList).dropWhile isNumeralChar)
  rcases hsplit : Floating.splitSign ((trim text.toList).takeWhile isNumeralChar)
    with ⟨negative, unsigned⟩
  rcases hpoint : DecimalPattern.splitPoint unsigned with ⟨whole, fraction⟩
  obtain ⟨sign, hsign⟩ := exists_numeralSign hsplit
  have hdigits : ¬ (whole ++ fraction.getD [] = [] ∨
      (!(whole ++ fraction.getD []).all Char.isDigit) = true) := by
    intro hmalformed
    unfold ofNumeral? at hnumeral
    simp only [hsplit, hpoint] at hnumeral
    rw [if_pos hmalformed] at hnumeral
    cases hnumeral
  rw [not_or, Bool.not_eq_true', Bool.not_eq_false] at hdigits
  refine ⟨⟨before, sign, whole, fraction, between,
    trimStart ((trim text.toList).dropWhile isNumeralChar), factor, after⟩, ⟨hbefore,
    List.all_eq_true.1 hdigits.2, hdigits.1, hbetween, unitFactor?_eq_some_iff.1 hunit, hafter⟩, ?_⟩
  -- the parts put together are the text
  have hnumeral : sign.text ++ (whole ++ pointed fraction) =
      (trim text.toList).takeWhile isNumeralChar := by
    rw [hsign, eq_of_splitPoint hpoint]
  unfold SizeForm.text SizeForm.numeral SizeForm.unsigned
  simp only [hnumeral]
  rw [← List.append_assoc between, ← hbehind, ← List.append_assoc (List.takeWhile _ _),
    List.takeWhile_append_dropWhile, ← htext]

end ByteSize

end MessageScript
