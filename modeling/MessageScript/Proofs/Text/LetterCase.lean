import Mathlib.Data.List.Basic
import MessageScript.Text.WordCase

/-!
# Lowercase forms are letters

What the tables of letters say together.  A character is its own lowercase form, or it is `İ`, or
both it and its form have a case, case looks through neither, and the form is its own lowercase
form.  A small sigma is the form of the capital one and of itself only, a final one only of itself.

    lower_cases c : lower c = [c] ∨ c = 'İ' ∨ ∃ d, lower c = [d] ∧ IsLetter c ∧ IsLetter d ∧ …

The tables are compared as sets of code points, each set one number with a bit for every member.
-/

namespace MessageScript.Text

/-! ## Sets as bits -/

namespace CodeRanges

/-- The code points in ranges, as the bits of a number. -/
def bits : CodeRanges → Nat
  | [] => 0
  | (first, last) :: rest =>
    (((1 <<< (last + 1 - first)) - 1) ||| (bits rest >>> first)) <<< first

theorem testBit_bits (rs : CodeRanges) (n : Nat) : rs.bits.testBit n = rs.contains n := by
  induction rs with
  | nil => simp [bits, contains]
  | cons r rest ih =>
    obtain ⟨first, last⟩ := r
    rw [bits, contains, Nat.testBit_shiftLeft, Nat.testBit_or, Nat.one_shiftLeft,
      Nat.testBit_two_pow_sub_one, Nat.testBit_shiftRight]
    by_cases hfirst : n < first
    · rw [if_pos hfirst, decide_eq_false (Nat.not_le.2 hfirst), Bool.false_and]
    · have hn : first + (n - first) = n := by omega
      rw [if_neg hfirst, hn, ih]
      by_cases hlast : n ≤ last
      · have : n - first < last + 1 - first := by omega
        simp [hlast, this]
        omega
      · have : ¬ n - first < last + 1 - first := by omega
        simp [hlast, this]
        omega

end CodeRanges

/-- The multiples of `step` below `count * step`, as the bits of a number. -/
def comb (step : Nat) : Nat → Nat
  | 0 => 0
  | count + 1 => 1 ||| (comb step count <<< step)

theorem testBit_comb {step count k : Nat} (h : k < count) :
    (comb step count).testBit (k * step) = true := by
  induction count generalizing k with
  | zero => cases h
  | succ count ih =>
    rw [comb, Nat.testBit_or, Bool.or_eq_true]
    cases k with
    | zero =>
      rw [Nat.zero_mul]
      exact .inl rfl
    | succ k =>
      refine .inr ?_
      have hle : step ≤ (k + 1) * step := Nat.le_mul_of_pos_left step (Nat.succ_pos k)
      have hk : (k + 1) * step - step = k * step := by
        rw [Nat.add_mul, Nat.one_mul, Nat.add_sub_cancel]
      rw [Nat.testBit_shiftLeft, hk, ih (Nat.lt_of_succ_lt_succ h), Bool.and_true]
      exact decide_eq_true hle

namespace CaseRun

/-! ## Runs of letters -/

/-- The code point of a lowercase form. -/
def form (r : CaseRun) (n : Nat) : Nat := ((n : Int) + r.shift).toNat

/-- The code points that a run lists, as the bits of a number. -/
def bits (r : CaseRun) : Nat := comb r.step ((r.last - r.first) / r.step + 1) <<< r.first

/-- The code points of the forms in a run, as the bits of a number. -/
def formBits (r : CaseRun) : Nat :=
  match r.shift with
  | .ofNat up => r.bits <<< up
  | .negSucc down => r.bits >>> (down + 1)

/-- Whether the forms of a run are characters other than `İ` and `ς`, and `σ` one only if they lie
where `Σ` has it. -/
def isPlain (r : CaseRun) : Bool :=
  decide (0 < r.form r.first) &&
    decide (r.form r.last < 0xD800 ∨ 0xDFFF < r.form r.first ∧ r.form r.last < 0x110000) &&
    decide (r.form r.last < 0x130 ∨ 0x130 < r.form r.first) &&
    decide (r.form r.last < 0x3C2 ∨ 0x3C2 < r.form r.first) &&
    decide (r.form r.last < 0x3C3 ∨ 0x3C3 < r.form r.first ∨ r.shift = 32)

theorem bounds_of_lists {r : CaseRun} {n : Nat} (h : r.lists n = true) :
    r.first ≤ n ∧ n ≤ r.last ∧ (n - r.first) % r.step = 0 := by
  simp only [lists, Bool.and_eq_true, decide_eq_true_eq, beq_iff_eq] at h
  exact ⟨h.1.1, h.1.2, h.2⟩

theorem testBit_bits {r : CaseRun} {n : Nat} (h : r.lists n = true) :
    r.bits.testBit n = true := by
  obtain ⟨hfirst, hlast, hstep⟩ := bounds_of_lists h
  have hk : (n - r.first) / r.step ≤ (r.last - r.first) / r.step :=
    Nat.div_le_div_right (by omega)
  have hn : n - r.first = (n - r.first) / r.step * r.step := by
    have hdiv := Nat.div_add_mod (n - r.first) r.step
    rw [hstep, Nat.mul_comm] at hdiv
    exact hdiv.symm
  rw [bits, Nat.testBit_shiftLeft, hn, testBit_comb (Nat.lt_succ_of_le hk), Bool.and_true]
  exact decide_eq_true hfirst

theorem testBit_formBits {r : CaseRun} {n : Nat} (hpos : 0 < r.form r.first)
    (h : r.lists n = true) : r.formBits.testBit (r.form n) = true := by
  have hbit := testBit_bits h
  obtain ⟨hfirst, -, -⟩ := bounds_of_lists h
  unfold form at hpos
  unfold formBits form
  cases hshift : r.shift with
  | ofNat up =>
    have hform : ((n : Int) + Int.ofNat up).toNat = n + up := by
      rw [Int.ofNat_eq_natCast]
      omega
    rw [hform, Nat.testBit_shiftLeft, Nat.add_sub_cancel, hbit, Bool.and_true]
    exact decide_eq_true (Nat.le_add_left up n)
  | negSucc down =>
    rw [hshift] at hpos
    have hform : down + 1 + ((n : Int) + Int.negSucc down).toNat = n := by omega
    rw [Nat.testBit_shiftRight, hform, hbit]

end CaseRun

/-- The members of all sets in a list, each set the bits of a number. -/
def union : List Nat → Nat
  | [] => 0
  | s :: rest => s ||| union rest

theorem testBit_union {sets : List Nat} {s n : Nat} (hs : s ∈ sets) (h : s.testBit n = true) :
    (union sets).testBit n = true := by
  induction sets with
  | nil => cases hs
  | cons s' rest ih =>
    rw [union, Nat.testBit_or, Bool.or_eq_true]
    rcases List.mem_cons.1 hs with rfl | hs
    · exact .inl h
    · exact .inr (ih hs)

/-- The letters with a lowercase form of their own. -/
def letterSet : Nat := union (caseRuns.map CaseRun.bits)

/-- The lowercase forms of these letters. -/
def formSet : Nat := union (caseRuns.map CaseRun.formBits)

theorem testBit_of_and_eq {a b n : Nat} (h : a &&& b = a) (hn : a.testBit n = true) :
    b.testBit n = true := by
  rw [← h, Nat.testBit_and, Bool.and_eq_true] at hn
  exact hn.2

theorem testBit_of_and_eq_zero {a b n : Nat} (h : a &&& b = 0) (hn : a.testBit n = true) :
    b.testBit n = false := by
  have hzero : (a &&& b).testBit n = false := by rw [h, Nat.zero_testBit]
  rw [Nat.testBit_and, hn, Bool.true_and] at hzero
  exact hzero

/-- Letters and their forms have a case, case looks through none of them, and no form is listed. -/
theorem caseRuns_agree :
    (letterSet ||| formSet) &&& casedRanges.bits = letterSet ||| formSet ∧
      (letterSet ||| formSet) &&& caseIgnorableRanges.bits = 0 ∧ formSet &&& letterSet = 0 := by
  decide +kernel

theorem caseRuns_plain : caseRuns.all CaseRun.isPlain = true := by decide +kernel

/-! ## Letters -/

/-- Whether a character has a case, and case does not look through it. -/
def IsLetter (c : Char) : Prop := isCased c = true ∧ isCaseIgnorable c = false

namespace CaseRun

variable {r : CaseRun} {n : Nat}

/-- What `isPlain` says of the form of a letter. -/
theorem plain_of_lists (hr : r ∈ caseRuns) (h : r.lists n = true) :
    0 < r.form r.first ∧ (r.form n).isValidChar ∧ r.form n ≠ 0x130 ∧ r.form n ≠ 0x3C2 ∧
      (r.form n = 0x3C3 → n = 0x3A3) := by
  have hplain := List.all_eq_true.1 caseRuns_plain r hr
  simp only [isPlain, Bool.and_eq_true, decide_eq_true_eq] at hplain
  obtain ⟨⟨⟨⟨hpos, hvalid⟩, hdot⟩, hfinal⟩, hsmall⟩ := hplain
  obtain ⟨hfirst, hlast, -⟩ := bounds_of_lists h
  have hlow : r.form r.first ≤ r.form n := by
    unfold form
    omega
  have hhigh : r.form n ≤ r.form r.last := by
    unfold form
    omega
  refine ⟨hpos, ?_, by omega, by omega, ?_⟩
  · unfold Nat.isValidChar
    omega
  · intro hform
    have hshift : r.shift = 32 := by
      rcases hsmall with hbelow | habove | hshift
      · omega
      · omega
      · exact hshift
    unfold form at hform
    omega

theorem testBit_letterSet (hr : r ∈ caseRuns) (h : r.lists n = true) :
    letterSet.testBit n = true :=
  testBit_union (List.mem_map_of_mem hr) (testBit_bits h)

theorem testBit_formSet (hr : r ∈ caseRuns) (h : r.lists n = true) :
    formSet.testBit (r.form n) = true :=
  testBit_union (List.mem_map_of_mem hr) (testBit_formBits (plain_of_lists hr h).1 h)

theorem testBit_of_lists (hr : r ∈ caseRuns) (h : r.lists n = true) :
    (letterSet ||| formSet).testBit n = true ∧
      (letterSet ||| formSet).testBit (r.form n) = true := by
  rw [Nat.testBit_or, Nat.testBit_or, testBit_letterSet hr h, testBit_formSet hr h]
  exact ⟨rfl, Bool.or_true _⟩

theorem cased_of_lists (hr : r ∈ caseRuns) (h : r.lists n = true) :
    casedRanges.contains n = true ∧ casedRanges.contains (r.form n) = true := by
  obtain ⟨hletter, hform⟩ := testBit_of_lists hr h
  rw [← CodeRanges.testBit_bits, ← CodeRanges.testBit_bits]
  exact ⟨testBit_of_and_eq caseRuns_agree.1 hletter, testBit_of_and_eq caseRuns_agree.1 hform⟩

theorem seen_of_lists (hr : r ∈ caseRuns) (h : r.lists n = true) :
    caseIgnorableRanges.contains n = false ∧ caseIgnorableRanges.contains (r.form n) = false := by
  obtain ⟨hletter, hform⟩ := testBit_of_lists hr h
  rw [← CodeRanges.testBit_bits, ← CodeRanges.testBit_bits]
  exact ⟨testBit_of_and_eq_zero caseRuns_agree.2.1 hletter,
    testBit_of_and_eq_zero caseRuns_agree.2.1 hform⟩

/-- No run lists a form. -/
theorem not_lists_form (hr : r ∈ caseRuns) (h : r.lists n = true) :
    ∀ s ∈ caseRuns, s.lists (r.form n) = false := by
  intro s hs
  by_contra hlists
  rw [Bool.not_eq_false] at hlists
  have hnot := testBit_of_and_eq_zero caseRuns_agree.2.2 (testBit_formSet hr h)
  rw [testBit_letterSet hs hlists] at hnot
  cases hnot

end CaseRun

/-- The run of the capital letters `A` to `Z`. -/
def asciiRun : CaseRun := ⟨0x41, 0x5A, 1, 32⟩

theorem asciiRun_mem : asciiRun ∈ caseRuns := List.mem_cons_self

theorem toLower_ascii : ∀ n < 128, (asciiRun.lists n = false ∧
      (Char.ofNat n).toLower = Char.ofNat n) ∨
    (asciiRun.lists n = true ∧ (Char.ofNat n).toLower = Char.ofNat (asciiRun.form n)) := by
  decide

/-- The lowercase form of a character comes from a run that lists it, or is the character. -/
theorem lower_eq_of_runs {c : Char} (hdot : c ≠ 'İ') : lower c = [c] ∨
    ∃ r ∈ caseRuns, r.lists c.toNat = true ∧ lower c = [Char.ofNat (r.form c.toNat)] := by
  rw [lower, if_neg hdot]
  split
  · next hascii =>
    have hrun := toLower_ascii c.toNat hascii
    rw [Char.ofNat_toNat] at hrun
    rcases hrun with ⟨-, hlower⟩ | ⟨hlists, hlower⟩
    · exact .inl (congrArg (fun d => [d]) hlower)
    · rw [hlower]
      exact .inr ⟨asciiRun, asciiRun_mem, hlists, rfl⟩
  · split
    · next r hr =>
      have hlists := List.find?_some hr
      exact .inr ⟨r, List.mem_of_find?_eq_some hr, hlists, rfl⟩
    · exact .inl rfl

/-- A character that no run lists is its own lowercase form. -/
theorem lower_eq_self {c : Char} (hdot : c ≠ 'İ') (h : ∀ r ∈ caseRuns, r.lists c.toNat = false) :
    lower c = [c] := by
  rcases lower_eq_of_runs hdot with hlower | ⟨r, hr, hlists, -⟩
  · exact hlower
  · rw [h r hr] at hlists
    cases hlists

/-- **A character is its own lowercase form, or it is `İ`, or it and its form are letters.** -/
theorem lower_cases (c : Char) : lower c = [c] ∨ c = 'İ' ∨
    ∃ d, lower c = [d] ∧ IsLetter c ∧ IsLetter d ∧ lower d = [d] ∧ d ≠ 'ς' ∧
      (d = 'σ' → c = 'Σ') := by
  by_cases hdot : c = 'İ'
  · exact .inr (.inl hdot)
  rcases lower_eq_of_runs hdot with hlower | ⟨r, hr, hlists, hlower⟩
  · exact .inl hlower
  obtain ⟨-, hvalid, hdot', hfinal, hsmall⟩ := CaseRun.plain_of_lists hr hlists
  have hnone := CaseRun.not_lists_form hr hlists
  obtain ⟨hcased, hcased'⟩ := CaseRun.cased_of_lists hr hlists
  obtain ⟨hseen, hseen'⟩ := CaseRun.seen_of_lists hr hlists
  have hd : (Char.ofNat (r.form c.toNat)).toNat = r.form c.toNat := by
    rw [Char.ofNat, dif_pos hvalid]
    rfl
  have hne : ∀ d : Char, Char.ofNat (r.form c.toNat) = d → r.form c.toNat = d.toNat := by
    intro d h
    rw [← hd, h]
  refine .inr (.inr ⟨_, hlower, ⟨hcased, hseen⟩, ⟨?_, ?_⟩, ?_, ?_, ?_⟩)
  · rw [isCased, hd]
    exact hcased'
  · rw [isCaseIgnorable, hd]
    exact hseen'
  · apply lower_eq_self
    · exact fun h => hdot' (hne _ h)
    · rw [hd]
      exact hnone
  · exact fun h => hfinal (hne _ h)
  · intro h
    have hc : c.toNat = 'Σ'.toNat := hsmall (hne _ h)
    rw [← Char.ofNat_toNat c, hc, Char.ofNat_toNat]

end MessageScript.Text
