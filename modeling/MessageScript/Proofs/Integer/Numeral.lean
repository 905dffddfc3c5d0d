import MessageScript.Proofs.Text.Reading
import MessageScript.Value.Scalar

/-!
# Integers read from numerals

A numeral is digits, with or without a sign, and denotes an integer however long it is
(`DenotesInt`).  It is evaluated digit by digit in 128 bits and refused as soon as these do not hold
what was read so far.  Nothing is lost by that: digits only lead away from zero, and every type is
narrower.

    parseInt? cs = some n ↔ DenotesInt cs n ∧ IsWide n                       (parseInt?_eq_some_iff)
    StoredInt.parse? t cs = some m ↔ DenotesInt cs m.val                        (parse?_eq_some_iff)
-/

namespace MessageScript

open Text

/-- A numeral and the integer that it denotes. -/
inductive DenotesInt : List Char → Int → Prop
  | plain {run : List Char} : run ≠ [] → AllDigits run → DenotesInt run (ofDigits run)
  | plus {run : List Char} : run ≠ [] → AllDigits run → DenotesInt ('+' :: run) (ofDigits run)
  | minus {run : List Char} : run ≠ [] → AllDigits run → DenotesInt ('-' :: run) (-ofDigits run)

/-- Whether 128 bits hold an integer. -/
def IsWide (n : Int) : Prop := wideMin ≤ n ∧ n ≤ wideMax

instance (n : Int) : Decidable (IsWide n) := inferInstanceAs (Decidable (_ ∧ _))

/-- A magnitude with a sign. -/
def signed (negative : Bool) (n : Nat) : Int := if negative then -(n : Int) else n

variable {negative : Bool} {run cs : List Char} {c : Char} {j k : Nat} {n : Int} {t : IntegerType}

/-! ## Evaluation in 128 bits -/

/-- What lies nearer to zero on the same side is held too. -/
theorem IsWide.of_le (h : IsWide (signed negative k)) (hle : j ≤ k) :
    IsWide (signed negative j) := by
  have hmin : wideMin ≤ 0 := by decide
  have hmax : 0 ≤ wideMax := by decide
  cases negative <;> simp only [IsWide, signed, Bool.false_eq_true, if_true, if_false] at h ⊢
  · omega
  · omega

theorem appendDigit?_signed (negative : Bool) (k : Nat) (c : Char) :
    appendDigit? negative (signed negative k) c =
      if IsWide (signed negative (k * 10 + (c.toNat - '0'.toNat))) then
        some (signed negative (k * 10 + (c.toNat - '0'.toNat))) else none := by
  have hnext : (if negative then 10 * signed negative k - (c.toNat - '0'.toNat : Nat)
      else 10 * signed negative k + (c.toNat - '0'.toNat : Nat)) =
      signed negative (k * 10 + (c.toNat - '0'.toNat)) := by
    unfold signed
    split <;> omega
  unfold appendDigit?
  simp only [hnext]
  rfl

/-- More digits behind a number give the value of all of them, if 128 bits hold it. -/
theorem foldlM_appendDigit? (negative : Bool) (run : List Char) (hk : IsWide (signed negative k)) :
    run.foldlM (appendDigit? negative) (signed negative k) =
      if IsWide (signed negative (k * powerOfTen run.length + ofDigits run)) then
        some (signed negative (k * powerOfTen run.length + ofDigits run)) else none := by
  induction run generalizing k with
  | nil =>
    have hvalue : k * powerOfTen 0 + ofDigits [] = k := Nat.mul_one k
    rw [List.length_nil, hvalue, if_pos hk]
    rfl
  | cons c run ih =>
    have hvalue : k * powerOfTen (c :: run).length + ofDigits (c :: run) =
        (k * 10 + (c.toNat - '0'.toNat)) * powerOfTen run.length + ofDigits run := by
      rw [ofDigits_cons, List.length_cons, powerOfTen_succ, Nat.add_mul, Nat.mul_assoc,
        Nat.mul_comm 10, Nat.add_assoc]
    rw [hvalue, List.foldlM_cons, appendDigit?_signed]
    by_cases hnext : IsWide (signed negative (k * 10 + (c.toNat - '0'.toNat)))
    · rw [if_pos hnext]
      exact ih hnext
    · -- What is out of range here stays so, since the rest of the run leads away from zero.
      have hle : k * 10 + (c.toNat - '0'.toNat) ≤
          (k * 10 + (c.toNat - '0'.toNat)) * powerOfTen run.length + ofDigits run :=
        Nat.le_trans (Nat.le_mul_of_pos_right _ (powerOfTen_pos _)) (Nat.le_add_right _ _)
      rw [if_neg hnext, if_neg fun h => hnext (h.of_le hle)]
      rfl

theorem foldlM_digits (negative : Bool) (run : List Char) :
    run.foldlM (appendDigit? negative) 0 =
      if IsWide (signed negative (ofDigits run)) then some (signed negative (ofDigits run))
      else none := by
  have hzero : signed negative 0 = 0 := by cases negative <;> rfl
  have hwide : IsWide (signed negative 0) := by rw [hzero]; decide
  have hfold := foldlM_appendDigit? negative run hwide
  rw [hzero, Nat.zero_mul, Nat.zero_add] at hfold
  exact hfold

/-! ## Numerals -/

namespace Floating

/-- Digits have no sign in front of them. -/
theorem splitSign_digits (h : AllDigits run) : splitSign run = (false, run) := by
  unfold splitSign
  split
  · cases h _ List.mem_cons_self
  · cases h _ List.mem_cons_self
  · rfl

theorem splitSign_minus (cs : List Char) : splitSign ('-' :: cs) = (true, cs) := rfl

/-- A text is what is behind its sign, with the sign in front if there is one. -/
theorem splitSign_cases (h : splitSign cs = (negative, run)) :
    cs = '-' :: run ∧ negative = true ∨ (cs = '+' :: run ∨ cs = run) ∧ negative = false := by
  unfold splitSign at h
  split at h <;> cases h
  · exact .inl ⟨rfl, rfl⟩
  · exact .inr ⟨.inl rfl, rfl⟩
  · exact .inr ⟨.inr rfl, rfl⟩

end Floating

theorem denotesInt_iff (h : Floating.splitSign cs = (negative, run)) : DenotesInt cs n ↔
    (run ≠ [] ∧ AllDigits run) ∧ n = signed negative (ofDigits run) := by
  constructor
  · rintro (⟨hne, hrun⟩ | ⟨hne, hrun⟩ | ⟨hne, hrun⟩)
    · rw [Floating.splitSign_digits hrun] at h
      cases h
      exact ⟨⟨hne, hrun⟩, rfl⟩
    · cases h
      exact ⟨⟨hne, hrun⟩, rfl⟩
    · cases h
      exact ⟨⟨hne, hrun⟩, rfl⟩
  · rintro ⟨⟨hne, hrun⟩, rfl⟩
    obtain ⟨rfl, rfl⟩ | ⟨rfl | rfl, rfl⟩ := Floating.splitSign_cases h
    · exact .minus hne hrun
    · exact .plus hne hrun
    · exact .plain hne hrun

theorem DenotesInt.unique {m : Int} (hn : DenotesInt cs n) (hm : DenotesInt cs m) : m = n := by
  rcases hsplit : Floating.splitSign cs with ⟨negative, run⟩
  rw [denotesInt_iff hsplit] at hn hm
  rw [hn.2, hm.2]

/-- A written integer denotes itself. -/
theorem denotesInt_signedDigits (n : Int) : DenotesInt (signedDigits n) n := by
  cases n with
  | ofNat m =>
    have hplain := DenotesInt.plain (digits_ne_nil m) (allDigits_digits m)
    rw [ofDigits_digits] at hplain
    exact hplain
  | negSucc m =>
    have hminus := DenotesInt.minus (digits_ne_nil (m + 1)) (allDigits_digits (m + 1))
    rw [ofDigits_digits] at hminus
    exact hminus

/-- **A numeral is read as the integer that it denotes, if 128 bits hold it.** -/
theorem parseInt?_eq_some_iff : parseInt? cs = some n ↔ DenotesInt cs n ∧ IsWide n := by
  rcases hsplit : Floating.splitSign cs with ⟨negative, run⟩
  rw [denotesInt_iff hsplit]
  unfold parseInt?
  simp only [hsplit, foldlM_digits]
  by_cases hrun : run ≠ [] ∧ AllDigits run
  · rw [if_pos ⟨hrun.1, List.all_eq_true.2 hrun.2⟩, and_iff_right hrun]
    constructor
    · intro h
      split at h
      · next hwide =>
        cases h
        exact ⟨rfl, hwide⟩
      · cases h
    · rintro ⟨rfl, hwide⟩
      exact if_pos hwide
  · rw [if_neg fun h => hrun ⟨h.1, List.all_eq_true.1 h.2⟩]
    exact iff_of_false nofun fun h => hrun h.1.1

/-- Every type is narrower than 128 bits. -/
theorem isWide_of_holds (h : t.Holds n) : IsWide n := by
  have hbounds : wideMin ≤ t.min ∧ t.max ≤ wideMax := by
    obtain ⟨signed, width⟩ := t
    cases signed <;> cases width <;> decide
  exact ⟨Int.le_trans hbounds.1 h.1, Int.le_trans h.2 hbounds.2⟩

/-- **A numeral is read as an integer of a type exactly if the type holds what it denotes.** -/
theorem StoredInt.parse?_eq_some_iff {m : StoredInt t} :
    StoredInt.parse? t cs = some m ↔ DenotesInt cs m.val := by
  unfold StoredInt.parse?
  rw [Option.bind_eq_some_iff]
  constructor
  · rintro ⟨n, hn, hm⟩
    rw [StoredInt.ofInt?_eq_some_iff.1 hm]
    exact (parseInt?_eq_some_iff.1 hn).1
  · intro h
    exact ⟨m.val, parseInt?_eq_some_iff.2 ⟨h, isWide_of_holds m.holds⟩, StoredInt.ofInt?_val m⟩

/-- A written integer is read as every type that holds it. -/
theorem StoredInt.parse?_signedDigits (t : IntegerType) (n : Int) :
    StoredInt.parse? t (signedDigits n) = StoredInt.ofInt? t n := by
  ext m
  rw [StoredInt.parse?_eq_some_iff, StoredInt.ofInt?_eq_some_iff]
  constructor
  · intro h
    exact (denotesInt_signedDigits n).unique h
  · intro h
    rw [h]
    exact denotesInt_signedDigits n

end MessageScript
