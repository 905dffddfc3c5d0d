import MessageScript.Text.Reading

/-!
# Numerals read back

What each reader of numerals takes off the front of a text, and that it reads a written numeral
back, whatever follows.  A run of digits ends where no digit is ahead (`NoDigitHead`).

    digitRun most cs = some (run, rest) ↔
      cs = run ++ rest ∧ AllDigits run ∧ … ∧ NoDigitHead rest          (digitRun_eq_some_iff)
    n < powerOfTen w → fixedDigits w (paddedDigits w n ++ rest) = some (n, rest)
                                                                  (fixedDigits_paddedDigits)
-/

namespace MessageScript.Text

variable {c d : Char} {cs run rest : List Char} {n w most : Nat}

/-! ## Digits -/

/-- Whether a text has digits only. -/
def AllDigits (cs : List Char) : Prop := ∀ c ∈ cs, c.isDigit = true

/-- Whether a text does not start with a digit. -/
def NoDigitHead (cs : List Char) : Prop := ∀ c, cs.head? = some c → c.isDigit = false

theorem allDigits_append : AllDigits (cs ++ rest) ↔ AllDigits cs ∧ AllDigits rest :=
  List.forall_mem_append

theorem noDigitHead_cons (h : c.isDigit = false) : NoDigitHead (c :: rest) := by
  intro d hd
  cases hd
  exact h

theorem toNat_sub_lt_of_isDigit (h : c.isDigit = true) : c.toNat - '0'.toNat < 10 := by
  unfold Char.isDigit at h
  simp only [Bool.and_eq_true, decide_eq_true_eq, ge_iff_le, UInt32.le_iff_toNat_le] at h
  have hle : c.toNat ≤ 57 := h.2
  have hzero : '0'.toNat = 48 := rfl
  omega

theorem toNat_bounds_of_isAlpha (h : c.isAlpha = true) : 0x41 ≤ c.toNat ∧ c.toNat ≤ 0x7A := by
  obtain hupper | hlower := Bool.or_eq_true_iff.1 h
  · obtain ⟨hlow, hhigh⟩ := of_decide_eq_true hupper
    have hlow : 0x41 ≤ c.toNat := UInt32.le_iff_toNat_le.1 hlow
    have hhigh : c.toNat ≤ 0x5A := UInt32.le_iff_toNat_le.1 hhigh
    omega
  · obtain ⟨hlow, hhigh⟩ := Bool.and_eq_true_iff.1 hlower
    have hlow : 0x61 ≤ c.toNat := UInt32.le_iff_toNat_le.1 (of_decide_eq_true hlow)
    have hhigh : c.toNat ≤ 0x7A := UInt32.le_iff_toNat_le.1 (of_decide_eq_true hhigh)
    omega

theorem isAlpha_of_isLower_toLower (h : c.toLower.isLower = true) : c.isAlpha = true := by
  unfold Char.toLower at h
  split at h
  · next hupper => exact Bool.or_eq_true_iff.2 (.inl (decide_eq_true hupper))
  · exact Bool.or_eq_true_iff.2 (.inr h)

/-! ## Values of numerals -/

theorem powerOfTen_succ (k : Nat) : powerOfTen (k + 1) = powerOfTen k * 10 := rfl

theorem powerOfTen_pos (k : Nat) : 0 < powerOfTen k := Nat.pow_pos (by decide)

theorem powerOfTen_add (j k : Nat) : powerOfTen (j + k) = powerOfTen j * powerOfTen k :=
  Nat.pow_add 10 j k

theorem ofDigits_append (cs rest : List Char) :
    ofDigits (cs ++ rest) = ofDigits cs * powerOfTen rest.length + ofDigits rest := by
  unfold ofDigits powerOfTen
  rw [Nat.ofDigitChars_append, Nat.ofDigitChars_eq_ofDigitChars_zero, Nat.mul_comm]
  rfl

theorem ofDigits_zeros (k : Nat) : ofDigits (List.replicate k '0') = 0 := by
  unfold ofDigits
  rw [Nat.ofDigitChars_replicate_zero, Nat.mul_zero]

theorem ofDigits_cons (c : Char) (cs : List Char) :
    ofDigits (c :: cs) = (c.toNat - '0'.toNat) * powerOfTen cs.length + ofDigits cs := by
  have happend := ofDigits_append [c] cs
  rw [List.singleton_append] at happend
  rw [happend, ofDigits, Nat.ofDigitChars_cons, Nat.ofDigitChars_nil, Nat.mul_zero, Nat.zero_add]

/-- So many digits denote less than the power of ten. -/
theorem ofDigits_lt (h : AllDigits cs) : ofDigits cs < powerOfTen cs.length := by
  induction cs with
  | nil => decide
  | cons c cs ih =>
    have hc := toNat_sub_lt_of_isDigit (h c List.mem_cons_self)
    have hcs := ih fun d hd => h d (List.mem_cons_of_mem c hd)
    rw [ofDigits_cons, List.length_cons, powerOfTen_succ]
    have hmul : (c.toNat - '0'.toNat) * powerOfTen cs.length ≤ 9 * powerOfTen cs.length :=
      Nat.mul_le_mul_right _ (by omega)
    omega

theorem eq_of_toNat_sub_eq (hc : c.isDigit = true) (hd : d.isDigit = true)
    (h : c.toNat - '0'.toNat = d.toNat - '0'.toNat) : c = d := by
  simp only [Char.isDigit, Bool.and_eq_true, decide_eq_true_eq, ge_iff_le,
    UInt32.le_iff_toNat_le] at hc hd
  have hc' : '0'.toNat ≤ c.toNat := hc.1
  have hd' : '0'.toNat ≤ d.toNat := hd.1
  have htoNat : c.toNat = d.toNat := by omega
  rw [← Char.ofNat_toNat c, htoNat, Char.ofNat_toNat]

theorem eq_zero_of_isDigit (h : c.isDigit = true) (hzero : c.toNat - '0'.toNat = 0) : c = '0' :=
  eq_of_toNat_sub_eq h rfl hzero

/-- Digits denote zero exactly if they all are zeros. -/
theorem ofDigits_eq_zero_iff (h : AllDigits cs) : ofDigits cs = 0 ↔ ∀ c ∈ cs, c = '0' := by
  constructor
  · intro hzero
    induction cs with
    | nil => exact fun c hc => absurd hc List.not_mem_nil
    | cons d cs ih =>
      have hd := h d List.mem_cons_self
      rw [ofDigits_cons, Nat.add_eq_zero_iff, Nat.mul_eq_zero] at hzero
      obtain ⟨hd' | hpower, hrest⟩ := hzero
      · exact List.forall_mem_cons.2 ⟨eq_zero_of_isDigit hd hd',
          ih (fun c hc => h c (List.mem_cons_of_mem d hc)) hrest⟩
      · exact absurd hpower (Nat.ne_of_gt (powerOfTen_pos _))
  · intro hzeros
    rw [List.eq_replicate_iff.2 ⟨rfl, hzeros⟩, ofDigits_zeros]

/-! ## Numerals as they are written -/

theorem allDigits_digits (n : Nat) : AllDigits (digits n) := fun _ => isDigit_of_mem_digits

theorem length_digits_le_iff (hw : 0 < w) : (digits n).length ≤ w ↔ n < powerOfTen w :=
  Nat.length_toDigits_le_iff (by decide) hw

/-- A positive number has a digit more than the greatest power of ten that it reaches has zeros. -/
theorem exists_length_digits (h : 0 < n) :
    ∃ k, (digits n).length = k + 1 ∧ powerOfTen k ≤ n ∧ n < powerOfTen (k + 1) := by
  obtain ⟨k, hk⟩ := Nat.exists_eq_succ_of_ne_zero
    (Nat.ne_of_gt (List.length_pos_iff.2 (digits_ne_nil n)))
  refine ⟨k, hk, Nat.not_lt.1 fun hlt => ?_, (length_digits_le_iff k.succ_pos).1 (Nat.le_of_eq hk)⟩
  cases k with
  | zero => exact Nat.not_lt.2 h hlt
  | succ k =>
    have hle := (length_digits_le_iff k.succ_pos).2 hlt
    omega

theorem allDigits_zeros (k : Nat) : AllDigits (List.replicate k '0') := by
  intro c hc
  rw [List.eq_of_mem_replicate hc]
  rfl

theorem allDigits_paddedDigits (w n : Nat) : AllDigits (paddedDigits w n) :=
  allDigits_append.2 ⟨allDigits_zeros _, allDigits_digits n⟩

@[simp] theorem ofDigits_paddedDigits (w n : Nat) : ofDigits (paddedDigits w n) = n := by
  rw [paddedDigits, ofDigits_zeroFill, ofDigits_digits]

theorem paddedDigits_ne_nil (w n : Nat) : paddedDigits w n ≠ [] :=
  List.append_ne_nil_of_right_ne_nil _ (digits_ne_nil n)

theorem le_length_paddedDigits (w n : Nat) : w ≤ (paddedDigits w n).length := by
  rw [paddedDigits, zeroFill, List.length_append, List.length_replicate]
  omega

theorem length_paddedDigits (hw : 0 < w) (h : n < powerOfTen w) :
    (paddedDigits w n).length = w := by
  have hlength := (length_digits_le_iff hw).2 h
  rw [paddedDigits, zeroFill, List.length_append, List.length_replicate]
  omega

/-- As many digits that denote the same number are the same. -/
theorem eq_of_ofDigits_eq (hcs : AllDigits cs) (hrun : AllDigits run)
    (hlength : cs.length = run.length) (h : ofDigits cs = ofDigits run) : cs = run := by
  induction cs generalizing run with
  | nil => exact (List.eq_nil_of_length_eq_zero hlength.symm).symm
  | cons c cs ih =>
    cases run with
    | nil => cases hlength
    | cons d run =>
      have hrest : cs.length = run.length := Nat.succ.inj hlength
      have hcs' : AllDigits cs := fun e he => hcs e (List.mem_cons_of_mem c he)
      have hrun' : AllDigits run := fun e he => hrun e (List.mem_cons_of_mem d he)
      have hlow := ofDigits_lt hcs'
      have hlow' := ofDigits_lt hrun'
      rw [ofDigits_cons, ofDigits_cons, ← hrest] at h
      rw [← hrest] at hlow'
      -- the first digit is the quotient by the power of ten, the others are the remainder
      have hfirst : c.toNat - '0'.toNat = d.toNat - '0'.toNat := by
        have hquotient := congrArg (· / powerOfTen cs.length) h
        simp only [Nat.mul_comm _ (powerOfTen cs.length),
          Nat.mul_add_div (powerOfTen_pos cs.length), Nat.div_eq_of_lt hlow,
          Nat.div_eq_of_lt hlow', Nat.add_zero] at hquotient
        exact hquotient
      rw [hfirst] at h
      rw [ih hcs' hrun' hrest (Nat.add_left_cancel h)]
      rw [eq_of_toNat_sub_eq (hcs c List.mem_cons_self) (hrun d List.mem_cons_self) hfirst]

/-- A run of digits is the number that it denotes, in its width. -/
theorem paddedDigits_ofDigits (h : AllDigits run) (hne : run ≠ []) :
    paddedDigits run.length (ofDigits run) = run :=
  eq_of_ofDigits_eq (allDigits_paddedDigits _ _) h
    (length_paddedDigits (List.length_pos_iff.2 hne) (ofDigits_lt h)) (ofDigits_paddedDigits _ _)

/-- Numbers that fill the width are not padded. -/
theorem paddedDigits_eq_digits (h : w ≤ (digits n).length) : paddedDigits w n = digits n := by
  rw [paddedDigits, zeroFill, Nat.sub_eq_zero_of_le h, List.replicate_zero, List.nil_append]

theorem paddedDigits_of_lt_length (h : w < (paddedDigits w n).length) :
    paddedDigits w n = digits n := by
  refine paddedDigits_eq_digits ?_
  rw [paddedDigits, zeroFill, List.length_append, List.length_replicate] at h
  omega

/-- Only zero is written with a zero in front. -/
theorem head?_digits (h : n ≠ 0) : (digits n).head? ≠ some '0' := by
  intro hhead
  obtain ⟨rest, hrest⟩ := List.head?_eq_some_iff.1 hhead
  have hvalue := ofDigits_digits n
  have hdigits := allDigits_digits n
  rw [hrest] at hvalue hdigits
  rw [ofDigits_cons, Nat.sub_self, Nat.zero_mul, Nat.zero_add] at hvalue
  have hlt := ofDigits_lt fun c hc => hdigits c (List.mem_cons_of_mem _ hc)
  rw [hvalue] at hlt
  cases rest with
  | nil =>
    rw [List.length_nil] at hlt
    exact h (Nat.lt_one_iff.1 hlt)
  | cons c rest =>
    have hlength := (length_digits_le_iff (Nat.succ_pos _)).2 hlt
    rw [hrest, List.length_cons] at hlength
    exact Nat.not_succ_le_self _ hlength

theorem digits_mul_powerOfTen (hn : 0 < n) (k : Nat) :
    digits (n * powerOfTen k) = digits n ++ List.replicate k '0' := by
  induction k with
  | zero => rw [show powerOfTen 0 = 1 from rfl, Nat.mul_one, List.replicate_zero, List.append_nil]
  | succ k ih =>
    have hpos : 0 < n * powerOfTen k := Nat.mul_pos hn (powerOfTen_pos k)
    have happend := Nat.toDigits_append_toDigits (b := 10) (by decide) hpos (d := 0) (by decide)
    rw [powerOfTen_succ, ← Nat.mul_assoc, Nat.mul_comm _ 10, List.replicate_succ',
      ← List.append_assoc, ← ih]
    exact happend.symm

/-! ## Zeros at the end -/

theorem takeWhile_beq (c : Char) (cs : List Char) :
    cs.takeWhile (· == c) = List.replicate (cs.takeWhile (· == c)).length c := by
  refine List.eq_replicate_of_mem fun d hd => ?_
  exact beq_iff_eq.1 (List.all_eq_true.1 List.all_takeWhile d hd)

/-- What is cut off the end of a text is zeros. -/
theorem exists_eq_trimZeros_append (keep : Nat) (cs : List Char) :
    ∃ k, cs = trimZeros keep cs ++ List.replicate k '0' := by
  generalize hback : (cs.drop keep).reverse = back
  refine ⟨(back.takeWhile (· == '0')).length, ?_⟩
  have hdrop : cs.drop keep = (back.dropWhile (· == '0')).reverse ++
      List.replicate (back.takeWhile (· == '0')).length '0' := by
    rw [← List.reverse_replicate, ← takeWhile_beq, ← List.reverse_append,
      List.takeWhile_append_dropWhile, ← hback, List.reverse_reverse]
  rw [trimZeros, hback, List.append_assoc, ← hdrop, List.take_append_drop]

theorem length_trimZeros_le (keep : Nat) (cs : List Char) :
    (trimZeros keep cs).length ≤ cs.length := by
  obtain ⟨k, hk⟩ := exists_eq_trimZeros_append keep cs
  have hlength := congrArg List.length hk
  rw [List.length_append] at hlength
  omega

theorem le_length_trimZeros {keep : Nat} (h : keep ≤ cs.length) :
    keep ≤ (trimZeros keep cs).length := by
  rw [trimZeros, List.length_append, List.length_take, Nat.min_eq_left h]
  exact Nat.le_add_right _ _

/-- Beyond what is kept in any case, no zero is left at the end. -/
theorem getLast?_trimZeros {keep : Nat} (h : keep < (trimZeros keep cs).length) :
    (trimZeros keep cs).getLast? ≠ some '0' := by
  rw [trimZeros] at h ⊢
  generalize hback : (cs.drop keep).reverse.dropWhile (· == '0') = back at h ⊢
  have hhead := List.head?_dropWhile_not (· == '0') (cs.drop keep).reverse
  rw [hback] at hhead
  cases back with
  | nil =>
    rw [List.reverse_nil, List.append_nil, List.length_take] at h
    omega
  | cons c back =>
    rw [List.getLast?_append, List.getLast?_reverse, List.head?_cons, Option.some_or]
    rintro ⟨⟩
    cases hhead

/-! ## Readers -/

@[simp] theorem eat_nil (c : Char) : eat c [] = none := rfl

@[simp] theorem eat_self (c : Char) (rest : List Char) : eat c (c :: rest) = some rest := if_pos rfl

theorem eat_of_ne (h : d ≠ c) (rest : List Char) : eat c (d :: rest) = none := if_neg h

theorem eat_digits (hc : c.isDigit = false) (hrun : AllDigits run) (hne : run ≠ [])
    (rest : List Char) : eat c (run ++ rest) = none := by
  cases run with
  | nil => exact absurd rfl hne
  | cons d run =>
    refine eat_of_ne ?_ _
    rintro rfl
    rw [hrun d List.mem_cons_self] at hc
    cases hc

theorem eat_eq_some_iff : eat c cs = some rest ↔ cs = c :: rest := by
  constructor
  · intro h
    cases cs with
    | nil => cases h
    | cons d ds =>
      by_cases hd : d = c
      · rw [hd, eat_self] at h
        rw [hd, Option.some.inj h]
      · rw [eat_of_ne hd] at h
        cases h
  · rintro rfl
    exact eat_self c rest

theorem takeWhile_append_eq_left {p : Char → Bool} (hrun : ∀ c ∈ run, p c = true)
    (hrest : ∀ c, rest.head? = some c → p c = false) : (run ++ rest).takeWhile p = run := by
  rw [List.takeWhile_append_of_pos hrun]
  cases rest with
  | nil => exact List.append_nil run
  | cons c rest => rw [List.takeWhile_cons_of_neg (by rw [hrest c rfl]; decide), List.append_nil]

theorem dropWhile_append_eq_right {p : Char → Bool} (hrun : ∀ c ∈ run, p c = true)
    (hrest : ∀ c, rest.head? = some c → p c = false) : (run ++ rest).dropWhile p = rest := by
  rw [List.dropWhile_append_of_pos hrun]
  cases rest with
  | nil => rfl
  | cons c rest => rw [List.dropWhile_cons_of_neg (by rw [hrest c rfl]; decide)]

theorem takeWhile_isDigit_append (hrun : AllDigits run) (hrest : NoDigitHead rest) :
    (run ++ rest).takeWhile Char.isDigit = run :=
  takeWhile_append_eq_left hrun hrest

theorem dropWhile_isDigit_append (hrun : AllDigits run) (hrest : NoDigitHead rest) :
    (run ++ rest).dropWhile Char.isDigit = rest :=
  dropWhile_append_eq_right hrun hrest

theorem noDigitHead_dropWhile (cs : List Char) : NoDigitHead (cs.dropWhile Char.isDigit) := by
  intro c hc
  have hhead := List.head?_dropWhile_not Char.isDigit cs
  rw [hc] at hhead
  exact hhead

theorem digitRun_eq_some_iff : digitRun most cs = some (run, rest) ↔
    cs = run ++ rest ∧ AllDigits run ∧ run ≠ [] ∧ run.length ≤ most ∧ NoDigitHead rest := by
  unfold digitRun
  simp only
  constructor
  · intro h
    split at h
    · next hrun =>
      cases h
      refine ⟨List.takeWhile_append_dropWhile.symm, ?_, hrun.1, hrun.2, noDigitHead_dropWhile cs⟩
      exact fun c hc => List.all_eq_true.1 List.all_takeWhile c hc
    · cases h
  · rintro ⟨rfl, hdigits, hne, hlength, hrest⟩
    rw [takeWhile_isDigit_append hdigits hrest, dropWhile_isDigit_append hdigits hrest,
      if_pos ⟨hne, hlength⟩]

theorem digitRun_eq_none (hrun : AllDigits run) (hlength : most < run.length)
    (hrest : NoDigitHead rest) : digitRun most (run ++ rest) = none := by
  unfold digitRun
  simp only
  rw [takeWhile_isDigit_append hrun hrest, if_neg]
  rintro ⟨-, hle⟩
  omega

theorem fixedDigits_eq_some_iff : fixedDigits w cs = some (n, rest) ↔
    ∃ run, cs = run ++ rest ∧ run.length = w ∧ AllDigits run ∧ n = ofDigits run := by
  unfold fixedDigits
  simp only
  constructor
  · intro h
    split at h
    · next hrun =>
      cases h
      exact ⟨cs.take w, (List.take_append_drop w cs).symm, hrun.1, List.all_eq_true.1 hrun.2, rfl⟩
    · cases h
  · rintro ⟨run, rfl, rfl, hdigits, rfl⟩
    rw [List.take_left, List.drop_left, if_pos ⟨rfl, List.all_eq_true.2 hdigits⟩]

theorem fixedDigits_lt (h : fixedDigits w cs = some (n, rest)) : n < powerOfTen w := by
  obtain ⟨run, -, rfl, hdigits, rfl⟩ := fixedDigits_eq_some_iff.1 h
  exact ofDigits_lt hdigits

/-- A number in the right width is read back, whatever follows. -/
theorem fixedDigits_paddedDigits (hw : 0 < w) (h : n < powerOfTen w) (rest : List Char) :
    fixedDigits w (paddedDigits w n ++ rest) = some (n, rest) :=
  fixedDigits_eq_some_iff.2 ⟨paddedDigits w n, rfl, length_paddedDigits hw h,
    allDigits_paddedDigits w n, (ofDigits_paddedDigits w n).symm⟩

theorem fixedDigits_paddedDigits_nil (hw : 0 < w) (h : n < powerOfTen w) :
    fixedDigits w (paddedDigits w n) = some (n, []) := by
  have hread := fixedDigits_paddedDigits hw h []
  rw [List.append_nil] at hread
  exact hread

/-- What is read in a width is the number written in that width. -/
theorem eq_append_of_fixedDigits (hw : 0 < w) (h : fixedDigits w cs = some (n, rest)) :
    cs = paddedDigits w n ++ rest := by
  obtain ⟨run, rfl, rfl, hdigits, rfl⟩ := fixedDigits_eq_some_iff.1 h
  rw [paddedDigits_ofDigits hdigits (List.ne_nil_of_length_pos hw)]

/-- Digits that are read off the front of a run leave the end of the run. -/
theorem exists_of_fixedDigits {behind : List Char} (hc : c.isDigit = false)
    (h : fixedDigits w (run ++ c :: rest) = some (n, behind)) :
    ∃ taken left, run = taken ++ left ∧ taken.length = w ∧ behind = left ++ c :: rest := by
  obtain ⟨taken, heq, hlength, hdigits, -⟩ := fixedDigits_eq_some_iff.1 h
  obtain ⟨more, rfl, hmore⟩ | ⟨left, hrun, hbehind⟩ := List.append_eq_append_iff.1 heq
  · cases more with
    | nil =>
      rw [List.append_nil] at hlength
      exact ⟨run, [], (List.append_nil run).symm, hlength, hmore.symm⟩
    | cons d more =>
      -- what is taken would have the character behind the run
      cases hmore
      have hdigit := hdigits c (List.mem_append_right _ List.mem_cons_self)
      rw [hc] at hdigit
      cases hdigit
  · exact ⟨taken, left, hrun, hlength, hbehind⟩

theorem fixedDigits_eq_none (hw : 0 < w) (h : NoDigitHead cs) : fixedDigits w cs = none := by
  cases hread : fixedDigits w cs with
  | none => rfl
  | some result =>
    obtain ⟨run, rfl, rfl, hdigits, -⟩ := fixedDigits_eq_some_iff.1 hread
    cases run with
    | nil => cases hw
    | cons c run =>
      have hdigit := hdigits c List.mem_cons_self
      rw [h c rfl] at hdigit
      cases hdigit

end MessageScript.Text
