import MessageScript.Calendar.Duration
import MessageScript.Proofs.Calendar.Fraction
import MessageScript.Value.Basic

/-!
# Durations and their own texts

The text of a duration is read back, cut to whole ticks, as long as it has less than ten billion
days; from there on the days have more than ten digits, and the text is refused.  The unit form
gives such durations, and the largest has twelve digits of days.

    colonLength? (clockText n) = if n / 1_000_000_000 / 86400 < tenDigits
      then some (n - n % tickNanos) else none                          (colonLength?_clockText)
    parse? cs = some d → parse? d.text = if d.wholeDays < tenDigits then some d else none
                                                                            (text_readable_iff)
-/

namespace MessageScript.Calendar.Duration

open Text

/-- The least number that ten digits cannot write. -/
def tenDigits : Nat := 10_000_000_000

/-- The whole days in the length of a duration. -/
def wholeDays (d : Duration) : Nat := d.nanos.natAbs / 1_000_000_000 / 86400

/-! ## The text of a length -/

/-- The days of a length in seconds and the point behind them, if there are any. -/
def daysText (days : Nat) : List Char := if days = 0 then [] else digits days ++ ['.']

/-- The text of a length without a sign. -/
def clockText (n : Nat) : List Char :=
  let seconds := n / 1_000_000_000
  daysText (seconds / 86400) ++ (paddedDigits 2 (seconds / 3600 % 24) ++
    ':' :: (paddedDigits 2 (seconds / 60 % 60) ++ ':' :: (paddedDigits 2 (seconds % 60) ++
      fractionText (n % 1_000_000_000))))

theorem text_eq (d : Duration) :
    d.text = (if d.nanos < 0 then ['-'] else []) ++ clockText d.nanos.natAbs := by
  simp only [text, clockText, daysText, List.append_assoc, List.cons_append]

variable {n days hours : Nat} {cs rest : List Char} {d : Duration}

theorem lt_hundred {k : Nat} (h : k < 60) : k < powerOfTen 2 := Nat.lt_trans h (by decide)

theorem noDigitHead_colon (rest : List Char) : NoDigitHead (':' :: rest) :=
  noDigitHead_cons (by decide)

theorem eat_point_colon (rest : List Char) : eat '.' (':' :: rest) = none :=
  eat_of_ne (by decide) rest

theorem digitRun_paddedDigits {most : Nat} (hmost : 2 ≤ most) (hn : n < powerOfTen 2)
    (hrest : NoDigitHead rest) :
    digitRun most (paddedDigits 2 n ++ rest) = some (paddedDigits 2 n, rest) := by
  have hlength := length_paddedDigits (by decide) hn
  exact digitRun_eq_some_iff.2 ⟨rfl, allDigits_paddedDigits 2 n, paddedDigits_ne_nil 2 n,
    by omega, hrest⟩

theorem readDaysHours_clock (hdays : days < tenDigits) (hhours : hours < powerOfTen 2)
    (rest : List Char) :
    readDaysHours (daysText days ++ (paddedDigits 2 hours ++ ':' :: rest)) =
      some ((days, hours), ':' :: rest) := by
  unfold readDaysHours daysText
  by_cases hzero : days = 0
  · rw [if_pos hzero, List.nil_append,
      digitRun_paddedDigits (by decide) hhours (noDigitHead_colon rest)]
    simp only [Option.bind_eq_bind, Option.bind_some, eat_point_colon, ofDigits_paddedDigits]
    rw [hzero]
    rfl
  · have hlead : digitRun 10 (digits days ++ '.' :: (paddedDigits 2 hours ++ ':' :: rest)) =
        some (digits days, '.' :: (paddedDigits 2 hours ++ ':' :: rest)) :=
      digitRun_eq_some_iff.2 ⟨rfl, allDigits_digits days, digits_ne_nil days,
        (length_digits_le_iff (by decide)).2 hdays, noDigitHead_cons (by decide)⟩
    rw [if_neg hzero, List.append_assoc, List.singleton_append, hlead]
    simp only [Option.bind_eq_bind, Option.bind_some, eat_self]
    rw [digitRun_paddedDigits (by decide) hhours (noDigitHead_colon rest)]
    simp only [Option.bind_some, ofDigits_digits, ofDigits_paddedDigits]
    rfl

theorem readDaysHours_eq_none (hdays : ¬ days < tenDigits) (rest : List Char) :
    readDaysHours (daysText days ++ rest) = none := by
  have hlong : 10 < (digits days).length := by
    rcases Nat.lt_or_ge 10 (digits days).length with h | h
    · exact h
    · exact absurd ((length_digits_le_iff (by decide)).1 h) hdays
  have hzero : days ≠ 0 := by
    rintro rfl
    exact hdays (by decide)
  unfold readDaysHours daysText
  rw [if_neg hzero, List.append_assoc, List.singleton_append,
    digitRun_eq_none (allDigits_digits days) hlong (noDigitHead_cons (by decide))]
  rfl

/-- A length is read back from its text, cut to whole ticks, unless it has too many days. -/
theorem colonLength?_clockText (n : Nat) : colonLength? (clockText n) =
    if n / 1_000_000_000 / 86400 < tenDigits then some (n - n % tickNanos) else none := by
  unfold colonLength? clockText
  simp only
  by_cases hdays : n / 1_000_000_000 / 86400 < tenDigits
  · rw [if_pos hdays, readDaysHours_clock hdays (lt_hundred (by omega))]
    have hfraction := (fractionText_form (n % 1_000_000_000)).read endsFraction_nil
    rw [List.append_nil] at hfraction
    have hhours : n / 1_000_000_000 / 3600 % 24 ≤ 23 := by omega
    have hminutes : n / 1_000_000_000 / 60 % 60 ≤ 59 := by omega
    have hseconds : n / 1_000_000_000 % 60 ≤ 59 := by omega
    simp only [Option.bind_eq_bind, Option.bind_some, if_pos hhours, eat_self,
      fixedDigits_paddedDigits (w := 2) (by decide) (lt_hundred (Nat.lt_succ_of_le hminutes)),
      if_pos hminutes,
      fixedDigits_paddedDigits (w := 2) (by decide) (lt_hundred (Nat.lt_succ_of_le hseconds)),
      if_pos hseconds, hfraction, if_true]
    refine congrArg some ?_
    unfold tickNanos
    omega
  · rw [if_neg hdays, readDaysHours_eq_none hdays]
    rfl

/-! ## The text of a duration -/

theorem splitMinus_of_isDigit {c : Char} (h : c.isDigit = true) (cs : List Char) :
    splitMinus (c :: cs) = (false, c :: cs) := by
  unfold splitMinus
  split
  · next heq =>
    cases heq
    cases h
  · rfl

theorem exists_clockText_eq_cons (n : Nat) :
    ∃ c rest, clockText n = c :: rest ∧ c.isDigit = true := by
  have hrun : ∃ run rest, clockText n = run ++ rest ∧ AllDigits run ∧ run ≠ [] := by
    unfold clockText daysText
    simp only
    split
    · exact ⟨paddedDigits 2 (n / 1_000_000_000 / 3600 % 24), _, rfl, allDigits_paddedDigits _ _,
        paddedDigits_ne_nil _ _⟩
    · rw [List.append_assoc]
      exact ⟨digits (n / 1_000_000_000 / 86400), _, rfl, allDigits_digits _, digits_ne_nil _⟩
  obtain ⟨run, rest, heq, hdigits, hne⟩ := hrun
  cases run with
  | nil => exact absurd rfl hne
  | cons c run => exact ⟨c, run ++ rest, heq, hdigits c List.mem_cons_self⟩

theorem splitMinus_text (d : Duration) :
    splitMinus d.text = (decide (d.nanos < 0), clockText d.nanos.natAbs) := by
  rw [text_eq]
  by_cases hneg : d.nanos < 0
  · rw [if_pos hneg, decide_eq_true hneg]
    rfl
  · obtain ⟨c, rest, heq, hdigit⟩ := exists_clockText_eq_cons d.nanos.natAbs
    rw [if_neg hneg, decide_eq_false hneg, List.nil_append, heq]
    exact splitMinus_of_isDigit hdigit rest

theorem contains_colon_text (d : Duration) : d.text.contains ':' = true := by
  rw [text_eq, List.contains_iff_mem]
  refine List.mem_append_right _ (List.mem_append_right _ (List.mem_append_right _ ?_))
  exact List.mem_cons_self

theorem ofLength?_cut (negative : Bool) (length : Nat) :
    ofLength? negative (length - length % tickNanos) = ofLength? negative length := by
  have hcut : length - length % tickNanos - (length - length % tickNanos) % tickNanos =
      length - length % tickNanos := by
    unfold tickNanos
    omega
  unfold ofLength?
  rw [hcut]

/-- The text of a duration is read as its length and its sign. -/
theorem parse?_text (d : Duration) : parse? d.text =
    if d.wholeDays < tenDigits then ofLength? (decide (d.nanos < 0)) d.nanos.natAbs else none := by
  unfold parse? wholeDays
  rw [splitMinus_text]
  simp only [contains_colon_text, if_true, colonLength?_clockText]
  split
  · exact ofLength?_cut _ _
  · rfl

/-! ## Durations that are read -/

/-- What is read is in whole ticks. -/
theorem whole_ticks_of_parse? (h : parse? cs = some d) : d.nanos.natAbs % tickNanos = 0 := by
  obtain ⟨length, -, hlength⟩ := Option.bind_eq_some_iff.1 h
  have hnanos := ofNanos?_eq_some_iff.1 hlength
  rw [hnanos]
  unfold tickNanos
  split <;> omega

theorem ofLength?_of_whole_ticks (h : d.nanos.natAbs % tickNanos = 0) :
    ofLength? (decide (d.nanos < 0)) d.nanos.natAbs = some d := by
  unfold ofLength?
  rw [h, Nat.sub_zero]
  refine ofNanos?_eq_some_iff.2 ?_
  split
  · next hneg =>
    have := of_decide_eq_true hneg
    omega
  · next hneg =>
    have := of_decide_eq_false (Bool.eq_false_iff.2 hneg)
    omega

/-- **A duration that is read from a text is read from its own text too, exactly if its days have at
most ten digits**; else its own text is refused. -/
theorem text_readable_iff (h : parse? cs = some d) :
    parse? d.text = (if d.wholeDays < tenDigits then some d else none) ∧
    ∀ defaults, Value.parse .duration (Value.duration d).toText defaults = .ok (.duration d) ↔
      d.wholeDays < tenDigits := by
  have hread : parse? d.text = if d.wholeDays < tenDigits then some d else none := by
    rw [parse?_text, ofLength?_of_whole_ticks (whole_ticks_of_parse? h)]
  refine ⟨hread, ?_⟩
  intro defaults
  have hvalue : Value.parse? .duration (Value.duration d).toText defaults =
      (parse? d.text).map Value.duration := by
    simp only [Value.parse?, Value.toText, String.toList_ofList]
  rw [Value.parse_eq_ok_iff, hvalue, hread]
  by_cases hdays : d.wholeDays < tenDigits
  · rw [if_pos hdays]
    exact iff_of_true rfl hdays
  · rw [if_neg hdays]
    exact iff_of_false (fun h => by cases h) hdays

/-- A tick less than ten billion days, backwards. -/
def almostTenBillionDaysAgo : Duration := ⟨-863_999_999_999_999_999_999_900, by decide⟩

theorem text_readable_almostTenBillionDaysAgo :
    parse? "-59.9999999s 59m 23h 9999999999d".toList = some almostTenBillionDaysAgo ∧
    String.ofList almostTenBillionDaysAgo.text = "-9999999999.23:59:59.9999999" ∧
    parse? almostTenBillionDaysAgo.text = some almostTenBillionDaysAgo := by
  have hread : parse? "-59.9999999s 59m 23h 9999999999d".toList = some almostTenBillionDaysAgo := by
    decide +kernel
  obtain ⟨htext, -⟩ := text_readable_iff hread
  rw [if_pos (by decide)] at htext
  exact ⟨hread, by decide +kernel, htext⟩

/-- Ten billion days. -/
def tenBillionDays : Duration := ⟨864_000_000_000_000_000_000_000, by decide⟩

/-- Ten billion days are read, but not from their own text. -/
theorem text_unreadable_tenBillionDays : parse? "10000000000d".toList = some tenBillionDays ∧
    String.ofList tenBillionDays.text = "10000000000.00:00:00" ∧
    parse? tenBillionDays.text = none := by
  refine ⟨?_, ?_, ?_⟩ <;> decide +kernel

end MessageScript.Calendar.Duration
