import MessageScript.Calendar.Duration
import MessageScript.Proofs.Calendar.Duration
import MessageScript.Proofs.Text.Reading

/-!
# The colon form of a duration

A duration in colon form is written in parts: a minus sign, days and a point behind them, hours,
minutes and seconds with colons between, a point and a fraction (`ColonParts`).  The form is
`[-][d.]H[H]:mm:ss[.f]`, but the digits in front are read before it is known whether they count days
or hours, so hours without days may have as many digits as days, zeros in front.

    ':' ∈ cs ∧ (parse? cs).map nanos = some z ↔
      ∃ p, p.WellFormed 10 ∧ p.text = cs ∧ p.nanos = z                       (parse?_colon_iff)
    p.WellFormed 2 ↔ p.WellFormed 10 ∧ ¬ p.LongHours                       (wellFormed_two_iff)
-/

namespace MessageScript.Calendar.Duration

open Text

/-- The parts of a duration in colon form as they are written.  Days and a fraction that are left
out are empty. -/
structure ColonParts where
  negative : Bool
  days : List Char
  hours : List Char
  minutes : List Char
  seconds : List Char
  fraction : List Char

namespace ColonParts

/-- Days and the point behind them. -/
def daysPart (run : List Char) : List Char := if run = [] then [] else run ++ ['.']

/-- A fraction and the point in front of it. -/
def fractionPart (run : List Char) : List Char := if run = [] then [] else '.' :: run

/-- The parts behind the sign. -/
def unsigned (p : ColonParts) : List Char :=
  daysPart p.days ++
    (p.hours ++ ':' :: (p.minutes ++ ':' :: (p.seconds ++ fractionPart p.fraction)))

/-- The whole text. -/
def text (p : ColonParts) : List Char := (if p.negative then ['-'] else []) ++ p.unsigned

/-- The sum of the parts in nanoseconds. -/
def length (p : ColonParts) : Nat :=
  (ofDigits p.days * 86400 + ofDigits p.hours * 3600 + ofDigits p.minutes * 60 +
    ofDigits p.seconds) * 1_000_000_000 + ofDigits p.fraction * powerOfTen (9 - p.fraction.length)

/-- The sum of the parts with the sign. -/
def nanos (p : ColonParts) : Int := if p.negative then -(p.length : Int) else p.length

/-- Whether a run is two digits that denote a minute or a second. -/
def Sixtieth (run : List Char) : Prop := AllDigits run ∧ run.length = 2 ∧ ofDigits run ≤ 59

/-- Whether each part is in range, hours without days having at most `most` digits. -/
structure WellFormed (most : Nat) (p : ColonParts) : Prop where
  days : AllDigits p.days ∧ p.days.length ≤ 10
  hours : AllDigits p.hours ∧ p.hours ≠ [] ∧ ofDigits p.hours ≤ 23
  hours_length : p.hours.length ≤ if p.days = [] then most else 2
  minutes : Sixtieth p.minutes
  seconds : Sixtieth p.seconds
  fraction : AllDigits p.fraction ∧ p.fraction.length ≤ 7

/-- Whether hours stand in front and have more than two digits. -/
def LongHours (p : ColonParts) : Prop := p.days = [] ∧ 2 < p.hours.length

theorem wellFormed_two_iff {p : ColonParts} : p.WellFormed 2 ↔ p.WellFormed 10 ∧ ¬ p.LongHours := by
  constructor
  · intro h
    have hlength := h.hours_length
    rw [ite_self] at hlength
    refine ⟨⟨h.days, h.hours, ?_, h.minutes, h.seconds, h.fraction⟩, fun hlong => ?_⟩
    · split <;> omega
    · exact Nat.not_lt.2 hlength hlong.2
  · rintro ⟨h, hshort⟩
    refine ⟨h.days, h.hours, ?_, h.minutes, h.seconds, h.fraction⟩
    rw [ite_self]
    by_cases hdays : p.days = []
    · exact Nat.not_lt.1 fun hlong => hshort ⟨hdays, hlong⟩
    · have hlength := h.hours_length
      rw [if_neg hdays] at hlength
      exact hlength

end ColonParts

open ColonParts

variable {cs rest : List Char} {d h n : Nat} {p q : ColonParts}

/-! ## Readers of the parts -/

/-- Days and hours in front of a colon are read as they are written. -/
theorem readDaysHours_eq_some_iff : readDaysHours cs = some ((d, h), ':' :: rest) ↔
    ∃ days hours, cs = daysPart days ++ (hours ++ ':' :: rest) ∧
      (AllDigits days ∧ days.length ≤ 10) ∧ (AllDigits hours ∧ hours ≠ []) ∧
      (hours.length ≤ if days = [] then 10 else 2) ∧ d = ofDigits days ∧ h = ofDigits hours := by
  constructor
  · intro hread
    unfold readDaysHours at hread
    simp only [Option.bind_eq_bind] at hread
    obtain ⟨⟨lead, behind⟩, hlead, hbehind⟩ := Option.bind_eq_some_iff.1 hread
    obtain ⟨rfl, hdigits, hne, hlength, -⟩ := digitRun_eq_some_iff.1 hlead
    -- a point behind the digits tells that they are days
    split at hbehind
    · cases hbehind
      exact ⟨[], lead, rfl, ⟨List.forall_mem_nil _, Nat.zero_le _⟩, ⟨hdigits, hne⟩,
        by rw [if_pos rfl]; exact hlength, rfl, rfl⟩
    · next behindPoint hpoint =>
      obtain ⟨⟨hours, behindHours⟩, hhours, hdone⟩ := Option.bind_eq_some_iff.1 hbehind
      cases hdone
      obtain ⟨rfl, hdigits', hne', hlength', -⟩ := digitRun_eq_some_iff.1 hhours
      obtain rfl : behind = '.' :: (hours ++ ':' :: rest) := eat_eq_some_iff.1 hpoint
      refine ⟨lead, hours, ?_, ⟨hdigits, hlength⟩, ⟨hdigits', hne'⟩, ?_, rfl, rfl⟩
      · rw [daysPart, if_neg hne, List.append_assoc, List.singleton_append]
      · rw [if_neg hne]
        exact hlength'
  · rintro ⟨days, hours, rfl, ⟨hdays, hdaysLength⟩, ⟨hhours, hne⟩, hlength, rfl, rfl⟩
    have hread : ∀ most, hours.length ≤ most →
        digitRun most (hours ++ ':' :: rest) = some (hours, ':' :: rest) := fun most hmost =>
      digitRun_eq_some_iff.2 ⟨rfl, hhours, hne, hmost, noDigitHead_colon rest⟩
    unfold readDaysHours daysPart
    by_cases hempty : days = []
    · rw [if_pos hempty] at hlength
      rw [if_pos hempty, List.nil_append, hread 10 hlength, hempty]
      simp only [Option.bind_eq_bind, Option.bind_some, eat_point_colon]
      rfl
    · have hlead : digitRun 10 (days ++ '.' :: (hours ++ ':' :: rest)) =
          some (days, '.' :: (hours ++ ':' :: rest)) :=
        digitRun_eq_some_iff.2 ⟨rfl, hdays, hempty, hdaysLength, noDigitHead_cons (by decide)⟩
      rw [if_neg hempty] at hlength
      rw [if_neg hempty, List.append_assoc, List.singleton_append, hlead]
      simp only [Option.bind_eq_bind, Option.bind_some, eat_self, hread 2 hlength]
      rfl

/-- A fraction is read as it is written, up to a character that is no digit; without a point ahead
there is none. -/
theorem optionalFraction_append_iff : optionalFraction cs = some (n, rest) ↔
    ∃ run, cs = fractionPart run ++ rest ∧ (AllDigits run ∧ run.length ≤ 7) ∧
      (if run = [] then eat '.' rest = none else NoDigitHead rest) ∧
      n = ofDigits run * powerOfTen (9 - run.length) := by
  unfold optionalFraction fraction
  constructor
  · intro hread
    split at hread
    · next behind hpoint =>
      obtain ⟨⟨run, behindRun⟩, hrun, heq⟩ := Option.map_eq_some_iff.1 hread
      cases heq
      obtain ⟨rfl, hdigits, hne, hlength, hrest⟩ := digitRun_eq_some_iff.1 hrun
      refine ⟨run, ?_, ⟨hdigits, hlength⟩, ?_, rfl⟩
      · rw [eat_eq_some_iff.1 hpoint, fractionPart, if_neg hne, List.cons_append]
      · rw [if_neg hne]
        exact hrest
    · next hpoint =>
      cases hread
      exact ⟨[], rfl, ⟨List.forall_mem_nil _, Nat.zero_le _⟩, hpoint, rfl⟩
  · rintro ⟨run, rfl, ⟨hdigits, hlength⟩, hrest, rfl⟩
    unfold fractionPart
    by_cases hempty : run = []
    · rw [if_pos hempty] at hrest
      rw [if_pos hempty, List.nil_append, hrest, hempty]
      rfl
    · rw [if_neg hempty] at hrest
      have hrun : digitRun fractionDigits (run ++ rest) = some (run, rest) :=
        digitRun_eq_some_iff.2 ⟨rfl, hdigits, hempty, hlength, hrest⟩
      rw [if_neg hempty, List.cons_append, eat_self]
      simp only [hrun, Option.map_some]

theorem optionalFraction_eq_some_iff : optionalFraction cs = some (n, []) ↔
    ∃ run, cs = fractionPart run ∧ (AllDigits run ∧ run.length ≤ 7) ∧
      n = ofDigits run * powerOfTen (9 - run.length) := by
  have hend : ∀ run : List Char, if run = [] then eat '.' [] = none else NoDigitHead [] := by
    intro run
    split
    · rfl
    · exact nofun
  simp only [optionalFraction_append_iff, List.append_nil, hend, true_and]

theorem sixtieth_of_fixedDigits (hread : fixedDigits 2 cs = some (n, rest)) (hle : n ≤ 59) :
    ∃ run, cs = run ++ rest ∧ Sixtieth run ∧ n = ofDigits run := by
  obtain ⟨run, rfl, hlength, hdigits, rfl⟩ := fixedDigits_eq_some_iff.1 hread
  exact ⟨run, rfl, ⟨hdigits, hlength, hle⟩, rfl⟩

theorem ColonParts.Sixtieth.read {run : List Char} (hrun : Sixtieth run) (rest : List Char) :
    fixedDigits 2 (run ++ rest) = some (ofDigits run, rest) :=
  fixedDigits_eq_some_iff.2 ⟨run, rfl, hrun.2.1, hrun.1, rfl⟩

/-! ## Texts -/

/-- What is read behind a condition is read only if the condition holds. -/
theorem exists_of_guarded {α β : Type} {q : Prop} [Decidable q] {o : Option α}
    {next : α → Option β} {b : β} (h : (if q then o.bind next else none.bind next) = some b) :
    q ∧ ∃ a, o = some a ∧ next a = some b := by
  by_cases hq : q
  · rw [if_pos hq] at h
    exact ⟨hq, Option.bind_eq_some_iff.1 h⟩
  · rw [if_neg hq] at h
    cases h

/-- **The length of a text in colon form is the sum of its parts.** -/
theorem colonLength?_eq_some_iff (negative : Bool) : colonLength? cs = some n ↔
    ∃ p : ColonParts, p.WellFormed 10 ∧ p.negative = negative ∧ p.unsigned = cs ∧ p.length = n := by
  unfold colonLength?
  simp only [Option.bind_eq_bind]
  constructor
  · intro hread
    obtain ⟨⟨⟨d, h⟩, behindHours⟩, hhours, hread⟩ := Option.bind_eq_some_iff.1 hread
    obtain ⟨hh, behindColon, hcolon, hread⟩ := exists_of_guarded hread
    obtain ⟨⟨m, behindMinutes⟩, hminutes, hread⟩ := Option.bind_eq_some_iff.1 hread
    obtain ⟨hm, behindSecondColon, hsecondColon, hread⟩ := exists_of_guarded hread
    obtain ⟨⟨s, behindSeconds⟩, hseconds, hread⟩ := Option.bind_eq_some_iff.1 hread
    obtain ⟨hs, ⟨f, behind⟩, hfraction, hread⟩ := exists_of_guarded hread
    obtain ⟨hdone, hlength⟩ := Option.ite_none_right_eq_some.1 hread
    cases hlength
    obtain rfl := eat_eq_some_iff.1 hcolon
    obtain rfl := eat_eq_some_iff.1 hsecondColon
    obtain ⟨days, hours, rfl, hdays, hhoursRun, hlength, rfl, rfl⟩ :=
      readDaysHours_eq_some_iff.1 hhours
    obtain ⟨minutes, rfl, hminutesRun, rfl⟩ := sixtieth_of_fixedDigits hminutes hm
    obtain ⟨seconds, rfl, hsecondsRun, rfl⟩ := sixtieth_of_fixedDigits hseconds hs
    obtain rfl : behind = [] := hdone
    obtain ⟨fraction, rfl, hfractionRun, rfl⟩ := optionalFraction_eq_some_iff.1 hfraction
    exact ⟨⟨negative, days, hours, minutes, seconds, fraction⟩,
      ⟨hdays, ⟨hhoursRun.1, hhoursRun.2, hh⟩, hlength, hminutesRun, hsecondsRun, hfractionRun⟩,
      rfl, rfl, rfl⟩
  · rintro ⟨p, hp, -, rfl, rfl⟩
    have hhours : ∀ rest, readDaysHours (daysPart p.days ++ (p.hours ++ ':' :: rest)) =
        some ((ofDigits p.days, ofDigits p.hours), ':' :: rest) := fun rest =>
      readDaysHours_eq_some_iff.2 ⟨p.days, p.hours, rfl, hp.days, ⟨hp.hours.1, hp.hours.2.1⟩,
        hp.hours_length, rfl, rfl⟩
    have hfraction := optionalFraction_eq_some_iff.2 ⟨p.fraction, rfl, hp.fraction, rfl⟩
    unfold unsigned
    simp only [hhours, Option.bind_some, if_pos hp.hours.2.2, eat_self, hp.minutes.read,
      if_pos hp.minutes.2.2, hp.seconds.read, if_pos hp.seconds.2.2, hfraction, if_true]
    rfl

/-! ## The digits in front -/

namespace ColonParts

/-- The digits in front are the days if there are any, and else the hours; a point or a colon
follows. -/
theorem WellFormed.exists_front {most : Nat} (hp : p.WellFormed most) :
    ∃ run mark rest, p.unsigned = run ++ mark :: rest ∧ AllDigits run ∧ run ≠ [] ∧
      (p.days ≠ [] ∧ mark = '.' ∨ p.days = [] ∧ mark = ':' ∧ run = p.hours) := by
  unfold unsigned daysPart
  by_cases hdays : p.days = []
  · rw [if_pos hdays, List.nil_append]
    exact ⟨p.hours, ':', _, rfl, hp.hours.1, hp.hours.2.1, .inr ⟨hdays, rfl, rfl⟩⟩
  · rw [if_neg hdays, List.append_assoc, List.singleton_append]
    exact ⟨p.days, '.', _, rfl, hp.days.1, hdays, .inl ⟨hdays, rfl⟩⟩

theorem WellFormed.splitMinus_text {most : Nat} (hp : p.WellFormed most) :
    splitMinus p.text = (p.negative, p.unsigned) := by
  unfold text
  cases p.negative with
  | true => rfl
  | false =>
    obtain ⟨run, mark, rest, heq, hdigits, hne, -⟩ := hp.exists_front
    obtain ⟨c, run, rfl⟩ := List.exists_cons_of_ne_nil hne
    rw [heq]
    exact splitMinus_of_isDigit (hdigits c List.mem_cons_self) _

/-- Parts of one text have long hours both or neither. -/
theorem WellFormed.longHours_of_text_eq {j k : Nat} (hp : p.WellFormed j) (hq : q.WellFormed k)
    (htext : p.text = q.text) (hlong : p.LongHours) : q.LongHours := by
  have hunsigned : p.unsigned = q.unsigned := by
    have hsplit := hp.splitMinus_text
    rw [htext, hq.splitMinus_text] at hsplit
    exact (congrArg Prod.snd hsplit).symm
  obtain ⟨run, mark, rest, hpfront, hdigits, -, hpmark⟩ := hp.exists_front
  obtain ⟨run', mark', rest', hqfront, hdigits', -, hqmark⟩ := hq.exists_front
  have hmark : NoDigitHead (mark :: rest) := by
    obtain ⟨-, rfl⟩ | ⟨-, rfl, -⟩ := hpmark <;> exact noDigitHead_cons (by decide)
  have hmark' : NoDigitHead (mark' :: rest') := by
    obtain ⟨-, rfl⟩ | ⟨-, rfl, -⟩ := hqmark <;> exact noDigitHead_cons (by decide)
  rw [hpfront, hqfront] at hunsigned
  have hrun : run = run' := by
    rw [← takeWhile_isDigit_append hdigits hmark, hunsigned,
      takeWhile_isDigit_append hdigits' hmark']
  have hbehind : mark :: rest = mark' :: rest' := by
    rw [← dropWhile_isDigit_append hdigits hmark, hunsigned,
      dropWhile_isDigit_append hdigits' hmark']
  obtain ⟨hdays, -⟩ | ⟨-, rfl, rfl⟩ := hpmark
  · exact absurd hlong.1 hdays
  · obtain ⟨-, rfl⟩ | ⟨hdays, -, rfl⟩ := hqmark
    · cases hbehind
    · exact ⟨hdays, hrun ▸ hlong.2⟩

theorem colon_mem_text (p : ColonParts) : ':' ∈ p.text :=
  List.mem_append_right _ (List.mem_append_right _ (List.mem_append_right _ List.mem_cons_self))

/-! ## Sums -/

/-- Seven digits of a fraction are whole ticks, and less than a second. -/
theorem WellFormed.fraction_bounds {most : Nat} (hp : p.WellFormed most) :
    ofDigits p.fraction * powerOfTen (9 - p.fraction.length) < 1_000_000_000 ∧
      ofDigits p.fraction * powerOfTen (9 - p.fraction.length) % 100 = 0 := by
  obtain ⟨hdigits, hlength⟩ := hp.fraction
  have hlt := Nat.mul_lt_mul_of_pos_right (ofDigits_lt hdigits)
    (powerOfTen_pos (9 - p.fraction.length))
  rw [Nat.mul_comm (powerOfTen _), powerOfTen_split (Nat.le_trans hlength (by decide))] at hlt
  refine ⟨hlt, ?_⟩
  rw [powerOfTen_missing hlength, Nat.mul_left_comm]
  exact Nat.mul_mod_right 100 _

theorem WellFormed.days_lt {most : Nat} (hp : p.WellFormed most) :
    ofDigits p.days < tenDigits := by
  have hpower : powerOfTen p.days.length ≤ powerOfTen 10 :=
    Nat.pow_le_pow_right (by decide) hp.days.2
  exact Nat.lt_of_lt_of_le (ofDigits_lt hp.days.1) hpower

/-- The sum is in whole ticks, and no duration is too long for it. -/
theorem WellFormed.ofLength?_length {most : Nat} (hp : p.WellFormed most) :
    (ofLength? p.negative p.length).map Duration.nanos = some p.nanos := by
  obtain ⟨hfraction, hticks⟩ := hp.fraction_bounds
  have hdays := hp.days_lt
  have hhours := hp.hours.2.2
  have hminutes := hp.minutes.2.2
  have hseconds := hp.seconds.2.2
  have hwhole : p.length - p.length % tickNanos = p.length := by
    unfold length tickNanos
    omega
  have hlimit : p.nanos.natAbs ≤ 0x7FFF_FFFF_FFFF_FFFF * 1_000_000 := by
    have hlength : p.length < 0x7FFF_FFFF_FFFF_FFFF * 1_000_000 := by
      unfold length
      unfold tenDigits at hdays
      omega
    unfold ColonParts.nanos
    split <;> omega
  have hread : ofLength? p.negative p.length = ofNanos? p.nanos := by
    unfold ofLength?
    rw [hwhole]
    rfl
  rw [hread, ofNanos?_eq_some_iff (d := ⟨p.nanos, hlimit⟩).2 rfl]
  rfl

end ColonParts

theorem eq_of_splitMinus {negative : Bool} {behind : List Char}
    (h : splitMinus cs = (negative, behind)) :
    cs = (if negative then ['-'] else []) ++ behind := by
  unfold splitMinus at h
  split at h <;> cases h <;> rfl

/-- A text with a colon is read as the sum of its parts. -/
theorem parse?_colon_iff {z : Int} : (':' ∈ cs ∧ (parse? cs).map nanos = some z) ↔
    ∃ p : ColonParts, p.WellFormed 10 ∧ p.text = cs ∧ p.nanos = z := by
  constructor
  · rintro ⟨hcolon, hread⟩
    rcases hsplit : splitMinus cs with ⟨negative, behind⟩
    unfold parse? at hread
    rw [hsplit] at hread
    simp only [List.contains_iff_mem.2 hcolon, if_true] at hread
    obtain ⟨d, hd, rfl⟩ := Option.map_eq_some_iff.1 hread
    obtain ⟨length, hlength, hd⟩ := Option.bind_eq_some_iff.1 hd
    obtain ⟨p, hp, rfl, rfl, rfl⟩ := (colonLength?_eq_some_iff negative).1 hlength
    refine ⟨p, hp, ?_, ?_⟩
    · exact (eq_of_splitMinus hsplit).symm
    · have hsum := hp.ofLength?_length
      rw [hd] at hsum
      exact (Option.some.inj hsum).symm
  · rintro ⟨p, hp, rfl, rfl⟩
    refine ⟨p.colon_mem_text, ?_⟩
    have hlength := (colonLength?_eq_some_iff p.negative).2 ⟨p, hp, rfl, rfl, rfl⟩
    unfold parse?
    rw [hp.splitMinus_text]
    simp only [List.contains_iff_mem.2 p.colon_mem_text, if_true, hlength, Option.bind_some]
    exact hp.ofLength?_length

/-- **A text with a colon is read exactly if it is made of well-formed parts, as their sum.**  The
form with at most two digits of hours says the same, unless longer hours stand in front: these are
read too. -/
theorem colon_read_iff (cs : List Char) (z : Int) :
    ((':' ∈ cs ∧ (parse? cs).map nanos = some z) ↔
      ∃ p : ColonParts, p.WellFormed 10 ∧ p.text = cs ∧ p.nanos = z) ∧
    (((':' ∈ cs ∧ (parse? cs).map nanos = some z) ↔
        ∃ p : ColonParts, p.WellFormed 2 ∧ p.text = cs ∧ p.nanos = z) ↔
      ¬ ∃ p : ColonParts, p.WellFormed 10 ∧ p.LongHours ∧ p.text = cs ∧ p.nanos = z) := by
  refine ⟨parse?_colon_iff, ?_⟩
  rw [parse?_colon_iff]
  constructor
  · rintro hsame ⟨p, hp, hlong, rfl, rfl⟩
    obtain ⟨q, hq, htext, -⟩ := hsame.1 ⟨p, hp, rfl, rfl⟩
    exact (wellFormed_two_iff.1 hq).2 (hp.longHours_of_text_eq hq htext.symm hlong)
  · intro hnone
    constructor
    · rintro ⟨p, hp, rfl, rfl⟩
      exact ⟨p, wellFormed_two_iff.2 ⟨hp, fun hlong => hnone ⟨p, hp, hlong, rfl, rfl⟩⟩, rfl, rfl⟩
    · rintro ⟨p, hp, htext, hnanos⟩
      exact ⟨p, (wellFormed_two_iff.1 hp).1, htext, hnanos⟩

/-- One hour with a zero too many in front. -/
def oneHour : ColonParts := ⟨false, [], ['0', '0', '1'], ['0', '0'], ['0', '0'], []⟩

theorem oneHour_wellFormed : oneHour.WellFormed 10 where
  days := ⟨List.forall_mem_nil _, by decide⟩
  hours := ⟨List.all_eq_true.1 rfl, by decide, by decide⟩
  hours_length := by decide
  minutes := ⟨List.all_eq_true.1 rfl, rfl, by decide⟩
  seconds := ⟨List.all_eq_true.1 rfl, rfl, by decide⟩
  fraction := ⟨List.forall_mem_nil _, by decide⟩

/-- Hours of three digits are read, though the form has one or two. -/
theorem colon_read_threeDigits :
    (':' ∈ "001:00:00".toList ∧ (parse? "001:00:00".toList).map nanos = some 3_600_000_000_000) ∧
    ¬ ∃ p : ColonParts, p.WellFormed 2 ∧ p.text = "001:00:00".toList := by
  refine ⟨parse?_colon_iff.2 ⟨oneHour, oneHour_wellFormed, rfl, rfl⟩, ?_⟩
  rintro ⟨p, hp, htext⟩
  have hlong := oneHour_wellFormed.longHours_of_text_eq hp htext.symm ⟨rfl, by decide⟩
  exact (wellFormed_two_iff.1 hp).2 hlong

end MessageScript.Calendar.Duration
