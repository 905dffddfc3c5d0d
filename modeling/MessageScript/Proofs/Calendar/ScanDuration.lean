import Mathlib.Data.List.Perm.Subperm
import MessageScript.Calendar.Duration
import MessageScript.Proofs.Calendar.ColonForm
import MessageScript.Proofs.Calendar.Fraction
import MessageScript.Proofs.Calendar.Scan

/-!
# Durations scanned

The scans of both forms of a duration, with lengths added up in words of 64 and 128 bits.  The colon
form has at most ten digits of days.  In unit form each round of the loop reads a count with its
unit, at most nineteen digits and a unit that no earlier round has read, so that no sum is too long
for its word (`partLimit`).

    Advances 1 (scanRound text seen total)                               (advances_scanRound)
    runDuration text = .ofOption (Duration.parse? text)                      (runDuration_eq)
-/

namespace MessageScript.Calendar

open Text Text.Scan

/-! ## Lengths -/

/-- The duration as long the other way. -/
def opposite (d : Duration) : Duration :=
  ⟨-d.nanos, (Int.natAbs_neg d.nanos).le.trans d.le_limit⟩

/-- The opposite duration, its whole seconds in a signed word. -/
def negated (d : Duration) : Outcome Duration := do
  let whole ← Word.w64.signed (-(d.nanos / 1_000_000_000))
  let _ ← Word.w64.signed (whole - if d.nanos % 1_000_000_000 = 0 then 0 else 1)
  return opposite d

/-- The duration of a sign and a length, cut to whole ticks. -/
def buildDuration (negative : Bool) (nanos : Int) : Outcome Duration := do
  let ticked ← Word.w128.signed (nanos - nanos.tmod tickNanos)
  let seconds ← .ofOption (Word.w64.signed? (ticked.tdiv 1_000_000_000))
  let subsecond ← .ofOption (Word.w32.unsigned? (ticked.tmod 1_000_000_000))
  let length ← .ofOption (Duration.ofNanos? (seconds * 1_000_000_000 + subsecond))
  if negative then negated length else return length

/-- The sum of the parts of the colon form. -/
def clockNanos (days hours minutes seconds nanos : Nat) : Outcome Int := do
  let daySeconds ← Word.w64.unsigned (days * 86400)
  let hourSeconds ← Word.w64.unsigned (hours * 3600)
  let toHours ← Word.w64.unsigned (daySeconds + hourSeconds)
  let minuteSeconds ← Word.w64.unsigned (minutes * 60)
  let toMinutes ← Word.w64.unsigned (toHours + minuteSeconds)
  let whole ← Word.w64.unsigned (toMinutes + seconds)
  let wholeNanos ← Word.w128.signed (whole * 1_000_000_000)
  Word.w128.signed (wholeNanos + nanos)

/-- The item of a list at an index. -/
def itemAt {α : Type} (xs : List α) (index : Nat) : Outcome α :=
  match xs[index]? with
  | some a => .result a
  | none => .fault .outOfBounds

/-- For each unit, from the longest, whether it has been seen. -/
def seenFlags (seen : List TimeUnit) : List Bool := TimeUnit.all.map fun u => decide (u ∈ seen)

/-- The total with a part of the unit form added; `seen` tells which units have had theirs. -/
def addPart (seen : List Bool) (total : Int) (count : Nat) (pointed : Bool) (nanos : Nat)
    (mark : List Char) : Outcome (List Bool × Int) := do
  let index ← .ofOption (TimeUnit.all.findIdx? (·.mark == mark))
  let again ← itemAt seen index
  if again || (pointed && mark != ['s']) then .refusal
  else
    let unit ← itemAt TimeUnit.all index
    let length ← Word.w128.signed (count * unit.nanos)
    let sum ← .ofOption (Word.w128.signed? (total + length))
    let sum ← Word.w128.signed (sum + nanos)
    return (seen.set index true, sum)

/-! ## Scans -/

section Scans

variable (text : List Char)

/-- The days, if there are any, and the hours of the colon form. -/
def scanDaysHours : Scan (Nat × Nat) := do
  let lead ← variableDigits text 1 10
  if ← tryEat text '.' then
    let hours ← variableDigits text 1 2
    return (lead, hours)
  else return (0, lead)

/-- A colon behind a number within a limit. -/
def scanColon (n limit : Nat) : Scan Unit := if limit < n then refuse else expect text ':'

/-- A fraction behind seconds in range. -/
def scanFractionBehind (seconds : Nat) : Scan Nat :=
  if 59 < seconds then refuse else scanOptionalFraction text

/-- The length in colon form, behind the sign. -/
def scanColonLength : Scan Int := do
  let (days, hours) ← scanDaysHours text
  scanColon text hours 23
  let minutes ← fixed text 2
  scanColon text minutes 59
  let seconds ← fixed text 2
  let nanos ← scanFractionBehind text seconds
  if ← atEnd text then lift (clockNanos days hours minutes seconds nanos) else refuse

/-- The mark of a unit behind its count, which is added to the total. -/
def scanMark (seen : List Bool) (total : Int) (count : Nat) (pointed : Bool) (nanos : Nat) :
    Scan (List Bool × Int) := do
  let _ ← skipBlanks text
  let mark ← word text
  lift (addPart seen total count pointed nanos (mark.map Char.toLower))

/-- A count with its unit, added to the total. -/
def scanPart (seen : List Bool) (total : Int) : Scan (List Bool × Int) := do
  let count ← variableDigits text 1 19
  if ← tryEat text '.' then
    let nanos ← scanFraction text
    scanMark text seen total count true nanos
  else scanMark text seen total count false 0

/-- A round of the unit form: a count with its unit, and whether blanks follow. -/
def scanRound (seen : List Bool) (total : Int) : Scan ((List Bool × Int) × Bool) := do
  let sum ← scanPart text seen total
  let spaced ← skipBlanks text
  return (sum, spaced)

theorem advances_scanFraction : Advances 0 (scanFraction text) := by
  refine (advances_digitsAhead text).zero_bind fun count => ?_
  split
  · exact Advances.refuse
  · exact ((advances_takeRun text count).bind fun _ => Advances.lift _).mono (Nat.zero_le _)

theorem advances_scanMark (seen : List Bool) (total : Int) (count : Nat) (pointed : Bool)
    (nanos : Nat) : Advances 0 (scanMark text seen total count pointed nanos) :=
  (advances_skipBlanks text).zero_bind fun _ =>
    (advances_word text).zero_bind fun _ => Advances.lift _

/-- **Each round reads a byte at least**, since a count has a digit. -/
theorem advances_scanRound (seen : List Bool) (total : Int) :
    Advances 1 (scanRound text seen total) := by
  have hpart : Advances 1 (scanPart text seen total) := by
    refine (advances_variableDigits text 1 19).bind (n := 0) fun count => ?_
    refine (advances_tryEat text '.').zero_bind fun pointed => ?_
    cases pointed with
    | false => exact advances_scanMark text seen total count false 0
    | true =>
      exact (advances_scanFraction text).zero_bind fun nanos =>
        advances_scanMark text seen total count true nanos
  exact hpart.bind fun _ => (advances_skipBlanks text).zero_bind fun _ => Advances.pure _

/-- The length in unit form, behind the sign, round after round. -/
def scanUnitLength (seen : List Bool) (total : Int) (pos : Nat) : Outcome (Int × Nat) :=
  match _hround : scanRound text seen total pos with
  | .fault f => .fault f
  | .refusal => .refusal
  | .result (((seen, total), spaced), next) =>
    if byteLength text ≤ next then if spaced then .refusal else .result (total, next)
    else scanUnitLength seen total next
  termination_by byteLength text - pos
  decreasing_by
    have hnext := advances_scanRound text _ _ _ _ _ _hround
    omega

/-- A sign and a length. -/
def scanDuration (length : Scan Int) : Scan Duration := do
  let negative ← tryEat text '-'
  let nanos ← length
  lift (buildDuration negative nanos)

end Scans

/-- The duration that a text is, in colon form if it has a colon and else in unit form. -/
def runDuration (text : List Char) : Outcome Duration :=
  if text.contains ':' then (scanDuration text (scanColonLength text)).run
  else (scanDuration text (scanUnitLength text (seenFlags []) 0)).run

variable {text cs : List Char} {pos : Nat}

/-! ## Lengths are built -/

theorem negated_eq (d : Duration) : negated d = .result (opposite d) := by
  have hlimit := d.le_limit
  have hhalf : Word.w64.half = 0x8000_0000_0000_0000 := rfl
  have hborrow : (if d.nanos % 1_000_000_000 = 0 then (0 : Int) else 1) ≤ 1 ∧
      0 ≤ if d.nanos % 1_000_000_000 = 0 then (0 : Int) else 1 := by
    split <;> decide
  unfold negated
  rw [Word.signed_eq ⟨by omega, by omega⟩, Outcome.result_bind,
    Word.signed_eq ⟨by omega, by omega⟩, Outcome.result_bind]
  rfl

theorem ofNanos?_neg (n : Int) : Duration.ofNanos? (-n) = (Duration.ofNanos? n).map opposite := by
  unfold Duration.ofNanos?
  by_cases h : n.natAbs ≤ 0x7FFF_FFFF_FFFF_FFFF * 1_000_000
  · rw [dif_pos h, dif_pos (by rwa [Int.natAbs_neg])]
    rfl
  · rw [dif_neg h, dif_neg (by rwa [Int.natAbs_neg])]
    rfl

/-- A sign and whole ticks make a duration, if it is not too long. -/
theorem signed_ofNanos? (negative : Bool) (n : Int) : (do
      let length ← Outcome.ofOption (Duration.ofNanos? n)
      if negative then negated length else return length) =
    .ofOption (Duration.ofNanos? (if negative then -n else n)) := by
  cases negative with
  | false =>
    rw [if_neg Bool.false_ne_true]
    cases Duration.ofNanos? n <;> rfl
  | true =>
    rw [if_pos rfl, ofNanos?_neg]
    cases Duration.ofNanos? n with
    | none => rfl
    | some d => exact negated_eq d

/-- The length of a duration is the one that was asked for, if it is not too long. -/
theorem buildDuration_eq (negative : Bool) {n : Nat} (h : n < Word.w128.half) :
    buildDuration negative n = .ofOption (Duration.ofLength? negative n) := by
  have hle : n - n % tickNanos ≤ n := Nat.sub_le _ _
  have htmod : (n : Int) - (n : Int).tmod tickNanos = (n - n % tickNanos : Nat) := by
    rw [← Int.ofNat_tmod]
    have := Nat.mod_le n tickNanos
    omega
  unfold buildDuration Duration.ofLength?
  rw [htmod]
  generalize n - n % tickNanos = ticked at hle
  have hseconds : (ticked : Int).tdiv 1_000_000_000 = (ticked / 1_000_000_000 : Nat) :=
    (Int.ofNat_tdiv _ _).symm
  have hsubsecond : (ticked : Int).tmod 1_000_000_000 = (ticked % 1_000_000_000 : Nat) :=
    (Int.ofNat_tmod _ _).symm
  rw [Word.signed_eq (Word.holds_natCast (Nat.lt_of_le_of_lt hle h)), Outcome.result_bind, hseconds,
    hsubsecond]
  by_cases hlong : ticked / 1_000_000_000 < Word.w64.half
  · have hword : ticked % 1_000_000_000 < Word.w32.patterns :=
      Nat.lt_trans (Nat.mod_lt _ (by decide)) (by decide)
    have hsum : ((ticked / 1_000_000_000 : Nat) : Int) * 1_000_000_000 +
        (ticked % 1_000_000_000 : Nat) = ticked := by omega
    rw [Word.signed?_eq (Word.holds_natCast hlong), Outcome.ofOption_some_bind,
      Word.unsigned?_natCast hword, Outcome.ofOption_some_bind, hsum]
    exact signed_ofNanos? negative ticked
  · -- more seconds than a word holds are more than a duration has
    have hhalf : Word.w64.half = 0x8000_0000_0000_0000 := rfl
    have hnone : Word.w64.signed? (ticked / 1_000_000_000 : Nat) = none :=
      if_neg fun hholds => hlong (Int.ofNat_lt.1 hholds.2)
    have hrange : Duration.ofNanos? (if negative then -(ticked : Int) else ticked) = none := by
      refine dif_neg ?_
      split <;> omega
    rw [hnone, hrange]
    rfl

/-- The sum of parts in range, with ten digits of days, fits its words. -/
theorem clockNanos_eq {days hours minutes seconds nanos : Nat} (hdays : days < 10_000_000_000)
    (hhours : hours ≤ 23) (hminutes : minutes ≤ 59) (hseconds : seconds ≤ 59)
    (hnanos : nanos < 1_000_000_000) : clockNanos days hours minutes seconds nanos = .result
      ((days * 86400 + hours * 3600 + minutes * 60 + seconds) * 1_000_000_000 + nanos : Nat) := by
  have hword : Word.w64.patterns = 0x1_0000_0000_0000_0000 := rfl
  have hhalf : Word.w128.half = 0x8000_0000_0000_0000_0000_0000_0000_0000 := rfl
  unfold clockNanos
  rw [Word.unsigned_eq (by omega), Outcome.result_bind, Word.unsigned_eq (by omega),
    Outcome.result_bind, Word.unsigned_eq (by omega), Outcome.result_bind,
    Word.unsigned_eq (by omega), Outcome.result_bind, Word.unsigned_eq (by omega),
    Outcome.result_bind, Word.unsigned_eq (by omega), Outcome.result_bind,
    Word.signed_eq ⟨by omega, by omega⟩, Outcome.result_bind,
    Word.signed_eq ⟨by omega, by omega⟩]
  congr 1

example : clockNanos 1_000_000_000_000_000 0 0 0 0 = .fault .overflow := rfl

/-! ## The colon form -/

theorem follows_scanDaysHours (h : StandsAt text pos cs) :
    Follows text pos (scanDaysHours text) (Duration.readDaysHours cs) := by
  refine h.variableDigits_bind (by decide) fun lead rest next _ hnext => ?_
  refine hnext.tryEat_bind (by decide) (fun heat next hnext => ?_) fun rest heat next hnext => ?_
  · dsimp only
    rw [heat]
    exact Follows.pure hnext (0, ofDigits lead)
  · dsimp only
    rw [heat]
    exact hnext.variableDigits_bind (by decide) fun hours rest next _ hnext =>
      Follows.pure hnext (ofDigits lead, ofDigits hours)

theorem days_lt_of_readDaysHours {days hours : Nat} {rest : List Char}
    (h : Duration.readDaysHours cs = some ((days, hours), rest)) : days < 10_000_000_000 := by
  unfold Duration.readDaysHours at h
  obtain ⟨⟨lead, behind⟩, hlead, h⟩ := Option.bind_eq_some_iff.1 h
  dsimp only at h
  split at h
  · cases h
    decide
  · obtain ⟨⟨run, behindRun⟩, -, h⟩ := Option.bind_eq_some_iff.1 h
    cases h
    exact digitRun_lt hlead

theorem scanColon_bind {β : Type} {n limit : Nat} {after : Unit → Scan β}
    {read : List Char → Option (β × List Char)} (hn : n ≤ limit) (h : StandsAt text pos cs)
    (hafter : ∀ rest next, StandsAt text next rest → Follows text next (after ()) (read rest)) :
    Follows text pos (scanColon text n limit >>= after) ((eat ':' cs).bind read) := by
  rw [scanColon, if_neg (Nat.not_lt.2 hn)]
  exact h.expect_bind (by decide) hafter

theorem scanColon_over {β : Type} {n limit : Nat} {after : Unit → Scan β} (hn : ¬ n ≤ limit) :
    Follows text pos (scanColon text n limit >>= after) none := by
  rw [scanColon, if_pos (Nat.not_le.1 hn)]
  exact Follows.refuse.none_bind

theorem follows_scanFractionBehind (seconds : Nat) (h : StandsAt text pos cs) :
    Follows text pos (scanFractionBehind text seconds)
      (if seconds ≤ 59 then optionalFraction cs else none) := by
  unfold scanFractionBehind
  by_cases hseconds : seconds ≤ 59
  · rw [if_neg (Nat.not_lt.2 hseconds), if_pos hseconds]
    exact follows_scanOptionalFraction h
  · rw [if_pos (Nat.not_le.1 hseconds), if_neg hseconds]
    exact Follows.refuse

theorem follows_scanColonLength (h : StandsAt text pos cs) :
    Follows text pos (scanColonLength text)
      ((Duration.colonLength? cs).bind fun n => some ((n : Int), [])) := by
  unfold Duration.colonLength?
  simp only [Option.bind_eq_bind]
  rw [Option.bind_assoc]
  refine Follows.bind (follows_scanDaysHours h) fun ⟨days, hours⟩ rest next hread hnext => ?_
  dsimp only
  by_cases hhours : hours ≤ 23
  case neg =>
    rw [if_neg hhours]
    exact scanColon_over hhours
  rw [if_pos hhours, Option.bind_assoc]
  refine scanColon_bind hhours hnext fun rest next hnext => ?_
  rw [Option.bind_assoc]
  refine Follows.bind (hnext.fixed (by decide) (by decide)) fun minutes rest next _ hnext => ?_
  dsimp only
  by_cases hminutes : minutes ≤ 59
  case neg =>
    rw [if_neg hminutes]
    exact scanColon_over hminutes
  rw [if_pos hminutes, Option.bind_assoc]
  refine scanColon_bind hminutes hnext fun rest next hnext => ?_
  rw [Option.bind_assoc]
  refine Follows.bind (hnext.fixed (by decide) (by decide)) fun seconds rest next _ hnext => ?_
  dsimp only
  have hfraction := follows_scanFractionBehind seconds hnext
  by_cases hseconds : seconds ≤ 59
  case neg =>
    rw [if_neg hseconds] at hfraction
    rw [if_neg hseconds]
    exact hfraction.none_bind
  rw [if_pos hseconds] at hfraction
  rw [if_pos hseconds, Option.bind_assoc]
  refine Follows.bind hfraction fun nanos rest next hnanos hnext => ?_
  refine hnext.atEnd.some_bind fun next hnext => ?_
  dsimp only
  by_cases hrest : rest = []
  case neg =>
    rw [decide_eq_false hrest, if_neg hrest]
    exact Follows.refuse
  obtain ⟨f, -, hform⟩ := form_of_optionalFraction hnanos
  subst hrest
  rw [decide_eq_true rfl, if_pos rfl, if_pos rfl, clockNanos_eq (days_lt_of_readDaysHours hread)
    hhours hminutes hseconds hform.lt_second]
  exact Follows.lift hnext rfl

/-! ## The unit form -/

/-- The place of a unit among all. -/
def unitIndex : TimeUnit → Nat
  | .day => 0
  | .hour => 1
  | .minute => 2
  | .second => 3
  | .millisecond => 4
  | .microsecond => 5
  | .nanosecond => 6

theorem findIdx?_mark (mark : List Char) : TimeUnit.all.findIdx? (·.mark == mark) =
    (TimeUnit.all.find? (·.mark == mark)).map unitIndex := by
  rw [List.findIdx?_eq_bind_find?_idxOf?]
  cases TimeUnit.all.find? (·.mark == mark) with
  | none => rfl
  | some u => cases u <;> rfl

theorem itemAt_seenFlags (seen : List TimeUnit) (u : TimeUnit) :
    itemAt (seenFlags seen) (unitIndex u) = .result (decide (u ∈ seen)) := by
  cases u <;> rfl

theorem itemAt_unitIndex (u : TimeUnit) : itemAt TimeUnit.all (unitIndex u) = .result u := by
  cases u <;> rfl

theorem set_seenFlags (seen : List TimeUnit) (u : TimeUnit) :
    (seenFlags seen).set (unitIndex u) true = seenFlags (u :: seen) := by
  cases u <;> simp [seenFlags, TimeUnit.all, unitIndex]

/-- More than a part of the unit form adds to the total. -/
def partLimit : Nat := 1_000_000_000_000_000_000_000_000_000_000_000

theorem part_lt {count nanos : Nat} (hcount : count < powerOfTen 19)
    (hnanos : nanos < 1_000_000_000) (u : TimeUnit) : count * u.nanos + nanos < partLimit := by
  have hunit : u.nanos ≤ 86_400_000_000_000 := by cases u <;> decide
  have hproduct : count * u.nanos ≤ powerOfTen 19 * 86_400_000_000_000 :=
    Nat.mul_le_mul hcount.le hunit
  have hpower : powerOfTen 19 = 10_000_000_000_000_000_000 := rfl
  unfold partLimit
  omega

theorem mark_ne_iff (u : TimeUnit) : (u.mark != ['s']) = decide (u ≠ .second) := by
  cases u <;> rfl

/-- A part is added without overflow, if its unit is a new one and may have a fraction. -/
theorem addPart_eq {seen : List TimeUnit} {total count nanos : Nat} {pointed : Bool}
    (htotal : total ≤ 7 * partLimit) (hcount : count < powerOfTen 19)
    (hnanos : nanos < 1_000_000_000) (word : List Char) :
    addPart (seenFlags seen) total count pointed nanos (word.map Char.toLower) =
      .ofOption ((TimeUnit.ofMark? word).bind fun unit =>
        if unit ∈ seen ∨ (pointed = true ∧ unit ≠ .second) then none
        else some (seenFlags (unit :: seen),
          ((total + (count * unit.nanos + nanos) : Nat) : Int))) := by
  unfold addPart TimeUnit.ofMark?
  rw [findIdx?_mark]
  cases hfind : TimeUnit.all.find? (·.mark == word.map Char.toLower) with
  | none => rfl
  | some unit =>
    have hfound := List.find?_some hfind
    have hmark : unit.mark = word.map Char.toLower := beq_iff_eq.1 hfound
    have hrefused : (decide (unit ∈ seen) || (pointed && word.map Char.toLower != ['s'])) = true ↔
        unit ∈ seen ∨ (pointed = true ∧ unit ≠ .second) := by
      rw [← hmark, mark_ne_iff, Bool.or_eq_true, Bool.and_eq_true, decide_eq_true_eq,
        decide_eq_true_eq]
    rw [Option.map_some, Outcome.ofOption_some_bind, itemAt_seenFlags, Outcome.result_bind,
      Option.bind_some]
    by_cases h : unit ∈ seen ∨ (pointed = true ∧ unit ≠ .second)
    · rw [if_pos (hrefused.2 h), if_pos h]
      rfl
    · -- eight parts fit half a word of 128 bits
      have hpart := part_lt hcount hnanos unit
      have hhalf : Word.w128.half = 0x8000_0000_0000_0000_0000_0000_0000_0000 := rfl
      unfold partLimit at htotal hpart
      rw [if_neg (mt hrefused.1 h), if_neg h, itemAt_unitIndex, Outcome.result_bind,
        ← Int.natCast_mul]
      generalize count * unit.nanos = length at hpart
      rw [Word.signed_eq (Word.holds_natCast (by omega)), Outcome.result_bind, ← Int.natCast_add,
        Word.signed?_eq (Word.holds_natCast (by omega)), Outcome.ofOption_some_bind,
        ← Int.natCast_add, Word.signed_eq (Word.holds_natCast (by omega)), Outcome.result_bind,
        set_seenFlags, Nat.add_assoc]
      rfl

section Parts

variable {seen : List TimeUnit} {total : Nat} (htotal : total ≤ 7 * partLimit)

include htotal

theorem follows_scanMark {count nanos : Nat} (hcount : count < powerOfTen 19)
    (hnanos : nanos < 1_000_000_000) (pointed : Bool) (h : StandsAt text pos cs) :
    Follows text pos (scanMark text (seenFlags seen) total count pointed nanos)
      (((TimeUnit.ofMark? ((skipSpaces cs).takeWhile Char.isAlpha)).bind fun unit =>
        if pointed = true ∧ unit ≠ .second then none
        else some ((unit, count * unit.nanos + nanos), (skipSpaces cs).dropWhile Char.isAlpha)).bind
        fun ((unit, length), rest) => if unit ∈ seen then none
          else some ((seenFlags (unit :: seen), ((total + length : Nat) : Int)), rest)) := by
  refine h.skipBlanks.some_bind fun next hnext => hnext.word.some_bind fun next hnext => ?_
  rw [addPart_eq htotal hcount hnanos]
  cases TimeUnit.ofMark? ((skipSpaces cs).takeWhile Char.isAlpha) with
  | none => rfl
  | some unit =>
    rw [Option.bind_some, Option.bind_some]
    by_cases hpoint : pointed = true ∧ unit ≠ .second
    · rw [if_pos (.inr hpoint), if_pos hpoint]
      rfl
    · rw [if_neg hpoint, Option.bind_some]
      dsimp only
      by_cases hseen : unit ∈ seen
      · rw [if_pos (.inl hseen), if_pos hseen]
        rfl
      · rw [if_neg (not_or.2 ⟨hseen, hpoint⟩), if_neg hseen]
        exact Follows.lift hnext rfl

theorem follows_scanPart (seen : List TimeUnit) (h : StandsAt text pos cs) :
    Follows text pos (scanPart text (seenFlags seen) total)
      ((Duration.readPart cs).bind fun ((unit, length), rest) => if unit ∈ seen then none
        else some ((seenFlags (unit :: seen), ((total + length : Nat) : Int)), rest)) := by
  unfold Duration.readPart optionalFraction
  simp only [Option.bind_eq_bind]
  rw [Option.bind_assoc]
  refine h.variableDigits_bind (by decide) fun run rest next hread hnext => ?_
  have hcount := digitRun_lt hread
  refine hnext.tryEat_bind (by decide) (fun heat next hnext => ?_) fun behind heat next hnext => ?_
  · dsimp only
    rw [heat]
    exact follows_scanMark htotal hcount (by decide) false hnext
  · dsimp only
    rw [heat]
    dsimp only
    rw [Option.bind_assoc]
    refine Follows.bind (follows_scanFraction hnext) fun nanos rest next hfraction hnext => ?_
    have hoptional : optionalFraction ('.' :: behind) = some (nanos, rest) := by
      rw [optionalFraction, eat_self]
      exact hfraction
    obtain ⟨f, -, hform⟩ := form_of_optionalFraction hoptional
    exact follows_scanMark htotal hcount hform.lt_second true hnext

end Parts

theorem lt_partLimit_of_readPart {unit : TimeUnit} {length : Nat} {rest : List Char}
    (h : Duration.readPart cs = some ((unit, length), rest)) : length < partLimit := by
  unfold Duration.readPart at h
  obtain ⟨⟨run, behindRun⟩, hrun, h⟩ := Option.bind_eq_some_iff.1 h
  obtain ⟨⟨nanos, behindFraction⟩, hfraction, h⟩ := Option.bind_eq_some_iff.1 h
  obtain ⟨found, -, h⟩ := Option.bind_eq_some_iff.1 h
  obtain ⟨f, -, hform⟩ := form_of_optionalFraction hfraction
  split at h
  · cases h
  · cases h
    exact part_lt (digitRun_lt hrun) hform.lt_second _

theorem length_le_of_nodup {seen : List TimeUnit} (h : seen.Nodup) : seen.length ≤ 7 := by
  have hall : ∀ u ∈ seen, u ∈ TimeUnit.all := fun u _ => by cases u <;> decide
  exact (List.subperm_of_subset h hall).length_le

theorem unitLength?_eq (seen : List TimeUnit) (cs : List Char) : Duration.unitLength? seen cs =
    (Duration.readPart cs).bind fun ((unit, length), rest) =>
      if unit ∈ seen then none
      else if rest = [] then some length
      else if skipSpaces rest = [] then none
      else (Duration.unitLength? (unit :: seen) (skipSpaces rest)).map (length + ·) := by
  rw [Duration.unitLength?]
  split
  · next hread =>
    rw [hread]
    rfl
  · next unit length rest hread =>
    rw [hread]
    rfl

theorem scanUnitLength_eq (seen : List Bool) (total : Int) (pos : Nat) :
    scanUnitLength text seen total pos =
      (scanRound text seen total pos).andThen fun (((seen, total), spaced), next) =>
        if byteLength text ≤ next then if spaced then .refusal else .result (total, next)
        else scanUnitLength text seen total next := by
  rw [scanUnitLength]
  split
  · next f hround =>
    rw [hround]
    rfl
  · next hround =>
    rw [hround]
    rfl
  · next hround =>
    rw [hround]
    rfl

section Rounds

variable {seen : List TimeUnit} {total : Nat} (hseen : seen.Nodup)
  (htotal : total ≤ seen.length * partLimit)

include hseen htotal

theorem total_le : total ≤ 7 * partLimit :=
  htotal.trans (Nat.mul_le_mul_right _ (length_le_of_nodup hseen))

/-- Where no new unit is read, the loop refuses. -/
theorem scanUnitLength_refusal (h : StandsAt text pos cs)
    (hread : ∀ unit length rest, Duration.readPart cs = some ((unit, length), rest) → unit ∈ seen) :
    scanUnitLength text (seenFlags seen) total pos = .refusal := by
  have hpart := follows_scanPart (total_le hseen htotal) seen h
  have hrefusal : scanPart text (seenFlags seen) total pos = .refusal := by
    cases hfound : Duration.readPart cs with
    | none =>
      rw [hfound] at hpart
      exact hpart
    | some found =>
      rw [hfound, Option.bind_some] at hpart
      dsimp only at hpart
      rw [if_pos (hread _ _ _ hfound)] at hpart
      exact hpart
  have hround : scanRound text (seenFlags seen) total pos = .refusal :=
    Follows.none_bind (show Follows text pos _ none from hrefusal)
  rw [scanUnitLength_eq, hround]
  rfl

/-- **A round that reads a new unit ends further on**, and the loop there or in the next round. -/
theorem scanUnitLength_round (h : StandsAt text pos cs) {unit : TimeUnit} {length : Nat}
    {rest : List Char} (hread : Duration.readPart cs = some ((unit, length), rest))
    (hnew : unit ∉ seen) : ∃ next, StandsAt text next (skipSpaces rest) ∧
      scanUnitLength text (seenFlags seen) total pos =
        if skipSpaces rest = [] then
          if rest = [] then .result (((total + length : Nat) : Int), next) else .refusal
        else scanUnitLength text (seenFlags (unit :: seen)) (total + length : Nat) next := by
  have hpart := follows_scanPart (total_le hseen htotal) seen h
  rw [hread, Option.bind_some] at hpart
  dsimp only at hpart
  rw [if_neg hnew] at hpart
  have hfollows : Follows text pos (scanRound text (seenFlags seen) total)
      (some (((seenFlags (unit :: seen), ((total + length : Nat) : Int)),
        decide (skipSpaces rest ≠ rest)), skipSpaces rest)) :=
    hpart.some_bind fun _ hbehind => hbehind.skipBlanks.some_bind fun _ hnext =>
      Follows.pure hnext _
  obtain ⟨next, hround, hnext⟩ := hfollows
  refine ⟨next, hnext, ?_⟩
  rw [scanUnitLength_eq, hround]
  dsimp only [Outcome.andThen]
  by_cases hend : skipSpaces rest = []
  · rw [if_pos hend, if_pos (hnext.end_iff.2 hend), hend]
    by_cases hrest : rest = []
    · rw [if_pos hrest, hrest]
      rfl
    · rw [if_neg hrest, decide_eq_true (Ne.symm hrest), if_pos rfl]
  · rw [if_neg hend, if_neg (mt hnext.end_iff.1 hend)]

end Rounds

/-- **The loop adds up what the reader does.** -/
theorem follows_scanUnitLength {seen : List TimeUnit} {total : Nat} (hseen : seen.Nodup)
    (htotal : total ≤ seen.length * partLimit) (h : StandsAt text pos cs) :
    Follows text pos (scanUnitLength text (seenFlags seen) total)
      ((Duration.unitLength? seen cs).bind fun n => some (((total + n : Nat) : Int), [])) := by
  -- on the rounds of the reader; what has been added up is at most a part for each unit seen
  induction seen, cs using Duration.unitLength?.induct generalizing pos total with
  | case1 seen cs hread =>
    rw [unitLength?_eq, hread]
    refine scanUnitLength_refusal hseen htotal h fun _ _ _ hfound => ?_
    rw [hread] at hfound
    cases hfound
  | case2 seen cs unit length rest hread hmem =>
    rw [unitLength?_eq, hread, Option.bind_some]
    dsimp only
    rw [if_pos hmem]
    refine scanUnitLength_refusal hseen htotal h fun _ _ _ hfound => ?_
    rw [hread] at hfound
    cases hfound
    exact hmem
  | case3 seen cs unit length hnew hread =>
    obtain ⟨next, hnext, hround⟩ := scanUnitLength_round hseen htotal h hread hnew
    rw [unitLength?_eq, hread, Option.bind_some]
    dsimp only
    rw [if_neg hnew]
    exact ⟨next, hround, hnext⟩
  | case4 seen cs unit length rest hread hnew hrest hblank =>
    obtain ⟨next, -, hround⟩ := scanUnitLength_round hseen htotal h hread hnew
    rw [if_pos hblank, if_neg hrest] at hround
    rw [unitLength?_eq, hread, Option.bind_some]
    dsimp only
    rw [if_neg hnew, if_neg hrest, if_pos hblank]
    exact hround
  | case5 seen cs unit length rest hread hnew hrest hblank ih =>
    obtain ⟨next, hnext, hround⟩ := scanUnitLength_round hseen htotal h hread hnew
    have hlength := lt_partLimit_of_readPart hread
    have hmore : total + length ≤ (unit :: seen).length * partLimit := by
      rw [List.length_cons, Nat.succ_mul]
      omega
    have hloop := ih (List.nodup_cons.2 ⟨hnew, hseen⟩) hmore hnext
    rw [if_neg hblank] at hround
    rw [unitLength?_eq, hread, Option.bind_some]
    dsimp only
    rw [if_neg hnew, if_neg hrest, if_neg hblank]
    have hsum : ((Duration.unitLength? (unit :: seen) (skipSpaces rest)).map (length + ·)).bind
        (fun n => some (((total + n : Nat) : Int), ([] : List Char))) =
        (Duration.unitLength? (unit :: seen) (skipSpaces rest)).bind fun n =>
          some (((total + length + n : Nat) : Int), []) := by
      rw [Option.bind_map]
      simp only [Function.comp_def, Nat.add_assoc]
    rw [hsum]
    unfold Follows at hloop ⊢
    rw [hround]
    exact hloop

/-! ## Whole texts -/

theorem colonLength?_lt {n : Nat} (h : Duration.colonLength? cs = some n) : n < Word.w128.half := by
  obtain ⟨p, hp, -, -, rfl⟩ := (Duration.colonLength?_eq_some_iff false).1 h
  have hfraction := hp.fraction_bounds.1
  have hdays := hp.days_lt
  have hhours := hp.hours.2.2
  have hminutes := hp.minutes.2.2
  have hseconds := hp.seconds.2.2
  have hhalf : Word.w128.half = 0x8000_0000_0000_0000_0000_0000_0000_0000 := rfl
  unfold Duration.tenDigits at hdays
  unfold Duration.ColonParts.length
  omega

/-- A part, and what the parts after it can add. -/
theorem le_of_part {seen : List TimeUnit} {unit : TimeUnit} {length others : Nat}
    (hroom : (unit :: seen).length ≤ 7) (hlength : length ≤ partLimit)
    (hothers : others ≤ (7 - (unit :: seen).length) * partLimit) :
    length + others ≤ (7 - seen.length) * partLimit := by
  have hleft : 7 - seen.length = 7 - (unit :: seen).length + 1 := by
    rw [List.length_cons] at hroom ⊢
    omega
  rw [hleft, Nat.succ_mul]
  omega

/-- What the parts that are left can add. -/
theorem unitLength?_le {seen : List TimeUnit} {n : Nat} (hseen : seen.Nodup)
    (h : Duration.unitLength? seen cs = some n) : n ≤ (7 - seen.length) * partLimit := by
  induction seen, cs using Duration.unitLength?.induct generalizing n with
  | case1 seen cs hread =>
    rw [unitLength?_eq, hread] at h
    cases h
  | case2 seen cs unit length rest hread hmem =>
    rw [unitLength?_eq, hread, Option.bind_some] at h
    dsimp only at h
    rw [if_pos hmem] at h
    cases h
  | case3 seen cs unit length hnew hread =>
    have hroom := length_le_of_nodup (List.nodup_cons.2 ⟨hnew, hseen⟩)
    rw [unitLength?_eq, hread, Option.bind_some] at h
    dsimp only at h
    rw [if_neg hnew, if_pos rfl] at h
    cases h
    exact le_of_part hroom (lt_partLimit_of_readPart hread).le (Nat.zero_le _)
  | case4 seen cs unit length rest hread hnew hrest hblank =>
    rw [unitLength?_eq, hread, Option.bind_some] at h
    dsimp only at h
    rw [if_neg hnew, if_neg hrest, if_pos hblank] at h
    cases h
  | case5 seen cs unit length rest hread hnew hrest hblank ih =>
    have hnodup := List.nodup_cons.2 ⟨hnew, hseen⟩
    rw [unitLength?_eq, hread, Option.bind_some] at h
    dsimp only at h
    rw [if_neg hnew, if_neg hrest, if_neg hblank] at h
    obtain ⟨others, hothers, rfl⟩ := Option.map_eq_some_iff.1 h
    exact le_of_part (length_le_of_nodup hnodup) (lt_partLimit_of_readPart hread).le
      (ih hnodup hothers)

theorem unitLength?_lt {n : Nat} (h : Duration.unitLength? [] cs = some n) :
    n < Word.w128.half :=
  Nat.lt_of_le_of_lt (unitLength?_le List.nodup_nil h) (by decide)

theorem splitMinus_of_eat_eq_none (h : eat '-' cs = none) :
    Duration.splitMinus cs = (false, cs) := by
  unfold Duration.splitMinus
  split
  · rw [eat_self] at h
    cases h
  · rfl

/-- A sign in front of a length. -/
theorem run_scanDuration {length : Scan Int} {read : List Char → Option Nat}
    (hfollows : ∀ cs pos, StandsAt text pos cs →
      Follows text pos length ((read cs).bind fun n => some ((n : Int), [])))
    (hlt : ∀ cs n, read cs = some n → n < Word.w128.half) :
    (scanDuration text length).run = .ofOption
      ((read (Duration.splitMinus text).2).bind
        (Duration.ofLength? (Duration.splitMinus text).1)) := by
  have hbuild : ∀ (negative : Bool) (cs : List Char) (pos : Nat), StandsAt text pos cs →
      Follows text pos (do
          let nanos ← length
          lift (buildDuration negative nanos))
        (((read cs).bind (Duration.ofLength? negative)).map (·, [])) := by
    intro negative cs pos h
    have hlength := hfollows cs pos h
    cases hread : read cs with
    | none =>
      rw [hread] at hlength
      exact hlength.none_bind
    | some n =>
      rw [hread] at hlength
      refine hlength.some_bind fun next hnext => ?_
      rw [buildDuration_eq negative (hlt cs n hread)]
      rw [Option.bind_some, Option.map_eq_bind]
      exact Follows.ofOption hnext (Duration.ofLength? negative n)
  have hscan : Follows text 0 (scanDuration text length)
      (((read (Duration.splitMinus text).2).bind
        (Duration.ofLength? (Duration.splitMinus text).1)).map (·, [])) := by
    refine (standsAt_start text).tryEat_bind (by decide) (fun heat next hnext => ?_)
      fun rest heat next hnext => ?_
    · rw [splitMinus_of_eat_eq_none heat]
      exact hbuild false text next hnext
    · obtain rfl := eat_eq_some_iff.1 heat
      exact hbuild true rest next hnext
  rw [hscan.run_eq, Option.map_map]
  congr 1
  exact Option.map_id'

/-- **The machine reads a duration without a fault, as the reader does.** -/
theorem runDuration_eq (text : List Char) :
    runDuration text = .ofOption (Duration.parse? text) := by
  unfold runDuration Duration.parse?
  by_cases hcolon : text.contains ':' = true
  · rw [if_pos hcolon,
      run_scanDuration (fun _ _ => follows_scanColonLength) fun _ _ => colonLength?_lt]
    simp only [hcolon, if_true]
  · have hunits : ∀ cs pos, StandsAt text pos cs → Follows text pos
        (scanUnitLength text (seenFlags []) 0)
        ((Duration.unitLength? [] cs).bind fun n => some ((n : Int), [])) := by
      intro cs pos h
      have hfollows := follows_scanUnitLength List.nodup_nil (Nat.zero_le _) h
      simp only [Nat.zero_add] at hfollows
      exact hfollows
    rw [if_neg hcolon, run_scanDuration hunits fun _ _ => unitLength?_lt]
    simp only [hcolon, if_false, Bool.false_eq_true]

end MessageScript.Calendar
