import MessageScript.Calendar.DateTime
import MessageScript.Proofs.Text.Scan

/-!
# Times, dates and offsets scanned

The scans of times of day, dates, offsets and dates with a time of day, in words of 32 bits.  Each
follows the reader of the same form, so none of them faults.

    StandsAt text pos cs → Follows text pos (scanDate text) (Date.read cs)      (follows_scanDate)
    runDateTime clock text = .ofOption (DateTime.parseBy? clock text)             (runDateTime_eq)
-/

namespace MessageScript.Calendar

open Text Text.Scan

/-! ## Scans -/

section Scans

variable (text : List Char)

/-- A number of so many digits as an unsigned word. -/
def scanSmall (count : Nat) : Scan Nat := do
  let n ← fixed text count
  lift (.ofOption (Word.w32.unsigned? n))

/-- A number of so many digits as a signed word. -/
def scanSigned (count : Nat) : Scan Int := do
  let n ← fixed text count
  lift (.ofOption (Word.w32.signed? n))

/-- The digits behind a point, filled up to nine, as nanoseconds. -/
def scanFraction : Scan Nat := do
  let count ← digitsAhead text
  if count = 0 ∨ fractionDigits < count then refuse
  else
    let run ← takeRun text count
    lift (.ofOption (Word.w32.parse? (run ++ List.replicate (9 - run.length) '0')))

/-- A point and a fraction, or nothing. -/
def scanOptionalFraction : Scan Nat := do
  if ← tryEat text '.' then scanFraction text else return 0

/-- Seconds and a fraction behind hours and minutes. -/
def scanSeconds (hour minute : Nat) : Scan TimeOfDay := do
  let second ← scanSmall text 2
  let nanos ← scanOptionalFraction text
  lift (.ofOption (TimeOfDay.ofParts? hour minute second nanos))

/-- `HH:mm`, `HH:mm:ss` or `HH:mm:ss` and a fraction. -/
def scanExtended : Scan TimeOfDay := do
  let hour ← scanSmall text 2
  expect text ':'
  let minute ← scanSmall text 2
  if ← tryEat text ':' then scanSeconds text hour minute
  else lift (.ofOption (TimeOfDay.ofParts? hour minute 0 0))

/-- `HHmm`, `HHmmss` or `HHmmss` and a fraction. -/
def scanCompact : Scan TimeOfDay := do
  let hour ← scanSmall text 2
  let minute ← scanSmall text 2
  if 2 ≤ (← digitsAhead text) then scanSeconds text hour minute
  else lift (.ofOption (TimeOfDay.ofParts? hour minute 0 0))

/-- The dash between month and day, if there is one between year and month. -/
def scanDash (dashed : Bool) : Scan Unit := if dashed then expect text '-' else pure ()

/-- The day behind a year and a month. -/
def scanDay (year : Int) (month : Nat) (compact : Bool) : Scan (Date × Bool) := do
  let day ← scanSmall text 2
  let date ← lift (.ofOption (Date.ofCivil? ⟨year, month, day⟩))
  return (date, compact)

/-- `yyyy-MM-dd` or `yyyyMMdd`, and whether it was without dashes. -/
def scanDate : Scan (Date × Bool) := do
  let year ← scanSigned text 4
  let dashed ← tryEat text '-'
  let month ← scanSmall text 2
  scanDash text dashed
  scanDay text year month (!dashed)

/-- The minutes of an offset, zero if there are none. -/
def scanMinutes (present : Bool) : Scan Int := if present then scanSigned text 2 else pure 0

/-- The offset of hours and minutes east or west, computed in signed words. -/
def eastward (sign hours minutes : Int) : Outcome Offset :=
  if 23 < hours ∨ 59 < minutes then .refusal
  else do
    let hourSeconds ← Word.w32.signed (hours * 3600)
    let minuteSeconds ← Word.w32.signed (minutes * 60)
    let seconds ← Word.w32.signed (hourSeconds + minuteSeconds)
    let east ← Word.w32.signed (sign * seconds)
    .ofOption (Offset.ofSeconds? east)

/-- The hours of an offset with minutes behind them or without. -/
def scanClock (sign : Int) : Scan Offset := do
  let hours ← scanSigned text 2
  let colon ← tryEat text ':'
  let minutes ← scanMinutes text (colon || decide (0 < (← digitsAhead text)))
  lift (eastward sign hours minutes)

/-- `Z`, `±HH:mm`, `±HHmm` or `±HH`. -/
def scanOffset : Scan Offset := do
  if ← tryEat text 'Z' then return Offset.zero
  else if ← tryEat text 'z' then return Offset.zero
  else if ← tryEat text '+' then scanClock text 1
  else if ← tryEat text '-' then scanClock text (-1)
  else refuse

/-- The time of day behind a date.  Behind a date without dashes it may lack its colons, and that is
tried first. -/
def scanTime (compact : Bool) : Scan TimeOfDay :=
  if compact then orElse (scanCompact text) (scanExtended text) else scanExtended text

/-- The offset up to the end, or none there; one space may stand in front. -/
def scanZone : Scan (Option Offset) := do
  let spaced ← tryEat text ' '
  if ← atEnd text then (if spaced then refuse else return none)
  else
    let offset ← toEnd text (scanOffset text)
    return some offset

/-- Whether a character can stand between a date and a time of day. -/
def isTimeMark (c : Char) : Bool := c == 'T' || c == 't' || c == ' '

/-- A date, a mark and a time of day with an offset or without, or a date alone. -/
def scanDateTime (clock : LocalClock) : Scan DateTime := do
  let (date, compact) ← scanDate text
  if ← atEnd text then
    lift (.ofOption (DateTime.ofParts? date TimeOfDay.midnight none clock))
  else if ← aheadIs text isTimeMark then
    advance text
    let time ← scanTime text compact
    let zone ← scanZone text
    lift (.ofOption (DateTime.ofParts? date time zone clock))
  else refuse

end Scans

/-- The time of day that a text is. -/
def runTime (text : List Char) : Outcome TimeOfDay := (toEnd text (scanExtended text)).run

/-- The date that a text is. -/
def runDate (text : List Char) : Outcome Date := do
  let (date, _) ← (toEnd text (scanDate text)).run
  return date

/-- The instant that a text is to a local clock: a time of day today, or what has a date. -/
def runDateTime (clock : LocalClock) (text : List Char) : Outcome DateTime :=
  match runTime text with
  | .result time => .ofOption (DateTime.ofParts? clock.today time none clock)
  | .refusal => (scanDateTime text clock).run
  | .fault f => .fault f

variable {text cs : List Char} {pos : Nat}

/-! ## Parts -/

theorem follows_scanSmall (h : StandsAt text pos cs) :
    Follows text pos (scanSmall text 2) (fixedDigits 2 cs) := by
  rw [← Option.bind_fun_some (fixedDigits 2 cs)]
  refine Follows.bind (h.fixed (by decide) (by decide)) fun n rest next hread hnext => ?_
  have hlt : n < Word.w32.patterns := (fixedDigits_lt hread).trans (by decide)
  rw [Word.unsigned?_natCast hlt]
  exact Follows.lift hnext rfl

theorem scanSigned_bind {β : Type} {count : Nat} (h : StandsAt text pos cs) (hpos : 0 < count)
    (hcount : count ≤ 9) {after : Int → Scan β} {read : Nat × List Char → Option (β × List Char)}
    (hafter : ∀ (n : Nat) rest next, StandsAt text next rest →
      Follows text next (after n) (read (n, rest))) :
    Follows text pos (scanSigned text count >>= after) ((fixedDigits count cs).bind read) := by
  have hfixed := h.fixed hpos (hcount.trans (by decide))
  cases hread : fixedDigits count cs with
  | none =>
    rw [hread] at hfixed
    exact Follows.none_bind hfixed.none_bind
  | some found =>
    obtain ⟨n, rest⟩ := found
    have hlt : n < 1_000_000_000 :=
      (fixedDigits_lt hread).trans_le ((Nat.pow_le_pow_right (by decide) hcount).trans (by decide))
    have hsigned : Follows text pos (scanSigned text count) (some ((n : Int), rest)) := by
      rw [hread] at hfixed
      refine hfixed.some_bind fun next hnext => ?_
      rw [Word.signed?_eq (Word.holds_natCast (hlt.trans (by decide)))]
      exact Follows.lift hnext rfl
    exact hsigned.some_bind fun next hnext => hafter n rest next hnext

/-- Zeros behind the digits of a fraction make it nanoseconds. -/
theorem parse?_filled {run : List Char} (hrun : AllDigits run) (hne : run ≠ [])
    (hlength : run.length ≤ fractionDigits) :
    Word.w32.parse? (run ++ List.replicate (9 - run.length) '0') =
      some (ofDigits run * powerOfTen (9 - run.length)) := by
  have hfilled : AllDigits (run ++ List.replicate (9 - run.length) '0') :=
    allDigits_append.2 ⟨hrun, allDigits_zeros _⟩
  have hvalue : ofDigits (run ++ List.replicate (9 - run.length) '0') =
      ofDigits run * powerOfTen (9 - run.length) := by
    rw [ofDigits_append, ofDigits_zeros, List.length_replicate, Nat.add_zero]
  have hlt := ofDigits_lt hfilled
  unfold fractionDigits at hlength
  rw [List.length_append, List.length_replicate, Nat.add_sub_cancel' (by omega)] at hlt
  rw [Word.parse?_digits hfilled (List.append_ne_nil_of_left_ne_nil hne _),
    Word.unsigned?_natCast (hlt.trans (by decide)), hvalue]

theorem follows_scanFraction (h : StandsAt text pos cs) :
    Follows text pos (scanFraction text) (fraction cs) := by
  refine h.digitsAhead.some_bind fun next hnext => ?_
  unfold fraction digitRun
  by_cases hrun : cs.takeWhile Char.isDigit ≠ [] ∧
      (cs.takeWhile Char.isDigit).length ≤ fractionDigits
  · have hpos := List.length_pos_iff.2 hrun.1
    have hdigits := allDigits_takeWhile cs
    rw [if_pos hrun, if_neg (by omega), Option.map_some]
    rw [← List.takeWhile_append_dropWhile (p := Char.isDigit) (l := cs)] at hnext
    refine (hnext.takeRun hdigits).some_bind fun _ hbehind => ?_
    rw [parse?_filled hdigits hrun.1 hrun.2]
    exact Follows.lift hbehind rfl
  · rw [if_neg hrun, if_pos]
    · exact Follows.refuse
    · rw [not_and_or, not_not, ← List.length_eq_zero_iff] at hrun
      omega

theorem follows_scanOptionalFraction (h : StandsAt text pos cs) :
    Follows text pos (scanOptionalFraction text) (optionalFraction cs) := by
  unfold optionalFraction
  refine h.tryEat_bind (by decide) (fun heat next hnext => ?_) fun rest heat next hnext => ?_
  · rw [heat]
    exact Follows.pure hnext 0
  · rw [heat]
    exact follows_scanFraction hnext

/-! ## Times of day -/

theorem follows_scanSeconds (hour minute : Nat) (h : StandsAt text pos cs) :
    Follows text pos (scanSeconds text hour minute) (do
      let (second, cs) ← fixedDigits 2 cs
      let (nanos, cs) ← optionalFraction cs
      return (← TimeOfDay.ofParts? hour minute second nanos, cs)) := by
  refine Follows.bind (follows_scanSmall h) fun second rest next _ hnext => ?_
  refine Follows.bind (follows_scanOptionalFraction hnext) fun nanos rest next _ hnext => ?_
  exact Follows.ofOption hnext _

theorem follows_scanExtended (h : StandsAt text pos cs) :
    Follows text pos (scanExtended text) (TimeOfDay.readExtended cs) := by
  refine Follows.bind (follows_scanSmall h) fun hour rest next _ hnext => ?_
  refine hnext.expect_bind (by decide) fun rest next hnext => ?_
  refine Follows.bind (follows_scanSmall hnext) fun minute rest next _ hnext => ?_
  refine hnext.tryEat_bind (by decide) (fun heat next hnext => ?_) fun rest heat next hnext => ?_
  · dsimp only
    rw [heat]
    exact Follows.ofOption hnext _
  · dsimp only
    rw [heat]
    exact follows_scanSeconds hour minute hnext

theorem follows_scanCompact (h : StandsAt text pos cs) :
    Follows text pos (scanCompact text) (TimeOfDay.readCompact cs) := by
  refine Follows.bind (follows_scanSmall h) fun hour rest next _ hnext => ?_
  refine Follows.bind (follows_scanSmall hnext) fun minute rest next _ hnext => ?_
  refine hnext.digitsAhead.some_bind fun next hnext => ?_
  have hseconds := follows_scanSeconds hour minute hnext
  dsimp only at hseconds ⊢
  cases hread : fixedDigits 2 rest with
  | none =>
    rw [if_neg (Nat.not_le.2 (fixedDigits_eq_none_iff.1 hread))]
    exact Follows.ofOption hnext _
  | some found =>
    have hlong : 2 ≤ (rest.takeWhile Char.isDigit).length := by
      rw [← Nat.not_lt, ← fixedDigits_eq_none_iff, hread]
      exact Option.some_ne_none found
    rw [hread] at hseconds
    rw [if_pos hlong]
    exact hseconds

/-! ## Dates -/

theorem follows_scanDay (year : Int) (month : Nat) (compact : Bool) (h : StandsAt text pos cs) :
    Follows text pos (scanDay text year month compact) (do
      let (day, cs) ← fixedDigits 2 cs
      let date ← Date.ofCivil? ⟨year, month, day⟩
      return ((date, compact), cs)) := by
  refine Follows.bind (follows_scanSmall h) fun day rest next _ hnext => ?_
  exact Follows.ofOption_bind fun date => Follows.pure hnext (date, compact)

theorem follows_scanDate (h : StandsAt text pos cs) :
    Follows text pos (scanDate text) (Date.read cs) := by
  refine scanSigned_bind h (by decide) (by decide) fun year rest next hnext => ?_
  refine hnext.tryEat_bind (by decide) (fun heat next hnext => ?_) fun behind heat next hnext => ?_
  · dsimp only
    rw [heat, Option.getD_none]
    refine Follows.bind (follows_scanSmall hnext) fun month rest next _ hnext => ?_
    exact (Follows.pure hnext ()).some_bind fun next hnext => follows_scanDay year month true hnext
  · dsimp only
    rw [heat, Option.getD_some]
    refine Follows.bind (follows_scanSmall hnext) fun month rest next _ hnext => ?_
    exact hnext.expect_bind (by decide) fun rest next hnext =>
      follows_scanDay year month false hnext

/-! ## Offsets -/

/-- Hours and minutes in range make up an offset without overflow. -/
theorem eastward_eq {sign : Int} (hsign : sign = 1 ∨ sign = -1) (hours minutes : Nat) :
    eastward sign hours minutes = .ofOption (if hours ≤ 23 ∧ minutes ≤ 59 then
      Offset.ofSeconds? (sign * (hours * 3600 + minutes * 60 : Nat)) else none) := by
  unfold eastward
  by_cases hrange : hours ≤ 23 ∧ minutes ≤ 59
  · obtain ⟨hhours, hminutes⟩ := hrange
    have hhalf : Word.w32.half = 0x8000_0000 := rfl
    have hholds : Word.w32.Holds (sign * (hours * 3600 + minutes * 60)) := by
      unfold Word.Holds
      obtain rfl | rfl := hsign <;> omega
    rw [if_neg (by omega), if_pos ⟨hhours, hminutes⟩,
      Word.signed_eq ⟨by omega, by omega⟩, Outcome.result_bind,
      Word.signed_eq ⟨by omega, by omega⟩, Outcome.result_bind,
      Word.signed_eq ⟨by omega, by omega⟩, Outcome.result_bind,
      Word.signed_eq hholds, Outcome.result_bind]
    rfl
  · rw [if_pos (by omega), if_neg hrange]
    rfl

/-- A digit is ahead exactly if the run of digits is not empty. -/
theorem head?_isDigit_iff : cs.head?.map Char.isDigit = some true ↔
    0 < (cs.takeWhile Char.isDigit).length := by
  cases cs with
  | nil => exact iff_of_false nofun (Nat.lt_irrefl 0)
  | cons c cs =>
    rw [List.head?_cons, Option.map_some, Option.some.injEq]
    cases hc : c.isDigit with
    | false =>
      rw [List.takeWhile_cons_of_neg (by rw [hc]; decide)]
      exact iff_of_false nofun (Nat.lt_irrefl 0)
    | true =>
      rw [List.takeWhile_cons_of_pos hc]
      exact iff_of_true rfl (Nat.succ_pos _)

section Offsets

variable {sign : Int} (hsign : sign = 1 ∨ sign = -1)

include hsign

theorem follows_eastward (hours minutes : Nat) (h : StandsAt text pos cs) :
    Follows text pos (lift (eastward sign hours minutes))
      ((if hours ≤ 23 ∧ minutes ≤ 59 then some (hours * 3600 + minutes * 60, cs) else none).bind
        fun (seconds, cs) => (Offset.ofSeconds? (sign * (seconds : Int))).bind fun o =>
          some (o, cs)) := by
  have hfollows := Follows.ofOption h (if hours ≤ 23 ∧ minutes ≤ 59 then
      Offset.ofSeconds? (sign * (hours * 3600 + minutes * 60 : Nat)) else none)
  rw [← eastward_eq hsign] at hfollows
  split at hfollows
  · next hrange =>
    rw [if_pos hrange]
    exact hfollows
  · next hrange =>
    rw [if_neg hrange]
    exact hfollows

theorem follows_scanClock (h : StandsAt text pos cs) : Follows text pos (scanClock text sign)
    ((Offset.readClock cs).bind fun (seconds, cs) =>
      (Offset.ofSeconds? (sign * (seconds : Int))).bind fun o => some (o, cs)) := by
  unfold Offset.readClock
  rw [Option.bind_eq_bind, Option.bind_assoc]
  refine scanSigned_bind h (by decide) (by decide) fun hours rest next hnext => ?_
  refine hnext.tryEat_bind (by decide) (fun heat next hnext => ?_) fun behind heat next hnext => ?_
  · -- without a colon, there are minutes only if a digit is ahead
    refine hnext.digitsAhead.some_bind fun next hnext => ?_
    dsimp only
    rw [heat, Option.getD_none, Option.isSome_none, Bool.false_or]
    by_cases hdigit : rest.head?.map Char.isDigit = some true
    · rw [if_pos (.inr hdigit), decide_eq_true (head?_isDigit_iff.1 hdigit), Option.bind_assoc]
      exact scanSigned_bind hnext (by decide) (by decide) fun minutes rest next hnext =>
        follows_eastward hsign hours minutes hnext
    · rw [if_neg (by rintro (hcolon | hhead); exacts [Bool.false_ne_true hcolon, hdigit hhead]),
        decide_eq_false (mt head?_isDigit_iff.2 hdigit)]
      exact (Follows.pure hnext 0).some_bind fun next hnext => follows_eastward hsign hours 0 hnext
  · refine hnext.digitsAhead.some_bind fun next hnext => ?_
    dsimp only
    rw [heat, Option.getD_some, Option.isSome_some, Bool.true_or, if_pos (.inl rfl),
      Option.bind_assoc]
    exact scanSigned_bind hnext (by decide) (by decide) fun minutes rest next hnext =>
      follows_eastward hsign hours minutes hnext

end Offsets

theorem head_ne_of_eat {c d : Char} (h : eat c (d :: cs) = none) : d ≠ c := by
  rintro rfl
  rw [eat_self] at h
  cases h

theorem follows_scanOffset (h : StandsAt text pos cs) :
    Follows text pos (scanOffset text) (Offset.read cs) := by
  refine h.tryEat_bind (by decide) (fun hupper next hnext => ?_) fun rest heat next hrest => ?upper
  case upper =>
    obtain rfl := eat_eq_some_iff.1 heat
    exact Follows.pure hrest Offset.zero
  refine hnext.tryEat_bind (by decide) (fun hlower next hnext => ?_)
    fun rest heat next hrest => ?lower
  case lower =>
    obtain rfl := eat_eq_some_iff.1 heat
    exact Follows.pure hrest Offset.zero
  refine hnext.tryEat_bind (by decide) (fun hplus next hnext => ?_)
    fun rest heat next hrest => ?plus
  case plus =>
    obtain rfl := eat_eq_some_iff.1 heat
    have hclock := follows_scanClock (.inl rfl) hrest
    simp only [Int.one_mul] at hclock
    exact hclock
  refine hnext.tryEat_bind (by decide) (fun hminus next hnext => ?_)
    fun rest heat next hrest => ?minus
  case minus =>
    obtain rfl := eat_eq_some_iff.1 heat
    have hclock := follows_scanClock (.inr rfl) hrest
    simp only [Int.neg_mul, Int.one_mul] at hclock
    exact hclock
  have hnone : Offset.read cs = none := by
    cases cs with
    | nil => rfl
    | cons d rest =>
      rw [Offset.read, if_neg, if_neg]
      · rintro (h | h)
        exacts [head_ne_of_eat hplus h, head_ne_of_eat hminus h]
      · rintro (h | h)
        exacts [head_ne_of_eat hupper h, head_ne_of_eat hlower h]
  rw [hnone]
  exact Follows.refuse

/-! ## Dates with a time of day -/

theorem follows_scanTime (compact : Bool) (h : StandsAt text pos cs) :
    Follows text pos (scanTime text compact) (DateTime.readTime compact cs) := by
  cases compact with
  | false => exact follows_scanExtended h
  | true =>
    have hread : DateTime.readTime true cs =
        (TimeOfDay.readCompact cs).or (TimeOfDay.readExtended cs) := by
      rw [DateTime.readTime, if_pos rfl]
      cases TimeOfDay.readCompact cs <;> rfl
    rw [hread]
    exact Follows.orElse (follows_scanCompact h) (follows_scanExtended h)

theorem zone?_cons (c : Char) (rest : List Char) : DateTime.zone? (c :: rest) =
    (complete (Offset.read (if c = ' ' then rest else c :: rest))).map some := by
  rw [DateTime.zone?]
  rcases Offset.read (if c = ' ' then rest else c :: rest) with _ | ⟨offset, _ | ⟨d, behind⟩⟩
  all_goals rfl

theorem follows_offset_toEnd (h : StandsAt text pos cs) : Follows text pos (do
      let offset ← toEnd text (scanOffset text)
      return some offset)
    (((complete (Offset.read cs)).map some).map (·, [])) := by
  have hend := (follows_scanOffset h).toEnd
  cases hread : complete (Offset.read cs) with
  | none =>
    rw [hread] at hend
    exact hend.none_bind
  | some offset =>
    rw [hread] at hend
    exact hend.some_bind fun _ hnext => Follows.pure hnext (some offset)

theorem follows_scanZone (h : StandsAt text pos cs) :
    Follows text pos (scanZone text) ((DateTime.zone? cs).map (·, [])) := by
  refine h.tryEat_bind (by decide) (fun heat next hnext => ?_) fun rest heat next hrest => ?space
  case space =>
    obtain rfl := eat_eq_some_iff.1 heat
    refine hrest.atEnd.some_bind fun next hnext => ?_
    rw [zone?_cons, if_pos rfl]
    cases rest with
    | nil => exact Follows.refuse
    | cons c rest => exact follows_offset_toEnd hnext
  refine hnext.atEnd.some_bind fun next hnext => ?_
  cases cs with
  | nil => exact Follows.pure hnext none
  | cons c rest =>
    rw [zone?_cons, if_neg (head_ne_of_eat heat)]
    exact follows_offset_toEnd hnext

theorem isAscii_isTimeMark : IsAscii isTimeMark := by
  intro c h
  simp only [isTimeMark, Bool.or_eq_true, beq_iff_eq] at h
  obtain (rfl | rfl) | rfl := h <;> decide

theorem isTimeMark_iff {c : Char} : isTimeMark c = true ↔ c = 'T' ∨ c = 't' ∨ c = ' ' := by
  rw [isTimeMark, Bool.or_eq_true, Bool.or_eq_true, beq_iff_eq, beq_iff_eq, beq_iff_eq, or_assoc]

theorem follows_scanDateTime (clock : LocalClock) (h : StandsAt text pos cs) :
    Follows text pos (scanDateTime text clock)
      ((Date.read cs).bind fun ((date, compact), cs) =>
        (DateTime.ofDateAnd? date compact cs clock).map (·, [])) := by
  refine Follows.bind (follows_scanDate h) fun ⟨date, compact⟩ rest next _ hnext => ?_
  refine hnext.atEnd.some_bind fun next hnext => ?_
  cases rest with
  | nil =>
    dsimp only
    rw [DateTime.ofDateAnd?, Option.map_eq_bind]
    exact Follows.ofOption hnext _
  | cons c rest =>
    refine (hnext.aheadIs isAscii_isTimeMark).some_bind fun next hnext => ?_
    dsimp only
    rw [List.head?_cons, Option.any_some, DateTime.ofDateAnd?]
    by_cases hmark : isTimeMark c = true
    · rw [if_pos hmark, if_pos (isTimeMark_iff.1 hmark)]
      refine (hnext.advance (isAscii_isTimeMark c hmark)).some_bind fun next hnext => ?_
      rw [Option.bind_eq_bind, Option.map_bind]
      refine Follows.bind (follows_scanTime compact hnext) fun time rest next _ hnext => ?_
      have hzone := follows_scanZone hnext
      dsimp only [Function.comp_apply]
      cases hread : DateTime.zone? rest with
      | none =>
        rw [hread] at hzone
        exact hzone.none_bind
      | some zone =>
        rw [hread] at hzone
        refine hzone.some_bind fun next hnext => ?_
        rw [Option.bind_eq_bind, Option.bind_some, Option.map_eq_bind]
        exact Follows.ofOption hnext _
    · rw [if_neg hmark, if_neg (mt isTimeMark_iff.2 hmark)]
      exact Follows.refuse

/-! ## Whole texts -/

/-- **The machine reads a time of day without a fault, as the reader does.** -/
theorem runTime_eq (text : List Char) : runTime text = .ofOption (TimeOfDay.parse? text) := by
  rw [runTime, (follows_scanExtended (standsAt_start text)).run_toEnd, TimeOfDay.parse?]
  rcases TimeOfDay.readExtended text with _ | ⟨time, _ | ⟨c, rest⟩⟩ <;> rfl

/-- **The machine reads a date without a fault, as the reader does.** -/
theorem runDate_eq (text : List Char) : runDate text = .ofOption (Date.parse? text) := by
  rw [runDate, (follows_scanDate (standsAt_start text)).run_toEnd, Date.parse?]
  rcases Date.read text with _ | ⟨⟨date, compact⟩, _ | ⟨c, rest⟩⟩ <;> rfl

/-- **The machine reads an instant without a fault, as the reader does.** -/
theorem runDateTime_eq (clock : LocalClock) (text : List Char) :
    runDateTime clock text = .ofOption (DateTime.parseBy? clock text) := by
  rw [runDateTime, runTime_eq, DateTime.parseBy?]
  cases TimeOfDay.parse? text with
  | some time => rfl
  | none =>
    refine (follows_scanDateTime clock (standsAt_start text)).run_eq.trans ?_
    cases Date.read text with
    | none => rfl
    | some found =>
      obtain ⟨⟨date, compact⟩, rest⟩ := found
      refine congrArg Outcome.ofOption ((Option.map_map ..).trans ?_)
      exact Option.map_id_apply

end MessageScript.Calendar
