import MessageScript.Proofs.Calendar.ScanDuration

/-!
# The unit form of a duration

A duration in unit form is written in parts, each a count with the mark of its unit behind it, in
any letter case (`UnitPart`); blanks may stand in front of a mark and between parts (`UnitForm`).
No unit has two parts, and only seconds have a fraction.  The length of the text is the sum of its
parts, whatever their order.  Nothing else without a colon is read.  The scan that adds the parts up
in words comes to the same (`runDuration_eq`).

    readPart cs = some ((u, n), rest) ↔
      ∃ p, p.WellFormed ∧ NoLetterHead rest ∧ … ∧ cs = p.text ++ rest       (readPart_eq_some_iff)
    unitLength? seen cs = some n ↔
      ∃ ps, UnitForm ps cs ∧ Fresh seen ps ∧ total ps = n                (unitLength?_eq_some_iff)
    UnitForm ps cs → parse? (withSign negative cs) = if (units ps).Nodup then
      ofNanos? (towardZero (signed negative (total ps))) else none    (UnitForm.parse?_withSign)
-/

namespace MessageScript.Calendar.Duration

open Text ColonParts

variable {cs rest gap mark : List Char} {c : Char} {n : Nat}

/-! ## Characters -/

/-- Whether a text does not start with a letter. -/
def NoLetterHead (cs : List Char) : Prop := ∀ c, cs.head? = some c → c.isAlpha = false

/-- Whether a text has ASCII blanks only. -/
def AllSpace (cs : List Char) : Prop := ∀ c ∈ cs, isSpace c = true

theorem isSpace_of_isAlpha (h : c.isAlpha = true) : isSpace c = false := by
  rw [Bool.eq_false_iff]
  intro hspace
  simp only [isSpace, Bool.or_eq_true, beq_iff_eq] at hspace
  obtain (((rfl | rfl) | rfl) | rfl) | rfl := hspace <;> cases h

/-- Neither a blank nor a letter goes on with a number. -/
theorem not_digit_of_isSpace_or_isAlpha (h : isSpace c = true ∨ c.isAlpha = true) :
    c.isDigit = false ∧ c ≠ '.' ∧ c ≠ ':' := by
  obtain hspace | halpha := h
  · simp only [isSpace, Bool.or_eq_true, beq_iff_eq] at hspace
    obtain (((rfl | rfl) | rfl) | rfl) | rfl := hspace <;> decide
  · have hbounds := toNat_bounds_of_isAlpha halpha
    refine ⟨?_, ?_, ?_⟩
    · rw [Bool.eq_false_iff]
      intro hdigit
      have hle := toNat_sub_lt_of_isDigit hdigit
      have hzero : '0'.toNat = 48 := rfl
      omega
    · rintro rfl
      cases halpha
    · rintro rfl
      cases halpha

theorem noLetterHead_of_isDigit (h : c.isDigit = true) (rest : List Char) :
    NoLetterHead (c :: rest) := by
  intro d hd
  cases hd
  rw [Bool.eq_false_iff]
  intro halpha
  have hdigit := (not_digit_of_isSpace_or_isAlpha (.inr halpha)).1
  rw [h] at hdigit
  cases hdigit

theorem noLetterHead_append (hgap : AllSpace gap) (hrest : NoLetterHead rest) :
    NoLetterHead (gap ++ rest) := by
  cases gap with
  | nil => exact hrest
  | cons d gap =>
    intro c hc
    obtain rfl : d = c := Option.some.inj hc
    rw [Bool.eq_false_iff]
    intro halpha
    have hspace := isSpace_of_isAlpha halpha
    rw [hgap d List.mem_cons_self] at hspace
    cases hspace

theorem noLetterHead_dropWhile (cs : List Char) : NoLetterHead (cs.dropWhile Char.isAlpha) := by
  intro c hc
  have hhead := List.head?_dropWhile_not Char.isAlpha cs
  rw [hc] at hhead
  exact hhead

theorem skipSpaces_append (hgap : AllSpace gap)
    (hrest : ∀ c, rest.head? = some c → isSpace c = false) : skipSpaces (gap ++ rest) = rest :=
  dropWhile_append_eq_right hgap hrest

/-- The blanks in front of a text and the text behind them. -/
theorem exists_gap (cs : List Char) : ∃ gap, AllSpace gap ∧ cs = gap ++ skipSpaces cs :=
  ⟨cs.takeWhile isSpace, fun _ hc => List.all_eq_true.1 List.all_takeWhile _ hc,
    List.takeWhile_append_dropWhile.symm⟩

/-! ## Marks -/

theorem ofMark?_eq_some_iff {u : TimeUnit} :
    TimeUnit.ofMark? mark = some u ↔ mark.map Char.toLower = u.mark := by
  unfold TimeUnit.ofMark?
  constructor
  · intro hfind
    have hfound := List.find?_some hfind
    exact (beq_iff_eq.1 hfound).symm
  · intro hmark
    rw [hmark]
    cases u <;> rfl

/-- A mark is letters, one at least. -/
theorem letters_of_mark {u : TimeUnit} (h : mark.map Char.toLower = u.mark) :
    mark ≠ [] ∧ ∀ c ∈ mark, c.isAlpha = true := by
  have hne : u.mark ≠ [] := by cases u <;> exact List.cons_ne_nil _ _
  have hlower : u.mark.all Char.isLower = true := by cases u <;> rfl
  rw [← h] at hne hlower
  refine ⟨fun hnil => hne (by rw [hnil, List.map_nil]), fun c hc => ?_⟩
  exact isAlpha_of_isLower_toLower (List.all_eq_true.1 hlower _ (List.mem_map_of_mem hc))

/-! ## Parts -/

/-- A part of the unit form as it is written: a count, its fraction, empty if there is none, blanks
and the mark of the unit. -/
structure UnitPart where
  unit : TimeUnit
  count : List Char
  fraction : List Char
  gap : List Char
  mark : List Char

namespace UnitPart

/-- The part as text. -/
def text (p : UnitPart) : List Char := p.count ++ (fractionPart p.fraction ++ (p.gap ++ p.mark))

/-- The fraction in nanoseconds. -/
def fractionNanos (p : UnitPart) : Nat := ofDigits p.fraction * powerOfTen (9 - p.fraction.length)

/-- The part in nanoseconds. -/
def length (p : UnitPart) : Nat := ofDigits p.count * p.unit.nanos + p.fractionNanos

/-- What the part denotes, whatever its zeros in front, blanks and letter case. -/
def value (p : UnitPart) : TimeUnit × Nat × Nat := (p.unit, ofDigits p.count, p.fractionNanos)

/-- Whether a count has at most nineteen digits, a fraction at most seven and only on seconds, and
the mark is the unit's. -/
structure WellFormed (p : UnitPart) : Prop where
  count : AllDigits p.count ∧ p.count ≠ [] ∧ p.count.length ≤ 19
  fraction : AllDigits p.fraction ∧ p.fraction.length ≤ 7
  pointed : p.fraction ≠ [] → p.unit = .second
  gap : AllSpace p.gap
  mark : p.mark.map Char.toLower = p.unit.mark

/-- A count and its mark, with nothing between them. -/
theorem WellFormed.plain {u : TimeUnit} {count mark : List Char} (hdigits : AllDigits count)
    (hne : count ≠ []) (hlength : count.length ≤ 19) (hmark : mark.map Char.toLower = u.mark) :
    UnitPart.WellFormed ⟨u, count, [], [], mark⟩ where
  count := ⟨hdigits, hne, hlength⟩
  fraction := ⟨List.forall_mem_nil _, Nat.zero_le _⟩
  pointed := fun hfraction => absurd rfl hfraction
  gap := List.forall_mem_nil _
  mark := hmark

variable {p : UnitPart} (hp : p.WellFormed)

include hp

theorem WellFormed.starts : ∃ c rest, p.text = c :: rest ∧ c.isDigit = true := by
  obtain ⟨c, run, hcount⟩ := List.exists_cons_of_ne_nil hp.count.2.1
  refine ⟨c, _, by rw [text, hcount, List.cons_append], hp.count.1 c ?_⟩
  rw [hcount]
  exact List.mem_cons_self

/-- Behind the number is a blank or a letter. -/
theorem WellFormed.behind (rest : List Char) : ∃ c tail, p.gap ++ (p.mark ++ rest) = c :: tail ∧
    c.isDigit = false ∧ c ≠ '.' := by
  obtain ⟨hne, hletters⟩ := letters_of_mark hp.mark
  obtain ⟨c, tail, heq, hc⟩ : ∃ c tail, p.gap ++ (p.mark ++ rest) = c :: tail ∧
      (isSpace c = true ∨ c.isAlpha = true) := by
    cases hgap : p.gap with
    | nil =>
      obtain ⟨c, mark, hmark⟩ := List.exists_cons_of_ne_nil hne
      refine ⟨c, mark ++ rest, by rw [hmark]; rfl, .inr (hletters c ?_)⟩
      rw [hmark]
      exact List.mem_cons_self
    | cons c gap =>
      refine ⟨c, gap ++ (p.mark ++ rest), rfl, .inl (hp.gap c ?_)⟩
      rw [hgap]
      exact List.mem_cons_self
  have hother := not_digit_of_isSpace_or_isAlpha hc
  exact ⟨c, tail, heq, hother.1, hother.2.1⟩

/-- There is no colon in a part. -/
theorem WellFormed.colon_not_mem : ':' ∉ p.text := by
  intro hmem
  simp only [text, List.mem_append] at hmem
  obtain hcount | hfraction | hgap | hmark := hmem
  · exact absurd (hp.count.1 _ hcount) (by decide)
  · unfold fractionPart at hfraction
    split at hfraction
    · exact List.not_mem_nil hfraction
    · obtain hpoint | hdigits := List.mem_cons.1 hfraction
      · exact absurd hpoint (by decide)
      · exact absurd (hp.fraction.1 _ hdigits) (by decide)
  · exact absurd (hp.gap _ hgap) (by decide)
  · exact absurd ((letters_of_mark hp.mark).2 _ hmark) (by decide)

end UnitPart

/-- **A part is read as it is written**, up to a character that is no letter. -/
theorem readPart_eq_some_iff {u : TimeUnit} : readPart cs = some ((u, n), rest) ↔
    ∃ p : UnitPart, p.WellFormed ∧ NoLetterHead rest ∧ p.unit = u ∧ p.length = n ∧
      cs = p.text ++ rest := by
  unfold readPart
  simp only [Option.bind_eq_bind]
  constructor
  · intro hread
    obtain ⟨⟨count, behindCount⟩, hcount, hread⟩ := Option.bind_eq_some_iff.1 hread
    obtain ⟨⟨nanos, behindFraction⟩, hfraction, hread⟩ := Option.bind_eq_some_iff.1 hread
    obtain ⟨unit, hmark, hread⟩ := Option.bind_eq_some_iff.1 hread
    dsimp only at hfraction hmark hread
    obtain ⟨hpointed, heq⟩ := Option.ite_none_left_eq_some.1 hread
    cases heq
    obtain ⟨rfl, hdigits, hne, hlength, -⟩ := digitRun_eq_some_iff.1 hcount
    obtain ⟨fraction, rfl, hfractionRun, -, rfl⟩ := optionalFraction_append_iff.1 hfraction
    obtain ⟨gap, hgap, hbehind⟩ := exists_gap behindFraction
    refine ⟨⟨u, count, fraction, gap, (skipSpaces behindFraction).takeWhile Char.isAlpha⟩,
      ⟨⟨hdigits, hne, hlength⟩, hfractionRun, fun hnonempty => ?_, hgap,
        ofMark?_eq_some_iff.1 hmark⟩, noLetterHead_dropWhile _, rfl, rfl, ?_⟩
    · by_contra hunit
      refine hpointed ⟨?_, hunit⟩
      rw [fractionPart, if_neg hnonempty, List.cons_append, eat_self]
      rfl
    · simp only [UnitPart.text, List.append_assoc, List.takeWhile_append_dropWhile]
      rw [← hbehind]
  · rintro ⟨p, hp, hrest, rfl, rfl, rfl⟩
    obtain ⟨c, tail, hbehind, hdigit, hpoint⟩ := hp.behind rest
    have hletters := (letters_of_mark hp.mark).2
    have hnoDigit : NoDigitHead (p.gap ++ (p.mark ++ rest)) := by
      rw [hbehind]
      exact noDigitHead_cons hdigit
    have hnoPoint : eat '.' (p.gap ++ (p.mark ++ rest)) = none := by
      rw [hbehind]
      exact eat_of_ne hpoint tail
    have hcount : digitRun 19 (p.text ++ rest) =
        some (p.count, fractionPart p.fraction ++ (p.gap ++ (p.mark ++ rest))) := by
      refine digitRun_eq_some_iff.2 ⟨?_, hp.count.1, hp.count.2.1, hp.count.2.2, ?_⟩
      · simp only [UnitPart.text, List.append_assoc]
      · unfold fractionPart
        split
        · exact hnoDigit
        · exact noDigitHead_cons (by decide)
    have hfraction : optionalFraction (fractionPart p.fraction ++ (p.gap ++ (p.mark ++ rest))) =
        some (p.fractionNanos, p.gap ++ (p.mark ++ rest)) := by
      refine optionalFraction_append_iff.2 ⟨p.fraction, rfl, hp.fraction, ?_, rfl⟩
      split
      · exact hnoPoint
      · exact hnoDigit
    have hpointed : ¬ ((eat '.' (fractionPart p.fraction ++
        (p.gap ++ (p.mark ++ rest)))).isSome = true ∧ p.unit ≠ .second) := by
      rintro ⟨hsome, hunit⟩
      have hempty : p.fraction = [] := by_contra fun hne => hunit (hp.pointed hne)
      rw [hempty, fractionPart, if_pos rfl, List.nil_append, hnoPoint] at hsome
      cases hsome
    have hskip : skipSpaces (p.gap ++ (p.mark ++ rest)) = p.mark ++ rest := by
      refine skipSpaces_append hp.gap fun d hd => ?_
      obtain ⟨e, mark, hmark⟩ := List.exists_cons_of_ne_nil (letters_of_mark hp.mark).1
      rw [hmark] at hd hletters
      cases hd
      exact isSpace_of_isAlpha (hletters _ List.mem_cons_self)
    rw [hcount, Option.bind_some]
    dsimp only
    rw [hfraction, Option.bind_some]
    dsimp only
    rw [hskip, takeWhile_append_eq_left hletters hrest, dropWhile_append_eq_right hletters hrest,
      ofMark?_eq_some_iff.2 hp.mark, Option.bind_some, if_neg hpointed]
    rfl

/-! ## Texts -/

/-- A text made of parts, with or without blanks between them. -/
inductive UnitForm : List UnitPart → List Char → Prop where
  | last {p : UnitPart} (hp : p.WellFormed) : UnitForm [p] p.text
  | more {p : UnitPart} {ps : List UnitPart} {gap rest : List Char} (hp : p.WellFormed)
      (hgap : AllSpace gap) (hrest : UnitForm ps rest) :
      UnitForm (p :: ps) (p.text ++ (gap ++ rest))

/-- The units of parts. -/
def units (ps : List UnitPart) : List TimeUnit := ps.map UnitPart.unit

/-- The sum of values in nanoseconds. -/
def valueSum : List (TimeUnit × Nat × Nat) → Nat
  | [] => 0
  | (unit, count, nanos) :: rest => count * unit.nanos + nanos + valueSum rest

/-- The sum of parts in nanoseconds. -/
def total (ps : List UnitPart) : Nat := valueSum (ps.map UnitPart.value)

/-- Whether the units of parts are distinct and none of them is in `seen`. -/
def Fresh (seen : List TimeUnit) (ps : List UnitPart) : Prop :=
  (units ps).Nodup ∧ ∀ u ∈ units ps, u ∉ seen

instance (seen : List TimeUnit) (ps : List UnitPart) : Decidable (Fresh seen ps) :=
  inferInstanceAs (Decidable (_ ∧ _))

variable {ps : List UnitPart} {seen : List TimeUnit}

theorem fresh_nil : Fresh [] ps ↔ (units ps).Nodup := and_iff_left fun _ _ => List.not_mem_nil

theorem fresh_singleton {p : UnitPart} : Fresh seen [p] ↔ p.unit ∉ seen := by
  simp [Fresh, units]

theorem fresh_cons {p : UnitPart} :
    Fresh seen (p :: ps) ↔ p.unit ∉ seen ∧ Fresh (p.unit :: seen) ps := by
  unfold Fresh units
  rw [List.map_cons, List.nodup_cons, List.forall_mem_cons]
  constructor
  · rintro ⟨⟨hnew, hnodup⟩, hunseen, hseen⟩
    refine ⟨hunseen, hnodup, fun u hu hmem => ?_⟩
    obtain rfl | hmem := List.mem_cons.1 hmem
    · exact hnew hu
    · exact hseen u hu hmem
  · rintro ⟨hunseen, hnodup, hseen⟩
    exact ⟨⟨fun hmem => hseen _ hmem List.mem_cons_self, hnodup⟩, hunseen,
      fun u hu hmem => hseen u hu (List.mem_cons_of_mem _ hmem)⟩

theorem UnitForm.starts (h : UnitForm ps cs) : ∃ c rest, cs = c :: rest ∧ c.isDigit = true := by
  cases h with
  | last hp => exact hp.starts
  | more hp hgap hrest =>
    obtain ⟨c, tail, htext, hc⟩ := hp.starts
    exact ⟨c, _, by rw [htext, List.cons_append], hc⟩

theorem UnitForm.colon_not_mem (h : UnitForm ps cs) : ':' ∉ cs := by
  induction h with
  | last hp => exact hp.colon_not_mem
  | more hp hgap hrest ih =>
    intro hmem
    obtain htext | hgapMem | hrestMem := (List.mem_append.1 hmem).imp_right List.mem_append.1
    · exact hp.colon_not_mem htext
    · exact absurd (hgap _ hgapMem) (by decide)
    · exact ih hrestMem

theorem unitLength?_of_readPart {u : TimeUnit} (h : readPart cs = some ((u, n), rest))
    (seen : List TimeUnit) : unitLength? seen cs = if u ∈ seen then none
      else if rest = [] then some n
      else if skipSpaces rest = [] then none
      else (unitLength? (u :: seen) (skipSpaces rest)).map (n + ·) := by
  rw [unitLength?_eq, h]
  rfl

theorem exists_readPart {seen : List TimeUnit} (h : unitLength? seen cs = some n) :
    ∃ part, readPart cs = some part := by
  rw [unitLength?_eq] at h
  obtain ⟨part, hpart, -⟩ := Option.bind_eq_some_iff.1 h
  exact ⟨part, hpart⟩

/-- Parts are read one by one, unless the unit of one occurs in `seen` or once more. -/
theorem UnitForm.unitLength?_total (h : UnitForm ps cs) (seen : List TimeUnit) :
    unitLength? seen cs = if Fresh seen ps then some (total ps) else none := by
  induction h generalizing seen with
  | @last p hp =>
    have hread : readPart p.text = some ((p.unit, p.length), []) :=
      readPart_eq_some_iff.2 ⟨p, hp, nofun, rfl, rfl, (List.append_nil _).symm⟩
    rw [unitLength?_of_readPart hread, if_pos rfl, ← ite_not, if_congr fresh_singleton rfl rfl]
    rfl
  | @more p ps gap rest hp hgap hrest ih =>
    obtain ⟨c, tail, rfl, hc⟩ := hrest.starts
    have hread : readPart (p.text ++ (gap ++ c :: tail)) =
        some ((p.unit, p.length), gap ++ c :: tail) :=
      readPart_eq_some_iff.2 ⟨p, hp, noLetterHead_append hgap (noLetterHead_of_isDigit hc tail),
        rfl, rfl, rfl⟩
    have hskip : skipSpaces (gap ++ c :: tail) = c :: tail := by
      refine skipSpaces_append hgap fun d hd => ?_
      cases hd
      rw [Bool.eq_false_iff]
      intro hspace
      rw [(not_digit_of_isSpace_or_isAlpha (.inl hspace)).1] at hc
      cases hc
    rw [unitLength?_of_readPart hread, hskip, ih,
      if_neg (List.append_ne_nil_of_right_ne_nil _ (List.cons_ne_nil _ _)),
      if_neg (List.cons_ne_nil _ _), apply_ite (Option.map (p.length + ·)), Option.map_none,
      ← ite_not, ← ite_and, if_congr fresh_cons rfl rfl]
    rfl

/-- **The length of a text in unit form is the sum of its parts, and only such texts have one.** -/
theorem unitLength?_eq_some_iff : unitLength? seen cs = some n ↔
    ∃ ps, UnitForm ps cs ∧ Fresh seen ps ∧ total ps = n := by
  constructor
  · intro hread
    -- each round leaves a shorter text to the next one
    induction hlength : cs.length using Nat.strong_induction_on generalizing seen cs n with
    | h k ih =>
      obtain ⟨⟨⟨u, length⟩, rest⟩, hpart⟩ := exists_readPart hread
      rw [unitLength?_of_readPart hpart] at hread
      have hshorter := length_lt_of_readPart hpart
      obtain ⟨p, hp, hrest, rfl, rfl, rfl⟩ := readPart_eq_some_iff.1 hpart
      obtain ⟨hnew, hread⟩ := Option.ite_none_left_eq_some.1 hread
      split at hread
      · next hempty =>
        cases hread
        rw [hempty, List.append_nil]
        exact ⟨[p], .last hp, fresh_singleton.2 hnew, Nat.add_zero _⟩
      · obtain ⟨-, hread⟩ := Option.ite_none_left_eq_some.1 hread
        obtain ⟨m, hbehind, rfl⟩ := Option.map_eq_some_iff.1 hread
        have hskip := length_skipSpaces_le rest
        obtain ⟨ps, hform, hfresh, rfl⟩ := ih _ (by omega) hbehind rfl
        obtain ⟨gap, hgap, hsplit⟩ := exists_gap rest
        refine ⟨p :: ps, ?_, fresh_cons.2 ⟨hnew, hfresh⟩, rfl⟩
        rw [hsplit]
        exact .more hp hgap hform
  · rintro ⟨ps, hform, hfresh, rfl⟩
    rw [hform.unitLength?_total, if_pos hfresh]

/-! ## Durations -/

/-- A text behind a minus sign or not. -/
def withSign (negative : Bool) (cs : List Char) : List Char :=
  (if negative then ['-'] else []) ++ cs

/-- A sum behind a minus sign or not. -/
def signed (negative : Bool) (n : Nat) : Int := if negative then -(n : Int) else n

/-- A number of nanoseconds cut to whole ticks, toward zero. -/
def towardZero (z : Int) : Int := z.tdiv tickNanos * tickNanos

theorem towardZero_signed (negative : Bool) (n : Nat) :
    towardZero (signed negative n) = signed negative (n - n % tickNanos) := by
  have hcut : ((n : Int).tdiv tickNanos) * tickNanos = (n - n % tickNanos : Nat) := by
    rw [← Int.ofNat_tdiv, ← Int.natCast_mul, Int.natCast_inj]
    exact Nat.eq_sub_of_add_eq (Nat.div_add_mod' n tickNanos)
  unfold towardZero signed
  cases negative with
  | false => exact hcut
  | true => rw [if_pos rfl, if_pos rfl, Int.neg_tdiv, Int.neg_mul, hcut]

theorem ofLength?_eq (negative : Bool) (n : Nat) :
    ofLength? negative n = ofNanos? (towardZero (signed negative n)) := by
  rw [towardZero_signed]
  rfl

theorem ofNanos?_map_nanos (z : Int) : (ofNanos? z).map nanos =
    if z.natAbs ≤ 0x7FFF_FFFF_FFFF_FFFF * 1_000_000 then some z else none := by
  unfold ofNanos?
  split <;> rfl

/-- The parts of a text decide its duration. -/
theorem UnitForm.parse?_withSign (h : UnitForm ps cs) (negative : Bool) :
    parse? (withSign negative cs) = if (units ps).Nodup then
      ofNanos? (towardZero (signed negative (total ps))) else none := by
  have hsplit : splitMinus (withSign negative cs) = (negative, cs) := by
    cases negative with
    | true => rfl
    | false =>
      obtain ⟨c, rest, rfl, hc⟩ := h.starts
      exact splitMinus_of_isDigit hc rest
  have hcolon : (withSign negative cs).contains ':' = false := by
    rw [Bool.eq_false_iff]
    intro hmem
    obtain hsign | hmem := List.mem_append.1 (List.contains_iff_mem.1 hmem)
    · split at hsign
      · exact absurd hsign (by decide)
      · exact List.not_mem_nil hsign
    · exact h.colon_not_mem hmem
  unfold parse?
  rw [hsplit, hcolon]
  simp only [Bool.false_eq_true, if_false]
  rw [h.unitLength?_total, if_congr fresh_nil rfl rfl, ← ofLength?_eq]
  split <;> rfl

/-- Without a colon, only signed texts in unit form with distinct units are read. -/
theorem exists_unitForm (hcolon : ':' ∉ cs) (hread : parse? cs ≠ none) :
    ∃ negative ps body, UnitForm ps body ∧ (units ps).Nodup ∧ cs = withSign negative body := by
  rcases hsplit : splitMinus cs with ⟨negative, body⟩
  obtain ⟨d, hd⟩ := Option.ne_none_iff_exists'.1 hread
  unfold parse? at hd
  rw [hsplit, Bool.eq_false_iff.2 (mt List.contains_iff_mem.1 hcolon)] at hd
  obtain ⟨n, hn, -⟩ := Option.bind_eq_some_iff.1 hd
  obtain ⟨ps, hform, hfresh, -⟩ := unitLength?_eq_some_iff.1 hn
  exact ⟨negative, ps, body, hform, fresh_nil.1 hfresh, eq_of_splitMinus hsplit⟩

/-! ### Values -/

/-- The parts of a duration in colon form by their units. -/
def ColonParts.values (c : ColonParts) : List (TimeUnit × Nat × Nat) :=
  [(.day, ofDigits c.days, 0), (.hour, ofDigits c.hours, 0), (.minute, ofDigits c.minutes, 0),
    (.second, ofDigits c.seconds, ofDigits c.fraction * powerOfTen (9 - c.fraction.length))]

theorem valueSum_perm {values values' : List (TimeUnit × Nat × Nat)} (h : values.Perm values') :
    valueSum values = valueSum values' := by
  induction h with
  | nil => rfl
  | cons v _ ih => rw [valueSum, valueSum, ih]
  | swap v w rest => exact Nat.add_left_comm _ _ _
  | trans _ _ ih ih' => exact ih.trans ih'

theorem units_eq_map_value (ps : List UnitPart) :
    units ps = (ps.map UnitPart.value).map Prod.fst := by
  unfold units
  rw [List.map_map]
  rfl

theorem units_values (c : ColonParts) :
    c.values.map Prod.fst = [.day, .hour, .minute, .second] := rfl

theorem valueSum_values (c : ColonParts) : valueSum c.values = c.length := by
  have hday : TimeUnit.day.nanos = 86_400_000_000_000 := rfl
  have hhour : TimeUnit.hour.nanos = 3_600_000_000_000 := rfl
  have hminute : TimeUnit.minute.nanos = 60_000_000_000 := rfl
  have hsecond : TimeUnit.second.nanos = 1_000_000_000 := rfl
  rw [ColonParts.values, valueSum, valueSum, valueSum, valueSum, valueSum, hday, hhour, hminute,
    hsecond, ColonParts.length]
  omega

variable {values : List (TimeUnit × Nat × Nat)}

/-- Neither the sum nor whether units repeat depends on the order. -/
theorem parse?_withSign_of_perm (h : UnitForm ps cs) (hvalues : (ps.map UnitPart.value).Perm values)
    (negative : Bool) : parse? (withSign negative cs) = if (values.map Prod.fst).Nodup then
      ofNanos? (towardZero (signed negative (valueSum values))) else none := by
  have hsum : total ps = valueSum values := valueSum_perm hvalues
  have hnodup : (units ps).Nodup ↔ (values.map Prod.fst).Nodup := by
    rw [units_eq_map_value]
    exact (hvalues.map Prod.fst).nodup_iff
  rw [h.parse?_withSign, if_congr hnodup rfl rfl, hsum]

namespace ColonParts

variable {c : ColonParts}

theorem Sixtieth.ne_nil {run : List Char} (h : Sixtieth run) : run ≠ [] :=
  List.ne_nil_of_length_pos (by rw [h.2.1]; decide)

/-- The parts of a duration in colon form with marks of units behind them. -/
def unitParts (c : ColonParts) : List UnitPart :=
  [⟨.day, c.days, [], [], ['d']⟩, ⟨.hour, c.hours, [], [], ['h']⟩,
    ⟨.minute, c.minutes, [], [], ['m']⟩, ⟨.second, c.seconds, c.fraction, [], ['s']⟩]

/-- The unit form with the parts of the colon form, `dd hh mm ss.fs` without the blanks. -/
def unitText (c : ColonParts) : List Char :=
  c.days ++ 'd' :: (c.hours ++ 'h' :: (c.minutes ++ 'm' :: (c.seconds ++
    (fractionPart c.fraction ++ ['s']))))

theorem map_value_unitParts (c : ColonParts) : c.unitParts.map UnitPart.value = c.values := by
  have hnone : ofDigits [] * powerOfTen (9 - ([] : List Char).length) = 0 := by decide
  simp only [unitParts, values, List.map_cons, List.map_nil, UnitPart.value,
    UnitPart.fractionNanos, hnone]

/-- No part of the colon form has more digits than a count may have. -/
theorem WellFormed.unitForm (hc : c.WellFormed 2) (hdays : c.days ≠ []) :
    UnitForm c.unitParts c.unitText := by
  have hlength := hc.hours_length
  rw [ite_self] at hlength
  have hblank : AllSpace [] := List.forall_mem_nil _
  have hday : UnitPart.WellFormed ⟨.day, c.days, [], [], ['d']⟩ :=
    .plain hc.days.1 hdays (hc.days.2.trans (by decide)) rfl
  have hhour : UnitPart.WellFormed ⟨.hour, c.hours, [], [], ['h']⟩ :=
    .plain hc.hours.1 hc.hours.2.1 (hlength.trans (by decide)) rfl
  have hminute : UnitPart.WellFormed ⟨.minute, c.minutes, [], [], ['m']⟩ :=
    .plain hc.minutes.1 hc.minutes.ne_nil (hc.minutes.2.1.le.trans (by decide)) rfl
  have hsecond : UnitPart.WellFormed ⟨.second, c.seconds, c.fraction, [], ['s']⟩ :=
    ⟨⟨hc.seconds.1, hc.seconds.ne_nil, hc.seconds.2.1.le.trans (by decide)⟩, hc.fraction,
      fun _ => rfl, hblank, rfl⟩
  have hform := UnitForm.more hday hblank
    (.more hhour hblank (.more hminute hblank (.last hsecond)))
  have htext : c.unitText = UnitPart.text ⟨.day, c.days, [], [], ['d']⟩ ++ ([] ++
      (UnitPart.text ⟨.hour, c.hours, [], [], ['h']⟩ ++ ([] ++
        (UnitPart.text ⟨.minute, c.minutes, [], [], ['m']⟩ ++ ([] ++
          UnitPart.text ⟨.second, c.seconds, c.fraction, [], ['s']⟩))))) := by
    simp [unitText, UnitPart.text, fractionPart]
  rw [htext]
  exact hform

/-- Days, hours, minutes and seconds in unit form are the duration that they are in colon form. -/
theorem WellFormed.exists_duration (hc : c.WellFormed 2) : ∃ d, d.nanos = c.nanos ∧
    parse? c.text = some d ∧ ∀ ps cs, UnitForm ps cs → (ps.map UnitPart.value).Perm c.values →
      parse? (withSign c.negative cs) = some d := by
  have hten := (wellFormed_two_iff.1 hc).1
  obtain ⟨d, hd, hnanos⟩ := Option.map_eq_some_iff.1 hten.ofLength?_length
  obtain ⟨-, hcolon⟩ := parse?_colon_iff.2 ⟨c, hten, rfl, rfl⟩
  obtain ⟨e, he, henanos⟩ := Option.map_eq_some_iff.1 hcolon
  have hsame : e = d := Duration.ext (henanos.trans hnanos.symm)
  have hunits : (c.values.map Prod.fst).Nodup := by
    rw [units_values]
    decide
  refine ⟨d, hnanos, hsame ▸ he, fun ps cs hform hvalues => ?_⟩
  rw [parse?_withSign_of_perm hform hvalues, if_pos hunits, valueSum_values, ← ofLength?_eq, hd]

end ColonParts

/-- Six days and more with the seconds in front and blanks between some parts. -/
def shuffled : List UnitPart :=
  [⟨.second, ['2', '3'], ['5'], [], ['S']⟩, ⟨.day, ['6'], [], [' '], ['d']⟩,
    ⟨.hour, ['2'], [], [], ['h']⟩, ⟨.minute, ['1', '1'], [], [], ['M']⟩]

/-- The same in colon form, less than nothing. -/
def sixDays : ColonParts := ⟨true, ['6'], ['0', '2'], ['1', '1'], ['2', '3'], ['5']⟩

theorem shuffled_wellFormed : ∀ p ∈ shuffled, p.WellFormed := by
  have hcheck : ∀ p ∈ shuffled, (p.count.all Char.isDigit ∧ p.count ≠ [] ∧ p.count.length ≤ 19) ∧
      (p.fraction.all Char.isDigit ∧ p.fraction.length ≤ 7) ∧
      (p.fraction ≠ [] → p.unit = .second) ∧ p.gap.all isSpace ∧
      p.mark.map Char.toLower = p.unit.mark := by decide
  intro p hp
  obtain ⟨⟨hcount, hne, hlength⟩, ⟨hfraction, hplaces⟩, hpointed, hgap, hmark⟩ := hcheck p hp
  exact ⟨⟨List.all_eq_true.1 hcount, hne, hlength⟩, ⟨List.all_eq_true.1 hfraction, hplaces⟩,
    hpointed, List.all_eq_true.1 hgap, hmark⟩

theorem shuffled_unitForm : UnitForm shuffled "23.5S 6 d\t2h11M".toList := by
  have hall := shuffled_wellFormed
  simp only [shuffled, List.forall_mem_cons] at hall
  obtain ⟨hsecond, hday, hhour, hminute, -⟩ := hall
  have hblank : AllSpace [' '] := List.all_eq_true.1 rfl
  have htab : AllSpace ['\t'] := List.all_eq_true.1 rfl
  exact .more hsecond hblank (.more hday htab (.more hhour (List.forall_mem_nil _) (.last hminute)))

theorem sixDays_wellFormed : sixDays.WellFormed 2 where
  days := ⟨List.all_eq_true.1 rfl, by decide⟩
  hours := ⟨List.all_eq_true.1 rfl, by decide, by decide⟩
  hours_length := by decide
  minutes := ⟨List.all_eq_true.1 rfl, rfl, by decide⟩
  seconds := ⟨List.all_eq_true.1 rfl, rfl, by decide⟩
  fraction := ⟨List.all_eq_true.1 rfl, by decide⟩

theorem shuffled_perm : (shuffled.map UnitPart.value).Perm sixDays.values := by
  decide

end MessageScript.Calendar.Duration
