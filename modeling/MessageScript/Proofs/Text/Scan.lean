import MessageScript.Proofs.Text.Bytes

/-!
# Scans

A reader takes what it is after off the front of a text.  A machine does the same with a place in
the text, which it counts in bytes and moves on (`Scan`): it looks at single bytes, and cuts digits
and words out of the text as slices.  A scan follows a reader if it does not fault, refuses where
the reader refuses and else gives the reader's result and stops in front of the reader's rest
(`Follows`); the place is then at the end of a character, and never past the end of the text.  It
never goes back (`Advances`).

    Advances m scan → (∀ a, Advances n (next a)) → Advances (m + n) (scan >>= next) (Advances.bind)
    Follows text pos scan r → (∀ a …, Follows text … (next a) (s (a, rest))) →
      Follows text pos (scan >>= next) (r.bind s)                                  (Follows.bind)
    StandsAt text pos cs → Follows text pos (fixed text k) (fixedDigits k cs)    (StandsAt.fixed)
    Follows text 0 scan r → scan.run = .ofOption (r.map Prod.fst)                (Follows.run_eq)
-/

namespace MessageScript.Text

/-! ## Computations -/

/-- A computation from a place in a text, which it moves on. -/
def Scan (α : Type) : Type := Nat → Outcome (α × Nat)

namespace Scan

variable {α β : Type}

instance : Monad Scan where
  pure a pos := .result (a, pos)
  bind scan next pos := (scan pos).andThen fun (a, pos) => next a pos

/-- A computation that does not read. -/
def lift (o : Outcome α) : Scan α := fun pos => o.andThen fun a => .result (a, pos)

/-- A refusal. -/
def refuse : Scan α := fun _ => .refusal

/-- The place. -/
def place : Scan Nat := fun pos => .result (pos, pos)

/-- One scan or, if it refuses, another from the same place. -/
def orElse (first second : Scan α) : Scan α := fun pos =>
  match first pos with
  | .refusal => second pos
  | result => result

end Scan

open Scan

/-! ## Steps -/

section Steps

variable {α : Type} (text : List Char)

/-- Whether the byte at a place, if there is one, is an ASCII character with a property. -/
def byteAtIs (p : Char → Bool) (pos : Nat) : Bool := (utf8 text)[pos]?.any (byteIs p)

/-- Whether the byte ahead is an ASCII character with a property. -/
def aheadIs (p : Char → Bool) : Scan Bool := fun pos => .result (byteAtIs text p pos, pos)

/-- Goes on to a place, which must not be past the end. -/
def moveTo (next : Nat) : Scan Unit := fun _ =>
  if next ≤ byteLength text then .result ((), next) else .fault .outOfBounds

/-- Goes on by a byte. -/
def advance : Scan Unit := do moveTo text ((← place) + 1)

/-- Whether the end is reached. -/
def atEnd : Scan Bool := fun pos => .result (decide (byteLength text ≤ pos), pos)

/-- Goes past an ASCII character if it is ahead, and tells whether it was. -/
def tryEat (c : Char) : Scan Bool := do
  if ← aheadIs text (· == c) then
    advance text
    return true
  else return false

/-- Goes past an ASCII character, which must be ahead. -/
def expect (c : Char) : Scan Unit := do
  if ← tryEat text c then return () else refuse

/-- Goes past the ASCII characters with a property. -/
def skipWhile (p : Char → Bool) (pos : Nat) : Outcome (Unit × Nat) :=
  if byteAtIs text p pos then
    if _h : pos + 1 ≤ byteLength text then skipWhile p (pos + 1) else .fault .outOfBounds
  else .result ((), pos)
  termination_by byteLength text - pos

/-- Whether a character is an ASCII blank. -/
def isSpace (c : Char) : Bool := c == ' ' || c == '\t' || c == '\n' || c == '\x0c' || c == '\r'

/-- Goes past ASCII blanks, and tells whether there were any. -/
def skipBlanks : Scan Bool := do
  let first ← place
  skipWhile text isSpace
  return decide (first < (← place))

/-- The ASCII letters ahead. -/
def word : Scan (List Char) := do
  let first ← place
  skipWhile text Char.isAlpha
  lift (slice text first (← place))

/-- The number of digits ahead. -/
def digitsAhead : Scan Nat := do
  let behind ← lift (bytesFrom text (← place))
  return (behind.takeWhile (byteIs Char.isDigit)).length

/-- So many characters, which must be digits, as they are. -/
def takeRun (count : Nat) : Scan (List Char) := do
  let first ← place
  let run ← lift (slice text first (first + count))
  moveTo text (first + count)
  return run

/-- So many digits as a number. -/
def takeNumber (count : Nat) : Scan Nat := do
  let run ← takeRun text count
  lift (.ofOption (Word.w64.parse? run))

/-- Exactly so many digits, whatever follows. -/
def fixed (count : Nat) : Scan Nat := do
  if (← digitsAhead text) < count then refuse else takeNumber text count

/-- All digits ahead, at least and at most so many. -/
def variableDigits (least most : Nat) : Scan Nat := do
  let count ← digitsAhead text
  if count < least ∨ most < count then refuse else takeNumber text count

/-- What a scan of the text comes to, from its start. -/
def Scan.run (scan : Scan α) : Outcome α := (scan 0).andThen fun (a, _) => .result a

/-- A scan that must come to the end. -/
def toEnd (scan : Scan α) : Scan α := do
  let a ← scan
  if ← atEnd text then return a else refuse

end Steps

/-! ## Going on -/

section GoingOn

/-- Whether a scan, wherever it starts, ends so many bytes further on at least. -/
def Advances {α : Type} (least : Nat) (scan : Scan α) : Prop :=
  ∀ pos a next, scan pos = .result (a, next) → pos + least ≤ next

variable {α β : Type} {text : List Char} {pos next target m n : Nat} {scan : Scan α}

theorem exists_of_bind {after : α → Scan β} {b : β} (h : (scan >>= after) pos = .result (b, next)) :
    ∃ a mid, scan pos = .result (a, mid) ∧ after a mid = .result (b, next) := by
  have hrun : (scan pos).andThen (fun (a, mid) => after a mid) = .result (b, next) := h
  cases hscan : scan pos with
  | fault f =>
    rw [hscan] at hrun
    cases hrun
  | refusal =>
    rw [hscan] at hrun
    cases hrun
  | result found =>
    rw [hscan] at hrun
    exact ⟨found.1, found.2, rfl, hrun⟩

theorem Advances.mono (h : Advances m scan) (hle : n ≤ m) : Advances n scan :=
  fun pos a next hscan => (Nat.add_le_add_left hle pos).trans (h pos a next hscan)

/-- A scan that only looks. -/
theorem Advances.look (see : Nat → α) : Advances 0 fun pos => .result (see pos, pos) := by
  intro pos a next h
  cases h
  exact Nat.le_refl _

theorem Advances.pure (a : α) : Advances 0 (pure a : Scan α) := Advances.look fun _ => a

theorem Advances.refuse : Advances n (Scan.refuse : Scan α) := by
  intro pos a next h
  cases h

theorem Advances.lift (o : Outcome α) : Advances 0 (Scan.lift o) := by
  intro pos a next h
  cases o with
  | fault f => cases h
  | refusal => cases h
  | result b =>
    cases h
    exact Nat.le_refl _

/-- Two scans in turn go on by what each of them does. -/
theorem Advances.bind {after : α → Scan β} (h : Advances m scan)
    (hafter : ∀ a, Advances n (after a)) : Advances (m + n) (scan >>= after) := by
  intro pos b next hscan
  obtain ⟨a, mid, hfirst, hsecond⟩ := exists_of_bind hscan
  have hmid := h pos a mid hfirst
  have hnext := hafter a mid b next hsecond
  omega

/-- What goes on behind a scan that may stay goes on as far with it. -/
theorem Advances.zero_bind {after : α → Scan β} (h : Advances 0 scan)
    (hafter : ∀ a, Advances n (after a)) : Advances n (scan >>= after) :=
  (h.bind hafter).mono (Nat.zero_add n).ge

theorem eq_of_moveTo (h : moveTo text target pos = .result ((), next)) : next = target := by
  unfold moveTo at h
  split at h
  · cases h
    rfl
  · cases h

theorem advances_advance (text : List Char) : Advances 1 (advance text) := by
  intro pos _ next h
  obtain ⟨first, mid, hplace, hmove⟩ := exists_of_bind h
  cases hplace
  exact (eq_of_moveTo hmove).ge

theorem advances_tryEat (text : List Char) (c : Char) : Advances 0 (tryEat text c) := by
  refine Advances.zero_bind (Advances.look _) fun ahead => ?_
  cases ahead with
  | false => exact Advances.pure false
  | true =>
    exact ((advances_advance text).bind fun _ => Advances.pure true).mono (Nat.zero_le _)

theorem advances_skipWhile (text : List Char) (p : Char → Bool) :
    Advances 0 (skipWhile text p) := by
  intro pos
  induction pos using skipWhile.induct text p with
  | case1 pos hahead hroom ih =>
    intro _ next h
    rw [skipWhile, if_pos hahead, dif_pos hroom] at h
    have hnext := ih _ next h
    omega
  | case2 pos hahead hend =>
    intro _ next h
    rw [skipWhile, if_pos hahead, dif_neg hend] at h
    cases h
  | case3 pos hahead =>
    intro _ next h
    rw [skipWhile, if_neg hahead] at h
    cases h
    exact Nat.le_refl _

theorem advances_skipBlanks (text : List Char) : Advances 0 (skipBlanks text) :=
  (Advances.look _).zero_bind fun _ => (advances_skipWhile text isSpace).zero_bind fun _ =>
    (Advances.look _).zero_bind fun _ => Advances.pure _

theorem advances_word (text : List Char) : Advances 0 (word text) :=
  (Advances.look _).zero_bind fun _ => (advances_skipWhile text Char.isAlpha).zero_bind fun _ =>
    (Advances.look _).zero_bind fun _ => Advances.lift _

theorem advances_digitsAhead (text : List Char) : Advances 0 (digitsAhead text) :=
  (Advances.look _).zero_bind fun _ => (Advances.lift _).zero_bind fun _ => Advances.pure _

theorem advances_takeRun (text : List Char) (count : Nat) :
    Advances count (takeRun text count) := by
  intro pos run next h
  obtain ⟨first, _, hplace, h⟩ := exists_of_bind h
  cases hplace
  obtain ⟨cut, mid, -, h⟩ := exists_of_bind h
  obtain ⟨_, behind, hmove, hdone⟩ := exists_of_bind h
  cases hdone
  exact (eq_of_moveTo hmove).ge

theorem advances_variableDigits (text : List Char) (least most : Nat) :
    Advances least (variableDigits text least most) := by
  have hnumber : ∀ count, Advances least
      (if count < least ∨ most < count then refuse else takeNumber text count) := by
    intro count
    split
    · exact Advances.refuse
    · next hcount =>
      refine Advances.mono ((advances_takeRun text count).bind fun _ => Advances.lift _) ?_
      omega
  exact (advances_digitsAhead text).zero_bind hnumber

end GoingOn

/-! ## Following a reader -/

/-- Whether a place is in front of `rest`. -/
def StandsAt (text : List Char) (pos : Nat) (rest : List Char) : Prop :=
  ∃ front, text = front ++ rest ∧ pos = byteLength front

/-- Whether a scan, from a place, comes to a reader's result. -/
def Follows {α : Type} (text : List Char) (pos : Nat) (scan : Scan α) :
    Option (α × List Char) → Prop
  | none => scan pos = .refusal
  | some (a, rest) => ∃ next, scan pos = .result (a, next) ∧ StandsAt text next rest

variable {α β : Type} {text cs rest run : List Char} {pos next count least most : Nat} {c : Char}
  {p : Char → Bool} {scan : Scan α} {result : Option (α × List Char)}

theorem standsAt_start (text : List Char) : StandsAt text 0 text := ⟨[], rfl, rfl⟩

theorem StandsAt.le (h : StandsAt text pos cs) : pos ≤ byteLength text := by
  obtain ⟨front, rfl, rfl⟩ := h
  rw [byteLength_append]
  exact Nat.le_add_right _ _

theorem StandsAt.append (h : StandsAt text pos (run ++ rest)) :
    StandsAt text (pos + byteLength run) rest := by
  obtain ⟨front, rfl, rfl⟩ := h
  exact ⟨front ++ run, (List.append_assoc _ _ _).symm, (byteLength_append front run).symm⟩

theorem StandsAt.end_iff (h : StandsAt text pos cs) : byteLength text ≤ pos ↔ cs = [] := by
  obtain ⟨front, rfl, rfl⟩ := h
  rw [byteLength_append]
  constructor
  · intro hle
    by_contra hne
    have := byteLength_pos hne
    omega
  · rintro rfl
    exact Nat.le_refl _

/-- Where less of the text is left, the place is further on. -/
theorem StandsAt.lt (h : StandsAt text pos cs) (hnext : StandsAt text next rest)
    (hlength : rest.length < cs.length) : pos < next := by
  obtain ⟨front, rfl, rfl⟩ := h
  obtain ⟨further, heq, rfl⟩ := hnext
  obtain ⟨mid, rfl, hmid⟩ | ⟨mid, rfl, hmid⟩ := List.append_eq_append_iff.1 heq
  · rw [byteLength_append]
    refine Nat.lt_add_of_pos_right (byteLength_pos ?_)
    rintro rfl
    rw [hmid, List.nil_append] at hlength
    exact Nat.lt_irrefl _ hlength
  · rw [hmid, List.length_append] at hlength
    omega

theorem StandsAt.eq (h : StandsAt text pos cs) (hnext : StandsAt text next cs) : pos = next := by
  obtain ⟨front, rfl, rfl⟩ := h
  obtain ⟨further, heq, rfl⟩ := hnext
  rw [List.append_cancel_right heq]

theorem StandsAt.lt_iff (h : StandsAt text pos cs) (hnext : StandsAt text next rest)
    (hrest : rest.Sublist cs) : pos < next ↔ rest ≠ cs := by
  constructor
  · rintro hlt rfl
    exact Nat.ne_of_lt hlt (h.eq hnext)
  · intro hne
    exact h.lt hnext (Nat.lt_of_le_of_ne hrest.length_le fun heq => hne (hrest.eq_of_length heq))

/-- What is cut out between two places is what is between them. -/
theorem StandsAt.slice (h : StandsAt text pos (run ++ rest)) (hnext : StandsAt text next rest) :
    slice text pos next = .result run := by
  have hplace := h.append.eq hnext
  obtain ⟨front, rfl, rfl⟩ := h
  rw [← hplace, slice_append]

/-! ### Chains -/

theorem Follows.pure (h : StandsAt text pos cs) (a : α) :
    Follows text pos (pure a) (some (a, cs)) := ⟨pos, rfl, h⟩

theorem Follows.refuse : Follows text pos (Scan.refuse : Scan α) none := rfl

/-- A scan with a result goes before another one. -/
theorem Follows.some_bind {a : α} {after : α → Scan β} {read : Option (β × List Char)}
    (h : Follows text pos scan (some (a, rest)))
    (hafter : ∀ next, StandsAt text next rest → Follows text next (after a) read) :
    Follows text pos (scan >>= after) read := by
  obtain ⟨next, hscan, hnext⟩ := h
  have hrun : (scan >>= after) pos = after a next := by
    show (scan pos).andThen _ = _
    rw [hscan]
    rfl
  unfold Follows
  rw [hrun]
  exact hafter next hnext

theorem Follows.none_bind {after : α → Scan β} (h : Follows text pos scan none) :
    Follows text pos (scan >>= after) none := by
  show (scan pos).andThen _ = _
  rw [show scan pos = _ from h]
  rfl

/-- **Two scans in turn follow the reader that is made of theirs.** -/
theorem Follows.bind {after : α → Scan β} {read : α × List Char → Option (β × List Char)}
    (h : Follows text pos scan result)
    (hafter : ∀ a rest next, result = some (a, rest) → StandsAt text next rest →
      Follows text next (after a) (read (a, rest))) :
    Follows text pos (scan >>= after) (result.bind read) := by
  cases result with
  | none => exact h.none_bind
  | some found => exact h.some_bind fun next hnext => hafter _ _ next rfl hnext

/-- A result that is there without reading. -/
theorem Follows.lift {o : Outcome α} {a : α} (h : StandsAt text pos cs) (ho : o = .result a) :
    Follows text pos (Scan.lift o) (some (a, cs)) := by
  subst ho
  exact ⟨pos, rfl, h⟩

theorem Follows.ofOption (h : StandsAt text pos cs) (found : Option α) :
    Follows text pos (Scan.lift (.ofOption found)) (found.bind fun a => some (a, cs)) := by
  cases found with
  | none => rfl
  | some a => exact ⟨pos, rfl, h⟩

theorem Follows.ofOption_bind {found : Option α} {after : α → Scan β}
    {read : α → Option (β × List Char)} (hafter : ∀ a, Follows text pos (after a) (read a)) :
    Follows text pos (Scan.lift (.ofOption found) >>= after) (found.bind read) := by
  cases found with
  | none => rfl
  | some a => exact hafter a

/-- A computation that gives a result goes before a scan. -/
theorem Follows.lift_bind {o : Outcome α} {a : α} {after : α → Scan β}
    {read : Option (β × List Char)} (ho : o = .result a) (h : Follows text pos (after a) read) :
    Follows text pos (Scan.lift o >>= after) read := by
  subst ho
  exact h

theorem Follows.orElse {second : Scan α} {other : Option (α × List Char)}
    (h : Follows text pos scan result) (hsecond : Follows text pos second other) :
    Follows text pos (scan.orElse second) (result.or other) := by
  cases result with
  | none =>
    have hrun : scan.orElse second pos = second pos := by
      rw [Scan.orElse, show scan pos = _ from h]
    unfold Follows
    rw [hrun]
    exact hsecond
  | some found =>
    obtain ⟨next, hscan, hnext⟩ := h
    refine ⟨next, ?_, hnext⟩
    rw [Scan.orElse, hscan]

/-! ### Single characters -/

/-- The byte ahead is the first one of the character ahead. -/
theorem StandsAt.byteAtIs (h : StandsAt text pos cs) (hp : IsAscii p) :
    byteAtIs text p pos = cs.head?.any p := by
  obtain ⟨front, rfl, rfl⟩ := h
  rw [Text.byteAtIs, utf8_append, byteLength, List.getElem?_append_right (Nat.le_refl _),
    Nat.sub_self, ← List.head?_eq_getElem?]
  cases cs with
  | nil => rfl
  | cons c cs =>
    obtain ⟨b, bs, hbs, hb, -⟩ := byteIs_head hp c cs
    rw [hbs]
    exact hb

theorem StandsAt.step (h : StandsAt text pos (c :: rest)) (hc : c.toNat < 128) :
    StandsAt text (pos + 1) rest := by
  have happend : StandsAt text (pos + byteLength [c]) rest := StandsAt.append h
  rwa [byteLength_cons, utf8Size_eq_one hc] at happend

theorem StandsAt.advance (h : StandsAt text pos (c :: rest)) (hc : c.toNat < 128) :
    Follows text pos (advance text) (some ((), rest)) := by
  have hnext := h.step hc
  exact ⟨pos + 1, if_pos hnext.le, hnext⟩

theorem isAscii_eq (hc : c.toNat < 128) : IsAscii (· == c) := by
  intro d hd
  rwa [beq_iff_eq.1 hd]

theorem StandsAt.aheadIs (h : StandsAt text pos cs) (hp : IsAscii p) :
    Follows text pos (aheadIs text p) (some (cs.head?.any p, cs)) := by
  refine ⟨pos, ?_, h⟩
  rw [Text.aheadIs, h.byteAtIs hp]

/-- An attempt at a character comes out as the reader's does. -/
theorem StandsAt.tryEat_bind (h : StandsAt text pos cs) (hc : c.toNat < 128)
    {after : Bool → Scan β} {read : Option (β × List Char)}
    (hnone : eat c cs = none → ∀ next, StandsAt text next cs → Follows text next (after false) read)
    (hsome : ∀ rest, eat c cs = some rest → ∀ next, StandsAt text next rest →
      Follows text next (after true) read) :
    Follows text pos (tryEat text c >>= after) read := by
  cases heat : eat c cs with
  | none =>
    have htry : Follows text pos (tryEat text c) (some (false, cs)) := by
      refine (h.aheadIs (isAscii_eq hc)).some_bind fun next hnext => ?_
      have hahead : cs.head?.any (· == c) = false := by
        cases cs with
        | nil => rfl
        | cons d rest =>
          refine beq_eq_false_iff_ne.2 ?_
          rintro rfl
          rw [eat_self] at heat
          cases heat
      rw [hahead]
      exact Follows.pure hnext false
    exact htry.some_bind fun next hnext => hnone heat next hnext
  | some rest =>
    obtain rfl := eat_eq_some_iff.1 heat
    have htry : Follows text pos (tryEat text c) (some (true, rest)) := by
      refine (h.aheadIs (isAscii_eq hc)).some_bind fun next hnext => ?_
      rw [List.head?_cons, Option.any_some, beq_self_eq_true]
      exact (hnext.advance hc).some_bind fun _ hbehind => Follows.pure hbehind true
    exact htry.some_bind fun next hnext => hsome rest heat next hnext

/-- A character that must be ahead. -/
theorem StandsAt.expect_bind (h : StandsAt text pos cs) (hc : c.toNat < 128)
    {after : Unit → Scan β} {read : List Char → Option (β × List Char)}
    (hafter : ∀ rest next, StandsAt text next rest → Follows text next (after ()) (read rest)) :
    Follows text pos (expect text c >>= after) ((eat c cs).bind read) := by
  have hexpect : Follows text pos (expect text c)
      ((eat c cs).bind fun rest => some ((), rest)) := by
    refine h.tryEat_bind hc (fun heat next _ => ?_) fun rest heat next hnext => ?_
    · rw [heat]
      exact Follows.refuse
    · rw [heat]
      exact Follows.pure hnext ()
  cases heat : eat c cs with
  | none =>
    rw [heat] at hexpect
    exact hexpect.none_bind
  | some rest =>
    rw [heat] at hexpect
    exact hexpect.some_bind fun next hnext => hafter rest next hnext

/-! ### Runs of characters -/

theorem StandsAt.skipWhile (h : StandsAt text pos cs) (hp : IsAscii p) :
    Follows text pos (skipWhile text p) (some ((), cs.dropWhile p)) := by
  have hahead := h.byteAtIs hp
  induction cs generalizing pos with
  | nil =>
    refine ⟨pos, ?_, h⟩
    rw [Text.skipWhile, if_neg (by rw [hahead]; exact Bool.false_ne_true)]
  | cons c cs ih =>
    rw [List.head?_cons, Option.any_some] at hahead
    cases hc : p c with
    | false =>
      rw [hc] at hahead
      rw [List.dropWhile_cons_of_neg (by rw [hc]; decide)]
      refine ⟨pos, ?_, h⟩
      rw [Text.skipWhile, if_neg (by rw [hahead]; decide)]
    | true =>
      rw [hc] at hahead
      have hstep := h.step (hp c hc)
      rw [List.dropWhile_cons_of_pos hc]
      obtain ⟨next, hnext, hstands⟩ := ih hstep (hstep.byteAtIs hp)
      refine ⟨next, ?_, hstands⟩
      rw [Text.skipWhile, if_pos hahead, dif_pos hstep.le]
      exact hnext

theorem isAscii_isSpace : IsAscii isSpace := by
  intro c h
  simp only [isSpace, Bool.or_eq_true, beq_iff_eq] at h
  obtain (((rfl | rfl) | rfl) | rfl) | rfl := h <;> decide

theorem isAscii_isAlpha : IsAscii Char.isAlpha := by
  intro c h
  have hbounds := toNat_bounds_of_isAlpha h
  omega

theorem Follows.place_bind {after : Nat → Scan β} {read : Option (β × List Char)}
    (h : Follows text pos (after pos) read) : Follows text pos (place >>= after) read := h

theorem StandsAt.skipBlanks (h : StandsAt text pos cs) : Follows text pos (skipBlanks text)
    (some (decide (skipSpaces cs ≠ cs), skipSpaces cs)) := by
  refine Follows.place_bind ((h.skipWhile isAscii_isSpace).some_bind fun next hnext => ?_)
  have hmoved : decide (pos < next) = decide (skipSpaces cs ≠ cs) :=
    decide_eq_decide.2 (h.lt_iff hnext (List.dropWhile_sublist _))
  refine Follows.place_bind ?_
  rw [hmoved]
  exact Follows.pure hnext _

theorem StandsAt.word (h : StandsAt text pos cs) : Follows text pos (word text)
    (some (cs.takeWhile Char.isAlpha, cs.dropWhile Char.isAlpha)) := by
  refine Follows.place_bind ((h.skipWhile isAscii_isAlpha).some_bind fun next hnext => ?_)
  refine Follows.place_bind ?_
  rw [← List.takeWhile_append_dropWhile (p := Char.isAlpha) (l := cs)] at h
  exact Follows.lift hnext (h.slice hnext)

/-! ### Numbers -/

theorem StandsAt.digitsAhead (h : StandsAt text pos cs) : Follows text pos (digitsAhead text)
    (some ((cs.takeWhile Char.isDigit).length, cs)) := by
  have hbytes : bytesFrom text pos = .result (utf8 cs) := by
    obtain ⟨front, rfl, rfl⟩ := h
    exact bytesFrom_append front cs
  refine Follows.place_bind (Follows.lift_bind hbytes ?_)
  rw [length_takeWhile_byteIs isAscii_isDigit]
  exact Follows.pure h _

/-- Digits are cut out as they are. -/
theorem StandsAt.takeRun (h : StandsAt text pos (run ++ rest)) (hrun : AllDigits run) :
    Follows text pos (takeRun text run.length) (some (run, rest)) := by
  have hnext := h.append
  rw [byteLength_digits hrun] at hnext
  refine Follows.place_bind (Follows.lift_bind (h.slice hnext) ?_)
  have hmove : Follows text pos (moveTo text (pos + run.length)) (some ((), rest)) :=
    ⟨_, if_pos hnext.le, hnext⟩
  exact hmove.some_bind fun _ hbehind => Follows.pure hbehind run

/-- The least number that takes more digits than a word holds in any case. -/
theorem powerOfTen_le_patterns (h : count ≤ 19) : powerOfTen count ≤ Word.w64.patterns :=
  (Nat.pow_le_pow_right (by decide) h).trans (by decide)

/-- Up to nineteen digits are a number that fits. -/
theorem StandsAt.takeNumber (h : StandsAt text pos (run ++ rest)) (hrun : AllDigits run)
    (hne : run ≠ []) (hlength : run.length ≤ 19) :
    Follows text pos (takeNumber text run.length) (some (ofDigits run, rest)) := by
  have hlt : ofDigits run < Word.w64.patterns :=
    (ofDigits_lt hrun).trans_le (powerOfTen_le_patterns hlength)
  have hparse : Word.w64.parse? run = some (ofDigits run) := by
    rw [Word.parse?_digits hrun hne, Word.unsigned?_natCast hlt]
  refine (h.takeRun hrun).some_bind fun next hnext => ?_
  rw [hparse]
  exact Follows.lift hnext rfl

theorem allDigits_takeWhile (cs : List Char) : AllDigits (cs.takeWhile Char.isDigit) :=
  fun _ hc => List.all_eq_true.1 List.all_takeWhile _ hc

/-- Digits are too few for a number exactly if the run of them is shorter. -/
theorem fixedDigits_eq_none_iff :
    fixedDigits count cs = none ↔ (cs.takeWhile Char.isDigit).length < count := by
  constructor
  · intro hnone
    by_contra hlong
    have hrun : fixedDigits count cs = some (ofDigits ((cs.takeWhile Char.isDigit).take count),
        (cs.takeWhile Char.isDigit).drop count ++ cs.dropWhile Char.isDigit) := by
      refine fixedDigits_eq_some_iff.2 ⟨_, ?_, List.length_take_of_le (Nat.not_lt.1 hlong),
        fun c hc => allDigits_takeWhile cs c (List.mem_of_mem_take hc), rfl⟩
      rw [← List.append_assoc, List.take_append_drop, List.takeWhile_append_dropWhile]
    rw [hnone] at hrun
    cases hrun
  · intro hshort
    cases hread : fixedDigits count cs with
    | none => rfl
    | some found =>
      obtain ⟨run, rfl, rfl, hrun, -⟩ := fixedDigits_eq_some_iff.1 hread
      rw [List.takeWhile_append_of_pos hrun, List.length_append] at hshort
      omega

/-- **So many digits are read by a machine as by the reader.** -/
theorem StandsAt.fixed (h : StandsAt text pos cs) (hpos : 0 < count) (hcount : count ≤ 19) :
    Follows text pos (fixed text count) (fixedDigits count cs) := by
  refine h.digitsAhead.some_bind fun next hnext => ?_
  cases hread : fixedDigits count cs with
  | none =>
    rw [if_pos (fixedDigits_eq_none_iff.1 hread)]
    exact Follows.refuse
  | some found =>
    have hlong : ¬ (cs.takeWhile Char.isDigit).length < count := by
      rw [← fixedDigits_eq_none_iff, hread]
      exact Option.some_ne_none found
    obtain ⟨run, rfl, rfl, hrun, heq⟩ := fixedDigits_eq_some_iff.1 hread
    rw [if_neg hlong, ← Prod.eta found, heq]
    exact hnext.takeNumber hrun (List.ne_nil_of_length_pos hpos) hcount

/-- **All digits ahead are read by a machine as by the reader.** -/
theorem StandsAt.variableDigits (h : StandsAt text pos cs) (hmost : most ≤ 19) :
    Follows text pos (variableDigits text 1 most)
      ((digitRun most cs).map fun (run, rest) => (ofDigits run, rest)) := by
  refine h.digitsAhead.some_bind fun next hnext => ?_
  unfold digitRun
  by_cases hrun : cs.takeWhile Char.isDigit ≠ [] ∧ (cs.takeWhile Char.isDigit).length ≤ most
  · have hpos := List.length_pos_iff.2 hrun.1
    rw [if_pos hrun, if_neg (by omega), Option.map_some]
    rw [← List.takeWhile_append_dropWhile (p := Char.isDigit) (l := cs)] at hnext
    exact hnext.takeNumber (allDigits_takeWhile cs) hrun.1 (hrun.2.trans hmost)
  · rw [if_neg hrun, if_pos]
    · exact Follows.refuse
    · rw [not_and_or, not_not, ← List.length_eq_zero_iff] at hrun
      omega

theorem StandsAt.variableDigits_bind (h : StandsAt text pos cs) (hmost : most ≤ 19)
    {after : Nat → Scan β} {read : List Char × List Char → Option (β × List Char)}
    (hafter : ∀ run rest next, digitRun most cs = some (run, rest) → StandsAt text next rest →
      Follows text next (after (ofDigits run)) (read (run, rest))) :
    Follows text pos (Text.variableDigits text 1 most >>= after)
      ((digitRun most cs).bind read) := by
  have hnumber := h.variableDigits hmost
  cases hread : digitRun most cs with
  | none =>
    rw [hread] at hnumber
    exact hnumber.none_bind
  | some found =>
    rw [hread] at hnumber
    exact hnumber.some_bind fun next hnext => hafter found.1 found.2 next hread hnext

theorem digitRun_lt (h : digitRun most cs = some (run, rest)) : ofDigits run < powerOfTen most := by
  obtain ⟨-, hdigits, -, hlength, -⟩ := digitRun_eq_some_iff.1 h
  exact (ofDigits_lt hdigits).trans_le (Nat.pow_le_pow_right (by decide) hlength)

/-! ### Whole texts -/

theorem StandsAt.atEnd (h : StandsAt text pos cs) :
    Follows text pos (atEnd text) (some (decide (cs = []), cs)) := by
  refine ⟨pos, ?_, h⟩
  rw [Text.atEnd, decide_eq_decide.2 h.end_iff]

/-- What a reader gives if it leaves nothing. -/
def complete : Option (α × List Char) → Option α
  | some (a, []) => some a
  | _ => none

/-- A scan that must come to the end follows the reader that must leave nothing. -/
theorem Follows.toEnd (h : Follows text pos scan result) :
    Follows text pos (toEnd text scan) ((complete result).map (·, [])) := by
  have hend : Follows text pos (Text.toEnd text scan)
      (result.bind fun found => (complete (some found)).map (·, [])) := by
    refine h.bind fun a rest next _ hnext => hnext.atEnd.some_bind fun _ hbehind => ?_
    cases rest with
    | nil => exact Follows.pure hbehind a
    | cons c rest => exact Follows.refuse
  cases result with
  | none => exact hend
  | some found => exact hend

/-- **What a scan comes to is what the reader that it follows gives.** -/
theorem Follows.run_eq (h : Follows text 0 scan result) :
    scan.run = .ofOption (result.map Prod.fst) := by
  unfold Scan.run
  cases result with
  | none =>
    rw [show scan 0 = _ from h]
    rfl
  | some found =>
    obtain ⟨next, hscan, -⟩ := h
    rw [hscan]
    rfl

theorem Follows.run_toEnd (h : Follows text 0 scan result) :
    (Text.toEnd text scan).run = .ofOption (complete result) := by
  rw [h.toEnd.run_eq]
  cases complete result <;> rfl

end MessageScript.Text
