import MessageScript.Json.Basic
import MessageScript.Text.Hex
import MessageScript.Text.Reading

/-!
# Reading JSON

A text is read as a JSON value.  Where the text stops being JSON the value read so far ends in a
broken part (`Json.broken`), and nothing behind it is read.  Reading a part gives the value and the
text behind it, if it was read to its end.

The grammar is that of the standard, which `serde_json` keeps to: blanks are spaces, tabs, line
feeds and carriage returns; there are no comments and no commas behind the last item; a number has
no plus sign and no zeros in front; a string has no bare controls, and of the halves of a surrogate
pair neither stands alone; only blanks may follow the value.
-/

namespace MessageScript.Json

open Text

/-- A blank between the parts of a value. -/
def isSpace (c : Char) : Bool := c == ' ' || c == '\t' || c == '\n' || c == '\r'

/-- The text behind its leading blanks. -/
def skip (cs : List Char) : List Char := cs.dropWhile isSpace

/-! ## Strings -/

/-- A character of a string as it is spelled: itself, or a 16-bit unit of its encoding. -/
inductive Spelled where
  | char (c : Char)
  | unit (n : Nat)

/-- The character that a letter behind a backslash names. -/
def named? (letter : Char) : Option Char :=
  if letter = '"' ∨ letter = '\\' ∨ letter = '/' then some letter
  else if letter = 'b' then some '\x08'
  else if letter = 'f' then some '\x0c'
  else if letter = 'n' then some '\n'
  else if letter = 'r' then some '\r'
  else if letter = 't' then some '\t'
  else none

/-- Reads the characters of a string up to its closing quote. -/
def spelling? : List Char → Option (List Spelled × List Char)
  | [] => none
  | '"' :: rest => some ([], rest)
  | '\\' :: 'u' :: a :: b :: c :: d :: rest =>
    if [a, b, c, d].all isHexDigit then
      (spelling? rest).map fun (more, rest) => (.unit (ofHexDigits [a, b, c, d]) :: more, rest)
    else none
  | '\\' :: letter :: rest =>
    (named? letter).bind fun c =>
      (spelling? rest).map fun (more, rest) => (.char c :: more, rest)
  | c :: rest =>
    if c.toNat < 0x20 ∨ c = '\\' then none
    else (spelling? rest).map fun (more, rest) => (.char c :: more, rest)

/-- Whether a unit is the first of a pair. -/
def isHighUnit (n : Nat) : Bool := decide (0xD800 ≤ n ∧ n < 0xDC00)

/-- Whether a unit is the second of a pair. -/
def isLowUnit (n : Nat) : Bool := decide (0xDC00 ≤ n ∧ n < 0xE000)

/-- The text that a spelling denotes; units of a pair stand only together. -/
def spelledText? : List Spelled → Option (List Char)
  | [] => some []
  | .char c :: rest => (spelledText? rest).map (c :: ·)
  | .unit n :: .unit m :: rest =>
    if isHighUnit n then
      if isLowUnit m then
        (spelledText? rest).map
          (Char.ofNat (0x10000 + (n - 0xD800) * 0x400 + (m - 0xDC00)) :: ·)
      else none
    else if isLowUnit n then none
    else (spelledText? (.unit m :: rest)).map (Char.ofNat n :: ·)
  | .unit n :: rest =>
    if isHighUnit n || isLowUnit n then none
    else (spelledText? rest).map (Char.ofNat n :: ·)

/-- Reads a string behind its opening quote. -/
def string? (cs : List Char) : Option (Option String × List Char) :=
  (spelling? cs).map fun (spelled, rest) => ((spelledText? spelled).map String.ofList, rest)

/-! ## Numbers -/

/-- Reads digits, at least one. -/
def someDigits? (cs : List Char) : Option (List Char × List Char) := digitRun cs.length cs

/-- Reads the digits in front of the point: no zero in front of other digits. -/
def wholeDigits? (cs : List Char) : Option (List Char × List Char) :=
  match someDigits? cs with
  | some (run, rest) => if run.head? = some '0' ∧ 1 < run.length then none else some (run, rest)
  | none => none

/-- Reads a point and digits, or nothing. -/
def fractionPart? (cs : List Char) : Option (List Char × List Char) :=
  match eat '.' cs with
  | none => some ([], cs)
  | some rest => (someDigits? rest).map fun (run, rest) => ('.' :: run, rest)

/-- Reads an exponent, or nothing. -/
def exponentPart? (cs : List Char) : Option (List Char × List Char) :=
  match cs with
  | [] => some ([], [])
  | mark :: rest =>
    if mark = 'e' ∨ mark = 'E' then
      let sign := rest.takeWhile (fun c => c == '+' || c == '-') |>.take 1
      (someDigits? (rest.drop sign.length)).map fun (run, rest) => (mark :: sign ++ run, rest)
    else some ([], cs)

/-- Reads a number without its sign. -/
def unsignedNumber? (cs : List Char) : Option (List Char × List Char) := do
  let (whole, cs) ← wholeDigits? cs
  let (fraction, cs) ← fractionPart? cs
  let (exponent, cs) ← exponentPart? cs
  return (whole ++ fraction ++ exponent, cs)

/-- Reads a number. -/
def number? (cs : List Char) : Option (List Char × List Char) :=
  match eat '-' cs with
  | some rest => (unsignedNumber? rest).map fun (run, rest) => ('-' :: run, rest)
  | none => unsignedNumber? cs

/-! ## Lengths -/

theorem length_lt_of_skip {cs rest : List Char} {c : Char} (h : skip cs = c :: rest) :
    rest.length < cs.length := by
  have := length_dropWhile_le isSpace cs
  rw [show cs.dropWhile isSpace = c :: rest from h] at this
  exact this

theorem length_lt_of_spelling? {cs rest : List Char} {spelled : List Spelled}
    (h : spelling? cs = some (spelled, rest)) : rest.length < cs.length := by
  fun_induction spelling? cs generalizing spelled with
  | case1 => simp at h
  | case2 => cases h; simp
  | case3 a b c d cs _ ih =>
    obtain ⟨⟨more, r⟩, hr, h⟩ := Option.map_eq_some_iff.1 h
    cases h
    have := ih hr
    simp only [List.length_cons]
    omega
  | case4 => simp at h
  | case5 letter cs _ ih =>
    obtain ⟨c, -, h⟩ := Option.bind_eq_some_iff.1 h
    obtain ⟨⟨more, r⟩, hr, h⟩ := Option.map_eq_some_iff.1 h
    cases h
    have := ih hr
    simp only [List.length_cons]
    omega
  | case6 => simp at h
  | case7 c cs _ _ _ _ ih =>
    obtain ⟨⟨more, r⟩, hr, h⟩ := Option.map_eq_some_iff.1 h
    cases h
    have := ih hr
    simp only [List.length_cons]
    omega

theorem length_lt_of_string? {cs rest : List Char} {s : Option String}
    (h : string? cs = some (s, rest)) : rest.length < cs.length := by
  obtain ⟨⟨spelled, r⟩, hr, h⟩ := Option.map_eq_some_iff.1 h
  cases h
  exact length_lt_of_spelling? hr

theorem length_lt_of_someDigits? {cs run rest : List Char} (h : someDigits? cs = some (run, rest)) :
    rest.length < cs.length :=
  length_lt_of_digitRun h

theorem length_lt_of_wholeDigits? {cs run rest : List Char}
    (h : wholeDigits? cs = some (run, rest)) : rest.length < cs.length := by
  unfold wholeDigits? at h
  split at h
  · next run' rest' hrun =>
    split at h
    · simp at h
    · cases h
      exact length_lt_of_someDigits? hrun
  · simp at h

theorem length_le_of_fractionPart? {cs run rest : List Char}
    (h : fractionPart? cs = some (run, rest)) : rest.length ≤ cs.length := by
  unfold fractionPart? at h
  split at h
  · cases h
    exact Nat.le_refl _
  · next rest' heat =>
    obtain ⟨⟨run', r⟩, hr, h⟩ := Option.map_eq_some_iff.1 h
    cases h
    have := length_lt_of_eat heat
    have := length_lt_of_someDigits? hr
    omega

theorem length_le_of_exponentPart? {cs run rest : List Char}
    (h : exponentPart? cs = some (run, rest)) : rest.length ≤ cs.length := by
  unfold exponentPart? at h
  split at h
  · cases h
    exact Nat.le_refl _
  · next mark rest' =>
    split at h
    · obtain ⟨⟨run', r⟩, hr, h⟩ := Option.map_eq_some_iff.1 h
      cases h
      have := length_lt_of_someDigits? hr
      simp only [List.length_drop] at this
      simp only [List.length_cons]
      omega
    · cases h
      exact Nat.le_refl _

theorem length_lt_of_unsignedNumber? {cs run rest : List Char}
    (h : unsignedNumber? cs = some (run, rest)) : rest.length < cs.length := by
  unfold unsignedNumber? at h
  simp only [Option.bind_eq_bind, Option.bind_eq_some_iff, Prod.exists, pure, Option.some.injEq,
    Prod.mk.injEq] at h
  obtain ⟨whole, afterWhole, h1, fraction, afterFraction, h2, exponent, afterExponent, h3, -, rfl⟩ :=
    h
  have := length_lt_of_wholeDigits? h1
  have := length_le_of_fractionPart? h2
  have := length_le_of_exponentPart? h3
  omega

theorem length_lt_of_number? {cs run rest : List Char} (h : number? cs = some (run, rest)) :
    rest.length < cs.length := by
  unfold number? at h
  split at h
  · next rest' heat =>
    obtain ⟨⟨run', r⟩, hr, h⟩ := Option.map_eq_some_iff.1 h
    cases h
    have := length_lt_of_eat heat
    have := length_lt_of_unsignedNumber? hr
    omega
  · exact length_lt_of_unsignedNumber? h

/-! ## Values -/

/-- A text shorter than `n` characters: what is behind a part of a text of that length. -/
abbrev Shorter (n : Nat) := { rest : List Char // rest.length < n }

/-- A shorter text, seen as behind a part of a longer one. -/
def Shorter.widen {m n : Nat} (h : m ≤ n) (rest : Shorter m) : Shorter n :=
  ⟨rest.1, Nat.lt_of_lt_of_le rest.2 h⟩

/-- The three words that are values. -/
def word? (cs : List Char) : Option (Json × List Char) :=
  if "null".toList.isPrefixOf cs then some (null, cs.drop 4)
  else if "true".toList.isPrefixOf cs then some (bool true, cs.drop 4)
  else if "false".toList.isPrefixOf cs then some (bool false, cs.drop 5)
  else none

theorem length_lt_of_word? {cs rest : List Char} {v : Json} (h : word? cs = some (v, rest)) :
    rest.length < cs.length := by
  have key : ∀ {w : List Char} {n : Nat}, w.length = n → 0 < n → w.isPrefixOf cs = true →
      (cs.drop n).length < cs.length := by
    intro w n hw hn hp
    have := (List.isPrefixOf_iff_prefix.1 hp).length_le
    simp only [List.length_drop]
    omega
  unfold word? at h
  split at h
  · next hp => cases h; exact key rfl (by decide) hp
  · split at h
    · next hp => cases h; exact key rfl (by decide) hp
    · split at h
      · next hp => cases h; exact key rfl (by decide) hp
      · simp at h

/-- Reads a value that is neither an array nor an object, from a text of at most `n` characters. -/
def readScalar {n : Nat} (cs : List Char) (hcs : cs.length ≤ n) : Json × Option (Shorter n) :=
  match _h : (eat '"' cs).bind string? with
  | some (s, rest) =>
    (string s, some ⟨rest, by
      obtain ⟨cs', heat, hs⟩ := Option.bind_eq_some_iff.1 _h
      have := length_lt_of_eat heat
      have := length_lt_of_string? hs
      omega⟩)
  | none =>
    match _h : word? cs with
    | some (v, rest) => (v, some ⟨rest, Nat.lt_of_lt_of_le (length_lt_of_word? _h) hcs⟩)
    | none =>
      match _h : number? cs with
      | some (run, rest) =>
        (number run, some ⟨rest, Nat.lt_of_lt_of_le (length_lt_of_number? _h) hcs⟩)
      | none => (broken, none)

/-- Reads the name of a member and the colon behind it. -/
def readName (cs : List Char) : Option (Option String × Shorter cs.length) :=
  match _h : skip cs with
  | [] => none
  | c :: rest =>
    if c = '"' then
      match _hs : string? rest with
      | none => none
      | some (name, rest') =>
        match _hc : skip rest' with
        | ':' :: rest'' =>
          some (name, ⟨rest'', by
            have := length_lt_of_skip _h
            have := length_lt_of_string? _hs
            have := length_lt_of_skip _hc
            omega⟩)
        | _ => none
    else none

mutual

/-- Reads a value. -/
def readValue (cs : List Char) : Json × Option (Shorter cs.length) :=
  match _h : skip cs with
  | [] => (broken, none)
  | c :: rest =>
    have hrest := length_lt_of_skip _h
    if c = '[' then
      match _h : skip rest with
      | ']' :: rest' => (array [], some ⟨rest', Nat.lt_trans (length_lt_of_skip _h) hrest⟩)
      | _ =>
        let read := readItems rest
        (array read.1, read.2.map (Shorter.widen (Nat.le_of_lt hrest)))
    else if c = '\x7b' then
      match _h : skip rest with
      | '\x7d' :: rest' => (object [], some ⟨rest', Nat.lt_trans (length_lt_of_skip _h) hrest⟩)
      | _ =>
        let read := readMembers rest
        (object read.1, read.2.map (Shorter.widen (Nat.le_of_lt hrest)))
    else readScalar (c :: rest) (Nat.succ_le_of_lt hrest)
  termination_by (cs.length, 0)

/-- Reads the items of an array, at least one, and its closing bracket. -/
def readItems (cs : List Char) : List Json × Option (Shorter cs.length) :=
  match readValue cs with
  | (item, none) => ([item], none)
  | (item, some ⟨rest, hrest⟩) =>
    match _h : skip rest with
    | ',' :: rest' =>
      have hrest' := Nat.lt_trans (length_lt_of_skip _h) hrest
      let read := readItems rest'
      (item :: read.1, read.2.map (Shorter.widen (Nat.le_of_lt hrest')))
    | ']' :: rest' => ([item], some ⟨rest', Nat.lt_trans (length_lt_of_skip _h) hrest⟩)
    | _ => ([item, broken], none)
  termination_by (cs.length, 1)

/-- Reads the members of an object, at least one, and its closing brace. -/
def readMembers (cs : List Char) : List (Option String × Json) × Option (Shorter cs.length) :=
  match readName cs with
  | none => ([(none, broken)], none)
  | some (name, ⟨rest, hrest⟩) =>
    match readValue rest with
    | (value, none) => ([(name, value)], none)
    | (value, some ⟨rest', hrest'⟩) =>
      have hrest' := Nat.lt_trans hrest' hrest
      match _h : skip rest' with
      | ',' :: rest'' =>
        have hrest'' := Nat.lt_trans (length_lt_of_skip _h) hrest'
        let read := readMembers rest''
        ((name, value) :: read.1, read.2.map (Shorter.widen (Nat.le_of_lt hrest'')))
      | '\x7d' :: rest'' =>
        ([(name, value)], some ⟨rest'', Nat.lt_trans (length_lt_of_skip _h) hrest'⟩)
      | _ => ([(name, value), (none, broken)], none)
  termination_by (cs.length, 1)

end

/-- A value read from a text, and whether the text holds nothing behind it. -/
def read (text : String) : Json × Bool :=
  match readValue text.toList with
  | (v, none) => (v, false)
  | (v, some rest) => (v, (skip rest.1).isEmpty)

end MessageScript.Json
