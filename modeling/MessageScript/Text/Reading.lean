import MessageScript.Text.Decimal

/-!
# Reading a text from the front

The steps from which grammars are read.  Each takes what it is after off the front of a text and
gives the rest, or refuses.  Digits and blanks are ASCII.
-/

namespace MessageScript.Text

/-- The text behind the character `c` in front. -/
def eat (c : Char) : List Char → Option (List Char)
  | [] => none
  | d :: rest => if d = c then some rest else none

/-- A number of exactly `count` digits, whatever follows. -/
def fixedDigits (count : Nat) (cs : List Char) : Option (Nat × List Char) :=
  let run := cs.take count
  if run.length = count ∧ run.all Char.isDigit then some (ofDigits run, cs.drop count) else none

/-- The digits in front, at least one and at most `most`, all of them. -/
def digitRun (most : Nat) (cs : List Char) : Option (List Char × List Char) :=
  let run := cs.takeWhile Char.isDigit
  if run ≠ [] ∧ run.length ≤ most then some (run, cs.dropWhile Char.isDigit) else none

/-- The text behind its leading blanks. -/
def skipSpaces (cs : List Char) : List Char :=
  cs.dropWhile fun c => c == ' ' || c == '\t' || c == '\n' || c == '\x0c' || c == '\r'

/-! ## Lemmas -/

theorem length_dropWhile_le {α : Type} (p : α → Bool) (xs : List α) :
    (xs.dropWhile p).length ≤ xs.length :=
  (List.dropWhile_sublist p).length_le

theorem length_skipSpaces_le (cs : List Char) : (skipSpaces cs).length ≤ cs.length :=
  length_dropWhile_le _ cs

theorem length_lt_of_eat {c : Char} {cs rest : List Char} (h : eat c cs = some rest) :
    rest.length < cs.length := by
  cases cs with
  | nil => simp [eat] at h
  | cons d ds =>
    simp only [eat] at h
    split at h
    · cases h; simp
    · simp at h

/-- A run of digits is not empty, so what is behind it is shorter. -/
theorem length_lt_of_digitRun {most : Nat} {cs run rest : List Char}
    (h : digitRun most cs = some (run, rest)) : rest.length < cs.length := by
  unfold digitRun at h
  simp only at h
  split at h
  · next hrun =>
    cases h
    cases cs with
    | nil => simp at hrun
    | cons d ds =>
      have hd : d.isDigit = true := by
        rcases hd : d.isDigit with _ | _
        · simp [hd] at hrun
        · rfl
      have := length_dropWhile_le Char.isDigit ds
      simp only [List.dropWhile_cons, hd, if_true, List.length_cons]
      omega
  · simp at h

end MessageScript.Text
