import Mathlib.Data.List.TakeWhile
import MessageScript.Proofs.Text.Reading

/-!
# Texts as bytes

A machine keeps a text as UTF-8 bytes, counts places in it in bytes, and computes in words.  A place
behind the end or inside a character, or a number that does not fit its word, is a fault there
(`Fault`).  Only an ASCII character is one byte, and the other characters start with no ASCII byte.

    splitBytes (byteLength front) (front ++ rest) = .result (front, rest)        (splitBytes_append)
    slice (front ++ (run ++ rest)) … = .result run                                    (slice_append)
    IsAscii p → ((utf8 cs).takeWhile (byteIs p)).length = (cs.takeWhile p).length
                                                                       (length_takeWhile_byteIs)
-/

namespace MessageScript.Text

/-! ## Outcomes -/

/-- What a step of a machine must not do: go past an end, cut a character, compute a number that
does not fit its word, or divide by zero. -/
inductive Fault where
  | outOfBounds
  | insideCharacter
  | overflow
  | zeroDivisor
  deriving DecidableEq, Repr

/-- What a computation of a machine comes to. -/
inductive Outcome (α : Type) where
  | fault (f : Fault)
  | refusal
  | result (a : α)
  deriving DecidableEq, Repr

namespace Outcome

/-- A result, or a refusal where there is none. -/
def ofOption {α : Type} : Option α → Outcome α
  | none => refusal
  | some a => result a

/-- One computation and, if it gives a result, another. -/
def andThen {α β : Type} (first : Outcome α) (next : α → Outcome β) : Outcome β :=
  match first with
  | fault f => fault f
  | refusal => refusal
  | result a => next a

instance : Monad Outcome where
  pure := result
  bind := andThen

@[simp] theorem result_bind {α β : Type} (a : α) (next : α → Outcome β) :
    (result a >>= next) = next a := rfl

@[simp] theorem ofOption_some_bind {α β : Type} (a : α) (next : α → Outcome β) :
    (ofOption (some a) >>= next) = next a := rfl

end Outcome

/-- The words that are computed in. -/
inductive Word where
  | w32
  | w64
  | w128

namespace Word

/-- The number of patterns of a word. -/
def patterns : Word → Nat
  | w32 => 0x1_0000_0000
  | w64 => 0x1_0000_0000_0000_0000
  | w128 => 0x1_0000_0000_0000_0000_0000_0000_0000_0000

/-- Half the number of patterns, those of the numbers that are not below zero. -/
def half : Word → Nat
  | w32 => 0x8000_0000
  | w64 => 0x8000_0000_0000_0000
  | w128 => 0x8000_0000_0000_0000_0000_0000_0000_0000

/-- Whether an integer fits a signed word. -/
def Holds (w : Word) (n : Int) : Prop := -(w.half : Int) ≤ n ∧ n < w.half

instance (w : Word) (n : Int) : Decidable (w.Holds n) := inferInstanceAs (Decidable (_ ∧ _))

/-- The result of a computation in unsigned words. -/
def unsigned (w : Word) (n : Nat) : Outcome Nat :=
  if n < w.patterns then .result n else .fault .overflow

/-- The result of a computation in signed words. -/
def signed (w : Word) (n : Int) : Outcome Int :=
  if w.Holds n then .result n else .fault .overflow

/-- A number as an unsigned word, if it fits. -/
def unsigned? (w : Word) (n : Int) : Option Nat :=
  if 0 ≤ n ∧ n < w.patterns then some n.toNat else none

/-- A number as a signed word, if it fits. -/
def signed? (w : Word) (n : Int) : Option Int := if w.Holds n then some n else none

/-- The unsigned word that a text is in digits, a plus sign in front being allowed. -/
def parse? (w : Word) (cs : List Char) : Option Nat :=
  let run := (eat '+' cs).getD cs
  if run ≠ [] ∧ run.all Char.isDigit then w.unsigned? (ofDigits run) else none

end Word

/-- The quotient of a division and what is left. -/
def divide (n d : Nat) : Outcome (Nat × Nat) :=
  if d = 0 then .fault .zeroDivisor else .result (n / d, n % d)

/-! ## Places -/

/-- The bytes of a text. -/
def utf8 (cs : List Char) : List UInt8 := cs.flatMap String.utf8EncodeChar

/-- The number of bytes of a text. -/
def byteLength (cs : List Char) : Nat := (utf8 cs).length

/-- Whether a byte is an ASCII character with a property. -/
def byteIs (p : Char → Bool) (b : UInt8) : Bool := p (Char.ofUInt8 b)

/-- A text split at a place. -/
def splitBytes : Nat → List Char → Outcome (List Char × List Char)
  | 0, cs => return ([], cs)
  | _ + 1, [] => .fault .outOfBounds
  | n + 1, c :: cs =>
    if c.utf8Size ≤ n + 1 then do
      let (front, rest) ← splitBytes (n + 1 - c.utf8Size) cs
      return (c :: front, rest)
    else .fault .insideCharacter

/-- The part of a text from one place to another. -/
def slice (cs : List Char) (first last : Nat) : Outcome (List Char) := do
  let (front, _) ← splitBytes last cs
  let (_, run) ← splitBytes first front
  return run

/-- The bytes of a text from a place. -/
def bytesFrom (cs : List Char) (first : Nat) : Outcome (List UInt8) :=
  if first ≤ byteLength cs then .result ((utf8 cs).drop first) else .fault .outOfBounds

variable {α : Type} {c : Char} {cs run front rest : List Char} {p : Char → Bool} {w : Word}
  {n most : Nat} {m : Int}

/-! ## Lemmas -/

theorem Word.unsigned_eq (h : n < w.patterns) : w.unsigned n = .result n := if_pos h

theorem Word.unsigned?_natCast (h : n < w.patterns) : w.unsigned? n = some n :=
  if_pos ⟨Int.natCast_nonneg n, Int.ofNat_lt.2 h⟩

theorem Word.unsigned?_eq_none (h : w.patterns ≤ n) : w.unsigned? n = none :=
  if_neg fun hfits => Nat.not_lt.2 h (Int.ofNat_lt.1 hfits.2)

theorem Word.signed_eq (h : w.Holds m) : w.signed m = .result m := if_pos h

theorem Word.signed?_eq (h : w.Holds m) : w.signed? m = some m := if_pos h

theorem Word.holds_natCast (h : n < w.half) : w.Holds n := ⟨by omega, Int.ofNat_lt.2 h⟩

/-- A run of digits is the number that they denote, if it fits. -/
theorem Word.parse?_digits (hrun : AllDigits run) (hne : run ≠ []) :
    w.parse? run = w.unsigned? (ofDigits run) := by
  have hplus : eat '+' run = none := by
    have heat := eat_digits (c := '+') (by decide) hrun hne []
    rwa [List.append_nil] at heat
  unfold Word.parse?
  simp only [hplus, Option.getD_none]
  rw [if_pos ⟨hne, List.all_eq_true.2 hrun⟩]

/-! ### Characters -/

theorem utf8_append (cs rest : List Char) : utf8 (cs ++ rest) = utf8 cs ++ utf8 rest :=
  List.flatMap_append

theorem byteLength_append (cs rest : List Char) :
    byteLength (cs ++ rest) = byteLength cs + byteLength rest := by
  rw [byteLength, utf8_append, List.length_append]
  rfl

theorem byteLength_cons (c : Char) (cs : List Char) :
    byteLength (c :: cs) = c.utf8Size + byteLength cs := by
  rw [← List.singleton_append, byteLength_append]
  congr 1
  exact (congrArg List.length (List.flatMap_singleton _ _)).trans (String.length_utf8EncodeChar c)

theorem byteLength_pos (h : cs ≠ []) : 0 < byteLength cs := by
  cases cs with
  | nil => exact absurd rfl h
  | cons c cs =>
    rw [byteLength_cons]
    exact Nat.lt_add_right _ c.utf8Size_pos

theorem utf8Size_eq_one (h : c.toNat < 128) : c.utf8Size = 1 :=
  Char.utf8Size_eq_one_iff.2 (UInt32.le_iff_toNat_le.2 (Nat.le_of_lt_succ h))

/-- An ASCII character is one byte. -/
theorem utf8_cons_of_ascii (h : c.toNat < 128) (cs : List Char) :
    utf8 (c :: cs) = c.toUInt8 :: utf8 cs := by
  rw [utf8, List.flatMap_cons, String.utf8EncodeChar_eq_singleton (utf8Size_eq_one h)]
  rfl

theorem le_toNat_or {low high : UInt8} (h : 128 ≤ high.toNat) : 128 ≤ (low ||| high).toNat := by
  rw [UInt8.toNat_or]
  exact h.trans Nat.right_le_or

/-- Another character starts with a byte that is not ASCII. -/
theorem exists_utf8_cons (h : 128 ≤ c.toNat) (cs : List Char) :
    ∃ b bs, utf8 (c :: cs) = b :: bs ∧ 128 ≤ b.toNat := by
  rw [utf8, List.flatMap_cons]
  obtain hsize | hsize | hsize | hsize := Char.utf8Size_eq c
  · have hle : c.toNat ≤ 127 := UInt32.le_iff_toNat_le.1 (Char.utf8Size_eq_one_iff.1 hsize)
    omega
  · rw [String.utf8EncodeChar_eq_cons_cons hsize]
    exact ⟨_, _, rfl, le_toNat_or (by decide)⟩
  · rw [String.utf8EncodeChar_eq_cons_cons_cons hsize]
    exact ⟨_, _, rfl, le_toNat_or (by decide)⟩
  · rw [String.utf8EncodeChar_eq_cons_cons_cons_cons hsize]
    exact ⟨_, _, rfl, le_toNat_or (by decide)⟩

/-! ### ASCII properties -/

/-- Whether only ASCII characters have a property. -/
def IsAscii (p : Char → Bool) : Prop := ∀ c, p c = true → c.toNat < 128

theorem ofUInt8_toUInt8 (h : c.toNat < 128) : Char.ofUInt8 c.toUInt8 = c := by
  refine Char.ext (UInt32.toNat_inj.1 ?_)
  have hval : c.val.toNat % 256 = c.val.toNat := Nat.mod_eq_of_lt (Nat.lt_trans h (by decide))
  show c.toUInt8.toUInt32.toNat = c.val.toNat
  rwa [UInt8.toNat_toUInt32, Char.toUInt8, UInt32.toNat_toUInt8]

/-- The first byte of a character has the property if the character has. -/
theorem byteIs_head (hp : IsAscii p) (c : Char) (cs : List Char) :
    ∃ b bs, utf8 (c :: cs) = b :: bs ∧ byteIs p b = p c ∧ (p c = true → bs = utf8 cs) := by
  by_cases hc : c.toNat < 128
  · refine ⟨c.toUInt8, utf8 cs, utf8_cons_of_ascii hc cs, ?_, fun _ => rfl⟩
    rw [byteIs, ofUInt8_toUInt8 hc]
  · obtain ⟨b, bs, hbs, hb⟩ := exists_utf8_cons (Nat.not_lt.1 hc) cs
    have hfalse : p c = false := Bool.eq_false_iff.2 fun h => hc (hp c h)
    have hbyte : byteIs p b = false := Bool.eq_false_iff.2 fun h => Nat.not_lt.2 hb (hp _ h)
    exact ⟨b, bs, hbs, hbyte.trans hfalse.symm, fun h => absurd (hp c h) hc⟩

/-- Bytes and characters with the property are as many. -/
theorem length_takeWhile_byteIs (hp : IsAscii p) (cs : List Char) :
    ((utf8 cs).takeWhile (byteIs p)).length = (cs.takeWhile p).length := by
  induction cs with
  | nil => rfl
  | cons c cs ih =>
    obtain ⟨b, bs, hbs, hb, hrest⟩ := byteIs_head hp c cs
    rw [hbs]
    cases hc : p c with
    | false =>
      rw [hc] at hb
      rw [List.takeWhile_cons_of_neg (by rw [hb]; decide),
        List.takeWhile_cons_of_neg (by rw [hc]; decide)]
      rfl
    | true =>
      rw [hc] at hb
      rw [hrest hc, List.takeWhile_cons_of_pos hb, List.takeWhile_cons_of_pos hc,
        List.length_cons, List.length_cons, ih]

/-- All bytes have the property if all characters have. -/
theorem all_byteIs (hp : IsAscii p) (cs : List Char) : (utf8 cs).all (byteIs p) = cs.all p := by
  induction cs with
  | nil => rfl
  | cons c cs ih =>
    obtain ⟨b, bs, hbs, hb, hrest⟩ := byteIs_head hp c cs
    rw [hbs, List.all_cons, List.all_cons, hb]
    cases hc : p c with
    | false => rw [Bool.false_and, Bool.false_and]
    | true => rw [hrest hc, ih]

theorem byteLength_eq_length (h : ∀ c ∈ run, c.toNat < 128) : byteLength run = run.length := by
  induction run with
  | nil => rfl
  | cons c run ih =>
    obtain ⟨hc, hrun⟩ := List.forall_mem_cons.1 h
    rw [byteLength_cons, utf8Size_eq_one hc, ih hrun, List.length_cons, Nat.add_comm]

theorem isAscii_isDigit : IsAscii Char.isDigit := by
  intro c h
  simp only [Char.isDigit, Bool.and_eq_true, decide_eq_true_eq, ge_iff_le,
    UInt32.le_iff_toNat_le] at h
  have hle : c.toNat ≤ 57 := h.2
  omega

theorem byteLength_digits (h : AllDigits run) : byteLength run = run.length :=
  byteLength_eq_length fun c hc => isAscii_isDigit c (h c hc)

theorem divide_eq {d : Nat} (h : 0 < d) (n : Nat) : divide n d = .result (n / d, n % d) :=
  if_neg (Nat.ne_of_gt h)

/-! ### Slices -/

/-- Behind a front part, a text is split. -/
theorem splitBytes_append (front rest : List Char) :
    splitBytes (byteLength front) (front ++ rest) = .result (front, rest) := by
  induction front with
  | nil =>
    exact splitBytes.eq_1 rest
  | cons c front ih =>
    have hpos := c.utf8Size_pos
    rw [byteLength_cons, List.cons_append]
    obtain ⟨n, hn⟩ : ∃ n, c.utf8Size + byteLength front = n + 1 :=
      ⟨c.utf8Size + byteLength front - 1, by omega⟩
    rw [hn, splitBytes, ← hn, if_pos (Nat.le_add_right _ _), Nat.add_sub_cancel_left, ih]
    rfl

theorem bytesFrom_append (front rest : List Char) :
    bytesFrom (front ++ rest) (byteLength front) = .result (utf8 rest) := by
  have hle : byteLength front ≤ byteLength (front ++ rest) := by
    rw [byteLength_append]
    exact Nat.le_add_right _ _
  rw [bytesFrom, if_pos hle, utf8_append, byteLength, List.drop_left]

theorem slice_append (front run rest : List Char) :
    slice (front ++ (run ++ rest)) (byteLength front) (byteLength front + byteLength run) =
      .result run := by
  unfold slice
  rw [← byteLength_append, ← List.append_assoc, splitBytes_append, Outcome.result_bind]
  dsimp only
  rw [splitBytes_append, Outcome.result_bind]
  rfl

example : slice ['é', 's'] 1 3 = .fault .insideCharacter := rfl

end MessageScript.Text
