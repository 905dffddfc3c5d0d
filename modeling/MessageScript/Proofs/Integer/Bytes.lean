import Mathlib.Data.List.Basic
import Mathlib.Data.Nat.Digits.Defs
import Mathlib.Tactic.Linarith
import Mathlib.Tactic.Ring
import MessageScript.Integer.Bytes

/-!
# Bytes and the integers they store

A sequence of bytes of any length is a number in base 256, and one in two's complement
(`unsignedValue`, `signedValue`).  Reading at a width gives the number of the whole sequence if the
width holds it, and refuses the sequence if not: the surplus bytes repeat the sign exactly then.

    bs ≠ [] → decode bs ⟨signed, w⟩ =
      if ⟨signed, w⟩.Holds (value signed bs) then some (value signed bs) else none     (decode_eq)
    ⟨signed, w⟩.Holds n → decode (encode w n) ⟨signed, v⟩ =
      if ⟨signed, v⟩.Holds n then some n else none                                 (decode_encode)
    decode (bytes of the sign ++ bs) ⟨signed, w⟩ = decode bs ⟨signed, w⟩         (decode_extended)
-/

namespace MessageScript.Bytes

variable {bs cs s rest : List UInt8} {first : UInt8} {w : Width} {n : Int}

/-! ## The numbers of a sequence -/

/-- The number that a sequence of bytes is in base 256, most significant byte first. -/
def unsignedValue (bs : List UInt8) : Nat := Nat.ofDigits 256 (bs.reverse.map UInt8.toNat)

/-- The number that a sequence of bytes is in two's complement: of the numbers that leave the same
remainder by the count of patterns, the one in the range around zero. -/
def signedValue (bs : List UInt8) : Int := Int.bmod (unsignedValue bs) (256 ^ bs.length)

theorem unsignedValue_append (bs rest : List UInt8) :
    unsignedValue (bs ++ rest) = unsignedValue bs * 256 ^ rest.length + unsignedValue rest := by
  rw [unsignedValue, List.reverse_append, List.map_append, Nat.ofDigits_append, List.length_map,
    List.length_reverse, Nat.add_comm, Nat.mul_comm]
  rfl

theorem unsignedValue_singleton (b : UInt8) : unsignedValue [b] = b.toNat := Nat.ofDigits_singleton

theorem unsignedValue_cons (b : UInt8) (bs : List UInt8) :
    unsignedValue (b :: bs) = b.toNat * 256 ^ bs.length + unsignedValue bs := by
  rw [← List.singleton_append, unsignedValue_append, unsignedValue_singleton]

theorem digits_lt (bs : List UInt8) : ∀ d ∈ bs.reverse.map UInt8.toNat, d < 256 := by
  intro d hd
  obtain ⟨b, -, rfl⟩ := List.mem_map.1 hd
  exact b.toNat_lt

theorem unsignedValue_lt (bs : List UInt8) : unsignedValue bs < 256 ^ bs.length := by
  have hlt := Nat.ofDigits_lt_base_pow_length (by decide) (digits_lt bs)
  rw [List.length_map, List.length_reverse] at hlt
  exact hlt

/-- Sequences of one length are told apart by their numbers. -/
theorem unsignedValue_inj (hlength : bs.length = cs.length) :
    unsignedValue bs = unsignedValue cs ↔ bs = cs := by
  refine ⟨fun h => ?_, congrArg unsignedValue⟩
  have hdigits := Nat.ofDigits_inj_of_len_eq (by decide)
    (by rw [List.length_map, List.length_map, List.length_reverse, List.length_reverse, hlength])
    (digits_lt bs) (digits_lt cs) h
  exact List.reverse_inj.1 (List.map_injective_iff.2 (fun _ _ => UInt8.toNat_inj.1) hdigits)

theorem bigEndian_eq (bs : List UInt8) : bigEndian bs = unsignedValue bs := by
  have hfold : ∀ start : Nat, bs.foldl (fun n b => 256 * n + b.toNat) start =
      start * 256 ^ bs.length + unsignedValue bs := by
    induction bs with
    | nil => intro start; rw [List.length_nil, pow_zero, Nat.mul_one]; rfl
    | cons b bs ih =>
      intro start
      rw [List.foldl_cons, ih, unsignedValue_cons, List.length_cons]
      ring
  rw [bigEndian, hfold, Nat.zero_mul, Nat.zero_add]

/-- The first byte tells on which half of the range the number is. -/
theorem first_lt_iff (first : UInt8) (rest : List UInt8) : first < 0x80 ↔
    2 * unsignedValue (first :: rest) < 256 ^ (first :: rest).length := by
  have hrest := unsignedValue_lt rest
  rw [UInt8.lt_iff_toNat_lt, unsignedValue_cons, List.length_cons, pow_succ]
  have hbound : (0x80 : UInt8).toNat = 128 := rfl
  rw [hbound]
  constructor
  · intro h
    have hfirst : first.toNat * 256 ^ rest.length ≤ 127 * 256 ^ rest.length :=
      Nat.mul_le_mul_right _ (by omega)
    omega
  · intro h
    by_contra hge
    have hfirst : 128 * 256 ^ rest.length ≤ first.toNat * 256 ^ rest.length :=
      Nat.mul_le_mul_right _ (by omega)
    omega

/-- What a first byte says of the sign, as the number of the bytes that may stand in front of it. -/
def signDigit (first : UInt8) : Int := if first < 0x80 then 0 else -1

theorem signedValue_cons (first : UInt8) (rest : List UInt8) : signedValue (first :: rest) =
    signDigit first * (256 ^ (first :: rest).length : Nat) + unsignedValue (first :: rest) := by
  have hlt := unsignedValue_lt (first :: rest)
  have hhalf := first_lt_iff first rest
  have hpos : 0 < 256 ^ (first :: rest).length := Nat.lt_of_le_of_lt (Nat.zero_le _) hlt
  rw [signedValue, Int.bmod_eq_iff hpos]
  generalize 256 ^ (first :: rest).length = patterns at *
  generalize unsignedValue (first :: rest) = number at *
  unfold signDigit
  split
  · next hfirst =>
    rw [hhalf] at hfirst
    exact ⟨by omega, by omega, 0, by omega⟩
  · next hfirst =>
    rw [hhalf] at hfirst
    exact ⟨by omega, by omega, -1, by omega⟩

theorem twosComplement_eq (bs : List UInt8) : twosComplement bs = signedValue bs := by
  cases bs with
  | nil => rfl
  | cons first rest =>
    have hpow : Nat.pow 256 (first :: rest).length = 256 ^ (first :: rest).length := rfl
    rw [signedValue_cons, twosComplement, bigEndian_eq, hpow, signDigit]
    split <;> omega

/-- Bytes in front count as a number of their own, on the places behind the others. -/
theorem signedValue_append (hs : s ≠ []) (bs : List UInt8) :
    signedValue (s ++ bs) = signedValue s * (256 ^ bs.length : Nat) + unsignedValue bs := by
  obtain _ | ⟨first, rest⟩ := s
  · exact absurd rfl hs
  have hvalue := unsignedValue_append (first :: rest) bs
  have hlength : 256 ^ (first :: (rest ++ bs)).length =
      256 ^ (first :: rest).length * 256 ^ bs.length := by
    rw [← pow_add, ← List.length_append, List.cons_append]
  rw [List.cons_append] at hvalue ⊢
  rw [signedValue_cons, signedValue_cons, hvalue, hlength]
  push_cast
  ring

/-! ## Surplus bytes -/

theorem unsignedValue_zeros (k : Nat) : unsignedValue (List.replicate k 0x00) = 0 := by
  induction k with
  | zero => rfl
  | succ k ih => rw [List.replicate_succ, unsignedValue_cons, ih]; exact Nat.zero_mul _

theorem unsignedValue_ones (k : Nat) : unsignedValue (List.replicate k 0xFF) + 1 = 256 ^ k := by
  induction k with
  | zero => rfl
  | succ k ih =>
    have hbyte : (0xFF : UInt8).toNat = 255 := rfl
    rw [List.replicate_succ, unsignedValue_cons, List.length_replicate, Nat.add_assoc, ih, hbyte,
      pow_succ]
    omega

/-- Bytes have the number that a sign stands for exactly if they all repeat it. -/
theorem signedValue_eq_signDigit_iff (hs : s ≠ []) :
    signedValue s = signDigit first ↔ ∀ b ∈ s, b = signFill first := by
  have hall : unsignedValue s = unsignedValue (List.replicate s.length (signFill first)) ↔
      ∀ b ∈ s, b = signFill first := by
    rw [unsignedValue_inj List.length_replicate.symm, List.eq_replicate_iff]
    exact and_iff_right rfl
  have hlt := unsignedValue_lt s
  have hone : 1 < 256 ^ s.length := Nat.one_lt_pow (List.length_eq_zero_iff.not.2 hs) (by decide)
  obtain _ | ⟨b, rest⟩ := s
  · exact absurd rfl hs
  have hhalf := first_lt_iff b rest
  have hzeros := unsignedValue_zeros (b :: rest).length
  have hones := unsignedValue_ones (b :: rest).length
  rw [← hall, signedValue_cons]
  generalize 256 ^ (b :: rest).length = patterns at *
  unfold signDigit signFill
  by_cases hb : b < 0x80
  · rw [if_pos hb]
    rw [hhalf] at hb
    split <;> omega
  · rw [if_neg hb]
    rw [hhalf] at hb
    split <;> omega

/-- Bytes that repeat the sign do not change the number behind them. -/
theorem signedValue_fill_append (hs : ∀ b ∈ s, b = signFill first) :
    signedValue (s ++ first :: rest) = signedValue (first :: rest) := by
  by_cases hnil : s = []
  · rw [hnil, List.nil_append]
  · rw [signedValue_append hnil, (signedValue_eq_signDigit_iff hnil).2 hs, signedValue_cons]

theorem unsignedValue_eq_zero_iff : unsignedValue s = 0 ↔ ∀ b ∈ s, b = 0x00 := by
  rw [← unsignedValue_zeros s.length, unsignedValue_inj List.length_replicate.symm,
    List.eq_replicate_iff]
  exact and_iff_right rfl

/-! ## Reading -/

theorem patterns_eq_pow (w : Width) : w.patterns = 256 ^ w.bytes := by
  cases w <;> rfl

theorem pow_le_patterns (hlength : bs.length ≤ w.bytes) : 256 ^ bs.length ≤ w.patterns := by
  rw [patterns_eq_pow]
  exact Nat.pow_le_pow_right (by decide) hlength

theorem holds_signed_iff :
    (⟨true, w⟩ : IntegerType).Holds n ↔ -(w.patterns : Int) ≤ 2 * n ∧ 2 * n < w.patterns := by
  unfold IntegerType.Holds IntegerType.min IntegerType.max Width.signedMin Width.signedMax
  cases w <;> simp only [Width.patterns, if_true] <;> omega

theorem holds_unsigned_iff :
    (⟨false, w⟩ : IntegerType).Holds n ↔ 0 ≤ n ∧ n < w.patterns := by
  unfold IntegerType.Holds IntegerType.min IntegerType.max Width.unsignedMax
  simp only [Bool.false_eq_true, if_false]
  omega

/-- With bytes in front of it, a full width holds the number only if they repeat the sign. -/
theorem holds_signedValue_append_iff (hs : s ≠ []) (hlength : (first :: rest).length = w.bytes) :
    (⟨true, w⟩ : IntegerType).Holds (signedValue (s ++ first :: rest)) ↔
      ∀ b ∈ s, b = signFill first := by
  have hlt := unsignedValue_lt (first :: rest)
  have hhalf := first_lt_iff first rest
  rw [holds_signed_iff, signedValue_append hs, ← signedValue_eq_signDigit_iff hs, patterns_eq_pow,
    ← hlength]
  generalize 256 ^ (first :: rest).length = patterns at *
  generalize unsignedValue (first :: rest) = number at *
  generalize signedValue s = front
  have hdigit : signDigit first = 0 ∧ 2 * number < patterns ∨
      signDigit first = -1 ∧ ¬ 2 * number < patterns := by
    rw [← hhalf, signDigit]
    split
    · next hfirst => exact .inl ⟨rfl, hfirst⟩
    · next hfirst => exact .inr ⟨rfl, hfirst⟩
  constructor
  · rintro ⟨hmin, hmax⟩
    -- the range leaves the front only the two numbers that signs stand for
    have hbelow : front < 1 :=
      lt_of_mul_lt_mul_right (by omega : front * (patterns : Int) < 1 * patterns)
        (Int.natCast_nonneg patterns)
    have habove : -2 < front :=
      lt_of_mul_lt_mul_right (by omega : -2 * (patterns : Int) < front * patterns)
        (Int.natCast_nonneg patterns)
    obtain rfl | rfl : front = 0 ∨ front = -1 := by omega
    · omega
    · omega
  · rintro rfl
    obtain ⟨hsign, hnumber⟩ | ⟨hsign, hnumber⟩ := hdigit
    · rw [hsign]
      omega
    · rw [hsign]
      omega

theorem holds_signedValue (hlength : bs.length ≤ w.bytes) :
    (⟨true, w⟩ : IntegerType).Holds (signedValue bs) := by
  have hpow := pow_le_patterns hlength
  have hpos : 0 < 256 ^ bs.length := Nat.pow_pos (by decide)
  have hlow := Int.le_bmod (x := unsignedValue bs) hpos
  have hhigh := Int.bmod_lt (x := unsignedValue bs) hpos
  rw [holds_signed_iff, signedValue]
  omega

theorem holds_unsignedValue_append_iff (hlength : rest.length = w.bytes) :
    (⟨false, w⟩ : IntegerType).Holds (unsignedValue (s ++ rest)) ↔ ∀ b ∈ s, b = 0x00 := by
  have hlt := unsignedValue_lt rest
  rw [holds_unsigned_iff, unsignedValue_append, ← unsignedValue_eq_zero_iff, patterns_eq_pow,
    ← hlength]
  constructor
  · rintro ⟨-, hmax⟩
    by_contra hfront
    have := Nat.mul_le_mul_right (256 ^ rest.length) (Nat.pos_of_ne_zero hfront)
    omega
  · intro hfront
    rw [hfront, Nat.zero_mul]
    omega

theorem holds_unsignedValue (hlength : bs.length ≤ w.bytes) :
    (⟨false, w⟩ : IntegerType).Holds (unsignedValue bs) := by
  have hlt := unsignedValue_lt bs
  have hpow := pow_le_patterns hlength
  rw [holds_unsigned_iff]
  omega

/-- The number that a sequence of bytes is to a reader with or without signs. -/
def value (signed : Bool) (bs : List UInt8) : Int :=
  if signed then signedValue bs else unsignedValue bs

/-- The byte that extends a sequence with this first byte without changing its number. -/
def fill (signed : Bool) (first : UInt8) : UInt8 := if signed then signFill first else 0x00

variable {signed : Bool}

theorem value_fill_append (hs : ∀ b ∈ s, b = fill signed first) :
    value signed (s ++ first :: rest) = value signed (first :: rest) := by
  cases signed with
  | true => exact signedValue_fill_append hs
  | false =>
    have hzero : unsignedValue s = 0 := unsignedValue_eq_zero_iff.2 hs
    simp only [value, Bool.false_eq_true, if_false]
    rw [unsignedValue_append, hzero, Nat.zero_mul, Nat.zero_add]

/-- A full width holds the number of a longer sequence only if the bytes in front repeat the fill. -/
theorem holds_value_append_iff (hs : s ≠ []) (hlength : (first :: rest).length = w.bytes) :
    (⟨signed, w⟩ : IntegerType).Holds (value signed (s ++ first :: rest)) ↔
      ∀ b ∈ s, b = fill signed first := by
  cases signed with
  | true => exact holds_signedValue_append_iff hs hlength
  | false => exact holds_unsignedValue_append_iff hlength

theorem holds_value (hlength : bs.length ≤ w.bytes) :
    (⟨signed, w⟩ : IntegerType).Holds (value signed bs) := by
  cases signed with
  | true => exact holds_signedValue hlength
  | false => exact holds_unsignedValue hlength

/-- The low bytes of a sequence that is not empty are not all missing. -/
theorem exists_low_eq_cons (hbs : bs ≠ []) (w : Width) :
    ∃ first rest, low bs w = first :: rest ∧ bs = surplus bs w ++ first :: rest ∧
      (surplus bs w = [] ∧ (first :: rest).length ≤ w.bytes ∨
        surplus bs w ≠ [] ∧ (first :: rest).length = w.bytes) := by
  have hlength : (low bs w).length = bs.length - (bs.length - w.bytes) := List.length_drop
  have hbytes : 0 < w.bytes := by cases w <;> decide
  have hpos := List.length_pos_iff.2 hbs
  have hsurplus : surplus bs w = [] ↔ bs.length ≤ w.bytes := by
    rw [surplus, List.take_eq_nil_iff, or_iff_left hbs]
    omega
  obtain ⟨first, rest, hlow⟩ := List.exists_cons_of_length_pos (l := low bs w) (by omega)
  refine ⟨first, rest, hlow, ?_, ?_⟩
  · rw [← hlow, surplus_append_low]
  · rw [ne_eq, hsurplus, ← hlow]
    omega

/-- What is read are the low bytes, if the surplus bytes repeat the fill. -/
theorem decode_of_low (hlow : low bs w = first :: rest) : decode bs ⟨signed, w⟩ =
    if (surplus bs w).any (· != fill signed first) then none
    else some (value signed (first :: rest)) := by
  cases signed with
  | true =>
    simp only [decode, decodeSigned, if_true, hlow, twosComplement_eq]
    rfl
  | false =>
    have hbs : bs ≠ [] := by
      rintro rfl
      rw [low, List.drop_nil] at hlow
      cases hlow
    simp only [decode, decodeUnsigned, Bool.false_eq_true, if_false, hlow, bigEndian_eq,
      List.isEmpty_eq_false_iff.2 hbs, Bool.false_or]
    rfl

/-- **A sequence is read as the number of the whole of it, if the type holds that number.** -/
theorem decode_eq (hbs : bs ≠ []) (signed : Bool) (w : Width) : decode bs ⟨signed, w⟩ =
    if (⟨signed, w⟩ : IntegerType).Holds (value signed bs) then some (value signed bs)
    else none := by
  obtain ⟨first, rest, hlow, hsplit, hwidth⟩ := exists_low_eq_cons hbs w
  -- a sequence within the width is held as it is; a longer one fills the width with its low bytes
  have hholds : (⟨signed, w⟩ : IntegerType).Holds (value signed bs) ↔
      ∀ b ∈ surplus bs w, b = fill signed first := by
    obtain ⟨hnil, hlength⟩ | ⟨hne, hlength⟩ := hwidth
    · rw [hnil, List.nil_append] at hsplit
      rw [hnil, hsplit]
      exact iff_of_true (holds_value hlength) (fun b hb => absurd hb List.not_mem_nil)
    · rw [← holds_value_append_iff hne hlength, ← hsplit]
  have hany : (surplus bs w).any (· != fill signed first) = true ↔
      ¬ ∀ b ∈ surplus bs w, b = fill signed first := by
    simp only [List.any_eq_true, bne_iff_ne, not_forall, exists_prop]
  rw [decode_of_low hlow]
  by_cases hfill : ∀ b ∈ surplus bs w, b = fill signed first
  · rw [if_pos (hholds.2 hfill), if_neg (fun h => hany.1 h hfill), hsplit, value_fill_append hfill]
  · rw [if_neg (fun h => hfill (hholds.1 h)), if_pos (hany.2 hfill)]

theorem decode_nil (t : IntegerType) : decode [] t = none := by
  obtain ⟨signed, w⟩ := t
  cases signed <;> cases w <;> rfl

theorem decode_eq_some_iff : decode bs ⟨signed, w⟩ = some n ↔
    bs ≠ [] ∧ n = value signed bs ∧ (⟨signed, w⟩ : IntegerType).Holds n := by
  by_cases hbs : bs = []
  · rw [hbs, decode_nil]
    exact iff_of_false (by simp) (fun h => h.1 rfl)
  · rw [decode_eq hbs]
    constructor
    · intro h
      split at h
      · next hholds =>
        cases h
        exact ⟨hbs, rfl, hholds⟩
      · cases h
    · rintro ⟨-, rfl, hholds⟩
      exact if_pos hholds

/-! ## Extended sequences -/

theorem fill_eq (signed : Bool) (first : UInt8) (rest : List UInt8) :
    fill signed first = if value signed (first :: rest) < 0 then 0xFF else 0x00 := by
  cases signed with
  | true =>
    have hlt := unsignedValue_lt (first :: rest)
    simp only [fill, value, if_true, signedValue_cons]
    unfold signFill signDigit
    split
    · rw [if_neg (by omega)]
    · rw [if_pos (by omega)]
  | false =>
    simp only [fill, value, Bool.false_eq_true, if_false]
    rw [if_neg (by omega)]

/-- **Bytes in front that repeat the sign, or zeros without one, change nothing for any width.** -/
theorem decode_extended (hbs : bs ≠ []) (signed : Bool) (w : Width) (k : Nat) :
    decode (List.replicate k (if value signed bs < 0 then 0xFF else 0x00) ++ bs) ⟨signed, w⟩ =
      decode bs ⟨signed, w⟩ := by
  obtain _ | ⟨first, rest⟩ := bs
  · exact absurd rfl hbs
  rw [← fill_eq, decode_eq hbs, decode_eq (List.append_ne_nil_of_right_ne_nil _ hbs),
    value_fill_append (fun b hb => List.eq_of_mem_replicate hb)]

/-! ## Writing -/

theorem unsignedValue_lowBytes (count n : Nat) :
    unsignedValue (lowBytes count n) = n % 256 ^ count := by
  induction count generalizing n with
  | zero => rw [pow_zero, Nat.mod_one]; rfl
  | succ count ih =>
    have hbyte : (UInt8.ofNat n).toNat = n % 256 := UInt8.toNat_ofNat'
    rw [lowBytes, unsignedValue_append, ih, unsignedValue_singleton, hbyte, List.length_singleton,
      pow_one, pow_succ', Nat.mod_mul]
    ring

theorem unsignedValue_encode (w : Width) (n : Int) :
    (unsignedValue (encode w n) : Int) = n % w.patterns := by
  have hpos : (0 : Int) < w.patterns := by cases w <;> decide
  have hlow := Int.emod_nonneg n (Int.ne_of_gt hpos)
  have hhigh := Int.emod_lt_of_pos n hpos
  rw [encode, unsignedValue_lowBytes, ← patterns_eq_pow, Nat.mod_eq_of_lt (by omega),
    Int.toNat_of_nonneg hlow]

theorem encode_ne_nil (w : Width) (n : Int) : encode w n ≠ [] := by
  have hlength := length_encode w n
  intro hnil
  rw [hnil] at hlength
  cases w <;> cases hlength

/-- An encoding is of its number, if the type holds it. -/
theorem value_encode (h : (⟨signed, w⟩ : IntegerType).Holds n) :
    value signed (encode w n) = n := by
  cases signed with
  | true =>
    rw [holds_signed_iff] at h
    simp only [value, if_true]
    rw [signedValue, unsignedValue_encode, length_encode, ← patterns_eq_pow, Int.emod_bmod]
    exact Int.bmod_eq_of_le (by omega) (by omega)
  | false =>
    rw [holds_unsigned_iff] at h
    simp only [value, Bool.false_eq_true, if_false]
    rw [unsignedValue_encode, Int.emod_eq_of_lt h.1 h.2]

/-- **What was written at one width is read at another if that width holds it too.** -/
theorem decode_encode (h : (⟨signed, w⟩ : IntegerType).Holds n) (v : Width) :
    decode (encode w n) ⟨signed, v⟩ =
      if (⟨signed, v⟩ : IntegerType).Holds n then some n else none := by
  rw [decode_eq (encode_ne_nil w n), value_encode h]

/-! ## The laws of stored integers -/

theorem holds_signed_iff_pow : (⟨true, w⟩ : IntegerType).Holds n ↔
    -2 ^ (w.bits - 1) ≤ n ∧ n ≤ 2 ^ (w.bits - 1) - 1 := by
  have hpow : (w.patterns : Int) = 2 * 2 ^ (w.bits - 1) := by cases w <;> rfl
  rw [holds_signed_iff, hpow]
  omega

theorem patterns_eq_two_pow (w : Width) : (w.patterns : Int) = 2 ^ w.bits := by
  cases w <;> rfl

/-- **Stored integers are exact at every length.**  A sequence is read as the number of the whole of
it, if there is a byte and the width holds the number.  An integer is written in the bytes of its
width, as its remainder by the count of patterns; if the width holds it, it is read back at every
width that does.  Any number of bytes in front that repeat the sign of what was written, or zeros to
a reader without signs, change nothing. -/
theorem stored_exactly (bs : List UInt8) (w : Width) (n : Int) :
    (decodeSigned bs w = some n ↔ bs ≠ [] ∧ n = signedValue bs ∧
      -2 ^ (w.bits - 1) ≤ n ∧ n ≤ 2 ^ (w.bits - 1) - 1) ∧
    (decodeUnsigned bs w = some n ↔ bs ≠ [] ∧ n = unsignedValue bs ∧ n ≤ 2 ^ w.bits - 1) ∧
    (encode w n).length = w.bits / 8 ∧ unsignedValue (encode w n) = n % 2 ^ w.bits ∧
    (∀ signed, (⟨signed, w⟩ : IntegerType).Holds n → ∀ v : Width,
      decode (encode w n) ⟨signed, v⟩ =
        if (⟨signed, v⟩ : IntegerType).Holds n then some n else none) ∧
    ∀ (signed : Bool) (v : Width) (k : Nat),
      decode (List.replicate k (if value signed (encode w n) < 0 then 0xFF else 0x00) ++
        encode w n) ⟨signed, v⟩ = decode (encode w n) ⟨signed, v⟩ := by
  have hsigned : decodeSigned bs w = decode bs ⟨true, w⟩ := rfl
  have hunsigned : decodeUnsigned bs w = decode bs ⟨false, w⟩ := rfl
  refine ⟨?_, ?_, ?_, ?_, fun signed h v => decode_encode h v,
    decode_extended (encode_ne_nil w n)⟩
  · rw [hsigned, decode_eq_some_iff, holds_signed_iff_pow]
    rfl
  · have hvalue : value false bs = unsignedValue bs := rfl
    rw [hunsigned, decode_eq_some_iff, holds_unsigned_iff, ← patterns_eq_two_pow, hvalue]
    refine and_congr_right fun _ => and_congr_right fun _ => ?_
    omega
  · rw [length_encode, Width.bits, Nat.mul_div_cancel_left _ (by decide)]
  · rw [unsignedValue_encode, patterns_eq_two_pow]

theorem stored_exactly_negativeWord :
    encode .w16 (-130) = [0xFF, 0x7E] ∧
    decode [0xFF, 0x7E] ⟨true, .w8⟩ = none ∧
    decode [0xFF, 0xFF, 0xFF, 0xFF, 0x7E] ⟨true, .w32⟩ = some (-130) := by
  obtain ⟨-, -, -, -, hread, hextended⟩ := stored_exactly [] .w16 (-130)
  have hsign : value true (encode .w16 (-130)) < 0 := by
    rw [value_encode (by decide)]
    decide
  have hlonger := hextended true .w32 3
  rw [if_pos hsign] at hlonger
  exact ⟨by decide, hread true (by decide) .w8, hlonger.trans (hread true (by decide) .w32)⟩

end MessageScript.Bytes
