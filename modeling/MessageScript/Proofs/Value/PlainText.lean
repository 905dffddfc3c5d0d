import MessageScript.Proofs.Integer.Numeral
import MessageScript.Proofs.Size.ByteSize
import MessageScript.Value.Basic

/-!
# Values read back from their texts

Truth values, integers, texts, bytes and byte sizes are read back from the texts that they are
written as, whatever the clock.  An integer is read from every numeral of a number that its type
holds, and from nothing else; bytes are written in the digits from which they were read, in capital
letters.

    v.kind.isPlain → parseBy? clock v.kind v.toText = some v                    (parseBy?_toText)
    parseBy? clock (.integer t) s = some v ↔
      ∃ n h, DenotesInt s.toList n ∧ v = integer t ⟨n, h⟩          (parseBy?_integer_eq_some_iff)
    ofHexPairs? cs = some bs → upperHex bs = cs.map Char.toUpper        (upperHex_of_ofHexPairs?)
-/

namespace MessageScript

open Text Calendar

/-! ## Hexadecimal digits -/

namespace Text

variable {c : Char} {n : Nat} {cs : List Char} {bs : List UInt8}

theorem toNat_lt_of_hexValue? (h : hexValue? c = some n) : c.toNat < 128 := by
  unfold hexValue? at h
  split at h
  · next hdigit =>
    simp only [Char.isDigit, Bool.and_eq_true, decide_eq_true_eq, UInt32.le_iff_toNat_le] at hdigit
    have hle : c.toNat ≤ 57 := hdigit.2
    omega
  · split at h
    · next hsmall =>
      have hle : c.toNat ≤ 102 := UInt32.le_iff_toNat_le.1 hsmall.2
      omega
    · split at h
      · next hcapital =>
        have hle : c.toNat ≤ 70 := UInt32.le_iff_toNat_le.1 hcapital.2
        omega
      · cases h

/-- Over the characters below 128, which hold all digits. -/
theorem upperHexDigit_hexValue?_all : ∀ k < 128, (hexValue? (Char.ofNat k)).all
    (fun n => n < 16 && upperHexDigit n == (Char.ofNat k).toUpper) = true := by
  decide

/-- The value of a digit is below sixteen and is written as the capital of the digit. -/
theorem upperHexDigit_of_hexValue? (h : hexValue? c = some n) :
    n < 16 ∧ upperHexDigit n = c.toUpper := by
  have hall := upperHexDigit_hexValue?_all c.toNat (toNat_lt_of_hexValue? h)
  rw [Char.ofNat_toNat, h] at hall
  simpa using hall

/-- Bytes are written in the digits from which they were read, in capital letters. -/
theorem upperHex_of_ofHexPairs? (h : ofHexPairs? cs = some bs) :
    upperHex bs = cs.map Char.toUpper := by
  induction cs using ofHexPairs?.induct generalizing bs with
  | case1 =>
    cases h
    rfl
  | case2 c => cases h
  | case3 a b rest ih =>
    simp only [ofHexPairs?, Option.bind_eq_bind, Option.bind_eq_some_iff] at h
    obtain ⟨high, ha, low, hb, bytes, hrest, hbs⟩ := h
    cases hbs
    obtain ⟨hhigh, hhigh'⟩ := upperHexDigit_of_hexValue? ha
    obtain ⟨hlow, hlow'⟩ := upperHexDigit_of_hexValue? hb
    have hlt : 16 * high + low < UInt8.size := by
      show 16 * high + low < 256
      omega
    have hhalves : (16 * high + low) / 16 = high ∧ (16 * high + low) % 16 = low := by omega
    have hpair : upperHexPair (UInt8.ofNat (16 * high + low)) = [a.toUpper, b.toUpper] := by
      rw [upperHexPair, UInt8.toNat_ofNat_of_lt' hlt, hhalves.1, hhalves.2, hhigh', hlow']
    show upperHexPair (UInt8.ofNat (16 * high + low)) ++ upperHex bytes = _
    rw [hpair, ih hrest]
    rfl

/-- Bytes are read from pairs of digits and from nothing else. -/
theorem exists_ofHexPairs?_iff : (∃ bs, ofHexPairs? cs = some bs) ↔
    cs.length % 2 = 0 ∧ ∀ c ∈ cs, isHexDigit c = true := by
  induction cs using ofHexPairs?.induct with
  | case1 => simp [ofHexPairs?]
  | case2 c => simp [ofHexPairs?]
  | case3 a b rest ih =>
    simp only [ofHexPairs?, Option.bind_eq_bind, Option.bind_eq_some_iff, List.length_cons,
      List.forall_mem_cons, isHexDigit, Option.isSome_iff_exists] at ih ⊢
    constructor
    · rintro ⟨bs, high, ha, low, hb, bytes, hrest, -⟩
      obtain ⟨hlength, hdigits⟩ := ih.1 ⟨bytes, hrest⟩
      exact ⟨by omega, ⟨high, ha⟩, ⟨low, hb⟩, hdigits⟩
    · rintro ⟨hlength, ⟨high, ha⟩, ⟨low, hb⟩, hdigits⟩
      obtain ⟨bytes, hrest⟩ := ih.2 ⟨by omega, hdigits⟩
      exact ⟨_, high, ha, low, hb, bytes, hrest, rfl⟩

end Text

/-- A text of bytes is digits, which `0x` or `0X` may stand in front of. -/
theorem exists_withoutHexMark (cs : List Char) :
    ∃ mark, (mark = [] ∨ mark = ['0', 'x'] ∨ mark = ['0', 'X']) ∧
      cs = mark ++ withoutHexMark cs := by
  unfold withoutHexMark
  split
  · exact ⟨_, .inr (.inl rfl), rfl⟩
  · exact ⟨_, .inr (.inr rfl), rfl⟩
  · exact ⟨[], .inl rfl, rfl⟩

/-! ## Values of plain kinds -/

/-- Whether the values of a kind are truth values, integers, texts, bytes or byte sizes. -/
def Kind.isPlain : Kind → Bool
  | boolean | integer _ | text | binary | size => true
  | _ => false

namespace Value

variable {v : Value} {clock : LocalClock} {t : IntegerType} {s : String}

theorem parseBy?_toText (h : v.kind.isPlain = true) (clock : LocalClock) :
    parseBy? clock v.kind v.toText = some v := by
  cases v with
  | boolean b =>
    have hword : parseBool? (boolText b).toList = some b := by cases b <;> decide
    exact congrArg (Option.map boolean) hword
  | integer t n =>
    show (StoredInt.parse? t (String.ofList (signedDigits n.val)).toList).map (integer t) = _
    rw [String.toList_ofList, StoredInt.parse?_signedDigits, StoredInt.ofInt?_val]
    rfl
  | text s => rfl
  | binary bytes =>
    show (parseBytes? (String.ofList (bytesText bytes)).toList).map binary = _
    rw [String.toList_ofList, parseBytes?_bytesText]
    rfl
  | size n =>
    show (ByteSize.parse? (String.ofList (signedDigits n.bytes))).map size = _
    rw [ByteSize.parse?_signedDigits, ByteSize.ofInt?_bytes]
    rfl
  | _ => cases h

theorem parseBy?_integer_eq_some_iff : parseBy? clock (.integer t) s = some v ↔
    ∃ (n : Int) (h : t.Holds n), DenotesInt s.toList n ∧ v = integer t ⟨n, h⟩ := by
  show (StoredInt.parse? t s.toList).map (integer t) = some v ↔ _
  rw [Option.map_eq_some_iff]
  constructor
  · rintro ⟨n, hn, rfl⟩
    exact ⟨n.val, n.holds, StoredInt.parse?_eq_some_iff.1 hn, rfl⟩
  · rintro ⟨n, h, hn, rfl⟩
    exact ⟨⟨n, h⟩, StoredInt.parse?_eq_some_iff.2 hn, rfl⟩

/-- Bytes that were read are written in the digits of the text, in capital letters. -/
theorem toText_of_parseBy?_binary (h : parseBy? clock .binary s = some v) :
    v.toText = String.ofList ('0' :: 'x' :: (withoutHexMark s.toList).map Char.toUpper) := by
  obtain ⟨bytes, hbytes, rfl⟩ := Option.map_eq_some_iff.1 h
  show String.ofList ('0' :: 'x' :: upperHex bytes) = _
  rw [upperHex_of_ofHexPairs? hbytes]

/-- **Plain values survive as their texts, and integers and bytes are read exactly.**  An integer is
read if and only if the text is a numeral of a number that its type holds, of whatever length; bytes
are written in the digits from which they were read, in capital letters. -/
theorem plain_texts_exact (clock : LocalClock) :
    (∀ v : Value, v.kind.isPlain = true → parseBy? clock v.kind v.toText = some v) ∧
    (∀ (t : IntegerType) (s : String) (v : Value), parseBy? clock (.integer t) s = some v ↔
      ∃ (n : Int) (h : t.Holds n), DenotesInt s.toList n ∧ v = integer t ⟨n, h⟩) ∧
    ∀ (s : String) (v : Value), parseBy? clock .binary s = some v →
      ∃ mark digits, (mark = [] ∨ mark = ['0', 'x'] ∨ mark = ['0', 'X']) ∧
        s.toList = mark ++ digits ∧ digits.length % 2 = 0 ∧ (∀ c ∈ digits, isHexDigit c = true) ∧
        v.toText = String.ofList ('0' :: 'x' :: digits.map Char.toUpper) := by
  refine ⟨fun v h => parseBy?_toText h clock, fun t s v => parseBy?_integer_eq_some_iff, ?_⟩
  intro s v h
  obtain ⟨mark, hmark, hs⟩ := exists_withoutHexMark s.toList
  obtain ⟨bytes, hbytes, -⟩ := Option.map_eq_some_iff.1 h
  obtain ⟨hlength, hdigits⟩ := exists_ofHexPairs?_iff.1 ⟨bytes, hbytes⟩
  exact ⟨mark, _, hmark, hs, hlength, hdigits, toText_of_parseBy?_binary h⟩

/-- The greatest size, a byte in more digits than 128 bits have, and small letters behind `0X`. -/
theorem plain_texts_exact_longNumeral :
    parseBy? Defaults.standard.clock .size "18446744073709551615" =
      some (size ⟨0xFFFF_FFFF_FFFF_FFFF, by decide⟩) ∧
    parseBy? Defaults.standard.clock (.integer ⟨false, .w8⟩)
      "+0000000000000000000000000000000000000000255" =
        some (integer ⟨false, .w8⟩ ⟨255, by decide⟩) ∧
    ∃ mark digits, "0Xabff".toList = mark ++ digits ∧
      (binary [0xAB, 0xFF]).toText = String.ofList ('0' :: 'x' :: digits.map Char.toUpper) := by
  obtain ⟨hsame, hinteger, hbinary⟩ := plain_texts_exact Defaults.standard.clock
  refine ⟨?_, ?_, ?_⟩
  · have htext : (size ⟨0xFFFF_FFFF_FFFF_FFFF, by decide⟩).toText = "18446744073709551615" := by
      decide +kernel
    rw [← htext]
    exact hsame (size ⟨0xFFFF_FFFF_FFFF_FFFF, by decide⟩) rfl
  · have hdigits : AllDigits "0000000000000000000000000000000000000000255".toList :=
      List.all_eq_true.1 rfl
    exact (hinteger _ _ _).2 ⟨255, by decide, .plus (by decide) hdigits, rfl⟩
  · obtain ⟨mark, digits, -, htext, -, -, hwritten⟩ :=
      hbinary "0Xabff" (binary [0xAB, 0xFF]) (by decide)
    exact ⟨mark, digits, htext, hwritten⟩

end Value

end MessageScript
