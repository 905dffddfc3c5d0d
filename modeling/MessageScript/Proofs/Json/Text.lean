import MessageScript.Json.Reader

/-!
# JSON texts are read back

A value made of truth values, texts, arrays, and objects with names (`IsPlain`) is written as a text
that is read as this value, whatever stands behind the text.  A character of a string is written as
itself or behind a backslash, and each way to write it denotes the character.

    string? (s.toList.flatMap escaped ++ '"' :: rest) = some (some s, rest)      (string?_escaped)
    j.IsPlain → parted (readValue (j.text ++ rest)) = (j, some rest)              (readValue_text)
    j.IsPlain → read (String.ofList j.text) = (j, true)                                (read_text)
    j.IsPlain → j.nesting ≤ levels → j.isKeepable levels                   (isKeepable_of_nesting)
-/

namespace MessageScript.Json

open Text

/-! ## Strings -/

section Strings

variable {c letter : Char} {cs : List Char}

theorem spelling?_plain (hquote : c ≠ '"') (h : ¬ (c.toNat < 0x20 ∨ c = '\\')) (cs : List Char) :
    spelling? (c :: cs) = (spelling? cs).map fun read => (.char c :: read.1, read.2) := by
  have hslash : c ≠ '\\' := fun hc => h (.inr hc)
  rw [spelling?, if_neg h]
  · exact hquote
  · intro _ _ _ _ _ hc _
    exact hslash hc
  · intro _ _ hc _
    exact hslash hc

theorem spelling?_named (hu : letter ≠ 'u') (h : named? letter = some c) (cs : List Char) :
    spelling? ('\\' :: letter :: cs) =
      (spelling? cs).map fun read => (.char c :: read.1, read.2) := by
  rw [spelling?, h]
  · rfl
  · intro _ _ _ _ _ hletter _
    exact hu hletter

/-- The letter of a control character names it. -/
theorem named?_controlName? : ∀ n < 0x20, (controlName? (Char.ofNat n)).all (fun letter =>
    letter != 'u' && named? letter == some (Char.ofNat n)) = true := by
  decide

/-- A control character's number has four digits, and they denote it. -/
theorem fourDigits : ∀ n < 0x20, (zeroFill 4 (Nat.toDigits 16 n)).length = 4 ∧
    (zeroFill 4 (Nat.toDigits 16 n)).all isHexDigit = true ∧
    ofHexDigits (zeroFill 4 (Nat.toDigits 16 n)) = n := by
  decide +kernel

theorem spelling?_unit {n : Nat} (h : n < 0x20) (cs : List Char) :
    spelling? (['\\', 'u'] ++ zeroFill 4 (Nat.toDigits 16 n) ++ cs) =
      (spelling? cs).map fun read => (.unit n :: read.1, read.2) := by
  obtain ⟨hlength, hdigits, hvalue⟩ := fourDigits n h
  match hfour : zeroFill 4 (Nat.toDigits 16 n), hlength with
  | [a, b, d, e], _ =>
    rw [hfour] at hdigits hvalue
    show spelling? ('\\' :: 'u' :: a :: b :: d :: e :: cs) = _
    rw [spelling?, if_pos hdigits, hvalue]

/-- A unit that is no half of a pair denotes a character, whatever follows. -/
theorem spelledText?_unit {n : Nat} (h : n < 0x20) (more : List Spelled) :
    spelledText? (.unit n :: more) = (spelledText? more).map (Char.ofNat n :: ·) := by
  have hhigh : isHighUnit n = false := decide_eq_false (by omega)
  have hlow : isLowUnit n = false := decide_eq_false (by omega)
  cases more with
  | nil => simp [spelledText?, hhigh, hlow]
  | cons first more =>
    cases first with
    | char d => simp [spelledText?, hhigh, hlow]
    | unit m => simp [spelledText?, hhigh, hlow]

/-- What a character is written as is read as one part of a spelling, and denotes the character. -/
theorem spelling?_escaped (c : Char) (cs : List Char) : ∃ part : Spelled,
    spelling? (escaped c ++ cs) = (spelling? cs).map (fun read => (part :: read.1, read.2)) ∧
    ∀ more, spelledText? (part :: more) = (spelledText? more).map (c :: ·) := by
  unfold escaped
  split
  · next hc =>
    refine ⟨.char c, spelling?_named ?_ ?_ cs, fun _ => rfl⟩
    · rcases hc with rfl | rfl <;> decide
    · rcases hc with rfl | rfl <;> rfl
  · next hc =>
    rw [not_or] at hc
    split
    · next hcontrol =>
      split
      · next letter hname =>
        have hnamed := named?_controlName? c.toNat hcontrol
        rw [Char.ofNat_toNat, hname, Option.all_some, Bool.and_eq_true, bne_iff_ne,
          beq_iff_eq] at hnamed
        exact ⟨.char c, spelling?_named hnamed.1 hnamed.2 cs, fun _ => rfl⟩
      · refine ⟨.unit c.toNat, spelling?_unit hcontrol cs, ?_⟩
        intro more
        rw [spelledText?_unit hcontrol, Char.ofNat_toNat]
    · next hcontrol =>
      refine ⟨.char c, spelling?_plain hc.1 ?_ cs, fun _ => rfl⟩
      rw [not_or]
      exact ⟨hcontrol, hc.2⟩

theorem exists_spelled (cs rest : List Char) : ∃ spelled,
    spelling? (cs.flatMap escaped ++ '"' :: rest) = some (spelled, rest) ∧
      spelledText? spelled = some cs := by
  induction cs with
  | nil => exact ⟨[], rfl, rfl⟩
  | cons c cs ih =>
    obtain ⟨spelled, hread, htext⟩ := ih
    obtain ⟨part, hpart, hdenotes⟩ := spelling?_escaped c (cs.flatMap escaped ++ '"' :: rest)
    refine ⟨part :: spelled, ?_, ?_⟩
    · rw [List.flatMap_cons, List.append_assoc, hpart, hread]
      rfl
    · rw [hdenotes, htext]
      rfl

/-- **A string is read back**, behind its opening quote. -/
theorem string?_escaped (s : String) (rest : List Char) :
    string? (s.toList.flatMap escaped ++ '"' :: rest) = some (some s, rest) := by
  obtain ⟨spelled, hread, htext⟩ := exists_spelled s.toList rest
  rw [string?, hread, Option.map_some]
  show some ((spelledText? spelled).map String.ofList, rest) = _
  rw [htext, Option.map_some, String.ofList_toList]

end Strings

/-! ## Reading parts -/

/-- Whether a value is made of truth values, texts, arrays, and objects with names. -/
inductive IsPlain : Json → Prop
  | bool (b : Bool) : IsPlain (.bool b)
  | string (s : String) : IsPlain (.string (some s))
  | array {items : List Json} (h : ∀ item ∈ items, IsPlain item) : IsPlain (.array items)
  | object {members : List (String × Json)} (h : ∀ member ∈ members, IsPlain member.2) :
      IsPlain (.object (members.map fun member => (some member.1, member.2)))

/-- What a part of a text is read as, and the text behind the part. -/
def parted {α : Type} {n : Nat} (part : α × Option (Shorter n)) : α × Option (List Char) :=
  (part.1, part.2.map Subtype.val)

theorem exists_of_parted {α : Type} {n : Nat} {part : α × Option (Shorter n)} {a : α}
    {rest : List Char} (h : parted part = (a, some rest)) :
    ∃ hrest, part = (a, some ⟨rest, hrest⟩) := by
  obtain ⟨b, behind⟩ := part
  cases behind with
  | none => cases h
  | some behind =>
    cases h
    exact ⟨behind.2, rfl⟩

variable {j : Json} {c : Char} {cs rest : List Char}

theorem skip_cons (h : isSpace c = false) (rest : List Char) : skip (c :: rest) = c :: rest := by
  rw [skip, List.dropWhile_cons, h]
  rfl

theorem readScalar_of_string {n : Nat} {s : Option String} (hcs : cs.length ≤ n)
    (h : (eat '"' cs).bind string? = some (s, rest)) :
    parted (readScalar cs hcs) = (.string s, some rest) := by
  unfold readScalar
  split
  · next s' rest' h' =>
    rw [h] at h'
    cases h'
    rfl
  · next h' =>
    rw [h] at h'
    cases h'

theorem readScalar_of_word {n : Nat} (hcs : cs.length ≤ n)
    (hstring : (eat '"' cs).bind string? = none) (h : word? cs = some (j, rest)) :
    parted (readScalar cs hcs) = (j, some rest) := by
  unfold readScalar
  split
  · next s' rest' h' =>
    rw [hstring] at h'
    cases h'
  · split
    · next v rest' h' =>
      rw [h] at h'
      cases h'
      rfl
    · next h' =>
      rw [h] at h'
      cases h'

theorem readValue_eq_readScalar (hspace : isSpace c = false) (harray : c ≠ '[')
    (hobject : c ≠ '\x7b') (cs : List Char) :
    readValue (c :: cs) = readScalar (c :: cs) (Nat.le_refl _) := by
  rw [readValue]
  split
  · next h =>
    rw [skip_cons hspace] at h
    cases h
  · next c' cs' h =>
    rw [skip_cons hspace] at h
    cases h
    rw [if_neg harray, if_neg hobject]

theorem stringText_append (s : String) (rest : List Char) :
    stringText s ++ rest = '"' :: (s.toList.flatMap escaped ++ '"' :: rest) := by
  rw [stringText, List.append_assoc, List.singleton_append]
  rfl

theorem readValue_string (s : String) (rest : List Char) :
    parted (readValue (stringText s ++ rest)) = (.string (some s), some rest) := by
  rw [stringText_append, readValue_eq_readScalar (by decide) (by decide) (by decide)]
  exact readScalar_of_string _ (string?_escaped s rest)

theorem readValue_bool (b : Bool) (rest : List Char) :
    parted (readValue ((toString b).toList ++ rest)) = (.bool b, some rest) := by
  cases b with
  | false =>
    show parted (readValue ('f' :: ('a' :: 'l' :: 's' :: 'e' :: rest))) = _
    rw [readValue_eq_readScalar (by decide) (by decide) (by decide)]
    exact readScalar_of_word _ rfl rfl
  | true =>
    show parted (readValue ('t' :: ('r' :: 'u' :: 'e' :: rest))) = _
    rw [readValue_eq_readScalar (by decide) (by decide) (by decide)]
    exact readScalar_of_word _ rfl rfl

/-! ### Items and members -/

/-- Behind an item stands a comma and more items, or a closing bracket. -/
theorem readItems_of_item {item : Json} {behind : List Char} (hspace : isSpace c = false)
    (hitem : parted (readValue cs) = (item, some (c :: behind))) :
    parted (readItems cs) =
      if c = ',' then (item :: (parted (readItems behind)).1, (parted (readItems behind)).2)
      else if c = ']' then ([item], some behind)
      else ([item, broken], none) := by
  obtain ⟨hshort, hread⟩ := exists_of_parted hitem
  rw [readItems, hread]
  simp only
  split
  · next more h =>
    rw [skip_cons hspace] at h
    cases h
    simp only [parted, Option.map_map]
    rfl
  · next more h =>
    rw [skip_cons hspace] at h
    cases h
    rfl
  · next hcomma hclose =>
    rw [if_neg, if_neg]
    · rfl
    · rintro rfl
      exact hclose behind (skip_cons hspace behind)
    · rintro rfl
      exact hcomma behind (skip_cons hspace behind)

theorem readName_text (name : String) (rest : List Char) :
    (readName (stringText name ++ ':' :: rest)).map (fun read => (read.1, read.2.1)) =
      some (some name, rest) := by
  rw [stringText_append, readName]
  split
  · next h =>
    rw [skip_cons (by decide)] at h
    cases h
  · next c cs h =>
    rw [skip_cons (by decide)] at h
    cases h
    rw [if_pos rfl]
    split
    · next h' =>
      rw [string?_escaped] at h'
      cases h'
    · next name' rest' h' =>
      rw [string?_escaped] at h'
      cases h'
      split
      · next rest'' h'' =>
        rw [skip_cons (by decide)] at h''
        cases h''
        rfl
      · next hcolon => exact absurd (skip_cons (by decide) _) (hcolon _)

theorem exists_of_readName {name : Option String} {behind : List Char}
    (h : (readName cs).map (fun read => (read.1, read.2.1)) = some (name, behind)) :
    ∃ hshort, readName cs = some (name, ⟨behind, hshort⟩) := by
  obtain ⟨⟨name', behind'⟩, hread, heq⟩ := Option.map_eq_some_iff.1 h
  cases heq
  exact ⟨behind'.2, hread⟩

/-- Behind a member stands a comma and more members, or a closing brace. -/
theorem readMembers_of_member {name : Option String} {value : Json} {named behind : List Char}
    (hspace : isSpace c = false)
    (hname : (readName cs).map (fun read => (read.1, read.2.1)) = some (name, named))
    (hvalue : parted (readValue named) = (value, some (c :: behind))) :
    parted (readMembers cs) =
      if c = ',' then
        ((name, value) :: (parted (readMembers behind)).1, (parted (readMembers behind)).2)
      else if c = '\x7d' then ([(name, value)], some behind)
      else ([(name, value), (none, broken)], none) := by
  obtain ⟨hnamed, hreadName⟩ := exists_of_readName hname
  obtain ⟨hshort, hread⟩ := exists_of_parted hvalue
  rw [readMembers, hreadName]
  simp only
  rw [hread]
  simp only
  split
  · next more h =>
    rw [skip_cons hspace] at h
    cases h
    simp only [parted, Option.map_map]
    rfl
  · next more h =>
    rw [skip_cons hspace] at h
    cases h
    rfl
  · next hcomma hclose =>
    rw [if_neg, if_neg]
    · rfl
    · rintro rfl
      exact hclose behind (skip_cons hspace behind)
    · rintro rfl
      exact hcomma behind (skip_cons hspace behind)

/-! ### Arrays and objects -/

/-- Behind an opening bracket stands the closing one, or items. -/
theorem readValue_array (hspace : isSpace c = false) (cs : List Char) :
    parted (readValue ('[' :: c :: cs)) =
      if c = ']' then (.array [], some cs)
      else (.array (parted (readItems (c :: cs))).1, (parted (readItems (c :: cs))).2) := by
  rw [readValue]
  split
  · next h =>
    rw [skip_cons (by decide)] at h
    cases h
  · next c' cs' h =>
    rw [skip_cons (by decide)] at h
    cases h
    rw [if_pos rfl]
    split
    · next rest h' =>
      rw [skip_cons hspace] at h'
      cases h'
      rfl
    · next hclose =>
      rw [if_neg]
      · simp only [parted, Option.map_map]
        rfl
      · rintro rfl
        exact hclose cs (skip_cons hspace cs)

/-- Behind an opening brace stands the closing one, or members. -/
theorem readValue_object (hspace : isSpace c = false) (cs : List Char) :
    parted (readValue ('\x7b' :: c :: cs)) =
      if c = '\x7d' then (.object [], some cs)
      else (.object (parted (readMembers (c :: cs))).1, (parted (readMembers (c :: cs))).2) := by
  rw [readValue]
  split
  · next h =>
    rw [skip_cons (by decide)] at h
    cases h
  · next c' cs' h =>
    rw [skip_cons (by decide)] at h
    cases h
    rw [if_neg (by decide), if_pos rfl]
    split
    · next rest h' =>
      rw [skip_cons hspace] at h'
      cases h'
      rfl
    · next hclose =>
      rw [if_neg]
      · simp only [parted, Option.map_map]
        rfl
      · rintro rfl
        exact hclose cs (skip_cons hspace cs)

/-! ## Texts -/

theorem readItems_text {items : List Json} (hne : items ≠ [])
    (hitems : ∀ item ∈ items, ∀ rest,
      parted (readValue (item.text ++ rest)) = (item, some rest)) (rest : List Char) :
    parted (readItems (itemsText items ++ ']' :: rest)) = (items, some rest) := by
  induction items with
  | nil => exact absurd rfl hne
  | cons item more ih =>
    have hitem := hitems item List.mem_cons_self
    cases more with
    | nil =>
      rw [itemsText, readItems_of_item (by decide) (hitem _), if_neg (by decide), if_pos rfl]
    | cons item' more =>
      have hmore := ih (List.cons_ne_nil _ _) fun i hi => hitems i (List.mem_cons_of_mem _ hi)
      rw [itemsText, List.append_assoc, List.cons_append,
        readItems_of_item (by decide) (hitem _), if_pos rfl, hmore]
      exact List.cons_ne_nil _ _

theorem readMembers_text {members : List (String × Json)} (hne : members ≠ [])
    (hmembers : ∀ member ∈ members, ∀ rest,
      parted (readValue (member.2.text ++ rest)) = (member.2, some rest)) (rest : List Char) :
    parted (readMembers (membersText (members.map fun m => (some m.1, m.2)) ++ '\x7d' :: rest)) =
      (members.map fun m => (some m.1, m.2), some rest) := by
  induction members with
  | nil => exact absurd rfl hne
  | cons member more ih =>
    obtain ⟨name, value⟩ := member
    have hvalue := hmembers (name, value) List.mem_cons_self
    cases more with
    | nil =>
      rw [List.map_cons, List.map_nil, membersText, Option.getD_some, List.append_assoc,
        List.cons_append, readMembers_of_member (by decide) (readName_text name _) (hvalue _),
        if_neg (by decide), if_pos rfl]
    | cons member' more =>
      have hmore := ih (List.cons_ne_nil _ _) fun m hm => hmembers m (List.mem_cons_of_mem _ hm)
      rw [List.map_cons, membersText, Option.getD_some, List.append_assoc, List.append_assoc,
        List.cons_append, List.cons_append,
        readMembers_of_member (by decide) (readName_text name _) (hvalue _), if_pos rfl, hmore]
      exact List.cons_ne_nil _ _

/-- A plain value begins with a character that is neither a blank nor a closing bracket. -/
theorem IsPlain.exists_head (h : j.IsPlain) :
    ∃ c cs, j.text = c :: cs ∧ isSpace c = false ∧ c ≠ ']' := by
  cases h with
  | bool b =>
    cases b with
    | false => exact ⟨'f', _, rfl, by decide, by decide⟩
    | true => exact ⟨'t', _, rfl, by decide, by decide⟩
  | string s =>
    rw [text]
    exact ⟨'"', _, rfl, by decide, by decide⟩
  | array h =>
    rw [text]
    exact ⟨'[', _, rfl, by decide, by decide⟩
  | object h =>
    rw [text]
    exact ⟨'\x7b', _, rfl, by decide, by decide⟩

theorem exists_itemsText (h : j.IsPlain) (more : List Json) :
    ∃ c cs, itemsText (j :: more) = c :: cs ∧ isSpace c = false ∧ c ≠ ']' := by
  obtain ⟨c, cs, htext, hspace, hclose⟩ := h.exists_head
  cases more with
  | nil =>
    rw [itemsText]
    exact ⟨c, cs, htext, hspace, hclose⟩
  | cons item more =>
    rw [itemsText, htext]
    · exact ⟨c, _, rfl, hspace, hclose⟩
    · exact List.cons_ne_nil item more

theorem exists_membersText (member : Option String × Json) (more : List (Option String × Json)) :
    ∃ cs, membersText (member :: more) = '"' :: cs := by
  cases more with
  | nil =>
    rw [membersText]
    exact ⟨_, rfl⟩
  | cons member' more =>
    rw [membersText]
    · exact ⟨_, rfl⟩
    · exact List.cons_ne_nil member' more

/-- **A plain value is read back from its text**, whatever stands behind. -/
theorem readValue_text (h : j.IsPlain) (rest : List Char) :
    parted (readValue (j.text ++ rest)) = (j, some rest) := by
  induction h generalizing rest with
  | bool b =>
    rw [text]
    exact readValue_bool b rest
  | string s =>
    rw [text]
    exact readValue_string s rest
  | @array items hplain ih =>
    rw [text, List.append_assoc, List.singleton_append, List.cons_append]
    cases items with
    | nil => exact readValue_array (by decide) rest
    | cons item more =>
      have hread := readItems_text (List.cons_ne_nil item more) ih rest
      obtain ⟨c, cs, htext, hspace, hclose⟩ :=
        exists_itemsText (hplain item List.mem_cons_self) more
      rw [htext, List.cons_append] at hread ⊢
      rw [readValue_array hspace, if_neg hclose, hread]
  | @object members hplain ih =>
    rw [text, List.append_assoc, List.singleton_append, List.cons_append]
    cases members with
    | nil => exact readValue_object (by decide) rest
    | cons member more =>
      have hread := readMembers_text (List.cons_ne_nil member more) ih rest
      rw [List.map_cons] at hread ⊢
      obtain ⟨cs, htext⟩ := exists_membersText (some member.1, member.2)
        (more.map fun m => (some m.1, m.2))
      rw [htext, List.cons_append] at hread ⊢
      rw [readValue_object (by decide), if_neg (by decide), hread]

/-- **The text of a plain value is read as the value**, to its end. -/
theorem read_text (h : j.IsPlain) : read (String.ofList j.text) = (j, true) := by
  have htext : (String.ofList j.text).toList = j.text ++ [] := by
    rw [String.toList_ofList, List.append_nil]
  have hvalue := readValue_text h []
  rw [← htext] at hvalue
  obtain ⟨hshort, hread⟩ := exists_of_parted hvalue
  rw [read, hread]
  rfl

/-! ## Nesting -/

mutual

/-- How many arrays and objects are open at once in a value, at most. -/
def nesting : Json → Nat
  | array items => itemsNesting items + 1
  | object members => membersNesting members + 1
  | _ => 0

/-- The greatest nesting of items. -/
def itemsNesting : List Json → Nat
  | [] => 0
  | item :: rest => max item.nesting (itemsNesting rest)

/-- The greatest nesting of members. -/
def membersNesting : List (Option String × Json) → Nat
  | [] => 0
  | (_, value) :: rest => max value.nesting (membersNesting rest)

end

theorem itemsKeepable_of_nesting {items : List Json} {levels : Nat}
    (hitems : ∀ item ∈ items, item.nesting ≤ levels → item.isKeepable levels = true)
    (h : itemsNesting items ≤ levels) : itemsKeepable levels items = true := by
  induction items with
  | nil => rw [itemsKeepable]
  | cons item rest ih =>
    rw [itemsNesting, Nat.max_le] at h
    rw [itemsKeepable, hitems item List.mem_cons_self h.1,
      ih (fun i hi => hitems i (List.mem_cons_of_mem _ hi)) h.2]
    rfl

theorem membersKeepable_of_nesting {members : List (String × Json)} {levels : Nat}
    (hmembers : ∀ member ∈ members,
      member.2.nesting ≤ levels → member.2.isKeepable levels = true)
    (h : membersNesting (members.map fun m => (some m.1, m.2)) ≤ levels) :
    membersKeepable levels (members.map fun m => (some m.1, m.2)) = true := by
  induction members with
  | nil => rw [List.map_nil, membersKeepable]
  | cons member rest ih =>
    rw [List.map_cons, membersNesting, Nat.max_le] at h
    rw [List.map_cons, membersKeepable, hmembers member List.mem_cons_self h.1,
      ih (fun m hm => hmembers m (List.mem_cons_of_mem _ hm)) h.2]
    rfl

/-- A plain value can be kept if it is not nested too deep. -/
theorem isKeepable_of_nesting (h : j.IsPlain) {levels : Nat} (hn : j.nesting ≤ levels) :
    j.isKeepable levels = true := by
  induction h generalizing levels with
  | bool b => rw [isKeepable]
  | string s => rw [isKeepable, Option.isSome_some]
  | @array items hplain ih =>
    rw [nesting] at hn
    cases levels with
    | zero => omega
    | succ levels =>
      rw [isKeepable]
      exact itemsKeepable_of_nesting (fun item hi => ih item hi) (by omega)
  | @object members hplain ih =>
    rw [nesting] at hn
    cases levels with
    | zero => omega
    | succ levels =>
      rw [isKeepable]
      exact membersKeepable_of_nesting (fun member hm => ih member hm) (by omega)

end MessageScript.Json
