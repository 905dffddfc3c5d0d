import MessageScript.Name

/-!
# What the naming rules ask for

Behind its mark, if it has one, every name is a letter and what follows it, without blanks
(`IsBody`); in a field's name there is no separator either.  No mark is a letter, so one mark is
taken off a name at most, and what is left keeps the rules without it.

    tagFault? name = none ↔ IsBody (withoutMark tagMark name.toList)        (tagFault?_eq_none_iff)
    fieldFault? name = none ↔
      IsBody (withoutMark headerMark name.toList) ∧ no separator in it    (fieldFault?_eq_none_iff)
-/

namespace MessageScript.Name

variable {cs : List Char} {mark c : Char} {name : String}

/-- Whether a text is a letter and what follows it, without blanks. -/
def IsBody (cs : List Char) : Prop :=
  (∃ c rest, cs = c :: rest ∧ Text.isAlphabetic c = true) ∧ ∀ c ∈ cs, Text.isBlank c = false

theorem bodyFault?_eq_none_iff : bodyFault? cs = none ↔ IsBody cs := by
  cases cs with
  | nil =>
    refine iff_of_false nofun ?_
    rintro ⟨⟨c, rest, hcons, -⟩, -⟩
    cases hcons
  | cons c rest =>
    rw [bodyFault?]
    cases halpha : Text.isAlphabetic c with
    | false =>
      refine iff_of_false nofun ?_
      rintro ⟨⟨d, rest', hcons, hd⟩, -⟩
      cases hcons
      rw [halpha] at hd
      cases hd
    | true =>
      have hletter : ∃ d rest', c :: rest = d :: rest' ∧ Text.isAlphabetic d = true :=
        ⟨c, rest, rfl, halpha⟩
      have hblanks : (∀ d ∈ c :: rest, Text.isBlank d = false) ↔
          (c :: rest).any Text.isBlank = false := by
        simp only [List.any_eq_false, Bool.not_eq_true]
      rw [IsBody, and_iff_right hletter, hblanks]
      cases (c :: rest).any Text.isBlank with
      | false => exact iff_of_true rfl rfl
      | true => exact iff_of_false nofun nofun

theorem IsBody.ne_nil (h : IsBody cs) : cs ≠ [] := by
  obtain ⟨⟨c, rest, rfl, -⟩, -⟩ := h
  exact List.cons_ne_nil c rest

/-- A name that is only a mark has no body. -/
theorem not_markAlone (h : IsBody (withoutMark mark name.toList)) :
    ((withoutMark mark name.toList).isEmpty && !name.toList.isEmpty) = false := by
  rw [List.isEmpty_eq_false_iff.2 h.ne_nil, Bool.false_and]

theorem tagFault?_eq_none_iff :
    tagFault? name = none ↔ IsBody (withoutMark tagMark name.toList) := by
  rw [← bodyFault?_eq_none_iff, tagFault?]
  constructor
  · intro h
    split at h
    · cases h
    · exact h
  · intro h
    rw [not_markAlone (bodyFault?_eq_none_iff.1 h)]
    exact h

theorem fieldFault?_eq_none_iff : fieldFault? name = none ↔
    IsBody (withoutMark headerMark name.toList) ∧
      ∀ c ∈ withoutMark headerMark name.toList, isSeparator c = false := by
  have hseparators : (∀ c ∈ withoutMark headerMark name.toList, isSeparator c = false) ↔
      (withoutMark headerMark name.toList).any isSeparator = false := by
    simp only [List.any_eq_false, Bool.not_eq_true]
  rw [hseparators, ← bodyFault?_eq_none_iff, fieldFault?]
  constructor
  · intro h
    split at h
    · cases h
    · split at h
      · cases h
      · next hbody =>
        split at h
        · cases h
        · next hany => exact ⟨hbody, Bool.eq_false_iff.2 hany⟩
  · rintro ⟨hbody, hany⟩
    simp only [not_markAlone (bodyFault?_eq_none_iff.1 hbody), hbody, hany, Bool.false_eq_true,
      if_false]

/-! ## Marks -/

theorem isAlphabetic_tagMark : Text.isAlphabetic tagMark = false := by decide

/-- A body does not begin with a mark. -/
theorem IsBody.head?_ne (h : IsBody cs) (hmark : Text.isAlphabetic mark = false) :
    cs.head? ≠ some mark := by
  obtain ⟨⟨c, rest, rfl, hc⟩, -⟩ := h
  rintro ⟨⟩
  rw [hmark] at hc
  cases hc

theorem withoutMark_of_head?_ne (h : cs.head? ≠ some mark) : withoutMark mark cs = cs := by
  cases cs with
  | nil => rfl
  | cons c rest =>
    rw [withoutMark, if_neg]
    rintro rfl
    exact h rfl

/-- What is left of a name without its mark, and at most that is taken off. -/
theorem exists_mark_append (mark : Char) (cs : List Char) :
    cs = withoutMark mark cs ∨ cs = mark :: withoutMark mark cs := by
  cases cs with
  | nil => exact .inl rfl
  | cons c rest =>
    by_cases hc : c = mark
    · rw [withoutMark, if_pos hc, hc]
      exact .inr rfl
    · rw [withoutMark, if_neg hc]
      exact .inl rfl

/-- A tag's name without the mark is left as it is. -/
theorem withoutTagMark_of_isBody (h : IsBody name.toList) : withoutTagMark name = name := by
  rw [withoutTagMark, withoutMark_of_head?_ne (h.head?_ne isAlphabetic_tagMark),
    String.ofList_toList]

theorem isBody_withoutTagMark (h : tagFault? name = none) :
    IsBody (withoutTagMark name).toList := by
  rw [withoutTagMark, String.toList_ofList]
  exact tagFault?_eq_none_iff.1 h

/-- A body is a tag's name that keeps the rules. -/
theorem tagFault?_of_isBody (h : IsBody name.toList) : tagFault? name = none := by
  rw [tagFault?_eq_none_iff, withoutMark_of_head?_ne (h.head?_ne isAlphabetic_tagMark)]
  exact h

/-- The characters of a field's name that keeps the rules are no separators, and there are some. -/
theorem isSeparator_of_fieldFault? (h : fieldFault? name = none) (hc : c ∈ name.toList) :
    isSeparator c = false := by
  obtain ⟨-, hseparators⟩ := fieldFault?_eq_none_iff.1 h
  rcases exists_mark_append headerMark name.toList with hname | hname
  · rw [hname] at hc
    exact hseparators c hc
  · rw [hname] at hc
    rcases List.mem_cons.1 hc with rfl | hc
    · decide
    · exact hseparators c hc

theorem toList_ne_nil_of_fieldFault? (h : fieldFault? name = none) : name.toList ≠ [] := by
  intro hnil
  have hbody := (fieldFault?_eq_none_iff.1 h).1.ne_nil
  rw [hnil] at hbody
  exact hbody rfl

end MessageScript.Name
