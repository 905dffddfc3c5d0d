import MessageScript.Proofs.Text.LetterCase

/-!
# Sigmas that end words

The lowercase form of a whole text differs from those of its characters in one thing: a capital
sigma that ends a word becomes `ς`, not `σ`.  Here it is said when the two comparisons of texts, by
`lowerText` and by `lowerEach`, come to the same.  That depends on where one text has sigmas that
end words (`finalIn`), which is a matter of the places only: texts that either comparison takes for
equal have a sigma at the end of a word both or neither.

    lowerText cs = lowerEach cs ↔ no capital sigma ends a word          (lowerText_eq_lowerEach_iff)
    no sigma ends a word in `a` ↔
      ∀ b, lowerText a = lowerText b ↔ lowerEach a = lowerEach b            (not_finalIn_iff)
-/

namespace MessageScript.Text

/-! ## Letters at the ends of words -/

/-- Whether one of some letters ends a word in a text after the reversed text `before`. -/
def finalIn (letters before : List Char) : List Char → Bool
  | [] => false
  | c :: rest => (letters.contains c && endsWord before rest) || finalIn letters (c :: before) rest

/-- The capital, the small and the final sigma. -/
def sigmas : List Char := ['Σ', 'σ', 'ς']

/-- A text with a letter at the end of a word is cut there. -/
theorem finalIn_iff {letters before cs : List Char} :
    finalIn letters before cs = true ↔ ∃ front c rest, cs = front ++ c :: rest ∧ c ∈ letters ∧
      endsWord (front.reverse ++ before) rest = true := by
  induction cs generalizing before with
  | nil => simp [finalIn]
  | cons c rest ih =>
    rw [finalIn, Bool.or_eq_true, Bool.and_eq_true, List.contains_iff_mem, ih]
    constructor
    · rintro (⟨hc, hend⟩ | ⟨front, d, after, rfl, hd, hend⟩)
      · exact ⟨[], c, rest, rfl, hc, hend⟩
      · refine ⟨c :: front, d, after, rfl, hd, ?_⟩
        rw [List.reverse_cons, List.append_assoc]
        exact hend
    · rintro ⟨front, d, after, hcut, hd, hend⟩
      cases front with
      | nil =>
        cases hcut
        exact .inl ⟨hd, hend⟩
      | cons e front =>
        cases hcut
        rw [List.reverse_cons, List.append_assoc] at hend
        exact .inr ⟨front, d, after, rfl, hd, hend⟩

theorem finalIn_mono {letters more before cs : List Char} (hsub : letters ⊆ more)
    (h : finalIn letters before cs = true) : finalIn more before cs = true := by
  obtain ⟨front, c, rest, hcut, hc, hend⟩ := finalIn_iff.1 h
  exact finalIn_iff.2 ⟨front, c, rest, hcut, hsub hc, hend⟩

theorem startsCased_cons (c : Char) (cs : List Char) : startsCased (c :: cs) =
    if isCaseIgnorable c = true then startsCased cs else isCased c := by
  unfold startsCased
  rw [List.dropWhile_cons]
  by_cases h : isCaseIgnorable c = true
  · rw [if_pos h, if_pos h]
  · rw [if_neg h, if_neg h]

/-! ## The two lowercase forms of a text -/

theorem lower_capitalSigma : lower 'Σ' = ['σ'] := by decide

theorem lower_smallSigma : lower 'σ' = ['σ'] := by decide

theorem lower_finalSigma : lower 'ς' = ['ς'] := by decide

theorem lowerEach_cons (c : Char) (cs : List Char) :
    lowerEach (c :: cs) = lower c ++ lowerEach cs := List.flatMap_cons

theorem lowerEach_append (a b : List Char) : lowerEach (a ++ b) = lowerEach a ++ lowerEach b :=
  List.flatMap_append

theorem lowerEach_singleton (c : Char) : lowerEach [c] = lower c := by
  rw [lowerEach_cons, lowerEach, List.flatMap_nil, List.append_nil]

theorem lowerAfter_eq_lowerEach_iff {before cs : List Char} :
    lowerAfter before cs = lowerEach cs ↔ finalIn ['Σ'] before cs = false := by
  induction cs generalizing before with
  | nil => simp [lowerAfter, lowerEach, finalIn]
  | cons c rest ih =>
    rw [lowerAfter, lowerEach_cons, finalIn, Bool.or_eq_false_iff, ← ih]
    by_cases hc : c = 'Σ'
    · subst hc
      rw [if_pos rfl, lower_capitalSigma]
      cases endsWord before rest with
      | true => simp
      | false => simp
    · rw [if_neg hc, List.append_right_inj]
      simp [hc]

/-- The lowercase form of a text is that of its characters unless a capital sigma ends a word. -/
theorem lowerText_eq_lowerEach_iff {cs : List Char} :
    lowerText cs = lowerEach cs ↔ finalIn ['Σ'] [] cs = false := lowerAfter_eq_lowerEach_iff

/-- Lowercase forms are their own lowercase forms. -/
theorem lowerEach_lower (c : Char) : lowerEach (lower c) = lower c := by
  rcases lower_cases c with h | rfl | ⟨d, h, -, -, hd, -, -⟩
  · rw [h, lowerEach_singleton, h]
  · decide
  · rw [h, lowerEach_singleton, hd]

theorem lowerEach_lowerAfter (before cs : List Char) :
    lowerEach (lowerAfter before cs) = lowerAfter before cs := by
  induction cs generalizing before with
  | nil => rfl
  | cons c rest ih =>
    rw [lowerAfter, lowerEach_append, ih]
    congr 1
    split
    · split
      · rw [lowerEach_singleton, lower_finalSigma]
      · rw [lowerEach_singleton, lower_smallSigma]
    · exact lowerEach_lower c

theorem lowerEach_lowerText (cs : List Char) : lowerEach (lowerText cs) = lowerText cs :=
  lowerEach_lowerAfter [] cs

theorem lowerEach_lowerEach (cs : List Char) : lowerEach (lowerEach cs) = lowerEach cs := by
  induction cs with
  | nil => rfl
  | cons c rest ih => rw [lowerEach_cons, lowerEach_append, ih, lowerEach_lower]

/-- No lowercase form has a capital sigma. -/
theorem capitalSigma_notMem_lowerEach (cs : List Char) : 'Σ' ∉ lowerEach cs := by
  intro h
  obtain ⟨c, -, hc⟩ := List.mem_flatMap.1 h
  rcases lower_cases c with hlower | rfl | ⟨d, hlower, -, -, hd, -, -⟩
  · rw [hlower, List.mem_singleton] at hc
    rw [← hc, lower_capitalSigma] at hlower
    cases hlower
  · revert hc
    decide
  · rw [hlower, List.mem_singleton] at hc
    rw [← hc, lower_capitalSigma] at hd
    cases hd

/-! ## Shapes -/

/-- A character, and the small sigma in the place of the final one. -/
def small (c : Char) : Char := if c = 'ς' then 'σ' else c

/-- The lowercase form of a character, whatever sigma it may be. -/
def shape (c : Char) : List Char := (lower c).map small

theorem small_eq_self {c : Char} (h : c ≠ 'ς') : small c = c := if_neg h

/-- The shape of a character is one character of the same sort, and a sigma's is the small one. -/
theorem shape_cases (c : Char) : c = 'İ' ∨ ∃ d, shape c = [d] ∧ isCased d = isCased c ∧
    isCaseIgnorable d = isCaseIgnorable c ∧ (d = 'σ' ↔ c ∈ sigmas) := by
  rcases lower_cases c with h | rfl | ⟨d, h, hc, hd, hself, hfinal, hsmall⟩
  · by_cases hc : c = 'ς'
    · subst hc
      exact .inr ⟨'σ', by decide⟩
    · refine .inr ⟨c, ?_, rfl, rfl, ?_⟩
      · rw [shape, h, List.map_singleton, small_eq_self hc]
      · have hcap : c ≠ 'Σ' := by
          rintro rfl
          rw [lower_capitalSigma] at h
          cases h
        simp [sigmas, hc, hcap]
  · exact .inl rfl
  · refine .inr ⟨d, ?_, ?_, ?_, ?_⟩
    · rw [shape, h, List.map_singleton, small_eq_self hfinal]
    · rw [hd.1, hc.1]
    · rw [hd.2, hc.2]
    · constructor
      · intro hd
        rw [hsmall hd]
        decide
      · intro hmem
        simp only [sigmas, List.mem_cons, List.not_mem_nil, or_false] at hmem
        rcases hmem with rfl | rfl | rfl
        · exact List.singleton_inj.1 (h.symm.trans lower_capitalSigma)
        · exact List.singleton_inj.1 (h.symm.trans lower_smallSigma)
        · exact absurd (List.singleton_inj.1 (h.symm.trans lower_finalSigma)) hfinal

theorem shape_dotted : shape 'İ' = ['i', '\u0307'] := by decide

theorem startsCased_of_isLetter {c : Char} (h : IsLetter c) (cs : List Char) :
    startsCased (c :: cs) = true := by
  rw [startsCased_cons, h.2, h.1]
  rfl

theorem isLetter_i : IsLetter 'i' := ⟨by decide, by decide +kernel⟩

theorem isLetter_dotted : IsLetter 'İ' := ⟨by decide, by decide +kernel⟩

theorem isCaseIgnorable_dot : isCaseIgnorable '\u0307' = true := by decide

/-- The shapes of a text's characters. -/
def shapes (cs : List Char) : List Char := cs.flatMap shape

/-- The shapes of a text that is read backwards. -/
def shapesBack (cs : List Char) : List Char := cs.flatMap fun c => (shape c).reverse

theorem shapes_eq_map_lowerEach (cs : List Char) : shapes cs = (lowerEach cs).map small :=
  List.map_flatMap.symm

theorem shapes_eq_map_lowerAfter (before cs : List Char) :
    shapes cs = (lowerAfter before cs).map small := by
  induction cs generalizing before with
  | nil => rfl
  | cons c rest ih =>
    rw [lowerAfter, List.map_append, ← ih, shapes, List.flatMap_cons]
    congr 1
    split
    · next hc =>
      subst hc
      rw [shape, lower_capitalSigma]
      split <;> rfl
    · rfl

theorem startsCased_shapes (cs : List Char) : startsCased (shapes cs) = startsCased cs := by
  induction cs with
  | nil => rfl
  | cons c rest ih =>
    rw [shapes, List.flatMap_cons, ← shapes]
    rcases shape_cases c with rfl | ⟨d, h, hcased, hseen, -⟩
    · rw [shape_dotted, startsCased_of_isLetter isLetter_dotted]
      exact startsCased_of_isLetter isLetter_i _
    · rw [h, List.singleton_append, startsCased_cons, startsCased_cons, ih, hcased, hseen]

theorem startsCased_shapesBack (cs : List Char) :
    startsCased (shapesBack cs) = startsCased cs := by
  induction cs with
  | nil => rfl
  | cons c rest ih =>
    rw [shapesBack, List.flatMap_cons, ← shapesBack]
    rcases shape_cases c with rfl | ⟨d, h, hcased, hseen, -⟩
    · -- case looks through the dot, and then there is the `i`
      show startsCased ('\u0307' :: 'i' :: shapesBack rest) = _
      rw [startsCased_cons, if_pos isCaseIgnorable_dot, startsCased_of_isLetter isLetter_i,
        startsCased_of_isLetter isLetter_dotted]
    · rw [h, List.reverse_singleton, List.singleton_append, startsCased_cons, startsCased_cons,
        ih, hcased, hseen]

/-- A text's sigmas end words where the small ones of its shapes do. -/
theorem finalIn_shapes (before cs : List Char) :
    finalIn ['σ'] (shapesBack before) (shapes cs) = finalIn sigmas before cs := by
  induction cs generalizing before with
  | nil => rfl
  | cons c rest ih =>
    -- what is behind `c` grows by its shape read backwards
    have hrest := ih (c :: before)
    rw [shapesBack, List.flatMap_cons, ← shapesBack] at hrest
    rw [shapes, List.flatMap_cons, ← shapes, finalIn, ← hrest]
    rcases shape_cases c with rfl | ⟨d, h, -, -, hsigma⟩
    · -- neither the `i` nor the dot is a sigma
      rw [shape_dotted]
      rfl
    · rw [h, List.singleton_append, finalIn, endsWord, startsCased_shapesBack, startsCased_shapes,
        ← endsWord]
      have hd : ['σ'].contains d = sigmas.contains c := by
        rw [Bool.eq_iff_iff, List.contains_iff_mem, List.contains_iff_mem, List.mem_singleton]
        exact hsigma
      rw [hd]
      rfl

/-- Texts of one shape have a sigma at the end of a word both or neither. -/
theorem finalIn_congr {a b : List Char} (h : shapes a = shapes b) :
    finalIn sigmas [] a = finalIn sigmas [] b := by
  rw [← finalIn_shapes [] a, ← finalIn_shapes [] b, h]

/-! ## When the two comparisons come to the same -/

theorem lowerText_eq_of_not_final {cs : List Char} (h : finalIn sigmas [] cs = false) :
    lowerText cs = lowerEach cs := by
  rw [lowerText_eq_lowerEach_iff]
  by_contra hfinal
  rw [Bool.not_eq_false] at hfinal
  rw [finalIn_mono (by decide) hfinal] at h
  cases h

/-- Where no sigma ends a word, a text is compared in one way. -/
theorem lowerText_eq_iff_of_not_final {a b : List Char} (h : finalIn sigmas [] a = false) :
    lowerText a = lowerText b ↔ lowerEach a = lowerEach b := by
  have hforms : ∀ b, shapes a = shapes b → lowerText b = lowerEach b := by
    intro b hshapes
    apply lowerText_eq_of_not_final
    rw [← finalIn_congr hshapes, h]
  constructor
  · intro heq
    rw [← hforms a rfl, ← hforms b, heq]
    rw [shapes_eq_map_lowerAfter [] a, shapes_eq_map_lowerAfter [] b]
    exact congrArg (List.map small) heq
  · intro heq
    rw [hforms a rfl, hforms b, heq]
    rw [shapes_eq_map_lowerEach, shapes_eq_map_lowerEach, heq]

/-- A text, after the reversed text `before`, with a capital sigma for each `letter` that ends a
word. -/
def raise (letter : Char) (before : List Char) : List Char → List Char
  | [] => []
  | c :: rest =>
    (if c = letter ∧ endsWord before rest = true then 'Σ' else c) :: raise letter (c :: before) rest

theorem isLetter_sigma {c : Char} (h : c ∈ sigmas) : IsLetter c := by
  simp only [sigmas, List.mem_cons, List.not_mem_nil, or_false] at h
  rcases h with rfl | rfl | rfl
  · exact ⟨by decide, by decide +kernel⟩
  · exact ⟨by decide, by decide +kernel⟩
  · exact ⟨by decide, by decide +kernel⟩

theorem startsCased_cons_congr {c d : Char} {cs ds : List Char}
    (h : c = d ∨ c ∈ sigmas ∧ d ∈ sigmas) (hrest : startsCased cs = startsCased ds) :
    startsCased (c :: cs) = startsCased (d :: ds) := by
  rcases h with rfl | ⟨hc, hd⟩
  · rw [startsCased_cons, startsCased_cons, hrest]
  · rw [startsCased_of_isLetter (isLetter_sigma hc), startsCased_of_isLetter (isLetter_sigma hd)]

section Raise

variable {letter : Char} (hletter : letter ∈ sigmas)

include hletter

theorem raised_or_same (c : Char) (p : Prop) [Decidable p] :
    (if c = letter ∧ p then 'Σ' else c) = c ∨
      (if c = letter ∧ p then 'Σ' else c) ∈ sigmas ∧ c ∈ sigmas := by
  split
  · next h =>
    rw [h.1]
    exact .inr ⟨by decide, hletter⟩
  · exact .inl rfl

theorem startsCased_raise (before cs : List Char) :
    startsCased (raise letter before cs) = startsCased cs := by
  induction cs generalizing before with
  | nil => rfl
  | cons c rest ih =>
    rw [raise]
    exact startsCased_cons_congr (raised_or_same hletter c _) (ih _)

/-- Where a sigma ended a word a capital one does now. -/
theorem finalIn_raise {before before' cs : List Char}
    (hbefore : startsCased before' = startsCased before)
    (h : finalIn [letter] before cs = true) :
    finalIn ['Σ'] before' (raise letter before cs) = true := by
  induction cs generalizing before before' with
  | nil => cases h
  | cons c rest ih =>
    rw [finalIn, Bool.or_eq_true, Bool.and_eq_true, List.contains_iff_mem, List.mem_singleton] at h
    rw [raise, finalIn, Bool.or_eq_true]
    rcases h with ⟨hc, hend⟩ | hlater
    · refine .inl ?_
      rw [if_pos ⟨hc, hend⟩, endsWord, hbefore, startsCased_raise hletter, ← endsWord, hend]
      rfl
    · refine .inr (ih ?_ hlater)
      exact startsCased_cons_congr (raised_or_same hletter c _) hbefore

end Raise

/-- A small sigma and the capital one have the same form. -/
theorem lowerEach_raise_small (before cs : List Char) :
    lowerEach (raise 'σ' before cs) = lowerEach cs := by
  induction cs generalizing before with
  | nil => rfl
  | cons c rest ih =>
    rw [raise, lowerEach_cons, lowerEach_cons, ih]
    congr 1
    split
    · next h => rw [h.1, lower_capitalSigma, lower_smallSigma]
    · rfl

/-- A capital sigma that ends a word becomes the final one. -/
theorem lowerAfter_raise_final {before before' cs : List Char}
    (hbefore : startsCased before' = startsCased before) (h : finalIn ['Σ'] before cs = false) :
    lowerAfter before' (raise 'ς' before cs) = lowerEach cs := by
  have hletter : 'ς' ∈ sigmas := by decide
  induction cs generalizing before before' with
  | nil => rfl
  | cons c rest ih =>
    rw [finalIn, Bool.or_eq_false_iff] at h
    rw [raise, lowerAfter, lowerEach_cons,
      ih (startsCased_cons_congr (raised_or_same hletter c _) hbefore) h.2]
    congr 1
    have hend : endsWord before' (raise 'ς' (c :: before) rest) = endsWord before rest := by
      rw [endsWord, hbefore, startsCased_raise hletter, endsWord]
    rw [hend]
    by_cases hraised : c = 'ς' ∧ endsWord before rest = true
    · rw [if_pos hraised, if_pos rfl, if_pos hraised.2, hraised.1, lower_finalSigma]
    · rw [if_neg hraised]
      split
      · next hc =>
        subst hc
        have hnot : endsWord before rest = false := by
          rw [List.contains_iff_mem.2 List.mem_cons_self, Bool.true_and] at h
          exact h.1
        rw [hnot, lower_capitalSigma]
        rfl
      · rfl

/-- A text with a sigma at the end of a word is the same as some text in one way only. -/
theorem exists_of_finalIn {a : List Char} (h : finalIn sigmas [] a = true) :
    ∃ b, ¬(lowerText a = lowerText b ↔ lowerEach a = lowerEach b) := by
  obtain ⟨front, c, rest, hcut, hc, hend⟩ := finalIn_iff.1 h
  have hfinal : finalIn [c] [] a = true :=
    finalIn_iff.2 ⟨front, c, rest, hcut, List.mem_singleton.2 rfl, hend⟩
  by_cases hcap : finalIn ['Σ'] [] a = true
  · -- the text of the characters' own forms
    refine ⟨lowerEach a, ?_⟩
    intro hsame
    rw [lowerText_eq_lowerEach (capitalSigma_notMem_lowerEach a), lowerEach_lowerEach,
      lowerText_eq_lowerEach_iff, hcap] at hsame
    exact absurd (hsame.2 rfl) (by decide)
  · rw [Bool.not_eq_true] at hcap
    have hform : lowerText a = lowerEach a := lowerText_eq_lowerEach_iff.2 hcap
    have hraised : ∀ letter ∈ sigmas, finalIn [letter] [] a = true →
        lowerText (raise letter [] a) ≠ lowerEach (raise letter [] a) := by
      intro letter hletter hl heq
      rw [lowerText_eq_lowerEach_iff, finalIn_raise hletter rfl hl] at heq
      cases heq
    simp only [sigmas, List.mem_cons, List.not_mem_nil, or_false] at hc
    rcases hc with rfl | rfl | rfl
    · rw [hfinal] at hcap
      cases hcap
    · -- the characters' forms stay, the form of the text gets a final sigma
      refine ⟨raise 'σ' [] a, ?_⟩
      intro hsame
      apply hraised 'σ' (by decide) hfinal
      rw [← hsame.2 (lowerEach_raise_small [] a).symm, hform, lowerEach_raise_small]
    · -- the form of the text stays, those of the characters get a small sigma
      refine ⟨raise 'ς' [] a, ?_⟩
      have hkey : lowerText (raise 'ς' [] a) = lowerEach a := lowerAfter_raise_final rfl hcap
      intro hsame
      apply hraised 'ς' (by decide) hfinal
      rw [hkey, hsame.1 (hform.trans hkey.symm)]

/-- **The two comparisons of a text come to the same, whatever it is compared with, just if no sigma
ends a word in it.** -/
theorem not_finalIn_iff {a : List Char} : finalIn sigmas [] a = false ↔
    ∀ b, lowerText a = lowerText b ↔ lowerEach a = lowerEach b := by
  constructor
  · intro h b
    exact lowerText_eq_iff_of_not_final h
  · intro h
    by_contra hfinal
    rw [Bool.not_eq_false] at hfinal
    obtain ⟨b, hb⟩ := exists_of_finalIn hfinal
    exact hb (h b)

end MessageScript.Text
