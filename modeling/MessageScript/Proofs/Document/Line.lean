import Mathlib.Data.List.Chain
import MessageScript.Document.Line

/-!
# Texts put together from their lines

A text is its lines, each with what ends it, and what stands behind the last end (`Layout`).  Where
a `\r` and an `\n` behind it always are one end (`WellFormed`), a text has one layout, and its lines
are those of the layout, whatever ends them.

    ∃ L, L.WellFormed ∧ L.chars = cs ∧ cut cs = L.texts                         (exists_layout)
    L.WellFormed → M.WellFormed → L.chars = M.chars → L = M                    (chars_injective)
    L.WellFormed → cut L.chars = L.texts                                            (cut_chars)
-/

namespace MessageScript

/-- What ends a line. -/
inductive LineEnd where
  | crlf
  | cr
  | lf
  deriving DecidableEq, Repr

/-- The characters of an end. -/
def LineEnd.chars : LineEnd → List Char
  | crlf => ['\r', '\n']
  | cr => ['\r']
  | lf => ['\n']

/-- The lines of a text that have an end, with their ends, and the text behind the last of them. -/
structure Layout where
  ended : List (List Char × LineEnd)
  last : List Char
  deriving DecidableEq, Repr

namespace Layout

variable {L M : Layout} {p q : List Char × LineEnd} {c : Char} {cs s t : List Char}

/-- Whether a text lies within one line. -/
def IsLineText (cs : List Char) : Prop := ∀ c ∈ cs, c ≠ '\r' ∧ c ≠ '\n'

/-- The text with this layout. -/
def chars (L : Layout) : List Char := (L.ended.flatMap fun p => p.1 ++ p.2.chars) ++ L.last

/-- The texts of the lines; nothing behind the last end is no line. -/
def texts (L : Layout) : List (List Char) :=
  L.ended.map Prod.fst ++ if L.last = [] then [] else [L.last]

/-- Whether the lines hold no ends, and no lone `\r` ends a line where an `\n` follows it. -/
structure WellFormed (L : Layout) : Prop where
  ended_text : ∀ p ∈ L.ended, IsLineText p.1
  last_text : IsLineText L.last
  apart : L.ended.IsChain fun p q => p.2 = .cr → q.1 = [] → q.2 ≠ .lf

/-- The layout with one more line in front. -/
def cons (p : List Char × LineEnd) (L : Layout) : Layout := ⟨p :: L.ended, L.last⟩

/-- The layout with one more character in front. -/
def addFront (c : Char) : Layout → Layout
  | ⟨[], last⟩ => ⟨[], c :: last⟩
  | ⟨(s, e) :: ended, last⟩ => ⟨(c :: s, e) :: ended, last⟩

/-! ## Lines in front -/

theorem chars_cons (p : List Char × LineEnd) (L : Layout) :
    (cons p L).chars = p.1 ++ (p.2.chars ++ L.chars) := by
  simp [cons, chars]

theorem texts_cons (p : List Char × LineEnd) (L : Layout) :
    (cons p L).texts = p.1 :: L.texts := rfl

theorem isLineText_nil : IsLineText [] := fun _ h => absurd h List.not_mem_nil

/-- In a well-formed layout an `\n` stands in front only as an end. -/
theorem head?_chars_eq_lf_iff (hL : L.WellFormed) :
    L.chars.head? = some '\n' ↔ ∃ q, L.ended.head? = some q ∧ q.1 = [] ∧ q.2 = .lf := by
  obtain ⟨ended, last⟩ := L
  cases ended with
  | nil =>
    refine iff_of_false ?_ (by simp)
    intro h
    have hmem : '\n' ∈ last := List.mem_of_mem_head? (by simpa [chars] using h)
    exact (hL.last_text '\n' hmem).2 rfl
  | cons q rest =>
    obtain ⟨s, e⟩ := q
    cases s with
    | nil => cases e <;> simp [chars, LineEnd.chars]
    | cons d s =>
      have hd := (hL.ended_text (d :: s, e) List.mem_cons_self) d List.mem_cons_self
      simpa [chars] using hd.2

theorem wellFormed_cons_iff : (cons p L).WellFormed ↔
    IsLineText p.1 ∧ L.WellFormed ∧ (p.2 = .cr → L.chars.head? ≠ some '\n') := by
  constructor
  · intro h
    have hchain := List.isChain_cons.1 h.apart
    have hL : L.WellFormed :=
      ⟨fun q hq => h.ended_text q (List.mem_cons_of_mem p hq), h.last_text, hchain.2⟩
    refine ⟨h.ended_text p List.mem_cons_self, hL, fun hp hhead => ?_⟩
    obtain ⟨q, hq, hnil, hlf⟩ := (head?_chars_eq_lf_iff hL).1 hhead
    exact hchain.1 q hq hp hnil hlf
  · rintro ⟨hp, hL, happart⟩
    refine ⟨List.forall_mem_cons.2 ⟨hp, hL.ended_text⟩, hL.last_text,
      List.isChain_cons.2 ⟨?_, hL.apart⟩⟩
    intro q hq hcr hnil hlf
    exact happart hcr ((head?_chars_eq_lf_iff hL).2 ⟨q, hq, hnil, hlf⟩)

/-! ## Characters in front -/

theorem chars_addFront (c : Char) (L : Layout) : (addFront c L).chars = c :: L.chars := by
  obtain ⟨_ | ⟨⟨s, e⟩, ended⟩, last⟩ := L <;> simp [addFront, chars]

/-- The character is put in front of the first line; without a line it makes one. -/
theorem texts_addFront (c : Char) (L : Layout) : (addFront c L).texts =
    match L.texts with
    | [] => [[c]]
    | first :: others => (c :: first) :: others := by
  obtain ⟨_ | ⟨⟨s, e⟩, ended⟩, last⟩ := L
  · by_cases hlast : last = [] <;> simp [addFront, texts, hlast]
  · rfl

theorem wellFormed_addFront (hL : L.WellFormed) (hc : c ≠ '\r' ∧ c ≠ '\n') :
    (addFront c L).WellFormed := by
  obtain ⟨_ | ⟨⟨s, e⟩, ended⟩, last⟩ := L
  · exact ⟨hL.ended_text, List.forall_mem_cons.2 ⟨hc, hL.last_text⟩, hL.apart⟩
  · obtain ⟨hs, hrest, hend⟩ := wellFormed_cons_iff (p := (s, e)) (L := ⟨ended, last⟩).1 hL
    exact wellFormed_cons_iff (p := (c :: s, e)) (L := ⟨ended, last⟩).2
      ⟨List.forall_mem_cons.2 ⟨hc, hs⟩, hrest, hend⟩

/-! ## The layout of a text -/

/-- A line does not go on where another line ends. -/
theorem ne_of_isLineText_cons (ht : IsLineText (c :: t)) (e : LineEnd) (x y : List Char) :
    e.chars ++ x ≠ c :: t ++ y := by
  have hc := ht c List.mem_cons_self
  intro h
  cases e with
  | lf => exact hc.2 (List.cons.inj h).1.symm
  | crlf | cr => exact hc.1 (List.cons.inj h).1.symm

/-- A text tells where its first line ends. -/
theorem append_end_inj {e f : LineEnd} {x y : List Char} (hs : IsLineText s) (ht : IsLineText t)
    (h : s ++ (e.chars ++ x) = t ++ (f.chars ++ y)) : s = t ∧ e.chars ++ x = f.chars ++ y := by
  induction s generalizing t with
  | nil =>
    cases t with
    | nil => exact ⟨rfl, h⟩
    | cons d t => exact absurd h (ne_of_isLineText_cons ht e x _)
  | cons c s ih =>
    cases t with
    | nil => exact absurd h.symm (ne_of_isLineText_cons hs f y _)
    | cons d t =>
      obtain ⟨rfl, htail⟩ := List.cons.inj h
      obtain ⟨rfl, hrest⟩ := ih (fun c' hc => hs c' (List.mem_cons_of_mem c hc))
        (fun c' hc => ht c' (List.mem_cons_of_mem c hc)) htail
      exact ⟨rfl, hrest⟩

/-- A text tells what ends its first line, if a lone `\r` has no `\n` behind it. -/
theorem end_append_inj {e f : LineEnd} {x y : List Char} (hx : e = .cr → x.head? ≠ some '\n')
    (hy : f = .cr → y.head? ≠ some '\n') (h : e.chars ++ x = f.chars ++ y) : e = f ∧ x = y := by
  cases e <;> cases f <;> simp [LineEnd.chars] at h ⊢
  case crlf.crlf | cr.cr | lf.lf => exact h
  case crlf.cr =>
    subst h
    exact hy rfl rfl
  case cr.crlf =>
    subst h
    exact hx rfl rfl

theorem not_isLineText_cons (p : List Char × LineEnd) (L : Layout) :
    ¬ IsLineText (cons p L).chars := by
  rw [chars_cons]
  intro h
  obtain ⟨s, e⟩ := p
  cases e with
  | lf => exact (h '\n' (by simp [LineEnd.chars])).2 rfl
  | crlf | cr => exact (h '\r' (by simp [LineEnd.chars])).1 rfl

/-- **A text has one layout only.** -/
theorem chars_injective (hL : L.WellFormed) (hM : M.WellFormed) (h : L.chars = M.chars) :
    L = M := by
  obtain ⟨ended, last⟩ := L
  -- The first lines agree by their texts, then by their ends, and the rest by induction.
  induction ended generalizing M with
  | nil =>
    obtain ⟨_ | ⟨q, ended'⟩, last'⟩ := M
    · exact congrArg (Layout.mk []) h
    · have htext : IsLineText (cons q ⟨ended', last'⟩).chars := h ▸ hL.last_text
      exact absurd htext (not_isLineText_cons q _)
  | cons p ended ih =>
    obtain ⟨_ | ⟨q, ended'⟩, last'⟩ := M
    · have htext : IsLineText (cons p ⟨ended, last⟩).chars := h ▸ hM.last_text
      exact absurd htext (not_isLineText_cons p _)
    · obtain ⟨hp, hrest, hpend⟩ := wellFormed_cons_iff (p := p) (L := ⟨ended, last⟩).1 hL
      obtain ⟨hq, hrest', hqend⟩ := wellFormed_cons_iff (p := q) (L := ⟨ended', last'⟩).1 hM
      have hchars : (cons p ⟨ended, last⟩).chars = (cons q ⟨ended', last'⟩).chars := h
      rw [chars_cons, chars_cons] at hchars
      obtain ⟨htext, hends⟩ := append_end_inj hp hq hchars
      obtain ⟨hend, hbehind⟩ := end_append_inj hpend hqend hends
      have hsame : (⟨ended, last⟩ : Layout) = ⟨ended', last'⟩ := ih hrest' hrest hbehind
      cases hsame
      rw [Prod.ext htext hend]

/-- **Every text has a layout, and its lines are those of the layout.** -/
theorem exists_layout (cs : List Char) :
    ∃ L : Layout, L.WellFormed ∧ L.chars = cs ∧ Line.cut cs = L.texts := by
  -- Each case of `cut` puts a line or a character in front of the layout of the rest.
  fun_induction Line.cut cs with
  | case1 => exact ⟨⟨[], []⟩, ⟨by simp, isLineText_nil, .nil⟩, rfl, rfl⟩
  | case2 rest ih =>
    obtain ⟨L, hL, rfl, hcut⟩ := ih
    refine ⟨cons ([], .crlf) L, wellFormed_cons_iff.2 ⟨isLineText_nil, hL, nofun⟩, ?_, ?_⟩
    · rw [chars_cons]
      rfl
    · rw [texts_cons, hcut]
  | case3 c rest hnot hc ih =>
    obtain ⟨L, hL, rfl, hcut⟩ := ih
    have hfront : ∃ e : LineEnd, e.chars = [c] ∧ (e = .cr → L.chars.head? ≠ some '\n') := by
      obtain rfl | rfl := hc
      · -- With an `\n` behind it the `\r` was cut off in the case before.
        refine ⟨.cr, rfl, fun _ hhead => ?_⟩
        obtain ⟨rest, hrest⟩ := List.head?_eq_some_iff.1 hhead
        exact hnot rest rfl hrest
      · exact ⟨.lf, rfl, nofun⟩
    obtain ⟨e, he, happart⟩ := hfront
    refine ⟨cons ([], e) L, wellFormed_cons_iff.2 ⟨isLineText_nil, hL, happart⟩, ?_, ?_⟩
    · rw [chars_cons, he]
      rfl
    · rw [texts_cons, hcut]
  | case4 c rest hnot hc hnil ih =>
    obtain ⟨L, hL, rfl, hcut⟩ := ih
    refine ⟨addFront c L, wellFormed_addFront hL (not_or.1 hc), chars_addFront c L, ?_⟩
    rw [texts_addFront, ← hcut, hnil]
  | case5 c rest hnot hc first others hcons ih =>
    obtain ⟨L, hL, rfl, hcut⟩ := ih
    refine ⟨addFront c L, wellFormed_addFront hL (not_or.1 hc), chars_addFront c L, ?_⟩
    rw [texts_addFront, ← hcut, hcons]

/-- The lines of a text with a layout are those of the layout. -/
theorem cut_chars (hL : L.WellFormed) : Line.cut L.chars = L.texts := by
  obtain ⟨M, hM, hchars, hcut⟩ := exists_layout L.chars
  rw [hcut, chars_injective hM hL hchars]

/-! ## Counting lines -/

/-- Whether a text ends where a line ends. -/
def EndsLine (cs : List Char) : Prop := cs.getLast? = some '\r' ∨ cs.getLast? = some '\n'

instance (cs : List Char) : Decidable (EndsLine cs) :=
  inferInstanceAs (Decidable (_ ∨ _))

theorem last_eq_nil_iff (hL : L.WellFormed) :
    L.last = [] ↔ L.chars = [] ∨ EndsLine L.chars := by
  obtain ⟨ended, last⟩ := L
  obtain rfl | ⟨front, c, rfl⟩ := List.eq_nil_or_concat last
  · refine iff_of_true rfl ?_
    obtain rfl | ⟨front, ⟨s, e⟩, rfl⟩ := List.eq_nil_or_concat ended
    · exact .inl rfl
    · cases e <;> simp [EndsLine, chars, LineEnd.chars]
  · have hc : c ≠ '\r' ∧ c ≠ '\n' := hL.last_text c (by simp)
    refine iff_of_false (by simp) ?_
    simpa [EndsLine, chars] using hc

theorem length_texts (hL : L.WellFormed) :
    L.texts.length = L.ended.length + if L.chars = [] ∨ EndsLine L.chars then 0 else 1 := by
  rw [texts, List.length_append, List.length_map]
  by_cases hlast : L.last = []
  · rw [if_pos hlast, if_pos ((last_eq_nil_iff hL).1 hlast), List.length_nil]
  · rw [if_neg hlast, if_neg (mt (last_eq_nil_iff hL).2 hlast), List.length_singleton]

theorem isLineText_of_mem_texts (hL : L.WellFormed) (hs : s ∈ L.texts) : IsLineText s := by
  rw [texts, List.mem_append, List.mem_map] at hs
  obtain ⟨p, hp, rfl⟩ | hs := hs
  · exact hL.ended_text p hp
  · split at hs
    · cases hs
    · obtain rfl := List.mem_singleton.1 hs
      exact hL.last_text

/-- What a text starts with, if that is no end, its first line starts with. -/
theorem head?_chars_eq_iff (hc : c ≠ '\r' ∧ c ≠ '\n') :
    L.chars.head? = some c ↔ ∃ s others, L.texts = (c :: s) :: others := by
  obtain ⟨_ | ⟨⟨s, e⟩, ended⟩, last⟩ := L
  · cases last <;> simp [chars, texts]
  · cases s with
    | nil =>
      refine iff_of_false ?_ (by simp [texts])
      cases e <;> simp [chars, LineEnd.chars, Ne.symm hc.1, Ne.symm hc.2]
    | cons d s => simp [chars, texts]

end Layout

/-! ## Lines of a document -/

namespace Line

/-- The byte-order mark in front of a text, if it is left out. -/
def skipped (rules : ScanRules) (cs : List Char) : List Char :=
  if rules.dropsByteOrderMark ∧ cs.head? = some byteOrderMark then [byteOrderMark] else []

variable {text : String} {rules : ScanRules} {cs : List Char}

theorem exists_behind_skipped (rules : ScanRules) (cs : List Char) :
    ∃ rest, cs = skipped rules cs ++ rest := by
  by_cases h : rules.dropsByteOrderMark ∧ cs.head? = some byteOrderMark
  · obtain ⟨rest, hrest⟩ := List.head?_eq_some_iff.1 h.2
    refine ⟨rest, ?_⟩
    rw [skipped, if_pos h, List.singleton_append, hrest]
  · refine ⟨cs, ?_⟩
    rw [skipped, if_neg h, List.nil_append]

theorem scan_of_skipped (h : text.toList = skipped rules text.toList ++ cs) :
    scan text rules = numberFrom 1 (cut cs) := by
  have hrest : (if rules.dropsByteOrderMark then withoutByteOrderMark text.toList
      else text.toList) = cs := by
    generalize text.toList = whole at h
    unfold skipped at h
    by_cases hdrops : rules.dropsByteOrderMark = true
    · cases whole with
      | nil => simpa [hdrops, withoutByteOrderMark] using h
      | cons c whole =>
        by_cases hc : c = byteOrderMark
        · simpa [hdrops, hc, withoutByteOrderMark] using h
        · simpa [hdrops, hc, withoutByteOrderMark] using h
    · simpa [hdrops] using h
  rw [scan, hrest]

theorem map_number_numberFrom (n : Nat) (texts : List (List Char)) :
    (numberFrom n texts).map Line.number = List.range' n texts.length := by
  induction texts generalizing n with
  | nil => rfl
  | cons t texts ih => rw [numberFrom, List.map_cons, ih, List.length_cons, List.range'_succ]

theorem length_numberFrom (n : Nat) (texts : List (List Char)) :
    (numberFrom n texts).length = texts.length := by
  induction texts generalizing n with
  | nil => rfl
  | cons t texts ih => rw [numberFrom, List.length_cons, List.length_cons, ih]

/-- Lines are counted from one. -/
theorem map_number_scan (text : String) (rules : ScanRules) :
    (scan text rules).map Line.number = List.range' 1 (scan text rules).length := by
  rw [scan, map_number_numberFrom, length_numberFrom]

theorem map_text_numberFrom (n : Nat) (texts : List (List Char)) :
    (numberFrom n texts).map (fun l => l.text.toList) = texts := by
  induction texts generalizing n with
  | nil => rfl
  | cons t texts ih => rw [numberFrom, List.map_cons, ih, String.toList_ofList]

/-- Whether a mark is left out depends on the first lines' texts, not on what ends them. -/
theorem skipped_of_texts {L M : Layout} (hcs : cs = skipped rules cs ++ L.chars)
    (htexts : M.texts = L.texts) :
    skipped rules (skipped rules cs ++ M.chars) = skipped rules cs := by
  have hmark : byteOrderMark ≠ '\r' ∧ byteOrderMark ≠ '\n' := by decide
  have hhead : M.chars.head? = some byteOrderMark ↔ L.chars.head? = some byteOrderMark := by
    rw [Layout.head?_chars_eq_iff hmark, Layout.head?_chars_eq_iff hmark, htexts]
  by_cases h : rules.dropsByteOrderMark ∧ cs.head? = some byteOrderMark
  · have hskipped : skipped rules cs = [byteOrderMark] := if_pos h
    rw [hskipped]
    exact if_pos ⟨h.1, rfl⟩
  · have hskipped : skipped rules cs = [] := if_neg h
    rw [hskipped, List.nil_append] at hcs ⊢
    rw [hcs, ← hhead] at h
    exact if_neg h

/-- **A text is its lines, each with what ends it, and it is cut into exactly these.**  Behind the
byte-order mark that is left out it has one layout.  Its lines are those of the layout, counted from
one; there are as many as ends, and one more if something stands behind the last end.  Every other
layout of the same lines, so one with other ends, makes a text with the same lines. -/
theorem scan_lossless (text : String) (rules : ScanRules) :
    ∃ L : Layout, L.WellFormed ∧ text.toList = skipped rules text.toList ++ L.chars ∧
      (∀ M : Layout, M.WellFormed → text.toList = skipped rules text.toList ++ M.chars → M = L) ∧
      (scan text rules).map Line.number = List.range' 1 (scan text rules).length ∧
      (scan text rules).map (fun l => l.text.toList) = L.texts ∧
      (∀ l ∈ scan text rules, Layout.IsLineText l.text.toList) ∧
      (scan text rules).length =
        L.ended.length + (if L.chars = [] ∨ Layout.EndsLine L.chars then 0 else 1) ∧
      ∀ M : Layout, M.WellFormed → M.texts = L.texts →
        scan (String.ofList (skipped rules text.toList ++ M.chars)) rules = scan text rules := by
  obtain ⟨cs, hcs⟩ := exists_behind_skipped rules text.toList
  obtain ⟨L, hL, rfl, hcut⟩ := Layout.exists_layout cs
  have hscan : scan text rules = numberFrom 1 L.texts := by rw [scan_of_skipped hcs, hcut]
  have htexts : (scan text rules).map (fun l => l.text.toList) = L.texts := by
    rw [hscan, map_text_numberFrom]
  refine ⟨L, hL, hcs, ?_, map_number_scan text rules, htexts, ?_, ?_, ?_⟩
  · intro M hM hchars
    exact Layout.chars_injective hM hL (List.append_cancel_left (hchars.symm.trans hcs))
  · intro l hl
    refine Layout.isLineText_of_mem_texts hL ?_
    rw [← htexts]
    exact List.mem_map_of_mem hl
  · rw [hscan, length_numberFrom, Layout.length_texts hL]
  · intro M hM hsame
    have hother : (String.ofList (skipped rules text.toList ++ M.chars)).toList =
        skipped rules (String.ofList (skipped rules text.toList ++ M.chars)).toList ++ M.chars := by
      rw [String.toList_ofList, skipped_of_texts hcs hsame]
    rw [scan_of_skipped hother, Layout.cut_chars hM, hsame, hscan]

/-- Four lines behind a mark, ended in three ways or not at all. -/
def mixedEnds : Layout := ⟨[(['a'], .crlf), (['b'], .cr), ([], .cr)], ['c']⟩

/-- The same lines with other ends. -/
def otherEnds : Layout := ⟨[(['a'], .cr), (['b'], .crlf), ([], .lf)], ['c']⟩

theorem wellFormed_mixedEnds : mixedEnds.WellFormed :=
  ⟨by simp [mixedEnds, Layout.IsLineText], by simp [mixedEnds, Layout.IsLineText],
    by simp [mixedEnds]⟩

theorem wellFormed_otherEnds : otherEnds.WellFormed :=
  ⟨by simp [otherEnds, Layout.IsLineText], by simp [otherEnds, Layout.IsLineText],
    by simp [otherEnds]⟩

theorem scan_lossless_mixedEnds :
    String.ofList (byteOrderMark :: mixedEnds.chars) = "\ufeffa\r\nb\r\rc" ∧
    String.ofList (byteOrderMark :: otherEnds.chars) = "\ufeffa\rb\r\n\nc" ∧
    scan "\ufeffa\rb\r\n\nc" .standard = scan "\ufeffa\r\nb\r\rc" .standard := by
  have hmixed : String.ofList (byteOrderMark :: mixedEnds.chars) = "\ufeffa\r\nb\r\rc" := by decide
  have hother : String.ofList (byteOrderMark :: otherEnds.chars) = "\ufeffa\rb\r\n\nc" := by decide
  obtain ⟨L, -, -, hunique, -, -, -, -, hsame⟩ := scan_lossless "\ufeffa\r\nb\r\rc" .standard
  have hL : mixedEnds = L := hunique mixedEnds wellFormed_mixedEnds (by decide)
  have hscan := hsame otherEnds wellFormed_otherEnds (by rw [← hL]; rfl)
  refine ⟨hmixed, hother, ?_⟩
  rw [← hother]
  exact hscan

end Line

end MessageScript
