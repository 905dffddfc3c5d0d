import MessageScript.Document.Section
import MessageScript.Proofs.Document.Line
import MessageScript.Proofs.Naming

/-!
# Lines grouped into sections

What a header is, and what is wrong with a line, said of the lines alone (`HasHeader`,
`FaultyAfter`).  Lines without a fault are a preamble of blank lines and comments and then blocks,
each a header and the lines up to the next one (`Blocks`); these are the sections.  Otherwise the
first faulty line is the error.

    group lines rules = .ok sections ↔ ∃ preamble blocks, lines = preamble ++ blocks ∧
      (∀ l ∈ preamble, ¬ l.IsBracketed ∧ l.IsSilent rules) ∧ Blocks blocks sections
                                                                              (group_eq_ok_iff)
    FaultFree rules before → l.FaultyAfter rules before →
      group (before ++ l :: after) rules = .error (l.fault rules f) for some f
                                                                     (exists_group_eq_error)
-/

namespace MessageScript

/-! ## Single lines -/

namespace Line

variable {l : Line} {rules : ScanRules} {name : String} {cs body : List Char}

/-- Whether a line, between blanks, begins with a bracket. -/
def IsBracketed (l : Line) : Prop := (Text.trim l.text.toList).head? = some '['

/-- Whether a line, between blanks, is a name in brackets; blanks may stand around the name. -/
def HasHeader (l : Line) (name : String) : Prop :=
  ∃ body, Text.trim l.text.toList = '[' :: (body ++ [']']) ∧
    name = String.ofList (Text.trim body) ∧ Name.IsBody name.toList

/-- Whether a line is the header of a section. -/
def IsHeader (l : Line) : Prop := ∃ name, l.HasHeader name

/-- Whether a line is blank or a comment. -/
def IsSilent (l : Line) (rules : ScanRules) : Prop :=
  l.isBlank = true ∨ rules.isComment l.text = true

/-- Whether a line breaks the layout of sections behind the lines `before`. -/
def FaultyAfter (rules : ScanRules) (before : List Line) (l : Line) : Prop :=
  (l.IsBracketed ∧ ¬ l.IsHeader) ∨
    ((∀ h ∈ before, ¬ h.IsHeader) ∧ ¬ l.IsHeader ∧ ¬ l.IsSilent rules)

theorem fault_eq (l : Line) (rules : ScanRules) (f : LineFault) : l.fault rules f =
    { cause := .malformedDocument l.number f.message
      location := some ⟨rules.source, some l.number, some 1, []⟩ } := by
  unfold fault
  cases rules.source <;> rfl

theorem HasHeader.isBracketed (h : l.HasHeader name) : l.IsBracketed := by
  obtain ⟨body, htrim, -, -⟩ := h
  rw [IsBracketed, htrim]
  rfl

theorem beforeBracket?_eq_some_iff : beforeBracket? cs = some body ↔ cs = body ++ [']'] := by
  unfold beforeBracket?
  constructor
  · intro h
    split at h
    · next rest hrest =>
      cases h
      rw [← List.reverse_cons, ← hrest, List.reverse_reverse]
    · cases h
  · rintro rfl
    simp

theorem identifier_eq_ok_iff {out : String} :
    Name.identifier name = .ok out ↔ Name.IsBody name.toList ∧ out = name := by
  rw [Name.identifier, Name.checked_eq_ok_iff, Name.identifierFault?, Name.bodyFault?_eq_none_iff]

/-- A line that does not begin with a bracket is passed over. -/
theorem header?_of_not_isBracketed (h : ¬ l.IsBracketed) : l.header? rules = .ok none := by
  unfold header?
  split
  · next rest htrim => exact absurd (by rw [IsBracketed, htrim]; rfl) h
  · rfl

theorem header?_of_hasHeader (h : l.HasHeader name) : l.header? rules = .ok (some name) := by
  obtain ⟨body, htrim, rfl, hbody⟩ := h
  have hbracket : beforeBracket? (body ++ [']']) = some body := beforeBracket?_eq_some_iff.2 rfl
  unfold header?
  rw [htrim]
  simp only [hbracket, identifier_eq_ok_iff.2 ⟨hbody, rfl⟩]

/-- A line that begins with a bracket and is no header is refused, with its number. -/
theorem header?_of_not_isHeader (rules : ScanRules) (hbracketed : l.IsBracketed)
    (h : ¬ l.IsHeader) : ∃ f, l.header? rules = .error (l.fault rules f) := by
  obtain ⟨rest, htrim⟩ := List.head?_eq_some_iff.1 hbracketed
  unfold header?
  rw [htrim]
  cases hbracket : beforeBracket? rest with
  | none => exact ⟨.unterminatedHeader, by simp only [hbracket]⟩
  | some body =>
    cases hname : Name.identifier (String.ofList (Text.trim body)) with
    | error e => exact ⟨.invalidSectionName e.cause, by simp only [hbracket, hname]⟩
    | ok name =>
      obtain ⟨hbody, rfl⟩ := identifier_eq_ok_iff.1 hname
      rw [beforeBracket?_eq_some_iff.1 hbracket] at htrim
      exact absurd ⟨_, body, htrim, rfl, hbody⟩ h

end Line

/-! ## Blocks of lines -/

namespace Section

open Line

variable {rules : ScanRules} {l : Line} {name : String} {lines before blocks more : List Line}
  {sections others earlier : List Section}

/-- Headers, each with the lines up to the next one, and their sections. -/
inductive Blocks : List Line → List Section → Prop
  | nil : Blocks [] []
  | cons {header : Line} {name : String} {body blocks : List Line} {sections : List Section} :
      header.HasHeader name → (∀ l ∈ body, ¬ l.IsBracketed) → Blocks blocks sections →
      Blocks (header :: (body ++ blocks)) (⟨name, header.number, body⟩ :: sections)

/-- Whether no line breaks the layout of sections. -/
def FaultFree (rules : ScanRules) (lines : List Line) : Prop :=
  ∀ before l after, lines = before ++ l :: after → ¬ l.FaultyAfter rules before

theorem Blocks.append (h : Blocks blocks sections) (hmore : Blocks more others) :
    Blocks (blocks ++ more) (sections ++ others) := by
  induction h with
  | nil => exact hmore
  | cons hheader hbody _ ih =>
    rw [List.cons_append, List.append_assoc]
    exact .cons hheader hbody ih

theorem Blocks.eq_nil (h : Blocks blocks sections) (hnone : ∀ l ∈ blocks, ¬ l.IsHeader) :
    sections = [] := by
  cases h with
  | nil => rfl
  | cons hheader _ _ => exact absurd ⟨_, hheader⟩ (hnone _ List.mem_cons_self)

/-- Lines of which only headers begin with a bracket are blocks behind lines without a header. -/
theorem exists_blocks (h : ∀ l ∈ lines, l.IsBracketed → l.IsHeader) :
    ∃ front blocks sections, lines = front ++ blocks ∧ (∀ l ∈ front, ¬ l.IsBracketed) ∧
      Blocks blocks sections := by
  induction lines with
  | nil => exact ⟨[], [], [], rfl, by simp, .nil⟩
  | cons l lines ih =>
    obtain ⟨front, blocks, sections, rfl, hfront, hblocks⟩ :=
      ih fun m hm => h m (List.mem_cons_of_mem l hm)
    by_cases hl : l.IsBracketed
    · obtain ⟨name, hname⟩ := h l List.mem_cons_self hl
      exact ⟨[], _, _, rfl, by simp, .cons hname hfront hblocks⟩
    · exact ⟨l :: front, blocks, sections, rfl, List.forall_mem_cons.2 ⟨hl, hfront⟩, hblocks⟩

/-- Lines without a fault are blocks behind blank lines and comments. -/
theorem exists_blocks_of_faultFree (h : FaultFree rules lines) :
    ∃ preamble blocks sections, lines = preamble ++ blocks ∧
      (∀ l ∈ preamble, ¬ l.IsBracketed ∧ l.IsSilent rules) ∧ Blocks blocks sections := by
  have hheaders : ∀ l ∈ lines, l.IsBracketed → l.IsHeader := by
    intro l hl hbracketed
    obtain ⟨before, after, hlines⟩ := List.append_of_mem hl
    by_contra hnot
    exact h before l after hlines (.inl ⟨hbracketed, hnot⟩)
  obtain ⟨front, blocks, sections, rfl, hfront, hblocks⟩ := exists_blocks hheaders
  refine ⟨front, blocks, sections, rfl, fun l hl => ⟨hfront l hl, ?_⟩, hblocks⟩
  obtain ⟨before, after, rfl⟩ := List.append_of_mem hl
  by_contra hsilent
  refine h before l (after ++ blocks) (by simp) (.inr ⟨?_, ?_, hsilent⟩)
  · rintro m hm ⟨name, hname⟩
    exact hfront m (List.mem_append_left _ hm) hname.isBracketed
  · rintro ⟨name, hname⟩
    exact hfront l hl hname.isBracketed

/-! ## Adding lines one by one -/

/-- A section with its lines last first. -/
def reversed (s : Section) : Section := { s with lines := s.lines.reverse }

theorem reversed_reversed (s : Section) : s.reversed.reversed = s := by
  simp [reversed]

theorem foldlM_silent (h : ∀ l ∈ lines, ¬ l.IsBracketed ∧ l.IsSilent rules) :
    lines.foldlM (addLine rules) [] = .ok [] := by
  induction lines with
  | nil => rfl
  | cons l lines ih =>
    obtain ⟨⟨hbracketed, hsilent⟩, hlines⟩ := List.forall_mem_cons.1 h
    have hstep : addLine rules [] l = .ok [] := by
      unfold addLine
      rw [header?_of_not_isBracketed hbracketed]
      exact if_pos (Bool.or_eq_true_iff.2 hsilent)
    rw [List.foldlM_cons, hstep]
    exact ih hlines

theorem foldlM_body (s : Section) (h : ∀ l ∈ lines, ¬ l.IsBracketed) :
    lines.foldlM (addLine rules) (s :: earlier) =
      .ok ({ s with lines := lines.reverse ++ s.lines } :: earlier) := by
  induction lines generalizing s with
  | nil => rfl
  | cons l lines ih =>
    obtain ⟨hbracketed, hlines⟩ := List.forall_mem_cons.1 h
    have hstep : addLine rules (s :: earlier) l =
        .ok ({ s with lines := l :: s.lines } :: earlier) := by
      unfold addLine
      rw [header?_of_not_isBracketed hbracketed]
    rw [List.foldlM_cons, hstep]
    refine (ih _ hlines).trans ?_
    simp

theorem foldlM_blocks (h : Blocks blocks sections) (earlier : List Section) :
    blocks.foldlM (addLine rules) earlier =
      .ok ((sections.map reversed).reverse ++ earlier) := by
  -- A header opens a section in front of the earlier ones, and its body is added to that section.
  induction h generalizing earlier with
  | nil => rfl
  | @cons header name body blocks sections hheader hbody _ ih =>
    have hstep : addLine rules earlier header = .ok (⟨name, header.number, []⟩ :: earlier) := by
      unfold addLine
      rw [header?_of_hasHeader hheader]
    rw [List.foldlM_cons, hstep]
    show (body ++ blocks).foldlM (addLine rules) (⟨name, header.number, []⟩ :: earlier) = _
    rw [List.foldlM_append, foldlM_body _ hbody]
    refine (ih _).trans ?_
    simp [reversed]

/-- What the lines up to some line come to, last section first. -/
theorem foldlM_laid {preamble : List Line}
    (hpreamble : ∀ l ∈ preamble, ¬ l.IsBracketed ∧ l.IsSilent rules)
    (hblocks : Blocks blocks sections) :
    (preamble ++ blocks).foldlM (addLine rules) [] = .ok (sections.map reversed).reverse := by
  rw [List.foldlM_append, foldlM_silent hpreamble]
  refine (foldlM_blocks hblocks []).trans ?_
  rw [List.append_nil]

theorem group_of_foldlM {acc : List Section}
    (h : lines.foldlM (addLine rules) [] = .ok acc) :
    group lines rules = .ok (acc.map reversed).reverse := by
  rw [group, h]
  rfl

/-- What is laid out in sections is grouped into them. -/
theorem group_of_blocks {preamble : List Line}
    (hpreamble : ∀ l ∈ preamble, ¬ l.IsBracketed ∧ l.IsSilent rules)
    (hblocks : Blocks blocks sections) : group (preamble ++ blocks) rules = .ok sections := by
  rw [group_of_foldlM (foldlM_laid hpreamble hblocks), List.map_reverse, List.reverse_reverse,
    List.map_map]
  have hid : reversed ∘ reversed = id := funext reversed_reversed
  rw [hid, List.map_id]

/-! ## The first fault -/

/-- A faulty line is refused behind what was laid out in sections. -/
theorem exists_addLine_eq_error {preamble : List Line}
    (hblocks : Blocks blocks sections) (hl : l.FaultyAfter rules (preamble ++ blocks)) :
    ∃ f, addLine rules (sections.map reversed).reverse l = .error (l.fault rules f) := by
  unfold addLine
  by_cases hheader : l.IsBracketed ∧ ¬ l.IsHeader
  · obtain ⟨f, hf⟩ := header?_of_not_isHeader rules hheader.1 hheader.2
    exact ⟨f, by rw [hf]⟩
  · obtain hbracket | ⟨hnone, hnot, hsilent⟩ := hl
    · exact absurd hbracket hheader
    -- Without a header among the lines before there is no section that the line could go into.
    have hbracketed : ¬ l.IsBracketed := fun h => hheader ⟨h, hnot⟩
    rw [header?_of_not_isBracketed hbracketed,
      hblocks.eq_nil fun m hm => hnone m (List.mem_append_right _ hm)]
    exact ⟨.contentBeforeHeader, if_neg fun h => hsilent (Bool.or_eq_true_iff.1 h)⟩

/-- **The first faulty line is the error.** -/
theorem exists_group_eq_error (hbefore : FaultFree rules before)
    (hl : l.FaultyAfter rules before) (after : List Line) :
    ∃ f, group (before ++ l :: after) rules = .error (l.fault rules f) := by
  obtain ⟨preamble, blocks, sections, rfl, hpreamble, hblocks⟩ := exists_blocks_of_faultFree hbefore
  obtain ⟨f, hf⟩ := exists_addLine_eq_error hblocks hl
  refine ⟨f, ?_⟩
  have hfold : (preamble ++ blocks ++ l :: after).foldlM (addLine rules) [] =
      .error (l.fault rules f) := by
    rw [List.foldlM_append, foldlM_laid hpreamble hblocks]
    show (l :: after).foldlM (addLine rules) (sections.map reversed).reverse = _
    rw [List.foldlM_cons, hf]
    rfl
  rw [group, hfold]
  rfl

theorem faultFree_concat (hlines : FaultFree rules lines) (hl : ¬ l.FaultyAfter rules lines) :
    FaultFree rules (lines ++ [l]) := by
  intro before m after h
  obtain rfl | ⟨after, last, rfl⟩ := List.eq_nil_or_concat after
  · obtain ⟨rfl, hlast⟩ := List.append_inj' h rfl
    cases hlast
    exact hl
  · rw [List.concat_eq_append, ← List.cons_append, ← List.append_assoc] at h
    obtain ⟨hfront, -⟩ := List.append_inj' h rfl
    exact hlines before m after hfront

/-- Lines with a fault have a first one. -/
theorem exists_first_fault (h : ¬ FaultFree rules lines) :
    ∃ before l after, lines = before ++ l :: after ∧ FaultFree rules before ∧
      l.FaultyAfter rules before := by
  -- By the last line: a fault before it is the first one, and without one the last line is it.
  induction lines using List.reverseRecOn with
  | nil => exact absurd (fun before l after hnil => by simp at hnil) h
  | append_singleton lines l ih =>
    by_cases hlines : FaultFree rules lines
    · refine ⟨lines, l, [], rfl, hlines, ?_⟩
      by_contra hl
      exact h (faultFree_concat hlines hl)
    · obtain ⟨before, m, after, rfl, hbefore, hm⟩ := ih hlines
      exact ⟨before, m, after ++ [l], by simp, hbefore, hm⟩

theorem faultFree_of_group (h : group lines rules = .ok sections) : FaultFree rules lines := by
  by_contra hfault
  obtain ⟨before, l, after, rfl, hbefore, hl⟩ := exists_first_fault hfault
  obtain ⟨f, hf⟩ := exists_group_eq_error hbefore hl after
  rw [hf] at h
  cases h

/-- **Grouped lines are a preamble without headers and then the blocks of the sections.** -/
theorem group_eq_ok_iff : group lines rules = .ok sections ↔
    ∃ preamble blocks, lines = preamble ++ blocks ∧
      (∀ l ∈ preamble, ¬ l.IsBracketed ∧ l.IsSilent rules) ∧ Blocks blocks sections := by
  constructor
  · intro h
    obtain ⟨preamble, blocks, found, rfl, hpreamble, hblocks⟩ :=
      exists_blocks_of_faultFree (faultFree_of_group h)
    rw [group_of_blocks hpreamble hblocks] at h
    cases h
    exact ⟨preamble, blocks, rfl, hpreamble, hblocks⟩
  · rintro ⟨preamble, blocks, rfl, hpreamble, hblocks⟩
    exact group_of_blocks hpreamble hblocks

/-- Lines from a header on are grouped on their own. -/
theorem group_append (hlines : group lines rules = .ok sections)
    (hmore : group more rules = .ok others) (hheader : ∃ h ∈ more.head?, h.IsHeader) :
    group (lines ++ more) rules = .ok (sections ++ others) := by
  obtain ⟨preamble, blocks, rfl, hpreamble, hblocks⟩ := group_eq_ok_iff.1 hlines
  obtain ⟨preamble', blocks', rfl, hpreamble', hblocks'⟩ := group_eq_ok_iff.1 hmore
  have hnone : preamble' = [] := by
    cases preamble' with
    | nil => rfl
    | cons m rest =>
      obtain ⟨h, hh, name, hname⟩ := hheader
      cases hh
      exact absurd hname.isBracketed (hpreamble' _ List.mem_cons_self).1
  subst hnone
  rw [List.nil_append, List.append_assoc]
  exact group_of_blocks hpreamble (hblocks.append hblocks')

/-! ## Line numbers -/

/-- In consecutive lines the lines of a section follow its header. -/
theorem Blocks.numbers {n : Nat} (h : Blocks blocks sections)
    (hnumbers : blocks.map Line.number = List.range' n blocks.length) :
    ∀ s ∈ sections, s.lines.map Line.number = List.range' (s.headerLine + 1) s.lines.length := by
  induction h generalizing n with
  | nil => exact fun s hs => absurd hs List.not_mem_nil
  | @cons header name body blocks sections _ _ _ ih =>
    rw [List.map_cons, List.length_cons, List.range'_succ, List.map_append, List.length_append,
      ← List.range'_append_1, List.cons.injEq] at hnumbers
    obtain ⟨hheader, hrest⟩ := hnumbers
    obtain ⟨hbody, hblocks⟩ := List.append_inj hrest (by simp)
    refine List.forall_mem_cons.2 ⟨?_, ih hblocks⟩
    rw [hheader]
    exact hbody

end Section

/-! ## Documents -/

namespace Document

open Section

variable {d : Document} {text : String} {rules : ScanRules}

theorem scan_eq_ok_iff : scan text rules = .ok d ↔
    group (Line.scan text rules) rules = .ok d.sections := by
  unfold scan
  cases group (Line.scan text rules) rules with
  | error e => exact iff_of_false nofun nofun
  | ok sections =>
    constructor
    · rintro ⟨⟩
      rfl
    · rintro ⟨⟩
      rfl

/-- **A document is its lines, grouped at the headers, or the error of its first faulty line.**
Blank lines and comments stand in front of the first header, and the lines of a section are numbered
on from its header.  Grouping can begin anew at every header. -/
theorem scan_groups (text : String) (rules : ScanRules) :
    ((∃ d, scan text rules = .ok d) ↔ FaultFree rules (Line.scan text rules)) ∧
    (∀ d, scan text rules = .ok d → ∃ preamble blocks,
      Line.scan text rules = preamble ++ blocks ∧
      (∀ l ∈ preamble, ¬ l.IsHeader ∧ l.IsSilent rules) ∧ Blocks blocks d.sections ∧
      ∀ s ∈ d.sections, s.lines.map Line.number = List.range' (s.headerLine + 1) s.lines.length) ∧
    (¬ FaultFree rules (Line.scan text rules) → ∃ before l after, ∃ f : LineFault,
      Line.scan text rules = before ++ l :: after ∧ FaultFree rules before ∧
      l.FaultyAfter rules before ∧
      scan text rules = .error
        { cause := .malformedDocument l.number f.message
          location := some ⟨rules.source, some l.number, some 1, []⟩ }) ∧
    ∀ lines more sections others, group lines rules = .ok sections →
      group more rules = .ok others → (∃ h ∈ more.head?, h.IsHeader) →
      group (lines ++ more) rules = .ok (sections ++ others) := by
  refine ⟨⟨?_, ?_⟩, ?_, ?_, fun _ _ _ _ => group_append⟩
  · rintro ⟨d, hd⟩
    exact faultFree_of_group (scan_eq_ok_iff.1 hd)
  · intro hfree
    obtain ⟨preamble, blocks, sections, hlines, hpreamble, hblocks⟩ :=
      exists_blocks_of_faultFree hfree
    refine ⟨⟨sections⟩, scan_eq_ok_iff.2 ?_⟩
    rw [hlines]
    exact group_of_blocks hpreamble hblocks
  · intro d hd
    obtain ⟨preamble, blocks, hlines, hpreamble, hblocks⟩ := group_eq_ok_iff.1 (scan_eq_ok_iff.1 hd)
    have hnumbers := Line.map_number_scan text rules
    rw [hlines, List.map_append, List.length_append, ← List.range'_append_1] at hnumbers
    obtain ⟨-, hnumbers⟩ := List.append_inj hnumbers (by simp)
    refine ⟨preamble, blocks, hlines, fun l hl => ⟨?_, (hpreamble l hl).2⟩, hblocks,
      hblocks.numbers hnumbers⟩
    rintro ⟨name, hname⟩
    exact (hpreamble l hl).1 hname.isBracketed
  · intro hfault
    obtain ⟨before, l, after, hlines, hbefore, hl⟩ := exists_first_fault hfault
    obtain ⟨f, hf⟩ := exists_group_eq_error hbefore hl after
    refine ⟨before, l, after, f, hlines, hbefore, hl, ?_⟩
    rw [scan, hlines, hf, Line.fault_eq]
    rfl

/-- A comment and two sections, and content in front of a header. -/
theorem scan_groups_twoSections :
    (∃ preamble blocks, Line.scan "#\n[A]\nx\n[ B ]" .standard = preamble ++ blocks ∧
      Blocks blocks [⟨"A", 2, [⟨3, "x"⟩]⟩, ⟨"B", 4, []⟩]) ∧
    (∃ before l after, ∃ f : LineFault,
      Line.scan "x\n[A]" .standard = before ++ l :: after ∧
      scan "x\n[A]" .standard = .error
        { cause := .malformedDocument l.number f.message
          location := some ⟨none, some l.number, some 1, []⟩ }) ∧
    group ([⟨1, "[A]"⟩, ⟨2, "x"⟩] ++ [⟨1, "[B]"⟩]) .standard =
      .ok ([⟨"A", 1, [⟨2, "x"⟩]⟩] ++ [⟨"B", 1, []⟩]) := by
  obtain ⟨-, hgrouped, -, happend⟩ := scan_groups "#\n[A]\nx\n[ B ]" .standard
  obtain ⟨hfree, -, hfault, -⟩ := scan_groups "x\n[A]" .standard
  refine ⟨?_, ?_, ?_⟩
  · obtain ⟨preamble, blocks, hlines, -, hblocks, -⟩ :=
      hgrouped ⟨[⟨"A", 2, [⟨3, "x"⟩]⟩, ⟨"B", 4, []⟩]⟩ rfl
    exact ⟨preamble, blocks, hlines, hblocks⟩
  · have hrefused : ¬ FaultFree .standard (Line.scan "x\n[A]" .standard) := by
      rw [← hfree]
      rintro ⟨d, hd⟩
      cases hd
    obtain ⟨before, l, after, f, hlines, -, -, herror⟩ := hfault hrefused
    exact ⟨before, l, after, f, hlines, herror⟩
  · have hheader : (⟨1, "[B]"⟩ : Line).IsHeader :=
      ⟨"B", ['B'], rfl, rfl, Name.bodyFault?_eq_none_iff.1 rfl⟩
    exact happend _ _ _ _ rfl rfl ⟨_, rfl, hheader⟩

end Document

end MessageScript
