import Mathlib.Data.List.Basic
import MessageScript.Path
import MessageScript.Proofs.Text.FinalSigma

/-!
# Splitting is the inverse of joining

A path spells names (`Spells`) if it is the names one after the other, any separator between each
and the next, and any separators in front and behind.  If the names are not empty and have no
separators in them (`IsSegment`), they are what the path is split into.  The key of a name tells
whether it is such a name.

    Spells names path → segments path = names                             (segments_of_spells)
    Name.key a = Name.key b → (IsSegment a ↔ IsSegment b)                  (isSegment_congr)
-/

namespace MessageScript

/-! ## Cutting and stripping -/

namespace Path

variable {p : Char → Bool} {cs body lead trail rest : List Char} {sep : Char}

theorem cutAt_of_none (h : ∀ c ∈ cs, p c = false) : cutAt p cs = [cs] := by
  induction cs with
  | nil => rfl
  | cons c rest ih =>
    have hrest := ih fun d hd => h d (List.mem_cons_of_mem _ hd)
    rw [cutAt, h c List.mem_cons_self, hrest]
    rfl

/-- A cut takes off the part before the first separator. -/
theorem cutAt_append (h : ∀ c ∈ cs, p c = false) (hsep : p sep = true) (rest : List Char) :
    cutAt p (cs ++ sep :: rest) = cs :: cutAt p rest := by
  induction cs with
  | nil => rw [List.nil_append, cutAt, if_pos hsep]
  | cons c cs ih =>
    have hrest := ih fun d hd => h d (List.mem_cons_of_mem _ hd)
    rw [List.cons_append, cutAt, h c List.mem_cons_self, hrest]
    rfl

theorem dropWhile_append_of_head? (hlead : ∀ c ∈ lead, p c = true)
    (hrest : ∀ c, rest.head? = some c → p c = false) : (lead ++ rest).dropWhile p = rest := by
  rw [List.dropWhile_append_of_pos hlead]
  cases rest with
  | nil => rfl
  | cons c rest =>
    rw [List.dropWhile_cons_of_neg]
    rw [hrest c rfl]
    exact Bool.false_ne_true

/-- What stands between the separators at the two ends is left. -/
theorem stripEnds_between (hlead : ∀ c ∈ lead, p c = true) (htrail : ∀ c ∈ trail, p c = true)
    (hne : body ≠ []) (hends : ∀ c, body.head? = some c ∨ body.getLast? = some c → p c = false) :
    stripEnds p (lead ++ (body ++ trail)) = body := by
  have hhead : ∀ c, (body ++ trail).head? = some c → p c = false := by
    intro c hc
    rw [List.head?_append_of_ne_nil _ hne] at hc
    exact hends c (.inl hc)
  have hlast : ∀ c, body.reverse.head? = some c → p c = false := by
    intro c hc
    rw [List.head?_reverse] at hc
    exact hends c (.inr hc)
  have hback : ∀ c ∈ trail.reverse, p c = true := fun c hc => htrail c (List.mem_reverse.1 hc)
  rw [stripEnds, dropWhile_append_of_head? hlead hhead, List.reverse_append,
    dropWhile_append_of_head? hback hlast, List.reverse_reverse]

/-! ## Spelling -/

/-- Whether a text is a name that a path can hold: not empty, and without separators. -/
structure IsSegment (name : String) : Prop where
  ne_nil : name.toList ≠ []
  no_separator : ∀ c ∈ name.toList, Name.isSeparator c = false

/-- A text that is names one after the other, with a separator between each and the next. -/
inductive Joined : List String → List Char → Prop
  | last (name : String) : Joined [name] name.toList
  | cons {names : List String} {cs : List Char} {sep : Char} (name : String)
      (hsep : Name.isSeparator sep = true) (h : Joined names cs) :
      Joined (name :: names) (name.toList ++ sep :: cs)

/-- Whether a path is names joined, with separators in front and behind. -/
def Spells (names : List String) (path : String) : Prop :=
  ∃ lead body trail, path.toList = lead ++ (body ++ trail) ∧ Joined names body ∧
    (∀ c ∈ lead, Name.isSeparator c = true) ∧ ∀ c ∈ trail, Name.isSeparator c = true

variable {names : List String} {name path : String}

theorem joined_intercalate (h : names ≠ []) :
    Joined names (String.intercalate "/" names).toList := by
  induction names with
  | nil => exact absurd rfl h
  | cons name rest ih =>
    cases rest with
    | nil =>
      rw [String.intercalate_singleton]
      exact .last name
    | cons name' rest =>
      have hrest := ih (List.cons_ne_nil _ _)
      rw [String.intercalate_cons_cons, String.toList_append, String.toList_append,
        List.append_assoc]
      exact .cons name rfl hrest

/-- Names joined with slashes are spelled. -/
theorem spells_intercalate (h : names ≠ []) : Spells names (String.intercalate "/" names) :=
  ⟨[], _, [], (List.append_nil _).symm, joined_intercalate h, nofun, nofun⟩

namespace Joined

theorem cutAt_eq (h : Joined names body) (hnames : ∀ name ∈ names, IsSegment name) :
    cutAt Name.isSeparator body = names.map String.toList := by
  induction h with
  | last name => exact cutAt_of_none (hnames name List.mem_cons_self).no_separator
  | cons name hsep _ ih =>
    have hname := (hnames name List.mem_cons_self).no_separator
    rw [cutAt_append hname hsep, ih fun n hn => hnames n (List.mem_cons_of_mem _ hn),
      List.map_cons]

theorem ne_nil (h : Joined names body) (hnames : ∀ name ∈ names, IsSegment name) :
    body ≠ [] := by
  cases h with
  | last name => exact (hnames name List.mem_cons_self).ne_nil
  | cons name hsep h => exact List.append_ne_nil_of_right_ne_nil _ (List.cons_ne_nil _ _)

/-- Joined names begin and end with characters of theirs. -/
theorem ends (h : Joined names body) (hnames : ∀ name ∈ names, IsSegment name) :
    ∀ c, body.head? = some c ∨ body.getLast? = some c → Name.isSeparator c = false := by
  induction h with
  | last name =>
    intro c hc
    refine (hnames name List.mem_cons_self).no_separator c ?_
    rcases hc with hc | hc
    · exact List.mem_of_head? hc
    · exact List.mem_of_getLast? hc
  | @cons rest cs sep name hsep hrest ih =>
    have hname := hnames name List.mem_cons_self
    have hsegments := fun n hn => hnames n (List.mem_cons_of_mem name hn)
    intro c hc
    rcases hc with hc | hc
    · rw [List.head?_append_of_ne_nil _ hname.ne_nil] at hc
      exact hname.no_separator c (List.mem_of_head? hc)
    · rw [List.getLast?_append_of_ne_nil _ (List.cons_ne_nil _ _),
        List.getLast?_cons_of_ne_nil (hrest.ne_nil hsegments)] at hc
      exact ih hsegments c (.inr hc)

end Joined

/-- **A path is split into the names that it spells.** -/
theorem segments_of_spells (h : Spells names path) (hnames : ∀ name ∈ names, IsSegment name) :
    segments path = names := by
  obtain ⟨lead, body, trail, hpath, hjoined, hlead, htrail⟩ := h
  rw [segments, hpath,
    stripEnds_between hlead htrail (hjoined.ne_nil hnames) (hjoined.ends hnames),
    hjoined.cutAt_eq hnames, List.map_map]
  refine (List.map_congr_left ?_).trans (List.map_id names)
  intro name _
  exact String.ofList_toList

end Path

/-! ## Separators in keys -/

namespace Text

variable {c d : Char} {cs : List Char}

theorem lower_ne_nil (c : Char) : lower c ≠ [] := by
  rcases lower_cases c with h | rfl | ⟨d, h, -⟩
  · rw [h]
    exact List.cons_ne_nil _ _
  · decide
  · rw [h]
    exact List.cons_ne_nil _ _

/-- A separator is the lowercase form of itself only. -/
theorem mem_lower_iff (hd : Name.isSeparator d = true) : d ∈ lower c ↔ c = d := by
  have hslash : d = '/' ∨ d = '\\' := by
    simpa only [Name.isSeparator, Bool.or_eq_true, beq_iff_eq] using hd
  have hletter : ¬ IsLetter d := by
    intro h
    rcases hslash with rfl | rfl
    · exact absurd h.1 (by decide +kernel)
    · exact absurd h.1 (by decide +kernel)
  rcases lower_cases c with h | rfl | ⟨e, h, hc, he, -⟩
  · rw [h, List.mem_singleton]
    exact eq_comm
  · refine iff_of_false ?_ ?_
    · rcases hslash with rfl | rfl <;> decide
    · rcases hslash with rfl | rfl <;> decide
  · rw [h, List.mem_singleton]
    refine iff_of_false ?_ ?_
    · rintro rfl
      exact hletter he
    · rintro rfl
      exact hletter hc

theorem mem_lowerAfter_iff (hd : Name.isSeparator d = true) (before : List Char) :
    d ∈ lowerAfter before cs ↔ d ∈ cs := by
  induction cs generalizing before with
  | nil => exact Iff.rfl
  | cons c rest ih =>
    rw [lowerAfter, List.mem_append, ih, List.mem_cons]
    refine or_congr ?_ Iff.rfl
    by_cases hc : c = 'Σ'
    · subst hc
      rw [if_pos rfl, List.mem_singleton]
      have hsigma : d ≠ 'Σ' ∧ d ≠ 'ς' ∧ d ≠ 'σ' := by
        refine ⟨?_, ?_, ?_⟩ <;> rintro rfl <;> cases hd
      refine iff_of_false ?_ hsigma.1
      split
      · exact hsigma.2.1
      · exact hsigma.2.2
    · rw [if_neg hc, mem_lower_iff hd, eq_comm]

theorem lowerText_eq_nil_iff : lowerText cs = [] ↔ cs = [] := by
  cases cs with
  | nil => exact iff_of_true rfl rfl
  | cons c rest =>
    refine iff_of_false ?_ (List.cons_ne_nil _ _)
    rw [lowerText, lowerAfter]
    refine List.append_ne_nil_of_left_ne_nil ?_ _
    split
    · exact List.cons_ne_nil _ _
    · exact lower_ne_nil c

end Text

namespace Path

/-- Whether a name can stand in a path is told by its lowercase form. -/
theorem isSegment_iff_lowerText {name : String} : IsSegment name ↔
    Text.lowerText name.toList ≠ [] ∧
      ∀ c ∈ Text.lowerText name.toList, Name.isSeparator c = false := by
  have hmem : ∀ c, Name.isSeparator c = true →
      (c ∈ Text.lowerText name.toList ↔ c ∈ name.toList) := fun c hc =>
    Text.mem_lowerAfter_iff hc []
  rw [ne_eq, Text.lowerText_eq_nil_iff]
  constructor
  · rintro ⟨hne, hnone⟩
    refine ⟨hne, ?_⟩
    intro c hc
    by_contra hsep
    rw [Bool.not_eq_false] at hsep
    rw [hnone c ((hmem c hsep).1 hc)] at hsep
    cases hsep
  · rintro ⟨hne, hnone⟩
    refine ⟨hne, ?_⟩
    intro c hc
    by_contra hsep
    rw [Bool.not_eq_false] at hsep
    rw [hnone c ((hmem c hsep).2 hc)] at hsep
    cases hsep

/-- Names with one key can stand in a path both or neither. -/
theorem isSegment_congr {a b : String} (h : Name.key a = Name.key b) :
    IsSegment a ↔ IsSegment b := by
  have hlower : Text.lowerText a.toList = Text.lowerText b.toList := String.ofList_inj.1 h
  rw [isSegment_iff_lowerText, isSegment_iff_lowerText, hlower]

end Path

end MessageScript
