import MessageScript.Proofs.Field.Agreement

/-!
# Lookup and removal by name

Removal takes out the fields whose names agree with a name; lookups by an index find those whose
names have its key.  They are the same fields, for every name looked up, if and only if no sigma
ends a word in the names of the fields.

    (t.remove name).2.entries = t.entries.filter (names that do not agree)     (entries_remove)
    findAll, contains and remove go by one comparison ↔
      no sigma ends a word in the names of the fields                          (remove_finds_iff)
-/

namespace MessageScript.FieldTree

variable {t : FieldTree}

/-! ## What removal does -/

theorem length_filter_add_length_filter_not {α : Type} (p : α → Bool) (l : List α) :
    (l.filter p).length + (l.filter fun a => !p a).length = l.length := by
  have hsplit := List.length_eq_countP_add_countP p (l := l)
  rw [List.countP_eq_length_filter, List.countP_eq_length_filter] at hsplit
  rw [hsplit]
  simp

/-- Removal answers how many fields have a name that agrees. -/
theorem count_remove (t : FieldTree) (name : String) :
    (t.remove name).1 = (t.entries.filter fun f => Name.agree f.name name).length := by
  have hsplit := length_filter_add_length_filter_not (fun f => Name.agree f.name name) t.entries
  unfold remove
  simp only
  split
  · next h =>
    rw [size] at h
    omega
  · rw [size]
    omega

/-- Removal leaves the other fields, in their order. -/
theorem entries_remove (t : FieldTree) (name : String) :
    (t.remove name).2.entries = t.entries.filter fun f => !Name.agree f.name name := by
  unfold remove
  simp only
  split
  · next h =>
    -- none is taken out, so the kept ones are as many as all
    rw [size] at h
    have hle := List.length_filter_le (fun f => !Name.agree f.name name) t.entries
    have hlen : (t.entries.filter fun f => !Name.agree f.name name).length = t.entries.length := by
      omega
    exact (List.filter_eq_self.2 (List.length_filter_eq_length_iff.1 hlen)).symm
  · rfl

theorem isSome_index_remove (hix : t.index.isSome = true) (name : String) :
    (t.remove name).2.index.isSome = true := by
  unfold remove
  simp only
  split
  · exact hix
  · rfl

/-! ## Lookup and removal -/

/-- Whether no sigma ends a word in the names of a level. -/
def NoFinalSigma (t : FieldTree) : Prop := ∀ f ∈ t.entries, Name.hasFinalSigma f.name = false

theorem contains_iff_exists (hc : t.Coherent) (name : String) :
    t.contains name = true ↔ ∃ f ∈ t.entries, t.picks name f = true := by
  rw [contains_eq_any hc, List.any_eq_true]

theorem picks_eq_agree (hix : t.index.isSome = true) (ht : t.NoFinalSigma) {f : Field}
    (hf : f ∈ t.entries) (name : String) : t.picks name f = Name.agree f.name name := by
  rw [picks_of_index hix, Bool.eq_iff_iff, beq_iff_eq]
  exact Name.hasFinalSigma_eq_false_iff.1 (ht f hf) name

/-- A lookup that finds just the fields that agree says that no sigma ends a word. -/
theorem noFinalSigma_of_findAll (hc : t.Coherent) (hix : t.index.isSome = true)
    (h : ∀ name, t.findAll name = t.entries.filter fun f => Name.agree f.name name) :
    t.NoFinalSigma := by
  intro f hf
  rw [Name.hasFinalSigma_eq_false_iff]
  intro name
  have hfound : f ∈ t.findAll name ↔ f ∈ t.entries.filter fun f => Name.agree f.name name := by
    rw [h name]
  rw [findAll_eq_filter hc, picks_of_index hix, List.mem_filter, List.mem_filter, beq_iff_eq]
    at hfound
  constructor
  · intro hkey
    exact (hfound.1 ⟨hf, hkey⟩).2
  · intro hagree
    exact (hfound.2 ⟨hf, hagree⟩).2

theorem remove_finds_of_noFinalSigma (hc : t.Coherent) (hix : t.index.isSome = true)
    (hc' : ∀ name, (t.remove name).2.Coherent) (ht : t.NoFinalSigma) (name : String) :
    t.findAll name = (t.entries.filter fun f => Name.agree f.name name) ∧
      (t.contains name = true ↔ 0 < (t.remove name).1) ∧
      (t.remove name).2.contains name = false := by
  refine ⟨?_, ?_, ?_⟩
  · rw [findAll_eq_filter hc]
    apply List.filter_congr
    intro f hf
    exact picks_eq_agree hix ht hf name
  · rw [contains_iff_exists hc, count_remove, List.length_pos_iff_exists_mem]
    constructor
    · rintro ⟨f, hf, hpicks⟩
      rw [picks_eq_agree hix ht hf] at hpicks
      exact ⟨f, List.mem_filter.2 ⟨hf, hpicks⟩⟩
    · rintro ⟨f, hf⟩
      obtain ⟨hf, hagree⟩ := List.mem_filter.1 hf
      rw [← picks_eq_agree hix ht hf] at hagree
      exact ⟨f, hf, hagree⟩
  · rw [← Bool.not_eq_true, contains_iff_exists (hc' name)]
    rintro ⟨f, hf, hpicks⟩
    -- a field that was left does not agree, so its key is another one
    rw [entries_remove, List.mem_filter] at hf
    rw [picks_of_index (isSome_index_remove hix name), ← picks_of_index hix,
      picks_eq_agree hix ht hf.1] at hpicks
    rw [hpicks] at hf
    exact absurd hf.2 (by decide)

/-- **Removal and lookup go by one comparison just if no sigma ends a word.**  Removal takes out the
fields whose names agree and answers how many; in a tree with an index that callers can build, the
lookups find just those fields before and none of them after, whatever the name, if and only if no
sigma ends a word in the names of its fields. -/
theorem remove_finds_iff (ht : t.Reachable) (hix : t.index.isSome = true) :
    (∀ name, (t.remove name).2.entries = (t.entries.filter fun f => !Name.agree f.name name) ∧
      (t.remove name).1 = (t.entries.filter fun f => Name.agree f.name name).length) ∧
    ((∀ name, t.findAll name = (t.entries.filter fun f => Name.agree f.name name) ∧
        (t.contains name = true ↔ 0 < (t.remove name).1) ∧
        (t.remove name).2.contains name = false) ↔
      ∀ f ∈ t.entries, Name.hasFinalSigma f.name = false) := by
  have hc := (coherent_of_reachable ht).here
  have hc' : ∀ name, (t.remove name).2.Coherent := by
    intro name
    exact (coherent_of_reachable (ht.change (.remove name))).here
  refine ⟨?_, ?_, ?_⟩
  · intro name
    exact ⟨entries_remove t name, count_remove t name⟩
  · intro h
    exact noFinalSigma_of_findAll hc hix fun name => (h name).1
  · exact remove_finds_of_noFinalSigma hc hix hc'

/-- Where a capital sigma ends a word, a name that does not agree finds the field, and removal
leaves it. -/
theorem remove_misses_sigmaEnded : sigmaEnded.Reachable ∧ sigmaEnded.index.isSome = true ∧
    (sigmaEnded.findAll "ας").map Field.name = ["ΑΣ"] ∧ Name.agree "ΑΣ" "ας" = false ∧
    sigmaEnded.contains "ας" = true ∧ (sigmaEnded.remove "ας").1 = 0 ∧
    (sigmaEnded.remove "ας").2.contains "ας" = true := by
  refine ⟨reachable_sigmaEnded, ?_⟩
  decide +kernel

/-- A tree of two fields with one name, in which no sigma ends a word. -/
def sigmaTwice : FieldTree :=
  ((empty.add "ΣΑ" (.value (.text "1"))).after.add "σα" (.value (.text "2"))).after

theorem reachable_sigmaTwice : sigmaTwice.Reachable :=
  .change (.change .empty (.add "ΣΑ" (.value (.text "1")))) (.add "σα" (.value (.text "2")))

/-- Both fields are found and taken out. -/
theorem remove_finds_sigmaTwice : sigmaTwice.Reachable ∧ sigmaTwice.index.isSome = true ∧
    (∀ name, (sigmaTwice.remove name).2.contains name = false) ∧
    (sigmaTwice.remove "Σα").1 = 2 := by
  have hix : sigmaTwice.index.isSome = true := by decide +kernel
  have hnames : ∀ f ∈ sigmaTwice.entries, Name.hasFinalSigma f.name = false := by decide +kernel
  obtain ⟨-, hiff⟩ := remove_finds_iff reachable_sigmaTwice hix
  refine ⟨reachable_sigmaTwice, hix, ?_, by decide +kernel⟩
  intro name
  exact (hiff.2 hnames name).2.2

end MessageScript.FieldTree
