/-!
# Sets of code points

A property of characters is given as ascending, disjoint ranges of code points, both ends of a
range in the set.  The tables beside this module (`Blank`, `Alphabetic`, `Lowercase`, `WordCase`,
`Printable`) list the ranges; here is the membership test they share.

    rs.contains n  ↔  some range of rs holds n        (contains_iff, for ascending rs)
-/

namespace MessageScript.Text

/-- A set of code points as ranges `(first, last)`, ascending and disjoint. -/
abbrev CodeRanges := List (Nat × Nat)

namespace CodeRanges

/-- Membership; the search stops at the first range that lies above the code point. -/
def contains : CodeRanges → Nat → Bool
  | [], _ => false
  | (first, last) :: rest, n =>
    if n < first then false else if n ≤ last then true else contains rest n

/-- Ranges in ascending order, each nonempty and none touching an earlier one. -/
def Ascending : CodeRanges → Prop
  | [] => True
  | (first, last) :: rest => first ≤ last ∧ (∀ r ∈ rest, last < r.1) ∧ Ascending rest

/-! ## Lemmas -/

/-- The early stop loses nothing: on ascending ranges, membership is lying in some range. -/
theorem contains_iff {rs : CodeRanges} (h : rs.Ascending) (n : Nat) :
    rs.contains n = true ↔ ∃ r ∈ rs, r.1 ≤ n ∧ n ≤ r.2 := by
  induction rs with
  | nil => simp [contains]
  | cons r rest ih =>
    obtain ⟨first, last⟩ := r
    obtain ⟨hr, hrest, hasc⟩ := h
    rw [contains]
    split
    · next hlt =>
      refine iff_of_false (by simp) ?_
      rintro ⟨r, hmem, h⟩
      rcases List.mem_cons.1 hmem with rfl | hmem
      · exact absurd h.1 (Nat.not_le.2 hlt)
      · have := hrest r hmem
        omega
    · next hge =>
      split
      · next hle =>
        exact iff_of_true rfl ⟨_, List.mem_cons_self, Nat.not_lt.1 hge, hle⟩
      · next hgt =>
        rw [ih hasc]
        constructor
        · rintro ⟨r, hmem, h⟩
          exact ⟨r, List.mem_cons_of_mem _ hmem, h⟩
        · rintro ⟨r, hmem, h⟩
          rcases List.mem_cons.1 hmem with rfl | hmem
          · exact absurd h.2 hgt
          · exact ⟨r, hmem, h⟩

end CodeRanges

end MessageScript.Text
