import MessageScript.Name
import MessageScript.Proofs.Text.FinalSigma

/-!
# The two comparisons of names

Names are compared by their keys or character by character, and a search without an index compares
the characters of one name with those of the other's key.  The three come to the same for a name
unless a sigma ends a word in it, as in `ΑΣ`.

    hasFinalCapital a = false ↔ agree a (key a) = true                 (agree_key_self_iff)
    hasFinalSigma a = false ↔ ∀ b, key a = key b ↔ agree a b = true    (hasFinalSigma_eq_false_iff)
-/

namespace MessageScript.Name

variable {a b : String}

/-- Whether a capital sigma ends a word in a name. -/
def hasFinalCapital (name : String) : Bool := Text.finalIn ['Σ'] [] name.toList

/-- Whether any sigma ends a word in a name. -/
def hasFinalSigma (name : String) : Bool := Text.finalIn Text.sigmas [] name.toList

theorem key_eq_key_iff : key a = key b ↔ Text.lowerText a.toList = Text.lowerText b.toList :=
  String.ofList_inj

theorem agree_key_iff :
    agree a (key b) = true ↔ Text.lowerEach a.toList = Text.lowerText b.toList := by
  rw [agree_iff, key, String.toList_ofList, Text.lowerEach_lowerText]

/-- A search for a key finds the name it is the key of, unless a capital sigma ends a word. -/
theorem agree_key_self_iff : agree a (key a) = true ↔ hasFinalCapital a = false := by
  rw [agree_key_iff, eq_comm]
  exact Text.lowerText_eq_lowerEach_iff

/-- Unless a capital sigma ends a word, a search finds a name by the names with its key. -/
theorem agree_key_iff_key_eq (h : hasFinalCapital a = false) :
    agree a (key b) = true ↔ key a = key b := by
  rw [agree_key_iff, key_eq_key_iff, Text.lowerText_eq_lowerEach_iff.2 h]

/-- Names with one key agree, and names that agree have one key, just if no sigma ends a word. -/
theorem hasFinalSigma_eq_false_iff :
    hasFinalSigma a = false ↔ ∀ b, key a = key b ↔ agree a b = true := by
  simp only [key_eq_key_iff, agree_iff]
  rw [hasFinalSigma, Text.not_finalIn_iff]
  constructor
  · intro h b
    exact h b.toList
  · intro h cs
    have hcs := h (String.ofList cs)
    rw [String.toList_ofList] at hcs
    exact hcs

end MessageScript.Name
