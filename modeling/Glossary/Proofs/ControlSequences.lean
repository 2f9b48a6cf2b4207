import Glossary.Text.ControlSequence
import Mathlib.Data.List.Basic

/-!
Texts without control sequences. No sequence goes on behind the end of a line, so that lines may be
printed one by one or all at once.
-/

namespace Glossary

namespace Text

section Plain

variable {a b : List Char}

theorem dropSequences_eq_self (h : '\x1b' ∉ a) : dropSequences 0 a = a := by
  induction a with
  | nil => rfl
  | cons c rest ih =>
      obtain ⟨hc, hrest⟩ := not_or.mp (mt List.mem_cons.mpr h)
      rw [dropSequences, if_neg (by simpa using Ne.symm hc), ih hrest]

/-- A text without an escape character is printed as it is. -/
theorem plain_eq_self {text : String} (h : '\x1b' ∉ text.toList) : plain text = text := by
  rw [plain, dropSequences_eq_self h, String.ofList_toList]

end Plain

end Text

end Glossary
