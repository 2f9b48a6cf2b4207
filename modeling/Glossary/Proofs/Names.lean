import Glossary.Name
import Glossary.Proofs.LetterCase
import Glossary.Proofs.TrimmedTexts

/-!
How the key of a name and its printed form depend on its words.
-/

namespace Glossary

namespace Text

open Dictionary

variable {cs : List Char}

/-- The number of characters that a character is lowered to. -/
def formLength (c : Char) : Nat :=
  if c = 'İ' then 2 else 1

theorem length_lowerAfter_cons (before : List Char) (c : Char) (cs : List Char) :
    (lowerAfter before (c :: cs)).length = formLength c + (lowerAfter (c :: before) cs).length := by
  rw [lowerAfter, List.length_append]
  by_cases hsigma : c = 'Σ'
  · subst hsigma
    have hform : formLength 'Σ' = 1 := rfl
    rw [if_pos rfl, hform]
    split <;> rfl
  · rw [if_neg hsigma, formLength]
    split <;> rfl

/-- The characters in front of a text do not change how long its form is. -/
theorem length_lowerAfter (before cs : List Char) :
    (lowerAfter before cs).length = (lower cs).length := by
  induction cs generalizing before with
  | nil => rfl
  | cons c cs ih => rw [lower, length_lowerAfter_cons, length_lowerAfter_cons, ih, ih [c]]

theorem length_lower_cons (c : Char) (cs : List Char) :
    (lower (c :: cs)).length = formLength c + (lower cs).length := by
  rw [lower, length_lowerAfter_cons, length_lowerAfter]

theorem length_lower_append (cs cs' : List Char) :
    (lower (cs ++ cs')).length = (lower cs).length + (lower cs').length := by
  induction cs with
  | nil => exact (Nat.zero_add _).symm
  | cons c cs ih => rw [List.cons_append, length_lower_cons, length_lower_cons, ih, Nat.add_assoc]

theorem length_le_length_lower (cs : List Char) : cs.length ≤ (lower cs).length := by
  induction cs with
  | nil => exact Nat.zero_le _
  | cons c cs ih =>
      have hpos : 1 ≤ formLength c := by
        unfold formLength
        split <;> omega
      rw [length_lower_cons, List.length_cons]
      omega

theorem lower_eq_nil_iff : lower cs = [] ↔ cs = [] := by
  constructor
  · intro h
    have hle := length_le_length_lower cs
    rw [h] at hle
    exact List.eq_nil_of_length_eq_zero (by simpa using hle)
  · rintro rfl
    rfl

theorem words_collapse (cs : List Char) : words (collapse cs) = words cs :=
  words_joinWords fun _ hw => isWord_of_mem_words hw

theorem collapse_eq_nil_iff : collapse cs = [] ↔ words cs = [] := by
  constructor
  · intro h
    by_contra hne
    exact (trim_joinWords hne fun _ hw => isWord_of_mem_words hw).1 h
  · intro h
    rw [collapse, h]
    rfl

/-- Single spaces in front of the words take no more letters than the gaps in the text. -/
theorem length_lower_spaced_le (hcs : Stops cs) :
    (lower (tokensText (spaced (words cs)))).length ≤ (lower cs).length := by
  induction cs using text_induction with
  | blank cs hblank =>
      rw [words_eq_nil hblank]
      exact Nat.zero_le _
  | token gap word rest hgap hword hrest ih =>
      have hne : gap ≠ [] := by
        refine gap_ne_of_stops (t := ⟨gap, word⟩) hcs ?_
        rw [tokens_append hgap hword hrest]
        exact List.mem_cons_self
      have hspaced : tokensText (spaced (word :: words rest)) =
          [' '] ++ (word ++ tokensText (spaced (words rest))) := by
        simp [spaced, tokensText, Token.text]
      have hspace : (lower [' ']).length = 1 := rfl
      have hpos := List.length_pos_of_ne_nil hne
      have hlower := length_le_length_lower gap
      rw [words_append hgap hword hrest, hspaced]
      simp only [length_lower_append, hspace]
      have hmore := ih hrest
      omega

theorem length_lower_collapse_le (cs : List Char) :
    (lower (collapse cs)).length ≤ (lower cs).length := by
  induction cs using text_induction with
  | blank cs hblank =>
      rw [collapse, words_eq_nil hblank]
      exact Nat.zero_le _
  | token gap word rest hgap hword hrest _ =>
      have hmore := length_lower_spaced_le hrest
      rw [collapse, words_append hgap hword hrest, joinWords_cons]
      simp only [length_lower_append]
      omega

end Text

namespace Name

open Text

variable {name : String}

theorem key_eq_empty_iff : key name = "" ↔ words name.toList = [] := by
  rw [key, ← collapse_eq_nil_iff, ← lower_eq_nil_iff]
  exact String.ofList_eq_empty_iff

theorem words_display (name : String) : words (display name).toList = words name.toList := by
  rw [display, String.toList_ofList, words_collapse]

theorem key_display (name : String) : key (display name) = key name := by
  rw [key, key, collapse, words_display, ← collapse]

end Name

end Glossary
