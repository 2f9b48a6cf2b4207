import Mathlib.Data.List.Forall2
import Glossary.Dictionary.Statement

/-!
Two ways to forget the case of letters: reading them as small letters, and lowering them. They part
on three letters, which read as small ASCII letters but are not lowered to them.
-/

namespace Glossary.Text

variable {c : Char} {cs before : List Char}

theorem lowerAfter_eq_map (hcs : ∀ c ∈ cs, c ≠ 'Σ' ∧ c ≠ 'İ') :
    lowerAfter before cs = cs.map lowerChar := by
  induction cs generalizing before with
  | nil => rfl
  | cons c cs ih =>
      obtain ⟨⟨hsigma, hdotted⟩, hcs⟩ := List.forall_mem_cons.mp hcs
      rw [lowerAfter, if_neg hsigma, if_neg hdotted, ih hcs]
      rfl

theorem lowerChar_mem_lowerAfter (hc : c ∈ cs) (hsigma : c ≠ 'Σ') (hdotted : c ≠ 'İ') :
    lowerChar c ∈ lowerAfter before cs := by
  induction cs generalizing before with
  | nil => cases hc
  | cons d cs ih =>
      rw [lowerAfter]
      rcases List.mem_cons.mp hc with rfl | hc
      · simp [hsigma, hdotted]
      · exact List.mem_append_right _ (ih hc)

theorem dot_mem_lowerAfter (h : 'İ' ∈ cs) : '\u0307' ∈ lowerAfter before cs := by
  induction cs generalizing before with
  | nil => cases h
  | cons d cs ih =>
      rw [lowerAfter]
      rcases List.mem_cons.mp h with rfl | h
      · simp
      · exact List.mem_append_right _ (ih h)

theorem lowerChar_of_toNat_lt (hc : c.toNat < 0x80) : lowerChar c = c.toLower :=
  if_pos hc

theorem toNat_lt_of_isLower_toLower (h : c.toLower.isLower = true) : c.toNat < 0x80 := by
  unfold Char.toLower at h
  split at h
  · rename_i hupper
    have hle := UInt32.le_iff_toNat_le.mp hupper.2
    simp at hle
    omega
  · change (decide (97 ≤ c.val) && decide (c.val ≤ 122)) = true at h
    simp only [Bool.and_eq_true, decide_eq_true_eq] at h
    have hle := UInt32.le_iff_toNat_le.mp h.2
    simp at hle
    omega

end Glossary.Text

namespace Glossary.Dictionary

open Text

/-- The letters that read as a small ASCII letter when case is ignored and are not lowered to it. -/
def lookalikes : List Char := ['ſ', 'İ', 'ı']

/-- The small letter that a character reads as, if there is one. -/
def reading (c : Char) : Char :=
  if c = 'ſ' then 's' else if c = 'İ' ∨ c = 'ı' then 'i' else c.toLower

variable {letter letter' c : Char} {letters letters' w : List Char}

theorem readsAs_iff : readsAs letter c = true ↔
    c.toLower = letter ∨ letter = 's' ∧ c = 'ſ' ∨ letter = 'i' ∧ (c = 'İ' ∨ c = 'ı') := by
  simp [readsAs, or_assoc]

theorem toLower_of_mem_lookalikes (hc : c ∈ lookalikes) : c.toLower.isLower = false := by
  have hall : (lookalikes.all fun c => !c.toLower.isLower) = true := by decide
  simpa using List.all_eq_true.mp hall c hc

theorem reading_of_not_mem_lookalikes (hc : c ∉ lookalikes) : reading c = c.toLower := by
  simp only [lookalikes, List.mem_cons, List.not_mem_nil, or_false, not_or] at hc
  rw [reading, if_neg hc.1, if_neg (by simpa using hc.2)]

theorem reading_eq (hletter : letter.isLower = true) (h : readsAs letter c = true) :
    reading c = letter := by
  rcases readsAs_iff.mp h with rfl | ⟨rfl, rfl⟩ | ⟨rfl, rfl | rfl⟩
  · apply reading_of_not_mem_lookalikes
    intro hc
    rw [toLower_of_mem_lookalikes hc] at hletter
    cases hletter
  · rfl
  · rfl
  · rfl

theorem wordReadsAs_iff : wordReadsAs letters w = true ↔
    List.Forall₂ (fun letter c => readsAs letter c = true) letters w := by
  fun_induction wordReadsAs letters w with
  | case1 => simp
  | case2 letter letters c w ih => simp [ih]
  | case3 letters w hnil hcons =>
      refine ⟨fun h => (Bool.false_ne_true h).elim, fun h => ?_⟩
      cases h with
      | nil => exact (hnil rfl rfl).elim
      | cons _ _ => exact (hcons _ _ _ _ rfl rfl).elim

theorem map_reading_eq (hletters : ∀ letter ∈ letters, letter.isLower = true)
    (h : wordReadsAs letters w = true) : w.map reading = letters := by
  have hreads := wordReadsAs_iff.mp h
  clear h
  induction hreads with
  | nil => rfl
  | cons h _ ih =>
      obtain ⟨hletter, hletters⟩ := List.forall_mem_cons.mp hletters
      rw [List.map_cons, reading_eq hletter h, ih hletters]

/-- The form of a lookalike is no small ASCII letter. -/
theorem exists_mem_lower_of_mem_lookalikes (hc : c ∈ w) (hlookalike : c ∈ lookalikes) :
    ∃ d ∈ lower w, d.isLower = false := by
  simp only [lookalikes, List.mem_cons, List.not_mem_nil, or_false] at hlookalike
  rcases hlookalike with rfl | rfl | rfl
  · exact ⟨_, lowerChar_mem_lowerAfter hc (by decide) (by decide), by decide⟩
  · exact ⟨_, dot_mem_lowerAfter hc, by decide⟩
  · exact ⟨_, lowerChar_mem_lowerAfter hc (by decide) (by decide), by decide⟩

/-- A word that reads as small letters is lowered to them unless it has a lookalike. -/
theorem lower_eq_iff (hletters : ∀ letter ∈ letters, letter.isLower = true)
    (h : wordReadsAs letters w = true) : lower w = letters ↔ ∀ c ∈ w, c ∉ lookalikes := by
  have hmap := map_reading_eq hletters h
  constructor
  · rintro heq c hc hlookalike
    obtain ⟨d, hd, hnotLower⟩ := exists_mem_lower_of_mem_lookalikes hc hlookalike
    rw [heq] at hd
    rw [hletters d hd] at hnotLower
    cases hnotLower
  · intro hw
    have hsmall : ∀ c ∈ w, c.toLower.isLower = true := by
      intro c hc
      rw [← reading_of_not_mem_lookalikes (hw c hc)]
      exact hletters _ (hmap ▸ List.mem_map_of_mem hc)
    have hascii : ∀ c ∈ w, c.toNat < 0x80 := fun c hc => toNat_lt_of_isLower_toLower (hsmall c hc)
    have hplain : ∀ c ∈ w, c ≠ 'Σ' ∧ c ≠ 'İ' := by
      intro c hc
      have hlt := hascii c hc
      constructor
      · rintro rfl
        exact absurd hlt (by decide)
      · rintro rfl
        exact absurd hlt (by decide)
    calc lower w = w.map lowerChar := lowerAfter_eq_map hplain
      _ = w.map reading := by
        apply List.map_congr_left
        intro c hc
        rw [lowerChar_of_toNat_lt (hascii c hc), reading_of_not_mem_lookalikes (hw c hc)]
      _ = letters := hmap

end Glossary.Dictionary
