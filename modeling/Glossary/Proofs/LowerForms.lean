import Glossary.Proofs.Names

/-!
Lowering a text leaves nothing to be lowered, whatever stands around a letter, and it keeps the
words of a text apart: a blank stays what it is, and no other character becomes one.
-/

namespace Glossary.Text

variable {run other : LowerRun} {n : Nat} {c d : Char} {cs ds es form form' before : List Char}

/-- The last of the forms that a run gives. -/
def LowerRun.lastTarget (run : LowerRun) : Nat :=
  run.target + (run.last - run.first)

/-- The code point lies outside the stretch of the forms. -/
def LowerRun.avoids (run : LowerRun) (n : Nat) : Bool :=
  n < run.target || run.lastTarget < n

/-- No form that the run gives is covered by the other one: their stretches are apart, or every
second code point is covered and the forms are those between. -/
def LowerRun.misses (run other : LowerRun) : Bool :=
  run.lastTarget < other.first || other.last < run.target ||
    (other.stride == 2 && (run.stride == 2 || run.first == run.last) &&
      (run.target + other.first) % 2 == 1)

/-- The forms are characters beyond the capitals of ASCII, and neither blanks nor letters whose form
depends on more than themselves. -/
def LowerRun.isSettled (run : LowerRun) : Bool :=
  0x5b ≤ run.target &&
    (run.lastTarget < 0xd800 || (0xdfff < run.target && run.lastTarget < 0x110000)) &&
      run.avoids 0x130 && blankCodes.all run.avoids

theorem lowerRuns_settled :
    (lowerRuns.all fun run => run.isSettled && lowerRuns.all run.misses) = true := by
  decide +kernel

/-- What lowering makes of the characters of ASCII. -/
theorem ascii_settled : ((List.range 0x80).all fun n =>
    lowerChar (lowerChar (Char.ofNat n)) == lowerChar (Char.ofNat n) &&
      lowerChar (Char.ofNat n) != 'İ' &&
      isBlank (lowerChar (Char.ofNat n)) == isBlank (Char.ofNat n)) = true := by
  decide +kernel

theorem blanks_low :
    (blankCodes.all fun n => lowerChar (Char.ofNat n) == Char.ofNat n) = true := by
  decide +kernel

theorem LowerRun.covers_iff : run.covers n = true ↔
    run.first ≤ n ∧ n ≤ run.last ∧ (n - run.first) % run.stride = 0 := by
  simp [covers, and_assoc]

theorem LowerRun.form_le (h : run.covers n = true) :
    run.target + (n - run.first) ≤ run.lastTarget := by
  obtain ⟨-, hlast, -⟩ := covers_iff.mp h
  unfold lastTarget
  omega

theorem LowerRun.form_ne_of_avoids (h : run.covers n = true) {m : Nat} (hm : run.avoids m = true) :
    run.target + (n - run.first) ≠ m := by
  have hle := form_le h
  simp only [avoids, Bool.or_eq_true, decide_eq_true_eq] at hm
  omega

theorem LowerRun.not_covers_form (h : run.covers n = true) (hmisses : run.misses other = true) :
    other.covers (run.target + (n - run.first)) = false := by
  by_contra hcovers
  rw [Bool.not_eq_false] at hcovers
  have hle := form_le h
  obtain ⟨hfirst, hlast, hstride⟩ := covers_iff.mp h
  obtain ⟨hfirst', hlast', hstride'⟩ := covers_iff.mp hcovers
  simp only [misses, Bool.or_eq_true, Bool.and_eq_true, decide_eq_true_eq, beq_iff_eq] at hmisses
  rcases hmisses with (hbelow | habove) | ⟨⟨htwo, hthis⟩, hodd⟩
  · omega
  · omega
  -- the form lies as far behind the first code point of the other run as an odd number says
  rw [htwo] at hstride'
  rcases hthis with htwo' | hsingle
  · rw [htwo'] at hstride
    omega
  · omega

theorem isSettled_of_mem (hrun : run ∈ lowerRuns) : run.isSettled = true := by
  have hboth := List.all_eq_true.mp lowerRuns_settled run hrun
  rw [Bool.and_eq_true] at hboth
  exact hboth.1

theorem misses_of_mem (hrun : run ∈ lowerRuns) (hother : other ∈ lowerRuns) :
    run.misses other = true := by
  have hboth := List.all_eq_true.mp lowerRuns_settled run hrun
  rw [Bool.and_eq_true] at hboth
  exact List.all_eq_true.mp hboth.2 other hother

/-- A character is lowered as ASCII tells, or as a run tells, or it stays what it is. -/
theorem lowerChar_cases (c : Char) :
    (c.toNat < 0x80 ∧ lowerChar c = c.toLower) ∨
      (∃ run ∈ lowerRuns, run.covers c.toNat = true ∧
        (lowerChar c).toNat = run.target + (c.toNat - run.first)) ∨ lowerChar c = c := by
  by_cases hascii : c.toNat < 0x80
  · exact Or.inl ⟨hascii, lowerChar_of_toNat_lt hascii⟩
  · rw [lowerChar, if_neg hascii]
    cases hfind : lowerRuns.find? fun run => run.covers c.toNat with
    | none => exact Or.inr (Or.inr rfl)
    | some run =>
        have hrun := List.mem_of_find?_eq_some hfind
        have hcovers : run.covers c.toNat = true := by simpa using List.find?_some hfind
        refine Or.inr (Or.inl ⟨run, hrun, hcovers, ?_⟩)
        have hsettled := isSettled_of_mem hrun
        simp only [LowerRun.isSettled, Bool.and_eq_true, Bool.or_eq_true, decide_eq_true_eq]
          at hsettled
        obtain ⟨⟨⟨-, hvalid⟩, -⟩, -⟩ := hsettled
        have hle := LowerRun.form_le hcovers
        dsimp only
        have hchar : (run.target + (c.toNat - run.first)).isValidChar := by
          unfold Nat.isValidChar
          omega
        rw [Char.ofNat, dif_pos hchar]
        rfl

/-- The capitals of ASCII are the only characters of ASCII with another form. -/
theorem toLower_eq_self (h : 0x5b ≤ c.toNat) : c.toLower = c := by
  unfold Char.toLower
  split
  · rename_i hupper
    have hle := UInt32.le_iff_toNat_le.mp hupper.2
    simp at hle
    omega
  · rfl

theorem lowerChar_of_ascii (h : c.toNat < 0x80) : lowerChar (lowerChar c) = lowerChar c ∧
    lowerChar c ≠ 'İ' ∧ isBlank (lowerChar c) = isBlank c := by
  have hc := List.all_eq_true.mp ascii_settled c.toNat (List.mem_range.mpr h)
  rw [Char.ofNat_toNat] at hc
  simpa [and_assoc] using hc

/-- What a character is lowered to is not lowered any further. -/
theorem lowerChar_lowerChar (c : Char) : lowerChar (lowerChar c) = lowerChar c := by
  rcases lowerChar_cases c with ⟨hascii, -⟩ | ⟨run, hrun, hcovers, hform⟩ | heq
  · exact (lowerChar_of_ascii hascii).1
  · have hsettled := isSettled_of_mem hrun
    simp only [LowerRun.isSettled, Bool.and_eq_true, decide_eq_true_eq] at hsettled
    rcases lowerChar_cases (lowerChar c) with ⟨-, heq⟩ | ⟨other, hother, hcovers', -⟩ | heq
    · rw [heq, toLower_eq_self (by omega)]
    · have hnot := LowerRun.not_covers_form hcovers (misses_of_mem hrun hother)
      rw [← hform, hcovers'] at hnot
      cases hnot
    · exact heq
  · rw [heq, heq]

theorem lowerChar_ne_dotted (hc : c ≠ 'İ') : lowerChar c ≠ 'İ' := by
  rcases lowerChar_cases c with ⟨hascii, -⟩ | ⟨run, hrun, hcovers, hform⟩ | heq
  · exact (lowerChar_of_ascii hascii).2.1
  · intro hdotted
    have hsettled := isSettled_of_mem hrun
    simp only [LowerRun.isSettled, Bool.and_eq_true] at hsettled
    refine LowerRun.form_ne_of_avoids hcovers hsettled.1.2 ?_
    rw [← hform, hdotted]
    rfl
  · rwa [heq]

theorem mem_blankCodes_of_isBlank (h : isBlank c = true) : c.toNat ∈ blankCodes :=
  List.contains_iff_mem.mp h

theorem lowerChar_of_isBlank (h : isBlank c = true) : lowerChar c = c := by
  have hc := List.all_eq_true.mp blanks_low c.toNat (mem_blankCodes_of_isBlank h)
  rwa [Char.ofNat_toNat, beq_iff_eq] at hc

theorem isBlank_lowerChar (c : Char) : isBlank (lowerChar c) = isBlank c := by
  cases hblank : isBlank c with
  | true => rw [lowerChar_of_isBlank hblank, hblank]
  | false =>
      rcases lowerChar_cases c with ⟨hascii, -⟩ | ⟨run, hrun, hcovers, hform⟩ | heq
      · rw [(lowerChar_of_ascii hascii).2.2, hblank]
      · by_contra hform_blank
        rw [Bool.not_eq_false] at hform_blank
        have hsettled := isSettled_of_mem hrun
        simp only [LowerRun.isSettled, Bool.and_eq_true] at hsettled
        have havoids := List.all_eq_true.mp hsettled.2 _ (mem_blankCodes_of_isBlank hform_blank)
        exact LowerRun.form_ne_of_avoids hcovers havoids hform.symm
      · rw [heq, hblank]

/-- A character that is lowered to itself, wherever it stands. -/
structure IsLow (c : Char) : Prop where
  lowerChar_eq : lowerChar c = c
  ne_sigma : c ≠ 'Σ'
  ne_dotted : c ≠ 'İ'

/-- The characters that a character may be lowered to. -/
inductive IsFormOf : Char → List Char → Prop
  | sigma : IsFormOf 'Σ' ['σ']
  | finalSigma : IsFormOf 'Σ' ['ς']
  | dotted : IsFormOf 'İ' ['i', '\u0307']
  | single (c : Char) : c ≠ 'Σ' → c ≠ 'İ' → IsFormOf c [lowerChar c]

/-- The second text is the first one with each character lowered, in one way or the other. -/
inductive IsLowered : List Char → List Char → Prop
  | nil : IsLowered [] []
  | cons {c : Char} {form cs ds : List Char} : IsFormOf c form → IsLowered cs ds →
      IsLowered (c :: cs) (form ++ ds)

theorem isLowered_lowerAfter (before cs : List Char) : IsLowered cs (lowerAfter before cs) := by
  induction cs generalizing before with
  | nil => exact IsLowered.nil
  | cons c cs ih =>
      rw [lowerAfter]
      refine IsLowered.cons ?_ (ih (c :: before))
      split_ifs with hsigma hfinal hdotted
      · exact hsigma ▸ IsFormOf.finalSigma
      · exact hsigma ▸ IsFormOf.sigma
      · exact hdotted ▸ IsFormOf.dotted
      · exact IsFormOf.single c hsigma hdotted

theorem isLowered_lower (cs : List Char) : IsLowered cs (lower cs) :=
  isLowered_lowerAfter [] cs

theorem isLowered_append_iff {cs' : List Char} : IsLowered (cs ++ cs') ds ↔
    ∃ es es', ds = es ++ es' ∧ IsLowered cs es ∧ IsLowered cs' es' := by
  constructor
  · intro h
    induction cs generalizing ds with
    | nil => exact ⟨[], ds, rfl, IsLowered.nil, h⟩
    | cons c cs ih =>
        cases h with
        | @cons _ form _ ds hform hrest =>
            obtain ⟨es, es', rfl, hes, hes'⟩ := ih hrest
            exact ⟨form ++ es, es', (List.append_assoc _ _ _).symm, .cons hform hes, hes'⟩
  · rintro ⟨es, es', rfl, hes, hes'⟩
    induction hes with
    | nil => exact hes'
    | cons hform _ ih =>
        rw [List.cons_append, List.append_assoc]
        exact .cons hform ih

theorem IsFormOf.isLow (h : IsFormOf c form) : ∀ d ∈ form, IsLow d := by
  have hall : (['σ', 'ς', 'i', '\u0307'].all fun d => lowerChar d == d && d != 'Σ' && d != 'İ') =
      true := by decide
  have hlow : ∀ d ∈ ['σ', 'ς', 'i', '\u0307'], IsLow d := by
    intro d hd
    have hboth := List.all_eq_true.mp hall d hd
    simp only [Bool.and_eq_true, beq_iff_eq, bne_iff_ne] at hboth
    exact ⟨hboth.1.1, hboth.1.2, hboth.2⟩
  cases h with
  | sigma => exact List.forall_mem_singleton.mpr (hlow 'σ' (by simp))
  | finalSigma => exact List.forall_mem_singleton.mpr (hlow 'ς' (by simp))
  | dotted =>
      exact List.forall_mem_cons.mpr
        ⟨hlow 'i' (by simp), List.forall_mem_singleton.mpr (hlow '\u0307' (by simp))⟩
  | single _ hsigma hdotted =>
      refine List.forall_mem_singleton.mpr ⟨lowerChar_lowerChar c, ?_, lowerChar_ne_dotted hdotted⟩
      intro heq
      -- a capital sigma would be lowered once more
      have hsame := lowerChar_lowerChar c
      rw [heq] at hsame
      exact absurd hsame (by decide)

theorem IsLowered.isLow (h : IsLowered cs ds) : ∀ d ∈ ds, IsLow d := by
  induction h with
  | nil => simp
  | cons hform _ ih => exact List.forall_mem_append.mpr ⟨hform.isLow, ih⟩

theorem lower_eq_self (hcs : ∀ c ∈ cs, IsLow c) : lower cs = cs := by
  rw [lower, lowerAfter_eq_map fun c hc => ⟨(hcs c hc).ne_sigma, (hcs c hc).ne_dotted⟩]
  exact (List.map_congr_left fun c hc => (hcs c hc).lowerChar_eq).trans (List.map_id cs)

theorem lower_lower (cs : List Char) : lower (lower cs) = lower cs :=
  lower_eq_self (isLowered_lower cs).isLow

section Words

variable {gap word rest : List Char} {ws : List (List Char)}

theorem IsFormOf.isBlank_eq (h : IsFormOf c form) :
    form ≠ [] ∧ ∀ d ∈ form, isBlank d = isBlank c := by
  cases h with
  | sigma => exact ⟨by simp, List.forall_mem_singleton.mpr rfl⟩
  | finalSigma => exact ⟨by simp, List.forall_mem_singleton.mpr rfl⟩
  | dotted => exact ⟨by simp, List.forall_mem_cons.mpr ⟨rfl, List.forall_mem_singleton.mpr rfl⟩⟩
  | single _ _ _ => exact ⟨by simp, List.forall_mem_singleton.mpr (isBlank_lowerChar c)⟩

theorem IsFormOf.eq_of_isBlank (h : IsFormOf c form) (hc : isBlank c = true) : form = [c] := by
  cases h with
  | sigma => exact absurd hc (by decide)
  | finalSigma => exact absurd hc (by decide)
  | dotted => exact absurd hc (by decide)
  | single _ _ _ => rw [lowerChar_of_isBlank hc]

theorem IsLowered.eq_of_isBlank (h : IsLowered gap ds) (hgap : ∀ c ∈ gap, isBlank c = true) :
    ds = gap := by
  induction h with
  | nil => rfl
  | cons hform _ ih =>
      obtain ⟨hc, hgap⟩ := List.forall_mem_cons.mp hgap
      rw [hform.eq_of_isBlank hc, ih hgap]
      rfl

theorem IsLowered.isWord (h : IsLowered word ds) (hword : IsWord word) : IsWord ds := by
  obtain ⟨hne, hsolid⟩ := hword
  constructor
  · cases h with
    | nil => exact absurd rfl hne
    | cons hform _ => simp [hform.isBlank_eq.1]
  · clear hne
    induction h with
    | nil => exact hsolid
    | cons hform _ ih =>
        obtain ⟨hc, hsolid⟩ := List.forall_mem_cons.mp hsolid
        refine List.forall_mem_append.mpr ⟨fun d hd => ?_, ih hsolid⟩
        rw [hform.isBlank_eq.2 d hd, hc]

theorem IsLowered.stops (h : IsLowered rest ds) (hrest : Stops rest) : Stops ds := by
  cases h with
  | nil => exact hrest
  | @cons c form _ ds hform _ =>
      have hc : isBlank c = true := hrest c rfl
      rw [hform.eq_of_isBlank hc]
      exact fun d hd => Option.some.inj hd ▸ hc

/-- Words with single spaces between them are lowered word by word. -/
theorem IsLowered.exists_joinWords (h : IsLowered (joinWords ws) ds) :
    ∃ vs, List.Forall₂ IsLowered ws vs ∧ ds = joinWords vs := by
  induction ws generalizing ds with
  | nil =>
      cases h
      exact ⟨[], List.Forall₂.nil, rfl⟩
  | cons w ws ih =>
      cases ws with
      | nil => exact ⟨[ds], .cons (by simpa [joinWords] using h) .nil, by simp [joinWords]⟩
      | cons w' ws =>
          have hsplit : joinWords (w :: w' :: ws) = w ++ ([' '] ++ joinWords (w' :: ws)) := by
            rw [joinWords, List.intercalate_cons_cons, List.append_assoc]
            rfl
          rw [hsplit] at h
          obtain ⟨v, more, rfl, hv, hmore⟩ := isLowered_append_iff.mp h
          obtain ⟨space, last, rfl, hspace, hlast⟩ := isLowered_append_iff.mp hmore
          obtain rfl := hspace.eq_of_isBlank (List.forall_mem_singleton.mpr rfl)
          obtain ⟨vs, hvs, rfl⟩ := ih hlast
          refine ⟨v :: vs, .cons hv hvs, ?_⟩
          obtain ⟨v', vs, -, -, rfl⟩ := List.forall₂_cons_left_iff.mp hvs
          rw [joinWords, joinWords, List.intercalate_cons_cons, List.append_assoc]

theorem isWord_of_forall₂ {vs : List (List Char)} (h : List.Forall₂ IsLowered ws vs)
    (hws : ∀ w ∈ ws, IsWord w) : ∀ v ∈ vs, IsWord v := by
  induction h with
  | nil => simp
  | cons hlowered _ ih =>
      obtain ⟨hw, hws⟩ := List.forall_mem_cons.mp hws
      exact List.forall_mem_cons.mpr ⟨hlowered.isWord hw, ih hws⟩

/-- The words of a text that has been lowered are joined by single spaces if its words were. -/
theorem collapse_lower_collapse (cs : List Char) :
    collapse (lower (collapse cs)) = lower (collapse cs) := by
  obtain ⟨vs, hvs, heq⟩ := (isLowered_lower (collapse cs)).exists_joinWords
  rw [heq, collapse, words_joinWords (isWord_of_forall₂ hvs fun w hw => isWord_of_mem_words hw)]

end Words

end Glossary.Text
