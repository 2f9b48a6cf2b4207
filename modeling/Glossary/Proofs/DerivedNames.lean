import Glossary.Proofs.LowerForms
import Glossary.Proofs.QuotedNames

/-!
The names of columns, tables and views follow the key of a term. Spellings that differ in letter
case or in spacing alone have one key, and all names that are derived from them are the same; these
are words of digits and small letters, which no statement has to quote.
-/

namespace Glossary

namespace Text

section Runs

variable {α : Type} {keep : α → Bool} {as bs run : List α} {sep : α} {ws : List (List α)}

theorem runs_cons (keep : α → Bool) (a : α) (as : List α) : runs keep (a :: as) =
    if keep a then
      if as.head?.any keep then (a :: (runs keep as).headD []) :: (runs keep as).tail
      else [a] :: runs keep as
    else runs keep as := by
  rw [runs]
  cases runs keep as <;> cases as.head?.any keep <;> rfl

theorem runs_ne_nil (h : as.head?.any keep = true) : runs keep as ≠ [] := by
  cases as with
  | nil => cases h
  | cons a as =>
      have ha : keep a = true := h
      rw [runs_cons, if_pos ha]
      split <;> simp

theorem of_mem_runs (h : run ∈ runs keep as) : run ≠ [] ∧ ∀ a ∈ run, keep a = true := by
  induction as generalizing run with
  | nil => cases h
  | cons a as ih =>
      rw [runs_cons] at h
      split_ifs at h with ha hnext
      · rcases List.mem_cons.mp h with rfl | h
        · refine ⟨List.cons_ne_nil _ _, List.forall_mem_cons.mpr ⟨ha, ?_⟩⟩
          obtain ⟨first, more, hruns⟩ := List.exists_cons_of_ne_nil (runs_ne_nil hnext)
          have hfirst : first ∈ runs keep as := by
            rw [hruns]
            exact List.mem_cons_self
          rw [hruns]
          exact (ih hfirst).2
        · exact ih (List.mem_of_mem_tail h)
      · rcases List.mem_cons.mp h with rfl | h
        · exact ⟨List.cons_ne_nil _ _, List.forall_mem_singleton.mpr ha⟩
        · exact ih h
      · exact ih h

theorem flatten_runs (keep : α → Bool) (as : List α) : (runs keep as).flatten = as.filter keep := by
  induction as with
  | nil => rfl
  | cons a as ih =>
      rw [runs_cons]
      split_ifs with ha hnext
      · obtain ⟨first, more, hruns⟩ := List.exists_cons_of_ne_nil (runs_ne_nil hnext)
        rw [List.filter_cons_of_pos ha, ← ih, hruns]
        rfl
      · rw [List.filter_cons_of_pos ha, ← ih]
        rfl
      · rw [List.filter_cons_of_neg ha, ih]

/-- No run goes on into a text that begins with an element that is dropped. -/
theorem runs_append (h : bs.head?.any keep = false) :
    runs keep (as ++ bs) = runs keep as ++ runs keep bs := by
  induction as with
  | nil => rfl
  | cons a as ih =>
      have hnext : (as ++ bs).head?.any keep = as.head?.any keep := by
        cases as with
        | nil => exact h
        | cons b as => rfl
      rw [List.cons_append, runs_cons, runs_cons, hnext, ih]
      split_ifs with ha hany
      · obtain ⟨first, more, hruns⟩ := List.exists_cons_of_ne_nil (runs_ne_nil hany)
        rw [hruns]
        rfl
      · rfl
      · rfl

/-- Dropped elements may be exchanged for other ones. -/
theorem runs_congr (h : List.Forall₂ (fun a b => a = b ∨ keep a = false ∧ keep b = false) as bs) :
    runs keep as = runs keep bs := by
  induction h with
  | nil => rfl
  | @cons a b as bs hab hrest ih =>
      have hnext : as.head?.any keep = bs.head?.any keep := by
        cases hrest with
        | nil => rfl
        | cons hfirst _ =>
            rcases hfirst with rfl | ⟨hfirst, hfirst'⟩
            · rfl
            · exact hfirst.trans hfirst'.symm
      rcases hab with rfl | ⟨ha, hb⟩
      · rw [runs_cons, runs_cons, hnext, ih]
      · rw [runs_cons, runs_cons, ha, hb, ih]
        rfl

theorem runs_intercalate (hws : ∀ w ∈ ws, w ≠ [] ∧ ∀ a ∈ w, keep a = true)
    (hsep : keep sep = false) : runs keep ([sep].intercalate ws) = ws := by
  induction ws with
  | nil => rfl
  | cons w ws ih =>
      obtain ⟨⟨hne, hkept⟩, hws⟩ := List.forall_mem_cons.mp hws
      cases ws with
      | nil =>
          have hone : runs keep (w ++ []) = w :: runs keep [] :=
            runs_append_of_kept hne hkept (by simp)
          simpa [runs] using hone
      | cons w' ws =>
          rw [List.intercalate_cons_cons, List.append_assoc, runs_append_of_kept hne hkept,
            runs_append_of_dropped, ih hws]
          · exact List.forall_mem_singleton.mpr hsep
          · simpa using hsep

end Runs

end Text

namespace Name

open Text Dictionary

variable {c : Char} {cs ds es form form' : List Char} {name : String}

theorem isSnakeChar_iff :
    isSnakeChar c = true ↔ ('0' ≤ c ∧ c ≤ '9') ∨ ('a' ≤ c ∧ c ≤ 'z') := by
  simp [isSnakeChar]

theorem ascii_snakeChars : ((List.range 0x80).all fun n =>
    !isSnakeChar (Char.ofNat n) || lowerChar (Char.ofNat n) == Char.ofNat n) = true := by
  decide +kernel

theorem blanks_not_snakeChars :
    (blankCodes.all fun n => !isSnakeChar (Char.ofNat n)) = true := by
  decide

theorem isSnakeChar_of_isBlank (h : isBlank c = true) : isSnakeChar c = false := by
  have hc := List.all_eq_true.mp blanks_not_snakeChars c.toNat (mem_blankCodes_of_isBlank h)
  rwa [Char.ofNat_toNat, Bool.not_eq_true'] at hc

theorem toNat_lt_of_isSnakeChar (h : isSnakeChar c = true) : c.toNat < 0x80 := by
  have hle : c ≤ 'z' := by
    rcases isSnakeChar_iff.mp h with ⟨-, hdigit⟩ | ⟨-, hletter⟩
    · exact Char.le_trans hdigit (by decide)
    · exact hletter
  have hlast : c.toNat ≤ 122 := UInt32.le_iff_toNat_le.mp hle
  omega

/-- Digits and small letters are low, and so is the line that joins them. -/
theorem isLow_of_isSnakeChar (h : isSnakeChar c = true) : IsLow c := by
  have hascii := toNat_lt_of_isSnakeChar h
  have hc := List.all_eq_true.mp ascii_snakeChars c.toNat (List.mem_range.mpr hascii)
  rw [Char.ofNat_toNat, h] at hc
  refine ⟨by simpa using hc, ?_, ?_⟩
  · rintro rfl
    exact absurd hascii (by decide)
  · rintro rfl
    exact absurd hascii (by decide)

/-- However a character is lowered, the same digits and small letters come of it. -/
theorem forall₂_of_isFormOf (h : IsFormOf c form) (h' : IsFormOf c form') :
    List.Forall₂ (fun a b => a = b ∨ isSnakeChar a = false ∧ isSnakeChar b = false) form form' := by
  have hsame : ∀ cs : List Char, List.Forall₂
      (fun a b => a = b ∨ isSnakeChar a = false ∧ isSnakeChar b = false) cs cs :=
    fun cs => List.forall₂_same.mpr fun _ _ => Or.inl rfl
  cases h with
  | sigma =>
      cases h' with
      | sigma => exact hsame _
      | finalSigma => exact .cons (Or.inr (by decide)) .nil
      | single _ hsigma _ => exact absurd rfl hsigma
  | finalSigma =>
      cases h' with
      | sigma => exact .cons (Or.inr (by decide)) .nil
      | finalSigma => exact hsame _
      | single _ hsigma _ => exact absurd rfl hsigma
  | dotted =>
      cases h' with
      | dotted => exact hsame _
      | single _ _ hdotted => exact absurd rfl hdotted
  | single _ hsigma hdotted =>
      cases h' with
      | sigma => exact absurd rfl hsigma
      | finalSigma => exact absurd rfl hsigma
      | dotted => exact absurd rfl hdotted
      | single _ _ _ => exact hsame _

theorem runs_of_isLowered (hds : IsLowered cs ds) (hes : IsLowered cs es) :
    runs isSnakeChar ds = runs isSnakeChar es := by
  apply runs_congr
  induction hds generalizing es with
  | nil =>
      cases hes
      exact .nil
  | cons hform _ ih =>
      cases hes with
      | cons hform' hrest => exact List.rel_append (forall₂_of_isFormOf hform hform') (ih hrest)

theorem runs_append_of_stops (hes : Stops es) :
    runs isSnakeChar (ds ++ es) = runs isSnakeChar ds ++ runs isSnakeChar es := by
  apply runs_append
  cases hhead : es.head? with
  | none => rfl
  | some c => exact isSnakeChar_of_isBlank (hes c hhead)

theorem runs_append_of_blank (hds : ∀ c ∈ ds, isBlank c = true) :
    runs isSnakeChar (ds ++ es) = runs isSnakeChar es :=
  runs_append_of_dropped fun c hc => isSnakeChar_of_isBlank (hds c hc)

theorem stops_spaced (ws : List (List Char)) : Stops (tokensText (spaced ws)) := by
  cases ws with
  | nil => simp [spaced, tokensText, Stops]
  | cons w ws => exact fun c hc => Option.some.inj hc ▸ rfl

/-- Single spaces in front of the words of a text part the same digits and letters as its gaps. -/
theorem runs_spaced (hds : IsLowered cs ds)
    (hes : IsLowered (tokensText (spaced (words cs))) es) :
    runs isSnakeChar ds = runs isSnakeChar es := by
  induction cs using text_induction generalizing ds es with
  | blank cs hblank =>
      rw [words_eq_nil hblank] at hes
      cases hes
      rw [hds.eq_of_isBlank hblank, ← List.append_nil cs, runs_append_of_blank hblank]
  | token gap word rest hgap hword hrest ih =>
      have hspaced : tokensText (spaced (words (gap ++ (word ++ rest)))) =
          [' '] ++ (word ++ tokensText (spaced (words rest))) := by
        rw [words_append hgap hword hrest]
        simp [spaced, tokensText, Token.text]
      rw [hspaced] at hes
      obtain ⟨gap', more, rfl, hgap', hmore⟩ := isLowered_append_iff.mp hds
      obtain ⟨word', rest', rfl, hword', hrest'⟩ := isLowered_append_iff.mp hmore
      obtain ⟨space, moreSpaced, rfl, hspace, hmoreSpaced⟩ := isLowered_append_iff.mp hes
      obtain ⟨wordSpaced, restSpaced, rfl, hwordSpaced, hrestSpaced⟩ :=
        isLowered_append_iff.mp hmoreSpaced
      have hblank : ∀ c ∈ [' '], isBlank c = true := List.forall_mem_singleton.mpr rfl
      obtain rfl := hgap'.eq_of_isBlank hgap
      obtain rfl := hspace.eq_of_isBlank hblank
      rw [runs_append_of_blank hgap, runs_append_of_blank hblank,
        runs_append_of_stops (hrest'.stops hrest),
        runs_append_of_stops (hrestSpaced.stops (stops_spaced _)),
        runs_of_isLowered hword' hwordSpaced, ih hrest' hrestSpaced]

/-- The words of a text have the same digits and small letters, in the same runs, as the text. -/
theorem runs_lower_collapse (cs : List Char) :
    runs isSnakeChar (lower (collapse cs)) = runs isSnakeChar (lower cs) := by
  cases hwords : words cs with
  | nil =>
      have hes : IsLowered (tokensText (spaced (words cs))) (lower (collapse cs)) := by
        rw [collapse, hwords]
        exact isLowered_lower []
      exact (runs_spaced (isLowered_lower cs) hes).symm
  | cons w ws =>
      have hspaced : tokensText (spaced (words cs)) = [' '] ++ collapse cs := by
        rw [collapse, hwords, joinWords_cons]
        simp [spaced, tokensText, Token.text]
      have hblank : ∀ c ∈ [' '], isBlank c = true := List.forall_mem_singleton.mpr rfl
      have hes : IsLowered (tokensText (spaced (words cs))) ([' '] ++ lower (collapse cs)) := by
        rw [hspaced]
        exact isLowered_append_iff.mpr ⟨[' '], _, rfl, isLowered_lower [' '], isLowered_lower _⟩
      rw [runs_spaced (isLowered_lower cs) hes, runs_append_of_blank hblank]

/-- The text is made of words of digits and small letters, joined by single underscores. -/
def IsSnakeCase (name : String) : Prop :=
  ∃ ws : List (List Char), name.toList = ['_'].intercalate ws ∧
    ∀ w ∈ ws, w ≠ [] ∧ ∀ c ∈ w, ('0' ≤ c ∧ c ≤ '9') ∨ ('a' ≤ c ∧ c ≤ 'z')

theorem toList_snakeCase (name : String) :
    (snakeCase name).toList = ['_'].intercalate (runs isSnakeChar (lower name.toList)) :=
  String.toList_ofList

theorem toList_key (name : String) : (key name).toList = lower (collapse name.toList) :=
  String.toList_ofList

theorem runs_toList_snakeCase (name : String) :
    runs isSnakeChar (snakeCase name).toList = runs isSnakeChar (lower name.toList) := by
  rw [toList_snakeCase]
  exact runs_intercalate (fun _ hw => of_mem_runs hw) rfl

theorem of_mem_snakeCase (hc : c ∈ (snakeCase name).toList) : c = '_' ∨ isSnakeChar c = true := by
  rw [toList_snakeCase] at hc
  obtain heq | ⟨w, hw, hc⟩ := mem_intercalate hc
  · exact Or.inl heq
  · exact Or.inr ((of_mem_runs hw).2 c hc)

theorem isSnakeCase_snakeCase (name : String) : IsSnakeCase (snakeCase name) := by
  refine ⟨_, toList_snakeCase name, fun w hw => ?_⟩
  obtain ⟨hne, hkept⟩ := of_mem_runs hw
  exact ⟨hne, fun c hc => isSnakeChar_iff.mp (hkept c hc)⟩

theorem lower_toList_snakeCase (name : String) :
    lower (snakeCase name).toList = (snakeCase name).toList := by
  apply lower_eq_self
  intro c hc
  rcases of_mem_snakeCase hc with rfl | hsnake
  · exact ⟨by decide, by decide, by decide⟩
  · exact isLow_of_isSnakeChar hsnake

theorem snakeCase_eq_of_runs {other : String}
    (h : runs isSnakeChar (lower other.toList) = runs isSnakeChar (lower name.toList)) :
    snakeCase other = snakeCase name := by
  rw [← String.toList_inj, toList_snakeCase, toList_snakeCase, h]

theorem key_key (name : String) : key (key name) = key name := by
  rw [← String.toList_inj, toList_key, toList_key, collapse_lower_collapse, lower_lower]

theorem snakeCase_key (name : String) : snakeCase (key name) = snakeCase name := by
  apply snakeCase_eq_of_runs
  rw [toList_key, lower_lower, runs_lower_collapse]

theorem snakeCase_eq_of_key_eq {other : String} (h : key other = key name) :
    snakeCase other = snakeCase name := by
  rw [← snakeCase_key other, h, snakeCase_key]

theorem snakeCase_snakeCase (name : String) : snakeCase (snakeCase name) = snakeCase name := by
  apply snakeCase_eq_of_runs
  rw [lower_toList_snakeCase, runs_toList_snakeCase]

theorem filter_snakeCase (name : String) :
    (snakeCase name).toList.filter isSnakeChar = (lower name.toList).filter isSnakeChar := by
  rw [← flatten_runs, ← flatten_runs, runs_toList_snakeCase]

theorem isNameChar_of_mem_snakeCase (hc : c ∈ (snakeCase name).toList) :
    Sql.isNameChar c = true := by
  rw [Sql.isNameChar_iff]
  rcases of_mem_snakeCase hc with heq | hsnake
  · exact Or.inr (Or.inr heq)
  · exact (isSnakeChar_iff.mp hsnake).elim (fun h => Or.inr (Or.inl h)) Or.inl

/-- A plain word before a database name makes a plain word, and no reserved word begins so. -/
theorem quote_append_snakeCase {front : String} (hfront : Sql.IsPlainWord front.toList)
    (hreserved : (Sql.reservedWords.all fun w => !front.toList.isPrefixOf w.toList) = true)
    (name : String) : Sql.quote (front ++ snakeCase name) = front ++ snakeCase name := by
  have hplain : Sql.IsPlainWord (front ++ snakeCase name).toList := by
    obtain ⟨first, more, hsplit⟩ := List.exists_cons_of_ne_nil hfront.ne_nil
    rw [hsplit, Sql.isPlainWord_cons_iff] at hfront
    rw [String.toList_append, hsplit, List.cons_append, Sql.isPlainWord_cons_iff]
    exact ⟨hfront.1, List.forall_mem_append.mpr
      ⟨hfront.2, fun c hc => isNameChar_of_mem_snakeCase hc⟩⟩
  have hnot : front ++ snakeCase name ∉ Sql.reservedWords := by
    intro hmem
    have hbegins := List.all_eq_true.mp hreserved _ hmem
    rw [String.toList_append, List.isPrefixOf_iff_prefix.mpr (List.prefix_append _ _)] at hbegins
    cases hbegins
  have hbare : (!Sql.reservedWords.contains (front ++ snakeCase name)) = true := by simpa using hnot
  rw [Sql.quote, Sql.isSimpleName_iff.mpr (Or.inl hplain), hbare]
  rfl

theorem quote_table (name : String) : Sql.quote (table name) = table name := by
  refine quote_append_snakeCase ?_ (by decide) name
  exact Sql.isPlainWord_cons_iff.mpr ⟨rfl, List.all_eq_true.mp (by decide)⟩

theorem quote_view (name : String) : Sql.quote (view name) = view name := by
  refine quote_append_snakeCase ?_ (by decide) name
  exact Sql.isPlainWord_cons_iff.mpr ⟨rfl, List.all_eq_true.mp (by decide)⟩

/-- What a term is called in the database depends on its identity alone, and needs no quotes. -/
structure FollowsIdentity (name : String) : Prop where
  key_key : key (key name) = key name
  snakeCase_key : snakeCase (key name) = snakeCase name
  names_eq : ∀ other, key other = key name →
    snakeCase other = snakeCase name ∧ identifierColumn other = identifierColumn name ∧
      table other = table name ∧ view other = view name
  isSnakeCase : IsSnakeCase (snakeCase name)
  keeps : (snakeCase name).toList.filter isSnakeChar = (lower name.toList).filter isSnakeChar
  snakeCase_snakeCase : snakeCase (snakeCase name) = snakeCase name
  quote_table : Sql.quote (table name) = table name
  quote_view : Sql.quote (view name) = view name

/-- Database names are a function of the identity of a term. -/
theorem derived_followsIdentity (name : String) : FollowsIdentity name where
  key_key := key_key name
  snakeCase_key := snakeCase_key name
  names_eq := by
    intro other h
    have hsnake := snakeCase_eq_of_key_eq h
    unfold identifierColumn table view
    rw [hsnake]
    exact ⟨rfl, rfl, rfl, rfl⟩
  isSnakeCase := isSnakeCase_snakeCase name
  keeps := filter_snakeCase name
  snakeCase_snakeCase := snakeCase_snakeCase name
  quote_table := quote_table name
  quote_view := quote_view name

/-- A dotted capital and a final sigma are lowered in their own ways, and the names are the same. -/
theorem izmir_followsIdentity :
    key " i\u0307zmir  \u03bf\u03b4\u03bf\u03c2" = key "İzmir ΟΔΟΣ" ∧
      table " i\u0307zmir  \u03bf\u03b4\u03bf\u03c2" = table "İzmir ΟΔΟΣ" := by
  have hkey : key " i\u0307zmir  \u03bf\u03b4\u03bf\u03c2" = key "İzmir ΟΔΟΣ" := by decide +kernel
  exact ⟨hkey, ((derived_followsIdentity "İzmir ΟΔΟΣ").names_eq _ hkey).2.2.1⟩

end Name

end Glossary
