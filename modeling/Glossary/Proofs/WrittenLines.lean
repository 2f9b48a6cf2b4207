import Mathlib.Data.List.Infix
import Glossary.Proofs.Outlines
import Glossary.Proofs.VerbPhrases

/-!
Lines that are written the plain way have the shape that was meant, and their statements the names
and the verb that were meant.
-/

namespace Glossary.Dictionary

open Text

/-- Words with single spaces between them. -/
structure IsDisplayName (name : String) : Prop where
  ne_empty : name ≠ ""
  display_eq : Name.display name = name

/-- Words of ASCII letters and digits with single spaces between them. -/
structure IsPlainName (name : String) : Prop where
  ne_empty : name ≠ ""
  display_eq : Name.display name = name
  alphanum : ∀ w ∈ words name.toList, w.all Char.isAlphanum = true

/-- A verb phrase begins behind the first of the words. -/
def HidesVerb (ws : List (List Char)) : Prop :=
  ∃ before found after, ws = before ++ (found ++ after) ∧ IsVerbPhrase found ∧ before ≠ []

/-- No verb phrase begins at the second word of the name or further on. -/
def HidesNoVerb (name : String) : Prop :=
  ∀ rest ∈ (words name.toList).tail.tails, ∀ entry ∈ verbPhrases,
    ¬entry.1.map String.toList <+: rest.map lower

instance (name : String) : Decidable (IsPlainName name) :=
  decidable_of_iff (name ≠ "" ∧ Name.display name = name ∧
      ∀ w ∈ words name.toList, w.all Char.isAlphanum = true)
    ⟨fun ⟨hne, hdisplay, halphanum⟩ => ⟨hne, hdisplay, halphanum⟩,
      fun h => ⟨h.ne_empty, h.display_eq, h.alphanum⟩⟩

instance (name : String) : Decidable (HidesNoVerb name) :=
  inferInstanceAs (Decidable (∀ rest ∈ (words name.toList).tail.tails, ∀ entry ∈ verbPhrases,
    ¬entry.1.map String.toList <+: rest.map lower))

variable {c : Char} {cs line body : List Char} {name object : String}
  {ws vs found : List (List Char)} {entry entry' : List String × Verb}

namespace IsDisplayName

theorem toList_eq (h : IsDisplayName name) : name.toList = joinWords (words name.toList) := by
  have heq := congrArg String.toList h.display_eq
  rw [Name.display, String.toList_ofList] at heq
  exact heq.symm

theorem words_ne (h : IsDisplayName name) : words name.toList ≠ [] := by
  intro hwords
  have heq := h.toList_eq
  rw [hwords] at heq
  exact h.ne_empty (String.toList_eq_nil_iff.mp heq)

theorem trim_eq (h : IsDisplayName name) : trim name.toList = name.toList := by
  rw [h.toList_eq]
  exact (trim_joinWords h.words_ne fun _ hw => isWord_of_mem_words hw).2

theorem oneLine (h : IsDisplayName name) : ∀ c ∈ name.toList, isLineBreak c = false := by
  intro c hc
  rw [h.toList_eq] at hc
  exact not_isLineBreak_of_mem_joinWords (fun _ hw => isWord_of_mem_words hw) hc

end IsDisplayName

namespace IsPlainName

theorem isDisplayName (h : IsPlainName name) : IsDisplayName name :=
  ⟨h.ne_empty, h.display_eq⟩

theorem trim_eq (h : IsPlainName name) : trim name.toList = name.toList :=
  h.isDisplayName.trim_eq

theorem oneLine (h : IsPlainName name) : ∀ c ∈ name.toList, isLineBreak c = false :=
  h.isDisplayName.oneLine

theorem space_or_alphanum (h : IsPlainName name) (hc : c ∈ name.toList) :
    c = ' ' ∨ c.isAlphanum = true := by
  rw [h.isDisplayName.toList_eq] at hc
  rcases mem_joinWords hc with hspace | ⟨w, hw, hc⟩
  · exact Or.inl hspace
  · exact Or.inr (List.all_eq_true.mp (h.alphanum w hw) c hc)

theorem not_mem (h : IsPlainName name) (hc : c ≠ ' ' ∧ c.isAlphanum = false) : c ∉ name.toList := by
  intro hmem
  rcases h.space_or_alphanum hmem with heq | halphanum
  · exact hc.1 heq
  · rw [hc.2] at halphanum
    cases halphanum

/-- In a plain name no verb phrase has a lookalike in it. -/
theorem not_hidesVerb (h : IsPlainName name) (hverb : HidesNoVerb name) :
    ¬HidesVerb (words name.toList) := by
  rintro ⟨before, found, rest, hsplit, ⟨entry, hentry, hreads⟩, hbefore⟩
  obtain ⟨first, before, rfl⟩ := List.exists_cons_of_ne_nil hbefore
  have hplain : ∀ w ∈ found, ∀ c ∈ w, c ∉ lookalikes := by
    intro w hw c hc hlookalike
    have halphanum := List.all_eq_true.mp (h.alphanum w (by simp [hsplit, hw])) c hc
    simp only [lookalikes, List.mem_cons, List.not_mem_nil, or_false] at hlookalike
    rcases hlookalike with rfl | rfl | rfl <;> exact absurd halphanum (by decide)
  have hlower := (hreads.map_lower_eq_iff (isLower_of_mem_verbPhrases hentry)).mpr hplain
  refine hverb (found ++ rest) ?_ entry hentry ?_
  · rw [List.mem_tails, hsplit]
    exact ⟨before, rfl⟩
  · rw [List.map_append, hlower]
    exact List.prefix_append _ _

end IsPlainName

section Verbs

theorem isWord_of_mem_phrase (hentry : entry ∈ verbPhrases) :
    ∀ w ∈ entry.1.map String.toList, IsWord w := by
  have hall : ∀ entry ∈ verbPhrases, ∀ w ∈ entry.1.map String.toList,
      w ≠ [] ∧ (w.all fun c => !isBlank c) = true := by decide
  intro w hw
  obtain ⟨hne, hsolid⟩ := hall entry hentry w hw
  exact ⟨hne, by simpa using hsolid⟩

theorem readsAs_self (hentry : entry ∈ verbPhrases) :
    ReadsAs entry.1 (entry.1.map String.toList) := by
  have hall : ∀ entry ∈ verbPhrases, ∀ w ∈ entry.1, wordReadsAs w.toList w.toList = true := by decide
  exact List.forall₂_map_right_iff.mpr (List.forall₂_same.mpr (hall entry hentry))

theorem verbOf_self (hentry : entry ∈ verbPhrases) :
    verbOf entry (entry.1.map String.toList) = some entry.2 := by
  have hall : ∀ entry ∈ verbPhrases,
      (entry.1.map String.toList).map lower = entry.1.map String.toList := by decide
  exact if_pos (hall entry hentry)

/-- Words behind the first one of a phrase do not read as the first word of a phrase. -/
theorem not_reads_first (hentry : entry ∈ verbPhrases) (hentry' : entry' ∈ verbPhrases)
    {letters first : String} (hletters : letters ∈ entry'.1.tail) (hfirst : first ∈ entry.1.head?) :
    wordReadsAs letters.toList first.toList = false := by
  have hall : ∀ entry ∈ verbPhrases, ∀ entry' ∈ verbPhrases, ∀ letters ∈ entry'.1.tail,
      ∀ first ∈ entry.1.head?, wordReadsAs letters.toList first.toList = false := by decide
  exact hall entry hentry entry' hentry' letters hletters first hfirst

end Verbs

section Statements

theorem tokensOf_append (hws : ws ≠ []) : tokensOf (ws ++ vs) = tokensOf ws ++ spaced vs := by
  obtain ⟨w, ws, rfl⟩ := List.exists_cons_of_ne_nil hws
  simp [tokensOf, spaced]

theorem map_word_spaced (ws : List (List Char)) : (spaced ws).map Token.word = ws := by
  simp [spaced, Function.comp_def]

theorem trim_tokensText_spaced (hvs : vs ≠ []) (hwords : ∀ v ∈ vs, IsWord v) :
    trim (tokensText (spaced vs)) = joinWords vs := by
  obtain ⟨v, vs, rfl⟩ := List.exists_cons_of_ne_nil hvs
  have hspaced : tokensText (spaced (v :: vs)) = ' ' :: joinWords (v :: vs) := by
    rw [joinWords_cons]
    simp [spaced, tokensText, Token.text]
  rw [hspaced]
  exact (trim_joinWords hvs hwords).2

theorem withoutFullStop_eq (hcs : '.' ∉ cs) : withoutFullStop cs = cs := by
  unfold withoutFullStop
  split
  · rename_i before hreverse
    exact absurd (List.mem_reverse.mp (hreverse ▸ List.mem_cons_self)) hcs
  · rfl

/-- A verb phrase that begins before the end of these words ends before it too, if the words that
follow begin with a verb phrase themselves. -/
theorem exists_found_within {before after : List (List Char)} (hentry : entry ∈ verbPhrases)
    (hsplit : ws ++ (entry.1.map String.toList ++ vs) = before ++ (found ++ after))
    (hfound : IsVerbPhrase found) (hlt : before.length < ws.length) :
    ∃ rest, ws = before ++ (found ++ rest) := by
  rcases List.append_eq_append_iff.mp hsplit with ⟨more, rfl, -⟩ | ⟨front, rfl, hfront⟩
  · rw [List.length_append] at hlt
    omega
  · rcases List.append_eq_append_iff.mp hfront with ⟨rest, rfl, -⟩ | ⟨back, rfl, hback⟩
    · exact ⟨rest, rfl⟩
    · cases back with
      | nil => exact ⟨[], by simp⟩
      | cons w back =>
          -- the second verb phrase would begin inside the first one
          obtain ⟨entry', hentry', hreads⟩ := hfound
          obtain ⟨first, more, hphrase⟩ := List.exists_cons_of_ne_nil (ne_nil_of_mem hentry)
          rw [hphrase, List.map_cons, List.cons_append] at hback
          obtain ⟨rfl, -⟩ := List.cons.inj hback
          obtain ⟨letters, rest, hletters, -, hdrop⟩ :=
            List.forall₂_cons_right_iff.mp (List.forall₂_drop_append entry'.1 front _ hreads)
          have hlater : letters ∈ entry'.1.tail := by
            cases front with
            | nil => simp at hlt
            | cons v front =>
                rw [List.length_cons, ← List.drop_tail] at hdrop
                exact List.mem_of_mem_drop (hdrop ▸ List.mem_cons_self)
          have hnot := not_reads_first hentry hentry' hlater (by rw [hphrase]; rfl)
          rw [hletters] at hnot
          cases hnot

/-- Words, a verb phrase and further words are cut there exactly if the first words hide no verb. -/
theorem cutsAtVerb_iff_not_hidesVerb (hws : ws ≠ []) (hentry : entry ∈ verbPhrases)
    (hvs : vs ≠ []) :
    CutsAtVerb (ws ++ entry.1.map String.toList ++ vs) ws (entry.1.map String.toList) vs ↔
      ¬HidesVerb ws := by
  constructor
  · rintro hcut ⟨before, found, after, rfl, hfound, hbefore⟩
    have hle := hcut.first before found (after ++ entry.1.map String.toList ++ vs) (by simp) hfound
      hbefore (by simp [hvs])
    have hpos := List.length_pos_of_ne_nil hfound.ne_nil
    simp only [List.length_append] at hle
    omega
  · intro hhides
    refine ⟨rfl, ⟨entry, hentry, readsAs_self hentry⟩, hws, hvs, ?_⟩
    intro before found after hsplit hfound hbefore _
    by_contra hlt
    rw [List.append_assoc, List.append_assoc] at hsplit
    obtain ⟨rest, hrest⟩ := exists_found_within hentry hsplit hfound (by omega)
    exact hhides ⟨before, found, rest, hrest, hfound, hbefore⟩

/-- The words of a statement that is written with a verb phrase between two names. -/
def sentenceWords (name : String) (phrase : List String) (object : String) : List (List Char) :=
  words name.toList ++ phrase.map String.toList ++ words object.toList

theorem isWord_of_mem_sentenceWords (hentry : entry ∈ verbPhrases) :
    ∀ w ∈ sentenceWords name entry.1 object, IsWord w := by
  intro w hw
  simp only [sentenceWords, List.mem_append] at hw
  rcases hw with (hw | hw) | hw
  · exact isWord_of_mem_words hw
  · exact isWord_of_mem_phrase hentry w hw
  · exact isWord_of_mem_words hw

theorem toList_eq_joinWords (hname : IsDisplayName name) (hobject : IsDisplayName object)
    (hentry : entry ∈ verbPhrases) {verb : String}
    (hverb : verb.toList = joinWords (entry.1.map String.toList)) :
    (name ++ " " ++ verb ++ " " ++ object).toList =
      joinWords (sentenceWords name entry.1 object) := by
  have hphrase : entry.1.map String.toList ≠ [] := by simpa using ne_nil_of_mem hentry
  rw [sentenceWords, joinWords_append (by simp [hname.words_ne]) hobject.words_ne,
    joinWords_append hname.words_ne hphrase, ← hname.toList_eq, ← hobject.toList_eq, ← hverb]
  simp

/-- What words with single spaces between them say, cut at their first verb phrase. -/
theorem Statement.ofText?_joinWords {all subject verb rest : List (List Char)}
    (hwords : ∀ w ∈ all, IsWord w) (hcut : CutsAtVerb all subject verb rest)
    (hentry : entry ∈ verbPhrases) (hreads : ReadsAs entry.1 verb) :
    Statement.ofText? (joinWords all) = some ⟨String.ofList (joinWords subject), verbOf entry verb,
      String.ofList (withoutFullStop (joinWords rest))⟩ := by
  have hrest : ∀ w ∈ rest, IsWord w := fun w hw => hwords w (by simp [hcut.words_eq, hw])
  refine Statement.ofText?_eq_some_iff.mpr ⟨entry, tokensOf subject, spaced verb, spaced rest, ?_,
    hentry, ?_, ?_, ?_⟩
  · rw [tokens_joinWords hwords, hcut.words_eq, tokensOf_append (by simp [hcut.subject_ne]),
      tokensOf_append hcut.subject_ne]
  · rwa [map_word_spaced]
  · rwa [words_joinWords hwords, map_word_tokensOf, map_word_spaced, map_word_spaced]
  · rw [tokensText_tokensOf, map_word_spaced, trim_tokensText_spaced hcut.object_ne hrest]

/-- The text makes this statement wherever it stands on a line of its own. -/
structure IsStatement (text : String) (s : Statement) : Prop where
  reads : Statement.ofText? text.toList = some s
  trimmed : trim text.toList = text.toList
  oneLine : ∀ c ∈ text.toList, isLineBreak c = false

theorem isStatement_of_ofText? {s : Statement} (hname : IsDisplayName name)
    (hobject : IsDisplayName object) (hentry : entry ∈ verbPhrases) {verb : String}
    (hverb : verb.toList = joinWords (entry.1.map String.toList))
    (h : Statement.ofText? (joinWords (sentenceWords name entry.1 object)) = some s) :
    IsStatement (name ++ " " ++ verb ++ " " ++ object) s := by
  have htext := toList_eq_joinWords hname hobject hentry hverb
  have hwords : ∀ w ∈ sentenceWords name entry.1 object, IsWord w :=
    isWord_of_mem_sentenceWords hentry
  constructor
  case reads => rwa [htext]
  case trimmed =>
    rw [htext]
    exact (trim_joinWords (by simp [sentenceWords, hname.words_ne]) hwords).2
  case oneLine =>
    rw [htext]
    exact fun c hc => not_isLineBreak_of_mem_joinWords hwords hc

/-- A name that hides no verb makes the statement that is written, but for a final full stop. -/
theorem ofText?_of_not_hidesVerb (hname : IsDisplayName name)
    (hhides : ¬HidesVerb (words name.toList))
    (hentry : entry ∈ verbPhrases) (hobject : IsDisplayName object) :
    Statement.ofText? (joinWords (sentenceWords name entry.1 object)) =
      some ⟨name, some entry.2, String.ofList (withoutFullStop object.toList)⟩ := by
  have hcut := (cutsAtVerb_iff_not_hidesVerb hname.words_ne hentry hobject.words_ne).mpr hhides
  rw [Statement.ofText?_joinWords (isWord_of_mem_sentenceWords hentry) hcut hentry
    (readsAs_self hentry), ← hname.toList_eq, ← hobject.toList_eq, String.ofList_toList,
    verbOf_self hentry]

/-- A statement says what was written. -/
theorem isStatement_of_isPlainName (hname : IsPlainName name) (hhides : HidesNoVerb name)
    (hentry : entry ∈ verbPhrases) {verb : String}
    (hverb : verb.toList = joinWords (entry.1.map String.toList)) (hobject : IsPlainName object) :
    IsStatement (name ++ " " ++ verb ++ " " ++ object) ⟨name, some entry.2, object⟩ := by
  have hreads := ofText?_of_not_hidesVerb hname.isDisplayName (hname.not_hidesVerb hhides) hentry
    hobject.isDisplayName
  rw [withoutFullStop_eq (hobject.not_mem (by decide)), String.ofList_toList] at hreads
  exact isStatement_of_ofText? hname.isDisplayName hobject.isDisplayName hentry hverb hreads

end Statements

section Shapes

theorem mem_dropWhile {p : Char → Bool} (hc : c ∈ cs) (hp : p c = false) : c ∈ cs.dropWhile p := by
  rw [← List.takeWhile_append_dropWhile (p := p) (l := cs)] at hc
  rcases List.mem_append.mp hc with hc | hc
  · rw [List.mem_takeWhile_imp hc] at hp
    cases hp
  · exact hc

theorem isClosing_eq_false (hc : c ∈ cs) (hsolid : isBlank c = false) (hmark : c ≠ '#') :
    isClosing cs = false := by
  refine List.all_eq_false.mpr ⟨c, mem_dropWhile (mem_dropWhile hc hsolid) ?_, by simp [hsolid]⟩
  simpa using hmark

theorem headingName_eq_self (hlast : cs.getLast? = some c) (hsolid : isBlank c = false)
    (hmark : c ≠ '#') : headingName cs = cs := by
  induction cs with
  | nil => rfl
  | cons d cs ih =>
      cases cs with
      | nil => rfl
      | cons e cs =>
          rw [List.getLast?_cons_cons] at hlast
          rw [headingName, isClosing_eq_false (List.mem_of_getLast? hlast) hsolid hmark, ih hlast]
          rfl

theorem heading?_name (hname : IsPlainName name) :
    heading? ('#' :: ' ' :: name.toList) = some name.toList := by
  obtain ⟨hfirst, hlast⟩ := trim_eq_self_iff.mp hname.trim_eq
  have hne : name.toList ≠ [] := by simpa using hname.ne_empty
  have hstart : trimStart (' ' :: name.toList) = name.toList := trimStart_eq_self_iff.mpr hfirst
  have hname' : headingName name.toList = name.toList := by
    cases hgetLast : name.toList.getLast? with
    | none => exact absurd (List.getLast?_eq_none_iff.mp hgetLast) hne
    | some c =>
        refine headingName_eq_self hgetLast (hlast c hgetLast) ?_
        rintro rfl
        exact hname.not_mem (by decide) (List.mem_of_getLast? hgetLast)
  have hmarked : trimStart ('#' :: ' ' :: name.toList) = '#' :: ' ' :: name.toList := rfl
  have hmarks : ('#' :: ' ' :: name.toList).takeWhile (fun c => c == '#') = ['#'] := rfl
  have htail : ('#' :: ' ' :: name.toList).dropWhile (fun c => c == '#') = ' ' :: name.toList := rfl
  simp [heading?, hmarked, hmarks, htail, hstart, hname', hne]

theorem ofLine?_heading (hname : IsPlainName name) :
    LineShape.ofLine? ("# " ++ name).toList = some (.heading name) := by
  have hline : ("# " ++ name).toList = '#' :: ' ' :: name.toList := by simp
  rw [hline, LineShape.ofLine?_of_heading? (heading?_name hname)]
  exact congrArg (some ∘ LineShape.heading) hname.display_eq

theorem ofLine?_bullet {body : String} (hbody : trim body.toList = body.toList) :
    LineShape.ofLine? ("- " ++ body).toList = some (.bullet body.toList) := by
  have hline : ("- " ++ body).toList = '-' :: ' ' :: body.toList := by simp
  have hheading : heading? ('-' :: ' ' :: body.toList) = none := by
    have hmarked : trimStart ('-' :: ' ' :: body.toList) = '-' :: ' ' :: body.toList := rfl
    simp [heading?, hmarked]
  have hbullet : bullet? ('-' :: ' ' :: body.toList) = some body.toList := by
    have hmarked : trimStart ('-' :: ' ' :: body.toList) = '-' :: ' ' :: body.toList := rfl
    rw [bullet?, hmarked]
    exact congrArg some hbody
  rw [hline, LineShape.ofLine?, hheading, hbullet]
  rfl

theorem ofLine?_plain {text : String} (hne : text ≠ "") (htrim : trim text.toList = text.toList)
    (hheading : heading? text.toList = none) (hbullet : bullet? text.toList = none) :
    LineShape.ofLine? text.toList = some (.plain text) := by
  have hsolid : ¬text.toList.all isBlank = true := by
    rw [List.all_eq_true, ← trim_eq_nil_iff, htrim]
    simpa using hne
  rw [LineShape.ofLine?, if_neg hsolid, hheading, hbullet, htrim, String.ofList_toList]

end Shapes

end Glossary.Dictionary
