import Glossary.Proofs.BlankHeadings
import Glossary.Proofs.WrittenLines

/-!
Whether a term can be spoken of by the name in its heading: a statement keeps the name of its
subject unless that hides a verb phrase, and the name of its object unless that ends with a full
stop.
-/

namespace Glossary.Dictionary

open Text Fallible

variable {name object text : String} {line cs : List Char} {entry : List String × Verb}
  {ws subject verb rest : List (List Char)} {primitives : Primitives} {ts : List Term} {t : Term}
  {s : Statement}

theorem isDisplayName_of_nameOf? (h : nameOf? line = some name) (hne : name ≠ "") :
    IsDisplayName name := by
  obtain ⟨title, -, rfl⟩ := Option.map_eq_some_iff.mp h
  refine ⟨hne, ?_⟩
  rw [Name.display, String.toList_ofList, collapse, words_collapse, ← collapse]

theorem isDisplayName_of_mem (h : terms primitives text = .ok ts) (ht : t ∈ ts)
    (hne : t.name ≠ "") : IsDisplayName t.name := by
  obtain ⟨-, -, line, -, hname⟩ := exists_heading_of_mem h ht
  exact isDisplayName_of_nameOf? hname hne

/-- In the place of an object the name would lose a full stop. -/
def LosesStop (name : String) : Prop :=
  '.' ∈ name.toList.getLast? ∧ name ≠ "."

section Subjects

theorem key_joinWords (hws : ∀ w ∈ ws, IsWord w) :
    Name.key (String.ofList (joinWords ws)) = String.ofList (lower (joinWords ws)) := by
  rw [Name.key, String.toList_ofList, collapse, words_joinWords hws]

/-- Fewer words have a shorter key. -/
theorem key_joinWords_ne {vs : List (List Char)} (hws : ∀ w ∈ ws ++ vs, IsWord w) (hne : ws ≠ [])
    (hne' : vs ≠ []) : Name.key (String.ofList (joinWords ws)) ≠
      Name.key (String.ofList (joinWords (ws ++ vs))) := by
  intro heq
  rw [key_joinWords hws, key_joinWords (List.forall_mem_append.mp hws).1, String.ofList_inj,
    joinWords_append hne hne'] at heq
  have hlength := congrArg List.length heq
  have hpos := length_le_length_lower (' ' :: joinWords vs)
  rw [length_lower_append] at hlength
  rw [List.length_cons] at hpos
  omega

/-- A subject that hides a verb is cut short. -/
theorem key_subject_ne_of_hidesVerb (hname : IsDisplayName name) (hobject : IsDisplayName object)
    (hentry : entry ∈ verbPhrases) (hhides : HidesVerb (words name.toList))
    (hs : Statement.ofText? (joinWords (sentenceWords name entry.1 object)) = some s) :
    Name.key s.subject ≠ Name.key name := by
  obtain ⟨before, found, after, hsplit, hfound, hbefore⟩ := hhides
  obtain ⟨subject, verb, rest, hcut⟩ := exists_cutsAtVerb
    (show sentenceWords name entry.1 object = _ from rfl) ⟨entry, hentry, readsAs_self hentry⟩
    hname.words_ne hobject.words_ne
  have hle := hcut.first before found (after ++ entry.1.map String.toList ++ words object.toList)
    (by simp [sentenceWords, hsplit]) hfound hbefore (by simp [hobject.words_ne])
  have hlt : subject.length < (words name.toList).length := by
    have hpos := List.length_pos_of_ne_nil hfound.ne_nil
    have hlength := congrArg List.length hsplit
    simp only [List.length_append] at hlength
    omega
  obtain ⟨more, hmore⟩ : subject <+: words name.toList := by
    have hfront : subject <+: sentenceWords name entry.1 object := by
      rw [hcut.words_eq, List.append_assoc]
      exact List.prefix_append _ _
    have hfront' : words name.toList <+: sentenceWords name entry.1 object := by
      rw [sentenceWords, List.append_assoc]
      exact List.prefix_append _ _
    exact List.prefix_of_prefix_length_le hfront hfront' hlt.le
  have hne : more ≠ [] := by
    rintro rfl
    rw [← hmore, List.append_nil] at hlt
    exact lt_irrefl _ hlt
  obtain ⟨entry', hentry', hreads'⟩ := hcut.isVerb
  rw [Statement.ofText?_joinWords (isWord_of_mem_sentenceWords hentry) hcut hentry' hreads'] at hs
  obtain rfl := Option.some.inj hs
  have hwords : ∀ w ∈ subject ++ more, IsWord w := fun w hw => isWord_of_mem_words (hmore ▸ hw)
  have hkey := key_joinWords_ne hwords hcut.subject_ne hne
  rwa [hmore, ← hname.toList_eq, String.ofList_toList] at hkey

end Subjects

section Objects

theorem IsDisplayName.dropsStop (h : IsDisplayName object) :
    DropsStop object.toList (withoutFullStop object.toList) :=
  dropsStop_withoutFullStop ⟨by simpa using h.ne_empty, h.trim_eq⟩

theorem withoutFullStop_of_not_losesStop (hobject : IsDisplayName object) (h : ¬LosesStop object) :
    withoutFullStop object.toList = object.toList := by
  rcases hobject.dropsStop.eq_or with ⟨heq, -⟩ | ⟨gap, heq, hne⟩
  · exact heq
  · refine absurd ⟨?_, fun hstop => hne (by rw [hstop]; rfl)⟩ h
    rw [heq]
    simp

/-- What is left of a name without its full stop has a shorter key. -/
theorem key_withoutFullStop_ne (hobject : IsDisplayName object) (h : LosesStop object) :
    Name.key (String.ofList (withoutFullStop object.toList)) ≠ Name.key object := by
  obtain ⟨hlast, hne⟩ := h
  have hcollapse : collapse object.toList = object.toList := hobject.toList_eq.symm
  rcases hobject.dropsStop.eq_or with ⟨-, halone⟩ | ⟨gap, heq, -⟩
  · exact absurd (String.toList_inj.mp (halone hlast)) hne
  · intro hkey
    rw [Name.key, Name.key, String.toList_ofList, hcollapse, String.ofList_inj] at hkey
    have hle := length_lower_collapse_le (withoutFullStop object.toList)
    have hmore := congrArg (fun cs => (lower cs).length) heq
    have hpos := length_le_length_lower (gap ++ ['.'])
    rw [hkey] at hle
    rw [length_lower_append] at hmore
    rw [List.length_append, List.length_singleton] at hpos
    omega

end Objects

/-- A name, a verb phrase and another name make a statement. -/
theorem exists_ofText?_joinWords (hname : IsDisplayName name) (hobject : IsDisplayName object)
    (hentry : entry ∈ verbPhrases) :
    ∃ s, Statement.ofText? (joinWords (sentenceWords name entry.1 object)) = some s := by
  obtain ⟨subject, verb, rest, hcut⟩ := exists_cutsAtVerb
    (show sentenceWords name entry.1 object = _ from rfl) ⟨entry, hentry, readsAs_self hentry⟩
    hname.words_ne hobject.words_ne
  obtain ⟨entry', hentry', hreads'⟩ := hcut.isVerb
  exact ⟨_, Statement.ofText?_joinWords (isWord_of_mem_sentenceWords hentry) hcut hentry' hreads'⟩

/-- The statement that the first term has the second one. -/
def hasSentence (t u : Term) : String :=
  t.name ++ " " ++ Relation.composes.verb ++ " " ++ u.name

/-- The second of two terms can be spoken of in a has-a statement about the first one just if the
name of the first hides no verb phrase and that of the second loses no full stop. The line makes a
statement in any case, and in this one it says what is written. -/
theorem terms_canBeReferredTo {names : List String} {u : Term}
    (h : terms (.ofNames names) text = .ok ts) (ht : t ∈ ts) (hu : u ∈ ts)
    (hname : t.name ≠ "") (hobject : u.name ≠ "") :
    ∃ s, IsStatement (hasSentence t u) s ∧
      LineShape.ofLine? ("- " ++ hasSentence t u).toList = some (.bullet (hasSentence t u).toList) ∧
      (statementPattern.match? (hasSentence t u).toList).map Statement.ofReading = some s ∧
      (Name.key s.subject = t.key ↔ ¬HidesVerb (words t.name.toList)) ∧
      (Name.key s.subject = t.key ∧ Name.key (Name.display s.object) = u.key ↔
        ¬HidesVerb (words t.name.toList) ∧ ¬LosesStop u.name) ∧
      (¬HidesVerb (words t.name.toList) → ¬LosesStop u.name →
        s = ⟨t.name, some (.relates .composes), u.name⟩) := by
  have htName := isDisplayName_of_mem h ht hname
  have huName := isDisplayName_of_mem h hu hobject
  have hentry : (["has", "a"], Verb.relates .composes) ∈ verbPhrases := by decide
  have hverb : Relation.composes.verb.toList = joinWords (["has", "a"].map String.toList) := by
    decide
  obtain ⟨s, hs⟩ := exists_ofText?_joinWords htName huName hentry
  have hstatement : IsStatement (hasSentence t u) s :=
    isStatement_of_ofText? htName huName hentry hverb hs
  have hline : '\n' ∉ (hasSentence t u).toList :=
    fun hfeed => absurd (hstatement.oneLine _ hfeed) (by decide)
  refine ⟨s, hstatement, ofLine?_bullet hstatement.trimmed, ?_, ?_⟩
  · rw [← Statement.ofText?_eq_map_match? hline hstatement.trimmed, hstatement.reads]
  · by_cases hhides : HidesVerb (words t.name.toList)
    · have hne := key_subject_ne_of_hidesVerb htName huName hentry hhides hs
      exact ⟨⟨fun heq => absurd heq hne, fun hnot => absurd hhides hnot⟩,
        ⟨fun heq => absurd heq.1 hne, fun hnot => absurd hhides hnot.1⟩,
        fun hnot => absurd hhides hnot⟩
    · rw [ofText?_of_not_hidesVerb htName hhides hentry huName] at hs
      obtain rfl := Option.some.inj hs
      have hkey : Name.key (Name.display (String.ofList (withoutFullStop u.name.toList))) = u.key ↔
          ¬LosesStop u.name := by
        rw [Name.key_display]
        constructor
        · exact fun heq hloses => key_withoutFullStop_ne huName hloses heq
        · intro hkeeps
          rw [withoutFullStop_of_not_losesStop huName hkeeps, String.ofList_toList]
          rfl
      refine ⟨⟨fun _ => hhides, fun _ => rfl⟩, ?_, fun _ hkeeps => ?_⟩
      · rw [hkey]
        exact ⟨fun h => ⟨hhides, h.2⟩, fun h => ⟨rfl, h.2⟩⟩
      · rw [withoutFullStop_of_not_losesStop huName hkeeps, String.ofList_toList]

def firmText : String :=
  "# Acme Inc.\nA firm.\n\n# Proof of what is a Loan\nA note.\n"

def firm : Term :=
  ⟨"Acme Inc.", "A firm.", none, none, [], some 1⟩

def note : Term :=
  ⟨"Proof of what is a Loan", "A note.", none, none, [], some 4⟩

theorem terms_firmText : terms (.ofNames builtInPrimitives) firmText = .ok [firm, note] := rfl

/-- A verb phrase does no harm in an object, and neither does a full stop in a subject. -/
theorem note_canBeReferredTo :
    terms (.ofNames builtInPrimitives) firmText = .ok [firm, note] ∧
      (firm.name ≠ "" ∧ note.name ≠ "") ∧
      ¬HidesVerb (words firm.name.toList) ∧ ¬LosesStop note.name := by
  have hfirm : firm.name ≠ "" := by decide
  have hnote : note.name ≠ "" := by decide
  obtain ⟨s, hstatement, -, -, -, hiff, -⟩ :=
    terms_canBeReferredTo terms_firmText (by simp) (by simp) hfirm hnote
  have hs : Statement.ofText? (hasSentence firm note).toList =
      some ⟨"Acme Inc.", some (.relates .composes), "Proof of what is a Loan"⟩ := rfl
  obtain rfl := Option.some.inj (hs.symm.trans hstatement.reads)
  exact ⟨terms_firmText, ⟨hfirm, hnote⟩, hiff.mp ⟨by decide +kernel, by decide +kernel⟩⟩

/-- The firm loses its full stop as an object, and the note is cut at its verb as a subject. -/
theorem firm_cannotBeReferredTo :
    (terms (.ofNames builtInPrimitives) firmText = .ok [firm, note] ∧
      firm.name ≠ "" ∧ note.name ≠ "") ∧
    (∃ s, Statement.ofText? (hasSentence firm firm).toList = some s ∧
      Name.key (Name.display s.object) ≠ firm.key) ∧
    ∃ s, Statement.ofText? (hasSentence note note).toList = some s ∧
      Name.key s.subject ≠ note.key := by
  refine ⟨⟨terms_firmText, by decide, by decide⟩, ⟨_, rfl, ?_⟩, ⟨_, rfl, ?_⟩⟩
  · decide +kernel
  · decide +kernel

end Glossary.Dictionary
