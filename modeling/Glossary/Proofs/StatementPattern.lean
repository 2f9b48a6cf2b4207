import Glossary.Dictionary.Grammar
import Glossary.Proofs.Patterns
import Glossary.Proofs.TrimmedTexts
import Glossary.Proofs.VerbPhrases

/-!
The pattern of a statement finds what the search for the first verb phrase finds, whatever the order
in which it tries to match.
-/

namespace Glossary.Dictionary

open Text Pattern

variable {letter c : Char} {letters w cs body subject verb object rest text : List Char}
  {p q : Pattern} {phrases phrases' : List (List String)} {m r : Reading}

section Verbs

theorem isBlank_of_readsAs (hletter : letter.isLower = true) (h : readsAs letter c = true) :
    isBlank c = false := by
  have hblank : ∀ n ∈ blankCodes, (reading (Char.ofNat n)).isLower = false := by decide
  rw [← reading_eq hletter h] at hletter
  by_contra hc
  have hnot := hblank c.toNat (by simpa [isBlank] using hc)
  rw [Char.ofNat_toNat, hletter] at hnot
  cases hnot

/-- The letters make up a small ASCII word. -/
def IsSmall (letters : List Char) : Prop :=
  letters ≠ [] ∧ letters.all Char.isLower = true

instance (letters : List Char) : Decidable (IsSmall letters) :=
  inferInstanceAs (Decidable (letters ≠ [] ∧ letters.all Char.isLower = true))

theorem isWord_of_wordReadsAs (hletters : IsSmall letters) (h : wordReadsAs letters w = true) :
    IsWord w := by
  obtain ⟨hne, hsmall⟩ := hletters
  rw [List.all_eq_true] at hsmall
  have hreads := wordReadsAs_iff.mp h
  constructor
  case ne_nil =>
    rintro rfl
    exact hne (List.forall₂_nil_right_iff.mp hreads)
  case solid =>
    clear hne h
    induction hreads with
    | nil => simp
    | cons h _ ih =>
        obtain ⟨hletter, hsmall⟩ := List.forall_mem_cons.mp hsmall
        exact List.forall_mem_cons.mpr ⟨isBlank_of_readsAs hletter h, ih hsmall⟩

/-- The words of the text, which has none but inner blanks, are one of the phrases. -/
def Spells (phrases : List (List String)) (text : List Char) : Prop :=
  IsTrimmed text ∧ ∃ phrase ∈ phrases, ReadsAs phrase (words text)

theorem recognizes_gap : gap.Recognizes IsGap := by
  refine recognizes_repeated.congr fun text => ⟨?_, ?_⟩
  · rintro ⟨hleast, -, hblank⟩
    exact ⟨List.ne_nil_of_length_pos hleast, hblank⟩
  · rintro ⟨hne, hblank⟩
    exact ⟨List.length_pos_of_ne_nil hne, by simp, hblank⟩

theorem wordReadsAs_nil_iff : wordReadsAs [] w = true ↔ w = [] := by
  cases w <;> simp [wordReadsAs]

theorem wordReadsAs_cons_iff : wordReadsAs (letter :: letters) w = true ↔
    ∃ c more, w = c :: more ∧ readsAs letter c = true ∧ wordReadsAs letters more = true := by
  cases w <;> simp [wordReadsAs, and_assoc]

theorem recognizes_spelled (letters : List Char) :
    (spelled letters).Recognizes fun text => wordReadsAs letters text = true := by
  induction letters with
  | nil => exact recognizes_nothing.congr fun _ => wordReadsAs_nil_iff.symm
  | cons letter letters ih =>
      refine (recognizes_one.next ih).congr fun text => ?_
      rw [wordReadsAs_cons_iff]
      constructor
      · rintro ⟨_, back, rfl, ⟨c, rfl, hc⟩, hback⟩
        exact ⟨c, back, rfl, hc, hback⟩
      · rintro ⟨c, more, rfl, hc, hmore⟩
        exact ⟨[c], more, rfl, ⟨c, rfl, hc⟩, hmore⟩

theorem spells_word_iff {letters : String} (hletters : IsSmall letters.toList) :
    Spells [[letters]] text ↔ wordReadsAs letters.toList text = true := by
  constructor
  · rintro ⟨htext, phrase, hphrase, hreads⟩
    obtain rfl := List.mem_singleton.mp hphrase
    obtain ⟨word, rest, rfl, hword, hrest, hwords⟩ := htext.exists_word
    rw [hwords] at hreads
    obtain ⟨hreads, hnone⟩ := List.forall₂_cons.mp hreads
    obtain rfl : rest = [] := by
      by_contra hne
      exact words_ne_nil_of_last hne (last_solid_of_append htext.last_solid)
        (List.forall₂_nil_left_iff.mp hnone)
    rwa [List.append_nil]
  · intro h
    have hword := isWord_of_wordReadsAs hletters h
    refine ⟨isTrimmed_of_isWord hword, [letters], List.mem_cons_self, ?_⟩
    rw [words_of_isWord hword]
    exact List.Forall₂.cons h List.Forall₂.nil

theorem recognizes_word {letters : String} (hletters : IsSmall letters.toList) :
    (spelled letters.toList).Recognizes (Spells [[letters]]) :=
  (recognizes_spelled _).congr fun _ => (spells_word_iff hletters).symm

theorem recognizes_either (hp : p.Recognizes (Spells phrases))
    (hq : q.Recognizes (Spells phrases')) :
    (either p q).Recognizes (Spells (phrases ++ phrases')) := by
  refine (hp.either hq).congr fun text => ?_
  simp only [Spells, List.mem_append, or_and_right, exists_or, and_or_left]

theorem recognizes_article : article.Recognizes (Spells [["a"], ["an"]]) := by
  have ha : IsSmall "a".toList := by decide
  have han : IsSmall "an".toList := by decide
  refine ((recognizes_spelled ['a']).next recognizes_optional).congr fun text => ?_
  have hsplit : Spells [["a"], ["an"]] text ↔ Spells [["a"]] text ∨ Spells [["an"]] text := by
    simp only [Spells, List.mem_cons, List.not_mem_nil, or_false, or_and_right, exists_or,
      and_or_left]
  have hletters : "a".toList = ['a'] ∧ "an".toList = ['a', 'n'] := by decide
  rw [hsplit, spells_word_iff ha, spells_word_iff han, hletters.1, hletters.2]
  constructor
  · rintro ⟨front, _, rfl, hfront, rfl | ⟨d, rfl, hd⟩⟩
    · rw [List.append_nil]
      exact Or.inl hfront
    · obtain ⟨c, _, rfl, hc, hnil⟩ := wordReadsAs_cons_iff.mp hfront
      obtain rfl := wordReadsAs_nil_iff.mp hnil
      exact Or.inr (by simp [wordReadsAs, hc, hd])
  · rintro (h | h)
    · exact ⟨text, [], by simp, h, Or.inl rfl⟩
    · obtain ⟨c, _, rfl, hc, hmore⟩ := wordReadsAs_cons_iff.mp h
      obtain ⟨d, _, rfl, hd, hnil⟩ := wordReadsAs_cons_iff.mp hmore
      obtain rfl := wordReadsAs_nil_iff.mp hnil
      exact ⟨[c], [d], rfl, by simp [wordReadsAs, hc], Or.inr ⟨d, rfl, hd⟩⟩

/-- A word, a gap and one of the phrases. -/
theorem recognizes_cons {letters : String} (hletters : IsSmall letters.toList)
    (hne : [] ∉ phrases) (hp : p.Recognizes (Spells phrases)) :
    (next (spelled letters.toList) (next gap p)).Recognizes
      (Spells (phrases.map fun phrase => letters :: phrase)) := by
  refine ((recognizes_spelled _).next (recognizes_gap.next hp)).congr fun text => ?_
  constructor
  · rintro ⟨word, _, rfl, hreadsWord, between, back, rfl, hgap, hback, phrase, hphrase, hreads⟩
    have hword := isWord_of_wordReadsAs hletters hreadsWord
    refine ⟨(isTrimmed_of_isWord hword).append hback, _, List.mem_map_of_mem hphrase, ?_⟩
    rw [words_append_of_isWord hword hgap.stops, hgap.words_append]
    exact List.Forall₂.cons hreadsWord hreads
  · rintro ⟨htext, _, hmem, hreads⟩
    obtain ⟨phrase, hphrase, rfl⟩ := List.mem_map.mp hmem
    obtain ⟨word, rest, rfl, hword, hstops, hwords⟩ := htext.exists_word
    rw [hwords] at hreads
    obtain ⟨hfirst, hreads⟩ := List.forall₂_cons.mp hreads
    have hrest : words rest ≠ [] := by
      intro hnil
      rw [hnil] at hreads
      exact hne (List.forall₂_nil_right_iff.mp hreads ▸ hphrase)
    obtain ⟨between, back, rfl, hgap, hback⟩ :=
      exists_gap_append hstops hrest (last_solid_of_append htext.last_solid)
    rw [hgap.words_append] at hreads
    exact ⟨word, _, rfl, hfirst, between, back, rfl, hgap, hback, phrase, hphrase, hreads⟩

theorem recognizes_phrase {ws : List String} (hws : ∀ w ∈ ws, IsSmall w.toList)
    (hne : [] ∉ phrases) (hp : p.Recognizes (Spells phrases)) :
    (phrase ws p).Recognizes (Spells (phrases.map fun phrase => ws ++ phrase)) := by
  induction ws with
  | nil => simpa [phrase] using hp
  | cons w ws ih =>
      obtain ⟨hw, hws⟩ := List.forall_mem_cons.mp hws
      have hmore := recognizes_cons hw ?_ (ih hws)
      · rw [List.map_map] at hmore
        exact hmore
      · rintro hmem
        obtain ⟨phrase, hphrase, hnil⟩ := List.mem_map.mp hmem
        obtain ⟨-, rfl⟩ := List.append_eq_nil_iff.mp hnil
        exact hne hphrase

theorem recognizes_verbPattern :
    verbPattern.Recognizes fun text => IsTrimmed text ∧ IsVerbPhrase (words text) := by
  have hby : (spelled "by".toList).Recognizes (Spells [["by"]]) := recognizes_word (by decide)
  have hverb : verbPattern.Recognizes (Spells (verbPhrases.map Prod.fst)) :=
    recognizes_either (recognizes_phrase (by decide) (by decide) recognizes_article)
      (recognizes_either (recognizes_phrase (by decide) (by decide) recognizes_article)
        (recognizes_either (recognizes_phrase (by decide) (by decide) hby)
          (recognizes_phrase (by decide) (by decide) recognizes_article)))
  refine hverb.congr fun text => ?_
  simp [Spells, IsVerbPhrase]

end Verbs

section Stops

/-- Blanks, and possibly a full stop behind them. -/
def IsStop (text : List Char) : Prop :=
  ∃ gap back, text = gap ++ back ∧ (∀ c ∈ gap, isBlank c = true) ∧ (back = [] ∨ back = ['.'])

/-- What is left of a text without a final full stop and the blanks before it, unless nothing would
be left. -/
inductive DropsStop : List Char → List Char → Prop
  | dropped (object gap : List Char) (hobject : IsTrimmed object)
      (hgap : ∀ c ∈ gap, isBlank c = true) : DropsStop (object ++ (gap ++ ['.'])) object
  | kept (text : List Char) (hlast : '.' ∉ text.getLast?) : DropsStop text text
  | alone : DropsStop ['.'] ['.']

theorem recognizes_stop : (next blanks (optional fun c => c == '.')).Recognizes IsStop := by
  refine (recognizes_repeated.next recognizes_optional).congr fun text => ?_
  simp [IsStop]

theorem match?_stopPattern (hline : '\n' ∉ text) (h : IsStop text) :
    stopPattern.match? text = some ⟨[], text, []⟩ := by
  have hmem : ⟨[], text, []⟩ ∈ (next blanks (optional fun c => c == '.')).readings text :=
    (recognizes_stop _ _).mpr ⟨rfl, List.append_nil _, h⟩
  rw [stopPattern, match?_next_of_only hmem, match?_textEnd_nil]
  · simp [Reading.andThen]
  · rintro ⟨groups, taken, rest⟩ hs hend
    obtain ⟨rfl, rfl, -⟩ := (recognizes_stop _ _).mp hs
    obtain rfl := eq_nil_of_match?_textEnd (fun hmem => hline (List.mem_append_right _ hmem)) hend
    rw [List.append_nil]

theorem isStop_of_match? (hline : '\n' ∉ text) (h : stopPattern.match? text ≠ none) :
    IsStop text := by
  obtain ⟨⟨groups, taken, rest⟩, hs, hend⟩ := match?_next_ne_none_iff.mp h
  obtain ⟨rfl, rfl, hstop⟩ := (recognizes_stop _ _).mp hs
  obtain rfl := eq_nil_of_match?_textEnd (fun hmem => hline (List.mem_append_right _ hmem)) hend
  rwa [List.append_nil]

theorem IsStop.last_eq (h : IsStop text) (hc : c ∈ text.getLast?) (hsolid : isBlank c = false) :
    c = '.' ∧ ∃ gap, text = gap ++ ['.'] ∧ ∀ c ∈ gap, isBlank c = true := by
  obtain ⟨gap, back, rfl, hgap, rfl | rfl⟩ := h
  · rw [List.append_nil] at hc
    rw [hgap c (List.mem_of_getLast? hc)] at hsolid
    cases hsolid
  · exact ⟨by simpa using hc.symm, gap, rfl, hgap⟩

theorem dropsStop_withoutFullStop (htext : IsTrimmed text) :
    DropsStop text (withoutFullStop text) := by
  unfold withoutFullStop
  split
  · rename_i before hreverse
    obtain rfl : text = before.reverse ++ ['.'] := by
      rw [← List.reverse_reverse text, hreverse, List.reverse_cons]
    have hkept : (before.dropWhile isBlank).reverse = trimEnd before.reverse := by
      rw [trimEnd, List.reverse_reverse]
    simp only [hkept]
    by_cases hbefore : before.reverse = []
    · rw [hbefore]
      exact DropsStop.alone
    · have hobject := isTrimmed_trimEnd hbefore (head_solid_of_append htext.head_solid)
      obtain ⟨gap, hgap, hblank⟩ := exists_trimEnd_append before.reverse
      rw [if_neg (by simpa using hobject.ne_nil)]
      have hdropped := DropsStop.dropped _ gap hobject hblank
      rwa [← List.append_assoc, ← hgap] at hdropped
  · rename_i hne
    refine DropsStop.kept _ fun hlast => ?_
    obtain ⟨before, rfl⟩ := List.getLast?_eq_some_iff.mp hlast
    exact hne before.reverse (by simp)

/-- In a stop there is no word in front of its last character. -/
theorem not_isStop_append {more tail : List Char} (hc : c ∈ more) (hsolid : isBlank c = false)
    (htail : tail ≠ []) (hlast : ∀ c ∈ tail.getLast?, isBlank c = false) :
    ¬IsStop (more ++ tail) := by
  intro hstop
  obtain ⟨before, d, rfl⟩ := tail.eq_nil_or_concat.resolve_left htail
  obtain ⟨rfl, gap, heq, hgap⟩ := hstop.last_eq (c := d) (by simp) (hlast d (by simp))
  rw [List.concat_eq_append, ← List.append_assoc] at heq
  obtain ⟨heq, -⟩ := List.append_inj' heq rfl
  rw [hgap c (by simp [← heq, hc])] at hsolid
  cases hsolid

/-- What is left is the shortest beginning of the text that only a stop comes after. -/
theorem DropsStop.isShortest (h : DropsStop text object) (htext : IsTrimmed text) :
    ∃ back, text = object ++ back ∧ object ≠ [] ∧ IsStop back ∧
      ∀ front more, text = front ++ more → front ≠ [] → front.length < object.length →
        ¬IsStop more := by
  cases h with
  | dropped object gap hobject hgap =>
      refine ⟨gap ++ ['.'], rfl, hobject.ne_nil, ⟨gap, ['.'], rfl, hgap, Or.inr rfl⟩, ?_⟩
      intro front more heq _ hlt
      rcases List.append_eq_append_iff.mp heq with ⟨back, rfl, -⟩ | ⟨back, rfl, rfl⟩
      · rw [List.length_append] at hlt
        omega
      · have hback : back ≠ [] := by
          rintro rfl
          simp at hlt
        obtain ⟨before, c, rfl⟩ := back.eq_nil_or_concat.resolve_left hback
        exact not_isStop_append (c := c) (by simp) (hobject.last_solid c (by simp)) (by simp)
          (by simp [show isBlank '.' = false by decide])
  | kept _ hlast =>
      refine ⟨[], (List.append_nil object).symm, htext.ne_nil,
        ⟨[], [], rfl, by simp, Or.inl rfl⟩, ?_⟩
      rintro front more rfl _ hlt hstop
      have hmore : more ≠ [] := by
        rintro rfl
        simp at hlt
      obtain ⟨before, c, rfl⟩ := more.eq_nil_or_concat.resolve_left hmore
      obtain ⟨rfl, -⟩ := hstop.last_eq (c := c) (by simp) (htext.last_solid c (by simp))
      exact hlast (by simp)
  | alone =>
      refine ⟨[], rfl, by simp, ⟨[], [], rfl, by simp, Or.inl rfl⟩, ?_⟩
      intro front _ _ hne hlt
      exact absurd (List.eq_nil_of_length_eq_zero (Nat.lt_one_iff.mp hlt)) hne

theorem DropsStop.eq_or (h : DropsStop text object) :
    (object = text ∧ ('.' ∈ text.getLast? → text = ['.'])) ∨
      ∃ gap, text = object ++ (gap ++ ['.']) ∧ text ≠ ['.'] := by
  cases h with
  | dropped _ gap hobject hgap =>
      refine Or.inr ⟨gap, rfl, fun heq => hobject.ne_nil (List.eq_nil_of_length_eq_zero ?_)⟩
      have hlength := congrArg List.length heq
      simp only [List.length_append, List.length_singleton] at hlength
      omega
  | kept _ hlast => exact Or.inl ⟨rfl, fun hmem => absurd hmem hlast⟩
  | alone => exact Or.inl ⟨rfl, fun _ => rfl⟩

theorem DropsStop.isTrimmed (h : DropsStop text object) (htext : IsTrimmed text) :
    IsTrimmed object := by
  cases h with
  | dropped _ gap hobject hgap => exact hobject
  | kept _ hlast => exact htext
  | alone => exact htext

theorem DropsStop.unique {object' : List Char} (htext : IsTrimmed text) (h : DropsStop text object)
    (h' : DropsStop text object') : object = object' := by
  obtain ⟨back, heq, hne, hstop, hfirst⟩ := h.isShortest htext
  obtain ⟨back', heq', hne', hstop', hfirst'⟩ := h'.isShortest htext
  refine (List.append_inj (heq.symm.trans heq') (le_antisymm ?_ ?_)).1
  · by_contra hlt
    exact hfirst object' back' heq' hne' (by omega) hstop'
  · by_contra hlt
    exact hfirst' object back heq hne (by omega) hstop

end Stops

section Cuts

/-- A gap, a verb phrase, a gap and a text. -/
structure IsPredicate (cs verb rest : List Char) : Prop where
  text_eq : ∃ gap gap', cs = gap ++ (verb ++ (gap' ++ rest)) ∧ IsGap gap ∧ IsGap gap'
  verb_trimmed : IsTrimmed verb
  isVerb : IsVerbPhrase (words verb)
  rest_trimmed : IsTrimmed rest

/-- The text is cut at a verb phrase. -/
structure IsCut (body subject verb rest : List Char) : Prop where
  text_eq : ∃ predicate, body = subject ++ predicate ∧ IsPredicate predicate verb rest
  subject_trimmed : IsTrimmed subject

theorem isInLine_of_mem (hline : '\n' ∉ text) (hc : c ∈ text) : isInLine c = true := by
  have hfeed : c ≠ '\n' := by
    rintro rfl
    exact hline hc
  simpa [isInLine] using hfeed

theorem match?_objectPattern (htext : IsTrimmed text) (hline : '\n' ∉ text) :
    objectPattern.match? text = some ⟨[("object", withoutFullStop text)], text, []⟩ := by
  obtain ⟨back, heq, hne, hstop, hfirst⟩ := (dropsStop_withoutFullStop htext).isShortest htext
  have hback : '\n' ∉ back := fun hmem => hline (heq ▸ List.mem_append_right _ hmem)
  refine match?_named_fewest_next_iff.mpr ⟨withoutFullStop text, back, _, heq,
    List.length_pos_of_ne_nil hne, fun c hc => isInLine_of_mem hline ?_,
    match?_stopPattern hback hstop, ?_, ?_⟩
  · rw [heq]
    exact List.mem_append_left _ hc
  · dsimp only
    rw [← heq]
  · intro front more hsplit hleast hlt
    by_contra hmatch
    have hmore : '\n' ∉ more := fun hmem => hline (hsplit ▸ List.mem_append_right _ hmem)
    exact hfirst front more hsplit (List.ne_nil_of_length_pos hleast) hlt
      (isStop_of_match? hmore hmatch)

theorem match?_gap_objectPattern {between : List Char} (hgap : IsGap between)
    (hrest : IsTrimmed rest) (hline : '\n' ∉ rest) :
    (next gap objectPattern).match? (between ++ rest) =
      some ⟨[("object", withoutFullStop rest)], between ++ rest, []⟩ :=
  match?_most_next (List.length_pos_of_ne_nil hgap.ne_nil) hgap.blank hrest.head_solid
    (match?_objectPattern hrest hline)

theorem exists_of_match?_gap_objectPattern (hlast : ∀ c ∈ cs.getLast?, isBlank c = false)
    (h : (next gap objectPattern).match? cs ≠ none) :
    ∃ between rest, cs = between ++ rest ∧ IsGap between ∧ IsTrimmed rest := by
  obtain ⟨⟨groups, between, rest⟩, hr, hobject⟩ := match?_next_ne_none_iff.mp h
  obtain ⟨rfl, rfl, hgap⟩ := (recognizes_gap _ _).mp hr
  have hne : rest ≠ [] := by
    rintro rfl
    exact hobject rfl
  exact exists_gap_append hgap.stops (words_ne_nil_of_last (by simp [hne]) hlast) hlast

theorem IsPredicate.words_eq (h : IsPredicate cs verb rest) :
    words cs = words verb ++ words rest := by
  obtain ⟨gap, gap', rfl, hgap, hgap'⟩ := h.text_eq
  rw [hgap.words_append, hgap'.words_between]

theorem IsPredicate.stops (h : IsPredicate cs verb rest) : Stops cs := by
  obtain ⟨gap, gap', rfl, hgap, hgap'⟩ := h.text_eq
  exact hgap.stops

theorem IsPredicate.append {more : List Char} (hmore : ∀ c ∈ more, isBlank c = true)
    (h : IsPredicate cs verb rest) : IsPredicate (more ++ cs) verb rest := by
  obtain ⟨⟨gap, gap', rfl, hgap, hgap'⟩, hverb, hisVerb, hrest⟩ := h
  refine ⟨⟨more ++ gap, gap', by simp, ⟨by simp [hgap.ne_nil], ?_⟩, hgap'⟩, hverb, hisVerb, hrest⟩
  exact List.forall_mem_append.mpr ⟨hmore, hgap.blank⟩

theorem IsCut.words_eq (h : IsCut body subject verb rest) :
    words body = words subject ++ words verb ++ words rest := by
  obtain ⟨⟨predicate, rfl, hpredicate⟩, -⟩ := h
  rw [words_append_of_stops hpredicate.stops, hpredicate.words_eq, List.append_assoc]

/-- Two verb phrases at one place of a text are the same. -/
theorem eq_of_isVerbPhrase {verb' tail tail' : List Char} (hverb : IsTrimmed verb)
    (hverb' : IsTrimmed verb') (hisVerb : IsVerbPhrase (words verb))
    (hisVerb' : IsVerbPhrase (words verb')) (hstops : Stops tail) (hstops' : Stops tail')
    (heq : verb ++ tail = verb' ++ tail') : verb = verb' ∧ tail = tail' := by
  have hwords : words verb ++ words tail = words verb' ++ words tail' := by
    rw [← words_append_of_stops hstops, ← words_append_of_stops hstops', heq]
  obtain ⟨entry, hentry, hreads⟩ := hisVerb
  obtain ⟨entry', hentry', hreads'⟩ := hisVerb'
  obtain ⟨-, hsame⟩ := eq_of_readsAs hentry hentry' hreads hreads' hwords
  refine List.append_inj heq (le_antisymm ?_ ?_)
  · exact length_le_of_length_words_le hverb hstops' heq (by rw [hsame])
  · exact length_le_of_length_words_le hverb' hstops heq.symm (by rw [hsame])

theorem match?_verb {between : List Char} (hverb : IsTrimmed verb)
    (hisVerb : IsVerbPhrase (words verb)) (hgap : IsGap between) (hrest : IsTrimmed rest)
    (hline : '\n' ∉ verb ++ (between ++ rest)) :
    (next (named "verb" verbPattern) (next gap objectPattern)).match? (verb ++ (between ++ rest)) =
      some ⟨[("verb", verb), ("object", withoutFullStop rest)], verb ++ (between ++ rest), []⟩ := by
  have hmem : ⟨[("verb", verb)], verb, between ++ rest⟩ ∈
      (named "verb" verbPattern).readings (verb ++ (between ++ rest)) :=
    recognizes_verbPattern.mem_named_iff.mpr ⟨rfl, rfl, hverb, hisVerb⟩
  have hlast : ∀ c ∈ (verb ++ (between ++ rest)).getLast?, isBlank c = false :=
    (hverb.append hrest).last_solid
  rw [match?_next_of_only hmem]
  · rw [match?_gap_objectPattern hgap hrest fun hmem => hline (by simp [hmem])]
    rfl
  · rintro ⟨groups, verb', tail⟩ hs htail
    obtain ⟨hgroups, heq, hverb', hisVerb'⟩ := recognizes_verbPattern.mem_named_iff.mp hs
    dsimp only at hgroups heq hverb' hisVerb' htail
    rw [← heq] at hlast
    obtain ⟨between', rest', rfl, hgap', -⟩ :=
      exists_of_match?_gap_objectPattern (last_solid_of_append hlast) htail
    obtain ⟨rfl, htail⟩ :=
      eq_of_isVerbPhrase hverb' hverb hisVerb' hisVerb hgap'.stops hgap.stops heq
    rw [hgroups, htail]

theorem match?_predicatePattern (h : IsPredicate cs verb rest) (hline : '\n' ∉ cs) :
    predicatePattern.match? cs =
      some ⟨[("verb", verb), ("object", withoutFullStop rest)], cs, []⟩ := by
  obtain ⟨⟨between, between', rfl, hgap, hgap'⟩, hverb, hisVerb, hrest⟩ := h
  exact match?_most_next (List.length_pos_of_ne_nil hgap.ne_nil) hgap.blank hverb.head_solid_append
    (match?_verb hverb hisVerb hgap' hrest fun hmem => hline (List.mem_append_right _ hmem))

theorem exists_isPredicate (hlast : ∀ c ∈ cs.getLast?, isBlank c = false)
    (h : predicatePattern.match? cs ≠ none) : ∃ verb rest, IsPredicate cs verb rest := by
  obtain ⟨⟨groups, between, more⟩, hr, hmore⟩ := match?_next_ne_none_iff.mp h
  obtain ⟨-, rfl, hgap⟩ := (recognizes_gap _ _).mp hr
  obtain ⟨⟨groups, verb, tail⟩, hs, htail⟩ := match?_next_ne_none_iff.mp hmore
  obtain ⟨-, heq, hverb, hisVerb⟩ := recognizes_verbPattern.mem_named_iff.mp hs
  dsimp only at heq hgap hverb hisVerb htail hlast
  subst heq
  obtain ⟨between', rest, rfl, hgap', hrest⟩ := exists_of_match?_gap_objectPattern
    (last_solid_of_append (last_solid_of_append hlast)) htail
  exact ⟨verb, rest, ⟨between, between', rfl, hgap, hgap'⟩, hverb, hisVerb, hrest⟩

/-- Where a predicate is found behind a beginning of the text, the text is cut there. The blanks at
the end of that beginning are not part of the subject. -/
theorem exists_isCut (hbody : trim body = body) {taken : List Char} (heq : body = taken ++ cs)
    (hne : taken ≠ []) (h : predicatePattern.match? cs ≠ none) :
    ∃ verb rest, IsCut body (trimEnd taken) verb rest := by
  obtain ⟨hfirst, hlast⟩ := trim_eq_self_iff.mp hbody
  subst heq
  obtain ⟨verb, rest, hpredicate⟩ := exists_isPredicate (last_solid_of_append hlast) h
  obtain ⟨more, hmore, hblank⟩ := exists_trimEnd_append taken
  refine ⟨verb, rest, ⟨more ++ cs, ?_, hpredicate.append hblank⟩,
    isTrimmed_trimEnd hne (head_solid_of_append hfirst)⟩
  rw [← List.append_assoc, ← hmore]

theorem statementPattern_match?_iff (hline : '\n' ∉ body) (hbody : trim body = body) :
    statementPattern.match? body = some m ↔ ∃ subject verb rest, IsCut body subject verb rest ∧
      (∀ subject' verb' rest', IsCut body subject' verb' rest' → subject.length ≤ subject'.length) ∧
      m = ⟨[("subject", subject), ("verb", verb), ("object", withoutFullStop rest)], body, []⟩ := by
  rw [statementPattern, match?_named_fewest_next_iff]
  constructor
  · rintro ⟨taken, cs, s, heq, hleast, -, hs, rfl, hfirst⟩
    have hne := List.ne_nil_of_length_pos hleast
    have hshorter : ∀ subject' verb' rest', IsCut body subject' verb' rest' →
        taken.length ≤ subject'.length := by
      intro subject' verb' rest' hcut'
      obtain ⟨⟨predicate', heq', hpredicate'⟩, hsubject'⟩ := hcut'
      by_contra hlt
      have hnone := hfirst subject' predicate' heq' (List.length_pos_of_ne_nil hsubject'.ne_nil)
        (by omega)
      rw [match?_predicatePattern hpredicate' fun hmem => hline (by simp [heq', hmem])] at hnone
      cases hnone
    -- the shortest subject has no blanks at its end
    obtain ⟨verb, rest, hcut⟩ := exists_isCut hbody heq hne (by simp [hs])
    rw [(trimEnd_isPrefix taken).eq_of_length_le (hshorter _ _ _ hcut)] at hcut
    refine ⟨taken, verb, rest, hcut, hshorter, ?_⟩
    obtain ⟨⟨predicate, heq', hpredicate⟩, -⟩ := hcut
    obtain rfl : cs = predicate := List.append_cancel_left (heq.symm.trans heq')
    rw [match?_predicatePattern hpredicate fun hmem => hline (by simp [heq, hmem])] at hs
    rw [← Option.some.inj hs, heq]
  · rintro ⟨subject, verb, rest, hcut, hfirst, rfl⟩
    obtain ⟨⟨predicate, rfl, hpredicate⟩, hsubject⟩ := hcut
    refine ⟨subject, predicate, _, rfl, List.length_pos_of_ne_nil hsubject.ne_nil, ?_,
      match?_predicatePattern hpredicate fun hmem => hline (List.mem_append_right _ hmem), rfl, ?_⟩
    · exact fun c hc => isInLine_of_mem hline (List.mem_append_left _ hc)
    · intro taken cs heq hleast hlt
      by_contra hmatch
      obtain ⟨verb', rest', hcut⟩ :=
        exists_isCut hbody heq (List.ne_nil_of_length_pos hleast) hmatch
      exact absurd hlt (not_lt.mpr ((hfirst _ _ _ hcut).trans (trimEnd_isPrefix taken).length_le))

end Cuts

section FirstCuts

/-- The text is cut at the first verb phrase that has words on either side. -/
structure IsFirstCut (body subject verb rest : List Char) : Prop
    extends IsCut body subject verb rest where
  first : CutsAtVerb (words body) (words subject) (words verb) (words rest)

theorem IsPredicate.unique {verb' rest' : List Char} (h : IsPredicate cs verb rest)
    (h' : IsPredicate cs verb' rest') : verb = verb' ∧ rest = rest' := by
  obtain ⟨⟨between, gap, rfl, hbetween, hgap⟩, hverb, hisVerb, hrest⟩ := h
  obtain ⟨⟨between', gap', heq, hbetween', hgap'⟩, hverb', hisVerb', hrest'⟩ := h'
  obtain ⟨-, heq⟩ := eq_of_gap_append hbetween.blank hbetween'.blank hverb.head_solid_append
    hverb'.head_solid_append heq
  obtain ⟨rfl, htail⟩ :=
    eq_of_isVerbPhrase hverb hverb' hisVerb hisVerb' hgap.stops hgap'.stops heq
  exact ⟨rfl, (eq_of_gap_append hgap.blank hgap'.blank hrest.head_solid hrest'.head_solid htail).2⟩

/-- Cuts behind the same number of words are the same. -/
theorem IsCut.unique {subject' verb' rest' : List Char} (h : IsCut body subject verb rest)
    (h' : IsCut body subject' verb' rest') (hwords : words subject = words subject') :
    subject = subject' ∧ verb = verb' ∧ rest = rest' := by
  obtain ⟨⟨predicate, heq, hpredicate⟩, hsubject⟩ := h
  obtain ⟨⟨predicate', heq', hpredicate'⟩, hsubject'⟩ := h'
  have hsame := heq.symm.trans heq'
  obtain ⟨rfl, rfl⟩ := List.append_inj hsame (le_antisymm
    (length_le_of_length_words_le hsubject hpredicate'.stops hsame (by rw [hwords]))
    (length_le_of_length_words_le hsubject' hpredicate.stops hsame.symm (by rw [hwords])))
  exact ⟨rfl, hpredicate.unique hpredicate'⟩

/-- Tokens that are cut at a verb phrase cut the text there. -/
theorem exists_isCut_of_tokens (hbody : trim body = body) {front phrase back : List Token}
    (hsplit : tokens body = front ++ phrase ++ back) (hfront : front ≠ []) (hback : back ≠ [])
    (hverb : IsVerbPhrase (phrase.map Token.word)) :
    ∃ verb, IsCut body (tokensText front) verb (trim (tokensText back)) ∧
      words (tokensText front) = front.map Token.word ∧ words verb = phrase.map Token.word ∧
      words (trim (tokensText back)) = back.map Token.word := by
  obtain ⟨hfirst, hlast⟩ := trim_eq_self_iff.mp hbody
  have htokens := areTokens_tokens body
  rw [hsplit, List.append_assoc] at htokens
  have hphrase : phrase ≠ [] := by simpa using hverb.ne_nil
  obtain ⟨hrest, hgaps⟩ := htokens.tail_append hfront
  obtain ⟨hbackTokens, hbackGaps⟩ := hrest.tail_append hphrase
  have htext : body = tokensText front ++ (tokensText phrase ++ tokensText back) := by
    rw [← tokensText_tokens hlast, hsplit]
    simp [tokensText]
  obtain ⟨t, ts, rfl⟩ := List.exists_cons_of_ne_nil hfront
  obtain ⟨u, us, rfl⟩ := List.exists_cons_of_ne_nil hphrase
  obtain ⟨v, vs, rfl⟩ := List.exists_cons_of_ne_nil hback
  obtain ⟨subject, hsubject, hsubjectTrimmed, hsubjectWords⟩ :=
    exists_tokensText_eq htokens.of_append
  obtain ⟨verb, hverbText, hverbTrimmed, hverbWords⟩ := exists_tokensText_eq hrest.of_append
  obtain ⟨rest, hrestText, hrestTrimmed, hrestWords⟩ := exists_tokensText_eq hbackTokens
  -- there is nothing in front of the first word
  have hgap : t.gap = [] := by
    cases hgap : t.gap with
    | nil => rfl
    | cons c more =>
        have hsolid := hfirst c (by rw [htext, hsubject, hgap]; rfl)
        rw [htokens.gap_blank t List.mem_cons_self c (by simp [hgap])] at hsolid
        cases hsolid
  rw [hgap, List.nil_append] at hsubject
  have hrestTrim : trim (tokensText (v :: vs)) = rest := by
    rw [hrestText]
    exact hrestTrimmed.trim_gap_append (hbackTokens.gap_blank v List.mem_cons_self)
  rw [hsubject, hrestTrim]
  refine ⟨verb, ⟨⟨_, ?_, ⟨u.gap, v.gap, rfl, ⟨hgaps u (by simp), ?_⟩, ⟨hbackGaps v (by simp), ?_⟩⟩,
    hverbTrimmed, hverbWords ▸ hverb, hrestTrimmed⟩, hsubjectTrimmed⟩, hsubjectWords, hverbWords,
    hrestWords⟩
  · rw [htext, hsubject, hverbText, hrestText, List.append_assoc]
  · exact hrest.gap_blank u List.mem_cons_self
  · exact hbackTokens.gap_blank v List.mem_cons_self

theorem exists_isCut_of_words (hbody : trim body = body) {before found after : List (List Char)}
    (hwords : words body = before ++ found ++ after) (hfound : IsVerbPhrase found)
    (hbefore : before ≠ []) (hafter : after ≠ []) :
    ∃ subject verb rest, IsCut body subject verb rest ∧ words subject = before ∧
      words verb = found ∧ words rest = after := by
  obtain ⟨front, phrase, back, hsplit, rfl, rfl, rfl⟩ := exists_tokens_split hwords
  obtain ⟨verb, hcut⟩ :=
    exists_isCut_of_tokens hbody hsplit (by simpa using hbefore) (by simpa using hafter) hfound
  exact ⟨_, verb, _, hcut⟩

/-- A cut is at the first verb phrase exactly when no other cut has a shorter subject. -/
theorem IsCut.isFirst_iff (hbody : trim body = body) (h : IsCut body subject verb rest) :
    CutsAtVerb (words body) (words subject) (words verb) (words rest) ↔
      ∀ subject' verb' rest', IsCut body subject' verb' rest' →
        subject.length ≤ subject'.length := by
  have hwords := h.words_eq
  obtain ⟨⟨predicate, heq, hpredicate⟩, hsubject⟩ := h
  constructor
  · intro hcut subject' verb' rest' h'
    have hwords' := h'.words_eq
    obtain ⟨⟨predicate', heq', hpredicate'⟩, hsubject'⟩ := h'
    refine length_le_of_length_words_le hsubject hpredicate'.stops (heq.symm.trans heq') ?_
    exact hcut.first _ _ _ hwords' hpredicate'.isVerb hsubject'.words_ne
      hpredicate'.rest_trimmed.words_ne
  · intro hshortest
    refine ⟨hwords, hpredicate.isVerb, hsubject.words_ne, hpredicate.rest_trimmed.words_ne, ?_⟩
    intro before found after hsplit hfound hbefore hafter
    by_contra hlt
    obtain ⟨subject', verb', rest', h', rfl, -, -⟩ :=
      exists_isCut_of_words hbody hsplit hfound hbefore hafter
    have hle := hshortest _ _ _ h'
    obtain ⟨⟨predicate', heq', -⟩, hsubject'⟩ := h'
    have hsame := heq'.symm.trans heq
    have hge := length_le_of_length_words_le hsubject' hpredicate.stops hsame (by omega)
    obtain ⟨rfl, -⟩ := List.append_inj hsame (le_antisymm hge hle)
    exact hlt le_rfl

/-- Words that read as a phrase are lowered to no other one. -/
theorem eq_of_map_lower_eq {entry entry' : List String × Verb} {ws : List (List Char)}
    (hentry : entry ∈ verbPhrases) (hentry' : entry' ∈ verbPhrases) (hreads : ReadsAs entry.1 ws)
    (heq : ws.map lower = entry'.1.map String.toList) : entry' = entry := by
  have hplain : ∀ w ∈ ws, ∀ c ∈ w, c ∉ lookalikes := by
    intro w hw c hc hlookalike
    obtain ⟨d, hd, hnotLower⟩ := exists_mem_lower_of_mem_lookalikes hc hlookalike
    obtain ⟨letters, hletters, hlower⟩ := List.mem_map.mp (heq ▸ List.mem_map_of_mem hw)
    rw [isLower_of_mem_verbPhrases hentry' letters hletters d (hlower ▸ hd)] at hnotLower
    cases hnotLower
  have hlower := (hreads.map_lower_eq_iff (isLower_of_mem_verbPhrases hentry)).mpr hplain
  exact eq_of_isPrefix hentry' hentry (heq ▸ hlower ▸ List.prefix_rfl)

theorem named?_eq_verbOf {entry : List String × Verb} {ws : List (List Char)}
    (hentry : entry ∈ verbPhrases) (hreads : ReadsAs entry.1 ws) :
    Verb.named? ws = verbOf entry ws := by
  unfold Verb.named? verbOf
  split
  · rename_i heq
    cases hfind : verbPhrases.find? fun entry => ws.map lower == entry.1.map String.toList with
    | none => exact absurd (beq_iff_eq.mpr heq) (List.find?_eq_none.mp hfind entry hentry)
    | some entry' =>
        have heq' : ws.map lower = entry'.1.map String.toList := by
          simpa using List.find?_some hfind
        rw [eq_of_map_lower_eq hentry (List.mem_of_find?_eq_some hfind) hreads heq']
        rfl
  · rename_i hne
    rw [Option.map_eq_none_iff, List.find?_eq_none]
    intro entry' hentry' heq
    rw [beq_iff_eq] at heq
    obtain rfl := eq_of_map_lower_eq hentry hentry' hreads heq
    exact hne heq

/-- A text makes a statement exactly when it can be cut at a verb phrase, and says what stands on
the two sides of the first one. -/
theorem Statement.ofText?_eq_some_iff_isFirstCut (hbody : trim body = body) {s : Statement} :
    Statement.ofText? body = some s ↔ ∃ subject verb rest, IsFirstCut body subject verb rest ∧
      s = ⟨String.ofList subject, Verb.named? (words verb),
        String.ofList (withoutFullStop rest)⟩ := by
  rw [Statement.ofText?_eq_some_iff]
  constructor
  · rintro ⟨entry, front, phrase, back, hsplit, hentry, hreads, hfirst, rfl⟩
    obtain ⟨verb, hcut, hfrontWords, hverbWords, hbackWords⟩ := exists_isCut_of_tokens hbody hsplit
      (by simpa using hfirst.subject_ne) (by simpa using hfirst.object_ne) hfirst.isVerb
    refine ⟨_, verb, _, ⟨hcut, ?_⟩, ?_⟩
    · rwa [hfrontWords, hverbWords, hbackWords]
    · rw [hverbWords, named?_eq_verbOf hentry hreads]
  · rintro ⟨subject, verb, rest, ⟨hcut, hfirst⟩, rfl⟩
    obtain ⟨front, phrase, back, hsplit, hfrontWords, hverbWords, hbackWords⟩ :=
      exists_tokens_split hfirst.words_eq
    rw [← hfrontWords, ← hverbWords, ← hbackWords] at hfirst
    obtain ⟨verb', hcut', hsubjectWords, -, -⟩ := exists_isCut_of_tokens hbody hsplit
      (by simpa using hfirst.subject_ne) (by simpa using hfirst.object_ne) hfirst.isVerb
    obtain ⟨rfl, rfl, rfl⟩ := hcut.unique hcut' (hfrontWords.symm.trans hsubjectWords.symm)
    obtain ⟨entry, hentry, hreads⟩ := hfirst.isVerb
    refine ⟨entry, front, phrase, back, hsplit, hentry, hreads, hfirst, ?_⟩
    rw [← hverbWords, named?_eq_verbOf hentry hreads]

theorem statementPattern_match?_iff_isFirstCut (hline : '\n' ∉ body) (hbody : trim body = body) :
    statementPattern.match? body = some m ↔ ∃ subject verb rest, IsFirstCut body subject verb rest ∧
      m = ⟨[("subject", subject), ("verb", verb), ("object", withoutFullStop rest)], body, []⟩ := by
  rw [statementPattern_match?_iff hline hbody]
  constructor
  · rintro ⟨subject, verb, rest, hcut, hshortest, rfl⟩
    exact ⟨subject, verb, rest, ⟨hcut, (hcut.isFirst_iff hbody).mpr hshortest⟩, rfl⟩
  · rintro ⟨subject, verb, rest, ⟨hcut, hfirst⟩, rfl⟩
    exact ⟨subject, verb, rest, hcut, (hcut.isFirst_iff hbody).mp hfirst, rfl⟩

/-- What the match of the pattern says is what the search for the first verb phrase finds. -/
theorem Statement.ofText?_eq_map_match? (hline : '\n' ∉ body) (hbody : trim body = body) :
    Statement.ofText? body = (statementPattern.match? body).map Statement.ofReading := by
  refine Option.ext fun s => ?_
  rw [Statement.ofText?_eq_some_iff_isFirstCut hbody, Option.map_eq_some_iff]
  simp only [statementPattern_match?_iff_isFirstCut hline hbody]
  constructor
  · rintro ⟨subject, verb, rest, hcut, rfl⟩
    exact ⟨_, ⟨subject, verb, rest, hcut, rfl⟩, rfl⟩
  · rintro ⟨_, ⟨subject, verb, rest, hcut, rfl⟩, rfl⟩
    exact ⟨subject, verb, rest, hcut, rfl⟩

theorem exists_isFirstCut_iff (hbody : trim body = body) :
    (∃ subject verb rest, IsFirstCut body subject verb rest) ↔ ∃ front phrase back,
      words body = front ++ phrase ++ back ∧ IsVerbPhrase phrase ∧ front ≠ [] ∧ back ≠ [] := by
  constructor
  · rintro ⟨subject, verb, rest, -, hfirst⟩
    exact ⟨_, _, _, hfirst.words_eq, hfirst.isVerb, hfirst.subject_ne, hfirst.object_ne⟩
  · rintro ⟨front, phrase, back, hwords, hphrase, hfront, hback⟩
    obtain ⟨subject, verb, object, hfirst⟩ := exists_cutsAtVerb hwords hphrase hfront hback
    obtain ⟨subject', verb', rest', hcut, rfl, rfl, rfl⟩ := exists_isCut_of_words hbody
      hfirst.words_eq hfirst.isVerb hfirst.subject_ne hfirst.object_ne
    exact ⟨subject', verb', rest', hcut, hfirst⟩

/-- The pattern of a statement takes just the texts that have a verb phrase behind their first word
and words after it, and its match is the cut at the first of them. So the search for the first verb
phrase makes the statement that the match makes. -/
theorem statementPattern_readsWords (hline : '\n' ∉ body) (hbody : trim body = body) :
    (statementPattern.match? body ≠ none ↔ ∃ front phrase back,
      words body = front ++ phrase ++ back ∧ IsVerbPhrase phrase ∧ front ≠ [] ∧ back ≠ []) ∧
    (∀ m, statementPattern.match? body = some m ↔ ∃ subject verb rest object,
      IsFirstCut body subject verb rest ∧ DropsStop rest object ∧
        m = ⟨[("subject", subject), ("verb", verb), ("object", object)], body, []⟩) ∧
    Statement.ofText? body = (statementPattern.match? body).map Statement.ofReading := by
  have hmatch := fun m => statementPattern_match?_iff_isFirstCut (m := m) hline hbody
  refine ⟨?_, fun m => ?_, Statement.ofText?_eq_map_match? hline hbody⟩
  · rw [← exists_isFirstCut_iff hbody, Option.ne_none_iff_exists']
    simp only [hmatch]
    constructor
    · rintro ⟨m, subject, verb, rest, hcut, -⟩
      exact ⟨subject, verb, rest, hcut⟩
    · rintro ⟨subject, verb, rest, hcut⟩
      exact ⟨_, subject, verb, rest, hcut, rfl⟩
  · rw [hmatch]
    constructor
    · rintro ⟨subject, verb, rest, hcut, rfl⟩
      obtain ⟨predicate, -, hpredicate⟩ := hcut.text_eq
      exact ⟨subject, verb, rest, _, hcut, dropsStop_withoutFullStop hpredicate.rest_trimmed, rfl⟩
    · rintro ⟨subject, verb, rest, object, hcut, hdrops, rfl⟩
      obtain ⟨predicate, -, hpredicate⟩ := hcut.text_eq
      have hdrops' := dropsStop_withoutFullStop hpredicate.rest_trimmed
      exact ⟨subject, verb, rest, hcut, by rw [hdrops.unique hpredicate.rest_trimmed hdrops']⟩

/-- The subject ends at the first verb phrase also where another one comes later. -/
theorem proofOfLoan_readsWords :
    ('\n' ∉ "Proof of what is a Loan HAS  AN Owner .".toList ∧
      trim "Proof of what is a Loan HAS  AN Owner .".toList =
        "Proof of what is a Loan HAS  AN Owner .".toList) ∧
    (∃ front phrase back, words "Proof of what is a Loan HAS  AN Owner .".toList =
      front ++ phrase ++ back ∧ IsVerbPhrase phrase ∧ front ≠ [] ∧ back ≠ []) ∧
    Statement.ofText? "Proof of what is a Loan HAS  AN Owner .".toList =
      some ⟨"Proof of what", some (.relates .inherits), "Loan HAS  AN Owner"⟩ := by
  have hline : '\n' ∉ "Proof of what is a Loan HAS  AN Owner .".toList := by decide
  have hbody : trim "Proof of what is a Loan HAS  AN Owner .".toList =
      "Proof of what is a Loan HAS  AN Owner .".toList := by decide
  obtain ⟨hiff, -, hstatement⟩ := statementPattern_readsWords hline hbody
  refine ⟨⟨hline, hbody⟩, hiff.mp ?_, hstatement.trans ?_⟩
  · decide +kernel
  · decide +kernel

end FirstCuts

end Glossary.Dictionary
