import Mathlib.Data.Nat.Find
import Glossary.Proofs.LetterCase
import Glossary.Proofs.Words

/-!
Where a statement is cut: at the first verb phrase that has words on either side. The verb is missing
where a letter of the phrase only reads as the one it should be.
-/

namespace Glossary.Dictionary

open Text

/-- The words read as the small letters of a phrase when case is ignored. -/
def ReadsAs (phrase : List String) (ws : List (List Char)) : Prop :=
  List.Forall₂ (fun letters w => wordReadsAs letters.toList w = true) phrase ws

def IsVerbPhrase (ws : List (List Char)) : Prop :=
  ∃ entry ∈ verbPhrases, ReadsAs entry.1 ws

/-- The words are cut at their first verb phrase with words on either side. -/
structure CutsAtVerb (ws subject verb object : List (List Char)) : Prop where
  words_eq : ws = subject ++ verb ++ object
  isVerb : IsVerbPhrase verb
  subject_ne : subject ≠ []
  object_ne : object ≠ []
  first : ∀ before found after, ws = before ++ found ++ after → IsVerbPhrase found →
    before ≠ [] → after ≠ [] → subject.length ≤ before.length

section Phrases

variable {letters : String} {w : List Char} {phrase phrase' : List String}
  {ws vs rest rest' : List (List Char)} {entry entry' : List String × Verb}

theorem ne_nil_of_mem (hentry : entry ∈ verbPhrases) : entry.1 ≠ [] := by
  have hall : ∀ entry ∈ verbPhrases, entry.1 ≠ [] := by decide
  exact hall entry hentry

theorem isLower_of_mem_verbPhrases (hentry : entry ∈ verbPhrases) :
    ∀ letters ∈ entry.1, ∀ letter ∈ letters.toList, letter.isLower = true := by
  have hall : ∀ entry ∈ verbPhrases, ∀ letters ∈ entry.1,
      letters.toList.all Char.isLower = true := by decide
  exact fun letters hletters => List.all_eq_true.mp (hall entry hentry letters hletters)

theorem ReadsAs.map_reading (hsmall : ∀ letters ∈ phrase, ∀ letter ∈ letters.toList,
    letter.isLower = true) (h : ReadsAs phrase ws) :
    ws.map (List.map reading) = phrase.map String.toList := by
  induction h with
  | nil => rfl
  | cons h _ ih =>
      obtain ⟨hletters, hphrase⟩ := List.forall_mem_cons.mp hsmall
      rw [List.map_cons, List.map_cons, map_reading_eq hletters h, ih hphrase]

theorem ReadsAs.map_lower_eq_iff (hsmall : ∀ letters ∈ phrase, ∀ letter ∈ letters.toList,
    letter.isLower = true) (h : ReadsAs phrase ws) :
    ws.map lower = phrase.map String.toList ↔ ∀ w ∈ ws, ∀ c ∈ w, c ∉ lookalikes := by
  induction h with
  | nil => simp
  | cons h _ ih =>
      obtain ⟨hletters, hphrase⟩ := List.forall_mem_cons.mp hsmall
      rw [List.map_cons, List.map_cons, List.cons.injEq, lower_eq_iff hletters h, ih hphrase,
        List.forall_mem_cons]

/-- No verb phrase begins another. -/
theorem eq_of_isPrefix (hentry : entry ∈ verbPhrases) (hentry' : entry' ∈ verbPhrases)
    (h : entry.1.map String.toList <+: entry'.1.map String.toList) : entry = entry' := by
  have hall : ∀ entry ∈ verbPhrases, ∀ entry' ∈ verbPhrases,
      entry.1.map String.toList <+: entry'.1.map String.toList → entry = entry' := by decide
  exact hall entry hentry entry' hentry' h

theorem eq_of_readsAs (hentry : entry ∈ verbPhrases) (hentry' : entry' ∈ verbPhrases)
    (hws : ReadsAs entry.1 ws) (hvs : ReadsAs entry'.1 vs) (h : ws ++ rest = vs ++ rest') :
    entry = entry' ∧ ws = vs := by
  have hreading := hws.map_reading (isLower_of_mem_verbPhrases hentry)
  have hreading' := hvs.map_reading (isLower_of_mem_verbPhrases hentry')
  have hsame : entry = entry' := by
    rcases List.prefix_or_prefix_of_prefix (List.prefix_append ws rest)
      (h ▸ List.prefix_append vs rest') with hprefix | hprefix
    · have hmap := hprefix.map (List.map reading)
      rw [hreading, hreading'] at hmap
      exact eq_of_isPrefix hentry hentry' hmap
    · have hmap := hprefix.map (List.map reading)
      rw [hreading, hreading'] at hmap
      exact (eq_of_isPrefix hentry' hentry hmap).symm
  refine ⟨hsame, List.append_inj_left h ?_⟩
  rw [← hws.length_eq, ← hvs.length_eq, hsame]

theorem IsVerbPhrase.ne_nil (h : IsVerbPhrase ws) : ws ≠ [] := by
  obtain ⟨entry, hentry, hreads⟩ := h
  rintro rfl
  exact ne_nil_of_mem hentry (List.forall₂_nil_right_iff.mp hreads)

/-- Words with a verb phrase between them can be cut at the first such phrase. -/
theorem exists_cutsAtVerb {front phrase back : List (List Char)}
    (hws : ws = front ++ phrase ++ back) (hverb : IsVerbPhrase phrase)
    (hfront : front ≠ []) (hback : back ≠ []) :
    ∃ subject verb object, CutsAtVerb ws subject verb object := by
  classical
  let begins (n : Nat) : Prop := ∃ before found after, ws = before ++ found ++ after ∧
    IsVerbPhrase found ∧ before ≠ [] ∧ after ≠ [] ∧ before.length = n
  have hexists : ∃ n, begins n := ⟨_, front, phrase, back, hws, hverb, hfront, hback, rfl⟩
  obtain ⟨subject, verb, object, heq, hisVerb, hsubject, hobject, hlength⟩ := Nat.find_spec hexists
  refine ⟨subject, verb, object, heq, hisVerb, hsubject, hobject, ?_⟩
  intro before found after heq' hfound hbefore hafter
  rw [hlength]
  exact Nat.find_min' hexists ⟨before, found, after, heq', hfound, hbefore, hafter, rfl⟩

/-- There is only one way to cut words at their first verb phrase. -/
theorem CutsAtVerb.unique {subject verb object subject' verb' object' : List (List Char)}
    (h : CutsAtVerb ws subject verb object) (h' : CutsAtVerb ws subject' verb' object') :
    subject = subject' ∧ verb = verb' ∧ object = object' := by
  have hlength : subject.length = subject'.length := by
    apply le_antisymm
    · exact h.first _ _ _ h'.words_eq h'.isVerb h'.subject_ne h'.object_ne
    · exact h'.first _ _ _ h.words_eq h.isVerb h.subject_ne h.object_ne
  have heq : subject ++ (verb ++ object) = subject' ++ (verb' ++ object') := by
    rw [← List.append_assoc, ← List.append_assoc, ← h.words_eq, h'.words_eq]
  obtain ⟨hsubject, hrest⟩ := List.append_inj heq hlength
  obtain ⟨entry, hentry, hreads⟩ := h.isVerb
  obtain ⟨entry', hentry', hreads'⟩ := h'.isVerb
  obtain ⟨-, hverb⟩ := eq_of_readsAs hentry hentry' hreads hreads' hrest
  exact ⟨hsubject, hverb, List.append_cancel_left (hverb ▸ hrest)⟩

end Phrases

section Tokens

variable {phrase : List String} {found : List (List Char)} {before object ts : List Token}
  {verb : Option Verb} {s : Statement}

theorem phraseWords?_eq_some_iff : phraseWords? phrase ts = some (found, object) ↔
    ∃ front, ts = front ++ object ∧ found = front.map Token.word ∧ ReadsAs phrase found := by
  induction phrase generalizing ts found with
  | nil =>
      constructor
      · intro h
        obtain ⟨rfl, rfl⟩ := Prod.mk.inj (Option.some.inj h)
        exact ⟨[], rfl, rfl, List.Forall₂.nil⟩
      · rintro ⟨front, rfl, rfl, hreads⟩
        obtain rfl : front = [] := by
          cases front with
          | nil => rfl
          | cons t front => cases hreads
        rfl
  | cons letters phrase ih =>
      cases ts with
      | nil =>
          refine ⟨fun h => absurd h (by simp [phraseWords?]), ?_⟩
          rintro ⟨front, hfront, rfl, hreads⟩
          obtain ⟨rfl, -⟩ := List.append_eq_nil_iff.mp hfront.symm
          cases hreads
      | cons t ts =>
          rw [phraseWords?]
          constructor
          · intro h
            split at h
            · rename_i hword
              obtain ⟨⟨more, rest⟩, hmore, heq⟩ := Option.map_eq_some_iff.mp h
              obtain ⟨rfl, rfl⟩ := Prod.mk.inj heq
              obtain ⟨front, rfl, rfl, hreads⟩ := ih.mp hmore
              exact ⟨t :: front, rfl, rfl, List.Forall₂.cons hword hreads⟩
            · cases h
          · rintro ⟨front, hfront, rfl, hreads⟩
            cases front with
            | nil => cases hreads
            | cons u front =>
                rw [List.cons_append] at hfront
                obtain ⟨rfl, rfl⟩ := List.cons.inj hfront
                obtain ⟨hword, hreads⟩ := List.forall₂_cons.mp hreads
                rw [if_pos hword, ih.mpr ⟨front, rfl, rfl, hreads⟩]
                rfl

/-- Where the words of a text are cut its tokens can be cut. -/
theorem exists_tokens_split {body : List Char} {subject verb object : List (List Char)}
    (h : words body = subject ++ verb ++ object) :
    ∃ front phrase back, tokens body = front ++ phrase ++ back ∧ front.map Token.word = subject ∧
      phrase.map Token.word = verb ∧ back.map Token.word = object := by
  rw [← map_word_tokens] at h
  obtain ⟨before, back, hsplit, hbefore, rfl⟩ := List.map_eq_append_iff.mp h
  obtain ⟨front, phrase, rfl, rfl, rfl⟩ := List.map_eq_append_iff.mp hbefore
  exact ⟨front, phrase, back, hsplit, rfl, rfl, rfl⟩

/-- The verb of a phrase that is found in these words. -/
def verbOf (entry : List String × Verb) (found : List (List Char)) : Option Verb :=
  if found.map lower = entry.1.map String.toList then some entry.2 else none

theorem verbOf_eq_none_iff {entry : List String × Verb} (hentry : entry ∈ verbPhrases)
    (hreads : ReadsAs entry.1 found) :
    verbOf entry found = none ↔ ∃ w ∈ found, ∃ c ∈ w, c ∈ lookalikes := by
  have hlower := hreads.map_lower_eq_iff (isLower_of_mem_verbPhrases hentry)
  unfold verbOf
  split
  · rename_i heq
    have hnone := hlower.mp heq
    simpa using hnone
  · rename_i hne
    have hsome := mt hlower.mpr hne
    simpa using hsome

/-- The tokens begin with a verb phrase, and there are words after it. -/
structure BeginsWithVerb (entry : List String × Verb) (front object ts : List Token) : Prop where
  mem : entry ∈ verbPhrases
  tokens_eq : ts = front ++ object
  reads : ReadsAs entry.1 (front.map Token.word)
  object_ne : object ≠ []

/-- What a phrase finds at the head of the tokens. -/
def verbOf? (entry : List String × Verb) (ts : List Token) : Option (Option Verb × List Token) :=
  match phraseWords? entry.1 ts with
  | some (found, object :: rest) => some (verbOf entry found, object :: rest)
  | _ => none

theorem verbAt?_eq_findSome? (ts : List Token) :
    verbAt? ts = verbPhrases.findSome? fun entry => verbOf? entry ts := by
  unfold verbAt? verbOf? verbOf
  congr 1
  funext entry
  rcases phraseWords? entry.1 ts with _ | ⟨found, _ | ⟨object, rest⟩⟩
  · rfl
  · rfl
  · simp

theorem verbOf?_eq_some_iff {entry : List String × Verb} (hentry : entry ∈ verbPhrases) :
    verbOf? entry ts = some (verb, object) ↔
      ∃ front, BeginsWithVerb entry front object ts ∧ verb = verbOf entry (front.map Token.word) := by
  unfold verbOf?
  constructor
  · intro h
    split at h
    · rename_i found first rest hfound
      obtain ⟨rfl, rfl⟩ := Prod.mk.inj (Option.some.inj h)
      obtain ⟨front, hts, rfl, hreads⟩ := phraseWords?_eq_some_iff.mp hfound
      exact ⟨front, ⟨hentry, hts, hreads, List.cons_ne_nil first rest⟩, rfl⟩
    · cases h
  · rintro ⟨front, ⟨-, hts, hreads, hne⟩, rfl⟩
    obtain ⟨first, rest, rfl⟩ := List.exists_cons_of_ne_nil hne
    rw [phraseWords?_eq_some_iff.mpr ⟨front, hts, rfl, hreads⟩]

theorem BeginsWithVerb.unique {entry entry' : List String × Verb}
    {front front' object' : List Token} (h : BeginsWithVerb entry front object ts)
    (h' : BeginsWithVerb entry' front' object' ts) :
    entry = entry' ∧ front = front' ∧ object = object' := by
  have hwords : front.map Token.word ++ object.map Token.word =
      front'.map Token.word ++ object'.map Token.word := by
    rw [← List.map_append, ← List.map_append, ← h.tokens_eq, h'.tokens_eq]
  obtain ⟨hentry, hfront⟩ := eq_of_readsAs h.mem h'.mem h.reads h'.reads hwords
  have hlength : front.length = front'.length := by
    rw [← List.length_map (f := Token.word), hfront, List.length_map]
  exact ⟨hentry, List.append_inj (h.tokens_eq.symm.trans h'.tokens_eq) hlength⟩

theorem verbAt?_eq_some_iff : verbAt? ts = some (verb, object) ↔
    ∃ entry front, BeginsWithVerb entry front object ts ∧
      verb = verbOf entry (front.map Token.word) := by
  rw [verbAt?_eq_findSome?]
  constructor
  · intro h
    obtain ⟨entry, hentry, hfound⟩ := List.exists_of_findSome?_eq_some h
    obtain ⟨front, hbegins, hverb⟩ := (verbOf?_eq_some_iff hentry).mp hfound
    exact ⟨entry, front, hbegins, hverb⟩
  · rintro ⟨entry, front, hbegins, rfl⟩
    have hfound := (verbOf?_eq_some_iff hbegins.mem).mpr ⟨front, hbegins, rfl⟩
    -- another phrase that is tried before this one would be the same phrase
    cases hsome : verbPhrases.findSome? fun entry => verbOf? entry ts with
    | none =>
        have hnone := List.findSome?_eq_none_iff.mp hsome entry hbegins.mem
        rw [hfound] at hnone
        cases hnone
    | some found =>
        obtain ⟨entry', hentry', hfound'⟩ := List.exists_of_findSome?_eq_some hsome
        obtain ⟨front', hbegins', -⟩ := (verbOf?_eq_some_iff hentry').mp hfound'
        obtain ⟨rfl, -, -⟩ := hbegins.unique hbegins'
        rw [← hfound', hfound]

theorem verbAt?_eq_none_iff : verbAt? ts = none ↔
    ∀ entry front object, ¬BeginsWithVerb entry front object ts := by
  constructor
  · intro h entry front object hbegins
    have hsome := verbAt?_eq_some_iff.mpr ⟨entry, front, hbegins, rfl⟩
    rw [h] at hsome
    cases hsome
  · intro h
    cases hsome : verbAt? ts with
    | none => rfl
    | some found =>
        obtain ⟨entry, front, hbegins, -⟩ := verbAt?_eq_some_iff.mp hsome
        exact absurd hbegins (h entry front found.2)

/-- Where the search for the verb stops. -/
theorem Statement.find?_eq_some_iff : Statement.find? before ts = some s ↔
    ∃ passed rest verb object, ts = passed ++ rest ∧ verbAt? rest = some (verb, object) ∧
      (∀ back, back <:+ passed → back ≠ [] → verbAt? (back ++ rest) = none) ∧
      s = ⟨String.ofList (tokensText (before ++ passed)), verb,
        String.ofList (withoutFullStop (trim (tokensText object)))⟩ := by
  induction ts generalizing before with
  | nil =>
      refine ⟨fun h => absurd h (by simp [Statement.find?]), ?_⟩
      rintro ⟨passed, rest, verb, object, hts, hverb, -⟩
      obtain ⟨rfl, rfl⟩ := List.append_eq_nil_iff.mp hts.symm
      cases hverb
  | cons t ts ih =>
      rw [Statement.find?]
      cases hhere : verbAt? (t :: ts) with
      | some found =>
          obtain ⟨verb, object⟩ := found
          constructor
          · intro h
            refine ⟨[], t :: ts, verb, object, rfl, hhere, ?_, ?_⟩
            · intro back hback hne
              exact absurd (List.suffix_nil.mp hback) hne
            · rw [List.append_nil]
              exact (Option.some.inj h).symm
          · rintro ⟨passed, rest, verb', object', hts, hverb, hpassed, rfl⟩
            cases passed with
            | nil =>
                rw [← List.nil_append rest, ← hts, hhere] at hverb
                obtain ⟨rfl, rfl⟩ := Prod.mk.inj (Option.some.inj hverb)
                rw [List.append_nil]
            | cons u passed =>
                have hnone := hpassed (u :: passed) List.suffix_rfl (List.cons_ne_nil u passed)
                rw [← hts, hhere] at hnone
                cases hnone
      | none =>
          rw [ih]
          constructor
          · rintro ⟨passed, rest, verb, object, rfl, hverb, hpassed, rfl⟩
            refine ⟨t :: passed, rest, verb, object, rfl, hverb, ?_, by simp⟩
            intro back hback hne
            rcases List.suffix_cons_iff.mp hback with rfl | hback
            · exact hhere
            · exact hpassed back hback hne
          · rintro ⟨passed, rest, verb, object, hts, hverb, hpassed, rfl⟩
            cases passed with
            | nil =>
                rw [← List.nil_append rest, ← hts, hhere] at hverb
                cases hverb
            | cons u passed =>
                rw [List.cons_append] at hts
                obtain ⟨rfl, rfl⟩ := List.cons.inj hts
                refine ⟨passed, rest, verb, object, rfl, hverb, ?_, by simp⟩
                exact fun back hback hne => hpassed back (hback.trans (List.suffix_cons _ _)) hne

theorem exists_beginsWithVerb_iff : (∃ entry front object, BeginsWithVerb entry front object ts) ↔
    ∃ found after, ts.map Token.word = found ++ after ∧ IsVerbPhrase found ∧ after ≠ [] := by
  constructor
  · rintro ⟨entry, front, object, hmem, rfl, hreads, hne⟩
    exact ⟨_, _, List.map_append, ⟨entry, hmem, hreads⟩, by simpa using hne⟩
  · rintro ⟨found, after, hwords, ⟨entry, hmem, hreads⟩, hne⟩
    obtain ⟨front, object, rfl, rfl, rfl⟩ := List.map_eq_append_iff.mp hwords
    exact ⟨entry, front, object, hmem, rfl, hreads, by simpa using hne⟩

theorem exists_between {first : Token} {passed tail front back : List Token}
    (h : first :: passed ++ tail = front ++ back) (hfront : front ≠ [])
    (hlt : front.length < (first :: passed).length) :
    ∃ between, between ≠ [] ∧ between <:+ passed ∧ back = between ++ tail := by
  rcases List.append_eq_append_iff.mp h with ⟨more, rfl, -⟩ | ⟨between, hbetween, rfl⟩
  · rw [List.length_append] at hlt
    omega
  · refine ⟨between, ?_, ?_, rfl⟩
    · rintro rfl
      rw [hbetween, List.append_nil] at hlt
      exact lt_irrefl _ hlt
    · obtain ⟨start, before, rfl⟩ := List.exists_cons_of_ne_nil hfront
      exact ⟨before, (List.cons.inj hbetween).2.symm⟩

/-- A cut is at the first verb phrase exactly when no such phrase begins at a later word of the
subject. -/
theorem cutsAtVerb_iff {entry : List String × Verb} {first : Token}
    {passed phrase back : List Token} (hentry : entry ∈ verbPhrases)
    (hreads : ReadsAs entry.1 (phrase.map Token.word)) (hback : back ≠ []) :
    CutsAtVerb ((first :: passed ++ phrase ++ back).map Token.word)
        ((first :: passed).map Token.word) (phrase.map Token.word) (back.map Token.word) ↔
      ∀ between, between <:+ passed → between ≠ [] → verbAt? (between ++ (phrase ++ back)) = none := by
  constructor
  · rintro hcut between ⟨before, rfl⟩ hbetween
    refine verbAt?_eq_none_iff.mpr fun entry' front' object' hbegins => ?_
    obtain ⟨found, after, hwords, hfound, hafter⟩ :=
      exists_beginsWithVerb_iff.mp ⟨entry', front', object', hbegins⟩
    have hle := hcut.first ((first :: before).map Token.word) found after
      (by rw [List.append_assoc _ found, ← hwords]; simp) hfound (by simp) hafter
    have hpos := List.length_pos_of_ne_nil hbetween
    simp only [List.length_map, List.length_cons, List.length_append] at hle
    omega
  · intro hpassed
    constructor
    case words_eq => simp
    case isVerb => exact ⟨entry, hentry, hreads⟩
    case subject_ne => simp
    case object_ne => simpa using hback
    case first =>
      intro before found after hwords hfound hbefore hafter
      by_contra hlt
      rw [List.append_assoc, List.append_assoc] at hwords
      obtain ⟨b, r, hsplit, rfl, hr⟩ := List.map_eq_append_iff.mp hwords
      simp only [List.length_map, not_le] at hlt
      obtain ⟨between, hbetween, hsuffix, rfl⟩ :=
        exists_between hsplit (by simpa using hbefore) hlt
      obtain ⟨entry', front', object', hbegins⟩ :=
        exists_beginsWithVerb_iff.mpr ⟨found, after, hr, hfound, hafter⟩
      have hnone := hpassed between hsuffix hbetween
      exact verbAt?_eq_none_iff.mp hnone entry' front' object' hbegins

/-- A text makes a statement exactly when its words can be cut at a verb phrase, and the names in
the statement are the texts on the two sides of the first such phrase. -/
theorem Statement.ofText?_eq_some_iff {body : List Char} : Statement.ofText? body = some s ↔
    ∃ entry front phrase back, tokens body = front ++ phrase ++ back ∧ entry ∈ verbPhrases ∧
      ReadsAs entry.1 (phrase.map Token.word) ∧
      CutsAtVerb (words body) (front.map Token.word) (phrase.map Token.word)
        (back.map Token.word) ∧
      s = ⟨String.ofList (tokensText front), verbOf entry (phrase.map Token.word),
        String.ofList (withoutFullStop (trim (tokensText back)))⟩ := by
  unfold Statement.ofText?
  rw [← map_word_tokens]
  cases tokens body with
  | nil =>
      refine ⟨fun h => absurd h (by simp), ?_⟩
      rintro ⟨entry, front, phrase, back, hsplit, -, -, hcut, -⟩
      obtain ⟨hfront, -⟩ := List.append_eq_nil_iff.mp hsplit.symm
      obtain ⟨rfl, -⟩ := List.append_eq_nil_iff.mp hfront
      exact absurd rfl hcut.subject_ne
  | cons first rest =>
      dsimp only
      rw [Statement.find?_eq_some_iff]
      constructor
      · rintro ⟨passed, tail, verb, back, rfl, hverb, hpassed, rfl⟩
        obtain ⟨entry, phrase, ⟨hentry, rfl, hreads, hback⟩, rfl⟩ := verbAt?_eq_some_iff.mp hverb
        have hcut : CutsAtVerb ((first :: passed ++ phrase ++ back).map Token.word) _ _ _ :=
          (cutsAtVerb_iff hentry hreads hback).mpr hpassed
        rw [List.append_assoc] at hcut
        exact ⟨entry, first :: passed, phrase, back, by simp, hentry, hreads, hcut, rfl⟩
      · rintro ⟨entry, front, phrase, back, hsplit, hentry, hreads, hcut, rfl⟩
        cases front with
        | nil => exact absurd rfl hcut.subject_ne
        | cons first' passed =>
            rw [hsplit] at hcut
            rw [List.cons_append, List.cons_append] at hsplit
            obtain ⟨rfl, rfl⟩ := List.cons.inj hsplit
            have hback : back ≠ [] := by simpa using hcut.object_ne
            exact ⟨passed, phrase ++ back, _, back, List.append_assoc _ _ _,
              verbAt?_eq_some_iff.mpr ⟨entry, phrase, ⟨hentry, rfl, hreads, hback⟩, rfl⟩,
              (cutsAtVerb_iff hentry hreads hback).mp hcut, rfl⟩

end Tokens

end Glossary.Dictionary
