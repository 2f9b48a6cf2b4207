import Glossary.Proofs.Words

/-!
Texts that begin and end with a word, and the gaps between them.
-/

namespace Glossary.Text

open Dictionary

variable {cs front mid back rest gap text text' : List Char} {ts : List Token} {c : Char}

/-- Some blanks. -/
structure IsGap (gap : List Char) : Prop where
  ne_nil : gap ≠ []
  blank : ∀ c ∈ gap, isBlank c = true

/-- A text that begins and ends with a word. -/
structure IsTrimmed (text : List Char) : Prop where
  ne_nil : text ≠ []
  trim_eq : trim text = text

section Words

theorem words_append_of_blank (hgap : ∀ c ∈ gap, isBlank c = true) : words (gap ++ cs) = words cs :=
  runs_append_of_dropped (by simpa using hgap)

theorem Stops.append (htext : Stops text) (hrest : Stops rest) : Stops (text ++ rest) := by
  cases text with
  | nil => exact hrest
  | cons c text => exact htext

theorem words_append_of_stops (hrest : Stops rest) :
    words (cs ++ rest) = words cs ++ words rest := by
  induction cs using text_induction with
  | blank cs hcs => rw [words_append_of_blank hcs, words_eq_nil hcs, List.nil_append]
  | token gap word more hgap hword hmore ih =>
      rw [List.append_assoc, List.append_assoc, words_append hgap hword (hmore.append hrest), ih,
        words_append hgap hword hmore, List.cons_append]

theorem words_append_of_isWord {word : List Char} (hword : IsWord word) (hrest : Stops rest) :
    words (word ++ rest) = word :: words rest :=
  words_append (List.forall_mem_nil _) hword hrest

theorem words_of_isWord {word : List Char} (hword : IsWord word) : words word = [word] := by
  have hwords := words_append_of_isWord hword (show Stops [] from nofun)
  rwa [List.append_nil, words_eq_nil (List.forall_mem_nil _)] at hwords

theorem words_eq_nil_iff : words cs = [] ↔ ∀ c ∈ cs, isBlank c = true := by
  refine ⟨fun h => ?_, words_eq_nil⟩
  induction cs using text_induction with
  | blank cs hcs => exact hcs
  | token gap word rest hgap hword hrest _ =>
      rw [words_append hgap hword hrest] at h
      cases h

theorem words_ne_nil_of_mem (hc : c ∈ cs) (hsolid : isBlank c = false) : words cs ≠ [] := by
  intro hwords
  rw [words_eq_nil_iff.mp hwords c hc] at hsolid
  cases hsolid

theorem head_solid_of_append (h : ∀ c ∈ (cs ++ rest).head?, isBlank c = false) :
    ∀ c ∈ cs.head?, isBlank c = false := by
  intro c hc
  refine h c ?_
  rw [List.head?_append, hc]
  rfl

theorem last_solid_of_append (h : ∀ c ∈ (cs ++ rest).getLast?, isBlank c = false) :
    ∀ c ∈ rest.getLast?, isBlank c = false := by
  intro c hc
  refine h c ?_
  rw [List.getLast?_append, hc]
  rfl

theorem words_ne_nil_of_last (hne : cs ≠ []) (hlast : ∀ c ∈ cs.getLast?, isBlank c = false) :
    words cs ≠ [] := by
  obtain ⟨before, c, rfl⟩ := cs.eq_nil_or_concat.resolve_left hne
  exact words_ne_nil_of_mem (show c ∈ before.concat c by simp) (hlast c (by simp))

end Words

namespace IsGap

theorem stops (h : IsGap gap) : Stops (gap ++ cs) := by
  obtain ⟨c, more, rfl⟩ := List.exists_cons_of_ne_nil h.ne_nil
  intro d hd
  obtain rfl : c = d := by simpa using hd
  exact h.blank c List.mem_cons_self

theorem words_append (h : IsGap gap) : words (gap ++ cs) = words cs :=
  words_append_of_blank h.blank

theorem words_between (h : IsGap gap) : words (text ++ (gap ++ cs)) = words text ++ words cs := by
  rw [words_append_of_stops h.stops, h.words_append]

end IsGap

theorem isTrimmed_iff : IsTrimmed text ↔ text ≠ [] ∧ (∀ c ∈ text.head?, isBlank c = false) ∧
    ∀ c ∈ text.getLast?, isBlank c = false := by
  rw [← trim_eq_self_iff]
  exact ⟨fun h => ⟨h.ne_nil, h.trim_eq⟩, fun h => ⟨h.1, h.2⟩⟩

namespace IsTrimmed

theorem head_solid (h : IsTrimmed text) : ∀ c ∈ text.head?, isBlank c = false :=
  (isTrimmed_iff.mp h).2.1

theorem head_solid_append (h : IsTrimmed text) : ∀ c ∈ (text ++ cs).head?, isBlank c = false := by
  obtain ⟨c, more, rfl⟩ := List.exists_cons_of_ne_nil h.ne_nil
  exact h.head_solid

theorem last_solid (h : IsTrimmed text) : ∀ c ∈ text.getLast?, isBlank c = false :=
  (isTrimmed_iff.mp h).2.2

theorem append (hfront : IsTrimmed front) (hback : IsTrimmed back) :
    IsTrimmed (front ++ (mid ++ back)) := by
  refine ⟨by simp [hfront.ne_nil], ?_⟩
  rw [← List.append_assoc]
  exact trim_append hfront.ne_nil hback.ne_nil hfront.trim_eq hback.trim_eq

theorem words_ne (h : IsTrimmed text) : words text ≠ [] := by
  obtain ⟨c, more, rfl⟩ := List.exists_cons_of_ne_nil h.ne_nil
  exact words_ne_nil_of_mem List.mem_cons_self (h.head_solid c rfl)

/-- A trimmed text begins with its first word. -/
theorem exists_word (h : IsTrimmed text) : ∃ word rest, text = word ++ rest ∧ IsWord word ∧
    Stops rest ∧ words text = word :: words rest := by
  induction text using text_induction with
  | blank cs hcs => exact absurd (words_eq_nil hcs) h.words_ne
  | token gap word rest hgap hword hrest _ =>
      obtain rfl : gap = [] := by
        cases gap with
        | nil => rfl
        | cons c gap =>
            have hsolid := h.head_solid c rfl
            rw [hgap c List.mem_cons_self] at hsolid
            cases hsolid
      exact ⟨word, rest, rfl, hword, hrest, Text.words_append hgap hword hrest⟩

end IsTrimmed

theorem isTrimmed_of_suffix (hsuffix : rest <:+ cs) (hne : rest ≠ [])
    (hfirst : ∀ c ∈ rest.head?, isBlank c = false)
    (hlast : ∀ c ∈ cs.getLast?, isBlank c = false) : IsTrimmed rest := by
  obtain ⟨before, rfl⟩ := hsuffix
  exact isTrimmed_iff.mpr ⟨hne, hfirst, last_solid_of_append hlast⟩

/-- What stands behind a word and has words itself is a gap and a trimmed text. -/
theorem exists_gap_append (hstops : Stops cs) (hwords : words cs ≠ [])
    (hlast : ∀ c ∈ cs.getLast?, isBlank c = false) :
    ∃ gap text, cs = gap ++ text ∧ IsGap gap ∧ IsTrimmed text := by
  have hsplit := List.takeWhile_append_dropWhile (p := isBlank) (l := cs)
  have hne : cs.dropWhile isBlank ≠ [] := by
    rw [Ne, List.dropWhile_eq_nil_iff, ← words_eq_nil_iff]
    exact hwords
  refine ⟨_, _, hsplit.symm, ⟨?_, fun c hc => List.mem_takeWhile_imp hc⟩,
    isTrimmed_of_suffix (List.dropWhile_suffix isBlank) hne ?_ hlast⟩
  · intro hnil
    obtain ⟨c, more, rfl⟩ : ∃ c more, cs = c :: more :=
      List.exists_cons_of_ne_nil (by rintro rfl; exact hne rfl)
    simp [hstops c rfl] at hnil
  · intro c hc
    have hhead := List.head?_dropWhile_not isBlank cs
    rw [hc] at hhead
    simpa using hhead

theorem trimEnd_isPrefix (cs : List Char) : trimEnd cs <+: cs :=
  List.rdropWhile_prefix isBlank cs

theorem exists_trimEnd_append (cs : List Char) :
    ∃ gap, cs = trimEnd cs ++ gap ∧ ∀ c ∈ gap, isBlank c = true := by
  have hsplit : trimEnd cs ++ cs.rtakeWhile isBlank = cs := List.rdropWhile_append_rtakeWhile
  exact ⟨_, hsplit.symm, fun c hc => List.mem_rtakeWhile_imp hc⟩

/-- A text that begins with a word is trimmed but for blanks at its end. -/
theorem isTrimmed_trimEnd (hne : cs ≠ []) (hfirst : ∀ c ∈ cs.head?, isBlank c = false) :
    IsTrimmed (trimEnd cs) := by
  obtain ⟨c, more, rfl⟩ := List.exists_cons_of_ne_nil hne
  have hc := hfirst c rfl
  have htrim : trim (c :: more) = trimEnd (c :: more) := by
    rw [trim, trimStart_eq_self_iff.mpr hfirst]
  rw [← htrim]
  refine ⟨fun hnil => ?_, trim_trim _⟩
  rw [trim_eq_nil_iff.mp hnil c List.mem_cons_self] at hc
  cases hc

theorem trimStart_append (hgap : ∀ c ∈ gap, isBlank c = true)
    (hcs : ∀ c ∈ cs.head?, isBlank c = false) : trimStart (gap ++ cs) = cs := by
  rw [trimStart, List.dropWhile_append_of_pos hgap]
  exact trimStart_eq_self_iff.mpr hcs

theorem eq_of_gap_append {gap' cs' : List Char} (hgap : ∀ c ∈ gap, isBlank c = true)
    (hgap' : ∀ c ∈ gap', isBlank c = true) (hcs : ∀ c ∈ cs.head?, isBlank c = false)
    (hcs' : ∀ c ∈ cs'.head?, isBlank c = false) (heq : gap ++ cs = gap' ++ cs') :
    gap = gap' ∧ cs = cs' := by
  have hstart := congrArg trimStart heq
  rw [trimStart_append hgap hcs, trimStart_append hgap' hcs'] at hstart
  subst hstart
  exact ⟨List.append_cancel_right heq, rfl⟩

theorem IsTrimmed.trim_gap_append (h : IsTrimmed text) (hgap : ∀ c ∈ gap, isBlank c = true) :
    trim (gap ++ text) = text := by
  rw [trim, trimStart_append hgap h.head_solid]
  have htrim := h.trim_eq
  rwa [trim, trimStart_eq_self_iff.mpr h.head_solid] at htrim

theorem isTrimmed_of_isWord {word : List Char} (hword : IsWord word) : IsTrimmed word :=
  ⟨hword.ne_nil, trim_of_isWord hword⟩

/-- A beginning of a text that is continued by a gap and further words has fewer words. -/
theorem length_words_lt (text : List Char) (hrest : Stops rest) (hne : rest ≠ [])
    (hlast : ∀ c ∈ rest.getLast?, isBlank c = false) :
    (words text).length < (words (text ++ rest)).length := by
  rw [words_append_of_stops hrest, List.length_append]
  have hpos := List.length_pos_of_ne_nil (words_ne_nil_of_last hne hlast)
  omega

/-- A text after which a gap comes is shorter than another such text with more words. -/
theorem length_le_of_length_words_le {rest' : List Char} (htext : IsTrimmed text)
    (hrest' : Stops rest') (heq : text ++ rest = text' ++ rest')
    (hwords : (words text).length ≤ (words text').length) : text.length ≤ text'.length := by
  by_contra hlt
  rcases List.append_eq_append_iff.mp heq with ⟨more, rfl, -⟩ | ⟨more, rfl, rfl⟩
  · simp at hlt
  · have hne : more ≠ [] := by
      rintro rfl
      simp at hlt
    have hstops : Stops more := by
      obtain ⟨c, more', rfl⟩ := List.exists_cons_of_ne_nil hne
      exact hrest'
    have hmore := length_words_lt text' hstops hne (last_solid_of_append htext.last_solid)
    omega

section Tokens

theorem AreTokens.tail_append {us : List Token} (h : AreTokens (ts ++ us)) (hne : ts ≠ []) :
    AreTokens us ∧ ∀ t ∈ us, t.gap ≠ [] := by
  have hgap : ∀ t ∈ us, t.gap ≠ [] := by
    intro t ht
    refine h.gap_ne t ?_
    rw [List.tail_append_of_ne_nil hne]
    exact List.mem_append_right _ ht
  exact ⟨⟨fun t ht => h.gap_blank t (List.mem_append_right ts ht),
    fun t ht => h.isWord t (List.mem_append_right ts ht),
    fun t ht => hgap t (List.mem_of_mem_tail ht)⟩, hgap⟩

/-- Tokens make up a trimmed text behind the gap of the first one. -/
theorem exists_tokensText_eq {t : Token} (h : AreTokens (t :: ts)) :
    ∃ text, tokensText (t :: ts) = t.gap ++ text ∧ IsTrimmed text ∧
      words text = (t :: ts).map Token.word := by
  have hblank := h.gap_blank t List.mem_cons_self
  have hfirst := isTrimmed_of_isWord (h.isWord t List.mem_cons_self)
  have htext : tokensText (t :: ts) = t.gap ++ (t.word ++ tokensText ts) := by
    simp [tokensText, Token.text]
  refine ⟨_, htext, ?_, ?_⟩
  · rcases ts.eq_nil_or_concat with rfl | ⟨before, u, rfl⟩
    · simpa [tokensText] using hfirst
    · have hback := isTrimmed_of_isWord (h.isWord u (by simp))
      have hlast : tokensText (before.concat u) = (tokensText before ++ u.gap) ++ u.word := by
        simp [tokensText, Token.text]
      rw [hlast]
      exact hfirst.append hback
  · rw [← words_append_of_blank hblank, ← htext, words_tokensText h]

theorem tokensText_tokens (hlast : ∀ c ∈ cs.getLast?, isBlank c = false) :
    tokensText (tokens cs) = cs := by
  induction cs using text_induction with
  | blank cs hcs =>
      obtain rfl : cs = [] := by
        by_contra hne
        exact words_ne_nil_of_last hne hlast (words_eq_nil hcs)
      rfl
  | token gap word rest hgap hword hrest ih =>
      have hrestLast := last_solid_of_append (last_solid_of_append hlast)
      rw [tokens_append hgap hword hrest]
      calc tokensText (⟨gap, word⟩ :: tokens rest) = gap ++ (word ++ tokensText (tokens rest)) := by
            simp [tokensText, Token.text]
        _ = gap ++ (word ++ rest) := by rw [ih hrestLast]

end Tokens

end Glossary.Text
