import Mathlib.Data.List.DropRight
import Glossary.Dictionary.Statement
import Glossary.Text.Lines

/-!
Texts that are put together from words or from lines come apart into the same words and lines.
-/

namespace Glossary.Text

open Dictionary

variable {cs gap word rest : List Char} {w : List Char} {ws vs : List (List Char)} {ts : List Token}

/-- Some characters, none of them blank. -/
structure IsWord (word : List Char) : Prop where
  ne_nil : word ≠ []
  solid : ∀ c ∈ word, isBlank c = false

/-- A word that stands before this text ends there. -/
def Stops (rest : List Char) : Prop :=
  ∀ c ∈ rest.head?, isBlank c = true

section Runs

variable {α : Type} {keep : α → Bool} {run gap rest : List α}

theorem runs_append_of_dropped (hgap : ∀ a ∈ gap, keep a = false) :
    runs keep (gap ++ rest) = runs keep rest := by
  induction gap with
  | nil => rfl
  | cons a gap ih =>
      obtain ⟨ha, hgap⟩ := List.forall_mem_cons.mp hgap
      rw [List.cons_append, runs, ha]
      exact ih hgap

theorem runs_append_of_kept (hne : run ≠ []) (hrun : ∀ a ∈ run, keep a = true)
    (hrest : ∀ a ∈ rest.head?, keep a = false) :
    runs keep (run ++ rest) = run :: runs keep rest := by
  induction run with
  | nil => exact absurd rfl hne
  | cons a run ih =>
      obtain ⟨ha, hrun⟩ := List.forall_mem_cons.mp hrun
      rw [List.cons_append, runs, ha]
      cases run with
      | nil =>
          have hstop : rest.head?.any keep = false := by
            cases hhead : rest.head? with
            | none => rfl
            | some b => exact hrest b hhead
          simp [hstop]
      | cons b run =>
          have hb : keep b = true := hrun b List.mem_cons_self
          rw [ih (List.cons_ne_nil b run) hrun]
          simp [hb]

end Runs

section Tokens

theorem tokens_append_of_isWord (hword : IsWord word) (hrest : Stops rest) :
    tokens (word ++ rest) = ⟨[], word⟩ :: tokens rest := by
  obtain ⟨hne, hsolid⟩ := hword
  induction word with
  | nil => exact absurd rfl hne
  | cons c word ih =>
      obtain ⟨hc, hsolid⟩ := List.forall_mem_cons.mp hsolid
      rw [List.cons_append, tokens, hc]
      cases word with
      | nil =>
          have hstop : (rest.head?.any fun d => !isBlank d) = false := by
            cases hhead : rest.head? with
            | none => rfl
            | some d => simp [hrest d hhead]
          simp [hstop]
      | cons d word =>
          have hd : isBlank d = false := hsolid d List.mem_cons_self
          rw [ih (List.cons_ne_nil d word) hsolid]
          simp [hd]

theorem tokens_eq_nil (hcs : ∀ c ∈ cs, isBlank c = true) : tokens cs = [] := by
  induction cs with
  | nil => rfl
  | cons c cs ih =>
      obtain ⟨hc, hcs⟩ := List.forall_mem_cons.mp hcs
      rw [tokens, hc, ih hcs]
      rfl

theorem tokens_append (hgap : ∀ c ∈ gap, isBlank c = true) (hword : IsWord word)
    (hrest : Stops rest) : tokens (gap ++ (word ++ rest)) = ⟨gap, word⟩ :: tokens rest := by
  induction gap with
  | nil => exact tokens_append_of_isWord hword hrest
  | cons c gap ih =>
      obtain ⟨hc, hgap⟩ := List.forall_mem_cons.mp hgap
      rw [List.cons_append, tokens, hc, ih hgap]
      rfl

theorem words_eq_nil (hcs : ∀ c ∈ cs, isBlank c = true) : words cs = [] := by
  have hdropped : runs (fun c => !isBlank c) (cs ++ []) = runs (fun c => !isBlank c) [] :=
    runs_append_of_dropped (by simpa using hcs)
  rwa [List.append_nil] at hdropped

theorem words_append (hgap : ∀ c ∈ gap, isBlank c = true) (hword : IsWord word)
    (hrest : Stops rest) : words (gap ++ (word ++ rest)) = word :: words rest := by
  unfold words
  rw [runs_append_of_dropped (by simpa using hgap),
    runs_append_of_kept hword.ne_nil (by simpa using hword.solid) (by simpa [Stops] using hrest)]

/-- A text is blank, or blanks with a word and another text after them. -/
theorem text_induction {motive : List Char → Prop}
    (blank : ∀ cs, (∀ c ∈ cs, isBlank c = true) → motive cs)
    (token : ∀ gap word rest, (∀ c ∈ gap, isBlank c = true) → IsWord word → Stops rest →
      motive rest → motive (gap ++ (word ++ rest))) (cs : List Char) : motive cs := by
  induction hlength : cs.length using Nat.strong_induction_on generalizing cs with
  | _ n ih =>
      subst hlength
      by_cases hcs : ∀ c ∈ cs, isBlank c = true
      · exact blank cs hcs
      · have hstart : cs.dropWhile isBlank ≠ [] := by simpa [List.dropWhile_eq_nil_iff] using hcs
        let solid : Char → Bool := fun c => !isBlank c
        have hword : IsWord ((cs.dropWhile isBlank).takeWhile solid) := by
          constructor
          · obtain ⟨c, more, heq⟩ := List.exists_cons_of_ne_nil hstart
            have hc : isBlank c = false := by
              have hhead := List.head_dropWhile_not isBlank hstart
              simpa [heq] using hhead
            simp [heq, solid, hc]
          · intro c hc
            simpa [solid] using List.mem_takeWhile_imp hc
        have hstops : Stops ((cs.dropWhile isBlank).dropWhile solid) := by
          intro c hc
          have hhead := List.head?_dropWhile_not solid (cs.dropWhile isBlank)
          rw [hc] at hhead
          simpa [solid] using hhead
        have hsplit : cs = cs.takeWhile isBlank ++ ((cs.dropWhile isBlank).takeWhile solid ++
            (cs.dropWhile isBlank).dropWhile solid) := by
          rw [List.takeWhile_append_dropWhile, List.takeWhile_append_dropWhile]
        rw [hsplit]
        refine token _ _ _ (fun c hc => List.mem_takeWhile_imp hc) hword hstops (ih _ ?_ _ rfl)
        have hlength := congrArg List.length hsplit
        have hpos := List.length_pos_of_ne_nil hword.ne_nil
        simp only [List.length_append] at hlength
        omega

theorem map_word_tokens (cs : List Char) : (tokens cs).map Token.word = words cs := by
  induction cs using text_induction with
  | blank cs hcs => rw [tokens_eq_nil hcs, words_eq_nil hcs, List.map_nil]
  | token gap word rest hgap hword hrest ih =>
      rw [tokens_append hgap hword hrest, words_append hgap hword hrest, List.map_cons, ih]

theorem isWord_of_mem_words (hw : w ∈ words cs) : IsWord w := by
  induction cs using text_induction with
  | blank cs hcs =>
      rw [words_eq_nil hcs] at hw
      cases hw
  | token gap word rest hgap hword hrest ih =>
      rw [words_append hgap hword hrest] at hw
      rcases List.mem_cons.mp hw with rfl | hw
      · exact hword
      · exact ih hw

theorem mem_of_mem_words {c : Char} (hw : w ∈ words cs) (hc : c ∈ w) : c ∈ cs := by
  induction cs using text_induction with
  | blank cs hcs =>
      rw [words_eq_nil hcs] at hw
      cases hw
  | token gap word rest hgap hword hrest ih =>
      rw [words_append hgap hword hrest] at hw
      rcases List.mem_cons.mp hw with rfl | hw
      · simp [hc]
      · simp [ih hw]

/-- Tokens as they stand one behind another in a text. -/
structure AreTokens (ts : List Token) : Prop where
  gap_blank : ∀ t ∈ ts, ∀ c ∈ t.gap, isBlank c = true
  isWord : ∀ t ∈ ts, IsWord t.word
  gap_ne : ∀ t ∈ ts.tail, t.gap ≠ []

theorem AreTokens.of_append {us : List Token} (h : AreTokens (ts ++ us)) : AreTokens ts where
  gap_blank t ht := h.gap_blank t (List.mem_append_left us ht)
  isWord t ht := h.isWord t (List.mem_append_left us ht)
  gap_ne t ht := by
    cases ts with
    | nil => cases ht
    | cons first ts => exact h.gap_ne t (List.mem_append_left us ht)

theorem gap_ne_of_stops {t : Token} (hcs : Stops cs) (ht : t ∈ tokens cs) : t.gap ≠ [] := by
  induction cs using text_induction generalizing t with
  | blank cs hblank =>
      rw [tokens_eq_nil hblank] at ht
      cases ht
  | token gap word rest hgap hword hrest ih =>
      rw [tokens_append hgap hword hrest] at ht
      rcases List.mem_cons.mp ht with rfl | ht
      · rintro (rfl : gap = [])
        obtain ⟨c, more, rfl⟩ := List.exists_cons_of_ne_nil hword.ne_nil
        have hsolid := hword.solid c List.mem_cons_self
        have hblank := hcs c rfl
        rw [hsolid] at hblank
        cases hblank
      · exact ih hrest ht

theorem areTokens_tokens (cs : List Char) : AreTokens (tokens cs) := by
  induction cs using text_induction with
  | blank cs hcs =>
      rw [tokens_eq_nil hcs]
      exact ⟨by simp, by simp, by simp⟩
  | token gap word rest hgap hword hrest ih =>
      rw [tokens_append hgap hword hrest]
      exact ⟨List.forall_mem_cons.mpr ⟨hgap, ih.gap_blank⟩,
        List.forall_mem_cons.mpr ⟨hword, ih.isWord⟩, fun t ht => gap_ne_of_stops hrest ht⟩

theorem tokens_tokensText (hts : AreTokens ts) : tokens (tokensText ts) = ts := by
  obtain ⟨hgap, hword, hne⟩ := hts
  induction ts with
  | nil => rfl
  | cons t ts ih =>
      obtain ⟨ht, hgap⟩ := List.forall_mem_cons.mp hgap
      obtain ⟨htword, hword⟩ := List.forall_mem_cons.mp hword
      have hstops : Stops (tokensText ts) := by
        cases ts with
        | nil => simp [Stops, tokensText]
        | cons u ts =>
            obtain ⟨c, more, heq⟩ := List.exists_cons_of_ne_nil (hne u List.mem_cons_self)
            have hc := hgap u List.mem_cons_self c (heq ▸ List.mem_cons_self)
            simpa [Stops, tokensText, Token.text, heq] using hc
      have hrest := ih hgap hword fun u hu => hne u (List.mem_of_mem_tail hu)
      calc tokens (tokensText (t :: ts)) = tokens (t.gap ++ (t.word ++ tokensText ts)) := by
            simp [tokensText, Token.text]
        _ = t :: ts := by rw [tokens_append ht htword hstops, hrest]

theorem words_tokensText (hts : AreTokens ts) : words (tokensText ts) = ts.map Token.word := by
  rw [← map_word_tokens, tokens_tokensText hts]

/-- Words with a single space in front of each. -/
def spaced (ws : List (List Char)) : List Token :=
  ws.map fun w => ⟨[' '], w⟩

/-- Words with single spaces between them. -/
def tokensOf : List (List Char) → List Token
  | [] => []
  | w :: ws => ⟨[], w⟩ :: spaced ws

theorem map_word_tokensOf (ws : List (List Char)) : (tokensOf ws).map Token.word = ws := by
  cases ws with
  | nil => rfl
  | cons w ws => simp [tokensOf, spaced, Function.comp_def]

theorem joinWords_cons (w : List Char) (ws : List (List Char)) :
    joinWords (w :: ws) = w ++ tokensText (spaced ws) := by
  induction ws generalizing w with
  | nil => simp [joinWords, spaced, tokensText]
  | cons v ws ih =>
      have hcons : joinWords (w :: v :: ws) = w ++ [' '] ++ joinWords (v :: ws) :=
        List.intercalate_cons_cons
      rw [hcons, ih]
      simp [spaced, tokensText, Token.text]

theorem tokensText_tokensOf (ws : List (List Char)) : tokensText (tokensOf ws) = joinWords ws := by
  cases ws with
  | nil => rfl
  | cons w ws =>
      rw [joinWords_cons]
      simp [tokensOf, tokensText, Token.text]

theorem joinWords_append (hws : ws ≠ []) (hvs : vs ≠ []) :
    joinWords (ws ++ vs) = joinWords ws ++ ' ' :: joinWords vs := by
  obtain ⟨w, ws, rfl⟩ := List.exists_cons_of_ne_nil hws
  obtain ⟨v, vs, rfl⟩ := List.exists_cons_of_ne_nil hvs
  rw [List.cons_append, joinWords_cons, joinWords_cons, joinWords_cons]
  simp [spaced, tokensText, Token.text]

theorem mem_intercalate {α : Type} {sep a : α} {ls : List (List α)}
    (ha : a ∈ [sep].intercalate ls) : a = sep ∨ ∃ l ∈ ls, a ∈ l := by
  induction ls with
  | nil => cases ha
  | cons l ls ih =>
      cases ls with
      | nil => exact Or.inr ⟨l, List.mem_cons_self, by simpa using ha⟩
      | cons l' ls =>
          rw [List.intercalate_cons_cons, List.append_assoc] at ha
          rcases List.mem_append.mp ha with ha | ha
          · exact Or.inr ⟨l, List.mem_cons_self, ha⟩
          · rcases List.mem_cons.mp ha with rfl | ha
            · exact Or.inl rfl
            · rcases ih ha with hsep | ⟨l'', hl, ha⟩
              · exact Or.inl hsep
              · exact Or.inr ⟨l'', List.mem_cons_of_mem l hl, ha⟩

theorem mem_joinWords {c : Char} (hc : c ∈ joinWords ws) : c = ' ' ∨ ∃ w ∈ ws, c ∈ w :=
  mem_intercalate hc

theorem areTokens_tokensOf (hws : ∀ w ∈ ws, IsWord w) : AreTokens (tokensOf ws) := by
  have hspace : ∀ c ∈ [' '], isBlank c = true := List.forall_mem_singleton.mpr rfl
  cases ws with
  | nil => exact ⟨by simp [tokensOf], by simp [tokensOf], by simp [tokensOf]⟩
  | cons w ws =>
      obtain ⟨hw, hws⟩ := List.forall_mem_cons.mp hws
      refine ⟨List.forall_mem_cons.mpr ⟨by simp, ?_⟩, List.forall_mem_cons.mpr ⟨hw, ?_⟩, ?_⟩
      · exact List.forall_mem_map.mpr fun _ _ => hspace
      · exact List.forall_mem_map.mpr hws
      · exact List.forall_mem_map.mpr fun _ _ => List.cons_ne_nil _ _

theorem tokens_joinWords (hws : ∀ w ∈ ws, IsWord w) : tokens (joinWords ws) = tokensOf ws := by
  rw [← tokensText_tokensOf, tokens_tokensText (areTokens_tokensOf hws)]

theorem words_joinWords (hws : ∀ w ∈ ws, IsWord w) : words (joinWords ws) = ws := by
  rw [← map_word_tokens, tokens_joinWords hws, map_word_tokensOf]

end Tokens

section Trim

theorem trimStart_eq_self_iff : trimStart cs = cs ↔ ∀ c ∈ cs.head?, isBlank c = false := by
  cases cs with
  | nil => simp [trimStart]
  | cons c cs => simp [trimStart, List.dropWhile_eq_self_iff]

theorem trim_eq_self_iff : trim cs = cs ↔
    (∀ c ∈ cs.head?, isBlank c = false) ∧ ∀ c ∈ cs.getLast?, isBlank c = false := by
  have hend : trimEnd cs = cs ↔ ∀ c ∈ cs.getLast?, isBlank c = false := by
    change cs.rdropWhile isBlank = cs ↔ _
    rcases cs.eq_nil_or_concat with rfl | ⟨before, c, rfl⟩
    · simp
    · simp [List.rdropWhile_eq_self_iff]
  constructor
  · intro h
    have hsuffix : trimStart cs <:+ cs := List.dropWhile_suffix isBlank
    have hprefix : trim cs <+: trimStart cs := List.rdropWhile_prefix isBlank (trimStart cs)
    have heq : trimStart cs = cs :=
      hsuffix.eq_of_length_le (by simpa only [h] using hprefix.length_le)
    refine ⟨trimStart_eq_self_iff.mp heq, hend.mp ?_⟩
    rwa [trim, heq] at h
  · rintro ⟨hfirst, hlast⟩
    rw [trim, trimStart_eq_self_iff.mpr hfirst, hend.mpr hlast]

theorem trim_eq_nil_iff : trim cs = [] ↔ ∀ c ∈ cs, isBlank c = true := by
  constructor
  · intro h c hc
    have hstart : ∀ d ∈ trimStart cs, isBlank d = true := List.rdropWhile_eq_nil_iff.mp h
    rw [← List.takeWhile_append_dropWhile (p := isBlank) (l := cs)] at hc
    rcases List.mem_append.mp hc with hc | hc
    · exact List.mem_takeWhile_imp hc
    · exact hstart c hc
  · intro h
    have hstart : trimStart cs = [] := List.dropWhile_eq_nil_iff.mpr h
    rw [trim, hstart]
    rfl

theorem trim_trim (cs : List Char) : trim (trim cs) = trim cs := by
  have hprefix : trim cs <+: trimStart cs := List.rdropWhile_prefix isBlank (trimStart cs)
  refine trim_eq_self_iff.mpr ⟨fun c hc => ?_, fun c hc => ?_⟩
  · obtain ⟨more, hmore⟩ := List.head?_eq_some_iff.mp hc
    obtain ⟨rest, hrest⟩ := hprefix
    have hhead : (trimStart cs).head? = some c := by
      rw [← hrest, hmore]
      rfl
    have hfirst := List.head?_dropWhile_not isBlank cs
    rw [show cs.dropWhile isBlank = trimStart cs from rfl, hhead] at hfirst
    simpa using hfirst
  · obtain ⟨before, hbefore⟩ := List.getLast?_eq_some_iff.mp hc
    have hne : (trimStart cs).rdropWhile isBlank ≠ [] := by
      change trim cs ≠ []
      simp [hbefore]
    have hlast := List.rdropWhile_last_not isBlank (trimStart cs) hne
    simpa [show (trimStart cs).rdropWhile isBlank = before ++ [c] from hbefore] using hlast

theorem mem_of_mem_trim {c : Char} (hc : c ∈ trim cs) : c ∈ cs :=
  (List.dropWhile_suffix isBlank).mem ((List.rdropWhile_prefix isBlank (trimStart cs)).mem hc)

theorem trim_append {front mid back : List Char} (hfront : front ≠ []) (hback : back ≠ [])
    (htrim : trim front = front) (htrim' : trim back = back) :
    trim (front ++ mid ++ back) = front ++ mid ++ back := by
  have hhead : (front ++ mid ++ back).head? = front.head? := by
    obtain ⟨c, front, rfl⟩ := List.exists_cons_of_ne_nil hfront
    rfl
  have hlast : (front ++ mid ++ back).getLast? = back.getLast? := by
    obtain ⟨before, c, rfl⟩ := back.eq_nil_or_concat.resolve_left hback
    rw [List.getLast?_append]
    simp
  rw [trim_eq_self_iff, hhead, hlast]
  exact ⟨(trim_eq_self_iff.mp htrim).1, (trim_eq_self_iff.mp htrim').2⟩

theorem trim_of_isWord (hword : IsWord word) : trim word = word := by
  refine trim_eq_self_iff.mpr ⟨fun c hc => ?_, fun c hc => ?_⟩
  · exact hword.solid c (List.mem_of_mem_head? hc)
  · exact hword.solid c (List.mem_of_getLast? hc)

theorem trim_intercalate {texts : List (List Char)} (hne : texts ≠ [])
    (htexts : ∀ text ∈ texts, text ≠ [] ∧ trim text = text) :
    [' '].intercalate texts ≠ [] ∧ trim ([' '].intercalate texts) = [' '].intercalate texts := by
  induction texts with
  | nil => exact absurd rfl hne
  | cons text texts ih =>
      obtain ⟨⟨htext, htrim⟩, htexts⟩ := List.forall_mem_cons.mp htexts
      cases texts with
      | nil => simpa using ⟨htext, htrim⟩
      | cons text' texts =>
          obtain ⟨hrest, htrimRest⟩ := ih (List.cons_ne_nil text' texts) htexts
          rw [List.intercalate_cons_cons]
          exact ⟨by simp, trim_append htext hrest htrim htrimRest⟩

theorem trim_joinWords (hne : ws ≠ []) (hws : ∀ w ∈ ws, IsWord w) :
    joinWords ws ≠ [] ∧ trim (joinWords ws) = joinWords ws :=
  trim_intercalate hne fun w hw => ⟨(hws w hw).ne_nil, trim_of_isWord (hws w hw)⟩

end Trim

section Lines

variable {c : Char} {line text text' : List Char} {more : List (List Char)}

/-- A text of whole lines: what is put after it begins a new line. -/
def EndsLine (text : List Char) : Prop :=
  ∀ c ∈ text.getLast?, isLineBreak c = true

theorem EndsLine.tail (h : EndsLine (c :: text)) : EndsLine text := by
  intro d hd
  obtain ⟨before, rfl⟩ := List.getLast?_eq_some_iff.mp hd
  exact h d (List.getLast?_eq_some_iff.mpr ⟨c :: before, rfl⟩)

theorem lines_cons_of_break (hc : isLineBreak c = true)
    (hpair : c = '\r' → text.head? ≠ some '\n') : lines (c :: text) = [] :: lines text := by
  rw [lines, if_pos hc]
  rintro rest rfl rfl
  exact hpair rfl rfl

theorem lines_cons_of_char (hc : isLineBreak c = false) (h : lines text = line :: more) :
    lines (c :: text) = (c :: line) :: more := by
  rw [lines, if_neg (by simp [hc]), h]
  rintro rest rfl rfl
  cases hc

theorem lines_eq_nil_iff : lines text = [] ↔ text = [] := by
  fun_cases lines text with
  | case1 => simp
  | _ => simp

theorem mem_of_mem_lines (hline : line ∈ lines text) (hc : c ∈ line) : c ∈ text := by
  induction text using lines.induct generalizing line with
  | case1 => cases hline
  | case2 text ih =>
      rw [lines] at hline
      rcases List.mem_cons.mp hline with rfl | hline
      · cases hc
      · simp [ih hline hc]
  | case3 d text hd hbreak ih =>
      rw [lines, if_pos hbreak] at hline
      · rcases List.mem_cons.mp hline with rfl | hline
        · cases hc
        · exact List.mem_cons_of_mem d (ih hline hc)
      · exact hd
  | case4 d text hd hchar first more hlines ih =>
      rw [lines_cons_of_char (by simpa using hchar) hlines] at hline
      rw [hlines] at ih
      rcases List.mem_cons.mp hline with rfl | hline
      · rcases List.mem_cons.mp hc with rfl | hc
        · exact List.mem_cons_self
        · exact List.mem_cons_of_mem d (ih List.mem_cons_self hc)
      · exact List.mem_cons_of_mem d (ih (List.mem_cons_of_mem first hline) hc)
  | case5 d text hd hchar hlines ih =>
      obtain rfl := lines_eq_nil_iff.mp hlines
      have hlast : lines [d] = [[d]] := by
        rw [lines, if_neg hchar]
        · rfl
        · exact hd
      rw [hlast] at hline
      obtain rfl := List.mem_singleton.mp hline
      exact hc

theorem lines_append (htext : EndsLine text) (htext' : text'.head? ≠ some '\n') :
    lines (text ++ text') = lines text ++ lines text' := by
  induction text using lines.induct with
  | case1 => rfl
  | case2 text ih =>
      rw [List.cons_append, List.cons_append, lines, lines, ih htext.tail.tail]
      rfl
  | case3 c text hc hbreak ih =>
      have hpair : c = '\r' → text.head? ≠ some '\n' := by
        rintro rfl hhead
        obtain ⟨rest, rfl⟩ := List.head?_eq_some_iff.mp hhead
        exact hc rest rfl rfl
      have hpair' : c = '\r' → (text ++ text').head? ≠ some '\n' := by
        cases text with
        | nil => exact fun _ => htext'
        | cons d text => exact hpair
      rw [List.cons_append, lines_cons_of_break hbreak hpair, lines_cons_of_break hbreak hpair',
        ih htext.tail]
      rfl
  | case4 c text hc hchar line more hlines ih =>
      have hc' : isLineBreak c = false := by simpa using hchar
      have happend : lines (text ++ text') = line :: (more ++ lines text') := by
        rw [ih htext.tail, hlines]
        rfl
      rw [List.cons_append, lines_cons_of_char hc' hlines, lines_cons_of_char hc' happend]
      rfl
  | case5 c text hc hchar hlines ih =>
      -- a character that begins the last line is the end of the text
      obtain rfl := lines_eq_nil_iff.mp hlines
      exact absurd (htext c rfl) hchar

theorem lines_of_line (hline : ∀ c ∈ line, isLineBreak c = false) :
    lines (line ++ '\n' :: text) = line :: lines text := by
  induction line with
  | nil => exact lines_cons_of_break rfl fun h => absurd h (by decide)
  | cons c line ih =>
      obtain ⟨hc, hline⟩ := List.forall_mem_cons.mp hline
      exact lines_cons_of_char hc (ih hline)

theorem lines_flatMap {ls : List (List Char)} (hls : ∀ l ∈ ls, ∀ c ∈ l, isLineBreak c = false) :
    lines (ls.flatMap fun l => l ++ ['\n']) = ls := by
  induction ls with
  | nil => rfl
  | cons l ls ih =>
      obtain ⟨hl, hls⟩ := List.forall_mem_cons.mp hls
      rw [List.flatMap_cons, List.append_assoc, List.singleton_append, lines_of_line hl, ih hls]

theorem isBlank_of_isLineBreak (hc : isLineBreak c = true) : isBlank c = true := by
  simp only [isLineBreak, isBlank, blankCodes, List.contains_eq_mem, decide_eq_true_eq] at hc ⊢
  revert hc
  simp only [List.mem_cons, List.not_mem_nil, or_false]
  omega

theorem not_isLineBreak_of_mem_joinWords (hws : ∀ w ∈ ws, IsWord w) (hc : c ∈ joinWords ws) :
    isLineBreak c = false := by
  rcases mem_joinWords hc with rfl | ⟨w, hw, hc⟩
  · rfl
  · by_contra hbreak
    have hblank := isBlank_of_isLineBreak (by simpa using hbreak)
    rw [(hws w hw).solid c hc] at hblank
    cases hblank

theorem lines_singleton (hne : line ≠ []) (hline : ∀ c ∈ line, isLineBreak c = false) :
    lines line = [line] := by
  induction line with
  | nil => exact absurd rfl hne
  | cons c line ih =>
      obtain ⟨hc, hline⟩ := List.forall_mem_cons.mp hline
      cases line with
      | nil =>
          rw [lines, if_neg (by simp [hc])]
          · rfl
          · rintro rest - hrest
            cases hrest
      | cons d line => exact lines_cons_of_char hc (ih (List.cons_ne_nil d line) hline)

theorem lines_intercalate {ls : List (List Char)}
    (hls : ∀ l ∈ ls, l ≠ [] ∧ ∀ c ∈ l, isLineBreak c = false) : lines (['\n'].intercalate ls) = ls := by
  induction ls with
  | nil => rfl
  | cons l ls ih =>
      obtain ⟨⟨hne, hl⟩, hls⟩ := List.forall_mem_cons.mp hls
      cases ls with
      | nil => simpa using lines_singleton hne hl
      | cons l' ls =>
          rw [List.intercalate_cons_cons, List.append_assoc, List.singleton_append, lines_of_line hl,
            ih hls]

end Lines

end Glossary.Text
