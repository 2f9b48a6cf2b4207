import Mathlib.Data.List.Basic
import Glossary.Sql.Identifier

/-!
The written form of a name is one identifier of SQL that denotes the name: the name itself when it
is a plain word that is not reserved, and otherwise a quoted text from which it is read back. One
kind of name is the exception, a plain word with a line feed behind it, which is written as it is.
-/

namespace Glossary.Sql

/-- Lower-case letters, digits and underscores, and no digit in front. -/
structure IsPlainWord (cs : List Char) : Prop where
  ne_nil : cs ≠ []
  chars : ∀ c ∈ cs, ('a' ≤ c ∧ c ≤ 'z') ∨ ('0' ≤ c ∧ c ≤ '9') ∨ c = '_'
  start : ∀ c ∈ cs.head?, ¬('0' ≤ c ∧ c ≤ '9')

/-- What stands between the quotes of a quoted name: every quote of the name is there twice, and
every other character once. -/
inductive DoublesQuotes : List Char → List Char → Prop
  | nil : DoublesQuotes [] []
  | pair {body name : List Char} : DoublesQuotes body name →
      DoublesQuotes ('"' :: '"' :: body) ('"' :: name)
  | char {c : Char} {body name : List Char} : c ≠ '"' → DoublesQuotes body name →
      DoublesQuotes (c :: body) (c :: name)

/-- The text is a single identifier, and it denotes the name. -/
inductive IsIdentifier : String → String → Prop
  | bare {name : String} : IsPlainWord name.toList → name ∉ reservedWords → IsIdentifier name name
  | quoted {body : List Char} {name : String} : DoublesQuotes body name.toList →
      IsIdentifier (String.ofList ('"' :: body ++ ['"'])) name

/-- A plain word with a line feed behind it. -/
def IsBrokenWord (name : String) : Prop :=
  ∃ word, IsPlainWord word ∧ name.toList = word ++ ['\n']

/-- Reads a quoted name from behind its first quote, up to the first quote that is not doubled. -/
def readQuoted : List Char → Option (List Char × List Char)
  | [] => none
  | '"' :: '"' :: rest => (readQuoted rest).map fun r => ('"' :: r.1, r.2)
  | c :: rest => if c = '"' then some ([], rest) else (readQuoted rest).map fun r => (c :: r.1, r.2)

/-- Reads one identifier from the beginning of a text: a quoted name, or the longest word. -/
def readIdentifier : List Char → Option (List Char × List Char)
  | '"' :: rest => readQuoted rest
  | cs =>
      let word := cs.takeWhile isNameChar
      if isSimpleName word && !reservedWords.contains (String.ofList word) then
        some (word, cs.dropWhile isNameChar)
      else none

/-- An identifier that stands before this text goes no further. -/
def EndsIdentifier (rest : List Char) : Prop :=
  ∀ c ∈ rest.head?, c ≠ '"' ∧ isNameChar c = false

variable {cs body word rest : List Char} {text name : String} {c : Char}

theorem isNameStart_iff : isNameStart c = true ↔ ('a' ≤ c ∧ c ≤ 'z') ∨ c = '_' := by
  simp [isNameStart]

theorem isNameChar_iff :
    isNameChar c = true ↔ ('a' ≤ c ∧ c ≤ 'z') ∨ ('0' ≤ c ∧ c ≤ '9') ∨ c = '_' := by
  rw [isNameChar, Bool.or_eq_true, isNameStart_iff, Bool.and_eq_true, decide_eq_true_eq,
    decide_eq_true_eq, or_assoc, or_comm (b := '0' ≤ c ∧ c ≤ '9')]

theorem not_digit_of_isNameStart (h : isNameStart c = true) : ¬('0' ≤ c ∧ c ≤ '9') := by
  rintro ⟨-, hdigit⟩
  rcases isNameStart_iff.mp h with ⟨hletter, -⟩ | rfl
  · exact absurd (Char.le_trans hletter hdigit) (by decide)
  · exact absurd hdigit (by decide)

theorem isPlainWord_cons_iff :
    IsPlainWord (c :: cs) ↔ isNameStart c = true ∧ ∀ d ∈ cs, isNameChar d = true := by
  constructor
  · intro h
    refine ⟨isNameStart_iff.mpr ?_, fun d hd =>
      isNameChar_iff.mpr (h.chars d (List.mem_cons_of_mem c hd))⟩
    rcases h.chars c List.mem_cons_self with hletter | hdigit | hline
    · exact Or.inl hletter
    · exact absurd hdigit (h.start c rfl)
    · exact Or.inr hline
  · rintro ⟨hstart, hrest⟩
    refine ⟨List.cons_ne_nil c cs, fun d hd => isNameChar_iff.mp ?_, ?_⟩
    · rcases List.mem_cons.mp hd with rfl | hd
      · rw [isNameChar, hstart, Bool.true_or]
      · exact hrest d hd
    · rintro d hd
      obtain rfl := Option.some.inj hd
      exact not_digit_of_isNameStart hstart

theorem IsPlainWord.not_mem (h : IsPlainWord cs) (hc : isNameChar c = false) : c ∉ cs := by
  intro hmem
  rw [isNameChar_iff.mpr (h.chars c hmem)] at hc
  cases hc

/-- A name may end behind its last character, or behind a line feed that follows it. -/
theorem endsName_iff : endsName cs = true ↔
    ∃ word, (∀ c ∈ word, isNameChar c = true) ∧ (cs = word ∨ cs = word ++ ['\n']) := by
  induction cs using endsName.induct with
  | case1 => simp [endsName]
  | case2 => exact ⟨fun _ => ⟨[], by simp⟩, fun _ => rfl⟩
  | case3 c rest hne ih =>
      have hstep : endsName (c :: rest) = (isNameChar c && endsName rest) := by
        rw [endsName]
        exact hne
      rw [hstep, Bool.and_eq_true, ih]
      constructor
      · rintro ⟨hc, word, hword, hrest⟩
        refine ⟨c :: word, List.forall_mem_cons.mpr ⟨hc, hword⟩, ?_⟩
        exact hrest.imp (congrArg _) (congrArg _)
      · rintro ⟨word, hword, hrest⟩
        cases word with
        | nil =>
            rcases hrest with hnil | hbreak
            · cases hnil
            · obtain ⟨rfl, rfl⟩ := List.cons.inj hbreak
              exact absurd rfl (hne rfl)
        | cons d word =>
            obtain ⟨hd, htail⟩ := List.forall_mem_cons.mp hword
            simp only [List.cons_append, List.cons.injEq] at hrest
            obtain ⟨rfl, hrest⟩ | ⟨rfl, hrest⟩ := hrest
            · exact ⟨hd, word, htail, Or.inl hrest⟩
            · exact ⟨hd, word, htail, Or.inr hrest⟩

theorem isSimpleName_iff : isSimpleName cs = true ↔
    IsPlainWord cs ∨ ∃ word, IsPlainWord word ∧ cs = word ++ ['\n'] := by
  cases cs with
  | nil => simp [isSimpleName, show ¬IsPlainWord [] from fun h => h.ne_nil rfl]
  | cons c cs =>
      rw [isSimpleName, Bool.and_eq_true, endsName_iff, isPlainWord_cons_iff]
      constructor
      · rintro ⟨hstart, word, hword, rfl | rfl⟩
        · exact Or.inl ⟨hstart, hword⟩
        · exact Or.inr ⟨c :: word, isPlainWord_cons_iff.mpr ⟨hstart, hword⟩, rfl⟩
      · rintro (⟨hstart, hrest⟩ | ⟨word, hword, hsplit⟩)
        · exact ⟨hstart, cs, hrest, Or.inl rfl⟩
        · cases word with
          | nil => exact absurd rfl hword.ne_nil
          | cons d word =>
              obtain ⟨rfl, rfl⟩ := List.cons.inj hsplit
              obtain ⟨hstart, hrest⟩ := isPlainWord_cons_iff.mp hword
              exact ⟨hstart, word, hrest, Or.inr rfl⟩

theorem lineFeed_not_mem_reservedWords (h : name ∈ reservedWords) : '\n' ∉ name.toList := by
  have hall : (reservedWords.all fun w => !w.toList.contains '\n') = true := by decide
  simpa using List.all_eq_true.mp hall name h

theorem IsBrokenWord.not_isPlainWord (h : IsBrokenWord name) : ¬IsPlainWord name.toList := by
  obtain ⟨word, -, hname⟩ := h
  intro hplain
  exact hplain.not_mem (c := '\n') (by decide) (by simp [hname])

/-- Every name is a plain word that is not reserved, or a plain word with a line feed, or is written
with quotes. -/
theorem quote_cases (name : String) :
    (IsPlainWord name.toList ∧ name ∉ reservedWords ∧ quote name = name) ∨
      (IsBrokenWord name ∧ quote name = name) ∨
      (¬IsBrokenWord name ∧
        quote name = String.ofList ('"' :: doubleQuotes name.toList ++ ['"'])) := by
  by_cases hbroken : IsBrokenWord name
  · have hreserved : name ∉ reservedWords := by
      intro hmem
      obtain ⟨word, -, hname⟩ := hbroken
      exact lineFeed_not_mem_reservedWords hmem (by simp [hname])
    have hsimple := isSimpleName_iff.mpr (Or.inr hbroken)
    exact Or.inr (Or.inl ⟨hbroken, by simp [quote, hsimple, hreserved]⟩)
  · by_cases hplain : IsPlainWord name.toList ∧ name ∉ reservedWords
    · have hsimple := isSimpleName_iff.mpr (Or.inl hplain.1)
      exact Or.inl ⟨hplain.1, hplain.2, by simp [quote, hsimple, hplain.2]⟩
    · refine Or.inr (Or.inr ⟨hbroken, if_neg fun hbare => hplain ?_⟩)
      rw [Bool.and_eq_true, isSimpleName_iff] at hbare
      exact ⟨hbare.1.resolve_right hbroken, by simpa using hbare.2⟩

theorem doublesQuotes_doubleQuotes (cs : List Char) : DoublesQuotes (doubleQuotes cs) cs := by
  induction cs with
  | nil => exact .nil
  | cons c cs ih =>
      rw [doubleQuotes]
      split
      · rename_i hquote
        exact hquote ▸ ih.pair
      · rename_i hchar
        exact ih.char hchar

theorem readQuoted_of_doublesQuotes (h : DoublesQuotes body cs)
    (hrest : ∀ c ∈ rest.head?, c ≠ '"') :
    readQuoted (body ++ '"' :: rest) = some (cs, rest) := by
  induction h with
  | nil =>
      cases rest with
      | nil => rfl
      | cons c rest => simp [readQuoted, hrest c rfl]
  | pair _ ih => simp [readQuoted, ih]
  | char hc _ ih => simp [readQuoted, hc, ih]

theorem IsPlainWord.head?_ne_quote (h : IsPlainWord cs) : cs.head? ≠ some '"' := fun hhead =>
  h.not_mem (c := '"') (by decide) (List.mem_of_head? hhead)

theorem readIdentifier_of_isPlainWord (h : IsPlainWord name.toList) (hname : name ∉ reservedWords)
    (hrest : EndsIdentifier rest) :
    readIdentifier (name.toList ++ rest) = some (name.toList, rest) := by
  have hchars : ∀ c ∈ name.toList, isNameChar c = true := fun c hc =>
    isNameChar_iff.mpr (h.chars c hc)
  have hafter : rest.takeWhile isNameChar = [] ∧ rest.dropWhile isNameChar = rest := by
    cases rest with
    | nil => exact ⟨rfl, rfl⟩
    | cons c rest => simp [(hrest c rfl).2]
  have htake : (name.toList ++ rest).takeWhile isNameChar = name.toList := by
    rw [List.takeWhile_append_of_pos hchars, hafter.1, List.append_nil]
  have hdrop : (name.toList ++ rest).dropWhile isNameChar = rest := by
    rw [List.dropWhile_append_of_pos hchars, hafter.2]
  have hsimple := isSimpleName_iff.mpr (Or.inl h)
  unfold readIdentifier
  split
  · rename_i after hquote
    have hhead := congrArg List.head? hquote
    rw [List.head?_append_of_ne_nil _ h.ne_nil] at hhead
    exact absurd hhead h.head?_ne_quote
  · simp [htake, hdrop, hsimple, hname]

/-- An identifier is read off the text that it begins, and read as the name that it denotes. -/
theorem IsIdentifier.readIdentifier_append (h : IsIdentifier text name)
    (hrest : EndsIdentifier rest) :
    readIdentifier (text.toList ++ rest) = some (name.toList, rest) := by
  cases h with
  | bare hplain hname => exact readIdentifier_of_isPlainWord hplain hname hrest
  | @quoted body _ hbody =>
      rw [String.toList_ofList, List.cons_append, List.cons_append, List.append_assoc,
        List.singleton_append]
      exact readQuoted_of_doublesQuotes hbody fun c hc => (hrest c hc).1

theorem IsIdentifier.unique {name' : String} (h : IsIdentifier text name)
    (h' : IsIdentifier text name') : name = name' := by
  have hend : EndsIdentifier [] := by simp [EndsIdentifier]
  have hread := (h.readIdentifier_append hend).symm.trans (h'.readIdentifier_append hend)
  exact String.toList_inj.mp (Prod.mk.inj (Option.some.inj hread)).1

theorem IsBrokenWord.not_isIdentifier (h : IsBrokenWord name) : ¬IsIdentifier name name := by
  intro hidentifier
  generalize htext : name = text at hidentifier
  cases hidentifier with
  | bare hplain _ => exact h.not_isPlainWord (htext ▸ hplain)
  | quoted _ =>
      obtain ⟨word, hword, hname⟩ := h
      have hhead := congrArg (fun text : String => text.toList.head?) htext
      simp only [hname, String.toList_ofList, List.head?_append_of_ne_nil _ hword.ne_nil] at hhead
      exact absurd hhead hword.head?_ne_quote

theorem quote_of_isBrokenWord (h : IsBrokenWord name) : quote name = name := by
  rcases quote_cases name with ⟨-, -, hquote⟩ | ⟨-, hquote⟩ | ⟨hbroken, -⟩
  · exact hquote
  · exact hquote
  · exact absurd h hbroken

theorem isIdentifier_quote (h : ¬IsBrokenWord name) : IsIdentifier (quote name) name := by
  rcases quote_cases name with ⟨hplain, hname, hquote⟩ | ⟨hbroken, -⟩ | ⟨-, hquote⟩
  · rw [hquote]
    exact .bare hplain hname
  · exact absurd hbroken h
  · rw [hquote]
    exact .quoted (doublesQuotes_doubleQuotes name.toList)

/-- The written form of a name is one identifier that denotes the name, wherever it stands, unless
the name is a plain word with a line feed behind it. Such a name is written as it is. -/
theorem quote_isIdentifier_iff (name : String) :
    (IsIdentifier (quote name) name ↔ ¬IsBrokenWord name) ∧
      (¬IsBrokenWord name → ∀ rest, EndsIdentifier rest →
        readIdentifier ((quote name).toList ++ rest) = some (name.toList, rest)) ∧
      (IsBrokenWord name → quote name = name) := by
  refine ⟨⟨fun hidentifier hbroken => ?_, isIdentifier_quote⟩, fun hbroken rest hrest => ?_,
    quote_of_isBrokenWord⟩
  · rw [quote_of_isBrokenWord hbroken] at hidentifier
    exact hbroken.not_isIdentifier hidentifier
  · exact (isIdentifier_quote hbroken).readIdentifier_append hrest

theorem lineFeeds_isIdentifier :
    ¬IsBrokenWord "a\"\n" ∧ IsIdentifier "\"a\"\"\n\"" "a\"\n" := by
  have hquote : quote "a\"\n" = "\"a\"\"\n\"" := by decide
  have hbroken : ¬IsBrokenWord "a\"\n" := fun h =>
    absurd (isSimpleName_iff.mpr (Or.inr h)) (by decide)
  exact ⟨hbroken, hquote ▸ (quote_isIdentifier_iff _).1.mpr hbroken⟩

/-- The line feed is left without quotes. -/
theorem brokenWord_not_isIdentifier : quote "a\n" = "a\n" ∧ ¬IsIdentifier (quote "a\n") "a\n" := by
  have hbroken : IsBrokenWord "a\n" := by
    refine ⟨['a'], isPlainWord_cons_iff.mpr ⟨by decide, by simp⟩, by simp⟩
  rw [quote_of_isBrokenWord hbroken]
  exact ⟨rfl, hbroken.not_isIdentifier⟩

end Glossary.Sql
