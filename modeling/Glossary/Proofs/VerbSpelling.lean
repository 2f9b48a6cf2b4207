import Glossary.Proofs.Declarations
import Glossary.Proofs.Outlines

/-!
A dictionary is answered with its terms or with what is wrong in it, unless reading comes to a verb
that is spelled with a lookalike of one of its letters.
-/

namespace Glossary.Dictionary

open Text Fallible

variable {primitives : Primitives} {name body text : String} {line : Nat} {d : Declared}
  {e : ParseError} {b : Block} {bs : List Block}

/-- The text makes a statement about the name with a lookalike in its verb. -/
def MisspellsVerb (name body : String) : Prop :=
  ∃ subject verb object, CutsAtVerb (words body.toList) subject verb object ∧
    Name.key (String.ofList (joinWords subject)) = Name.key name ∧
    ∃ w ∈ verb, ∃ c ∈ w, c ∈ lookalikes

theorem key_tokensText {ts : List Token} (hts : AreTokens ts) :
    Name.key (String.ofList (tokensText ts)) =
      Name.key (String.ofList (joinWords (ts.map Token.word))) := by
  have hwords : ∀ w ∈ ts.map Token.word, IsWord w := List.forall_mem_map.mpr hts.isWord
  simp only [Name.key, collapse, String.toList_ofList, words_tokensText hts, words_joinWords hwords]

theorem Declared.addStatement_eq_unknownVerb_iff_misspellsVerb :
    d.addStatement primitives name line body = .error .unknownVerb ↔ MisspellsVerb name body := by
  have htokens := areTokens_tokens body.toList
  rw [addStatement_eq_unknownVerb_iff]
  constructor
  · rintro ⟨s, hs, hkey, hverb⟩
    obtain ⟨entry, front, phrase, back, hsplit, hentry, hreads, hcut, rfl⟩ :=
      Statement.ofText?_eq_some_iff.mp hs
    rw [hsplit, List.append_assoc] at htokens
    refine ⟨_, _, _, hcut, ?_, (verbOf_eq_none_iff hentry hreads).mp hverb⟩
    rw [← key_tokensText htokens.of_append, hkey]
  · rintro ⟨subject, verb, object, hcut, hkey, hlookalike⟩
    obtain ⟨front, phrase, back, hsplit, rfl, rfl, rfl⟩ := exists_tokens_split hcut.words_eq
    obtain ⟨entry, hentry, hreads⟩ := hcut.isVerb
    refine ⟨_, Statement.ofText?_eq_some_iff.mpr
      ⟨entry, front, phrase, back, hsplit, hentry, hreads, hcut, rfl⟩, ?_, ?_⟩
    · rw [hsplit, List.append_assoc] at htokens
      rw [key_tokensText htokens.of_append, hkey]
    · exact (verbOf_eq_none_iff hentry hreads).mpr hlookalike

/-- Reading comes as far as this statement of this block, and its verb is misspelled. -/
structure StopsAt (primitives : Primitives) (text : String) (b : Block) (line : Nat)
    (body : String) : Prop where
  exists_before : ∃ before after terms, blocks text.toList = .ok (before ++ b :: after) ∧
    before.foldlM (addTerm primitives) [] = .ok terms
  key_fresh : primitives.contains (Name.key b.name) = false
  definition_ne : b.definition ≠ []
  exists_read : ∃ read rest declared, b.statements = read ++ (line, body) :: rest ∧
    Declared.nothing.addStatements primitives b.name read = .ok declared
  misspells : MisspellsVerb b.name body

theorem Block.term_eq_unknownVerb_iff :
    b.term primitives = .error e ∧ e.fault = .unknownVerb ↔
      primitives.contains (Name.key b.name) = false ∧ b.definition ≠ [] ∧
        Declared.nothing.addStatements primitives b.name b.statements = .error e ∧
        e.fault = .unknownVerb := by
  unfold Block.term
  constructor
  · rintro ⟨h, hfault⟩
    split at h
    · obtain rfl := Except.error.inj h
      cases hfault
    · rename_i hfresh
      split at h
      · obtain rfl := Except.error.inj h
        cases hfault
      · rename_i hdefinition
        rcases bind_eq_error_iff.mp h with h | ⟨d, -, h⟩
        · exact ⟨by simpa using hfresh, by simpa using hdefinition, h, hfault⟩
        · split at h
          · split at h
            · obtain rfl := Except.error.inj h
              cases hfault
            · cases h
          · cases h
  · rintro ⟨hfresh, hdefinition, h, hfault⟩
    rw [if_neg (by simp [hfresh]), if_neg (by simpa using hdefinition)]
    exact ⟨bind_eq_error_iff.mpr (Or.inl h), hfault⟩

theorem addTerm_eq_unknownVerb_iff {before : List Term} :
    addTerm primitives before b = .error e ∧ e.fault = .unknownVerb ↔
      b.term primitives = .error e ∧ e.fault = .unknownVerb := by
  unfold addTerm
  constructor
  · rintro ⟨h, hfault⟩
    rcases bind_eq_error_iff.mp h with h | ⟨t, -, h⟩
    · exact ⟨h, hfault⟩
    · split at h
      · obtain rfl := Except.error.inj h
        cases hfault
      · cases h
  · rintro ⟨h, hfault⟩
    exact ⟨bind_eq_error_iff.mpr (Or.inl h), hfault⟩

theorem exists_unknownVerb_iff :
    (∃ e, terms primitives text = .error e ∧ e.fault = .unknownVerb) ↔
      ∃ b line body, StopsAt primitives text b line body := by
  unfold terms
  constructor
  · rintro ⟨e, h, hfault⟩
    split at h
    · obtain rfl := Except.error.inj h
      cases hfault
    · rename_i bs hbs
      obtain ⟨before, b, after, reached, rfl, hbefore, hadd⟩ := foldlM_eq_error_iff.mp h
      obtain ⟨hterm, -⟩ := addTerm_eq_unknownVerb_iff.mp ⟨hadd, hfault⟩
      obtain ⟨hfresh, hdefinition, hstatements, -⟩ :=
        Block.term_eq_unknownVerb_iff.mp ⟨hterm, hfault⟩
      obtain ⟨read, line, body, rest, declared, fault, hsplit, hread, hstatement, rfl⟩ :=
        Declared.addStatements_eq_error_iff.mp hstatements
      obtain rfl : fault = .unknownVerb := hfault
      exact ⟨b, line, body, ⟨before, after, reached, hbs, hbefore⟩, hfresh, hdefinition,
        ⟨read, rest, declared, hsplit, hread⟩,
        Declared.addStatement_eq_unknownVerb_iff_misspellsVerb.mp hstatement⟩
  · rintro ⟨b, line, body, ⟨before, after, reached, hbs, hbefore⟩, hfresh, hdefinition,
      ⟨read, rest, declared, hsplit, hread⟩, hmisspells⟩
    have hstatements := Declared.addStatements_eq_error_iff.mpr ⟨read, line, body, rest, declared,
      .unknownVerb, hsplit, hread,
      Declared.addStatement_eq_unknownVerb_iff_misspellsVerb.mpr hmisspells, rfl⟩
    obtain ⟨hterm, hfault⟩ :=
      Block.term_eq_unknownVerb_iff.mpr ⟨hfresh, hdefinition, hstatements, rfl⟩
    obtain ⟨hadd, -⟩ := addTerm_eq_unknownVerb_iff.mpr ⟨hterm, hfault⟩
    refine ⟨_, ?_, hfault⟩
    rw [hbs]
    exact foldlM_eq_error_iff.mpr ⟨before, b, after, reached, rfl, hbefore, hadd⟩

/-- The terms are found, or it is told what is wrong and where. -/
def IsAnswered (result : Except ParseError (List Term)) : Prop :=
  (∃ ts, result = .ok ts) ∨ ∃ e reason, result = .error e ∧
    (e.diagnostic? = some (.malformed reason e.block (some e.line)) ∨
      e.diagnostic? = some (.duplicate reason e.block (some e.line)))

theorem isAnswered_iff {result : Except ParseError (List Term)} :
    IsAnswered result ↔ ¬∃ e, result = .error e ∧ e.fault = .unknownVerb := by
  cases result with
  | ok ts => simp [IsAnswered]
  | error e =>
      obtain ⟨fault, block, line⟩ := e
      cases fault <;> simp [IsAnswered, ParseError.diagnostic?]

section Letters

variable {c : Char}

theorem mem_of_mem_bullet? {line body : List Char} (h : bullet? line = some body) (hc : c ∈ body) :
    c ∈ line := by
  unfold bullet? at h
  split at h
  · rename_i mark blank rest hline
    split at h
    · obtain rfl := Option.some.inj h
      have hrest : c ∈ trimStart line := by
        rw [hline]
        simp [mem_of_mem_trim hc]
      exact (List.dropWhile_suffix isBlank).mem hrest
    · cases h
  · cases h

theorem LineShape.bullet?_of_bullet {line body : List Char}
    (h : LineShape.ofLine? line = some (.bullet body)) : bullet? line = some body := by
  unfold LineShape.ofLine? at h
  split at h
  · cases h
  · split at h
    · cases h
    · split at h
      · rename_i found hfound
        rw [hfound, LineShape.bullet.inj (Option.some.inj h)]
      · cases h

/-- The statements of the blocks are written with the letters of the text. -/
theorem isKept_letters (ls : List (List Char)) : Outline.IsKept ls fun _ b =>
    ∀ s ∈ b.statements, ∀ c ∈ s.2.toList, ∃ line ∈ ls, c ∈ line where
  passed _ _ hb := hb
  heading _ _ _ := by simp
  bullet number b body hshape hb := by
    obtain ⟨line, hline, hshape⟩ := hshape
    refine List.forall_mem_append.mpr ⟨hb, List.forall_mem_singleton.mpr fun c hc => ?_⟩
    rw [String.toList_ofList] at hc
    exact ⟨line, hline, mem_of_mem_bullet? (LineShape.bullet?_of_bullet hshape) hc⟩
  plain _ _ _ _ hb := hb

theorem StopsAt.exists_lookalike (h : StopsAt primitives text b line body) :
    ∃ c ∈ text.toList, c ∈ lookalikes := by
  obtain ⟨before, after, -, hblocks, -⟩ := h.exists_before
  obtain ⟨read, rest, -, hstatements, -⟩ := h.exists_read
  obtain ⟨subject, verb, object, hcut, -, w, hw, c, hc, hlookalike⟩ := h.misspells
  have hbody : c ∈ body.toList := by
    refine mem_of_mem_words (w := w) ?_ hc
    rw [hcut.words_eq]
    simp [hw]
  have hletters := forall_mem_blocks (isKept_letters _) hblocks b (by simp)
  obtain ⟨l, hl, hcl⟩ := hletters (line, body) (by simp [hstatements]) c hbody
  exact ⟨c, mem_of_mem_lines hl hcl, hlookalike⟩

end Letters

/-- A dictionary is answered unless reading stops at a misspelled verb. So it is always answered if
it has no letter that looks like one of a verb. -/
theorem terms_isAnswered_iff (primitives : Primitives) (text : String) :
    (IsAnswered (terms primitives text) ↔ ¬∃ b line body, StopsAt primitives text b line body) ∧
      ((∀ c ∈ text.toList, c ∉ lookalikes) → IsAnswered (terms primitives text)) := by
  have hiff : IsAnswered (terms primitives text) ↔
      ¬∃ b line body, StopsAt primitives text b line body := by
    rw [isAnswered_iff, exists_unknownVerb_iff]
  refine ⟨hiff, fun hletters => hiff.mpr ?_⟩
  rintro ⟨b, line, body, hstops⟩
  obtain ⟨c, hc, hlookalike⟩ := hstops.exists_lookalike
  exact hletters c hc hlookalike

theorem car_isAnswered :
    (∀ c ∈ "# Car\nA car.\n- Car HAS a Wheel\n".toList, c ∉ lookalikes) ∧
      IsAnswered (terms (.ofNames builtInPrimitives) "# Car\nA car.\n- Car HAS a Wheel\n") := by
  have hall : ("# Car\nA car.\n- Car HAS a Wheel\n".toList.all fun c => !lookalikes.contains c) =
      true := by decide
  have hletters : ∀ c ∈ "# Car\nA car.\n- Car HAS a Wheel\n".toList, c ∉ lookalikes := by
    intro c hc
    simpa using List.all_eq_true.mp hall c hc
  exact ⟨hletters, (terms_isAnswered_iff _ _).2 hletters⟩

/-- With a long s at its end the verb reads as before, but it is not answered. -/
theorem misspelledCar_isNotAnswered :
    ¬IsAnswered (terms (.ofNames builtInPrimitives) "# Car\nA car.\n- Car haſ a Wheel\n") := by
  rw [isAnswered_iff]
  exact fun hanswered => hanswered ⟨_, rfl, rfl⟩

end Glossary.Dictionary
