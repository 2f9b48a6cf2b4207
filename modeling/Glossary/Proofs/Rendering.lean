import Glossary.Proofs.ParsedTerms
import Glossary.Proofs.WrittenLines

/-!
Terms that are written down as a dictionary are read back as they were, each with the lines on which
it stands.
-/

namespace Glossary

open Text Dictionary

/-- What a term states, one sentence for each relationship and one for the identifier. -/
def Term.sentences (t : Term) : List String :=
  t.relationships.map Relationship.sentence ++
    (t.declaredIdentifier.map fun identifier => t.name ++ " is identified by " ++ identifier).toList

/-- The lines that declare a term. -/
def Term.entry (t : Term) : List String :=
  ("# " ++ t.name) :: t.definition :: t.sentences.map fun sentence => "- " ++ sentence

/-- Relationships on lines one below the other. -/
def Relationship.placed (line : Nat) (rs : List Relationship) : List Relationship :=
  (rs.zipIdx line).map fun r => { r.1 with line := some (r.2 : Int) }

/-- The term of an entry whose heading stands on this line. -/
def Term.placed (line : Nat) (t : Term) : Term :=
  { t with
    relationships := Relationship.placed (line + 2) t.relationships
    line := some (line : Int) }

/-- Statements on lines one below the other. -/
def Dictionary.numbered (line : Nat) (bodies : List String) : List (Nat × String) :=
  (bodies.zipIdx line).map fun s => (s.2, s.1)

/-- The block of an entry whose heading stands on this line. -/
def Term.block (line : Nat) (t : Term) : Block :=
  ⟨t.name, line, [t.definition], numbered (line + 2) t.sentences⟩

/-- The terms with the lines of their headings, one entry below the other. -/
def Dictionary.headings : Nat → List Term → List (Nat × Term)
  | _, [] => []
  | line, t :: ts => (line, t) :: headings (line + t.entry.length) ts

/-- The text that declares the terms, with all lines ended. -/
def Dictionary.rendered (ts : List Term) : String :=
  String.join ((ts.flatMap Term.entry).map fun line => line ++ "\n")

/-- The terms on the lines on which they are rendered. -/
def Dictionary.placed (ts : List Term) : List Term :=
  (headings 1 ts).map fun h => h.2.placed h.1

/-- The names of the term are plain, its own name hides no verb, and its definition is a line that
is neither a heading nor a bullet. -/
structure Term.IsPlain (t : Term) : Prop where
  name : IsPlainName t.name
  name_verb : HidesNoVerb t.name
  target : ∀ r ∈ t.relationships, IsPlainName r.target
  identifier : ∀ i, t.declaredIdentifier = some i → IsPlainName i
  definition_line : ∀ c ∈ t.definition.toList, isLineBreak c = false
  definition_heading : heading? t.definition.toList = none
  definition_bullet : bullet? t.definition.toList = none

namespace Dictionary

open Fallible

variable {primitives : Primitives} {name body text : String} {line : Nat} {d : Declared}
  {t : Term} {ts : List Term} {rs : List Relationship} {r : Relationship} {bodies : List String}
  {closed : List Block} {b : Block}

section Sentences

/-- The verb phrase that a relation is written with. -/
def phraseOf : Relation → List String × Verb
  | .inherits => (["is", "a"], .relates .inherits)
  | .composes => (["has", "a"], .relates .composes)
  | .requires => (["must", "have", "a"], .relates .requires)
  | .primitiveType => (["is", "a"], .relates .inherits)

theorem phraseOf_mem (relation : Relation) : phraseOf relation ∈ verbPhrases := by
  cases relation <;> decide

theorem isStatement_sentence (hname : IsPlainName r.source) (hhides : HidesNoVerb r.source)
    (htarget : IsPlainName r.target) :
    IsStatement r.sentence ⟨r.source, some (phraseOf r.relation).2, r.target⟩ := by
  refine isStatement_of_isPlainName hname hhides (phraseOf_mem r.relation) ?_ htarget
  cases r.relation <;> rfl

theorem isStatement_identifiedBy {identifier : String} (hname : IsPlainName name)
    (hhides : HidesNoVerb name) (hidentifier : IsPlainName identifier) :
    IsStatement (name ++ " is identified by " ++ identifier)
      ⟨name, some .identifiedBy, identifier⟩ := by
  have hentry : (["is", "identified", "by"], Verb.identifiedBy) ∈ verbPhrases := by decide
  have hverb : " is identified by " = " " ++ "is identified by" ++ " " := rfl
  rw [hverb, ← String.append_assoc, ← String.append_assoc]
  exact isStatement_of_isPlainName hname hhides hentry rfl hidentifier

/-- A term whose names are plain states what its sentences say. -/
theorem exists_isStatement_of_mem_sentences (ht : t.IsPlain)
    (hsource : ∀ r ∈ t.relationships, r.source = t.name) (hbody : body ∈ t.sentences) :
    ∃ s, IsStatement body s := by
  rcases List.mem_append.mp hbody with hbody | hbody
  · obtain ⟨r, hr, rfl⟩ := List.mem_map.mp hbody
    have hname := hsource r hr
    exact ⟨_, isStatement_sentence (hname ▸ ht.name) (hname ▸ ht.name_verb) (ht.target r hr)⟩
  · obtain ⟨i, hi, rfl⟩ := Option.map_eq_some_iff.mp (Option.mem_toList.mp hbody)
    exact ⟨_, isStatement_identifiedBy ht.name ht.name_verb (ht.identifier i hi)⟩

end Sentences

section Declarations

/-- A sentence about a target that was not mentioned before adds its relationship. -/
theorem addStatement_sentence (hname : IsPlainName r.source) (hhides : HidesNoVerb r.source)
    (htarget : IsPlainName r.target) (huntyped : r.relation ≠ .primitiveType)
    (hparent : r.relation = .inherits → primitives.spelling? r.targetKey = none)
    (hfresh : r.targetKey ∉ d.relationships.map Relationship.targetKey) :
    d.addStatement primitives r.source line r.sentence =
      .ok { d with relationships := d.relationships ++ [{ r with line := some (line : Int) }] } := by
  have hreads := (isStatement_sentence hname hhides htarget).reads
  have hdisplay : Name.display r.target = r.target := htarget.display_eq
  have hverb : (phraseOf r.relation).2 = .relates r.relation := by
    cases hrelation : r.relation with
    | primitiveType => exact absurd hrelation huntyped
    | _ => rfl
  refine Declared.addStatement_eq_ok_iff.mpr ⟨_, hreads, rfl, ?_⟩
  have htakes : d.Takes primitives r.source line
      ⟨r.source, some (phraseOf r.relation).2, r.target⟩ { d with relationships :=
        d.relationships ++ [⟨r.relation, r.source, Name.display r.target, some line⟩] } := by
    refine .related r.relation (congrArg some hverb) ?_ ?_
    · rw [hdisplay]
      exact hparent
    · rw [hdisplay]
      exact hfresh
  rwa [hdisplay] at htakes

/-- A sentence that gives a primitive type adds the type and the relationship. -/
theorem addStatement_typed (hname : IsPlainName r.source) (hhides : HidesNoVerb r.source)
    (htarget : IsPlainName r.target) (htyped : r.relation = .primitiveType)
    (hspelling : primitives.spelling? r.targetKey = some r.target) :
    Declared.nothing.addStatement primitives r.source line r.sentence =
      .ok ⟨some r.target, none, [{ r with line := some (line : Int) }]⟩ := by
  have hreads := (isStatement_sentence hname hhides htarget).reads
  have hdisplay : Name.display r.target = r.target := htarget.display_eq
  refine Declared.addStatement_eq_ok_iff.mpr ⟨_, hreads, rfl, ?_⟩
  rw [htyped]
  refine .typed r.target rfl ?_ rfl List.not_mem_nil
  rw [hdisplay]
  exact hspelling

theorem addStatement_identifiedBy {identifier : String} (hname : IsPlainName name)
    (hhides : HidesNoVerb name) (hidentifier : IsPlainName identifier)
    (hkey : Name.key identifier ≠ Name.key name) (hfirst : d.identifier = none) :
    d.addStatement primitives name line (name ++ " is identified by " ++ identifier) =
      .ok { d with identifier := some identifier } := by
  have hreads := (isStatement_identifiedBy hname hhides hidentifier).reads
  have hdisplay : Name.display identifier = identifier := hidentifier.display_eq
  refine Declared.addStatement_eq_ok_iff.mpr ⟨_, hreads, rfl, ?_⟩
  have htakes : d.Takes primitives name line ⟨name, some .identifiedBy, identifier⟩
      { d with identifier := some (Name.display identifier) } := by
    refine .identifier rfl hfirst ?_
    rw [hdisplay]
    exact hkey
  rwa [hdisplay] at htakes

theorem numbered_cons (line : Nat) (body : String) (bodies : List String) :
    numbered line (body :: bodies) = (line, body) :: numbered (line + 1) bodies := by
  simp [numbered]

theorem numbered_append (line : Nat) (bodies bodies' : List String) :
    numbered line (bodies ++ bodies') =
      numbered line bodies ++ numbered (line + bodies.length) bodies' := by
  simp [numbered, List.zipIdx_append]

theorem placed_cons (line : Nat) (r : Relationship) (rs : List Relationship) :
    Relationship.placed line (r :: rs) =
      { r with line := some (line : Int) } :: Relationship.placed (line + 1) rs := by
  simp [Relationship.placed]

theorem addStatements_sentences (hname : IsPlainName name) (hhides : HidesNoVerb name)
    (hsource : ∀ r ∈ rs, r.source = name) (htarget : ∀ r ∈ rs, IsPlainName r.target)
    (huntyped : ∀ r ∈ rs, r.relation ≠ .primitiveType)
    (hparent : ∀ r ∈ rs, r.relation = .inherits → primitives.spelling? r.targetKey = none)
    (hnodup : ((d.relationships ++ rs).map Relationship.targetKey).Nodup) :
    d.addStatements primitives name (numbered line (rs.map Relationship.sentence)) =
      .ok { d with relationships := d.relationships ++ Relationship.placed line rs } := by
  induction rs generalizing d line with
  | nil => simp [numbered, Relationship.placed, Declared.addStatements]
  | cons r rs ih =>
      obtain ⟨hsource, hsources⟩ := List.forall_mem_cons.mp hsource
      obtain ⟨htarget, htargets⟩ := List.forall_mem_cons.mp htarget
      obtain ⟨huntyped, huntypeds⟩ := List.forall_mem_cons.mp huntyped
      obtain ⟨hparent, hparents⟩ := List.forall_mem_cons.mp hparent
      subst hsource
      have hfresh : r.targetKey ∉ d.relationships.map Relationship.targetKey := by
        rw [List.map_append, List.map_cons, List.nodup_append] at hnodup
        exact fun hmem => hnodup.2.2 _ hmem _ List.mem_cons_self rfl
      rw [List.map_cons, numbered_cons, placed_cons]
      refine Declared.addStatements_cons_eq_ok_iff.mpr
        ⟨_, addStatement_sentence hname hhides htarget huntyped hparent hfresh, ?_⟩
      rw [List.append_cons _ _ (Relationship.placed (line + 1) rs)]
      refine ih hsources htargets huntypeds hparents ?_
      rw [List.append_cons, List.map_append, List.map_append] at hnodup
      rw [List.map_append, List.map_append]
      exact hnodup

/-- The sentences of a term declare what the term declares. -/
theorem addStatements_term (hwf : t.IsWellFormed primitives) (ht : t.IsPlain) (line : Nat) :
    Declared.nothing.addStatements primitives t.name (numbered line t.sentences) =
      .ok ⟨t.declaredType, t.declaredIdentifier, Relationship.placed line t.relationships⟩ := by
  have hconsistent := hwf.consistent
  cases htype : t.declaredType with
  | some type =>
      obtain ⟨r, hr, htyped⟩ := hconsistent.typed_iff.mpr (Option.isSome_of_mem htype)
      obtain ⟨hlength, hidentifier⟩ := hwf.typed_alone (Option.isSome_of_mem htype)
      obtain ⟨r', hrelationships⟩ := List.length_eq_one_iff.mp hlength
      obtain rfl : r = r' := by
        rw [show t.declared.relationships = [r'] from hrelationships] at hr
        exact List.mem_singleton.mp hr
      obtain ⟨htype', hspelling⟩ := hconsistent.type_eq r hr htyped
      obtain rfl : type = r.target := Option.some.inj (htype.symm.trans htype')
      have hsource : r.source = t.name := hconsistent.source_eq r hr
      rw [Term.sentences, hrelationships, hidentifier, ← hsource]
      refine Declared.addStatements_cons_eq_ok_iff.mpr ⟨_, addStatement_typed
        (hsource ▸ ht.name) (hsource ▸ ht.name_verb) (ht.target r hr) htyped hspelling, rfl⟩
  | none =>
      have huntyped : ∀ r ∈ t.relationships, r.relation ≠ .primitiveType := by
        intro r hr htyped
        have hsome := hconsistent.typed_iff.mp ⟨r, hr, htyped⟩
        rw [show t.declared.type = none from htype] at hsome
        cases hsome
      have hrelationships : Declared.nothing.addStatements primitives t.name
          (numbered line (t.relationships.map Relationship.sentence)) =
          .ok ⟨none, none, Relationship.placed line t.relationships⟩ :=
        addStatements_sentences ht.name ht.name_verb hconsistent.source_eq ht.target huntyped
          hconsistent.parent_notPrimitive hconsistent.targets_nodup
      rw [Term.sentences, numbered_append]
      refine Declared.addStatements_append_eq_ok_iff.mpr ⟨_, hrelationships, ?_⟩
      cases hidentifier : t.declaredIdentifier with
      | none => rfl
      | some identifier =>
          refine Declared.addStatements_cons_eq_ok_iff.mpr ⟨_, addStatement_identifiedBy ht.name
            ht.name_verb (ht.identifier identifier hidentifier)
            (hconsistent.identifier_ne identifier hidentifier) rfl, rfl⟩

theorem term_block (hwf : t.IsWellFormed primitives) (ht : t.IsPlain) (line : Nat) :
    (t.block line).term primitives = .ok (t.placed line) := by
  refine Block.term_eq_ok_iff.mpr ⟨hwf.key_fresh, by simp [Term.block], _,
    addStatements_term hwf ht (line + 2), ?_, ?_⟩
  · intro htyped
    obtain ⟨hlength, hidentifier⟩ := hwf.typed_alone htyped
    refine ⟨?_, hidentifier⟩
    simp [Relationship.placed, hlength]
  · simp [Term.placed, Term.block]

end Declarations

section Lines

theorem addLines_bullets (hbodies : ∀ body ∈ bodies, trim body.toList = body.toList) (line : Nat) :
    Outline.addLines ⟨closed, some b⟩ line
        (bodies.map fun body => ("- " ++ body).toList) =
      .ok ⟨closed, some { b with statements := b.statements ++ numbered line bodies }⟩ := by
  induction bodies generalizing b line with
  | nil => simp [Outline.addLines, numbered]
  | cons body bodies ih =>
      obtain ⟨hbody, hbodies⟩ := List.forall_mem_cons.mp hbodies
      have hfirst : Outline.addLine ⟨closed, some b⟩ line ("- " ++ body).toList =
          .ok ⟨closed, some (b.withStatement line body)⟩ := by
        rw [Outline.addLine, ofLine?_bullet hbody]
        simp [Block.withStatement]
      rw [numbered_cons, List.append_cons]
      exact bind_eq_ok_iff.mpr ⟨_, hfirst, ih hbodies (line + 1)⟩

theorem addLines_entry (hwf : t.IsWellFormed primitives) (ht : t.IsPlain) (o : Outline)
    (line : Nat) : o.addLines line (t.entry.map String.toList) =
      .ok ⟨o.blocks, some (t.block line)⟩ := by
  have hheading : ∀ number, o.addLine number ("# " ++ t.name).toList =
      .ok ⟨o.blocks, some ⟨t.name, number, [], []⟩⟩ := by
    intro number
    rw [Outline.addLine, ofLine?_heading ht.name]
  have hdefinition : Outline.addLine ⟨o.blocks, some ⟨t.name, line, [], []⟩⟩ (line + 1)
      t.definition.toList = .ok ⟨o.blocks, some ⟨t.name, line, [t.definition], []⟩⟩ := by
    rw [Outline.addLine, ofLine?_plain hwf.definition_ne hwf.definition_trimmed
      ht.definition_heading ht.definition_bullet]
    rfl
  have hbodies : ∀ body ∈ t.sentences, trim body.toList = body.toList := by
    intro body hbody
    obtain ⟨s, hs⟩ := exists_isStatement_of_mem_sentences ht hwf.consistent.source_eq hbody
    exact hs.trimmed
  refine bind_eq_ok_iff.mpr ⟨_, hheading line, bind_eq_ok_iff.mpr ⟨_, hdefinition, ?_⟩⟩
  rw [List.map_map]
  exact addLines_bullets hbodies (line + 2)

theorem addLines_entries (hts : ∀ t ∈ ts, t.IsWellFormed primitives ∧ t.IsPlain) (o : Outline)
    (line : Nat) : ∃ last, o.addLines line ((ts.flatMap Term.entry).map String.toList) = .ok last ∧
      last.blocks = o.blocks ++ (headings line ts).map fun h => h.2.block h.1 := by
  induction ts generalizing o line with
  | nil => exact ⟨o, rfl, by simp [headings]⟩
  | cons t ts ih =>
      obtain ⟨⟨hwf, ht⟩, hts⟩ := List.forall_mem_cons.mp hts
      obtain ⟨last, hlast, hblocks⟩ :=
        ih hts ⟨o.blocks, some (t.block line)⟩ (line + t.entry.length)
      refine ⟨last, ?_, ?_⟩
      · rw [List.flatMap_cons, List.map_append, Outline.addLines_append, List.length_map]
        exact bind_eq_ok_iff.mpr ⟨_, addLines_entry hwf ht o line, hlast⟩
      · rw [hblocks]
        simp [headings, Outline.blocks]

end Lines

theorem mem_of_mem_headings {h : Nat × Term} (hh : h ∈ headings line ts) : h.2 ∈ ts := by
  induction ts generalizing line with
  | nil => cases hh
  | cons t ts ih =>
      rcases List.mem_cons.mp hh with rfl | hh
      · exact List.mem_cons_self
      · exact List.mem_cons_of_mem t (ih hh)

theorem map_key_placed (line : Nat) (ts : List Term) :
    ((headings line ts).map fun h => h.2.placed h.1).map Term.key = ts.map Term.key := by
  induction ts generalizing line with
  | nil => rfl
  | cons t ts ih =>
      rw [headings, List.map_cons, List.map_cons, ih, List.map_cons]
      rfl

/-- A text with the lines of the terms declares the terms. -/
theorem terms_of_lines (hts : ∀ t ∈ ts, t.IsWellFormed primitives ∧ t.IsPlain)
    (hnodup : (ts.map Term.key).Nodup)
    (htext : lines text.toList = (ts.flatMap Term.entry).map String.toList) :
    terms primitives text = .ok (placed ts) := by
  obtain ⟨last, hlast, hblocks⟩ := addLines_entries hts Outline.empty 1
  refine terms_eq_ok_iff.mpr ⟨(headings 1 ts).map fun h => h.2.block h.1, ?_, ?_, ?_⟩
  · rw [blocks, htext, hlast]
    exact congrArg Except.ok hblocks
  · rw [placed, mapM_eq_ok_iff_forall₂, List.forall₂_map_left_iff, List.forall₂_map_right_iff,
      List.forall₂_same]
    intro h hh
    obtain ⟨hwf, ht⟩ := hts h.2 (mem_of_mem_headings hh)
    exact term_block hwf ht h.1
  · rw [placed, map_key_placed]
    exact hnodup

theorem oneLine_of_all {cs : List Char} (h : (cs.all fun c => !isLineBreak c) = true) :
    ∀ c ∈ cs, isLineBreak c = false := by
  simpa using h

theorem oneLine_of_mem_entry (hwf : t.IsWellFormed primitives) (ht : t.IsPlain) :
    ∀ line ∈ t.entry, line.toList ≠ [] ∧ ∀ c ∈ line.toList, isLineBreak c = false := by
  have hmarked : ∀ mark line : String, mark ≠ "" →
      (∀ c ∈ mark.toList, isLineBreak c = false) → (∀ c ∈ line.toList, isLineBreak c = false) →
        (mark ++ line).toList ≠ [] ∧ ∀ c ∈ (mark ++ line).toList, isLineBreak c = false := by
    intro mark line hne hmark hline
    rw [String.toList_append]
    exact ⟨by simp [hne], List.forall_mem_append.mpr ⟨hmark, hline⟩⟩
  refine List.forall_mem_cons.mpr ⟨?_, List.forall_mem_cons.mpr ⟨?_, List.forall_mem_map.mpr ?_⟩⟩
  · exact hmarked "# " t.name (by decide) (oneLine_of_all rfl) ht.name.oneLine
  · exact ⟨by simpa using hwf.definition_ne, ht.definition_line⟩
  · intro body hbody
    obtain ⟨s, hs⟩ := exists_isStatement_of_mem_sentences ht hwf.consistent.source_eq hbody
    exact hmarked "- " body (by decide) (oneLine_of_all rfl) hs.oneLine

/-- Terms are read as they were written, whether or not the last line is ended. -/
theorem terms_rendered (hts : ∀ t ∈ ts, t.IsWellFormed primitives ∧ t.IsPlain)
    (hnodup : (ts.map Term.key).Nodup) :
    terms primitives (rendered ts) = .ok (placed ts) ∧
      terms primitives ("\n".intercalate (ts.flatMap Term.entry)) = .ok (placed ts) := by
  have hlines : ∀ l ∈ (ts.flatMap Term.entry).map String.toList,
      l ≠ [] ∧ ∀ c ∈ l, isLineBreak c = false := by
    refine List.forall_mem_map.mpr fun line hline => ?_
    obtain ⟨t, ht, hline⟩ := List.mem_flatMap.mp hline
    exact oneLine_of_mem_entry (hts t ht).1 (hts t ht).2 line hline
  constructor
  · refine terms_of_lines hts hnodup ?_
    have htoList : (rendered ts).toList =
        ((ts.flatMap Term.entry).map String.toList).flatMap fun l => l ++ ['\n'] := by
      simp [rendered, List.flatMap_map]
    rw [htoList, lines_flatMap fun l hl => (hlines l hl).2]
  · refine terms_of_lines hts hnodup ?_
    rw [String.toList_intercalate]
    exact lines_intercalate hlines

/-- Names that begin with verb phrases. -/
def deedTerms : List Term := [
  ⟨"Has A Deed", "Who has a deed, whatever it says.", none, some "Is A Number", [
    ⟨.inherits, "Has A Deed", "Must Have", none⟩,
    ⟨.requires, "Has A Deed", "Is An Heir", none⟩], none⟩,
  ⟨"Is A Number", "#1 or another.", some "Integer", none,
    [⟨.primitiveType, "Is A Number", "Integer", some 7⟩], none⟩]

theorem deedTerms_isWellFormed :
    ∀ t ∈ deedTerms, t.IsWellFormed (.ofNames builtInPrimitives) := by
  refine List.forall_mem_cons.mpr ⟨?_, List.forall_mem_singleton.mpr ?_⟩
  · refine ⟨rfl, by decide, by decide, ?_, nofun⟩
    refine ⟨by decide, by decide, by decide, by decide, by decide, ?_⟩
    intro i hi
    obtain rfl := Option.some.inj hi
    decide
  · refine ⟨rfl, by decide, by decide, ?_, by decide⟩
    exact ⟨by decide, by decide, by decide, by decide, by decide, nofun⟩

theorem deeds_rendered :
    (∀ t ∈ deedTerms, t.IsPlain) ∧
    rendered deedTerms = "# Has A Deed\nWho has a deed, whatever it says.\n" ++
      "- Has A Deed is a Must Have\n- Has A Deed must have a Is An Heir\n" ++
      "- Has A Deed is identified by Is A Number\n" ++
      "# Is A Number\n#1 or another.\n- Is A Number is a Integer\n" ∧
    terms (.ofNames builtInPrimitives) (rendered deedTerms) = .ok [
      ⟨"Has A Deed", "Who has a deed, whatever it says.", none, some "Is A Number", [
        ⟨.inherits, "Has A Deed", "Must Have", some 3⟩,
        ⟨.requires, "Has A Deed", "Is An Heir", some 4⟩], some 1⟩,
      ⟨"Is A Number", "#1 or another.", some "Integer", none,
        [⟨.primitiveType, "Is A Number", "Integer", some 8⟩], some 6⟩] := by
  have hplain : ∀ t ∈ deedTerms, t.IsPlain := by
    refine List.forall_mem_cons.mpr ⟨?_, List.forall_mem_singleton.mpr ?_⟩
    · refine ⟨by decide, by decide, by decide, ?_, oneLine_of_all (by decide), rfl, rfl⟩
      intro i hi
      obtain rfl := Option.some.inj hi
      decide
    · exact ⟨by decide, by decide, by decide, nofun, oneLine_of_all (by decide), rfl, rfl⟩
  have hnodup : (deedTerms.map Term.key).Nodup := by decide +kernel
  obtain ⟨hterms, -⟩ := terms_rendered
    (fun t ht => ⟨deedTerms_isWellFormed t ht, hplain t ht⟩) hnodup
  exact ⟨hplain, by decide +kernel, hterms⟩

end Dictionary

end Glossary
